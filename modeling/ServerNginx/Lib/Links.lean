import Mathlib.Data.List.Nodup
import Mathlib.Data.List.Range
import Mathlib.Logic.Function.Basic

set_option autoImplicit false

/-!
# Singly linked lists in a store

`Links next p xs`: from the pointer `p`, the links `next` lead through exactly the nodes `xs` and
then to null. A chain that ends never meets a node twice (`Links.nodup`), since the links of a
node do not depend on how it was reached; a cycle is a pointer with no such `xs`.
-/

variable {α : Type*}

/-- The nodes met from `p` on. -/
inductive Links (next : α → Option α) : Option α → List α → Prop
  | nil : Links next none []
  | cons {a : α} {xs : List α} (h : Links next (next a) xs) : Links next (some a) (a :: xs)

namespace Links

variable {next next' : α → Option α} {p : Option α} {a : α} {xs ys : List α}

theorem eq_none_iff (h : Links next p xs) : p = none ↔ xs = [] := by
  cases h <;> simp

theorem tail (h : Links next (some a) xs) : ∃ ys, xs = a :: ys ∧ Links next (next a) ys := by
  cases h with
  | cons h => exact ⟨_, rfl, h⟩

theorem unique (h : Links next p xs) (h' : Links next p ys) : xs = ys := by
  induction h generalizing ys with
  | nil => exact (h'.eq_none_iff.mp rfl).symm
  | cons _ ih =>
    obtain ⟨zs, rfl, hz⟩ := h'.tail
    rw [ih hz]

theorem of_mem (h : Links next p xs) (ha : a ∈ xs) :
    ∃ ys, Links next (some a) ys ∧ ys.length ≤ xs.length := by
  induction h with
  | nil => simp at ha
  | @cons b zs h ih =>
    rcases List.mem_cons.mp ha with rfl | ha
    · exact ⟨a :: zs, .cons h, le_rfl⟩
    · obtain ⟨ys, hy, hl⟩ := ih ha
      exact ⟨ys, hy, hl.trans (Nat.le_succ _)⟩

theorem mem_of_next (h : Links next p xs) (ha : a ∈ xs) {b : α} (hb : next a = some b) :
    b ∈ xs := by
  induction h with
  | nil => simp at ha
  | @cons c zs h ih =>
    rcases List.mem_cons.mp ha with rfl | ha
    · rw [hb] at h
      obtain ⟨ys, rfl, -⟩ := h.tail
      exact List.mem_cons_of_mem _ List.mem_cons_self
    · exact List.mem_cons_of_mem _ (ih ha)

/-- **A chain that ends has no node twice.** -/
theorem nodup (h : Links next p xs) : xs.Nodup := by
  induction h with
  | nil => exact List.nodup_nil
  | @cons a zs h ih =>
    refine List.nodup_cons.mpr ⟨fun ha => ?_, ih⟩
    obtain ⟨ys, hy, hl⟩ := h.of_mem ha
    have := hy.unique (.cons h)
    rw [this, List.length_cons] at hl
    omega

theorem congr (h : Links next p xs) (he : ∀ a ∈ xs, next' a = next a) : Links next' p xs := by
  induction h with
  | nil => exact .nil
  | @cons a zs h ih =>
    apply cons
    rw [he a List.mem_cons_self]
    exact ih fun b hb => he b (List.mem_cons_of_mem _ hb)

theorem push [DecidableEq α] (h : Links next p xs) (ha : a ∉ xs) :
    Links (Function.update next a p) (some a) (a :: xs) := by
  apply cons
  rw [Function.update_self]
  apply h.congr
  intro b hb
  have hne : b ≠ a := by
    rintro rfl
    exact ha hb
  exact Function.update_of_ne hne _ _

end Links
