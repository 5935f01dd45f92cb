import Mathlib.Data.List.Basic
import Mathlib.Data.Nat.Notation

set_option autoImplicit false

/-!
# Ledgers of what is created and dropped

A log of blocks that are created, used and dropped; `none` is an address at which there is no block.
`Settled live ops`: from the blocks `live` on, every use and every drop is of a block that is there,
and at the end none is left.

* `settled_uses`: uses in a row;
* `not_settled_of_mem`: a block that is never dropped is left;
* **`Settled.count_drop`**: in a settled log every block is dropped as often as it is created.
-/

namespace Ledger

variable {α : Type*}

/-- What happens to blocks. -/
inductive Op (α : Type*)
  | create (a : α)
  | use (a : Option α)
  | drop (a : Option α)
  deriving DecidableEq

variable [DecidableEq α]

/-- Every block used or dropped is there, and none is left. -/
def Settled : List α → List (Op α) → Prop
  | live, [] => live = []
  | live, .create a :: ops => Settled (a :: live) ops
  | live, .use a :: ops => (∃ b ∈ a, b ∈ live) ∧ Settled live ops
  | live, .drop a :: ops => ∃ b ∈ a, b ∈ live ∧ Settled (live.erase b) ops

instance decidableSettled : ∀ (live : List α) (ops : List (Op α)), Decidable (Settled live ops)
  | live, [] => inferInstanceAs (Decidable (live = []))
  | live, .create a :: ops => decidableSettled (a :: live) ops
  | live, .use none :: ops => isFalse fun h => by
      obtain ⟨⟨b, hb, -⟩, -⟩ := h
      cases hb
  | live, .use (some b) :: ops =>
    have := decidableSettled live ops
    decidable_of_iff (b ∈ live ∧ Settled live ops) (by simp [Settled])
  | live, .drop none :: ops => isFalse fun h => by
      obtain ⟨b, hb, -⟩ := h
      cases hb
  | live, .drop (some b) :: ops =>
    have := decidableSettled (live.erase b) ops
    decidable_of_iff (b ∈ live ∧ Settled (live.erase b) ops) (by simp [Settled])

variable {live : List α} {ops : List (Op α)} {a b : α}

@[simp] theorem settled_nil : Settled live [] ↔ live = [] := Iff.rfl

@[simp] theorem settled_create : Settled live (.create a :: ops) ↔ Settled (a :: live) ops :=
  Iff.rfl

@[simp] theorem settled_drop_none : ¬ Settled live (.drop none :: ops) := by
  simp [Settled]

@[simp] theorem settled_drop_some :
    Settled live (.drop (some b) :: ops) ↔ b ∈ live ∧ Settled (live.erase b) ops := by
  simp [Settled]

/-- **Uses in a row** change nothing. -/
theorem settled_uses {us : List (Option α)} :
    Settled live (us.map .use ++ ops) ↔ (∀ a ∈ us, ∃ b ∈ a, b ∈ live) ∧ Settled live ops := by
  induction us with
  | nil => simp
  | cons a us ih =>
    rw [List.map_cons, List.cons_append, Settled, ih, List.forall_mem_cons, and_assoc]

theorem not_settled_of_mem (ha : a ∈ live) (hd : .drop (some a) ∉ ops) : ¬ Settled live ops := by
  induction ops generalizing live with
  | nil =>
    rintro rfl
    cases ha
  | cons op ops ih =>
    rw [List.mem_cons, not_or] at hd
    cases op with
    | create c => exact ih (List.mem_cons_of_mem c ha) hd.2
    | use c => exact fun hs => ih ha hd.2 hs.2
    | drop c =>
      rintro ⟨b, rfl, -, hs⟩
      have hne : a ≠ b := fun hab => hd.1 (by rw [hab])
      exact ih ((List.mem_erase_of_ne hne).mpr ha) hd.2 hs

/-- **Every block is dropped as often as it is created**, counting those that were there before. -/
theorem Settled.count_drop (hs : Settled live ops) :
    ops.count (.drop (some a)) = live.count a + ops.count (.create a) := by
  induction ops generalizing live with
  | nil =>
    rw [settled_nil.mp hs]
    rfl
  | cons op ops ih =>
    cases op with
    | create c =>
      have h := ih (settled_create.mp hs)
      by_cases hca : c = a
      · subst hca
        simp at h ⊢
        omega
      · simpa [hca] using h
    | use c => simpa using ih hs.2
    | drop c =>
      obtain ⟨b, rfl, hb, hs⟩ := hs
      have h := ih hs
      by_cases hba : b = a
      · subst hba
        have hpos := List.count_pos_iff.mpr hb
        rw [List.count_erase_self] at h
        simp
        omega
      · rw [List.count_erase_of_ne (Ne.symm hba)] at h
        simpa [hba] using h

end Ledger
