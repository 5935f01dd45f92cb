import Mathlib.Data.List.Nodup
import Mathlib.Data.List.Perm.Basic

set_option autoImplicit false

/-!
# Ordered multisets

`std::multiset` with a comparison, as the list of its elements in order. Elements that compare
equal stand in the order of insertion; `erase` by key takes all of them out.

* `insert`, `erase`;
* `perm_insert`, `sorted_insert`: insertion adds one element and keeps the order;
* `least_of_sorted`: no element is less than the first one;
* `perm_erase`: where no other element compares equal, `erase` takes one out.
-/

namespace OrdMultiset

variable {α : Type*} (lt : α → α → Bool)

/-- `std::multiset::insert`: behind the elements that compare equal. -/
def insert (x : α) (l : List α) : List α :=
  l.takeWhile (fun y => !lt x y) ++ x :: l.dropWhile (fun y => !lt x y)

/-- `std::multiset::erase` by key. -/
def erase (x : α) (l : List α) : List α := l.filter fun y => lt x y || lt y x

/-- The elements are in order. -/
def Sorted (l : List α) : Prop := l.Pairwise fun x y => lt y x = false

variable {lt} {x y : α} {l : List α}

theorem perm_insert : (insert lt x l).Perm (x :: l) := by
  have h : l.takeWhile (fun y => !lt x y) ++ l.dropWhile (fun y => !lt x y) = l :=
    List.takeWhile_append_dropWhile
  exact List.perm_middle.trans (List.Perm.cons x (.of_eq h))

theorem mem_insert : y ∈ insert lt x l ↔ y = x ∨ y ∈ l := by
  rw [perm_insert.mem_iff, List.mem_cons]

/-- **Insertion keeps the order.** -/
theorem sorted_insert (irrefl : ∀ a, lt a a = false)
    (trans : ∀ a b c, lt a b = true → lt b c = true → lt a c = true) (h : Sorted lt l) :
    Sorted lt (insert lt x l) := by
  have asymm : ∀ a b, lt a b = true → lt b a = false := by
    intro a b hab
    by_contra hba
    have := trans a b a hab (by simpa using hba)
    simp [irrefl] at this
  induction l with
  | nil => exact List.pairwise_singleton _ _
  | cons y l ih =>
    obtain ⟨hy, hl⟩ := List.pairwise_cons.mp h
    by_cases hxy : lt x y = true
    · have : insert lt x (y :: l) = x :: y :: l := by simp [insert, hxy]
      rw [this]
      refine List.pairwise_cons.mpr ⟨fun z hz => ?_, h⟩
      rcases List.mem_cons.mp hz with rfl | hz
      · exact asymm x z hxy
      · by_contra hzx
        have := trans z x y (by simpa using hzx) hxy
        simp [hy z hz] at this
    · have hxy : lt x y = false := by simpa using hxy
      have : insert lt x (y :: l) = y :: insert lt x l := by simp [insert, hxy]
      rw [this]
      refine List.pairwise_cons.mpr ⟨fun z hz => ?_, ih hl⟩
      rcases mem_insert.mp hz with rfl | hz
      · exact hxy
      · exact hy z hz

theorem perm_insert_all (xs : List α) : (xs.foldr (insert lt) l).Perm (xs ++ l) := by
  induction xs with
  | nil => exact .refl _
  | cons x xs ih => exact perm_insert.trans (ih.cons x)

theorem sorted_insert_all (irrefl : ∀ a, lt a a = false)
    (trans : ∀ a b c, lt a b = true → lt b c = true → lt a c = true) (h : Sorted lt l)
    (xs : List α) : Sorted lt (xs.foldr (insert lt) l) := by
  induction xs with
  | nil => exact h
  | cons x xs ih => exact sorted_insert irrefl trans ih

theorem sorted_erase (h : Sorted lt l) : Sorted lt (erase lt x l) := h.filter _

/-- **The first element.** -/
theorem least_of_sorted (irrefl : ∀ a, lt a a = false) (h : Sorted lt (x :: l)) :
    ∀ y ∈ x :: l, lt y x = false := by
  intro y hy
  rcases List.mem_cons.mp hy with rfl | hy
  · exact irrefl y
  · exact List.rel_of_pairwise_cons h hy

/-- **Erasing one element.** -/
theorem perm_erase (irrefl : ∀ a, lt a a = false) {l' : List α} (hp : l.Perm (x :: l'))
    (hk : ∀ y ∈ l', lt x y = true ∨ lt y x = true) : (erase lt x l).Perm l' := by
  have := hp.filter fun y => lt x y || lt y x
  rw [List.filter_cons_of_neg (by simp [irrefl])] at this
  have hl : l'.filter (fun y => lt x y || lt y x) = l' :=
    List.filter_eq_self.mpr fun y hy => by simpa using hk y hy
  rwa [hl] at this

end OrdMultiset
