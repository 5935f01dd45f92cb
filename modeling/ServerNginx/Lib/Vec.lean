import Mathlib.Data.List.Nodup
import Mathlib.Data.Nat.Notation

set_option autoImplicit false

/-!
# Vectors and references to their elements

A `std::vector` keeps its elements in a block of `capacity` cells. A reference names the block and
the cell, so it leads to the same element as long as that is not moved.

* `get_emplaceBack`: below the capacity `emplace_back` moves no element;
* **`get_erase_iff`**: `erase` keeps exactly the elements before the one erased where they are.
-/

/-- A vector, with the number of times its elements have been moved to another block. -/
structure Vec (α : Type*) where
  cells : List α
  capacity : ℕ
  block : ℕ

namespace Vec

variable {α : Type*}

/-- A reference to an element. -/
structure Ref where
  block : ℕ
  idx : ℕ
  deriving DecidableEq

/-- A vector behind `reserve(n)`. -/
def reserved (n : ℕ) : Vec α := ⟨[], n, 0⟩

/-- `emplace_back(a)`, with the reference `back()`; a full block is left for one twice as large. -/
def emplaceBack (v : Vec α) (a : α) : Vec α × Ref :=
  if v.cells.length < v.capacity then
    (⟨v.cells ++ [a], v.capacity, v.block⟩, ⟨v.block, v.cells.length⟩)
  else
    (⟨v.cells ++ [a], max 1 (2 * v.cells.length), v.block + 1⟩, ⟨v.block + 1, v.cells.length⟩)

/-- `erase(begin() + k)`. -/
def erase (v : Vec α) (k : ℕ) : Vec α := { v with cells := v.cells.eraseIdx k }

/-- The element a reference leads to. -/
def get (v : Vec α) (r : Ref) : Option α := if r.block = v.block then v.cells[r.idx]? else none

variable {v : Vec α} {r : Ref} {a b : α} {k : ℕ}

theorem get_eq_some_iff : v.get r = some a ↔ r.block = v.block ∧ v.cells[r.idx]? = some a :=
  Option.ite_none_right_eq_some

theorem cells_emplaceBack (v : Vec α) (a : α) : (v.emplaceBack a).1.cells = v.cells ++ [a] := by
  unfold emplaceBack
  split <;> rfl

theorem emplaceBack_of_lt (h : v.cells.length < v.capacity) : v.emplaceBack a =
    (⟨v.cells ++ [a], v.capacity, v.block⟩, ⟨v.block, v.cells.length⟩) := if_pos h

/-- **Below the capacity** every element stays where it is. -/
theorem get_emplaceBack (h : v.cells.length < v.capacity) (hr : v.get r = some a) :
    (v.emplaceBack b).1.get r = some a := by
  obtain ⟨hb, hi⟩ := get_eq_some_iff.mp hr
  rw [emplaceBack_of_lt h]
  exact get_eq_some_iff.mpr ⟨hb, List.getElem?_append_left (List.getElem?_eq_some_iff.mp hi).1 ▸ hi⟩

theorem get_back (h : v.cells.length < v.capacity) :
    (v.emplaceBack a).1.get (v.emplaceBack a).2 = some a := by
  rw [emplaceBack_of_lt h]
  exact get_eq_some_iff.mpr ⟨rfl, List.getElem?_concat_length⟩

/-- **What `erase` moves**: the elements from the one erased on. -/
theorem get_erase_iff (hn : v.cells.Nodup) (hr : v.get r = some a) :
    (v.erase k).get r = some a ↔ r.idx < k := by
  obtain ⟨hb, hi⟩ := get_eq_some_iff.mp hr
  have herase : (v.erase k).get r = some a ↔ (v.cells.eraseIdx k)[r.idx]? = some a :=
    get_eq_some_iff.trans (and_iff_right hb)
  rw [herase, List.getElem?_eraseIdx]
  split_ifs with hk
  · exact iff_of_true hi hk
  · refine iff_of_false (fun hnext => ?_) hk
    have hlt := (List.getElem?_eq_some_iff.mp hi).1
    have hsame := (List.getElem?_inj hlt hn).mp (hi.trans hnext.symm)
    omega

/-- So an element is found where it was unless it stands behind the one erased. -/
theorem get_erase_iff_notMem (hn : v.cells.Nodup) (hr : v.get r = some a) :
    (v.erase k).get r = some a ↔ a ∉ v.cells.drop k := by
  rw [get_erase_iff hn hr]
  have hcell := (get_eq_some_iff.mp hr).2
  constructor
  · intro hlt hmem
    obtain ⟨m, hm⟩ := List.mem_iff_getElem?.mp hmem
    rw [List.getElem?_drop] at hm
    have hsame := (List.getElem?_inj (List.getElem?_eq_some_iff.mp hcell).1 hn).mp
      (hcell.trans hm.symm)
    omega
  · intro hni
    by_contra hge
    refine hni (List.mem_iff_getElem?.mpr ⟨r.idx - k, ?_⟩)
    rw [List.getElem?_drop, Nat.add_sub_cancel' (Nat.not_lt.mp hge), hcell]

end Vec
