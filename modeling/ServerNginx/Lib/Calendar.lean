import Mathlib.Algebra.BigOperators.Group.List.Basic
import Mathlib.Algebra.Order.Ring.Int
import Mathlib.Logic.Equiv.Defs

set_option autoImplicit false

/-!
# The Gregorian calendar

Days are counted from the first of January of the year 1, in the calendar extended to all years.

* `yearStart`: the first day of a year; `yearOf`: the year of a day, `yearOf_eq_iff`;
* `place`: the part of a list of lengths that a position lies in;
* **`Date.equivDays`**: dates and days correspond one to one.
-/

namespace Calendar

/-- A year with 366 days. -/
def Leap (y : ℤ) : Prop := y % 4 = 0 ∧ (y % 100 ≠ 0 ∨ y % 400 = 0)

instance (y : ℤ) : Decidable (Leap y) := inferInstanceAs (Decidable (_ ∧ _))

/-- The days of a year. -/
def yearLength (y : ℤ) : ℕ := if Leap y then 366 else 365

/-- The days of the months. -/
def monthLengths (y : ℤ) : List ℕ :=
  [31, if Leap y then 29 else 28, 31, 30, 31, 30, 31, 31, 30, 31, 30, 31]

/-- The first day of a year. -/
def yearStart (y : ℤ) : ℤ := 365 * (y - 1) + (y - 1) / 4 - (y - 1) / 100 + (y - 1) / 400

/-- The year of a day: a year has 146097 / 400 days on average. -/
def yearOf (n : ℤ) : ℤ :=
  let y := 400 * n / 146097 + 1
  if n < yearStart y then y - 1
  else if yearStart (y + 1) ≤ n then y + 1
  else y

theorem sum_monthLengths (y : ℤ) : (monthLengths y).sum = yearLength y := by
  unfold monthLengths yearLength
  split_ifs <;> rfl

theorem yearStart_succ (y : ℤ) : yearStart (y + 1) = yearStart y + yearLength y := by
  unfold yearStart yearLength
  split_ifs with h <;> unfold Leap at h
  · omega
  · omega

theorem yearStart_mono {y z : ℤ} (h : y ≤ z) : yearStart y ≤ yearStart z := by
  unfold yearStart
  omega

theorem yearOf_spec (n : ℤ) : yearStart (yearOf n) ≤ n ∧ n < yearStart (yearOf n + 1) := by
  unfold yearOf
  dsimp only
  generalize hy : 400 * n / 146097 + 1 = y
  have hbounds : yearStart (y - 1) ≤ n ∧ n < yearStart (y + 2) := by
    unfold yearStart
    omega
  split_ifs with h h'
  · rw [sub_add_cancel]
    exact ⟨hbounds.1, h⟩
  · rw [add_assoc]
    exact ⟨h', hbounds.2⟩
  · exact ⟨not_lt.mp h, not_le.mp h'⟩

/-- **The year of a day** is the one that has begun and not ended. -/
theorem yearOf_eq_iff {n y : ℤ} : yearOf n = y ↔ yearStart y ≤ n ∧ n < yearStart (y + 1) := by
  constructor
  · rintro rfl
    exact yearOf_spec n
  · rintro ⟨hlo, hhi⟩
    obtain ⟨hlo', hhi'⟩ := yearOf_spec n
    by_contra hne
    rcases lt_or_gt_of_ne hne with hlt | hgt
    · exact absurd (yearStart_mono hlt) (not_le.mpr (hhi'.trans_le' hlo))
    · exact absurd (yearStart_mono hgt) (not_le.mpr (hhi.trans_le' hlo'))

/-! ## Lengths laid one behind the other -/

/-- The part that position `n` lies in, and the position in it. -/
def place : List ℕ → ℕ → ℕ × ℕ
  | [], n => (0, n)
  | l :: ls, n => if n < l then (0, n) else ((place ls (n - l)).1 + 1, (place ls (n - l)).2)

theorem place_sum (ls : List ℕ) (n : ℕ) :
    (ls.take (place ls n).1).sum + (place ls n).2 = n := by
  induction ls generalizing n with
  | nil => exact Nat.zero_add n
  | cons l ls ih =>
    rw [place]
    split_ifs with h
    · exact Nat.zero_add n
    · rw [List.take_succ_cons, List.sum_cons, Nat.add_assoc, ih]
      omega

theorem place_lt {ls : List ℕ} {n : ℕ} (h : n < ls.sum) :
    ∃ l, ls[(place ls n).1]? = some l ∧ (place ls n).2 < l := by
  induction ls generalizing n with
  | nil => exact absurd h (Nat.not_lt_zero n)
  | cons l ls ih =>
    rw [List.sum_cons] at h
    rw [place]
    split_ifs with hl
    · exact ⟨l, rfl, hl⟩
    · rw [List.getElem?_cons_succ]
      exact ih (by omega)

theorem place_eq {ls : List ℕ} {i k l : ℕ} (hl : ls[i]? = some l) (hk : k < l) :
    place ls ((ls.take i).sum + k) = (i, k) := by
  induction ls generalizing i with
  | nil => cases hl
  | cons m ls ih =>
    cases i with
    | zero =>
      cases hl
      rw [List.take_zero, List.sum_nil, Nat.zero_add, place, if_pos hk]
    | succ i =>
      rw [List.getElem?_cons_succ] at hl
      have hsub : m + (ls.take i).sum + k - m = (ls.take i).sum + k := by omega
      rw [List.take_succ_cons, List.sum_cons, place, if_neg (by omega), hsub, ih hl]

/-! ## Dates -/

/-- The day of month `m` of a year, the months counted from 0 and the days from 1; a day behind the
end of its month is one of the next. -/
def daysOf (y : ℤ) (m : ℕ) (d : ℤ) : ℤ := yearStart y + ((monthLengths y).take m).sum + (d - 1)

/-- A date. -/
@[ext]
structure Date where
  year : ℤ
  month : ℕ
  day : ℕ
  day_pos : 1 ≤ day
  day_le : ∃ l, (monthLengths year)[month]? = some l ∧ day ≤ l
  deriving DecidableEq

namespace Date

variable (d : Date)

theorem month_lt : d.month < 12 := by
  obtain ⟨l, hl, -⟩ := d.day_le
  exact (List.getElem?_eq_some_iff.mp hl).1

theorem day_le_31 : d.day ≤ 31 := by
  obtain ⟨l, hl, hle⟩ := d.day_le
  have hall : ∀ l ∈ monthLengths d.year, l ≤ 31 := by
    unfold monthLengths
    split_ifs <;> decide
  exact hle.trans (hall l (List.mem_of_getElem? hl))

/-- The days up to a date. -/
def toDays : ℤ := daysOf d.year d.month d.day

/-- The place of a day in its year. -/
def placeOf (n : ℤ) : ℕ × ℕ := place (monthLengths (yearOf n)) (n - yearStart (yearOf n)).toNat

theorem placeOf_lt (n : ℤ) :
    ∃ l, (monthLengths (yearOf n))[(placeOf n).1]? = some l ∧ (placeOf n).2 < l := by
  apply place_lt
  obtain ⟨hlo, hhi⟩ := yearOf_spec n
  rw [yearStart_succ] at hhi
  rw [sum_monthLengths]
  omega

/-- The date of a day. -/
def ofDays (n : ℤ) : Date where
  year := yearOf n
  month := (placeOf n).1
  day := (placeOf n).2 + 1
  day_pos := Nat.succ_pos _
  day_le := by
    obtain ⟨l, hl, hlt⟩ := placeOf_lt n
    exact ⟨l, hl, hlt⟩

theorem toDays_ofDays (n : ℤ) : (ofDays n).toDays = n := by
  have hsum := place_sum (monthLengths (yearOf n)) (n - yearStart (yearOf n)).toNat
  obtain ⟨hlo, -⟩ := yearOf_spec n
  unfold toDays daysOf ofDays placeOf
  dsimp only
  omega

theorem yearOf_toDays : yearOf d.toDays = d.year := by
  obtain ⟨l, hl, hle⟩ := d.day_le
  have hpos := d.day_pos
  have hpart : ((monthLengths d.year).take d.month).sum + l ≤ (monthLengths d.year).sum := by
    obtain ⟨hlt, rfl⟩ := List.getElem?_eq_some_iff.mp hl
    rw [← List.sum_take_succ _ _ hlt,
      ← List.sum_take_add_sum_drop (monthLengths d.year) (d.month + 1)]
    exact Nat.le_add_right _ _
  rw [sum_monthLengths] at hpart
  rw [yearOf_eq_iff, yearStart_succ]
  unfold toDays daysOf
  omega

theorem ofDays_toDays : ofDays d.toDays = d := by
  obtain ⟨l, hl, hle⟩ := d.day_le
  have hpos := d.day_pos
  have hplace : placeOf d.toDays = (d.month, d.day - 1) := by
    have heq := place_eq hl (show d.day - 1 < l by omega)
    rw [placeOf, yearOf_toDays, ← heq]
    congr 1
    unfold toDays daysOf
    omega
  ext
  · exact yearOf_toDays d
  · exact congrArg Prod.fst hplace
  · show (placeOf d.toDays).2 + 1 = d.day
    rw [hplace]
    exact Nat.sub_add_cancel hpos

/-- **Dates and days** correspond one to one. -/
def equivDays : Date ≃ ℤ where
  toFun := toDays
  invFun := ofDays
  left_inv := ofDays_toDays
  right_inv := toDays_ofDays

end Date

/-- The day of the week, Sunday being 0. -/
def weekday (n : ℤ) : ℕ := ((n + 1) % 7).toNat

theorem weekday_lt (n : ℤ) : weekday n < 7 := by
  unfold weekday
  omega

/-- 29 February 2024, a Thursday. -/
example : Date.equivDays.symm 738944 = ⟨2024, 1, 29, by decide, by decide⟩ ∧
    weekday 738944 = 4 := by decide +kernel

end Calendar
