import Mathlib.Data.Nat.Find
import Mathlib.Order.Bounds.Basic

set_option autoImplicit false

/-!
# Streaks

`streak p i` counts how many of the numbers up to `i`, without a break, have `p`. Numbers count
from 1.

* `le_streak_iff`: a streak of `k` is made of the last `k` numbers;
* **`isLeast_streak_iff`**: a counter that is compared with `k` for equality, and may wrap around
  later on, first meets it where the streak first reaches `k`.
-/

variable (p : ℕ → Prop) [DecidablePred p]

/-- The length of the streak that ends at `i`. -/
def streak : ℕ → ℕ
  | 0 => 0
  | i + 1 => if p (i + 1) then streak i + 1 else 0

variable {p} {k n i : ℕ}

theorem streak_succ_le (i : ℕ) : streak p (i + 1) ≤ streak p i + 1 := by
  rw [streak]
  split_ifs
  · exact le_rfl
  · exact Nat.zero_le _

/-- **A streak of at least `k`**: there are `k` numbers, and the last `k` have `p`. -/
theorem le_streak_iff (k i : ℕ) : k ≤ streak p i ↔ k ≤ i ∧ ∀ j, i < j + k → j ≤ i → p j := by
  induction i generalizing k with
  | zero =>
    rw [streak]
    constructor
    · intro hk
      exact ⟨hk, fun j hj hji => absurd hj (by omega)⟩
    · exact fun h => h.1
  | succ i ih =>
    rw [streak]
    split_ifs with hp
    · cases k with
      | zero =>
        exact iff_of_true (Nat.zero_le _) ⟨Nat.zero_le _, fun j hj hji => absurd hj (by omega)⟩
      | succ k =>
        rw [Nat.succ_le_succ_iff, ih]
        constructor
        · rintro ⟨hk, hall⟩
          refine ⟨by omega, fun j hj hji => ?_⟩
          rcases Nat.lt_or_ge i j with hlt | hle
          · obtain rfl : j = i + 1 := by omega
            exact hp
          · exact hall j (by omega) hle
        · rintro ⟨hk, hall⟩
          exact ⟨by omega, fun j hj hji => hall j (by omega) (by omega)⟩
    · constructor
      · intro hk
        exact ⟨by omega, fun j hj hji => absurd hj (by omega)⟩
      · rintro ⟨-, hall⟩
        by_contra hk
        exact hp (hall (i + 1) (by omega) le_rfl)

/-- **The first streak of `k`** is where a test of the streak that holds at `k`, and at nothing
shorter, is first met. -/
theorem isLeast_streak_iff {q : ℕ → Prop} (hk : 1 ≤ k) (hq : q k) (hle : ∀ m, q m → k ≤ m) :
    IsLeast {i | 1 ≤ i ∧ i ≤ n ∧ q (streak p i)} i ↔
      IsLeast {i | 1 ≤ i ∧ i ≤ n ∧ k ≤ streak p i} i := by
  -- the streak grows by one at most, so that it does not jump over `k`
  have first : ∀ m, IsLeast {i | 1 ≤ i ∧ i ≤ n ∧ k ≤ streak p i} m → streak p m = k := by
    rintro m ⟨⟨h1, hn, hkm⟩, hleast⟩
    obtain ⟨j, rfl⟩ : ∃ j, m = j + 1 := ⟨m - 1, by omega⟩
    have hj : streak p j < k := by
      rcases Nat.eq_zero_or_pos j with rfl | hpos
      · rw [streak]
        exact hk
      · by_contra hkj
        have := hleast ⟨hpos, by omega, not_lt.mp hkj⟩
        omega
    have := streak_succ_le (p := p) j
    omega
  have met : ∀ m, IsLeast {i | 1 ≤ i ∧ i ≤ n ∧ k ≤ streak p i} m → q (streak p m) := by
    intro m hm
    rw [first m hm]
    exact hq
  constructor
  · rintro ⟨⟨h1, hn, hqi⟩, hleast⟩
    refine ⟨⟨h1, hn, hle _ hqi⟩, fun j hj => ?_⟩
    have hex : ∃ m, m ∈ {i | 1 ≤ i ∧ i ≤ n ∧ k ≤ streak p i} := ⟨j, hj⟩
    have hmin : IsLeast {i | 1 ≤ i ∧ i ≤ n ∧ k ≤ streak p i} (Nat.find hex) :=
      ⟨Nat.find_spec hex, fun m hm => Nat.find_min' hex hm⟩
    exact (hleast ⟨hmin.1.1, hmin.1.2.1, met _ hmin⟩).trans (hmin.2 hj)
  · intro h
    exact ⟨⟨h.1.1, h.1.2.1, met i h⟩, fun j hj => h.2 ⟨hj.1, hj.2.1, hle _ hj.2.2⟩⟩
