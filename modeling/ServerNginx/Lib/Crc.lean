import Mathlib.Data.BitVec
import Mathlib.Logic.Function.Iterate

set_option autoImplicit false

/-!
# Cyclic redundancy checks, bit by bit

The register of a reflected CRC of width `w` with the polynomial `p` (reflected as well). A step
shifts the register to the right and adds `p` where the bit shifted out differs from the data bit.

* `shift_xor`: without data, the step is linear;
* `run_eq_iterate`: up to `w` data bits at once, as the low bits of one word;
* `iterate_shift_split`: what a table of the words of `n` bits is good for;
* **`run_ne_of_burst`**: data that differ inside one window of `w` bits leave different registers,
  if the top bit of `p` is set.
-/

namespace Crc

variable {w : ℕ} (p : BitVec w)

/-- The register shifted, with no data. -/
def shift (s : BitVec w) : BitVec w := if s.getLsbD 0 then (s >>> 1) ^^^ p else s >>> 1

/-- The register behind one data bit. -/
def step (s : BitVec w) (d : Bool) : BitVec w :=
  if s.getLsbD 0 ^^ d then (s >>> 1) ^^^ p else s >>> 1

/-- The register behind a list of data bits. -/
def run (s : BitVec w) (ds : List Bool) : BitVec w := ds.foldl (step p) s

/-- A word made of data bits, the first of them the lowest. -/
def word (w : ℕ) : List Bool → BitVec w
  | [] => 0#w
  | d :: ds => (word w ds <<< 1) ^^^ (BitVec.ofBool d).setWidth w

variable {p} {s t : BitVec w}

theorem run_append (ds es : List Bool) : run p s (ds ++ es) = run p (run p s ds) es :=
  List.foldl_append

/-! ## The register is linear -/

theorem shift_xor (s t : BitVec w) : shift p (s ^^^ t) = shift p s ^^^ shift p t := by
  unfold shift
  rw [BitVec.getLsbD_xor, BitVec.ushiftRight_xor_distrib]
  cases s.getLsbD 0 <;> cases t.getLsbD 0 <;> simp only [Bool.xor_false, Bool.xor_true,
    Bool.not_true, Bool.not_false, Bool.false_eq_true, if_true, if_false]
  · ac_rfl
  · ac_rfl
  · rw [BitVec.xor_assoc, ← BitVec.xor_assoc p, BitVec.xor_comm p, BitVec.xor_assoc,
      BitVec.xor_self, BitVec.xor_zero]

theorem iterate_shift_xor (n : ℕ) (s t : BitVec w) :
    (shift p)^[n] (s ^^^ t) = (shift p)^[n] s ^^^ (shift p)^[n] t := by
  induction n generalizing s t with
  | zero => rfl
  | succ n ih => simp only [Function.iterate_succ_apply, shift_xor, ih]

theorem step_eq_shift (hw : 0 < w) (s : BitVec w) (d : Bool) :
    step p s d = shift p (s ^^^ (BitVec.ofBool d).setWidth w) := by
  have hlow : (s ^^^ (BitVec.ofBool d).setWidth w).getLsbD 0 = (s.getLsbD 0 ^^ d) := by
    simp [hw]
  have hout : (s ^^^ (BitVec.ofBool d).setWidth w) >>> 1 = s >>> 1 := by
    ext i hi
    simp
  rw [step, shift, hlow, hout]

/-! ## Several bits at once -/

theorem shift_of_even (h : s.getLsbD 0 = false) : shift p s = s >>> 1 := by
  rw [shift, h, if_neg Bool.false_ne_true]

theorem getLsbD_word (ds : List Bool) (i : ℕ) (hi : i < w) :
    (word w ds).getLsbD i = ds[i]?.getD false := by
  induction ds generalizing i with
  | nil => exact BitVec.getLsbD_zero
  | cons d ds ih =>
    cases i with
    | zero => simp [word, hi]
    | succ i =>
      have hi' : i < w := by omega
      simpa [word, hi, BitVec.getLsbD_eq_getElem hi'] using ih i hi'

/-- **Data bits are added to the low bits of the register**, where it has room for them. -/
theorem run_eq_iterate (ds : List Bool) (hds : ds.length ≤ w) (s : BitVec w) :
    run p s ds = (shift p)^[ds.length] (s ^^^ word w ds) := by
  induction ds generalizing s with
  | nil => exact (BitVec.xor_zero (x := s)).symm
  | cons d ds ih =>
    rw [List.length_cons] at hds
    have htail : shift p (word w ds <<< 1) = word w ds := by
      rw [shift_of_even (by simp)]
      ext i hi
      -- the bit that is shifted out at the top is clear
      by_cases htop : i + 1 < w
      · simp [Nat.add_comm 1 i, htop]
      · have := getLsbD_word ds i hi
        rw [BitVec.getLsbD_eq_getElem hi, List.getElem?_eq_none (by omega)] at this
        simp [Nat.add_comm 1 i, htop, this]
    have hsplit : s ^^^ word w (d :: ds) =
        (s ^^^ (BitVec.ofBool d).setWidth w) ^^^ (word w ds <<< 1) := by
      rw [word]
      ac_rfl
    rw [List.length_cons, Function.iterate_succ_apply, hsplit, shift_xor, htail,
      ← step_eq_shift (by omega)]
    exact ih (by omega) _

theorem iterate_shift_of_low (n : ℕ) (h : ∀ i < n, s.getLsbD i = false) :
    (shift p)^[n] s = s >>> n := by
  induction n with
  | zero => rfl
  | succ n ih =>
    have hn : (s >>> n).getLsbD 0 = false := by simpa using h n (Nat.lt_succ_self n)
    rw [Function.iterate_succ_apply', ih fun i hi => h i (by omega), shift_of_even hn,
      BitVec.shiftRight_add]

/-- **A table is enough**: `n` shifts of a word are the word moved down, and `n` shifts of its low
`n` bits. -/
theorem iterate_shift_split (n : ℕ) (s : BitVec w) :
    (shift p)^[n] s = (s >>> n) ^^^ (shift p)^[n] ((s.setWidth n).setWidth w) := by
  have hsplit : s = ((s >>> n) <<< n) ^^^ (s.setWidth n).setWidth w := by
    ext i hi
    by_cases hlow : i < n
    · simp [hlow, hi]
    · simp [hlow, hi, show n + (i - n) = i by omega]
  have hhigh : ((s >>> n) <<< n) >>> n = s >>> n := by
    ext i hi
    by_cases htop : n + i < w
    · simp [htop]
    · simp [htop, BitVec.getLsbD_of_ge s (n + i) (not_lt.mp htop)]
  have hlow : ∀ i < n, ((s >>> n) <<< n).getLsbD i = false := by
    intro i hi
    simp [hi]
  conv_lhs => rw [hsplit]
  rw [iterate_shift_xor, iterate_shift_of_low n hlow, hhigh]

/-! ## Nothing is lost -/

section top

variable (htop : p.getLsbD (w - 1) = true)

include htop

theorem pos_of_top : 0 < w := by
  rcases Nat.eq_zero_or_pos w with rfl | h
  · simp at htop
  · exact h

theorem shift_eq_zero (h : shift p s = 0#w) : s = 0#w := by
  have hw := pos_of_top htop
  have hbit : s.getLsbD 0 = false := by
    by_contra hs
    rw [Bool.not_eq_false] at hs
    have := congrArg (fun t => BitVec.getLsbD t (w - 1)) h
    simp [shift, hs, htop, show 1 + (w - 1) = w by omega] at this
  rw [shift_of_even hbit] at h
  ext i hi
  rcases Nat.eq_zero_or_pos i with rfl | hpos
  · simpa [BitVec.getLsbD_eq_getElem hi] using hbit
  · have := congrArg (fun t => BitVec.getLsbD t (i - 1)) h
    simpa [show 1 + (i - 1) = i by omega, hi] using this

theorem shift_injective : Function.Injective (shift p) := by
  intro s t h
  have hzero : s ^^^ t = 0#w := by
    refine shift_eq_zero htop ?_
    rw [shift_xor, h, BitVec.xor_self]
  exact BitVec.xor_eq_zero_iff.mp hzero

theorem run_injective (ds : List Bool) : Function.Injective fun s => run p s ds := by
  induction ds with
  | nil => exact Function.injective_id
  | cons d ds ih =>
    refine ih.comp fun s t h => ?_
    rw [step_eq_shift (pos_of_top htop), step_eq_shift (pos_of_top htop)] at h
    have := congrArg (· ^^^ (BitVec.ofBool d).setWidth w) (shift_injective htop h)
    simpa [BitVec.xor_assoc] using this

end top

theorem word_injective {ds es : List Bool} (hlen : ds.length = es.length) (hds : ds.length ≤ w)
    (h : word w ds = word w es) : ds = es := by
  refine List.ext_getElem hlen fun i hd he => ?_
  have := congrArg (fun t => BitVec.getLsbD t i) h
  simpa [getLsbD_word _ i (hd.trans_le hds), hd, he] using this

/-- **Bursts are detected**: data that differ inside a window of at most `w` bits only leave
different registers. -/
theorem run_ne_of_burst (htop : p.getLsbD (w - 1) = true) (s : BitVec w)
    (pre ds es post : List Bool) (hlen : ds.length = es.length) (hds : ds.length ≤ w)
    (hne : ds ≠ es) : run p s (pre ++ ds ++ post) ≠ run p s (pre ++ es ++ post) := by
  intro h
  simp only [run_append] at h
  have hwin := run_injective htop post h
  rw [run_eq_iterate ds hds, run_eq_iterate es (hlen ▸ hds), ← hlen] at hwin
  have hword := (shift_injective htop).iterate _ hwin
  have := congrArg (run p s pre ^^^ ·) hword
  simp only [← BitVec.xor_assoc, BitVec.xor_self, BitVec.zero_xor] at this
  exact hne (word_injective hlen hds this)

end Crc
