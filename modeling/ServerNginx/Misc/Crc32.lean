import ServerNginx.Lib.Crc

set_option autoImplicit false

/-!
# The packet CRC

`CCRC32`: `Reflect`, the table `Init_CRC32_Table` builds with it, and `Get_CRC`. An `unsigned int`
is a `BitVec 32`. The table is built on unreflected words and reflected at its ends; `reverse` takes
one domain to the other.

* `getLsbD_reflect`: `Reflect` mirrors the low bits;
* `initCrc32Table_eq`: an entry is eight steps of the reflected register;
* **`getCrc_eq`**: `Get_CRC` is the bit-serial CRC-32;
* **`getCrc_ne_of_burst`**: it tells buffers apart that differ inside 32 consecutive bits.
-/

namespace ServerNginx.CCRC32

/-- `Reflect`; `i` counts from 1 to `ch`. -/
def reflect (ref : BitVec 32) (ch : ℕ) : BitVec 32 :=
  ((List.range' 1 ch).foldl (fun (p : BitVec 32 × BitVec 32) i =>
    (p.1 >>> 1, if p.1 &&& 1#32 ≠ 0#32 then p.2 ||| 1#32 <<< (ch - i) else p.2)) (ref, 0#32)).2

/-- `ulPolynomial`. -/
def ulPolynomial : BitVec 32 := 0x04c11db7#32

/-- The body of the inner loop of `Init_CRC32_Table`. -/
def tableStep (c : BitVec 32) : BitVec 32 :=
  c <<< 1 ^^^ if c &&& 1#32 <<< 31 ≠ 0#32 then ulPolynomial else 0#32

/-- The entry `crc32_table[i]`. -/
def tableEntry (i : ℕ) : BitVec 32 :=
  reflect (tableStep^[8] (reflect (BitVec.ofNat 32 i) 8 <<< 24)) 32

/-- `Init_CRC32_Table`. -/
def initCrc32Table : List (BitVec 32) := (List.range 256).map tableEntry

/-- The loop of `Get_CRC` with `len` rounds to go: it reads on until `len` is 0, and is `none` where
it reads behind the buffer. -/
def getCrcLoop (table : List (BitVec 32)) : List UInt8 → ℤ → BitVec 32 → Option (BitVec 32)
  | [], len, crc => if len = 0 then some crc else none
  | b :: buffer, len, crc =>
    if len = 0 then some crc
    else (table[((crc &&& 0xff#32) ^^^ b.toBitVec.setWidth 32).toNat]?).bind fun t =>
      getCrcLoop table buffer (len - 1) (crc >>> 8 ^^^ t)

/-- `Get_CRC`: `len` is an `int`, and so is what is returned. -/
def getCrc (table : List (BitVec 32)) (buffer : List UInt8) (dwSize : BitVec 32) : Option ℤ :=
  (getCrcLoop table buffer dwSize.toInt 0xffffffff#32).map fun crc =>
    (crc ^^^ 0xffffffff#32).toInt

/-! ## The standard -/

/-- The bits of a buffer, byte by byte, each from its least significant bit. -/
def bitsOf (buffer : List UInt8) : List Bool :=
  buffer.flatMap fun b => (List.range 8).map b.toBitVec.getLsbD

/-- The polynomial as the reflected register has it. -/
def reversedPolynomial : BitVec 32 := (0x04c11db7#32).reverse

/-- **The CRC-32 of a bit stream**, bit by bit. -/
def crc32 (bits : List Bool) : BitVec 32 :=
  Crc.run reversedPolynomial 0xffffffff#32 bits ^^^ 0xffffffff#32

/-! ## Reflection -/

theorem getLsbD_one_shift {n : ℕ} (hn : n < 32) (j : ℕ) :
    (1#32 <<< n).getLsbD j = decide (j = n) := by
  rcases Nat.lt_trichotomy j n with h | rfl | h
  · simp [h, h.ne]
  · simp [hn]
  · simp [h.ne', show j - n ≠ 0 by omega]

theorem and_one_shift_ne_zero {n : ℕ} (hn : n < 32) (x : BitVec 32) :
    x &&& 1#32 <<< n ≠ 0#32 ↔ x.getLsbD n = true := by
  constructor
  · intro h
    by_contra hbit
    rw [Bool.not_eq_true] at hbit
    refine h (BitVec.eq_of_getLsbD_eq fun j hj => ?_)
    rw [BitVec.getLsbD_and, getLsbD_one_shift hn, BitVec.getLsbD_zero]
    by_cases hjn : j = n
    · rw [hjn, hbit, Bool.false_and]
    · rw [decide_eq_false hjn, Bool.and_false]
  · intro hbit h
    have := congrArg (fun t => BitVec.getLsbD t n) h
    simp only [BitVec.getLsbD_and, getLsbD_one_shift hn, hbit, decide_true, Bool.and_true,
      BitVec.getLsbD_zero, Bool.true_eq_false] at this

theorem reflect_rounds (ref : BitVec 32) {ch m : ℕ} (hch : ch ≤ 32) (hm : m ≤ ch) :
    let p := (List.range' 1 m).foldl (fun (p : BitVec 32 × BitVec 32) i =>
      (p.1 >>> 1, if p.1 &&& 1#32 ≠ 0#32 then p.2 ||| 1#32 <<< (ch - i) else p.2)) (ref, 0#32)
    p.1 = ref >>> m ∧
      ∀ j, p.2.getLsbD j = (decide (ch - m ≤ j ∧ j < ch) && ref.getLsbD (ch - 1 - j)) := by
  induction m with
  | zero =>
    refine ⟨rfl, fun j => ?_⟩
    have : ¬ (ch - 0 ≤ j ∧ j < ch) := by omega
    rw [decide_eq_false this, Bool.false_and]
    exact BitVec.getLsbD_zero
  | succ m ih =>
    obtain ⟨href, hval⟩ := ih (by omega)
    rw [List.range'_1_concat, List.foldl_append]
    generalize (List.range' 1 m).foldl _ (ref, 0#32) = p at href hval ⊢
    refine ⟨?_, fun j => ?_⟩
    · show p.1 >>> 1 = ref >>> (m + 1)
      rw [href, BitVec.shiftRight_add]
    · show (if p.1 &&& 1#32 ≠ 0#32 then p.2 ||| 1#32 <<< (ch - (1 + m)) else p.2).getLsbD j = _
      have hlow : p.1 &&& 1#32 ≠ 0#32 ↔ ref.getLsbD m = true := by
        have := and_one_shift_ne_zero (n := 0) (by decide) p.1
        rw [show 1#32 <<< 0 = 1#32 from rfl] at this
        rw [this, href, BitVec.getLsbD_ushiftRight, Nat.add_zero]
      have hset : 1 + m ≤ ch ∧ ch - (1 + m) < 32 := by omega
      -- round `m + 1` looks at bit `m` and sets the bit opposite to it
      by_cases hj : j = ch - (1 + m)
      · have hm' : ch - 1 - j = m := by omega
        have hnew : ch - (m + 1) ≤ j ∧ j < ch := by omega
        have hold : ¬ (ch - m ≤ j ∧ j < ch) := by omega
        rw [hm', decide_eq_true hnew, Bool.true_and]
        by_cases hbit : ref.getLsbD m = true
        · rw [if_pos (hlow.mpr hbit), BitVec.getLsbD_or, getLsbD_one_shift hset.2, hbit,
            decide_eq_true hj, Bool.or_true]
        · rw [if_neg fun h => hbit (hlow.mp h), hval, decide_eq_false hold, Bool.false_and]
          simpa using hbit
      · have hsame : (ch - (m + 1) ≤ j ∧ j < ch) ↔ (ch - m ≤ j ∧ j < ch) := by omega
        simp only [hsame]
        split_ifs
        · rw [BitVec.getLsbD_or, getLsbD_one_shift hset.2, decide_eq_false hj, Bool.or_false, hval]
        · exact hval j

/-- **`Reflect`** swaps bit 0 for bit `ch - 1`, bit 1 for bit `ch - 2`, and so on. -/
theorem getLsbD_reflect (ref : BitVec 32) {ch : ℕ} (hch : ch ≤ 32) (j : ℕ) :
    (reflect ref ch).getLsbD j = (decide (j < ch) && ref.getLsbD (ch - 1 - j)) := by
  rw [reflect, (reflect_rounds ref hch le_rfl).2 j]
  simp

theorem reflect_eq_reverse (x : BitVec 32) : reflect x 32 = x.reverse := by
  refine BitVec.eq_of_getLsbD_eq fun i hi => ?_
  rw [getLsbD_reflect x le_rfl, BitVec.getLsbD_reverse, BitVec.getMsbD]

theorem reverse_reflect_shift {i : ℕ} (hi : i < 256) :
    (reflect (BitVec.ofNat 32 i) 8 <<< 24).reverse = BitVec.ofNat 32 i := by
  refine BitVec.eq_of_getLsbD_eq fun j hj => ?_
  rw [BitVec.getLsbD_reverse, BitVec.getMsbD, BitVec.getLsbD_shiftLeft,
    getLsbD_reflect _ (by decide)]
  rcases Nat.lt_or_ge j 8 with hlow | hhigh
  · rw [show 8 - 1 - (32 - 1 - j - 24) = j by omega]
    simp [hj, show ¬ 32 - 1 - j < 24 by omega, show 32 - 1 - j - 24 < 8 by omega,
      show 31 - j < 32 by omega]
  · have hclear : i.testBit j = false :=
      Nat.testBit_lt_two_pow (hi.trans_le (Nat.pow_le_pow_right (n := 2) (by decide) hhigh))
    rw [BitVec.getLsbD_ofNat (n := 32) (x := i) (i := j), hclear, Bool.and_false]
    simp [show 32 - 1 - j < 24 by omega]

/-! ## The table -/

theorem reverse_xor (x y : BitVec 32) : (x ^^^ y).reverse = x.reverse ^^^ y.reverse := by
  refine BitVec.eq_of_getLsbD_eq fun i hi => ?_
  simp only [BitVec.getLsbD_reverse, BitVec.getLsbD_xor, BitVec.getMsbD_xor]

theorem reverse_shiftLeft_one (x : BitVec 32) : (x <<< 1).reverse = x.reverse >>> 1 := by
  refine BitVec.eq_of_getLsbD_eq fun i hi => ?_
  rw [BitVec.getLsbD_reverse, BitVec.getLsbD_ushiftRight, BitVec.getLsbD_reverse, BitVec.getMsbD,
    BitVec.getMsbD, BitVec.getLsbD_shiftLeft]
  rcases Nat.lt_or_ge (1 + i) 32 with h | h
  · rw [show 32 - 1 - i - 1 = 32 - 1 - (1 + i) by omega]
    simp [hi, h, show ¬ 32 - 1 - i < 1 by omega, show 32 - 1 - i < 32 by omega]
  · simp [show ¬ 1 + i < 32 by omega, show 32 - 1 - i < 1 by omega]

/-- **A round of the table** is a shift of the reflected register. -/
theorem reverse_tableStep (c : BitVec 32) :
    (tableStep c).reverse = Crc.shift reversedPolynomial c.reverse := by
  have htop : c &&& 1#32 <<< 31 ≠ 0#32 ↔ c.reverse.getLsbD 0 = true := by
    rw [and_one_shift_ne_zero (by decide), BitVec.getLsbD_reverse, BitVec.getMsbD]
    simp
  have hpoly : ulPolynomial.reverse = reversedPolynomial := by rw [ulPolynomial, reversedPolynomial]
  rw [tableStep, reverse_xor, reverse_shiftLeft_one, Crc.shift]
  by_cases h : c.reverse.getLsbD 0 = true
  · rw [if_pos (htop.mpr h), if_pos h, hpoly]
  · rw [if_neg fun hc => h (htop.mp hc), if_neg h]
    have hzero : (0#32).reverse = 0#32 := BitVec.eq_of_getLsbD_eq fun i _ => by
      simp [BitVec.getLsbD_reverse]
    rw [hzero, BitVec.xor_zero]

theorem reverse_iterate_tableStep (n : ℕ) (c : BitVec 32) :
    (tableStep^[n] c).reverse = (Crc.shift reversedPolynomial)^[n] c.reverse := by
  induction n generalizing c with
  | zero => rfl
  | succ n ih =>
    rw [Function.iterate_succ_apply, Function.iterate_succ_apply, ih, reverse_tableStep]

/-- **An entry of the table** is eight shifts of its index. -/
theorem tableEntry_eq {i : ℕ} (hi : i < 256) :
    tableEntry i = (Crc.shift reversedPolynomial)^[8] (BitVec.ofNat 32 i) := by
  rw [tableEntry, reflect_eq_reverse, reverse_iterate_tableStep, reverse_reflect_shift hi]

theorem initCrc32Table_getElem? {i : ℕ} (hi : i < 256) : initCrc32Table[i]? =
    some ((Crc.shift reversedPolynomial)^[8] (BitVec.ofNat 32 i)) := by
  simp [initCrc32Table, hi, tableEntry_eq hi]

/-! ## The loop -/

theorem length_bitsOf (buffer : List UInt8) : (bitsOf buffer).length = 8 * buffer.length := by
  simp [bitsOf, List.length_flatMap, Nat.mul_comm]

theorem bitsOf_cons (b : UInt8) (buffer : List UInt8) :
    bitsOf (b :: buffer) = bitsOf [b] ++ bitsOf buffer := by
  simp [bitsOf]

theorem word_bitsOf (b : UInt8) : Crc.word 32 (bitsOf [b]) = b.toBitVec.setWidth 32 := by
  refine BitVec.eq_of_getLsbD_eq fun i hi => ?_
  rw [Crc.getLsbD_word _ i hi, BitVec.getLsbD_setWidth, decide_eq_true hi, Bool.true_and]
  rcases Nat.lt_or_ge i 8 with h | h
  · simp [bitsOf, h]
  · simp [bitsOf, h]

theorem bitsOf_injective : Function.Injective bitsOf := by
  intro a
  induction a with
  | nil =>
    intro b h
    have := congrArg List.length h
    rw [length_bitsOf, length_bitsOf, List.length_nil] at this
    exact (List.length_eq_zero_iff.mp (by omega)).symm
  | cons x a ih =>
    intro b h
    cases b with
    | nil =>
      have := congrArg List.length h
      rw [length_bitsOf, length_bitsOf, List.length_nil, List.length_cons] at this
      omega
    | cons y b =>
      rw [bitsOf_cons x, bitsOf_cons y] at h
      obtain ⟨hxy, hab⟩ := List.append_inj h (by rw [length_bitsOf, length_bitsOf]; rfl)
      have hword := congrArg (fun ds => (Crc.word 32 ds).setWidth 8) hxy
      simp only [word_bitsOf] at hword
      rw [BitVec.setWidth_setWidth_of_le _ (by decide), BitVec.setWidth_eq,
        BitVec.setWidth_setWidth_of_le _ (by decide), BitVec.setWidth_eq] at hword
      rw [UInt8.toBitVec_inj.mp hword, ih hab]

theorem index_eq (crc : BitVec 32) (b : BitVec 8) :
    (crc &&& 0xff#32) ^^^ b.setWidth 32 = ((crc ^^^ b.setWidth 32).setWidth 8).setWidth 32 := by
  refine BitVec.eq_of_getLsbD_eq fun i hi => ?_
  have hmask : (0xff#32).getLsbD i = decide (i < 8) := by
    rw [BitVec.getLsbD_ofNat, show 0xff = 2 ^ 8 - 1 from rfl, Nat.testBit_two_pow_sub_one]
    simp [hi]
  rw [BitVec.getLsbD_xor, BitVec.getLsbD_and, hmask]
  rcases Nat.lt_or_ge i 8 with h | h
  · simp [h, hi]
  · simp [h, hi]

/-- **A byte of the loop** is eight bits of the reflected register. -/
theorem run_byte (crc : BitVec 32) (b : UInt8) :
    initCrc32Table[((crc &&& 0xff#32) ^^^ b.toBitVec.setWidth 32).toNat]?.map (crc >>> 8 ^^^ ·) =
      some (Crc.run reversedPolynomial crc (bitsOf [b])) := by
  have hlen : (bitsOf [b]).length = 8 := length_bitsOf [b]
  have hhigh : (crc ^^^ b.toBitVec.setWidth 32) >>> 8 = crc >>> 8 := by
    ext i hi
    simp
  rw [Crc.run_eq_iterate _ (by omega), hlen, word_bitsOf, index_eq, ← hhigh]
  generalize crc ^^^ b.toBitVec.setWidth 32 = x
  have hlt : ((x.setWidth 8).setWidth 32).toNat < 256 := by
    rw [BitVec.toNat_setWidth]
    exact (Nat.mod_le _ _).trans_lt (x.setWidth 8).isLt
  rw [initCrc32Table_getElem? hlt, BitVec.ofNat_toNat, BitVec.setWidth_eq, Option.map_some,
    Crc.iterate_shift_split 8 x]

theorem getCrcLoop_eq (buffer : List UInt8) (crc : BitVec 32) :
    getCrcLoop initCrc32Table buffer buffer.length crc =
      some (Crc.run reversedPolynomial crc (bitsOf buffer)) := by
  induction buffer generalizing crc with
  | nil => rfl
  | cons b buffer ih =>
    obtain ⟨t, ht, hrun⟩ := Option.map_eq_some_iff.mp (run_byte crc b)
    rw [getCrcLoop, if_neg (by simp; omega), ht, Option.bind_some, bitsOf_cons, Crc.run_append,
      ← hrun]
    simpa using ih (crc >>> 8 ^^^ t)

theorem getCrc_run {buffer : List UInt8} (hlen : buffer.length < 2 ^ 31) :
    getCrc initCrc32Table buffer (BitVec.ofNat 32 buffer.length) =
      some (Crc.run reversedPolynomial 0xffffffff#32 (bitsOf buffer) ^^^ 0xffffffff#32).toInt := by
  have hint : (BitVec.ofNat 32 buffer.length).toInt = buffer.length := by
    rw [BitVec.toInt_ofNat']
    exact Int.bmod_eq_of_le (by omega) (by omega)
  rw [getCrc, hint, getCrcLoop_eq]
  rfl

/-- **`Get_CRC` is the standard CRC-32**, as an `int` of the same 32 bits. -/
theorem getCrc_eq (buffer : List UInt8) (hlen : buffer.length < 2 ^ 31) :
    getCrc initCrc32Table buffer (BitVec.ofNat 32 buffer.length) =
      some (crc32 (bitsOf buffer)).toInt := by
  rw [getCrc_run hlen, crc32]

/-- The check value of CRC-32, 0xcbf43926. -/
theorem getCrc_eq_digits :
    getCrc initCrc32Table [49, 50, 51, 52, 53, 54, 55, 56, 57] 9#32 = some (-873187034) :=
  (getCrc_eq _ (by decide)).trans (by decide +kernel)

/-! ## Bursts -/

theorem reversedPolynomial_top : reversedPolynomial.getLsbD (32 - 1) = true := by
  rw [reversedPolynomial, BitVec.getLsbD_reverse]
  rfl

/-- **Short bursts are detected.** Buffers of one length that differ, and only inside 32
consecutive bits, have different CRCs. -/
theorem getCrc_ne_of_burst (a b : List UInt8) (hsize : a.length = b.length)
    (hlen : a.length < 2 ^ 31) (hne : a ≠ b) (k : ℕ)
    (hburst : ∀ i, (bitsOf a)[i]? ≠ (bitsOf b)[i]? → k ≤ i ∧ i < k + 32) :
    ∃ x y, getCrc initCrc32Table a (BitVec.ofNat 32 a.length) = some x ∧
      getCrc initCrc32Table b (BitVec.ofNat 32 b.length) = some y ∧ x ≠ y := by
  refine ⟨_, _, getCrc_run hlen, getCrc_run (hsize ▸ hlen), fun h => ?_⟩
  have hrun : Crc.run reversedPolynomial 0xffffffff#32 (bitsOf a) =
      Crc.run reversedPolynomial 0xffffffff#32 (bitsOf b) := by
    have := congrArg (· ^^^ 0xffffffff#32) (BitVec.toInt_inj.mp h)
    simpa only [BitVec.xor_assoc, BitVec.xor_self, BitVec.xor_zero] using this
  have hsame : ∀ i, ¬ (k ≤ i ∧ i < k + 32) → (bitsOf a)[i]? = (bitsOf b)[i]? := fun i hi =>
    not_not.mp fun hd => hi (hburst i hd)
  have hpre : (bitsOf a).take k = (bitsOf b).take k := by
    ext1 i
    rw [List.getElem?_take, List.getElem?_take]
    split_ifs
    · exact hsame i (by omega)
    · rfl
  have hpost : (bitsOf a).drop (k + 32) = (bitsOf b).drop (k + 32) := by
    ext1 i
    rw [List.getElem?_drop, List.getElem?_drop]
    exact hsame _ (by omega)
  have hsplit : ∀ ds : List Bool, ds = ds.take k ++ (ds.drop k).take 32 ++ ds.drop (k + 32) := by
    intro ds
    rw [List.append_assoc, ← List.drop_drop, List.take_append_drop, List.take_append_drop]
  have hbits : (bitsOf a).length = (bitsOf b).length := by
    rw [length_bitsOf, length_bitsOf, hsize]
  refine Crc.run_ne_of_burst reversedPolynomial_top 0xffffffff#32 ((bitsOf a).take k)
    (((bitsOf a).drop k).take 32) (((bitsOf b).drop k).take 32) ((bitsOf a).drop (k + 32))
    ?_ ?_ ?_ ?_
  · rw [List.length_take, List.length_take, List.length_drop, List.length_drop, hbits]
  · exact List.length_take_le 32 _
  · intro hwin
    refine hne (bitsOf_injective ?_)
    rw [hsplit (bitsOf a), hsplit (bitsOf b), hpre, hwin, hpost]
  · rw [← hsplit, hpre, hpost, ← hsplit]
    exact hrun

/-- Two bytes that differ in their last and their first bits. -/
theorem getCrc_ne_of_burst_middle :
    ∃ x y, getCrc initCrc32Table [1, 0x80, 0, 2] 4#32 = some x ∧
      getCrc initCrc32Table [1, 0, 1, 2] 4#32 = some y ∧ x ≠ y :=
  getCrc_ne_of_burst [1, 0x80, 0, 2] [1, 0, 1, 2] rfl (by decide) (by decide) 15 fun i hi => by
    rcases Nat.lt_or_ge i 32 with h | h
    · have : ∀ j < 32, (bitsOf [1, 0x80, 0, 2])[j]? ≠ (bitsOf [1, 0, 1, 2])[j]? →
          15 ≤ j ∧ j < 15 + 32 := by decide
      exact this i h hi
    · rw [List.getElem?_eq_none (by rw [length_bitsOf]; exact h),
        List.getElem?_eq_none (by rw [length_bitsOf]; exact h)] at hi
      exact absurd rfl hi

end ServerNginx.CCRC32
