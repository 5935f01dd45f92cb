import Mathlib.Data.Rat.Floor
import ServerNginx.Lib.CString

set_option autoImplicit false

/-!
# Numbers in C strings

`std::stoi`, `std::stof` and `std::to_string`, for a 32-bit `int`, a binary32 `float` and the C
locale. A conversion fails with `invalid_argument` where no number starts the string and with
`out_of_range` where the number does not fit; bytes after the number are ignored.
-/

namespace CNumber

open CString

/-- The exceptions of the conversions. -/
inductive ConvError
  | invalidArgument
  | outOfRange
  deriving DecidableEq, Repr

/-- `isspace`. -/
def isSpace (c : UInt8) : Bool := c = 32 ∨ (9 ≤ c ∧ c ≤ 13)

/-- `isdigit`. -/
def isDigit (c : UInt8) : Bool := 48 ≤ c ∧ c ≤ 57

/-- The value of a hexadecimal digit. -/
def hexVal (c : UInt8) : Option ℕ :=
  if isDigit c then some (c.toNat - 48)
  else
    let d := tolower c
    if 97 ≤ d ∧ d ≤ 102 then some (d.toNat - 87) else none

/-- The number a list of digits stands for. -/
def ofDigits (base : ℕ) (ds : List ℕ) : ℕ := ds.foldl (fun n d => n * base + d) 0

/-- An optional sign: whether it is a minus, and the rest. -/
def sign : List UInt8 → Bool × List UInt8
  | 43 :: t => (false, t)
  | 45 :: t => (true, t)
  | t => (false, t)

/-- The decimal digits a string starts with, and the rest. -/
def decimals (t : List UInt8) : List ℕ × List UInt8 :=
  ((t.takeWhile isDigit).map fun c => c.toNat - 48, t.dropWhile isDigit)

/-- The hexadecimal digits a string starts with, and the rest. -/
def hexadecimals (t : List UInt8) : List ℕ × List UInt8 :=
  ((t.takeWhile fun c => (hexVal c).isSome).filterMap hexVal,
    t.dropWhile fun c => (hexVal c).isSome)

/-- `std::stoi`, in base 10. -/
def stoi (t : List UInt8) : Except ConvError ℤ :=
  let (minus, t) := sign (t.dropWhile isSpace)
  let ds := (decimals t).1
  if ds = [] then .error .invalidArgument
  else
    let n : ℤ := if minus then -(ofDigits 10 ds) else ofDigits 10 ds
    if -2 ^ 31 ≤ n ∧ n < 2 ^ 31 then .ok n else .error .outOfRange

theorem stoi_bounds {t : List UInt8} {n : ℤ} (h : stoi t = .ok n) : -2 ^ 31 ≤ n ∧ n < 2 ^ 31 := by
  unfold stoi at h
  dsimp only at h
  split_ifs at h with h₁ h₂ h₃ h₃
  · cases h
    exact h₃
  · cases h
    exact h₃

/-- A binary32 value, signs of zero left out. -/
inductive F32
  | fin (q : ℚ)
  | inf (minus : Bool)
  | nan
  deriving DecidableEq, Repr

/-- The integer nearest to `q`, ties to even. -/
def roundEven (q : ℚ) : ℤ :=
  let n := q.floor
  let r := q - n
  if r < 1 / 2 then n
  else if r = 1 / 2 then (if n % 2 = 0 then n else n + 1)
  else n + 1

/-- The exponent `e` with `2 ^ e ≤ q < 2 ^ (e + 1)`, for `0 < q`. -/
def exponent (q : ℚ) : ℤ :=
  let e : ℤ := (Nat.log2 q.num.natAbs : ℤ) - Nat.log2 q.den
  if (2 : ℚ) ^ e ≤ q then e else e - 1

/-- Round `0 < q` to binary32; a result that overflows, or that is below the normal numbers and
inexact, is out of range. -/
def roundF32 (q : ℚ) : Except ConvError ℚ :=
  let e := exponent q
  let ulp : ℚ := 2 ^ (max e (-126) - 23)
  let full : ℚ := roundEven (q / 2 ^ (e - 23)) * 2 ^ (e - 23)
  let r : ℚ := roundEven (q / ulp) * ulp
  if 2 ^ (128 : ℤ) ≤ r then .error .outOfRange
  else if full < 2 ^ (-126 : ℤ) ∧ r ≠ q then .error .outOfRange
  else .ok r

/-- An exponent behind `mark`, if digits follow. -/
def exponentPart (mark : UInt8) (t : List UInt8) : ℤ :=
  match t with
  | c :: t =>
    if tolower c = mark then
      let (minus, t) := sign t
      let n : ℤ := ofDigits 10 (decimals t).1
      if minus then -n else n
    else 0
  | [] => 0

/-- The rational number a string starts with. -/
def decimalNumber (t : List UInt8) : Option ℚ :=
  let (ds, t) := decimals t
  let (fs, t) := match t with
    | 46 :: t => decimals t
    | _ => ([], t)
  if ds = [] ∧ fs = [] then none
  else some (ofDigits 10 (ds ++ fs) * 10 ^ (exponentPart 101 t - fs.length))

/-- The rational number behind `0x`. -/
def hexNumber (t : List UInt8) : Option ℚ :=
  let (ds, t) := hexadecimals t
  let (fs, t) := match t with
    | 46 :: t => hexadecimals t
    | _ => ([], t)
  if ds = [] ∧ fs = [] then none
  else some (ofDigits 16 (ds ++ fs) * 2 ^ (exponentPart 112 t - 4 * fs.length))

/-- The unsigned number `strtof` finds. -/
def unsignedFloat (t : List UInt8) : Option F32 :=
  if strncaseeq t (ascii "inf") 3 then some (.inf false)
  else if strncaseeq t (ascii "nan") 3 then some .nan
  else if strncaseeq t (ascii "0x") 2 then
    -- without a hexadecimal digit only the zero is read
    some (.fin ((hexNumber (t.drop 2)).getD 0))
  else (decimalNumber t).map .fin

/-- `std::stof`. -/
def stof (t : List UInt8) : Except ConvError F32 :=
  let (minus, t) := sign (t.dropWhile isSpace)
  match unsignedFloat t with
  | none => .error .invalidArgument
  | some (.fin q) =>
    if q = 0 then .ok (.fin 0)
    else (roundF32 q).map fun r => .fin (if minus then -r else r)
  | some (.inf _) => .ok (.inf minus)
  | some .nan => .ok .nan

/-- `std::to_string` of an integer. -/
def stdToString (n : ℤ) : List UInt8 :=
  let ds := (Nat.toDigits 10 n.natAbs).map fun c => c.toNat.toUInt8
  if n < 0 then 45 :: ds else ds

theorem toNat_of_mem_stdToString {n : ℤ} {c : UInt8} (hc : c ∈ stdToString n) :
    c.toNat = 45 ∨ 48 ≤ c.toNat ∧ c.toNat ≤ 57 := by
  have hds : ∀ c ∈ (Nat.toDigits 10 n.natAbs).map fun c => c.toNat.toUInt8,
      48 ≤ c.toNat ∧ c.toNat ≤ 57 := by
    intro c hc
    obtain ⟨d, hd, rfl⟩ := List.mem_map.mp hc
    have hdigit := Nat.isDigit_of_mem_toDigits (by decide) le_rfl hd
    simp only [Char.isDigit, Bool.and_eq_true, decide_eq_true_eq, ge_iff_le] at hdigit
    have hlo : 48 ≤ d.toNat := hdigit.1
    have hhi : d.toNat ≤ 57 := hdigit.2
    rw [UInt8.toNat_ofNat', Nat.mod_eq_of_lt (by omega)]
    exact ⟨hlo, hhi⟩
  unfold stdToString at hc
  dsimp only at hc
  split_ifs at hc
  · rcases List.mem_cons.mp hc with rfl | hc
    · exact Or.inl rfl
    · exact Or.inr (hds c hc)
  · exact Or.inr (hds c hc)

theorem zero_notMem_stdToString (n : ℤ) : (0 : UInt8) ∉ stdToString n := fun h0 => by
  have := toNat_of_mem_stdToString h0
  simp at this

theorem length_stdToString_le {n : ℤ} (hn : -2 ^ 31 ≤ n ∧ n < 2 ^ 31) :
    (stdToString n).length ≤ 11 := by
  have hds : (Nat.toDigits 10 n.natAbs).length ≤ 10 :=
    (Nat.length_toDigits_le_iff (by decide) (by decide)).mpr (by omega)
  unfold stdToString
  dsimp only
  split_ifs
  · rw [List.length_cons, List.length_map]
    omega
  · rw [List.length_map]
    omega

example : stoi (ascii " -42;") = .ok (-42) := by decide +kernel

example : stof (ascii "0.5,text") = .ok (.fin (1 / 2)) := by decide +kernel

/-- A 32-bit `int` made of any integer. -/
def int32 (n : ℤ) : ℤ := Int.bmod n (2 ^ 32)

theorem int32_of_lt {n : ℤ} (hlo : -2 ^ 31 ≤ n) (hhi : n < 2 ^ 31) : int32 n = n := by
  unfold int32 Int.bmod
  dsimp only
  split_ifs <;> omega

theorem int32_of_ge {n : ℤ} (hlo : 2 ^ 31 ≤ n) (hhi : n < 2 ^ 32) : int32 n = n - 2 ^ 32 := by
  unfold int32 Int.bmod
  dsimp only
  split_ifs <;> omega

theorem int32_bounds (n : ℤ) : -2 ^ 31 ≤ int32 n ∧ int32 n < 2 ^ 31 := by
  unfold int32 Int.bmod
  dsimp only
  split_ifs <;> omega

end CNumber
