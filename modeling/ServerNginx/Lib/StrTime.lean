import ServerNginx.Lib.Calendar
import ServerNginx.Lib.CString
import Mathlib.Data.List.GetD
import Mathlib.Tactic.Ring

set_option autoImplicit false

/-!
# Texts of times

The part of `<ctime>` that turns times into text and back, in the C locale: `gmtime` and its
inverse, and `strftime` and `strptime` for formats of `%a`, `%d`, `%b`, `%Y`, `%H`, `%M`, `%S`,
blanks and other bytes that stand for themselves.

* `timegm_gmtime`: broken-down time loses nothing;
* `Unambiguous`: a name is not followed by a letter, nor a blank by what can begin with one;
* **`strptime_strftime`**: of an unambiguous format, what `strftime` writes `strptime` reads back.
-/

namespace StrTime

open CString Calendar

/-! ## Broken-down time -/

/-- The fields of a `tm` that have a directive. -/
inductive Field
  | wday
  | mday
  | mon
  | year
  | hour
  | min
  | sec
  deriving DecidableEq

/-- A `tm`, with the year itself in place of `tm_year`. -/
abbrev Tm := Field → ℕ

/-- A `tm` filled with zeros: `tm_year` is counted from 1900. -/
def Tm.zero : Tm
  | .year => 1900
  | _ => 0

/-- The first of January 1970. -/
def epoch : ℤ := yearStart 1970

/-- The broken-down time `t` seconds from the epoch on, in a year from 0 on. -/
def gmtime (t : ℤ) : Tm
  | .wday => weekday (t / 86400 + epoch)
  | .mday => (Date.ofDays (t / 86400 + epoch)).day
  | .mon => (Date.ofDays (t / 86400 + epoch)).month
  | .year => (Date.ofDays (t / 86400 + epoch)).year.toNat
  | .hour => (t % 86400 / 3600).toNat
  | .min => (t % 3600 / 60).toNat
  | .sec => (t % 60).toNat

/-- The seconds from the epoch up to a broken-down time. -/
def timegm (tm : Tm) : ℤ :=
  (daysOf (tm .year) (tm .mon) (tm .mday) - epoch) * 86400 + tm .hour * 3600 + tm .min * 60 +
    tm .sec

/-- The year of a time. -/
def yearAt (t : ℤ) : ℤ := yearOf (t / 86400 + epoch)

theorem timegm_gmtime {t : ℤ} (ht : 0 ≤ yearAt t) : timegm (gmtime t) = t := by
  have hdate := Date.toDays_ofDays (t / 86400 + epoch)
  have hyear : (((Date.ofDays (t / 86400 + epoch)).year.toNat : ℕ) : ℤ) =
      (Date.ofDays (t / 86400 + epoch)).year := Int.toNat_of_nonneg ht
  unfold timegm gmtime
  dsimp only
  rw [hyear, show daysOf (Date.ofDays (t / 86400 + epoch)).year
    (Date.ofDays (t / 86400 + epoch)).month (Date.ofDays (t / 86400 + epoch)).day =
      t / 86400 + epoch from hdate]
  omega

/-! ## Directives -/

/-- A part of a format. -/
inductive Directive
  | field (f : Field)
  /-- blanks -/
  | space
  | lit (c : UInt8)
  deriving DecidableEq

/-- `isspace`. -/
def isSpace (c : UInt8) : Bool := c = 32 ∨ 9 ≤ c ∧ c ≤ 13

/-- `isalpha`. -/
def isAlpha (c : UInt8) : Bool := 97 ≤ tolower c ∧ tolower c ≤ 122

/-- The field of a conversion specification. -/
def fieldOf (c : UInt8) : Option Field :=
  if c = 97 then some .wday
  else if c = 100 then some .mday
  else if c = 98 then some .mon
  else if c = 89 then some .year
  else if c = 72 then some .hour
  else if c = 77 then some .min
  else if c = 83 then some .sec
  else none

/-- The directives of a format, if there are no others in it. -/
def directives : List UInt8 → Option (List Directive)
  | [] => some []
  | [c] => if c = 37 then none else some [if isSpace c then .space else .lit c]
  | c :: d :: r =>
    if c = 37 then (fieldOf d).bind fun f => (directives r).map fun ds => .field f :: ds
    else (directives (d :: r)).map fun ds => (if isSpace c then .space else .lit c) :: ds

/-- How a field is written: by a name, or by digits. -/
inductive Style
  | name (names : List (List UInt8))
  /-- `width` digits, for numbers from `lo` to `hi` -/
  | digits (lo hi width : ℕ)

/-- The days of the week. -/
def dayNames : List (List UInt8) :=
  [ascii "Sunday", ascii "Monday", ascii "Tuesday", ascii "Wednesday", ascii "Thursday",
    ascii "Friday", ascii "Saturday"]

/-- The months. -/
def monthNames : List (List UInt8) :=
  [ascii "January", ascii "February", ascii "March", ascii "April", ascii "May", ascii "June",
    ascii "July", ascii "August", ascii "September", ascii "October", ascii "November",
    ascii "December"]

/-- The style of a field. -/
def Field.style : Field → Style
  | .wday => .name dayNames
  | .mon => .name monthNames
  | .mday => .digits 1 31 2
  | .hour => .digits 0 23 2
  | .min => .digits 0 59 2
  | .sec => .digits 0 61 2
  | .year => .digits 0 9999 4

/-! ## Writing -/

/-- The last `w` decimal digits of a number. -/
def decimal : ℕ → ℕ → List UInt8
  | 0, _ => []
  | w + 1, n => (48 + n / 10 ^ w % 10).toUInt8 :: decimal w n

/-- The text of a field. Names are abbreviated to three letters. -/
def Style.write (n : ℕ) : Style → List UInt8
  | .name names => (names.getD n []).take 3
  | .digits _ _ w => decimal w n

/-- The text of a directive. -/
def write (tm : Tm) : Directive → List UInt8
  | .field f => f.style.write (tm f)
  | .space => [32]
  | .lit c => [c]

/-- `strftime`, for a buffer with room. -/
def strftime (ds : List Directive) (tm : Tm) : List UInt8 := ds.flatMap (write tm)

/-! ## Reading -/

/-- Digits of a number: `n` at most, and no more than keep it up to `hi`. -/
def readDigits (hi : ℕ) : ℕ → ℕ → List UInt8 → ℕ × List UInt8
  | n + 1, v, c :: r =>
    if v * 10 ≤ hi ∧ 48 ≤ c ∧ c ≤ 57 then readDigits hi n (v * 10 + (c.toNat - 48)) r
    else (v, c :: r)
  | _, v, s => (v, s)

/-- `get_number`: blanks, and digits of a number from `lo` to `hi`. -/
def getNumber (lo hi width : ℕ) (s : List UInt8) : Option (ℕ × List UInt8) :=
  match s.dropWhile (· = 32) with
  | [] => none
  | c :: r =>
    if 48 ≤ c ∧ c ≤ 57 then
      let q := readDigits hi (width - 1) (c.toNat - 48) r
      if lo ≤ q.1 ∧ q.1 ≤ hi then some q else none
    else none

/-- The rest behind a name, in full or abbreviated. -/
def afterName (name s : List UInt8) : Option (List UInt8) :=
  if strncaseeq name s name.length then some (s.drop name.length)
  else if strncaseeq (name.take 3) s 3 then some (s.drop 3)
  else none

/-- The first name that a text begins with, numbered from `i` on. -/
def getName : ℕ → List (List UInt8) → List UInt8 → Option (ℕ × List UInt8)
  | _, [], _ => none
  | i, name :: names, s =>
    match afterName name s with
    | some r => some (i, r)
    | none => getName (i + 1) names s

/-- The value of a field, and the rest. -/
def Style.read (s : List UInt8) : Style → Option (ℕ × List UInt8)
  | .name names => getName 0 names s
  | .digits lo hi w => getNumber lo hi w s

/-- A directive. -/
def read (tm : Tm) (s : List UInt8) : Directive → Option (Tm × List UInt8)
  | .field f => (f.style.read s).map fun q => (Function.update tm f q.1, q.2)
  | .space => some (tm, s.dropWhile isSpace)
  | .lit c =>
    match s with
    | [] => none
    | d :: r => if d = c then some (tm, r) else none

/-- `strptime`, with the fields it has set and the rest of the text. -/
def strptime : List Directive → Tm → List UInt8 → Option (Tm × List UInt8)
  | [], tm, s => some (tm, s)
  | d :: ds, tm, s => (read tm s d).bind fun q => strptime ds q.1 q.2

/-! ## Kinds of bytes -/

theorem isSpace_of_isAlpha {c : UInt8} (h : isAlpha c = true) : isSpace c = false := by
  unfold isAlpha tolower at h
  unfold isSpace
  simp only [Bool.decide_or, Bool.decide_and, UInt8.le_iff_toNat_le, ← UInt8.toNat_inj] at h ⊢
  split_ifs at h <;> simp at * <;> omega

theorem not_isAlpha_of_digit {c : UInt8} (h : 48 ≤ c ∧ c ≤ 57) : isAlpha c = false := by
  unfold isAlpha tolower
  simp only [UInt8.le_iff_toNat_le] at h ⊢
  split_ifs <;> simp at * <;> omega

theorem not_isSpace_of_digit {c : UInt8} (h : 48 ≤ c ∧ c ≤ 57) : isSpace c = false := by
  unfold isSpace
  simp only [UInt8.le_iff_toNat_le, ← UInt8.toNat_inj] at h ⊢
  simp at *
  omega

/-! ## Numbers -/

theorem decimal_head {w : ℕ} (n : ℕ) :
    ∃ c, decimal (w + 1) n = c :: decimal w n ∧ c.toNat = 48 + n / 10 ^ w % 10 := by
  refine ⟨_, rfl, ?_⟩
  have hlt : n / 10 ^ w % 10 < 10 := Nat.mod_lt _ (by decide)
  show (48 + n / 10 ^ w % 10) % 256 = _
  omega

theorem digit_of_toNat {c : UInt8} {k : ℕ} (h : c.toNat = 48 + k) (hk : k < 10) :
    48 ≤ c ∧ c ≤ 57 := by
  constructor
  · exact UInt8.le_iff_toNat_le.mpr (h ▸ Nat.le_add_right 48 k)
  · exact UInt8.le_iff_toNat_le.mpr (h ▸ Nat.add_le_add_left (Nat.le_of_lt_succ hk) 48)

theorem readDigits_decimal {hi : ℕ} (n : ℕ) (rest : List UInt8) (w : ℕ) : ∀ v : ℕ,
    v * 10 ^ w + n % 10 ^ w ≤ hi →
      readDigits hi w v (decimal w n ++ rest) = (v * 10 ^ w + n % 10 ^ w, rest) := by
  induction w with
  | zero =>
    intro v _
    simp [readDigits, decimal, Nat.mod_one]
  | succ w ih =>
    intro v hv
    obtain ⟨c, hc, hcn⟩ := decimal_head (w := w) n
    have hlt : n / 10 ^ w % 10 < 10 := Nat.mod_lt _ (by decide)
    have hpow : v * 10 ^ (w + 1) + n % 10 ^ (w + 1) =
        (v * 10 + n / 10 ^ w % 10) * 10 ^ w + n % 10 ^ w := by
      rw [Nat.mod_pow_succ, pow_succ]
      ring
    have hone : 1 ≤ 10 ^ w := Nat.one_le_pow _ _ (by decide)
    have hle : v * 10 ≤ hi := by
      have := Nat.mul_le_mul_left (v * 10 + n / 10 ^ w % 10) hone
      omega
    rw [hc, List.cons_append, readDigits, if_pos ⟨hle, digit_of_toNat hcn hlt⟩, hcn,
      Nat.add_sub_cancel_left, ih _ (hpow ▸ hv), hpow]

/-- **A number** is read back from its digits. -/
theorem getNumber_decimal {lo hi w n : ℕ} (hw : 0 < w) (hlo : lo ≤ n) (hhi : n ≤ hi)
    (hn : n < 10 ^ w) (rest : List UInt8) :
    getNumber lo hi w (decimal w n ++ rest) = some (n, rest) := by
  obtain ⟨w, rfl⟩ := Nat.exists_eq_succ_of_ne_zero hw.ne'
  obtain ⟨c, hc, hcn⟩ := decimal_head (w := w) n
  have htop : n / 10 ^ w < 10 := by
    rw [Nat.div_lt_iff_lt_mul (Nat.pow_pos (by decide)), ← pow_succ']
    exact hn
  rw [Nat.mod_eq_of_lt htop] at hcn
  have hdigit := digit_of_toNat hcn htop
  have hne : ¬ c = 32 := by
    rintro rfl
    exact absurd hdigit (by decide)
  have hval : n / 10 ^ w * 10 ^ w + n % 10 ^ w = n := Nat.div_add_mod' n (10 ^ w)
  have hread : readDigits hi w (n / 10 ^ w) (decimal w n ++ rest) = (n, rest) := by
    rw [readDigits_decimal n rest w _ (hval.trans_le hhi), hval]
  unfold getNumber
  rw [hc, List.cons_append, List.dropWhile_cons_of_neg (by simpa using hne)]
  dsimp only
  rw [if_pos hdigit, hcn, Nat.add_sub_cancel_left, Nat.succ_sub_one, hread]
  exact if_pos ⟨hlo, hhi⟩

/-! ## Names -/

/-- **Names that abbreviations tell apart**: three letters or more, and different ones. -/
structure Names (names : List (List UInt8)) : Prop where
  long : ∀ name ∈ names, 3 ≤ name.length
  letters : ∀ name ∈ names, ∀ c ∈ name, isAlpha c = true
  distinct : names.Pairwise fun x y => (x.take 3).map tolower ≠ (y.take 3).map tolower

theorem names_dayNames : Names dayNames :=
  ⟨by decide +kernel, by decide +kernel, by decide +kernel⟩

theorem names_monthNames : Names monthNames :=
  ⟨by decide +kernel, by decide +kernel, by decide +kernel⟩

theorem strncaseeq_iff {s t : List UInt8} {n : ℕ} :
    strncaseeq s t n = true ↔ (s.take n).map tolower = (t.take n).map tolower := by
  simp [strncaseeq, strcaseeq]

/-- An abbreviation is not the full name, unless that has three letters. -/
theorem afterName_self {name rest : List UInt8} (hlong : 3 ≤ name.length)
    (hletters : ∀ c ∈ name, isAlpha c = true) (hrest : ∀ c ∈ rest.head?, isAlpha c = false) :
    afterName name (name.take 3 ++ rest) = some rest := by
  have hlen : (name.take 3).length = 3 := by
    rw [List.length_take]
    omega
  have habbr : strncaseeq (name.take 3) (name.take 3 ++ rest) 3 = true := by
    rw [strncaseeq_iff, List.take_append_of_le_length hlen.ge, List.take_take]
  have hdrop : (name.take 3 ++ rest).drop 3 = rest := List.drop_left' hlen
  unfold afterName
  split_ifs with hfull
  · have hthree : name.length = 3 := by
      by_contra hne
      have h3 := congrArg (fun t => t[3]?) (strncaseeq_iff.mp hfull)
      obtain ⟨x, hname, hx⟩ : ∃ x, name[3]? = some x ∧ x ∈ name :=
        ⟨_, List.getElem?_eq_getElem (by omega), List.getElem_mem _⟩
      have halpha := hletters x hx
      rw [List.getElem?_map, List.getElem?_map, List.take_length, hname,
        List.getElem?_take_of_lt (by omega), List.getElem?_append_right hlen.le, hlen,
        Nat.sub_self] at h3
      cases rest with
      | nil => cases h3
      | cons c r =>
        have heq : tolower x = tolower c := Option.some.inj h3
        have hnot := hrest c rfl
        unfold isAlpha at halpha hnot
        rw [heq, hnot] at halpha
        cases halpha
    rw [hthree, hdrop]
  · rw [hdrop]

theorem afterName_other {name other rest : List UInt8} (hlong : 3 ≤ name.length)
    (hother : 3 ≤ other.length)
    (hne : (name.take 3).map tolower ≠ (other.take 3).map tolower) :
    afterName name (other.take 3 ++ rest) = none := by
  have hlen : (other.take 3).length = 3 := by
    rw [List.length_take]
    omega
  have htake : (other.take 3 ++ rest).take 3 = other.take 3 := List.take_left' hlen
  unfold afterName
  rw [if_neg, if_neg]
  · intro h
    rw [strncaseeq_iff, htake, List.take_take] at h
    exact hne h
  · intro h
    have h3 := congrArg (List.take 3) (strncaseeq_iff.mp h)
    rw [← List.map_take, ← List.map_take, List.take_take, List.take_take, Nat.min_eq_left hlong,
      htake] at h3
    exact hne h3

/-- **A name** is read back from its abbreviation. -/
theorem getName_take {names : List (List UInt8)} (hn : Names names) {rest : List UInt8}
    (hrest : ∀ c ∈ rest.head?, isAlpha c = false) : ∀ (i k : ℕ), k < names.length →
      getName i names ((names.getD k []).take 3 ++ rest) = some (i + k, rest) := by
  obtain ⟨hlong, hletters, hdistinct⟩ := hn
  induction names with
  | nil => exact fun _ _ hk => absurd hk (Nat.not_lt_zero _)
  | cons name names ih =>
    obtain ⟨hname, hlong⟩ := List.forall_mem_cons.mp hlong
    obtain ⟨hletter, hletters⟩ := List.forall_mem_cons.mp hletters
    obtain ⟨hdiff, hdistinct⟩ := List.pairwise_cons.mp hdistinct
    intro i k hk
    cases k with
    | zero =>
      rw [List.getD_cons_zero, getName, afterName_self hname hletter hrest]
      rfl
    | succ k =>
      have hk := Nat.lt_of_succ_lt_succ hk
      have hmem : names.getD k [] ∈ names := by
        rw [List.getD_eq_getElem _ _ hk]
        exact List.getElem_mem _
      rw [List.getD_cons_succ, getName, afterName_other hname (hlong _ hmem) (hdiff _ hmem),
        ih hlong hletters hdistinct _ _ hk, Nat.succ_add, Nat.add_succ]

/-! ## Round trip -/

/-- A number that the style can write. -/
def Style.Fits (n : ℕ) : Style → Prop
  | .name names => Names names ∧ n < names.length
  | .digits lo hi w => 0 < w ∧ lo ≤ n ∧ n ≤ hi ∧ n < 10 ^ w

/-- The text begins with a letter, if it is of a known kind. -/
def startsAlpha : Directive → Bool
  | .field f =>
    match f.style with
    | .name _ => true
    | .digits _ _ _ => false
  | .space => false
  | .lit c => isAlpha c

/-- The text begins with a blank. -/
def startsSpace : Directive → Bool
  | .field _ => false
  | .space => true
  | .lit c => isSpace c

/-- What may stand behind a directive. -/
def Fenced (d : Directive) (alpha space : Bool) : Prop :=
  match d with
  | .field f =>
    match f.style with
    | .name _ => alpha = false
    | .digits _ _ _ => True
  | .space => space = false
  | .lit _ => True

instance (d : Directive) (alpha space : Bool) : Decidable (Fenced d alpha space) := by
  unfold Fenced
  split
  · split <;> infer_instance
  · infer_instance
  · infer_instance

/-- **A format that can be read back.** -/
def Unambiguous : List Directive → Prop
  | [] => True
  | [_] => True
  | d :: e :: ds => Fenced d (startsAlpha e) (startsSpace e) ∧ Unambiguous (e :: ds)

instance decidableUnambiguous : ∀ ds, Decidable (Unambiguous ds)
  | [] => isTrue trivial
  | [_] => isTrue trivial
  | d :: e :: ds =>
    have := decidableUnambiguous (e :: ds)
    inferInstanceAs (Decidable (Fenced d (startsAlpha e) (startsSpace e) ∧ Unambiguous (e :: ds)))

variable {tm : Tm} {d : Directive} {ds : List Directive} {s rest : List UInt8}

theorem write_head (hf : ∀ f, d = .field f → f.style.Fits (tm f)) :
    ∃ c r, write tm d = c :: r ∧ isAlpha c = startsAlpha d ∧ isSpace c = startsSpace d := by
  cases d with
  | space => exact ⟨32, [], rfl, rfl, rfl⟩
  | lit c => exact ⟨c, [], rfl, rfl, rfl⟩
  | field f =>
    have hfit := hf f rfl
    simp only [write, startsAlpha, startsSpace]
    cases hs : f.style with
    | name names =>
      rw [hs] at hfit
      obtain ⟨hn, hlt⟩ := hfit
      have hmem : names.getD (tm f) [] ∈ names := by
        rw [List.getD_eq_getElem _ _ hlt]
        exact List.getElem_mem _
      have hlong := hn.long _ hmem
      have hletters := hn.letters _ hmem
      simp only [Style.write]
      generalize names.getD (tm f) [] = name at hlong hletters
      cases name with
      | nil => exact absurd hlong (by decide)
      | cons c r =>
        have halpha := hletters c List.mem_cons_self
        exact ⟨c, r.take 2, rfl, halpha, isSpace_of_isAlpha halpha⟩
    | digits lo hi w =>
      rw [hs] at hfit
      obtain ⟨w, rfl⟩ := Nat.exists_eq_succ_of_ne_zero hfit.1.ne'
      obtain ⟨c, hc, hcn⟩ := decimal_head (w := w) (tm f)
      have hdigit := digit_of_toNat hcn (Nat.mod_lt _ (by decide))
      exact ⟨c, decimal w (tm f), hc, not_isAlpha_of_digit hdigit, not_isSpace_of_digit hdigit⟩

/-- The fields of a format are those of `tm`. -/
def assign (ds : List Directive) (tm tm₀ : Tm) : Tm :=
  fun f => if .field f ∈ ds then tm f else tm₀ f

/-- **A directive** reads what it has written. -/
theorem read_write (tm₀ : Tm) (hf : ∀ f, d = .field f → f.style.Fits (tm f))
    (ha : ∀ c ∈ rest.head?, Fenced d (isAlpha c) (isSpace c)) :
    read tm₀ (write tm d ++ rest) d = some (assign [d] tm tm₀, rest) := by
  cases d with
  | space =>
    have hrest : rest.dropWhile isSpace = rest := by
      cases rest with
      | nil => rfl
      | cons c r => exact List.dropWhile_cons_of_neg (by rw [ha c rfl]; decide)
    have hassign : assign [.space] tm tm₀ = tm₀ := by
      funext f
      simp [assign]
    rw [hassign]
    show some (tm₀, (32 :: rest).dropWhile isSpace) = _
    rw [List.dropWhile_cons_of_pos (by decide), hrest]
  | lit c =>
    have hassign : assign [.lit c] tm tm₀ = tm₀ := by
      funext f
      simp [assign]
    rw [hassign]
    exact if_pos rfl
  | field f =>
    have hfit := hf f rfl
    have hassign : assign [.field f] tm tm₀ = Function.update tm₀ f (tm f) := by
      funext g
      by_cases hg : g = f
      · simp [assign, hg]
      · simp [assign, hg]
    have hread : f.style.read (f.style.write (tm f) ++ rest) = some (tm f, rest) := by
      simp only [Fenced] at ha
      cases hs : f.style with
      | name names =>
        rw [hs] at hfit ha
        have hname := getName_take hfit.1 ha 0 (tm f) hfit.2
        rw [Nat.zero_add] at hname
        exact hname
      | digits lo hi w =>
        rw [hs] at hfit
        obtain ⟨hw, hlo, hhi, hn⟩ := hfit
        exact getNumber_decimal hw hlo hhi hn rest
    rw [hassign]
    simp only [read, write, hread, Option.map_some]

theorem assign_cons (tm₀ : Tm) : assign ds tm (assign [d] tm tm₀) = assign (d :: ds) tm tm₀ := by
  funext f
  simp only [assign, List.mem_cons, List.not_mem_nil, or_false]
  split_ifs with h h' h'' <;> simp_all

/-- **Round trip**: `strptime` reads the fields of an unambiguous format back. -/
theorem strptime_strftime (hd : Unambiguous ds) (hf : ∀ f, .field f ∈ ds → f.style.Fits (tm f))
    (hrest : ∀ c ∈ rest.head?, isAlpha c = false ∧ isSpace c = false) : ∀ tm₀ : Tm,
      strptime ds tm₀ (strftime ds tm ++ rest) = some (assign ds tm tm₀, rest) := by
  induction ds with
  | nil =>
    intro tm₀
    have hassign : assign [] tm tm₀ = tm₀ := by
      funext f
      simp [assign]
    rw [hassign]
    rfl
  | cons d ds ih =>
    intro tm₀
    have hfence : ∀ c ∈ (strftime ds tm ++ rest).head?, Fenced d (isAlpha c) (isSpace c) := by
      intro c hc
      cases ds with
      | nil =>
        obtain ⟨halpha, hspace⟩ := hrest c hc
        rw [halpha, hspace]
        unfold Fenced
        split
        · split
          · rfl
          · trivial
        · rfl
        · trivial
      | cons e es =>
        obtain ⟨b, r, hb, halpha, hspace⟩ := write_head (d := e) fun f he =>
          hf f (he ▸ List.mem_cons_of_mem _ List.mem_cons_self)
        rw [strftime, List.flatMap_cons, hb] at hc
        cases hc
        rw [halpha, hspace]
        exact hd.1
    have htail : Unambiguous ds := by
      cases ds with
      | nil => trivial
      | cons e es => exact hd.2
    have hread := read_write tm₀ (fun f he => hf f (he ▸ List.mem_cons_self)) hfence
    rw [strftime, List.flatMap_cons, List.append_assoc, strptime, ← strftime, hread,
      Option.bind_some, ih htail fun f hfm => hf f (List.mem_cons_of_mem _ hfm), assign_cons]

theorem gmtime_fits {t : ℤ} (hlo : 0 ≤ yearAt t) (hhi : yearAt t ≤ 9999) (f : Field) :
    f.style.Fits (gmtime t f) := by
  have hyear : (Date.ofDays (t / 86400 + epoch)).year = yearAt t := rfl
  cases f with
  | wday => exact ⟨names_dayNames, weekday_lt _⟩
  | mon => exact ⟨names_monthNames, Date.month_lt _⟩
  | mday =>
    have hpos := (Date.ofDays (t / 86400 + epoch)).day_pos
    have hle := (Date.ofDays (t / 86400 + epoch)).day_le_31
    exact ⟨by decide, hpos, hle, hle.trans_lt (by decide)⟩
  | year =>
    have hle : (Date.ofDays (t / 86400 + epoch)).year.toNat ≤ 9999 := by omega
    exact ⟨by decide, Nat.zero_le _, hle, Nat.lt_succ_of_le hle⟩
  | hour =>
    have hle : (t % 86400 / 3600).toNat ≤ 23 := by omega
    exact ⟨by decide, Nat.zero_le _, hle, hle.trans_lt (by decide)⟩
  | min =>
    have hle : (t % 3600 / 60).toNat ≤ 59 := by omega
    exact ⟨by decide, Nat.zero_le _, hle, hle.trans_lt (by decide)⟩
  | sec =>
    have hle : (t % 60).toNat ≤ 59 := by omega
    exact ⟨by decide, Nat.zero_le _, hle.trans (by decide), hle.trans_lt (by decide)⟩

/-! ## The bytes of a text -/

/-- `isprint`. -/
def isPrint (c : UInt8) : Bool := 32 ≤ c ∧ c ≤ 126

theorem decimal_isPrint (n w : ℕ) : ∀ c ∈ decimal w n, isPrint c = true := by
  induction w with
  | zero => exact fun c hc => absurd hc List.not_mem_nil
  | succ w ih =>
    intro c hc
    obtain ⟨d, hd, hdn⟩ := decimal_head (w := w) n
    rw [hd, List.mem_cons] at hc
    rcases hc with rfl | hc
    · obtain ⟨hlo, hhi⟩ := digit_of_toNat hdn (Nat.mod_lt _ (by decide))
      exact decide_eq_true ⟨UInt8.le_trans (by decide) hlo, UInt8.le_trans hhi (by decide)⟩
    · exact ih c hc

theorem length_decimal (n w : ℕ) : (decimal w n).length = w := by
  induction w with
  | zero => rfl
  | succ w ih => rw [decimal, List.length_cons, ih]

theorem write_isPrint (hl : ∀ c, d = .lit c → isPrint c = true) :
    ∀ c ∈ write tm d, isPrint c = true := by
  intro c hc
  cases d with
  | space =>
    obtain rfl := List.mem_singleton.mp hc
    rfl
  | lit b =>
    obtain rfl := List.mem_singleton.mp hc
    exact hl c rfl
  | field f =>
    have hname : ∀ names : List (List UInt8), (∀ name ∈ names, ∀ c ∈ name, isPrint c = true) →
        ∀ c ∈ (names.getD (tm f) []).take 3, isPrint c = true := by
      intro names hall c hc
      have hc := List.mem_of_mem_take hc
      rcases Nat.lt_or_ge (tm f) names.length with hlt | hge
      · rw [List.getD_eq_getElem _ _ hlt] at hc
        exact hall _ (List.getElem_mem _) c hc
      · rw [List.getD_eq_default _ _ hge] at hc
        exact absurd hc List.not_mem_nil
    cases f with
    | wday => exact hname dayNames (by decide +kernel) c hc
    | mon => exact hname monthNames (by decide +kernel) c hc
    | mday | year | hour | min | sec => exact decimal_isPrint _ _ c hc

/-- The bytes of a directive, at most. -/
def width : Directive → ℕ
  | .field f =>
    match f.style with
    | .name _ => 3
    | .digits _ _ w => w
  | .space => 1
  | .lit _ => 1

theorem length_write_le (tm : Tm) (d : Directive) : (write tm d).length ≤ width d := by
  cases d with
  | space => exact le_rfl
  | lit c => exact le_rfl
  | field f =>
    simp only [write, width]
    cases f.style with
    | name names => exact List.length_take_le _ _
    | digits lo hi w => exact (length_decimal _ _).le

theorem length_strftime_le (tm : Tm) (ds : List Directive) :
    (strftime ds tm).length ≤ (ds.map width).sum := by
  induction ds with
  | nil => exact le_rfl
  | cons d ds ih =>
    rw [strftime, List.flatMap_cons, List.length_append, List.map_cons, List.sum_cons]
    exact Nat.add_le_add (length_write_le tm d) ih

end StrTime
