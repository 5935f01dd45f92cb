import Mathlib.Data.List.TakeWhile
import Mathlib.Data.Nat.Notation

set_option autoImplicit false

/-!
# C strings

The functions of `<cstring>` on the bytes of a C string, the terminating NUL left out: a search
gives the index of the byte found, a span the number of bytes. Case is that of the C locale.

`cstr b i` is the C string that starts at index `i` of a memory area `b`; it is `none` where the
area ends before a NUL.
-/

namespace CString

/-- The bytes of a string literal. -/
def ascii (s : String) : List UInt8 := s.toList.map fun c => c.toNat.toUInt8

/-- The C string at index `i` of `b`. -/
def cstr (b : List UInt8) (i : ℕ) : Option (List UInt8) :=
  if (0 : UInt8) ∈ b.drop i then some ((b.drop i).takeWhile (· ≠ 0)) else none

/-- `strchr`, for a byte other than NUL. -/
def strchr (t : List UInt8) (c : UInt8) : Option ℕ := t.findIdx? (· = c)

/-- `strpbrk`. -/
def strpbrk (t accept : List UInt8) : Option ℕ := t.findIdx? (· ∈ accept)

/-- `strspn`. -/
def strspn (t accept : List UInt8) : ℕ := (t.takeWhile (· ∈ accept)).length

/-- `tolower`. -/
def tolower (c : UInt8) : UInt8 := if 65 ≤ c ∧ c ≤ 90 then c + 32 else c

/-- `strcasecmp(s, t) == 0`. -/
def strcaseeq (s t : List UInt8) : Bool := s.map tolower = t.map tolower

/-- `strncasecmp(s, t, n) == 0`. -/
def strncaseeq (s t : List UInt8) (n : ℕ) : Bool := strcaseeq (s.take n) (t.take n)

variable {b t accept : List UInt8} {i : ℕ} {c : UInt8}

theorem cstr_eq_some_iff {s : List UInt8} :
    cstr b i = some s ↔ (0 : UInt8) ∉ s ∧ s ++ [0] <+: b.drop i := by
  constructor
  · intro h
    unfold cstr at h
    split_ifs at h with h0
    cases h
    refine ⟨fun hm => by simpa using List.mem_takeWhile_imp hm, ?_⟩
    have hne : (b.drop i).dropWhile (· ≠ 0) ≠ [] := by
      intro hnil
      have := List.dropWhile_eq_nil_iff.mp hnil 0 h0
      simp at this
    obtain ⟨c, r, hcr⟩ := List.exists_cons_of_ne_nil hne
    have hc : c = 0 := by
      have := List.head?_dropWhile_not (fun x : UInt8 => decide (x ≠ 0)) (b.drop i)
      rw [hcr] at this
      simpa using this
    have hsplit := List.takeWhile_append_dropWhile (p := (· ≠ (0 : UInt8))) (l := b.drop i)
    rw [hcr, hc] at hsplit
    exact ⟨r, by rw [List.append_assoc]; exact hsplit⟩
  · rintro ⟨h0, r, hr⟩
    rw [cstr, ← hr, if_pos (by simp), List.append_assoc, List.takeWhile_append_of_pos
      fun a ha => by
        rw [decide_eq_true_eq]
        rintro rfl
        exact h0 ha]
    simp

theorem cstr_append (p s r : List UInt8) :
    cstr (p ++ s ++ 0 :: r) p.length = some (s.takeWhile (· ≠ 0)) := by
  have hdrop : (p ++ s ++ 0 :: r).drop p.length = s ++ 0 :: r := by
    rw [List.append_assoc, List.drop_left]
  rw [cstr, hdrop, if_pos (by simp), List.takeWhile_append]
  split_ifs with h
  · have hs : s.takeWhile (· ≠ (0 : UInt8)) = s := (List.takeWhile_prefix _).eq_of_length h
    rw [hs, List.takeWhile_cons_of_neg (by decide), List.append_nil]
  · rfl

theorem zero_notMem_of_cstr {s : List UInt8} (h : cstr b i = some s) : (0 : UInt8) ∉ s :=
  (cstr_eq_some_iff.mp h).1

theorem length_of_cstr {s : List UInt8} (h : cstr b i = some s) : i + s.length < b.length := by
  have hle := (cstr_eq_some_iff.mp h).2.length_le
  rw [List.length_append, List.length_singleton, List.length_drop] at hle
  omega

theorem cstr_eq_some_iff_getElem? {s : List UInt8} : cstr b i = some s ↔
    (0 : UInt8) ∉ s ∧ (∀ k, k < s.length → b[i + k]? = s[k]?) ∧ b[i + s.length]? = some 0 := by
  rw [cstr_eq_some_iff, List.prefix_iff_getElem?]
  refine and_congr_right fun _ => ?_
  constructor
  · intro h
    constructor
    · intro k hk
      have := h k (by simp; omega)
      rwa [List.getElem?_drop, List.getElem_append_left hk, ← List.getElem?_eq_getElem hk] at this
    · have := h s.length (by simp)
      simpa [List.getElem?_drop] using this
  · rintro ⟨h, h0⟩ k hk
    rw [List.getElem?_drop]
    rcases Nat.lt_or_ge k s.length with hlt | hge
    · rw [h k hlt, List.getElem_append_left hlt, List.getElem?_eq_getElem hlt]
    · have hks : k = s.length := by
        rw [List.length_append, List.length_singleton] at hk
        omega
      subst hks
      simpa using h0

theorem cstr_congr {b' s : List UInt8} (h : cstr b i = some s)
    (hb : ∀ k, i ≤ k → k ≤ i + s.length → b'[k]? = b[k]?) : cstr b' i = some s := by
  obtain ⟨h0, hs, hend⟩ := cstr_eq_some_iff_getElem?.mp h
  refine cstr_eq_some_iff_getElem?.mpr ⟨h0, fun k hk => ?_, ?_⟩
  · rw [hb _ (by omega) (by omega), hs k hk]
  · rw [hb _ (by omega) le_rfl, hend]

theorem strchr_lt (h : strchr t c = some i) : i < t.length :=
  (List.findIdx?_eq_some_iff_getElem.mp h).1

theorem strpbrk_lt (h : strpbrk t accept = some i) : i < t.length :=
  (List.findIdx?_eq_some_iff_getElem.mp h).1

theorem strchr_eq_none_iff : strchr t c = none ↔ c ∉ t := by
  rw [strchr, List.findIdx?_eq_none_iff]
  constructor
  · intro h hc
    simpa using h c hc
  · intro h x hx
    rw [decide_eq_false_iff_not]
    rintro rfl
    exact h hx

theorem strspn_le : strspn t accept ≤ t.length := (List.takeWhile_prefix _).length_le

theorem findIdx?_eq_some_iff_append {p : UInt8 → Bool} : t.findIdx? p = some i ↔
    ∃ a c r, t = a ++ c :: r ∧ a.length = i ∧ (∀ x ∈ a, p x = false) ∧ p c = true := by
  constructor
  · intro h
    obtain ⟨hlt, hc, hbefore⟩ := List.findIdx?_eq_some_iff_getElem.mp h
    refine ⟨t.take i, t[i], t.drop (i + 1), ?_, List.length_take_of_le hlt.le, fun x hx => ?_, hc⟩
    · rw [← List.drop_eq_getElem_cons hlt, List.take_append_drop]
    · obtain ⟨j, hj, rfl⟩ := List.mem_iff_getElem.mp hx
      rw [List.length_take] at hj
      rw [List.getElem_take]
      simpa using hbefore j (by omega)
  · rintro ⟨a, c, r, rfl, rfl, ha, hc⟩
    rw [List.findIdx?_append, List.findIdx?_eq_none_iff.mpr ha, List.findIdx?_cons]
    simp [hc]

theorem strpbrk_eq_some_iff : strpbrk t accept = some i ↔
    ∃ a c r, t = a ++ c :: r ∧ a.length = i ∧ (∀ x ∈ a, x ∉ accept) ∧ c ∈ accept := by
  simp [strpbrk, findIdx?_eq_some_iff_append]

theorem strchr_eq_some_iff : strchr t c = some i ↔
    ∃ a r, t = a ++ c :: r ∧ a.length = i ∧ c ∉ a := by
  rw [strchr, findIdx?_eq_some_iff_append]
  constructor
  · rintro ⟨a, d, r, ht, hi, ha, hd⟩
    obtain rfl := of_decide_eq_true hd
    exact ⟨a, r, ht, hi, fun hm => by simpa using ha d hm⟩
  · rintro ⟨a, r, ht, hi, ha⟩
    refine ⟨a, c, r, ht, hi, fun x hx => ?_, decide_eq_true rfl⟩
    rw [decide_eq_false_iff_not]
    rintro rfl
    exact ha hx

theorem drop_strspn : t.drop (strspn t accept) = t.dropWhile (· ∈ accept) := by
  rw [strspn]
  induction t with
  | nil => rfl
  | cons c t ih =>
    by_cases hc : c ∈ accept
    · rw [List.takeWhile_cons_of_pos (by simpa using hc), List.dropWhile_cons_of_pos
        (by simpa using hc), List.length_cons, List.drop_succ_cons, ih]
    · rw [List.takeWhile_cons_of_neg (by simpa using hc), List.dropWhile_cons_of_neg
        (by simpa using hc), List.length_nil, List.drop_zero]

end CString
