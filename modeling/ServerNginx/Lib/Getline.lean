import Mathlib.Data.List.Basic
import Mathlib.Data.Nat.Notation
import Mathlib.Tactic.TypeStar

set_option autoImplicit false

/-!
# Lines of an input stream

`getline d n` reads a line that ends in `d` into a buffer of `n` characters. It stores `n - 1` of
them at most; a longer line sets the fail bit, and a stream that has failed gives nothing more and
never reaches its end.

* `getline_last`, `getline_line`, `getline_long`: the three ends of a line;
* `lines_cases`: the lines of the text left to read, the first of them apart.
-/

/-- An input stream: the characters not yet extracted, `eofbit` and `failbit`. -/
structure Istream (α : Type*) where
  rest : List α
  eofbit : Bool
  failbit : Bool

namespace Istream

variable {α : Type*}

/-- Why the extraction of a line stops. -/
inductive Stop
  | eof
  | delim
  | full
deriving DecidableEq

variable [DecidableEq α]

/-- Extract a line, storing `n` characters at most: the characters stored and what is left. -/
def extract (d : α) : ℕ → List α → List α × Stop × List α
  | _, [] => ([], .eof, [])
  | n, c :: cs =>
    if c = d then ([], .delim, cs)
    else match n with
      | 0 => ([], .full, c :: cs)
      | n + 1 => let r := extract d n cs; (c :: r.1, r.2)

/-- `getline(s, n, d)`: the stream behind it and the characters stored. -/
def getline (d : α) (n : ℕ) (s : Istream α) : Istream α × List α :=
  if s.eofbit || s.failbit then ({ s with failbit := true }, [])
  else
    let r := extract d (n - 1) s.rest
    ({ rest := r.2.2
       eofbit := r.2.1 = .eof
       failbit := r.2.1 = .full ∨ r.2.1 = .eof ∧ r.1 = [] }, r.1)

/-- A stream that has just been opened. -/
def opened (l : List α) : Istream α := ⟨l, false, false⟩

variable {d : α} {n : ℕ} {l r : List α}

theorem extract_last (hd : d ∉ l) (hn : l.length ≤ n) : extract d n l = (l, .eof, []) := by
  induction l generalizing n with
  | nil => unfold extract; rfl
  | cons c cs ih =>
    obtain ⟨hc, hcs⟩ := List.ne_and_not_mem_of_not_mem_cons hd
    cases n with
    | zero => cases hn
    | succ n =>
      rw [extract, if_neg hc.symm]
      simp only [ih hcs (Nat.le_of_succ_le_succ hn)]

theorem extract_line (hd : d ∉ l) (hn : l.length ≤ n) :
    extract d n (l ++ d :: r) = (l, .delim, r) := by
  induction l generalizing n with
  | nil =>
    show extract d n (d :: r) = _
    unfold extract
    exact if_pos rfl
  | cons c cs ih =>
    obtain ⟨hc, hcs⟩ := List.ne_and_not_mem_of_not_mem_cons hd
    cases n with
    | zero => cases hn
    | succ n =>
      rw [List.cons_append, extract, if_neg hc.symm]
      simp only [ih hcs (Nat.le_of_succ_le_succ hn)]

theorem extract_long (hd : d ∉ l) (hn : n < l.length) :
    extract d n (l ++ r) = (l.take n, .full, l.drop n ++ r) := by
  induction l generalizing n with
  | nil => cases hn
  | cons c cs ih =>
    obtain ⟨hc, hcs⟩ := List.ne_and_not_mem_of_not_mem_cons hd
    cases n with
    | zero => rw [List.cons_append, extract, if_neg hc.symm]; rfl
    | succ n =>
      rw [List.cons_append, extract, if_neg hc.symm]
      simp only [ih hcs (Nat.lt_of_succ_lt_succ hn), List.take_succ_cons, List.drop_succ_cons]

theorem getline_last (hd : d ∉ l) (hn : l.length < n) :
    getline d n (opened l) = (⟨[], true, l = []⟩, l) := by
  have h := extract_last hd (Nat.le_sub_one_of_lt hn)
  simp [getline, opened, h]

theorem getline_line (hd : d ∉ l) (hn : l.length < n) :
    getline d n (opened (l ++ d :: r)) = (opened r, l) := by
  have h := extract_line (r := r) hd (Nat.le_sub_one_of_lt hn)
  simp [getline, opened, h]

theorem getline_long (hd : d ∉ l) (hn : n ≤ l.length) (h0 : 0 < n) :
    getline d n (opened (l ++ r)) =
      (⟨l.drop (n - 1) ++ r, false, true⟩, l.take (n - 1)) := by
  have h := extract_long (r := r) hd (show n - 1 < l.length by omega)
  simp [getline, opened, h]

theorem getline_failed (s : Istream α) (h : s.failbit = true) : getline d n s = (s, []) := by
  obtain ⟨l, e, f⟩ := s
  cases h
  simp [getline]

theorem lines_cases (d : α) (l : List α) : (d ∉ l ∧ l.splitOn d = [l]) ∨
    ∃ a r, l = a ++ d :: r ∧ d ∉ a ∧ l.splitOn d = a :: r.splitOn d := by
  by_cases h : d ∈ l
  · obtain ⟨a, r, rfl, ha⟩ := List.eq_append_cons_of_mem h
    exact Or.inr ⟨a, r, rfl, ha, List.splitOn_append_cons_self_of_not_mem ha r⟩
  · exact Or.inl ⟨h, List.splitOn_eq_singleton h⟩

end Istream
