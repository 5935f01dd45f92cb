import ServerNginx.Http.Read

set_option autoImplicit false

/-!
# Lines of a fresh body

`lines b`: the CRLF-terminated lines `b` starts with, up to the first CR or LF that is not part of
a pair, or the end. `AtLine h rest`: `h` is at the start of a line and has `rest` still to read.

**`parseLine_of_atLine`**: where the cursors have not been carried over from another packet,
`parse_line` returns the next line.
-/

namespace ServerNginx

open CString

/-- A byte that ends a line or makes it bad. -/
def isEol (c : UInt8) : Bool := c = cr ∨ c = lf

/-- The first line of `b` and the bytes behind its CRLF. -/
def nextLine (b : List UInt8) : Option (List UInt8 × List UInt8) :=
  match b.dropWhile fun c => !isEol c with
  | c :: d :: r => if c = cr ∧ d = lf then some (b.takeWhile fun c => !isEol c, r) else none
  | _ => none

/-- What `parse_line` says of the bytes that are left. -/
def lineStatus (b : List UInt8) : LineStatus :=
  match b.dropWhile fun c => !isEol c with
  | [] => .lineOpen
  | [c] => if c = cr then .lineOpen else .lineBad
  | c :: d :: _ => if c = cr ∧ d = lf then .lineOk else .lineBad

/-- The lines of `b`, `n` at most. -/
def linesUpTo : ℕ → List UInt8 → List (List UInt8)
  | 0, _ => []
  | n + 1, b =>
    match nextLine b with
    | none => []
    | some (l, r) => l :: linesUpTo n r

/-- The lines of `b`. -/
def lines (b : List UInt8) : List (List UInt8) := linesUpTo b.length b

/-- The C string a line is read as: it ends at a NUL of its own. -/
def lineText (l : List UInt8) : List UInt8 := l.takeWhile (· ≠ 0)

theorem nextLine_eq_some {b l r : List UInt8} (h : nextLine b = some (l, r)) :
    b = l ++ cr :: lf :: r ∧ ∀ c ∈ l, isEol c = false := by
  unfold nextLine at h
  split at h
  · rename_i c d r' hd
    split_ifs at h with hc
    cases h
    obtain ⟨rfl, rfl⟩ := hc
    refine ⟨?_, fun c hc => by simpa using List.mem_takeWhile_imp hc⟩
    rw [← hd, List.takeWhile_append_dropWhile]
  · cases h

theorem lineStatus_eq_lineOk {b : List UInt8} :
    lineStatus b = .lineOk ↔ (nextLine b).isSome := by
  unfold lineStatus nextLine
  generalize b.dropWhile (fun c => !isEol c) = tail
  match tail with
  | [] => simp
  | [c] =>
    dsimp only
    split_ifs <;> simp
  | c :: d :: t =>
    dsimp only
    split_ifs <;> simp

/-! ## The first CR or LF -/

/-- No CR or LF. -/
def Plain (l : List UInt8) : Prop := ∀ c ∈ l, isEol c = false

instance (l : List UInt8) : Decidable (Plain l) :=
  List.decidableBAll (fun c => isEol c = false) l

@[simp] theorem plain_nil : Plain [] := by simp [Plain]

@[simp] theorem plain_append {l m : List UInt8} : Plain (l ++ m) ↔ Plain l ∧ Plain m :=
  List.forall_mem_append

section firstEol

variable {b l r : List UInt8} {c : UInt8}

theorem isEol_iff : isEol c = true ↔ c = cr ∨ c = lf := by simp [isEol]

theorem dropWhile_plain (h : Plain b) : (b.dropWhile fun c => !isEol c) = [] :=
  List.dropWhile_eq_nil_iff.mpr fun c hc => by simp [h c hc]

theorem dropWhile_append_eol (hl : Plain l) (hc : isEol c = true) :
    ((l ++ c :: r).dropWhile fun c => !isEol c) = c :: r := by
  rw [List.dropWhile_append_of_pos fun x hx => by simp [hl x hx],
    List.dropWhile_cons_of_neg (by simp [hc])]

theorem plain_or_exists (b : List UInt8) :
    Plain b ∨ ∃ l c r, b = l ++ c :: r ∧ Plain l ∧ isEol c = true := by
  induction b with
  | nil => exact Or.inl fun c hc => absurd hc List.not_mem_nil
  | cons c b ih =>
    by_cases hc : isEol c = true
    · exact Or.inr ⟨[], c, b, rfl, fun _ hx => absurd hx List.not_mem_nil, hc⟩
    · have hc := Bool.eq_false_iff.mpr hc
      rcases ih with hb | ⟨l, d, r, rfl, hl, hd⟩
      · exact Or.inl (List.forall_mem_cons.mpr ⟨hc, hb⟩)
      · exact Or.inr ⟨c :: l, d, r, rfl, List.forall_mem_cons.mpr ⟨hc, hl⟩, hd⟩

theorem lineStatus_of_plain (h : Plain b) : lineStatus b = .lineOpen := by
  rw [lineStatus, dropWhile_plain h]

theorem lineStatus_append (hl : Plain l) (hc : isEol c = true) : lineStatus (l ++ c :: r) =
    match r with
    | [] => if c = cr then .lineOpen else .lineBad
    | d :: _ => if c = cr ∧ d = lf then .lineOk else .lineBad := by
  rw [lineStatus, dropWhile_append_eol hl hc]
  cases r <;> rfl

theorem nextLine_append (hl : Plain l) : nextLine (l ++ cr :: lf :: r) = some (l, r) := by
  have htake : ((l ++ cr :: lf :: r).takeWhile fun c => !isEol c) = l := by
    rw [List.takeWhile_append_of_pos fun x hx => by simp [hl x hx],
      List.takeWhile_cons_of_neg (by decide), List.append_nil]
  rw [nextLine, dropWhile_append_eol hl (by decide), htake]
  rfl

theorem lineStatus_lineOk_iff :
    lineStatus b = .lineOk ↔ ∃ l r, Plain l ∧ b = l ++ cr :: lf :: r := by
  constructor
  · intro h
    obtain ⟨p, hp⟩ := Option.isSome_iff_exists.mp (lineStatus_eq_lineOk.mp h)
    obtain ⟨hb, hl⟩ := nextLine_eq_some hp
    exact ⟨p.1, p.2, hl, hb⟩
  · rintro ⟨l, r, hl, rfl⟩
    rw [lineStatus_eq_lineOk, nextLine_append hl]
    rfl

theorem lineStatus_lineBad_iff : lineStatus b = .lineBad ↔
    ∃ l, Plain l ∧ ((∃ r, b = l ++ lf :: r) ∨ ∃ c r, c ≠ lf ∧ b = l ++ cr :: c :: r) := by
  constructor
  · intro h
    rcases plain_or_exists b with hb | ⟨l, c, r, rfl, hl, hc⟩
    · rw [lineStatus_of_plain hb] at h
      cases h
    refine ⟨l, hl, ?_⟩
    rw [lineStatus_append hl hc] at h
    rcases isEol_iff.mp hc with rfl | rfl
    · cases r with
      | nil => cases h
      | cons d r =>
        refine Or.inr ⟨d, r, ?_, rfl⟩
        rintro rfl
        cases h
    · exact Or.inl ⟨r, rfl⟩
  · rintro ⟨l, hl, ⟨r, rfl⟩ | ⟨c, r, hc, rfl⟩⟩
    · rw [lineStatus_append hl (by decide)]
      cases r <;> rfl
    · rw [lineStatus_append hl (by decide)]
      simp [hc]

theorem lineStatus_lineOpen_iff :
    lineStatus b = .lineOpen ↔ Plain b ∨ ∃ l, Plain l ∧ b = l ++ [cr] := by
  constructor
  · intro h
    rcases plain_or_exists b with hb | ⟨l, c, r, rfl, hl, hc⟩
    · exact Or.inl hb
    right
    refine ⟨l, hl, ?_⟩
    rw [lineStatus_append hl hc] at h
    cases r with
    | nil =>
      rcases isEol_iff.mp hc with rfl | rfl
      · rfl
      · cases h
    | cons d r =>
      dsimp only at h
      split_ifs at h
  · rintro (hb | ⟨l, hl, rfl⟩)
    · exact lineStatus_of_plain hb
    · rw [lineStatus_append hl (by decide)]
      rfl

end firstEol

namespace HttpServer

variable {h g : HttpServer} {rest l r : List UInt8}

/-- At the start of a line, with `rest` to read; the byte before is no CR. -/
structure AtLine (h : HttpServer) (rest : List UInt8) : Prop where
  start : h.mStartIdx = h.mCheckIdx
  readIdx : h.mReadIdx = h.mReadBuffer.length
  check : h.mCheckIdx ≤ h.mReadBuffer.length
  rest : h.mReadBuffer.drop h.mCheckIdx = rest
  prev : 1 < h.mCheckIdx → h.mReadBuffer[h.mCheckIdx - 1]? ≠ some cr

theorem atLine_receive (u : Uninit) (body : List UInt8) :
    AtLine ((new u).receive body) body where
  start := rfl
  readIdx := rfl
  check := Nat.zero_le _
  rest := rfl
  prev := fun h => absurd h (Nat.not_lt_zero 1)

theorem AtLine.length (h₀ : AtLine h rest) : h.mReadIdx - h.mCheckIdx = rest.length := by
  rw [← h₀.rest, List.length_drop, h₀.readIdx]

theorem poke_of_lt {i : ℕ} (hi : i < h.mReadBuffer.length) :
    h.poke i = .ok { h with mReadBuffer := h.mReadBuffer.set i 0 } := if_pos hi

/-- The state after a line of `n` bytes: its CRLF is overwritten and the next line starts. -/
def afterLine (h : HttpServer) (n : ℕ) : HttpServer :=
  { h with
    mReadBuffer := (h.mReadBuffer.set (h.mCheckIdx + n) 0).set (h.mCheckIdx + n + 1) 0
    mCheckIdx := h.mCheckIdx + n + 2
    mStartIdx := h.mCheckIdx + n + 2 }

/-! ## Any object -/

/-- `parse_line` starts on a line feed behind a carriage return: the cursor was left there by
another packet. -/
def AtFeed (h : HttpServer) : Prop :=
  h.mReadBuffer[h.mCheckIdx]? = some lf ∧ 1 < h.mCheckIdx ∧
    h.mReadBuffer[h.mCheckIdx - 1]? = some cr

instance (h : HttpServer) : Decidable (AtFeed h) := by
  unfold AtFeed
  infer_instance

/-- This line feed ends the body. -/
def StrayFeed (h : HttpServer) : Prop := AtFeed h ∧ h.mCheckIdx + 1 = h.mReadIdx

instance (h : HttpServer) : Decidable (StrayFeed h) := by
  unfold StrayFeed
  infer_instance

/-- What `parse_line` does to `h`: it moves `m_check_idx` and writes NULs, and a line it returns
ends with two of them. -/
structure Scanned (h : HttpServer) (st : LineStatus) (g : HttpServer) : Prop where
  others : { g with mReadBuffer := h.mReadBuffer, mCheckIdx := h.mCheckIdx } = h
  length : g.mReadBuffer.length = h.mReadBuffer.length
  nul : ∀ i : ℕ, g.mReadBuffer[i]? = h.mReadBuffer[i]? ∨ g.mReadBuffer[i]? = some 0
  le : h.mCheckIdx ≤ g.mCheckIdx
  ok : st = .lineOk → h.mCheckIdx + 2 ≤ g.mCheckIdx ∧ g.mCheckIdx ≤ h.mReadIdx ∧
    g.mReadBuffer[g.mCheckIdx - 2]? = some 0

theorem Scanned.readIdx {st : LineStatus} (hs : Scanned h st g) : g.mReadIdx = h.mReadIdx :=
  (congrArg mReadIdx hs.others :)

theorem Scanned.startIdx {st : LineStatus} (hs : Scanned h st g) : g.mStartIdx = h.mStartIdx :=
  (congrArg mStartIdx hs.others :)

theorem Scanned.checkState {st : LineStatus} (hs : Scanned h st g) :
    g.mCheckState = h.mCheckState := (congrArg mCheckState hs.others :)

theorem Scanned.contentLength {st : LineStatus} (hs : Scanned h st g) :
    g.mContentLength = h.mContentLength := (congrArg mContentLength hs.others :)

theorem cutLine_of_lt (hlt : h.mCheckIdx + 1 < h.mReadBuffer.length) :
    h.cutLine = .ok (.lineOk, { h.afterLine 0 with mStartIdx := h.mStartIdx }) := by
  rw [cutLine, poke_of_lt (Nat.lt_of_succ_lt hlt)]
  simp only [bind, Except.bind]
  rw [poke_of_lt (by simpa using hlt)]
  rfl

theorem cutLine_of_eq (heq : h.mCheckIdx + 1 = h.mReadBuffer.length) :
    h.cutLine = .error .readBuffer := by
  rw [cutLine, poke_of_lt (by omega)]
  simp only [bind, Except.bind]
  rw [poke, if_neg (by simp; omega)]

theorem getElem?_set_set_zero (b : List UInt8) (i j k : ℕ) :
    ((b.set i 0).set j 0)[k]? = b[k]? ∨ ((b.set i 0).set j 0)[k]? = some 0 := by
  simp only [List.getElem?_set, List.length_set]
  split_ifs <;> simp_all

theorem scanned_cutLine (hr : h.mReadIdx = h.mReadBuffer.length)
    (hlt : h.mCheckIdx + 1 < h.mReadBuffer.length) :
    Scanned h .lineOk { h.afterLine 0 with mStartIdx := h.mStartIdx } where
  others := rfl
  length := by simp [afterLine]
  nul := getElem?_set_set_zero _ _ _
  le := Nat.le_add_right _ 2
  ok := fun _ => by
    refine ⟨le_rfl, by rw [hr]; exact hlt, ?_⟩
    simp only [afterLine, Nat.add_zero, Nat.add_sub_cancel]
    rw [List.getElem?_set_ne (by omega), List.getElem?_set_self (by omega)]

theorem scanned_self {st : LineStatus} (hst : st ≠ .lineOk) : Scanned h st h where
  others := rfl
  length := rfl
  nul := fun _ => Or.inl rfl
  le := le_rfl
  ok := fun ho => absurd ho hst

theorem not_strayFeed_succ {c : UInt8} (hc : h.mReadBuffer[h.mCheckIdx]? = some c) (hcr : c ≠ cr) :
    ¬ StrayFeed { h with mCheckIdx := h.mCheckIdx + 1 } := by
  rintro ⟨⟨-, -, hprev⟩, -⟩
  rw [Nat.add_sub_cancel, hc] at hprev
  exact hcr (Option.some.inj hprev)

theorem parseLineLoop_spec (n : ℕ) : ∀ {h : HttpServer}, h.mReadIdx = h.mReadBuffer.length →
    n = h.mReadIdx - h.mCheckIdx →
    (StrayFeed h → parseLineLoop n h = .error .readBuffer) ∧
    (¬ StrayFeed h → ∃ st g, parseLineLoop n h = .ok (st, g) ∧ Scanned h st g) := by
  induction n with
  | zero =>
    intro h hr hn
    constructor
    · rintro ⟨-, hend⟩
      omega
    · exact fun _ => ⟨_, _, rfl, scanned_self (by decide)⟩
  | succ n ih =>
    intro h hr hn
    obtain ⟨c, hc⟩ : ∃ c, h.mReadBuffer[h.mCheckIdx]? = some c :=
      ⟨_, List.getElem?_eq_getElem (by omega)⟩
    rw [parseLineLoop, StrayFeed, AtFeed]
    simp only [hc, Option.some.injEq]
    by_cases hcr : c = cr
    · subst hcr
      refine ⟨fun hs => absurd hs.1.1 (by decide), fun _ => ?_⟩
      simp only [if_true]
      by_cases hlast : h.mCheckIdx + 1 = h.mReadIdx
      · rw [if_pos hlast]
        exact ⟨_, _, rfl, scanned_self (by decide)⟩
      · obtain ⟨d, hd⟩ : ∃ d, h.mReadBuffer[h.mCheckIdx + 1]? = some d :=
          ⟨_, List.getElem?_eq_getElem (by omega)⟩
        rw [if_neg hlast]
        simp only [hd]
        by_cases hlf : d = lf
        · rw [if_pos hlf, cutLine_of_lt (by omega)]
          exact ⟨_, _, rfl, scanned_cutLine hr (by omega)⟩
        · rw [if_neg hlf]
          exact ⟨_, _, rfl, scanned_self (by decide)⟩
    · rw [if_neg hcr]
      by_cases hlf : c = lf
      · simp only [hlf, if_true, true_and]
        by_cases hprev : 1 < h.mCheckIdx ∧ h.mReadBuffer[h.mCheckIdx - 1]? = some cr
        · rw [if_pos hprev]
          constructor
          · rintro ⟨-, hend⟩
            exact cutLine_of_eq (hend.trans hr)
          · intro hs
            have hlt : h.mCheckIdx + 1 < h.mReadBuffer.length := by
              have : h.mCheckIdx + 1 ≠ h.mReadIdx := fun hend => hs ⟨hprev, hend⟩
              omega
            exact ⟨_, _, cutLine_of_lt hlt, scanned_cutLine hr hlt⟩
        · rw [if_neg hprev]
          exact ⟨fun hs => absurd hs.1 hprev, fun _ =>
            ⟨_, _, rfl, scanned_self (by decide)⟩⟩
      · rw [if_neg hlf]
        refine ⟨fun hs => absurd hs.1.1 hlf, fun _ => ?_⟩
        obtain ⟨st, g, hg, hs⟩ := (ih (h := { h with mCheckIdx := h.mCheckIdx + 1 }) hr
          (by dsimp only; omega)).2 (not_strayFeed_succ hc hcr)
        refine ⟨st, g, hg, ⟨?_, hs.length, hs.nul, (Nat.le_succ _).trans hs.le, fun ho => ?_⟩⟩
        · exact congrArg (fun k : HttpServer => { k with mCheckIdx := h.mCheckIdx }) hs.others
        · have := hs.ok ho
          exact ⟨by dsimp only at this; omega, this.2⟩

/-- **`parse_line` on any object** leaves the body on a stray line feed and nowhere else. -/
theorem parseLine_spec (hr : h.mReadIdx = h.mReadBuffer.length) :
    (StrayFeed h → h.parseLine = .error .readBuffer) ∧
    (¬ StrayFeed h → ∃ st g, h.parseLine = .ok (st, g) ∧ Scanned h st g) :=
  parseLineLoop_spec _ hr rfl

theorem parseLine_of_atFeed (hr : h.mReadIdx = h.mReadBuffer.length) (hf : AtFeed h) :
    h.parseLine = h.cutLine := by
  have hlt : h.mCheckIdx < h.mReadBuffer.length := (List.getElem?_eq_some_iff.mp hf.1).1
  obtain ⟨n, hn⟩ : ∃ n, h.mReadIdx - h.mCheckIdx = n + 1 :=
    ⟨h.mReadIdx - h.mCheckIdx - 1, by omega⟩
  rw [parseLine, hn, parseLineLoop]
  simp only [hf.1, if_pos hf.2]
  rfl

/-! ## The next line -/

theorem parseLineLoop_skip (pre : List UInt8) (hpre : ∀ c ∈ pre, isEol c = false) :
    ∀ (h : HttpServer) (tail : List UInt8) (n : ℕ),
      h.mReadBuffer.drop h.mCheckIdx = pre ++ tail →
      parseLineLoop (pre.length + n) h =
        parseLineLoop n { h with mCheckIdx := h.mCheckIdx + pre.length } := by
  induction pre with
  | nil =>
    intro h tail n hd
    simp
  | cons c pre ih =>
    intro h tail n hd
    have hc : h.mReadBuffer[h.mCheckIdx]? = some c := by
      have := congrArg (·[0]?) hd
      simpa using this
    have hne : ¬ (c = cr ∨ c = lf) := by simpa [isEol] using hpre c List.mem_cons_self
    rw [not_or] at hne
    have hstep : parseLineLoop (pre.length + 1 + n) h =
        parseLineLoop (pre.length + n) { h with mCheckIdx := h.mCheckIdx + 1 } := by
      rw [show pre.length + 1 + n = pre.length + n + 1 by omega, parseLineLoop, hc]
      simp only [if_neg hne.1, if_neg hne.2]
    rw [List.length_cons, hstep, ih (fun c hc => hpre c (List.mem_cons_of_mem _ hc)) _ tail n]
    · simp only [Nat.add_assoc, Nat.add_comm 1]
    · have := congrArg List.tail hd
      simpa [List.tail_drop] using this

theorem getElem?_of_drop {b pre tail : List UInt8} {i k : ℕ} (h : b.drop i = pre ++ tail) :
    b[i + pre.length + k]? = tail[k]? := by
  have := congrArg (·[pre.length + k]?) h
  simpa [Nat.add_assoc, List.getElem?_append_right] using this

theorem prev_ne_cr {pre tail : List UInt8} (hf : ¬ AtFeed h)
    (hdrop : h.mReadBuffer.drop h.mCheckIdx = pre ++ lf :: tail)
    (hpre : ∀ c ∈ pre, isEol c = false) :
    ¬ (1 < h.mCheckIdx + pre.length ∧
      h.mReadBuffer[h.mCheckIdx + pre.length - 1]? = some cr) := by
  rintro ⟨h1, hcr⟩
  rcases List.eq_nil_or_concat' pre with rfl | ⟨xs, x, rfl⟩
  · exact hf ⟨by simpa using getElem?_of_drop (k := 0) hdrop, h1, hcr⟩
  · have hx : h.mReadBuffer[h.mCheckIdx + xs.length]? = some x := by
      rw [List.append_assoc] at hdrop
      simpa using getElem?_of_drop (k := 0) hdrop
    rw [List.length_append, List.length_singleton, ← Nat.add_assoc, Nat.add_sub_cancel, hx] at hcr
    have := hpre x (by simp)
    cases hcr
    simp [isEol] at this

/-- **`parse_line` on the bytes from the cursor on**: the status, and the object it leaves. -/
theorem parseLine_of_rest (hr : h.mReadIdx = h.mReadBuffer.length)
    (hle : h.mCheckIdx ≤ h.mReadIdx) (hf : ¬ AtFeed h)
    (hrest : h.mReadBuffer.drop h.mCheckIdx = rest) :
    h.parseLine = .ok (lineStatus rest,
      match nextLine rest with
      | none => { h with mCheckIdx := h.mCheckIdx + (rest.takeWhile fun c => !isEol c).length }
      | some (l, _) => { h.afterLine l.length with mStartIdx := h.mStartIdx }) := by
  have hsplit : rest = (rest.takeWhile fun c => !isEol c) ++ rest.dropWhile fun c => !isEol c :=
    (List.takeWhile_append_dropWhile).symm
  have hpre : ∀ c ∈ rest.takeWhile fun c => !isEol c, isEol c = false := fun c hc => by
    simpa using List.mem_takeWhile_imp hc
  unfold nextLine lineStatus
  generalize rest.takeWhile (fun c => !isEol c) = pre at hsplit hpre
  have htail : ∀ c t, rest.dropWhile (fun c => !isEol c) = c :: t → isEol c = true := by
    intro c t hct
    have := List.head?_dropWhile_not (fun c => !isEol c) rest
    rw [hct] at this
    simpa using this
  generalize rest.dropWhile (fun c => !isEol c) = tail at hsplit htail
  have hdrop := hrest.trans hsplit
  have hread : h.mReadIdx = h.mCheckIdx + pre.length + tail.length := by
    have := congrArg List.length hdrop
    rw [List.length_drop, List.length_append] at this
    omega
  have hlen : h.mReadIdx - h.mCheckIdx = pre.length + tail.length := by omega
  rw [parseLine, hlen, parseLineLoop_skip pre hpre h tail tail.length hdrop]
  have hget : ∀ k, h.mReadBuffer[h.mCheckIdx + pre.length + k]? = tail[k]? := fun k =>
    getElem?_of_drop hdrop
  cases tail with
  | nil => rfl
  | cons c t =>
    have hc : h.mReadBuffer[h.mCheckIdx + pre.length]? = some c := by simpa using hget 0
    have heol : c = cr ∨ c = lf := by simpa [isEol] using htail c t rfl
    rw [List.length_cons] at hread
    rw [List.length_cons, parseLineLoop]
    simp only [hc]
    by_cases hcr : c = cr
    · subst hcr
      simp only [if_true]
      cases t with
      | nil =>
        rw [if_pos (by simpa using hread.symm)]
        rfl
      | cons d r =>
        have hd : h.mReadBuffer[h.mCheckIdx + pre.length + 1]? = some d := by simpa using hget 1
        rw [List.length_cons] at hread
        rw [if_neg (by omega)]
        simp only [hd]
        by_cases hlf : d = lf
        · subst hlf
          simp only [if_true, and_self]
          exact cutLine_of_lt (h := { h with mCheckIdx := h.mCheckIdx + pre.length })
            (by dsimp only; omega)
        · simp only [hlf, if_false, and_false]
    · obtain rfl : c = lf := heol.resolve_left hcr
      simp only [hcr, if_false, if_true, if_neg (prev_ne_cr hf hdrop hpre)]
      cases t <;> simp only [hcr, if_false, false_and]

theorem parseLine_of_nextLine (hr : h.mReadIdx = h.mReadBuffer.length)
    (hle : h.mCheckIdx ≤ h.mReadIdx) (hf : ¬ AtFeed h)
    (hrest : h.mReadBuffer.drop h.mCheckIdx = rest) :
    match nextLine rest with
    | none => ∃ st g, h.parseLine = .ok (st, g) ∧ st ≠ .lineOk
    | some (l, _) => h.parseLine =
        .ok (.lineOk, { h.afterLine l.length with mStartIdx := h.mStartIdx }) := by
  have hp := parseLine_of_rest hr hle hf hrest
  have hok := lineStatus_eq_lineOk (b := rest)
  cases hn : nextLine rest with
  | none =>
    rw [hn] at hp hok
    exact ⟨_, _, hp, fun hst => nomatch hok.mp hst⟩
  | some p =>
    rw [hn] at hp hok
    rw [hok.mpr rfl] at hp
    exact hp

theorem AtLine.not_atFeed (h₀ : AtLine h rest) : ¬ AtFeed h := fun hs => h₀.prev hs.2.1 hs.2.2

theorem AtLine.not_strayFeed (h₀ : AtLine h rest) : ¬ StrayFeed h := fun hs => h₀.not_atFeed hs.1

/-- **`parse_line` at the start of a line.** -/
theorem parseLine_of_atLine (h₀ : AtLine h rest) :
    match nextLine rest with
    | none => ∃ st g, h.parseLine = .ok (st, g) ∧ st ≠ .lineOk
    | some (l, _) => h.parseLine =
        .ok (.lineOk, { h.afterLine l.length with mStartIdx := h.mStartIdx }) :=
  parseLine_of_nextLine h₀.readIdx (by rw [h₀.readIdx]; exact h₀.check) h₀.not_atFeed h₀.rest

/-! ## The state at the next line -/

theorem afterLine_buffer (h₀ : AtLine h rest) (hn : nextLine rest = some (l, r)) :
    ∃ p, p.length = h.mCheckIdx ∧ h.mReadBuffer = p ++ l ++ cr :: lf :: r ∧
      (h.afterLine l.length).mReadBuffer = p ++ l ++ 0 :: 0 :: r := by
  have hp : (h.mReadBuffer.take h.mCheckIdx).length = h.mCheckIdx :=
    List.length_take_of_le h₀.check
  have hb : h.mReadBuffer = h.mReadBuffer.take h.mCheckIdx ++ l ++ cr :: lf :: r := by
    conv_lhs => rw [← List.take_append_drop h.mCheckIdx h.mReadBuffer, h₀.rest,
      (nextLine_eq_some hn).1]
    rw [List.append_assoc]
  refine ⟨_, hp, hb, ?_⟩
  generalize h.mReadBuffer.take h.mCheckIdx = p at hp hb
  have hpl : (p ++ l).length = h.mCheckIdx + l.length := by rw [List.length_append, hp]
  simp only [afterLine]
  rw [hb, ← hpl, List.set_append_right _ _ le_rfl, List.set_append_right _ _ (Nat.le_add_right _ 1),
    Nat.sub_self, Nat.add_sub_cancel_left]
  rfl

theorem cstr_afterLine (h₀ : AtLine h rest) (hn : nextLine rest = some (l, r)) :
    cstr (h.afterLine l.length).mReadBuffer h.mCheckIdx = some (lineText l) := by
  obtain ⟨p, hp, -, hb⟩ := afterLine_buffer h₀ hn
  rw [hb, ← hp]
  exact cstr_append p l (0 :: r)

theorem atLine_afterLine (h₀ : AtLine h rest) (hn : nextLine rest = some (l, r)) :
    AtLine (h.afterLine l.length) r := by
  obtain ⟨p, hp, hb, hb'⟩ := afterLine_buffer h₀ hn
  have hlen : (p ++ l ++ [0, 0]).length = h.mCheckIdx + l.length + 2 := by
    simp [hp, Nat.add_assoc]
  have hsplit : p ++ l ++ 0 :: 0 :: r = (p ++ l ++ [0, 0]) ++ r := by simp
  refine ⟨rfl, ?_, ?_, ?_, fun _ => ?_⟩
  · rw [hb']
    have := h₀.readIdx
    rw [hb] at this
    simpa [afterLine] using this
  · rw [hb', hsplit, List.length_append]
    simp only [afterLine]
    omega
  · rw [hb', hsplit]
    exact List.drop_left' hlen
  · have hzero : (h.afterLine l.length).mReadBuffer[h.mCheckIdx + l.length + 1]? = some 0 := by
      rw [hb', ← hp, ← List.length_append, List.getElem?_append_right (Nat.le_add_right _ 1),
        Nat.add_sub_cancel_left]
      rfl
    simp only [afterLine] at hzero ⊢
    rw [Nat.add_succ_sub_one, hzero]
    decide

theorem afterLine_getElem? (h : HttpServer) {n i : ℕ} (hi : i < h.mCheckIdx) :
    (h.afterLine n).mReadBuffer[i]? = h.mReadBuffer[i]? := by
  simp only [afterLine]
  rw [List.getElem?_set_ne (by omega), List.getElem?_set_ne (by omega)]

end HttpServer

end ServerNginx
