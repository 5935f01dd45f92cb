import ServerNginx.Http.Iterate
import ServerNginx.Http.Text

set_option autoImplicit false

/-!
# The calls of `parse_line`

`process_read` calls `parse_line` once in each iteration: `atCall env n h` is the object at call
number `n` on `h`, if there are so many, and `Enters env h g` says that `process_read` on `h` hands
`g` to `do_request`.

* `Enters.processRead_eq`: the code is that of `do_request` then;
* **`enters_iff_reading`**: a fresh object comes to `do_request` exactly on the bodies that are read
  as a request;
* **`parseLine_splits`**: on a fresh object the calls return the lines that end with CRLF, in order,
  up to the first CR or LF that is not part of a pair.
-/

namespace ServerNginx

open CString

namespace HttpServer

variable {env : Env} {h g k : HttpServer} {n : ℕ}

/-- The object at the next call of `parse_line`, if the loop goes on. -/
def nextCall (env : Env) (h : HttpServer) : Option HttpServer :=
  match processReadIter env h with
  | .ok (none, g) => some g
  | _ => none

/-- The object at call number `n` of `parse_line`. -/
def atCall (env : Env) : ℕ → HttpServer → Option HttpServer
  | 0, h => some h
  | n + 1, h => (nextCall env h).bind (atCall env n)

/-- `process_read` on `h` calls `do_request` on `g`. -/
def Enters (env : Env) (h g : HttpServer) : Prop :=
  ∃ n k, atCall env n h = some k ∧ readText env k = .ok (.getRequest, g)

/-! ## One iteration -/

theorem nextCall_eq_some : nextCall env h = some k ↔
    ∃ c, c ≠ .badRequest ∧ c ≠ .getRequest ∧ readText env h = .ok (c, k) := by
  unfold nextCall processReadIter verdict
  cases readText env h with
  | error e => simp [bind, Except.bind]
  | ok p =>
    obtain ⟨c, f⟩ := p
    cases c with
    | getRequest =>
      simp only [bind, Except.bind]
      cases doRequest env f <;> simp
    | _ => simp [bind, Except.bind]

theorem enters_iff : Enters env h g ↔
    readText env h = .ok (.getRequest, g) ∨ ∃ k, nextCall env h = some k ∧ Enters env k g := by
  constructor
  · rintro ⟨n, k, hk, hg⟩
    cases n with
    | zero =>
      cases hk
      exact Or.inl hg
    | succ n =>
      obtain ⟨f, hf, hk⟩ := Option.bind_eq_some_iff.mp hk
      exact Or.inr ⟨f, hf, n, k, hk, hg⟩
  · rintro (hg | ⟨f, hf, n, k, hk, hg⟩)
    · exact ⟨0, h, rfl, hg⟩
    · exact ⟨n + 1, k, by rw [atCall, hf]; exact hk, hg⟩

theorem not_enters_of_error {e : Fault} (hr : readText env h = .error e) :
    ¬ ∃ g, Enters env h g := by
  rintro ⟨g, he⟩
  rcases enters_iff.mp he with hg | ⟨k, hk, -⟩
  · rw [hr] at hg
    cases hg
  · obtain ⟨c, -, -, hc⟩ := nextCall_eq_some.mp hk
    rw [hr] at hc
    cases hc

theorem not_enters_of_bad (hr : readText env h = .ok (.badRequest, k)) :
    ¬ ∃ g, Enters env h g := by
  rintro ⟨g, he⟩
  rcases enters_iff.mp he with hg | ⟨k, hk, -⟩
  · rw [hr] at hg
    cases hg
  · obtain ⟨c, hc, -, hk⟩ := nextCall_eq_some.mp hk
    rw [hr] at hk
    cases hk
    exact hc rfl

theorem enters_of_no (hr : readText env h = .ok (.noRequest, k)) :
    Enters env h g ↔ Enters env k g := by
  have hnext : nextCall env h = some k :=
    nextCall_eq_some.mpr ⟨.noRequest, by decide, by decide, hr⟩
  rw [enters_iff, hr, hnext]
  simp

/-- **Every iteration of `process_read`** leads to `do_request`, or is not the last. -/
theorem Enters.processRead_eq (hs : Sound h) (he : Enters env h g) :
    processRead env h = doRequest env g := by
  obtain ⟨n, k, hk, hg⟩ := he
  induction n generalizing h with
  | zero =>
    cases hk
    rw [processRead_eq hs, processReadIter, hg]
    simp only [bind, Except.bind, verdict]
    cases doRequest env g <;> rfl
  | succ n ih =>
    obtain ⟨f, hf, hk⟩ := Option.bind_eq_some_iff.mp hk
    have hiter : processReadIter env h = .ok (none, f) := by
      unfold nextCall at hf
      split at hf
      · rename_i hr
        cases hf
        exact hr
      · cases hf
    have hsf : Sound f := by
      by_cases hb : InBody h
      · exact (((processReadIter_post env hs).1 hb).of_ok hiter).1
      · rw [(processReadIter_post env hs).2 hb] at hiter
        cases hiter
    rw [processRead_eq hs, hiter]
    exact ih hsf hk

/-! ## The lines of a fresh object -/

section lines

variable {rest l r : List UInt8} {body : List UInt8}

/-- **The loop goes on** behind a line, with what the line is followed by. -/
theorem AtLine.nextCall (h₀ : AtLine h rest) (hk : nextCall env h = some k) :
    ∃ l r, nextLine rest = some (l, r) ∧ AtLine k r ∧
      k.mCheckIdx = h.mCheckIdx + l.length + 2 ∧ k.mReadIdx = h.mReadIdx := by
  obtain ⟨c, hbad, hget, hr⟩ := nextCall_eq_some.mp hk
  cases hn : nextLine rest with
  | none =>
    obtain ⟨g, hg, -⟩ := readText_of_none env h₀ hn
    rw [hg] at hr
    cases hr
    exact absurd rfl hbad
  | some p =>
    obtain ⟨l, r⟩ := p
    have h₁ := atLine_afterLine h₀ hn
    have hcstr := cstr_afterLine h₀ hn
    have hle := lineText_length_le (l := l)
    have hck : (h.afterLine l.length).mCheckIdx = h.mCheckIdx + l.length + 2 := rfl
    rw [readText_of_some env h₀ hn] at hr
    refine ⟨l, r, rfl, ?_⟩
    cases hst : (h.afterLine l.length).mCheckState with
    | requestLine =>
      rw [parseText_of_requestLine hst hcstr] at hr
      obtain ⟨c', g, hg, hlen, hframe, hcore, -⟩ := parseRequest_spec hcstr
      rw [hg] at hr
      cases hr
      refine ⟨h₁.of_frame (congrArg mStartIdx hcore :) (congrArg mCheckIdx hcore :)
        (congrArg mReadIdx hcore :) hlen fun i hi => hframe i (Or.inr (by omega)),
        (congrArg mCheckIdx hcore :), (congrArg mReadIdx hcore :)⟩
    | header =>
      rw [parseText_of_header hst hcstr] at hr
      obtain ⟨-, -, rfl⟩ | ⟨rfl, -⟩ | ⟨-, hcut⟩ :=
        parseHeader_of_ok (length_of_cstr hcstr).le hr
      · exact ⟨h₁.of_frame rfl rfl rfl rfl fun _ _ => rfl, rfl, rfl⟩
      · exact absurd rfl hget
      · exact ⟨h₁.cut hcut (by omega), hcut.checkIdx, hcut.readIdx⟩
    | content =>
      rw [parseText_of_content hst] at hr
      obtain ⟨rfl, -⟩ | ⟨-, rfl⟩ := parseContent_of_ok hr
      · exact absurd rfl hget
      · exact ⟨h₁, rfl, rfl⟩

theorem AtLine.atCall (n : ℕ) : ∀ {h : HttpServer} {rest : List UInt8}, AtLine h rest →
    atCall env n h = some k → ∃ ls r, rest = ended ls ++ r ∧ ls.length = n ∧
      (∀ l ∈ ls, Plain l) ∧ AtLine k r ∧ k.mCheckIdx = h.mCheckIdx + (ended ls).length ∧
      k.mReadIdx = h.mReadIdx := by
  induction n with
  | zero =>
    intro h rest h₀ hk
    cases hk
    exact ⟨[], rest, rfl, rfl, fun _ hl => absurd hl List.not_mem_nil, h₀, rfl, rfl⟩
  | succ n ih =>
    intro h rest h₀ hk
    obtain ⟨g, hg, hk⟩ := Option.bind_eq_some_iff.mp hk
    obtain ⟨l, r, hn, h₁, hck, hrd⟩ := h₀.nextCall hg
    obtain ⟨hrest, hl⟩ := nextLine_eq_some hn
    obtain ⟨ls, r', rfl, hlen, hls, h₂, hck', hrd'⟩ := ih h₁ hk
    refine ⟨l :: ls, r', ?_, by rw [List.length_cons, hlen],
      List.forall_mem_cons.mpr ⟨hl, hls⟩, h₂, ?_, hrd'.trans hrd⟩
    · rw [hrest, ended_cons, List.append_assoc]
      rfl
    · rw [hck', hck, length_ended_cons]
      omega

/-- **A call of `parse_line`** with `rest` to read in a body of `len` bytes: a line is returned
where one ends with CRLF, and the two bytes are overwritten; the line is bad or open otherwise. -/
structure Splits (k : HttpServer) (rest : List UInt8) (len : ℕ) (st : LineStatus)
    (g : HttpServer) : Prop where
  text : k.mReadBuffer.drop k.mStartIdx = rest
  ok : st = .lineOk ↔ ∃ l r, Plain l ∧ rest = l ++ cr :: lf :: r
  cut : ∀ l r, Plain l → rest = l ++ cr :: lf :: r → g = { k with
    mReadBuffer := (k.mReadBuffer.set (k.mStartIdx + l.length) 0).set (k.mStartIdx + l.length + 1) 0
    mCheckIdx := k.mStartIdx + l.length + 2 }
  bad : st = .lineBad ↔
    ∃ l, Plain l ∧ ((∃ r, rest = l ++ lf :: r) ∨ ∃ c r, c ≠ lf ∧ rest = l ++ cr :: c :: r)
  isOpen : st = .lineOpen ↔ Plain rest ∨ ∃ l, Plain l ∧ rest = l ++ [cr]
  kept : st ≠ .lineOk → g.mReadBuffer = k.mReadBuffer
  cursors : k.mStartIdx ≤ k.mCheckIdx ∧ k.mCheckIdx ≤ g.mCheckIdx ∧ g.mCheckIdx ≤ len ∧
    g.mStartIdx = k.mStartIdx ∧ k.mReadIdx = len ∧ g.mReadIdx = len
  grows : st = .lineOk → k.mCheckIdx + 2 ≤ g.mCheckIdx

theorem AtLine.splits (h₀ : AtLine k rest) :
    ∃ st g, k.parseLine = .ok (st, g) ∧ Splits k rest k.mReadIdx st g := by
  have hp := parseLine_of_rest h₀.readIdx (by rw [h₀.readIdx]; exact h₀.check) h₀.not_atFeed h₀.rest
  have hlen := h₀.length
  have hcheck := h₀.check
  rw [← h₀.readIdx] at hcheck
  have htake : (rest.takeWhile fun c => !isEol c).length ≤ rest.length :=
    (List.takeWhile_prefix _).length_le
  cases hn : nextLine rest with
  | none =>
    rw [hn] at hp
    have hst : lineStatus rest ≠ .lineOk := fun hst => by
      have := lineStatus_eq_lineOk.mp hst
      rw [hn] at this
      cases this
    refine ⟨_, _, hp, h₀.start ▸ h₀.rest, lineStatus_lineOk_iff, fun l r hl hr => ?_,
      lineStatus_lineBad_iff, lineStatus_lineOpen_iff, fun _ => rfl,
      ⟨h₀.start.le, Nat.le_add_right _ _, by dsimp only; omega, rfl, rfl, rfl⟩,
      fun h => absurd h hst⟩
    exact absurd (lineStatus_lineOk_iff.mpr ⟨l, r, hl, hr⟩) hst
  | some p =>
    obtain ⟨l, r⟩ := p
    rw [hn] at hp
    have hnl := nextLine_length hn
    have hst : lineStatus rest = .lineOk := by
      rw [lineStatus_eq_lineOk, hn]
      rfl
    refine ⟨_, _, hp, h₀.start ▸ h₀.rest, lineStatus_lineOk_iff, fun l' r' hl hr => ?_,
      lineStatus_lineBad_iff, lineStatus_lineOpen_iff, fun h => absurd hst h,
      ⟨h₀.start.le, ?_, ?_, rfl, rfl, rfl⟩, fun _ => ?_⟩
    · rw [hr, nextLine_append hl] at hn
      cases hn
      rw [h₀.start]
      rfl
    all_goals
      simp only [HttpServer.afterLine]
      omega

/-- **The calls split a body exactly at CRLF**: call number `n` is behind the first `n` lines, and
returns the next one, if there is one. -/
theorem parseLine_splits (env : Env) (u : Uninit) (body : List UInt8) (n : ℕ) (k : HttpServer)
    (hk : atCall env n ((new u).receive body) = some k) :
    ∃ ls rest st g, body = ended ls ++ rest ∧ ls.length = n ∧ (∀ l ∈ ls, Plain l) ∧
      k.mStartIdx = (ended ls).length ∧ k.parseLine = .ok (st, g) ∧
      Splits k rest body.length st g := by
  obtain ⟨ls, rest, hbody, hlen, hls, h₀, hck, hrd⟩ :=
    (atLine_receive u body).atCall n hk
  obtain ⟨st, g, hg, hsplit⟩ := h₀.splits
  rw [show k.mReadIdx = body.length from hrd] at hsplit
  refine ⟨ls, rest, st, g, hbody, hlen, hls, ?_, hg, hsplit⟩
  rw [h₀.start, hck]
  exact Nat.zero_add _

/-- The second call on a request. -/
theorem parseLine_splits_second :
    ∃ ls rest st g, ascii "GET http://h/x HTTP/1.1\r\nHost: h\r\n\r\n" = ended ls ++ rest ∧
      ls.length = 1 ∧ (∀ l ∈ ls, Plain l) ∧
      ∃ k, k.mStartIdx = (ended ls).length ∧ k.parseLine = .ok (st, g) ∧
        Splits k rest 36 st g := by
  have hsome : (atCall .noFiles 1 ((new .zero).receive
      (ascii "GET http://h/x HTTP/1.1\r\nHost: h\r\n\r\n"))).isSome := by decide +kernel
  obtain ⟨k, hk⟩ := Option.isSome_iff_exists.mp hsome
  obtain ⟨ls, rest, st, g, hbody, hlen, hls, hstart, hg, hsplit⟩ :=
    parseLine_splits .noFiles .zero _ 1 k hk
  exact ⟨ls, rest, st, g, hbody, hlen, hls, k, hstart, hg, hsplit⟩

end lines

/-! ## The requests of a fresh object -/

section fresh

variable {m : Method} {url rest l r : List UInt8}

variable (env) in
theorem enters_content (n : ℕ) : ∀ {h : HttpServer} {rest : List UInt8}, rest.length ≤ n →
    AtHeader h m url rest → h.mCheckState = .content → 0 < h.mContentLength →
    ((∃ g, Enters env h g) ↔ readContent h.mReadBuffer.length (.request m url) h.mContentLength
      h.mCheckIdx (linesUpTo n rest) = .request m url) := by
  induction n with
  | zero =>
    intro h rest hle h₀ _ _
    obtain rfl := List.length_eq_zero_iff.mp (Nat.le_zero.mp hle)
    obtain ⟨g, hg, -⟩ := readText_of_none env h₀.line rfl
    exact iff_of_false (not_enters_of_bad hg) (by rintro ⟨⟩)
  | succ n ih =>
    intro h rest hle h₀ hst hpos
    rw [linesUpTo]
    cases hn : nextLine rest with
    | none =>
      obtain ⟨g, hg, -⟩ := readText_of_none env h₀.line hn
      exact iff_of_false (not_enters_of_bad hg) (by rintro ⟨⟩)
    | some p =>
      obtain ⟨l, r⟩ := p
      have hlen := nextLine_length hn
      have hstep := readText_content env h₀ hst hpos hn
      dsimp only [readContent]
      split_ifs at hstep ⊢
      · exact iff_of_false (not_enters_of_error hstep) (by rintro ⟨⟩)
      · obtain ⟨g, hg, -⟩ := hstep
        exact iff_of_true ⟨g, enters_iff.mpr (Or.inl hg)⟩ rfl
      · obtain ⟨k, hk, hb, hks, -⟩ := hstep
        have hread := ih (by omega) hb.header hks (hb.length ▸ hpos)
        rw [hb.buffer, hb.length, hb.checkIdx] at hread
        simp only [enters_of_no hk, hread]

variable (env) in
theorem enters_headers (n : ℕ) : ∀ {h : HttpServer} {rest : List UInt8}, rest.length ≤ n →
    AtHeader h m url rest → h.mCheckState = .header →
    ((∃ g, Enters env h g) ↔ readHeaders h.mReadBuffer.length (.request m url) h.mContentLength
      h.mCheckIdx (linesUpTo n rest) = .request m url) := by
  induction n with
  | zero =>
    intro h rest hle h₀ _
    obtain rfl := List.length_eq_zero_iff.mp (Nat.le_zero.mp hle)
    obtain ⟨g, hg, -⟩ := readText_of_none env h₀.line rfl
    exact iff_of_false (not_enters_of_bad hg) (by rintro ⟨⟩)
  | succ n ih =>
    intro h rest hle h₀ hst
    rw [linesUpTo]
    cases hn : nextLine rest with
    | none =>
      obtain ⟨g, hg, -⟩ := readText_of_none env h₀.line hn
      exact iff_of_false (not_enters_of_bad hg) (by rintro ⟨⟩)
    | some p =>
      obtain ⟨l, r⟩ := p
      have hlen := nextLine_length hn
      have hstep := readText_header env h₀ hst hn
      dsimp only [readHeaders]
      split_ifs at hstep ⊢ with hnil hpos hok hrej
      · obtain ⟨k, hk, hb, hks, -⟩ := hstep
        have hread := enters_content env n (by omega) hb.header hks (hb.length ▸ hpos)
        rw [hb.buffer, hb.length, hb.checkIdx] at hread
        simp only [enters_of_no hk, hread]
      · obtain ⟨g, hg, -⟩ := hstep
        exact iff_of_true ⟨g, enters_iff.mpr (Or.inl hg)⟩ rfl
      · obtain ⟨g, hg, -⟩ := hstep
        exact iff_of_false (not_enters_of_bad hg) (by rintro ⟨⟩)
      · obtain ⟨k, hk, hb, hks, -⟩ := hstep
        have hread := ih (by omega) hb.header hks
        rw [hb.buffer, hb.length, hb.checkIdx] at hread
        simp only [enters_of_no hk, hread]
      · obtain ⟨e, he⟩ := hstep
        exact iff_of_false (not_enters_of_error he) (by rintro ⟨⟩)

variable (env) in
/-- **A fresh object comes to `do_request`** exactly on the bodies that are read as a request. -/
theorem enters_iff_reading (u : Uninit) {body : List UInt8} (hroom : body.length < 2 ^ 16) :
    (∃ g, Enters env ((new u).receive body) g) ↔ ∃ m url, reading body = .request m url := by
  have h₀ := atLine_receive u body
  rw [reading, lines]
  cases hn : nextLine body with
  | none =>
    obtain ⟨g, hg, -⟩ := readText_of_none env h₀ hn
    have hnone : linesUpTo body.length body = [] := by
      cases body.length <;> simp [linesUpTo, hn]
    rw [hnone]
    exact iff_of_false (not_enters_of_bad hg) (by rintro ⟨_, _, ⟨⟩⟩)
  | some p =>
    obtain ⟨l, r⟩ := p
    obtain ⟨n, hb⟩ : ∃ n, body.length = n + 1 := ⟨body.length - 1, by
      have := nextLine_length hn
      omega⟩
    have hlen := nextLine_length hn
    rw [hb, linesUpTo, hn]
    have hstep := readText_requestLine env h₀ rfl rfl hroom hn
    rw [show ((new u).receive body).mMethod = .get from rfl] at hstep
    dsimp only
    cases hr : requestLine .get (lineText l) with
    | none =>
      rw [hr] at hstep
      obtain ⟨g, hg, -⟩ := hstep
      exact iff_of_false (not_enters_of_bad hg) (by rintro ⟨_, _, ⟨⟩⟩)
    | some q =>
      obtain ⟨m, url⟩ := q
      rw [hr] at hstep
      obtain ⟨k, hk, hbh, hks, -⟩ := hstep
      have hread := enters_headers env n (by omega) hbh.header hks
      rw [hbh.buffer, hbh.length, hbh.checkIdx,
        show ((new u).receive body).mReadBuffer.length = n + 1 from hb,
        show ((new u).receive body).mCheckIdx = 0 from rfl, Nat.zero_add] at hread
      simp only [enters_of_no hk, hread]
      constructor
      · exact fun h => ⟨m, url, h⟩
      · rintro ⟨m', url', h⟩
        cases readHeaders_request _ _ _ h
        exact h

end fresh

end HttpServer

end ServerNginx
