import ServerNginx.Http.Served
import ServerNginx.Http.Written

set_option autoImplicit false

/-!
# Iterations on any object

The cursors, the state and the content length of one packet are those the next one starts with.

* `Sound`: what holds of the object between any two steps of `Business`;
* `InBody`: what an iteration of `process_read` needs to stay inside the body;
* **`processReadIter_post`**: an iteration keeps `Sound`, and leaves the body exactly where the
  object is not `InBody`;
* `processRead_eq`: the loop of `process_read` without fuel.
-/

namespace ServerNginx

open CString CNumber

namespace HttpServer

variable {env : Env} {h g : HttpServer}

/-! ## One iteration -/

/-- The index behind the CRLF of the line `parse_line` returns next, if it returns one. -/
def lineEnd (h : HttpServer) : Option ℕ :=
  if AtFeed h then some (h.mCheckIdx + 2)
  else (nextLine (h.mReadBuffer.drop h.mCheckIdx)).map fun p => h.mCheckIdx + p.1.length + 2

/-- The cursor is not at a line feed that ends the body, and a content length that is going to be
looked at keeps `text[m_content_length]` behind the start of the body and does not overflow. -/
def InBody (h : HttpServer) : Prop :=
  ¬ StrayFeed h ∧ (h.mCheckState = .content → ∀ e, lineEnd h = some e →
    0 ≤ h.mStartIdx + h.mContentLength ∧ h.mContentLength + e < 2 ^ 31)

instance (h : HttpServer) : Decidable (InBody h) :=
  decidable_of_iff (¬ StrayFeed h ∧ (h.mCheckState = .content → ∀ e ∈ lineEnd h,
    0 ≤ h.mStartIdx + h.mContentLength ∧ h.mContentLength + e < 2 ^ 31)) Iff.rfl

/-- What holds of an object between any two steps. -/
structure Sound (h : HttpServer) : Prop where
  readIdx : h.mReadIdx = h.mReadBuffer.length
  room : h.mReadBuffer.length < 2 ^ 16
  cursor : h.mStartIdx ≤ h.mCheckIdx
  length : -2 ^ 31 ≤ h.mContentLength ∧ h.mContentLength < 2 ^ 31

theorem parseLine_lineEnd (hr : h.mReadIdx = h.mReadBuffer.length) (hs : ¬ StrayFeed h) :
    match lineEnd h with
    | none => ∃ st g, h.parseLine = .ok (st, g) ∧ st ≠ .lineOk
    | some e => ∃ g, h.parseLine = .ok (.lineOk, g) ∧ g.mCheckIdx = e := by
  unfold lineEnd
  split_ifs with hf
  · have hlt : h.mCheckIdx < h.mReadBuffer.length := (List.getElem?_eq_some_iff.mp hf.1).1
    have hlast : h.mCheckIdx + 1 ≠ h.mReadIdx := fun hl => hs ⟨hf, hl⟩
    exact ⟨_, (parseLine_of_atFeed hr hf).trans (cutLine_of_lt (by omega)), rfl⟩
  · rcases Nat.lt_or_ge h.mReadIdx h.mCheckIdx with hlt | hge
    · rw [List.drop_eq_nil_of_le (by omega)]
      refine ⟨.lineOpen, h, ?_, by decide⟩
      rw [parseLine, Nat.sub_eq_zero_of_le hlt.le]
      rfl
    · have hp := parseLine_of_nextLine hr hge hf rfl
      cases hn : nextLine (h.mReadBuffer.drop h.mCheckIdx) with
      | none =>
        rw [hn] at hp
        exact hp
      | some p =>
        rw [hn] at hp
        exact ⟨_, hp, rfl⟩

theorem Sound.congr (hs : Sound h) (hr : g.mReadIdx = h.mReadIdx)
    (hb : g.mReadBuffer.length = h.mReadBuffer.length) (hst : g.mStartIdx = h.mStartIdx)
    (hc : g.mCheckIdx = h.mCheckIdx)
    (hl : -2 ^ 31 ≤ g.mContentLength ∧ g.mContentLength < 2 ^ 31) : Sound g where
  readIdx := by rw [hr, hb, hs.readIdx]
  room := by rw [hb]; exact hs.room
  cursor := by rw [hst, hc]; exact hs.cursor
  length := hl

theorem Sound.next {st : LineStatus} (hs : Sound h) (hg : Scanned h st g) :
    Sound g.startNext where
  readIdx := hg.readIdx.trans (hs.readIdx.trans hg.length.symm)
  room := lt_of_eq_of_lt hg.length hs.room
  cursor := le_rfl
  length := by
    rw [show g.startNext.mContentLength = h.mContentLength from hg.contentLength]
    exact hs.length

theorem Sound.stuck {st : LineStatus} (hs : Sound h) (hg : Scanned h st g) : Sound g where
  readIdx := (hs.next hg).readIdx
  room := (hs.next hg).room
  cursor := hg.startIdx.trans_le (hs.cursor.trans hg.le)
  length := (hs.next hg).length

theorem Sound.cut {lo hi : ℕ} (hs : Sound h) (hc : Cut lo hi h g)
    (hl : -2 ^ 31 ≤ g.mContentLength ∧ g.mContentLength < 2 ^ 31) : Sound g :=
  hs.congr hc.readIdx hc.length hc.startIdx hc.checkIdx hl

theorem exists_cstr_of_scanned (hs : Sound h) (hg : Scanned h .lineOk g) :
    ∃ t, cstr g.mReadBuffer h.mStartIdx = some t := by
  obtain ⟨h2, -, hnul⟩ := hg.ok rfl
  have hle := hs.cursor
  rw [cstr, if_pos]
  · exact ⟨_, rfl⟩
  · refine List.mem_of_getElem? (i := g.mCheckIdx - 2 - h.mStartIdx) ?_
    rw [List.getElem?_drop, show h.mStartIdx + (g.mCheckIdx - 2 - h.mStartIdx) =
      g.mCheckIdx - 2 by omega]
    exact hnul

/-- The parser of the state of `h` returns `c` and `k` for the line `t`, with `g` behind it. -/
inductive Parsed (env : Env) (h g : HttpServer) (t : List UInt8) (c : HttpCode) (k : HttpServer) :
    Prop
  | requestLine (hst : h.mCheckState = .requestLine)
    (hp : g.parseRequest h.mStartIdx t = .ok (c, k))
  | header (hst : h.mCheckState = .header) (hp : parseHeader env g h.mStartIdx t = .ok (c, k))
  | content (hst : h.mCheckState = .content) (hp : g.parseContent h.mStartIdx = .ok (c, k))

/-- **One line**: `parse_line` finds none, or the parser of the state gets it. -/
theorem readText_cases {c : HttpCode} {k : HttpServer} (hs : Sound h)
    (hr : readText env h = .ok (c, k)) :
    (c = .badRequest ∧ ∃ st, Scanned h st k) ∨
      ∃ g t, h.parseLine = .ok (.lineOk, g) ∧ Scanned h .lineOk g ∧
        cstr g.startNext.mReadBuffer h.mStartIdx = some t ∧ Parsed env h g.startNext t c k := by
  by_cases hstray : StrayFeed h
  · simp [readText, (parseLine_spec hs.readIdx).1 hstray, bind, Except.bind] at hr
  obtain ⟨st, g, hg, hsg⟩ := (parseLine_spec hs.readIdx).2 hstray
  by_cases hst : st = .lineOk
  · subst hst
    obtain ⟨t, ht⟩ := exists_cstr_of_scanned hs hsg
    have hcstr : cstr g.startNext.mReadBuffer h.mStartIdx = some t := ht
    have hstate : g.startNext.mCheckState = h.mCheckState := hsg.checkState
    have hparse : parseText env g.startNext h.mStartIdx = .ok (c, k) := by
      rw [← hr]
      simp only [readText, hg, bind, Except.bind, if_true, hsg.startIdx]
    refine Or.inr ⟨g, t, hg, hsg, hcstr, ?_⟩
    cases hck : h.mCheckState with
    | requestLine =>
      rw [parseText_of_requestLine (hstate.trans hck) hcstr] at hparse
      exact .requestLine hck hparse
    | header =>
      rw [parseText_of_header (hstate.trans hck) hcstr] at hparse
      exact .header hck hparse
    | content =>
      rw [parseText_of_content (hstate.trans hck)] at hparse
      exact .content hck hparse
  · have hread : readText env h = .ok (.badRequest, g) := by
      simp [readText, hg, hst, bind, Except.bind]
    rw [hread] at hr
    cases hr
    exact Or.inl ⟨rfl, st, hsg⟩

theorem parseContent_of_ok {base : ℕ} {c : HttpCode} {k : HttpServer}
    (hr : h.parseContent base = .ok (c, k)) :
    (c = .getRequest ∧ k = { h with
      mReadBuffer := h.mReadBuffer.set (base + h.mContentLength).toNat 0 }) ∨
    c = .noRequest ∧ k = h := by
  unfold parseContent at hr
  split at hr
  · dsimp only at hr
    split at hr
    · cases hr
    · unfold poke at hr
      split at hr
      · cases hr
        exact Or.inl ⟨rfl, rfl⟩
      · cases hr
  · cases hr
    exact Or.inr ⟨rfl, rfl⟩

/-- The members `process_read` has nothing to do with: what is written and sent. -/
def output (h : HttpServer) : List UInt8 × List Iovec × ℕ := (h.mWriteBuffer, h.mIov, h.mIovCount)

theorem Scanned.output {st : LineStatus} (hs : Scanned h st g) : g.output = h.output :=
  (congrArg HttpServer.output hs.others :)

/-- What a parser does to the cursors and the output of `h`. -/
structure Keeps (h g : HttpServer) : Prop where
  sound : Sound g
  output : g.output = h.output
  checkIdx : g.mCheckIdx = h.mCheckIdx
  readIdx : g.mReadIdx = h.mReadIdx

theorem parseRequest_keeps {base : ℕ} {t : List UInt8} (hs : Sound h)
    (ht : cstr h.mReadBuffer base = some t) :
    Post (h.parseRequest base t) (fun e => e ≠ .readBuffer) fun p => Keeps h p.2 := by
  obtain ⟨code, g, hg, hl, -, hc, -⟩ := parseRequest_spec ht
  have hcl : g.mContentLength = h.mContentLength := (congrArg mContentLength hc :)
  have hck : g.mCheckIdx = h.mCheckIdx := (congrArg mCheckIdx hc :)
  have hr : g.mReadIdx = h.mReadIdx := (congrArg mReadIdx hc :)
  rw [hg]
  exact ⟨hs.congr hr hl (congrArg mStartIdx hc :) hck (by rw [hcl]; exact hs.length),
    (congrArg HttpServer.output hc :), hck, hr⟩

theorem parseHeader_keeps {base : ℕ} {t : List UInt8} (hs : Sound h)
    (ht : cstr h.mReadBuffer base = some t) :
    Post (parseHeader env h base t) (fun e => e ≠ .readBuffer) fun p => Keeps h p.2 := by
  by_cases hnil : t = []
  · unfold parseHeader
    split_ifs
    · exact ⟨hs.congr rfl rfl rfl rfl hs.length, rfl, rfl, rfl⟩
    · exact ⟨hs, rfl, rfl, rfl⟩
  · have hh := parseHeader_handled env hnil (length_of_cstr ht).le
    by_cases hok : LineOk t
    · obtain ⟨code, g, hg, hcut, hcl, -⟩ := hh.result hok
      rw [hg]
      exact ⟨hs.cut hcut (by rw [hcl]; exact lengthAfter_bounds hs.length),
        (congrArg HttpServer.output hcut.core :), hcut.checkIdx, hcut.readIdx⟩
    · obtain ⟨e, he, hne⟩ := hh.fault hok
      rw [he]
      exact hne

theorem parseContent_keeps (base : ℕ) (hs : Sound h) (hbase : base + 2 ≤ h.mCheckIdx)
    (hcheck : h.mCheckIdx ≤ h.mReadIdx) :
    (ContentOk h base → Post (h.parseContent base) (fun e => e ≠ .readBuffer) fun p =>
      Keeps h p.2) ∧
    (¬ ContentOk h base → h.parseContent base = .error .readBuffer) := by
  obtain ⟨hout, hin⟩ := parseContent_spec base hs.readIdx hs.room hbase hcheck hs.length
  refine ⟨fun hok => ?_, hout⟩
  rw [hin hok]
  split_ifs
  · exact ⟨hs.congr rfl List.length_set rfl rfl hs.length, rfl, rfl, rfl⟩
  · exact ⟨hs, rfl, rfl, rfl⟩

theorem inBody_iff_contentOk (hs : Sound h) (hstray : ¬ StrayFeed h)
    (hg : h.parseLine = .ok (.lineOk, g)) (hsg : Scanned h .lineOk g)
    (hst : h.mCheckState = .content) :
    InBody h ↔ ContentOk g.startNext h.mStartIdx := by
  have hend : lineEnd h = some g.mCheckIdx := by
    have hl := parseLine_lineEnd hs.readIdx hstray
    cases he : lineEnd h with
    | none =>
      rw [he] at hl
      obtain ⟨st, k, hk, hne⟩ := hl
      rw [hg] at hk
      cases hk
      exact absurd rfl hne
    | some e =>
      rw [he] at hl
      obtain ⟨k, hk, rfl⟩ := hl
      rw [hg] at hk
      cases hk
      rfl
  have hlen : g.startNext.mContentLength = h.mContentLength := hsg.contentLength
  have hck : g.startNext.mCheckIdx = g.mCheckIdx := rfl
  simp [InBody, ContentOk, hstray, hst, hend, hlen, hck]

/-- The cursor moves on by a line at least, and stays in the body. -/
structure Advances (h g : HttpServer) : Prop where
  readIdx : g.mReadIdx = h.mReadIdx
  lt : h.mCheckIdx + 2 ≤ g.mCheckIdx
  le : g.mCheckIdx ≤ g.mReadIdx

variable (env) in
/-- **One line** stays inside the body where the object is `InBody`, and leaves it elsewhere. -/
theorem readText_post (hs : Sound h) :
    (InBody h → Post (readText env h) (fun e => e ≠ .readBuffer) fun p =>
      Sound p.2 ∧ p.2.output = h.output ∧ (p.1 ≠ .badRequest → Advances h p.2)) ∧
    (¬ InBody h → readText env h = .error .readBuffer) := by
  obtain ⟨hstray, hscan⟩ := parseLine_spec hs.readIdx
  by_cases hs₁ : StrayFeed h
  · refine ⟨fun hb => absurd hs₁ hb.1, fun _ => ?_⟩
    simp [readText, hstray hs₁, bind, Except.bind]
  obtain ⟨st, g, hg, hsg⟩ := hscan hs₁
  by_cases hst : st = .lineOk
  · subst hst
    have hread : readText env h = parseText env g.startNext h.mStartIdx := by
      simp only [readText, hg, bind, Except.bind, if_true, hsg.startIdx]
    obtain ⟨t, ht⟩ := exists_cstr_of_scanned hs hsg
    have ht : cstr g.startNext.mReadBuffer h.mStartIdx = some t := ht
    have hstate : g.startNext.mCheckState = h.mCheckState := hsg.checkState
    have hnext := hs.next hsg
    obtain ⟨h2, hle, -⟩ := hsg.ok rfl
    have advance : ∀ p : HttpCode × HttpServer, Keeps g.startNext p.2 →
        Sound p.2 ∧ p.2.output = h.output ∧ (p.1 ≠ .badRequest → Advances h p.2) := fun p hp =>
      have hr : p.2.mReadIdx = h.mReadIdx := hp.readIdx.trans hsg.readIdx
      ⟨hp.sound, hp.output.trans hsg.output, fun _ =>
        ⟨hr, hp.checkIdx.symm ▸ h2, by rw [hp.checkIdx, hr]; exact hle⟩⟩
    rw [hread]
    cases hck : h.mCheckState with
    | requestLine =>
      have hin : InBody h := ⟨hs₁, fun hc => by cases hck.symm.trans hc⟩
      rw [parseText_of_requestLine (hstate.trans hck) ht]
      exact ⟨fun _ => (parseRequest_keeps hnext ht).mono advance, fun hn => absurd hin hn⟩
    | header =>
      have hin : InBody h := ⟨hs₁, fun hc => by cases hck.symm.trans hc⟩
      rw [parseText_of_header (hstate.trans hck) ht]
      exact ⟨fun _ => (parseHeader_keeps hnext ht).mono advance, fun hn => absurd hin hn⟩
    | content =>
      have hcur := hs.cursor
      obtain ⟨hin, hout⟩ := parseContent_keeps h.mStartIdx hnext
        (show h.mStartIdx + 2 ≤ g.mCheckIdx by omega) (hle.trans_eq hsg.readIdx.symm)
      rw [parseText_of_content (hstate.trans hck), inBody_iff_contentOk hs hs₁ hg hsg hck]
      exact ⟨fun hok => (hin hok).mono advance, hout⟩
  · have hread : readText env h = .ok (.badRequest, g) := by
      simp [readText, hg, hst, bind, Except.bind]
    have hend := parseLine_lineEnd hs.readIdx hs₁
    have hin : InBody h := by
      refine ⟨hs₁, fun _ e he => ?_⟩
      rw [he] at hend
      obtain ⟨k, hk, -⟩ := hend
      rw [hg] at hk
      cases hk
      exact absurd rfl hst
    rw [hread]
    exact ⟨fun _ => ⟨hs.stuck hsg, hsg.output, fun hn => absurd rfl hn⟩, fun hn => absurd hin hn⟩

theorem Sound.readText {c : HttpCode} (hs : Sound h) (hr : readText env h = .ok (c, g)) :
    Sound g := by
  obtain ⟨hin, hout⟩ := readText_post env hs
  by_cases hb : InBody h
  · exact ((hin hb).of_ok hr).1
  · rw [hout hb] at hr
    cases hr

/-! ## The rest of an iteration -/

theorem openFile_sound (hs : Sound h) (path : List UInt8) : Sound (openFile env h path).2 := by
  unfold openFile
  split
  · exact hs
  · split
    · exact hs.congr rfl rfl rfl rfl hs.length
    · dsimp only
      split <;> exact hs.congr rfl rfl rfl rfl (int32_bounds _)

theorem statFile_sound (hs : Sound h) (path : List UInt8) : Sound (statFile env h path).2 := by
  unfold statFile
  split
  · exact hs
  · have hs₁ := fun st : Stat => hs.congr (g := { h with mStat := st }) rfl rfl rfl rfl hs.length
    dsimp only
    split_ifs
    · exact hs₁ _
    · exact hs₁ _
    · refine openFile_sound ?_ path
      exact hs.congr rfl rfl rfl rfl hs.length
    · exact hs₁ _
    · exact hs₁ _
    · exact openFile_sound (hs₁ _) path

theorem deref_post (p : Option Ptr) :
    Post (h.deref p) (fun e => e ≠ .readBuffer) fun _ => True := by
  unfold deref
  split
  · exact nofun
  · split_ifs
    · exact nofun
    · split
      · exact nofun
      · trivial

theorem openFile_final (path : List UInt8) : Final (openFile env h path).1 := by
  unfold openFile
  split
  · trivial
  · split
    · trivial
    · dsimp only
      split <;> trivial

theorem statFile_final (path : List UInt8) : Final (statFile env h path).1 := by
  unfold statFile
  split
  · trivial
  · dsimp only
    split_ifs
    · trivial
    · trivial
    · exact openFile_final path
    · trivial
    · trivial
    · exact openFile_final path

theorem doRequest_post (hs : Sound h) : Post (doRequest env h) (fun e => e ≠ .readBuffer) fun p =>
    Sound p.2 ∧ p.2.output = h.output ∧ Final p.1 := by
  unfold doRequest
  split_ifs
  · exact ⟨hs, rfl, trivial⟩
  · refine (deref_post _).bind fun url _ => ?_
    have hname : Post (h.fileName url) (fun e => e ≠ .readBuffer) fun _ => True := by
      unfold fileName
      split
      · exact nofun
      · trivial
    refine hname.bind fun name _ => ?_
    dsimp only
    split
    · exact nofun
    · refine Post.ok_iff.mpr ⟨statFile_sound ?_ _, ?_, statFile_final _⟩
      · exact hs.congr rfl rfl rfl rfl hs.length
      · exact (congrArg HttpServer.output (statFile_besideFile _ _ _) :)

variable (env) in
/-- **One iteration** of `process_read`. -/
theorem processReadIter_post (hs : Sound h) :
    (InBody h → Post (processReadIter env h) (fun e => e ≠ .readBuffer) fun p =>
      Sound p.2 ∧ p.2.output = h.output ∧ (p.1 = none → Advances h p.2) ∧
        ∀ code, p.1 = some code → Final code) ∧
    (¬ InBody h → processReadIter env h = .error .readBuffer) := by
  obtain ⟨hin, hout⟩ := readText_post env hs
  constructor
  · intro hb
    refine (hin hb).bind fun p hp => ?_
    unfold verdict
    split
    · refine ⟨hp.1, hp.2.1, nofun, fun code hc => ?_⟩
      cases hc
      trivial
    · refine (doRequest_post hp.1).bind fun q hq => ⟨hq.1, hq.2.1.trans hp.2.1, nofun, ?_⟩
      intro code hc
      cases hc
      exact hq.2.2
    · rename_i hne _
      exact ⟨hp.1, hp.2.1, fun _ => hp.2.2 hne, nofun⟩
  · intro hb
    rw [processReadIter, hout hb]
    rfl

theorem processReadLoop_congr (n : ℕ) : ∀ (m : ℕ) {h : HttpServer}, Sound h →
    h.mReadIdx - h.mCheckIdx < n → h.mReadIdx - h.mCheckIdx < m →
      processReadLoop env n h = processReadLoop env m h := by
  induction n with
  | zero => exact fun _ _ _ hn => absurd hn (Nat.not_lt_zero _)
  | succ n ih =>
    intro m h hs hn hm
    obtain ⟨m, rfl⟩ : ∃ k, m = k + 1 := ⟨m - 1, by omega⟩
    rw [processReadLoop, processReadLoop]
    by_cases hb : InBody h
    · have hpost := (processReadIter_post env hs).1 hb
      cases hr : processReadIter env h with
      | error e => rfl
      | ok p =>
        obtain ⟨code, g⟩ := p
        have hg := hpost.of_ok hr
        cases code with
        | some code => rfl
        | none =>
          obtain ⟨hread, hlt, hle⟩ := hg.2.2.1 rfl
          dsimp only at hread hlt hle
          exact ih m hg.1 (by omega) (by omega)
    · rw [(processReadIter_post env hs).2 hb]
      rfl

/-- **The loop of `process_read`**, without fuel. -/
theorem processRead_eq (hs : Sound h) : processRead env h =
    processReadIter env h >>= fun p =>
      match p.1 with
      | some code => .ok (code, p.2)
      | none => processRead env p.2 := by
  rw [processRead, processReadLoop]
  by_cases hb : InBody h
  · have hpost := (processReadIter_post env hs).1 hb
    cases hr : processReadIter env h with
    | error e => rfl
    | ok p =>
      obtain ⟨code, g⟩ := p
      have hg := hpost.of_ok hr
      cases code with
      | some code => rfl
      | none =>
        obtain ⟨hread, hlt, hle⟩ := hg.2.2.1 rfl
        dsimp only at hread hlt hle
        exact processReadLoop_congr _ _ hg.1 (by omega) (Nat.lt_succ_self _)
  · rw [(processReadIter_post env hs).2 hb]
    rfl

/-- **`process_read`** keeps the invariant and the output, and returns a code that has an answer. -/
theorem processReadLoop_post (n : ℕ) : ∀ {h : HttpServer}, Sound h →
    Post (processReadLoop env n h) (fun _ => True) fun p =>
      Sound p.2 ∧ p.2.output = h.output ∧ Final p.1 := by
  induction n with
  | zero => exact fun hs => ⟨hs, rfl, trivial⟩
  | succ n ih =>
    intro h hs
    rw [processReadLoop]
    by_cases hb : InBody h
    · have hpost := (processReadIter_post env hs).1 hb
      cases hr : processReadIter env h with
      | error e => trivial
      | ok p =>
        obtain ⟨code, g⟩ := p
        obtain ⟨hg, ho, -, hfinal⟩ := hpost.of_ok hr
        cases code with
        | some code => exact ⟨hg, ho, hfinal code rfl⟩
        | none => exact (ih hg).mono fun q hq => ⟨hq.1, hq.2.1.trans ho, hq.2.2⟩
    · rw [(processReadIter_post env hs).2 hb]
      trivial

/-- **The rule of the loop of `process_read`**: `R` holds between an object and what the loop
returns if it does where the loop ends and goes back over one line. -/
theorem processReadLoop_rule {R : HttpServer → HttpCode × HttpServer → Prop}
    (start : ∀ h, R h (.badRequest, h))
    (bad : ∀ {h k}, Sound h → readText env h = .ok (.badRequest, k) → R h (.badRequest, k))
    (get : ∀ {h k q}, Sound h → readText env h = .ok (.getRequest, k) → doRequest env k = .ok q →
      R h q)
    (next : ∀ {h k c q}, Sound h → readText env h = .ok (c, k) → R k q → R h q)
    (n : ℕ) : ∀ {h : HttpServer}, Sound h →
      Post (processReadLoop env n h) (fun _ => True) (R h) := by
  induction n with
  | zero => exact fun {h} _ => start h
  | succ n ih =>
    intro h hs
    cases ht : readText env h with
    | error e =>
      rw [processReadLoop_of_error ht]
      trivial
    | ok p =>
      obtain ⟨c, k⟩ := p
      rw [processReadLoop, processReadIter, ht]
      simp only [bind, Except.bind, verdict]
      cases c with
      | badRequest => exact bad hs ht
      | getRequest =>
        cases hr : doRequest env k with
        | error e => trivial
        | ok q => exact get hs ht hr
      | _ => exact (ih (hs.readText ht)).mono fun q hq => next hs ht hq

/-! ## The rest of `Business` -/

theorem Sound.receive (hs : Sound h) {body : List UInt8} (hb : body.length < 2 ^ 16) :
    Sound (h.receive body) := ⟨rfl, hb, hs.cursor, hs.length⟩

theorem Sound.of_besideOutput (hs : Sound h) (ho : g.besideOutput = h.besideOutput) : Sound g := by
  have hl : g.mContentLength = h.mContentLength := (congrArg mContentLength ho :)
  exact hs.congr (congrArg mReadIdx ho :) (congrArg (fun k => k.mReadBuffer.length) ho :)
    (congrArg mStartIdx ho :) (congrArg mCheckIdx ho :) (by rw [hl]; exact hs.length)

variable (env) in
theorem reply_post (pkgHeader : List UInt8) (code : HttpCode) (hs : Sound h) :
    Post (reply env pkgHeader code h) (fun e => e ≠ .readBuffer) fun r => Sound r.obj := by
  refine (processWrite_post code).bind fun g hg => ?_
  have hlen : Post g.writeLen (fun e => e ≠ .readBuffer) fun _ => True := by
    unfold writeLen
    split_ifs
    · trivial
    · exact nofun
  refine hlen.bind fun len _ => ?_
  exact (hs.of_besideOutput hg.1).congr rfl rfl rfl rfl (hs.of_besideOutput hg.1).length

end HttpServer

end ServerNginx
