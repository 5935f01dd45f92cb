import ServerNginx.Http.Calls
import ServerNginx.Http.Filed
import ServerNginx.Http.History

set_option autoImplicit false

/-!
# The copies into `m_filename`

`do_request` copies `./Resource` and `m_url` into the 200 bytes of `m_filename`, without a look at
the length of `m_url`, which is bounded by that of the packet only.

* `Started h m url`: behind the request line that named `m` and `url`;
* `Named`: `m_filename` is as in `init` as long as no request line was accepted;
* **`nameFits_iff`**: the copies stay inside `m_filename` exactly for a path of less than 190 bytes.
-/

namespace ServerNginx

open CString

namespace HttpServer

variable {env : Env} {h g k : HttpServer} {m : Method} {c : HttpCode} {st : LineStatus}
  {url t : List UInt8}

/-! ## One line of a packet -/

theorem poke_of_ok {i : ℕ} (hg : h.poke i = .ok g) :
    g = { h with mReadBuffer := h.mReadBuffer.set i 0 } := by
  unfold poke at hg
  split at hg
  · cases hg
    rfl
  · cases hg

theorem cutLine_frame (hg : h.cutLine = .ok (st, g)) {i : ℕ} (hi : i < h.mCheckIdx) :
    g.mReadBuffer[i]? = h.mReadBuffer[i]? := by
  unfold cutLine at hg
  cases hk : h.poke h.mCheckIdx with
  | error e => simp [hk, bind, Except.bind] at hg
  | ok k =>
    obtain rfl := poke_of_ok hk
    simp only [hk, bind, Except.bind] at hg
    split at hg
    · cases hg
    · rename_i f hf
      obtain rfl := poke_of_ok hf
      cases hg
      dsimp only
      rw [List.getElem?_set_ne (by omega), List.getElem?_set_ne (by omega)]

theorem parseLineLoop_frame (n : ℕ) : ∀ {h : HttpServer}, parseLineLoop n h = .ok (st, g) →
    ∀ i < h.mCheckIdx, g.mReadBuffer[i]? = h.mReadBuffer[i]? := by
  induction n with
  | zero =>
    intro h hg i _
    cases hg
    rfl
  | succ n ih =>
    intro h hg i hi
    rw [parseLineLoop] at hg
    split at hg
    · cases hg
    · split_ifs at hg with hcr hend hlf hprev
      · cases hg
        rfl
      · split at hg
        · cases hg
        · split_ifs at hg
          · exact cutLine_frame hg hi
          · cases hg
            rfl
      · exact cutLine_frame hg hi
      · cases hg
        rfl
      · exact ih hg i (Nat.lt_succ_of_lt hi)

theorem length_le_of_cstr {b : List UInt8} {base j : ℕ} (ht : cstr b base = some t)
    (hj : b[j]? = some 0) (hle : base ≤ j) : base + t.length ≤ j := by
  by_contra hlt
  obtain ⟨h0, hs, -⟩ := cstr_eq_some_iff_getElem?.mp ht
  have hk := hs (j - base) (by omega)
  rw [Nat.add_sub_cancel' hle, hj] at hk
  exact h0 (List.mem_of_getElem? hk.symm)

/-- What `parse_line` returns next, read as a request line. -/
def nextRequest (h : HttpServer) : Option (Method × List UInt8) :=
  match h.parseLine with
  | .ok (.lineOk, g) => (cstr g.mReadBuffer h.mStartIdx).bind (requestLine h.mMethod)
  | _ => none

/-- Behind a request line that named `m` and `url`, with `url` in front of the line to come. -/
structure Started (h : HttpServer) (m : Method) (url : List UInt8) : Prop where
  sound : Sound h
  state : h.mCheckState ≠ .requestLine
  method : h.mMethod = m
  url : UrlAt h url h.mStartIdx
  length : h.mCheckState = .content → 0 ≤ h.mContentLength

theorem Started.next (h₀ : Started h m url) (hg : h.parseLine = .ok (.lineOk, g))
    (hsg : Scanned h .lineOk g) : UrlAt g.startNext url h.mStartIdx :=
  h₀.url.congr (congrArg mUrl hsg.others :) (congrArg HttpServer.pkt hsg.others :)
    fun i hi => parseLineLoop_frame _ hg i (by have := h₀.sound.cursor; omega)

/-- **A later line** of the packet does not touch the URL. -/
theorem Started.readText (h₀ : Started h m url) (hr : readText env h = .ok (c, k))
    (hc : c ≠ .badRequest) : Started k m url := by
  obtain ⟨hbad, -⟩ | ⟨g, t, hg, hsg, ht, hparsed⟩ := readText_cases h₀.sound hr
  · exact absurd hbad hc
  have hsound : Sound k := h₀.sound.readText hr
  have hurl := h₀.next hg hsg
  have hcur := h₀.sound.cursor
  obtain ⟨hck, -⟩ := hsg.ok rfl
  have hstate : g.startNext.mCheckState = h.mCheckState := hsg.checkState
  have hmethod : g.startNext.mMethod = m := (congrArg mMethod hsg.others :).trans h₀.method
  have hstart : h.mStartIdx ≤ g.startNext.mStartIdx := by
    change h.mStartIdx ≤ g.mCheckIdx
    omega
  cases hparsed with
  | requestLine hst _ => exact absurd hst h₀.state
  | header hst hp =>
    obtain ⟨-, hpos, rfl⟩ | ⟨-, rfl⟩ | ⟨-, hcut⟩ := parseHeader_of_ok (length_of_cstr ht).le hp
    · exact ⟨hsound, CheckState.noConfusion, hmethod, hurl.mono hstart, fun _ => hpos.le⟩
    · exact ⟨hsound, hstate.trans_ne h₀.state, hmethod, hurl.mono hstart,
        fun hcon => by cases hcon.symm.trans (hstate.trans hst)⟩
    · have hks : k.mCheckState = .header := hcut.checkState.trans (hstate.trans hst)
      exact ⟨hsound, by rw [hks]; decide, hcut.method.trans hmethod,
        (hurl.cut hcut le_rfl).mono (by rw [hcut.startIdx]; exact hstart),
        fun hcon => by cases hcon.symm.trans hks⟩
  | content hst hp =>
    have hlen : 0 ≤ g.startNext.mContentLength :=
      (congrArg mContentLength hsg.others :).symm ▸ h₀.length hst
    obtain ⟨-, rfl⟩ | ⟨-, rfl⟩ := parseContent_of_ok hp
    · exact ⟨hsound, hstate.trans_ne h₀.state, hmethod, (hurl.set (by omega)).mono hstart,
        fun _ => hlen⟩
    · exact ⟨hsound, hstate.trans_ne h₀.state, hmethod, hurl.mono hstart, fun _ => hlen⟩

/-- **The request line** of the packet starts a request, or is not followed by another line. -/
theorem started_readText (hs : Sound h) (hst : h.mCheckState = .requestLine)
    (hr : HttpServer.readText env h = .ok (c, k)) (hc : c ≠ .badRequest) :
    c = .noRequest ∧ ∃ m url, nextRequest h = some (m, url) ∧ Started k m url := by
  obtain ⟨hbad, -⟩ | ⟨g, t, hg, hsg, ht, hparsed⟩ := readText_cases hs hr
  · exact absurd hbad hc
  cases hparsed with
  | requestLine _ hp =>
    obtain ⟨c', k', hk, hlen, -, hcore, hmatch⟩ := parseRequest_spec ht
    rw [hk] at hp
    cases hp
    have hmeth : g.startNext.mMethod = h.mMethod := (congrArg mMethod hsg.others :)
    rw [hmeth] at hmatch
    have hnext : nextRequest h = requestLine h.mMethod t := by
      have hcstr : cstr g.mReadBuffer h.mStartIdx = some t := ht
      simp only [nextRequest, hg, hcstr, Option.bind_some]
    cases hline : requestLine h.mMethod t with
    | none =>
      rw [hline] at hmatch
      exact absurd hmatch hc
    | some p =>
      obtain ⟨m, url⟩ := p
      rw [hline] at hmatch
      obtain ⟨hno, hm, hks, hu⟩ := hmatch
      obtain ⟨hck, -, hnul⟩ := hsg.ok rfl
      have hcur := hs.cursor
      have hend := length_le_of_cstr ht hnul (by omega)
      have hstart : k.mStartIdx = g.mCheckIdx := (congrArg mStartIdx hcore :)
      exact ⟨hno, m, url, hnext.trans hline, hs.readText hr, by rw [hks]; decide, hm,
        hu.mono (by omega), fun hcon => by cases hcon.symm.trans hks⟩
  | header hst' _ => cases hst.symm.trans hst'
  | content hst' _ => cases hst.symm.trans hst'

/-! ## One packet -/

theorem Started.enters (h₀ : Started h m url) (he : Enters env h g) : Started g m url := by
  obtain ⟨n, k, hk, hg⟩ := he
  induction n generalizing h with
  | zero =>
    cases hk
    exact h₀.readText hg (by decide)
  | succ n ih =>
    obtain ⟨f, hf, hk⟩ := Option.bind_eq_some_iff.mp hk
    obtain ⟨c, hbad, -, hr⟩ := nextCall_eq_some.mp hf
    exact ih (h₀.readText hr hbad) hk

theorem Enters.outer (hs : Sound h) (he : Enters env h g) : g.outer = h.outer := by
  obtain ⟨n, k, hk, hg⟩ := he
  induction n generalizing h with
  | zero =>
    cases hk
    exact (readText_outer env hs).of_ok hg
  | succ n ih =>
    obtain ⟨f, hf, hk⟩ := Option.bind_eq_some_iff.mp hk
    obtain ⟨c, -, -, hr⟩ := nextCall_eq_some.mp hf
    exact (ih (hs.readText hr) hk).trans ((readText_outer env hs).of_ok hr)

/-- **A packet that starts with a request line** hands the URL of that line to `do_request`. -/
theorem started_enters (hs : Sound h) (hst : h.mCheckState = .requestLine)
    (he : Enters env h g) : ∃ m url, nextRequest h = some (m, url) ∧ Started g m url := by
  obtain hg | ⟨k, hk, he⟩ := enters_iff.mp he
  · cases (started_readText hs hst hg (by decide)).1
  · obtain ⟨c, hbad, -, hr⟩ := nextCall_eq_some.mp hk
    obtain ⟨-, m, url, hnext, h₀⟩ := started_readText hs hst hr hbad
    exact ⟨m, url, hnext, h₀.enters he⟩

/-! ## A connection -/

/-- `m_filename` is as in `init` until a request line is accepted. -/
def Named (h : HttpServer) : Prop :=
  h.mCheckState = .requestLine → h.mFilename = .fill filenameLen 0

theorem readText_state (hs : Sound h) (hr : readText env h = .ok (c, k)) :
    (k.mCheckState = .requestLine → h.mCheckState = .requestLine) ∧
      (c = .getRequest → k.mCheckState ≠ .requestLine) := by
  obtain ⟨rfl, st, hsk⟩ | ⟨g, t, -, hsg, ht, hparsed⟩ := readText_cases hs hr
  · exact ⟨fun hk => hsk.checkState.symm.trans hk, fun hget => by cases hget⟩
  have hstate : g.startNext.mCheckState = h.mCheckState := hsg.checkState
  cases hparsed with
  | requestLine hst hp =>
    refine ⟨fun _ => hst, ?_⟩
    rintro rfl
    obtain ⟨c', k', hk, -, -, -, hmatch⟩ := parseRequest_spec ht
    rw [hk] at hp
    cases hp
    split at hmatch
    · cases hmatch
    · cases hmatch.1
  | header hst hp =>
    have hne : k.mCheckState ≠ .requestLine := by
      obtain ⟨-, -, rfl⟩ | ⟨-, rfl⟩ | ⟨-, hcut⟩ := parseHeader_of_ok (length_of_cstr ht).le hp
      · exact CheckState.noConfusion
      · rw [hstate, hst]
        decide
      · rw [hcut.checkState, hstate, hst]
        decide
    exact ⟨fun hk => absurd hk hne, fun _ => hne⟩
  | content hst hp =>
    have hne : k.mCheckState ≠ .requestLine := by
      obtain ⟨-, rfl⟩ | ⟨-, rfl⟩ := parseContent_of_ok hp
      · dsimp only
        rw [hstate, hst]
        decide
      · rw [hstate, hst]
        decide
    exact ⟨fun hk => absurd hk hne, fun _ => hne⟩

variable (env h) in
theorem doRequest_state : Post (doRequest env h) (fun _ => True) fun p =>
    p.2.mCheckState = h.mCheckState := by
  unfold doRequest
  split_ifs
  · exact rfl
  · refine ((deref_post h.mUrl).weaken fun _ _ => trivial).bind fun url _ => ?_
    cases h.fileName url with
    | error e => trivial
    | ok name =>
      simp only [bind, Except.bind]
      cases cstr name.cells 0 with
      | none => trivial
      | some path => exact (congrArg mCheckState (statFile_besideFile _ _ _) :)

theorem Named.readText (hs : Sound h) (hn : Named h)
    (hr : HttpServer.readText env h = .ok (c, k)) : Named k := fun hst =>
  have hname : k.mFilename = h.mFilename :=
    (congrArg mFilename ((readText_outer env hs).of_ok hr) :)
  hname.trans (hn ((readText_state hs hr).1 hst))

theorem processReadLoop_named (n : ℕ) : ∀ {h : HttpServer}, Sound h →
    Post (processReadLoop env n h) (fun _ => True) fun p => Named h → Named p.2 := by
  refine processReadLoop_rule (R := fun h p => Named h → Named p.2) (fun _ hn => hn)
    (fun hs hr hn => hn.readText hs hr) (fun {h k q} hs hr hq _ hst => ?_)
    (fun hs hr hq hn => hq (hn.readText hs hr)) n
  -- behind `do_request` there is no request line to read
  have hstate : q.2.mCheckState = k.mCheckState := (doRequest_state env k).of_ok hq
  exact absurd (hstate.symm.trans hst) ((readText_state hs hr).2 rfl)

variable (env) in
/-- **One request** keeps the invariant. -/
theorem business_named (pkgHeader : List UInt8) {body : List UInt8} (hs : Sound h) (hn : Named h)
    (hb : body.length < 2 ^ 16) :
    Post (business env h pkgHeader body) (fun _ => True) fun r => Named r.obj := by
  unfold business
  refine (processReadLoop_named _ (hs.receive hb)).bind fun p hp => ?_
  unfold reply
  refine ((processWrite_post p.1).weaken fun _ _ => trivial).bind fun g hg => ?_
  have hlen : Post g.writeLen (fun _ => True) fun _ => True := by
    unfold writeLen
    split_ifs <;> trivial
  refine hlen.bind fun len _ => ?_
  intro hst
  have hstate : g.mCheckState = p.2.mCheckState := (congrArg mCheckState hg.1 :)
  have hname : g.mFilename = p.2.mFilename := (congrArg mFilename hg.1 :)
  exact hname.trans (hp hn (hstate.symm.trans hst))

theorem process_named (rs : List Req) : ∀ {h : HttpServer}, Stage h → Named h →
    (∀ r ∈ rs, r.Valid) → Post (process h rs) (fun _ => True) Named := by
  induction rs with
  | nil => exact fun _ hn _ => hn
  | cons r rs ih =>
    intro h hs hn hv
    rw [List.forall_mem_cons] at hv
    have hstage : Post (business r.env h r.pkgHeader r.body) (fun _ => True) (Replies h) :=
      business_post hs hv.1
    have hnamed := business_named r.env r.pkgHeader hs.sound hn hv.1
    unfold process
    cases hr : business r.env h r.pkgHeader r.body with
    | error e => trivial
    | ok p => exact ih (hstage.of_ok hr).stage (hnamed.of_ok hr) hv.2

/-! ## The copies -/

/-- **The copies of `do_request` stay inside `m_filename`**, and leave the path of the file there as
a C string. For `OPTIONS` there are none. -/
def NameFits (g : HttpServer) : Prop := g.mMethod ≠ .options → ∃ url b, g.deref g.mUrl = .ok url ∧
  g.fileName url = .ok b ∧ cstr b.cells 0 = some (localFileAddr ++ url)

theorem nameFits_of_started (hs : Started g m url) (hf : g.mFilename = .fill filenameLen 0) :
    NameFits g ↔ UrlFits m url := by
  have hderef := hs.url.deref
  have hnul := zero_notMem_of_deref hderef
  rw [NameFits, hs.method, UrlFits]
  constructor
  · intro hfits
    by_contra hnot
    obtain ⟨hm, hlong⟩ := not_or.mp hnot
    obtain ⟨url', b, hurl, hb, hname⟩ := hfits hm
    cases hderef.symm.trans hurl
    obtain he | ⟨b', hb', hnone⟩ := fileName_of_long hf hnul (not_lt.mp hlong)
    · cases he.symm.trans hb
    · cases hb'.symm.trans hb
      cases hnone.symm.trans hname
  · intro hfits hm
    obtain ⟨b, hb, hname⟩ := fileName_of_fits hf hnul (hfits.resolve_left hm)
    exact ⟨url, b, hderef, hb, hname⟩

/-- One packet that starts with a request line, where `m_filename` is as in `init`. -/
theorem nameFits_of_enters (hs : Sound h) (hst : h.mCheckState = .requestLine)
    (hf : h.mFilename = .fill filenameLen 0) (he : Enters env h g) :
    NameFits g ↔ ∀ m url, nextRequest h = some (m, url) → UrlFits m url := by
  obtain ⟨m, url, hnext, hstarted⟩ := started_enters hs hst he
  have hname : g.mFilename = h.mFilename := (congrArg mFilename (he.outer hs) :)
  rw [nameFits_of_started hstarted (hname.trans hf), hnext]
  constructor
  · intro hfits m' url' heq
    cases heq
    exact hfits
  · exact fun hfits => hfits m url rfl

/-- **The file name of an accepted request** fits exactly if the path in its request line is shorter
than 190 bytes, or the request is for the options. -/
theorem nameFits_iff (u : Uninit) (rs : List Req) (hv : ∀ r ∈ rs, r.Valid)
    (hrun : process (new u) rs = .ok h) (hst : h.mCheckState = .requestLine) {body : List UInt8}
    (hb : body.length < 2 ^ 16) (he : Enters env (h.receive body) g) :
    NameFits g ↔ ∀ m url, nextRequest (h.receive body) = some (m, url) → UrlFits m url := by
  have hstage := ((process_post rs (stage_new u) hv).of_ok hrun).1
  have hnamed : Named h := (process_named rs (stage_new u) (fun _ => rfl) hv).of_ok hrun
  exact nameFits_of_enters (hstage.sound.receive hb) hst (hnamed hst) he

/-- A short path. -/
theorem nameFits_short : ∃ g,
    Enters .noFiles ((new .zero).receive (ascii "GET http://h/x HTTP/1.1\r\n\r\n")) g ∧
      g.mMethod = .get ∧ NameFits g := by
  have hroom : (ascii "GET http://h/x HTTP/1.1\r\n\r\n").length < 2 ^ 16 := by decide
  obtain ⟨g, hg⟩ := (enters_iff_reading .noFiles .zero hroom).mpr
    ⟨.get, ascii "/x", by decide +kernel⟩
  have hnext : nextRequest ((new .zero).receive (ascii "GET http://h/x HTTP/1.1\r\n\r\n")) =
      some (.get, ascii "/x") := by decide +kernel
  obtain ⟨m, url, hm, hs⟩ := started_enters ((stage_new .zero).sound.receive hroom) rfl hg
  refine ⟨g, hg, ?_, (nameFits_iff .zero [] (by simp) rfl rfl hroom hg).mpr ?_⟩
  · cases hnext.symm.trans hm
    exact hs.method
  · intro m url heq
    cases hnext.symm.trans heq
    exact Or.inr (by decide)

/-- A request for a path of a slash and 200 letters. -/
def longRequest : List UInt8 :=
  ascii "GET http://h/" ++ List.replicate 200 97 ++ ascii " HTTP/1.1\r\n\r\n"

theorem not_nameFits : longRequest.length ≤ 29000 - 8 ∧
    ∃ g, Enters .noFiles ((new .zero).receive longRequest) g ∧ ¬ NameFits g := by
  have hle : longRequest.length ≤ 29000 - 8 := by decide +kernel
  have hroom : longRequest.length < 2 ^ 16 := by omega
  obtain ⟨g, hg⟩ := (enters_iff_reading .noFiles .zero hroom).mpr
    ⟨.get, 47 :: List.replicate 200 97, by decide +kernel⟩
  have hnext : nextRequest ((new .zero).receive longRequest) =
      some (.get, 47 :: List.replicate 200 97) := by decide +kernel
  refine ⟨hle, g, hg, fun hfits => ?_⟩
  have hshort := (nameFits_of_enters ((stage_new .zero).sound.receive hroom) rfl rfl hg).mp
    hfits _ _ hnext
  exact absurd hshort (by decide +kernel)

end HttpServer

end ServerNginx
