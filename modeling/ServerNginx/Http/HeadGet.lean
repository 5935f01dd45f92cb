import ServerNginx.Http.Ranged
import ServerNginx.Http.Token

set_option autoImplicit false

/-!
# HEAD and GET

Two packets that differ in the method token alone. `HEAD_func` writes the same response for every
code `process_read` returns.

* `Asked.Whole`: the file a request names is sent whole;
* `reply_of_head`: the response to HEAD;
* **`agree_iff`**: GET and HEAD agree exactly where GET is answered with a whole file.
-/

namespace ServerNginx

open CString CNumber

variable {env : Env} {u u' : Uninit} {a b : Asked} {st : Stat} {path body : List UInt8}
  {code : HttpCode}

/-! ## Whole files -/

namespace Asked

/-- **The file `path`, with the status `st`, is sent whole**: it is a file others may read, it is
newer than `If-Modified-Since`, it can be mapped, and there is no range in it to send. -/
structure Whole (env : Env) (a : Asked) (path : List UInt8) (st : Stat) : Prop where
  stat : env.stat path = some st
  isFile : st.isDir = false
  readable : st.iroth = true
  newer : a.ifModifiedSince ≠ 0 → a.ifModifiedSince < st.stMtime
  opened : env.openOk path = true
  size : st.stSize ≠ 0
  mapped : (env.mmap path).isSome
  range : ¬ ((a.rangeStart ≠ 0 ∧ a.rangeEnd ≠ 0) ∧
    ¬ (a.rangeStart < 0 ∨ st.stSize < a.rangeEnd))

/-- What the response to such a request depends on. -/
def served (a : Asked) (st : Stat) : Asked :=
  { a with
    stat := st
    contentLength := int32 st.stSize
    callbacks :=
      if a.ifModifiedSince ≠ 0 then a.callbacks ++ [Callback.ifModifiedSince] else a.callbacks }

theorem file_whole (hw : a.Whole env path st) :
    a.file env path = (.fileRequest, a.served st) := by
  have hopen : ∀ fs : List Callback,
      ({ a with stat := st, callbacks := fs } : Asked).openFile env path =
        (.fileRequest, { a with
          stat := st
          callbacks := fs
          contentLength := int32 st.stSize }) := by
    intro fs
    rw [Asked.openFile, if_pos ⟨hw.opened, hw.size, hw.mapped⟩, Asked.mapped]
    exact if_neg hw.range
  rw [Asked.file, hw.stat]
  simp only [hw.isFile, hw.readable, Bool.false_eq_true, if_false, Bool.not_true]
  unfold served
  split_ifs with hmod hnew
  · exact hopen _
  · exact absurd (hw.newer hmod) hnew
  · exact hopen _

theorem openFile_eq (hf : a.openFile env path = (.fileRequest, b)) :
    (env.openOk path = true ∧ a.stat.stSize ≠ 0 ∧ (env.mmap path).isSome) ∧
      ¬ ((a.rangeStart ≠ 0 ∧ a.rangeEnd ≠ 0) ∧ a.RangeFits) ∧
      b = { a with contentLength := int32 a.stat.stSize } := by
  unfold Asked.openFile Asked.mapped at hf
  split_ifs at hf with hmap hrange
  · cases hf
  · cases hf
    exact ⟨hmap, hrange, rfl⟩
  · cases hf

theorem whole_of_file (hf : a.file env path = (.fileRequest, b)) :
    ∃ st, a.Whole env path st ∧ b = a.served st := by
  unfold Asked.file at hf
  cases hstat : env.stat path with
  | none =>
    rw [hstat] at hf
    cases hf
  | some st =>
    rw [hstat] at hf
    dsimp only at hf
    refine ⟨st, ?_⟩
    split_ifs at hf with hdir hoth hmod hnew
    · cases hf
    · cases hf
    · obtain ⟨⟨hopen, hsize, hmap⟩, hrange, rfl⟩ := openFile_eq hf
      refine ⟨⟨hstat, by simpa using hdir, by simpa using hoth, fun _ => hnew, hopen, hsize, hmap,
        hrange⟩, ?_⟩
      rw [served, if_pos hmod]
    · cases hf
    · obtain ⟨⟨hopen, hsize, hmap⟩, hrange, rfl⟩ := openFile_eq hf
      refine ⟨⟨hstat, by simpa using hdir, by simpa using hoth, fun h => absurd h hmod, hopen,
        hsize, hmap, hrange⟩, ?_⟩
      rw [served, if_neg hmod]

theorem Whole.congr (hw : a.Whole env path st) (h : a.fromHeaders = b.fromHeaders) :
    b.Whole env path st := by
  have hmod : b.ifModifiedSince = a.ifModifiedSince := (congrArg Asked.ifModifiedSince h :).symm
  have hstart : b.rangeStart = a.rangeStart := (congrArg Asked.rangeStart h :).symm
  have hend : b.rangeEnd = a.rangeEnd := (congrArg Asked.rangeEnd h :).symm
  exact ⟨hw.stat, hw.isFile, hw.readable, by rw [hmod]; exact hw.newer, hw.opened, hw.size,
    hw.mapped, by rw [hstart, hend]; exact hw.range⟩

theorem file_method : (a.file env path).2.method = a.method := by
  have hopen : ∀ a : Asked, (a.openFile env path).2.method = a.method := by
    intro a
    unfold Asked.openFile Asked.mapped
    split_ifs <;> rfl
  unfold Asked.file
  split
  · rfl
  · dsimp only
    split_ifs
    · rfl
    · rfl
    · exact hopen _
    · rfl
    · exact hopen _

end Asked

theorem outcome_method (ho : outcome env u body = some (code, a)) :
    a.method = ((HttpServer.new u).asked.body env body).method := by
  rcases outcome_cases ho with ⟨-, rfl⟩ | ⟨m, url, -, ⟨-, rfl, -⟩ | hfile⟩
  · rfl
  · rfl
  · have hmethod := @Asked.file_method env ((HttpServer.new u).asked.body env body)
      (localFileAddr ++ url)
    rw [hfile] at hmethod
    exact hmethod

/-- **The body asks for a whole file**, and the head of the response leaves room for a NUL. -/
def WholeFile (env : Env) (u : Uninit) (body : List UInt8) : Prop :=
  let a := (HttpServer.new u).asked.body env body
  ∃ url st, reading body = .request .get url ∧ url.length < 190 ∧
    a.Whole env (localFileAddr ++ url) st ∧ (a.served st).okBytes env ≤ 4095

namespace HttpServer

variable {h g : HttpServer} {hdr hdr' : List UInt8} {r : Reply}

theorem whole_of_outcome (ho : outcome env u body = some (.fileRequest, a))
    (hm : a.method = .get) : ∃ url st, reading body = .request .get url ∧ url.length < 190 ∧
      ((new u).asked.body env body).Whole env (localFileAddr ++ url) st ∧
        a = ((new u).asked.body env body).served st := by
  have hmethod := (outcome_method ho).symm.trans hm
  unfold outcome at ho
  dsimp only at ho
  split at ho
  · cases ho
  · cases ho
  · rename_i m url hr
    obtain rfl : m = .get := (Asked.body_method rfl hr).symm.trans hmethod
    rw [if_neg (by decide)] at ho
    split_ifs at ho with hfit
    obtain ⟨st, hwhole, hserved⟩ := Asked.whole_of_file (Option.some.inj ho)
    exact ⟨url, st, hr, hfit, hwhole, hserved⟩

theorem outcome_whole {m : Method} {url : List UInt8} (hr : reading body = .request m url)
    (hm : m ≠ .options) (hfit : url.length < 190)
    (hw : ((new u).asked.body env body).Whole env (localFileAddr ++ url) st) :
    outcome env u body = some (.fileRequest, ((new u).asked.body env body).served st) := by
  unfold outcome
  rw [hr]
  dsimp only
  rw [if_neg hm, if_pos hfit, Asked.file_whole hw]

theorem exists_reply (hdr : List UInt8) (hroom : body.length < 2 ^ 16)
    (ho : outcome env u body = some (code, a)) (hs : a.HeadShort env code) :
    ∃ r, (new u).business env hdr body = .ok r := by
  have hout := processRead_outcome env u hroom
  rw [ho] at hout
  obtain ⟨h, hread, -, -⟩ := hout
  obtain ⟨g, hg, -, hlen⟩ := (headFits_iff_of_outcome hroom ho).mpr hs code h hread
  exact ⟨_, by simp only [business, hread, reply, hg, hlen, bind, Except.bind]; rfl⟩

theorem Writes.le_of_ok {w : Except Fault HttpServer} {P : HttpServer → Prop} {n len : ℕ}
    (hw : Writes h w n P) (hb : h.mWriteBuffer = []) (hg : w = .ok g)
    (hlen : g.writeLen = .ok len) : n ≤ 4095 := by
  obtain ⟨-, hbuf, rfl⟩ := hw.of_ok hb hg hlen
  have hsize : writeBufferSize = 4096 := rfl
  unfold writeLen at hlen
  split_ifs at hlen with hfull
  rcases hfull with h0 | hlt
  · have hall : g.mWriteBuffer.takeWhile (· ≠ 0) = g.mWriteBuffer :=
      (List.takeWhile_prefix _).eq_of_length ((Except.ok.inj hlen).trans hbuf.symm)
    have hne := List.takeWhile_eq_self_iff.mp hall 0 h0
    simp at hne
  · omega

/-! ## The two responses -/

/-- The values of the length headers of a response. -/
def Reply.lengths (r : Reply) : Option (List (List UInt8)) :=
  (headOf r.obj.mWriteBuffer).map fun p => p.1.tail.filterMap lengthField

/-- **The response to HEAD agrees with that to GET**: the same status, the same length, no body. -/
structure Agree (get head : Reply) : Prop where
  status : get.status = head.status
  lengths : get.lengths = head.lengths
  noBody : ∃ bytes, head.obj.sent = some bytes ∧ HeadOnly bytes

theorem sent_set (g : HttpServer) (v : Iovec) :
    ({ g with mIov := g.mIov.set 0 v } : HttpServer).sent = g.sent := by
  unfold sent
  have hdrop : ((g.mIov.set 0 v).take g.mIovCount).drop 1 = (g.mIov.take g.mIovCount).drop 1 := by
    cases g.mIov with
    | nil => rfl
    | cons w ws => cases g.mIovCount <;> rfl
  have hseg : ({ g with mIov := g.mIov.set 0 v } : HttpServer).segment = g.segment := rfl
  simp only [hdrop, hseg]

theorem lengths_headText {status : ℤ} {title text : List UInt8} (name : List UInt8)
    (pre : List (List UInt8)) {post : List (List UInt8)}
    (hst : IsStatusLine (statusLine status title)) (hplain : Plain title)
    (htext : text = name ++ [58, 32]) (hname : (58 : UInt8) ∉ name) (hmem : name ∈ lengthNames)
    (hpt : Plain text) (hpre : ∀ l ∈ pre, OtherHeader l)
    (hpost : ∀ l ∈ post, OtherHeader l) (n : ℤ) :
    (headOf (headText status title (pre ++ numberLine text n :: post))).map
      (fun p => p.1.tail.filterMap lengthField) = some [stdToString n] := by
  have hne : name ≠ [] := by
    rintro rfl
    exact absurd hmem (by decide)
  have field : ∀ {l : List UInt8}, OtherHeader l → ∃ name, name ≠ [] ∧ Header name l :=
    fun ⟨name, hne, _, hh⟩ => ⟨name, hne, hh⟩
  have hheaders : ∀ l ∈ pre ++ numberLine text n :: post, ∃ name, name ≠ [] ∧ Header name l := by
    intro l hl
    rcases List.mem_append.mp hl with hl | hl
    · exact field (hpre l hl)
    · rcases List.mem_cons.mp hl with rfl | hl
      · exact ⟨name, hne, header_numberLine htext hname hpt n⟩
      · exact field (hpost l hl)
  have hmsg := message_headText hst hplain hheaders []
  rw [List.append_nil] at hmsg
  have hnone : ∀ {ls : List (List UInt8)}, (∀ l ∈ ls, OtherHeader l) →
      ls.filterMap lengthField = [] := fun hls =>
    List.filterMap_eq_nil_iff.mpr fun l hl => (hls l hl).lengthField_eq_none
  rw [hmsg.head, Option.map_some, List.tail_cons, List.filterMap_append, hnone hpre,
    List.filterMap_cons, lengthField_numberLine htext hname hmem, hnone hpost]
  rfl

/-- **The status of GET** is 200 for a whole file only. -/
theorem status_getFunc (hh : Handed env u body code h) (hg : h.getFunc env code = .ok g)
    (hst : (g.mWriteBuffer.drop 9).take 3 = stdToString 200) : code = .fileRequest := by
  have hbuf : ∀ t, (h.put t).mWriteBuffer = t := fun t => by simp [put, hh.buffer]
  have error : ∀ {page : ErrorPage}, digits page.status = 3 →
      stdToString page.status ≠ stdToString 200 → h.errorResponse page = .ok g → False := by
    intro page hdigits hne he
    rw [(errorResponse_puts h page).of_ok he] at hst
    exact hne ((status_append hdigits).symm.trans ((congrArg (fun t : List UInt8 =>
      (t.drop 9).take 3) (hbuf _)).symm.trans hst))
  cases code with
  | fileRequest => rfl
  | partialContent =>
    rw [(getFunc_part env (hh.consistent.2.1 rfl).1).of_ok hg] at hst
    have h206 := (congrArg (fun t : List UInt8 => (t.drop 9).take 3) (hbuf _)).symm.trans hst
    rw [status_headText (by decide)] at h206
    exact absurd h206 (by decide)
  | badRequest => exact (error (by decide) (by decide) hg).elim
  | internalError => exact (error (by decide) (by decide) hg).elim
  | noResource => exact (error (by decide) (by decide) hg).elim
  | forbiddenRequest => exact (error (by decide) (by decide) hg).elim
  | notModified =>
    rw [(getFunc_notModified env h).of_ok hg] at hst
    have h304 := (congrArg (fun t : List UInt8 => (t.drop 9).take 3) (hbuf _)).symm.trans hst
    exact absurd h304 (by decide)
  | preconditionFailed => exact hh.final.elim
  | noRequest => exact hh.final.elim
  | getRequest => exact hh.final.elim
  | closedConnection => exact hh.final.elim
  | responseSuccessful => exact hh.final.elim

/-- **A GET answered with 200** is for a whole file. -/
theorem wholeFile_of_status (hroom : body.length < 2 ^ 16)
    (hm : ((new u).asked.body env body).method = .get)
    (hr : (new u).business env hdr body = .ok r) (hst : r.status = stdToString 200) :
    WholeFile env u body := by
  obtain ⟨code, h, g, len, bytes, hh, hg, hlen, hobj⟩ := business_handed hroom hr
  have hget : h.asked.method = .get := (outcome_method hh.outcome).trans hm
  rw [processWrite, show h.mMethod = .get from hget] at hg
  rw [Reply.status, hobj] at hst
  obtain rfl := status_getFunc hh hg hst
  obtain ⟨url, st, hread, hfit, hwhole, hserved⟩ := whole_of_outcome hh.outcome hget
  refine ⟨url, st, hread, hfit, hwhole, ?_⟩
  rw [← hserved]
  exact (getFunc_fileRequest env (a := h.asked) ⟨rfl, rfl⟩ hh.iov).le_of_ok hh.buffer hg hlen

/-- **A whole file** is answered with 200 and its length. -/
theorem reply_of_whole (ht : env.PlainTimes) (hroom : body.length < 2 ^ 16) (hm : a.method = .get)
    (ho : outcome env u body = some (.fileRequest, a))
    (hr : (new u).business env hdr body = .ok r) :
    r.status = stdToString 200 ∧ r.lengths = some [stdToString a.contentLength] := by
  obtain ⟨code, h, g, len, bytes, hh, hg, -, hobj⟩ := business_handed hroom hr
  have heq := ho.symm.trans hh.outcome
  cases heq
  rw [processWrite, show h.mMethod = .get from hm] at hg
  rw [(getFunc_whole env h).of_ok hg] at hobj
  have hbuf : r.obj.mWriteBuffer =
      headText 200 (ascii "OK") (h.asked.wholeLines env) := by
    rw [hobj]
    simp [iovHead, iovBody, withRange, put, hh.buffer]
  refine ⟨?_, ?_⟩
  · rw [Reply.status, hbuf]
    exact status_headText (by decide)
  · rw [Reply.lengths, hbuf]
    refine lengths_headText (ascii "Connect-Length") [dateLine env] (by decide) (by decide)
      (by decide) (by decide) (by decide) (by decide) ?_ ?_ _
    · simpa using Asked.otherHeader_dateLine ht
    · exact List.forall_mem_append.mpr ⟨Asked.otherHeader_cookieLines ht,
        Asked.otherHeader_callbackLines ht _ _⟩

/-- **The response to HEAD**, whatever code there is. -/
theorem reply_of_head (ht : env.PlainTimes) (hroom : body.length < 2 ^ 16) (hm : a.method = .head)
    (ho : outcome env u body = some (code, a)) (hr : (new u).business env hdr body = .ok r) :
    r.status = stdToString 200 ∧ r.lengths = some [stdToString a.contentLength] ∧
      ∃ bytes, r.obj.sent = some bytes ∧ HeadOnly bytes := by
  obtain ⟨code', h, g, len, bytes, hh, hg, -, hobj⟩ := business_handed hroom hr
  have heq := ho.symm.trans hh.outcome
  cases heq
  rw [processWrite, show h.mMethod = .head from hm] at hg
  obtain rfl := (headFunc_puts env h).of_ok hg
  have hbuf : r.obj.mWriteBuffer = headText 200 (ascii "OK") (h.asked.headLines env) := by
    rw [hobj]
    simp [iovHead, put, hh.buffer]
  refine ⟨?_, ?_, ?_⟩
  · rw [Reply.status, hbuf]
    exact status_headText (by decide)
  · rw [Reply.lengths, hbuf]
    refine lengths_headText (ascii "Content-Length") [dateLine env, allowLine] (by decide)
      (by decide) (by decide) (by decide) (by decide) (by decide) ?_ ?_ _
    · simp only [List.forall_mem_cons]
      exact ⟨Asked.otherHeader_dateLine ht, otherHeader_allowLine, by simp⟩
    · simp only [List.forall_mem_cons]
      exact ⟨Asked.otherHeader_modifiedLine ht _, otherHeader_serverLine,
        otherHeader_acceptLine, by simp⟩
  · rw [hobj]
    exact ⟨_, (sent_set _ _).trans (sent_iovHead hh.buffer hh.iov), Asked.headOnly_head ht⟩

theorem not_headOnly_error400 : ¬ HeadOnly
    (headText error400.status error400.title error400.headers ++ error400.form) := by
  rintro ⟨status, headers, hmsg⟩
  have herror : Message (headText error400.status error400.title error400.headers ++ error400.form)
      (statusLine error400.status error400.title) error400.headers error400.form := by
    refine message_headText (by decide) (by decide) (fun l hl => ?_) _
    rw [ErrorPage.headers, List.mem_singleton] at hl
    subst hl
    exact ⟨ascii "Connect-Length", by decide,
      header_numberLine (by decide) (by decide) (by decide) _⟩
  have hbody := hmsg.head.symm.trans herror.head
  simp only [Option.some.injEq, Prod.mk.injEq] at hbody
  exact absurd hbody.2 (by decide)

theorem not_headOnly_of_bad (hroom : body.length < 2 ^ 16)
    (hm : ((new u).asked.body env body).method = .get) (hbad : reading body = .bad)
    (hr : (new u).business env hdr body = .ok r) :
    ¬ ∃ bytes, r.obj.sent = some bytes ∧ HeadOnly bytes := by
  obtain ⟨code, h, g, len, bytes, hh, hg, -, hobj⟩ := business_handed hroom hr
  have hget : h.asked.method = .get := (outcome_method hh.outcome).trans hm
  obtain rfl : code = .badRequest := by
    have ho := hh.outcome
    unfold outcome at ho
    rw [hbad] at ho
    exact (congrArg Prod.fst (Option.some.inj ho)).symm
  rw [processWrite, show h.mMethod = .get from hget] at hg
  rw [(errorResponse_puts h error400).of_ok hg] at hobj
  rintro ⟨bytes', hsent, honly⟩
  rw [hobj, sent_set, sent_iovHead hh.buffer hh.iov] at hsent
  cases hsent
  exact not_headOnly_error400 honly

/-! ## Two packets -/

/-- **Both packets are answered**, and the answers agree. -/
def AnswersAgree (env : Env) (u u' : Uninit) (hdr hdr' get head : List UInt8) : Prop :=
  ∃ r r', (new u).business env hdr get = .ok r ∧ (new u').business env hdr' head = .ok r' ∧
    Agree r r'

section tokens

variable {get head rest : List UInt8} (hget : Spells (ascii "GET") get)
  (hhead : Spells (ascii "HEAD") head) (hrest : Ends rest)
  (hroom : (head ++ rest).length < 2 ^ 16)
include hget hhead hroom

theorem room_of_head : (get ++ rest).length < 2 ^ 16 := by
  have hlen : get.length = 3 := hget.length
  have hlen' : head.length = 4 := hhead.length
  rw [List.length_append] at hroom ⊢
  omega

include hrest

theorem wholeFile_of_agree (ht : env.PlainTimes)
    (h : AnswersAgree env u u' hdr hdr' (get ++ rest) (head ++ rest)) :
    WholeFile env u (get ++ rest) := by
  obtain ⟨r, r', hr, hr', hagree⟩ := h
  have hmethod : ((new u).asked.body env (get ++ rest)).method = .get := by
    rcases Asked.body_method_token env (a := (new u).asked) (hget.token (by decide)) hrest
      rfl with hm | ⟨hm, -⟩
    · rw [hm, hget.methodOf]
      rfl
    · exact hm
  refine wholeFile_of_status (room_of_head hget hhead hroom) hmethod hr ?_
  rw [hagree.status]
  rcases Asked.body_method_token env (a := (new u').asked) (hhead.token (by decide)) hrest
    rfl with hm | ⟨hm, hbad⟩
  · obtain ⟨code, k, -, -, -, hh, -⟩ := business_handed hroom hr'
    refine (reply_of_head ht hroom ?_ hh.outcome hr').1
    rw [outcome_method hh.outcome, hm, hhead.methodOf]
    rfl
  · exact absurd hagree.noBody (not_headOnly_of_bad hroom hm hbad hr')

theorem agree_of_wholeFile (ht : env.PlainTimes) (hdr hdr' : List UInt8)
    (h : WholeFile env u (get ++ rest)) :
    AnswersAgree env u u' hdr hdr' (get ++ rest) (head ++ rest) := by
  have htoken := hget.token (by decide)
  have htoken' := hhead.token (by decide)
  have hroom' := room_of_head hget hhead hroom
  obtain ⟨url, st, hread, hfit, hwhole, hshort⟩ := h
  have hread' : reading (head ++ rest) = .request .head url := by
    rw [reading_append (d := 1) htoken htoken' hrest (hhead.length.trans
      (congrArg (· + 1) hget.length).symm) (by omega) hread, hhead.methodOf]
    rfl
  have hwhole' : ((new u').asked.body env (head ++ rest)).Whole env (localFileAddr ++ url) st :=
    hwhole.congr (Asked.body_append htoken htoken' hrest rfl)
  have ho := outcome_whole hread (by decide) hfit hwhole
  have ho' := outcome_whole hread' (by decide) hfit hwhole'
  have hm : (((new u).asked.body env (get ++ rest)).served st).method = .get :=
    Asked.body_method rfl hread
  have hm' : (((new u').asked.body env (head ++ rest)).served st).method = .head :=
    Asked.body_method rfl hread'
  obtain ⟨r, hr⟩ := exists_reply hdr hroom' ho fun _ => ⟨fun _ => hshort, nofun⟩
  obtain ⟨r', hr'⟩ := exists_reply hdr' hroom ho' fun hg => by cases hg.symm.trans hm'
  obtain ⟨hstatus, hlengths⟩ := reply_of_whole ht hroom' hm ho hr
  obtain ⟨hstatus', hlengths', hbody⟩ := reply_of_head ht hroom hm' ho' hr'
  exact ⟨r, r', hr, hr', hstatus.trans hstatus'.symm, hlengths.trans hlengths'.symm, hbody⟩

end tokens

/-- **HEAD agrees with GET** exactly where GET is answered with a whole file. -/
theorem agree_iff (env : Env) (ht : env.PlainTimes) (u u' : Uninit)
    (hdr hdr' get head rest : List UInt8) (hget : Spells (ascii "GET") get)
    (hhead : Spells (ascii "HEAD") head) (hrest : Ends rest)
    (hroom : (head ++ rest).length < 2 ^ 16) :
    AnswersAgree env u u' hdr hdr' (get ++ rest) (head ++ rest) ↔ WholeFile env u (get ++ rest) :=
  ⟨wholeFile_of_agree hget hhead hrest hroom ht,
    agree_of_wholeFile hget hhead hrest hroom ht hdr hdr'⟩

/-- A file of ten bytes. -/
theorem agree_tenBytes : AnswersAgree .tenBytes .zero .zero
    (List.replicate 8 0) (List.replicate 8 0)
    (ascii "GET" ++ ascii " http://h/x HTTP/1.1\r\n\r\n")
    (ascii "HEAD" ++ ascii " http://h/x HTTP/1.1\r\n\r\n") :=
  (agree_iff .tenBytes plainTimes_tenBytes .zero .zero _ _ _ _ _ (by decide) (by decide)
    (by decide) (by decide)).mpr
      ⟨ascii "/x", ⟨10, 0, false, true⟩, by decide +kernel, by decide,
        ⟨rfl, rfl, rfl, by decide +kernel, rfl, by decide, rfl, by decide +kernel⟩,
        by decide +kernel⟩

/-- A file that does not exist. -/
theorem not_agree : ¬ AnswersAgree .noFiles .zero .zero (List.replicate 8 0) (List.replicate 8 0)
    (ascii "GET" ++ ascii " http://h/x HTTP/1.1\r\n\r\n")
    (ascii "HEAD" ++ ascii " http://h/x HTTP/1.1\r\n\r\n") := by
  intro h
  obtain ⟨url, st, -, -, hwhole, -⟩ := wholeFile_of_agree (by decide) (by decide) (by decide)
    (by decide) (fun _ => plain_nil) h
  cases hwhole.stat

end HttpServer

end ServerNginx
