import ServerNginx.Http.Length

set_option autoImplicit false

/-!
# Objects that answer alike

`Alike a a' h h'`: two objects that have written the same and show the same file, where `a` and `a'`
are the members their responses depend on. They may differ in all the others.

* `Twins`: the same where `a` is `a'`;
* **`processWrite_alike`**: `process_write` shows the same for both, where `a` and `a'` differ in a
  status it does not look at;
* **`doRequest_found`**: what `do_request` makes of two objects that ask for the same URL.
-/

namespace ServerNginx

open CString CNumber

namespace HttpServer

variable {env : Env} {h h' g g' : HttpServer} {a a' : Asked} {code : HttpCode}

/-- The same text and the same file, in front of the answer. -/
structure Alike (a a' : Asked) (h h' : HttpServer) : Prop where
  asked : h.asked = a
  asked' : h'.asked = a'
  text : h'.mWriteBuffer = h.mWriteBuffer
  file : h'.mFilePtr = h.mFilePtr
  iov : h.mIov.length = 3
  iov' : h'.mIov.length = 3
  count : h'.mIovCount = 0 ∧ h.mIovCount = 0

/-- The same answer: `m_iov` shows the same behind a packet header. -/
structure Shown (h h' : HttpServer) : Prop where
  text : h'.mWriteBuffer = h.mWriteBuffer
  length : h'.mContentLength = h.mContentLength
  count : h'.mIovCount = h.mIovCount
  iov : ∀ v, (h'.mIov.set 0 v).take h'.mIovCount = (h.mIov.set 0 v).take h.mIovCount

/-! ## Writing -/

theorem writeSenddata_alike (hk : Alike a a' h h') (d : List UInt8) :
    Both (Alike a a') (h.writeSenddata d) (h'.writeSenddata d) := by
  unfold writeSenddata
  rw [hk.text]
  split_ifs
  · exact ⟨hk.asked, hk.asked', rfl, hk.file, hk.iov, hk.iov', hk.count⟩
  · rfl

/-- **`add_senddata`** writes the same. -/
theorem addSenddata_alike (ds : List (List UInt8)) : ∀ {h h' : HttpServer}, Alike a a' h h' →
    Both (Alike a a') (h.addSenddata ds) (h'.addSenddata ds) := by
  induction ds with
  | nil => exact fun hk => hk
  | cons d ds ih => exact fun hk => (writeSenddata_alike hk d).bind fun _ _ hk => ih hk

theorem iovHead_alike (hk : Alike a a' h h') (hl : a'.contentLength = a.contentLength) :
    Shown (h.iovHead 2) (h'.iovHead 2) := by
  obtain ⟨v₀, v₁, v₂, hiov⟩ := List.length_eq_three.mp hk.iov
  obtain ⟨v₀', v₁', v₂', hiov'⟩ := List.length_eq_three.mp hk.iov'
  refine ⟨hk.text, ?_, rfl, fun v => ?_⟩
  · show h'.asked.contentLength = h.asked.contentLength
    rw [hk.asked, hk.asked', hl]
  · simp [iovHead, hiov, hiov', hk.text]

/-! ## The cookie and the callbacks -/

/-- The same text and the same file, and the same members to answer from. -/
def Twins (h h' : HttpServer) : Prop := ∃ a, Alike a a h h'

theorem Twins.asked (ht : Twins h h') : h'.asked = h.asked := by
  obtain ⟨a, hk⟩ := ht
  exact hk.asked'.trans hk.asked.symm

theorem addSenddata_twins (ht : Twins h h') (ds : List (List UInt8)) :
    Both Twins (h.addSenddata ds) (h'.addSenddata ds) := by
  obtain ⟨a, hk⟩ := ht
  exact (addSenddata_alike ds hk).mono fun _ _ hg => ⟨a, hg⟩

theorem addSid_twins (ht : Twins h h') : Both Twins (h.addSid env) (h'.addSid env) := by
  have hcookie : h'.mCookieValue.isSome = h.mCookieValue.isSome := congrArg Asked.cookie ht.asked
  have hnone : h'.mCookieValue = none ↔ h.mCookieValue = none := by
    rw [← Option.not_isSome_iff_eq_none, ← Option.not_isSome_iff_eq_none, hcookie]
  unfold addSid
  simp only [hnone]
  split_ifs
  · unfold addCookie
    refine (addSenddata_twins ht _).bind fun _ _ ht => ?_
    refine (addSenddata_twins ht _).bind fun _ _ ht => ?_
    refine (addSenddata_twins ht _).bind fun _ _ ht => ?_
    refine (addSenddata_twins ht _).bind fun _ _ ht => ?_
    exact addSenddata_twins ht _
  · exact ht

theorem range_twins (ht : Twins h h') : Both Twins h.range h'.range := by
  have hstart : h'.mRangeStart = h.mRangeStart := congrArg Asked.rangeStart ht.asked
  have hend : h'.mRangeEnd = h.mRangeEnd := congrArg Asked.rangeEnd ht.asked
  have hstat : h'.mStat = h.mStat := congrArg Asked.stat ht.asked
  unfold range
  rw [hstart, hend, hstat]
  split_ifs
  · obtain ⟨a, hk⟩ := ht
    refine addSenddata_twins ?_ _
    refine ⟨a.reset, ?_, ?_, hk.text, hk.file, hk.iov, hk.iov', hk.count⟩
    · rw [← hk.asked]
      rfl
    · rw [← hk.asked', ← hstat]
      rfl
  · exact addSenddata_twins ht _

theorem callback_twins (f : Callback) (ht : Twins h h') :
    Both Twins (callback env h f) (callback env h' f) := by
  cases f with
  | ifModifiedSince =>
    have hstat : h'.mStat = h.mStat := congrArg Asked.stat ht.asked
    show Both Twins (h.ifModifiedSince env) (h'.ifModifiedSince env)
    unfold ifModifiedSince
    rw [hstat]
    exact addSenddata_twins ht _
  | range => exact range_twins ht

/-- **The callbacks** write the same. -/
theorem callbacks_twins (fs : List Callback) : ∀ {h h' : HttpServer}, Twins h h' →
    Both Twins (callbacks env h fs) (callbacks env h' fs) := by
  induction fs with
  | nil => exact fun ht => ht
  | cons f fs ih => exact fun ht => (callback_twins f ht).bind fun _ _ ht => ih ht

/-! ## The method functions -/

theorem iovBody_twins (ht : Twins h h') (off len : ℤ) :
    Shown ((h.iovBody off len).iovHead 3) ((h'.iovBody off len).iovHead 3) := by
  obtain ⟨a, hk⟩ := ht
  obtain ⟨v₀, v₁, v₂, hiov⟩ := List.length_eq_three.mp hk.iov
  obtain ⟨v₀', v₁', v₂', hiov'⟩ := List.length_eq_three.mp hk.iov'
  refine ⟨hk.text, ?_, rfl, fun v => ?_⟩
  · exact congrArg Asked.contentLength (hk.asked'.trans hk.asked.symm)
  · simp [iovHead, iovBody, hiov, hiov', hk.text, hk.file]

theorem errorResponse_alike (page : ErrorPage) (hk : Alike a a' h h')
    (hl : a'.contentLength = a.contentLength) :
    Both Shown (h.errorResponse page) (h'.errorResponse page) := by
  have hheaders : ∀ {g g' : HttpServer}, Alike a a' g g' →
      Both (Alike a a') (g.addHeaders page.form) (g'.addHeaders page.form) := fun hk =>
    (addSenddata_alike _ hk).bind fun _ _ hk => addSenddata_alike _ hk
  unfold errorResponse
  refine (addSenddata_alike _ hk).bind fun _ _ hk => ?_
  refine (hheaders hk).bind fun _ _ hk => ?_
  refine (addSenddata_alike _ hk).bind fun _ _ hk => ?_
  exact iovHead_alike hk hl

theorem getFunc_twins (ht : Twins h h') (hcode : code = .fileRequest ∨ code = .partialContent) :
    Both Shown (h.getFunc env code) (h'.getFunc env code) := by
  have twin : ∀ {g g' : HttpServer}, Twins g g' → g'.mContentLength = g.mContentLength ∧
      g'.mRangeStart = g.mRangeStart ∧ g'.mRangeEnd = g.mRangeEnd ∧
        g'.mHeaderFuncVec = g.mHeaderFuncVec := fun ht =>
    ⟨congrArg Asked.contentLength ht.asked, congrArg Asked.rangeStart ht.asked,
      congrArg Asked.rangeEnd ht.asked, congrArg Asked.callbacks ht.asked⟩
  rcases hcode with rfl | rfl
  · unfold getFunc
    refine (addSenddata_twins ht _).bind fun _ _ ht => ?_
    refine (addSenddata_twins ht _).bind fun _ _ ht => ?_
    rw [(twin ht).1]
    refine (addSenddata_twins ht _).bind fun _ _ ht => ?_
    refine (addSid_twins ht).bind fun _ _ ht => ?_
    rw [(twin ht).2.2.2]
    refine (callbacks_twins _ ht).bind fun _ _ ht => ?_
    refine (addSenddata_twins ht _).bind fun _ _ ht => ?_
    rw [(twin ht).1]
    exact iovBody_twins ht _ _
  · unfold getFunc
    refine (addSenddata_twins ht _).bind fun _ _ ht => ?_
    refine (addSenddata_twins ht _).bind fun _ _ ht => ?_
    rw [(twin ht).2.1, (twin ht).2.2.1]
    refine (addSenddata_twins ht _).bind fun _ _ ht => ?_
    rw [(twin ht).2.2.2]
    refine (callbacks_twins _ ht).bind fun _ _ ht => ?_
    refine (addSenddata_twins ht _).bind fun _ _ ht => ?_
    rw [(twin ht).2.1, (twin ht).2.2.1]
    exact iovBody_twins ht _ _

theorem getFunc_alike (hk : Alike a a' h h') (hl : a'.contentLength = a.contentLength)
    (hfile : code ≠ .fileRequest) (hpart : code ≠ .partialContent) :
    Both Shown (h.getFunc env code) (h'.getFunc env code) := by
  cases code with
  | fileRequest => exact absurd rfl hfile
  | partialContent => exact absurd rfl hpart
  | badRequest => exact errorResponse_alike _ hk hl
  | internalError => exact errorResponse_alike _ hk hl
  | noResource => exact errorResponse_alike _ hk hl
  | forbiddenRequest => exact errorResponse_alike _ hk hl
  | notModified => exact (addSenddata_alike _ hk).bind fun _ _ hk => iovHead_alike hk hl
  | preconditionFailed =>
    refine (addSenddata_alike _ hk).bind fun _ _ hk => ?_
    exact (addSenddata_alike _ hk).bind fun _ _ hk => iovHead_alike hk hl
  | noRequest => exact iovHead_alike hk hl
  | getRequest => exact iovHead_alike hk hl
  | closedConnection => exact iovHead_alike hk hl
  | responseSuccessful => exact iovHead_alike hk hl

/-- **The response to HEAD** shows the time of the status, whatever `do_request` has found. -/
theorem headFunc_alike (hk : Alike a a' h h') (hl : a'.contentLength = a.contentLength)
    (htime : env.strtime a'.stat.stMtime = env.strtime a.stat.stMtime) :
    Both Shown (h.headFunc env) (h'.headFunc env) := by
  have hlength : ∀ {g g' : HttpServer}, Alike a a' g g' → g'.mContentLength = g.mContentLength := by
    intro g g' hk
    show g'.asked.contentLength = g.asked.contentLength
    rw [hk.asked, hk.asked', hl]
  have htime : env.strtime h'.mStat.stMtime = env.strtime h.mStat.stMtime := by
    show env.strtime h'.asked.stat.stMtime = env.strtime h.asked.stat.stMtime
    rw [hk.asked, hk.asked', htime]
  unfold headFunc
  rw [htime]
  refine (addSenddata_alike _ hk).bind fun _ _ hk => ?_
  refine (addSenddata_alike _ hk).bind fun _ _ hk => ?_
  refine (addSenddata_alike _ hk).bind fun _ _ hk => ?_
  rw [hlength hk]
  refine (addSenddata_alike _ hk).bind fun _ _ hk => ?_
  refine (addSenddata_alike _ hk).bind fun _ _ hk => ?_
  refine (addSenddata_alike _ hk).bind fun _ _ hk => ?_
  refine (addSenddata_alike _ hk).bind fun _ _ hk => ?_
  refine (addSenddata_alike _ hk).bind fun _ _ hk => ?_
  exact iovHead_alike hk hl

theorem optionsFunc_alike (hk : Alike a a' h h') (hl : a'.contentLength = a.contentLength) :
    Both Shown (h.optionsFunc env) (h'.optionsFunc env) := by
  unfold optionsFunc
  refine (addSenddata_alike _ hk).bind fun _ _ hk => ?_
  refine (addSenddata_alike _ hk).bind fun _ _ hk => ?_
  refine (addSenddata_alike _ hk).bind fun _ _ hk => ?_
  refine (addSenddata_alike _ hk).bind fun _ _ hk => ?_
  exact iovHead_alike hk hl

/-- What `process_write` looks at of two objects that differ in their status alone. -/
structure Answerable (env : Env) (code : HttpCode) (a a' : Asked) : Prop where
  method : a'.method = a.method
  length : a'.contentLength = a.contentLength
  file : a.method = .get → code = .fileRequest ∨ code = .partialContent → a' = a
  time : a.method = .head → env.strtime a'.stat.stMtime = env.strtime a.stat.stMtime

theorem answerable_refl (a : Asked) : Answerable env code a a :=
  ⟨rfl, rfl, fun _ _ => rfl, fun _ => rfl⟩

/-- **`process_write`** shows the same of them. -/
theorem processWrite_alike (hk : Alike a a' h h') (ha : Answerable env code a a') :
    Both Shown (h.processWrite env code) (h'.processWrite env code) := by
  have hm : h.mMethod = a.method := congrArg Asked.method hk.asked
  have hm' : h'.mMethod = a.method := (congrArg Asked.method hk.asked').trans ha.method
  unfold processWrite
  rw [hm, hm']
  cases hcase : a.method with
  | get =>
    by_cases hfile : code = .fileRequest ∨ code = .partialContent
    · obtain rfl := ha.file hcase hfile
      exact getFunc_twins ⟨_, hk⟩ hfile
    · obtain ⟨hfile, hpart⟩ := not_or.mp hfile
      exact getFunc_alike hk ha.length hfile hpart
  | post =>
    refine ⟨hk.text, ?_, hk.count.1.trans hk.count.2.symm, fun v => ?_⟩
    · show h'.asked.contentLength = h.asked.contentLength
      rw [hk.asked, hk.asked', ha.length]
    · rw [hk.count.1, hk.count.2, List.take_zero, List.take_zero]
  | head => exact headFunc_alike hk ha.length (ha.time hcase)
  | options => exact optionsFunc_alike hk ha.length
  | put => exact Both.refl _
  | delete => exact Both.refl _
  | trace => exact Both.refl _
  | connect => exact Both.refl _
  | patch => exact Both.refl _

/-! ## `do_request` -/

section doRequest

variable {path url : List UInt8} {m : Method} {s : Stat}

/-- The same code, and objects that answer the same. -/
def Found (env : Env) (p p' : HttpCode × HttpServer) : Prop :=
  p'.1 = p.1 ∧ ∃ b b', Alike b b' p.2 p'.2 ∧ Answerable env p.1 b b'

variable (env path) in
theorem openFile_filePtr (h : HttpServer) : (openFile env h path).2.mFilePtr =
    if env.openOk path then
      match if h.mStat.stSize = 0 then none else env.mmap path with
      | none => .mapFailed
      | some content => .mapped h.pkt content
    else h.mFilePtr := by
  unfold openFile
  by_cases hopen : env.openOk path
  · rw [if_neg (by simp [hopen]), if_pos hopen]
    cases if h.mStat.stSize = 0 then none else env.mmap path with
    | none => rfl
    | some content =>
      dsimp only
      split_ifs
      · rfl
      · rfl
  · rw [if_pos (by simp [hopen]), if_neg hopen]

theorem statFile_filePtr (hp : h'.pkt = h.pkt) (hf : h'.mFilePtr = h.mFilePtr)
    (hmod : h'.mIfModifiedSinceTime = h.mIfModifiedSinceTime)
    (hun : h'.mIfUnmodifiedSinceTime = h.mIfUnmodifiedSinceTime) :
    (statFile env h' path).2.mFilePtr = (statFile env h path).2.mFilePtr := by
  unfold statFile
  cases env.stat path with
  | none => exact hf
  | some st =>
    dsimp only
    simp only [hmod, hun]
    split_ifs
    · exact hf
    · exact hf
    · simp only [openFile_filePtr, hp, hf]
    · exact hf
    · exact hf
    · simp only [openFile_filePtr, hp, hf]

theorem answerable_file (a : Asked)
    (htime : a.method = .head → env.stat path = none →
      env.strtime s.stMtime = env.strtime a.stat.stMtime) :
    (({ a with stat := s } : Asked).file env path).1 = (a.file env path).1 ∧
      Answerable env (a.file env path).1 (a.file env path).2
        (({ a with stat := s } : Asked).file env path).2 := by
  unfold Asked.file
  cases hstat : env.stat path with
  | none =>
    refine ⟨rfl, rfl, rfl, fun _ hcode => ?_, fun hm => htime hm hstat⟩
    rcases hcode with hcode | hcode
    · cases hcode
    · cases hcode
  | some st => exact ⟨rfl, answerable_refl _⟩

theorem statFile_found (hk : Alike a { a with stat := s } h h') (hp : h'.pkt = h.pkt)
    (hun : h.mIfUnmodifiedSinceTime = 0) (hun' : h'.mIfUnmodifiedSinceTime = 0)
    (htime : a.method = .head → env.stat path = none →
      env.strtime s.stMtime = env.strtime a.stat.stMtime) :
    Found env (statFile env h path) (statFile env h' path) := by
  obtain ⟨hcode, hanswer⟩ := answerable_file a htime
  have hasked := statFile_asked env hun path
  have hasked' := statFile_asked env hun' path
  rw [hk.asked, Prod.ext_iff] at hasked
  rw [hk.asked', Prod.ext_iff] at hasked'
  have hb := statFile_besideFile env h path
  have hb' := statFile_besideFile env h' path
  have hiov : (statFile env h path).2.mIov = h.mIov := (congrArg mIov hb :)
  have hiov' : (statFile env h' path).2.mIov = h'.mIov := (congrArg mIov hb' :)
  have htext : (statFile env h path).2.mWriteBuffer = h.mWriteBuffer :=
    (congrArg mWriteBuffer hb :)
  have htext' : (statFile env h' path).2.mWriteBuffer = h'.mWriteBuffer :=
    (congrArg mWriteBuffer hb' :)
  have hmod : h'.mIfModifiedSinceTime = h.mIfModifiedSinceTime := by
    show h'.asked.ifModifiedSince = h.asked.ifModifiedSince
    rw [hk.asked, hk.asked']
  refine ⟨hasked'.1.trans (hcode.trans hasked.1.symm), _, _, ⟨hasked.2, hasked'.2, ?_,
    statFile_filePtr hp hk.file hmod (hun'.trans hun.symm), ?_, ?_, ?_⟩, ?_⟩
  · rw [htext, htext', hk.text]
  · rw [hiov, hk.iov]
  · rw [hiov', hk.iov']
  · exact ⟨(congrArg mIovCount hb' :).trans hk.count.1, (congrArg mIovCount hb :).trans hk.count.2⟩
  · rw [show (statFile env h path).1 = _ from hasked.1]
    exact hanswer

/-- **`do_request`** on two objects that ask for the same URL and differ in their status. -/
theorem doRequest_found (hk : Alike a { a with stat := s } g g') (hp : g'.pkt = g.pkt)
    (hun : g.mIfUnmodifiedSinceTime = 0) (hun' : g'.mIfUnmodifiedSinceTime = 0)
    (hname : g.mFilename = .fill filenameLen 0) (hname' : g'.mFilename = .fill filenameLen 0)
    (hu : g.deref g.mUrl = .ok url) (hu' : g'.deref g'.mUrl = .ok url)
    (htime : a.method = .head → url.length < 190 → env.stat (localFileAddr ++ url) = none →
      env.strtime s.stMtime = env.strtime a.stat.stMtime) :
    Both (Found env) (doRequest env g) (doRequest env g') := by
  have hm : g.mMethod = a.method := congrArg Asked.method hk.asked
  have hm' : g'.mMethod = a.method := congrArg Asked.method hk.asked'
  by_cases hopt : a.method = .options
  · rw [doRequest, doRequest, if_pos (hm.trans hopt), if_pos (hm'.trans hopt)]
    refine ⟨rfl, _, _, hk, rfl, rfl, fun hget => ?_, fun hhead => ?_⟩
    · cases hopt.symm.trans hget
    · cases hopt.symm.trans hhead
  have hne : g.mMethod ≠ .options := hm.symm ▸ hopt
  have hne' : g'.mMethod ≠ .options := hm'.symm ▸ hopt
  rcases Nat.lt_or_ge url.length 190 with hfit | hlong
  · obtain ⟨b, -, hd⟩ := doRequest_of_fits env hne hu hname hfit
    obtain ⟨b', -, hd'⟩ := doRequest_of_fits env hne' hu' hname' hfit
    rw [hd, hd']
    refine statFile_found (a := a) (s := s) ?_ hp hun hun' fun hhead => htime hhead hfit
    exact ⟨hk.asked, hk.asked', hk.text, hk.file, hk.iov, hk.iov', hk.count⟩
  · rw [doRequest_of_long env hne hu hname hlong, doRequest_of_long env hne' hu' hname' hlong]
    exact Both.refl _

end doRequest

end HttpServer

end ServerNginx
