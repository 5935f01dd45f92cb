import ServerNginx.Http.Outcome
import ServerNginx.Http.Written

set_option autoImplicit false

/-!
# How long a response head is

`Writes h r n P`: `r` writes `n` bytes behind those `h` has written and leaves an object with `P`,
or faults because `m_write_buffer` has no room for them.

* `addSenddata_writes`: `add_senddata` writes its arguments;
* `callbacks_writes`: the callbacks write `Asked.callbackBytes`;
* `getFunc_fileRequest`, `getFunc_partialContent`: the heads in front of a file have
  `Asked.okBytes` and `Asked.partialBytes`;
* `getFunc_brief`, `headFunc_brief`, `optionsFunc_brief`: every other head is short.
-/

namespace ServerNginx

open CString CNumber

/-! ## The lengths -/

/-- The digits of a printed integer, and its sign. -/
def digits (n : ℤ) : ℕ := (stdToString n).length

/-- The title and the explanation of an error are short and hold no NUL. -/
structure ErrorPage.Short (page : ErrorPage) : Prop where
  status : digits page.status = 3
  title : (0 : UInt8) ∉ page.title
  form : (0 : UInt8) ∉ page.form
  titleLength : page.title.length ≤ 20
  formLength : page.form.length ≤ 100

theorem short400 : error400.Short :=
  ⟨by decide, by simp [error400, ascii], by simp [error400, ascii], by simp [error400, ascii],
    by simp [error400, ascii]⟩

theorem short403 : error403.Short :=
  ⟨by decide, by simp [error403, ascii], by simp [error403, ascii], by simp [error403, ascii],
    by simp [error403, ascii]⟩

theorem short404 : error404.Short :=
  ⟨by decide, by simp [error404, ascii], by simp [error404, ascii], by simp [error404, ascii],
    by simp [error404, ascii]⟩

theorem short412 : error412.Short :=
  ⟨by decide, by simp [error412, ascii], by simp [error412, ascii], by simp [error412, ascii],
    by simp [error412, ascii]⟩

theorem short500 : error500.Short :=
  ⟨by decide, by simp [error500, ascii], by simp [error500, ascii], by simp [error500, ascii],
    by simp [error500, ascii]⟩

namespace Asked

variable (env : Env) (a : Asked)

/-- `range` without a range that fits. -/
def reset : Asked := { a with rangeStart := 0, rangeEnd := int32 a.stat.stSize }

/-- The length of the range. -/
def rangeLength : ℤ := int32 (a.rangeEnd - a.rangeStart + 1)

/-- The bytes the callbacks write. -/
def callbackBytes : Asked → List Callback → ℕ
  | _, [] => 0
  | a, .ifModifiedSince :: fs => 17 + (env.strtime a.stat.stMtime).length + callbackBytes a fs
  | a, .range :: fs =>
    if a.RangeFits then
      18 + digits a.rangeStart + digits a.rangeEnd + digits a.rangeLength + callbackBytes a fs
    else 14 + callbackBytes a.reset fs

/-- The members behind the callbacks. -/
def called : Asked → List Callback → Asked
  | a, [] => a
  | a, .ifModifiedSince :: fs => called a fs
  | a, .range :: fs => if a.RangeFits then called a fs else called a.reset fs

/-- The bytes of the cookie. -/
def cookieBytes : ℕ :=
  if a.cookie then 0 else 64 + digits env.cookieTime + (env.strtime (env.expireTime + 300)).length

/-- The bytes of the head in front of a whole file. -/
def okBytes : ℕ :=
  45 + (env.strtime env.dateTime).length + digits a.contentLength + a.cookieBytes env +
    a.callbackBytes env a.callbacks

/-- The bytes of the head in front of a part of a file. -/
def partialBytes : ℕ :=
  58 + (env.strtime env.dateTime).length + digits a.rangeLength + a.callbackBytes env a.callbacks

theorem called_of_rangeFits (fs : List Callback) :
    ∀ {a : Asked}, a.RangeFits → a.called fs = a := by
  induction fs with
  | nil => exact fun _ => rfl
  | cons f fs ih =>
    intro a ha
    cases f with
    | ifModifiedSince => exact ih ha
    | range =>
      rw [called, if_pos ha]
      exact ih ha

theorem called_eq (fs : List Callback) : ∀ a : Asked,
    ∃ start stop, a.called fs = { a with rangeStart := start, rangeEnd := stop } := by
  induction fs with
  | nil => exact fun a => ⟨_, _, rfl⟩
  | cons f fs ih =>
    intro a
    cases f with
    | ifModifiedSince => exact ih a
    | range =>
      rw [called]
      split_ifs
      · exact ih a
      · exact ih a.reset

theorem called_contentLength (fs : List Callback) (a : Asked) :
    (a.called fs).contentLength = a.contentLength := by
  obtain ⟨start, stop, h⟩ := called_eq fs a
  rw [h]

end Asked

namespace HttpServer

variable {env : Env} {h g : HttpServer} {a : Asked} {v : List Iovec} {n m : ℕ}

/-! ## Writing -/

/-- `r` writes `n` bytes behind those of `h` and leaves an object with `P`, unless `m_write_buffer`
has no room for them. -/
structure Writes (h : HttpServer) (r : Except Fault HttpServer) (n : ℕ)
    (P : HttpServer → Prop) : Prop where
  fits : h.mWriteBuffer.length + n ≤ writeBufferSize → ∃ g, r = .ok g ∧
    g.mWriteBuffer.length = h.mWriteBuffer.length + n ∧
    ((0 : UInt8) ∉ h.mWriteBuffer → (0 : UInt8) ∉ g.mWriteBuffer) ∧ P g
  full : h.mWriteBuffer.length ≤ writeBufferSize → writeBufferSize < h.mWriteBuffer.length + n →
    r = .error .writeBuffer

/-- The members a response leaves alone until it sets up `m_iov`. -/
structure Kept (a : Asked) (v : List Iovec) (g : HttpServer) : Prop where
  asked : g.asked = a
  iov : g.mIov = v

section Writes

variable {r : Except Fault HttpServer} {f : HttpServer → Except Fault HttpServer}
  {P Q : HttpServer → Prop}

theorem Writes.bind (hr : Writes h r n P) (hf : ∀ g, P g → Writes g (f g) m Q) :
    Writes h (r >>= f) (n + m) Q where
  fits := fun hfit => by
    obtain ⟨g, rfl, hlen, hnul, hg⟩ := hr.fits (by omega)
    obtain ⟨k, hk, hlen', hnul', hq⟩ := (hf g hg).fits (by omega)
    exact ⟨k, hk, by omega, fun h0 => hnul' (hnul h0), hq⟩
  full := fun hle hlt => by
    rcases Nat.lt_or_ge writeBufferSize (h.mWriteBuffer.length + n) with hn | hn
    · rw [hr.full hle hn]
      rfl
    · obtain ⟨g, rfl, hlen, -, hg⟩ := hr.fits hn
      exact (hf g hg).full (by omega) (by omega)

theorem Writes.congr (hr : Writes h r n P) (hn : n = m) : Writes h r m P := hn ▸ hr

theorem writes_ok (hb : g.mWriteBuffer = h.mWriteBuffer) (hp : P g) : Writes h (.ok g) 0 P where
  fits := fun _ => ⟨g, rfl, by rw [hb, Nat.add_zero], by rw [hb]; exact id, hp⟩
  full := fun hle hlt => absurd hlt (not_lt.mpr hle)

end Writes

theorem writeSenddata_writes {d : List UInt8} (hd : (0 : UInt8) ∉ d) :
    Writes h (h.writeSenddata d) d.length
      fun g => g = { h with mWriteBuffer := h.mWriteBuffer ++ d } where
  fits := fun hfit => by
    rw [writeSenddata, if_pos hfit]
    exact ⟨_, rfl, List.length_append, fun h0 => by simp [h0, hd], rfl⟩
  full := fun _ hlt => by rw [writeSenddata, if_neg (not_le.mpr hlt)]

/-- **`add_senddata`** writes its arguments. -/
theorem addSenddata_writes (ds : List (List UInt8)) : ∀ {h : HttpServer}, Kept a v h →
    (∀ d ∈ ds, (0 : UInt8) ∉ d) → Writes h (h.addSenddata ds) ds.flatten.length (Kept a v) := by
  induction ds with
  | nil => exact fun hk _ => writes_ok rfl hk
  | cons d ds ih =>
    intro h hk hd
    rw [List.flatten_cons, List.length_append]
    refine (writeSenddata_writes (hd d List.mem_cons_self)).bind fun g hg => ?_
    subst hg
    exact ih ⟨hk.asked, hk.iov⟩ fun e he => hd e (List.mem_cons_of_mem d he)

/-! ## The lines of a head -/

section Lines

variable (hk : Kept a v h)
include hk

theorem addBlankLine_writes : Writes h h.addBlankLine 2 (Kept a v) :=
  addSenddata_writes _ hk (by decide)

variable (env) in
theorem addDate_writes :
    Writes h (h.addDate env) (8 + (env.strtime env.dateTime).length) (Kept a v) :=
  (addSenddata_writes _ hk (by
    simp only [List.forall_mem_cons]
    exact ⟨by decide, env.strtime_nul _, by decide, by simp⟩)).congr (by
    simp [ascii, crlf]
    omega)

theorem numberLine_writes {name : List UInt8} (hname : (0 : UInt8) ∉ name)
    (hlen : name.length = 16) (k : ℤ) :
    Writes h (h.addSenddata [name, stdToString k, crlf]) (18 + digits k) (Kept a v) :=
  (addSenddata_writes _ hk (by
    simp only [List.forall_mem_cons]
    exact ⟨hname, zero_notMem_stdToString k, by decide, by simp⟩)).congr (by
    simp [digits, crlf, hlen]
    omega)

theorem addStatusLine_writes {status : ℤ} (hs : digits status = 3) {title : List UInt8}
    (ht : (0 : UInt8) ∉ title) :
    Writes h (h.addStatusLine status title) (15 + title.length) (Kept a v) :=
  (addSenddata_writes _ hk (by
    simp only [List.forall_mem_cons]
    exact ⟨by decide, zero_notMem_stdToString _, by decide, ht, by decide, by simp⟩)).congr (by
    have hlen : (stdToString status).length = 3 := hs
    simp [ascii, crlf, hlen]
    omega)

theorem okLine_writes : Writes h (h.addStatusLine 200 (ascii "OK")) 17 (Kept a v) :=
  (addStatusLine_writes hk (by decide) (by decide)).congr (by simp [ascii])

theorem addContent_writes {text : List UInt8} (ht : (0 : UInt8) ∉ text) :
    Writes h (h.addContent text) text.length (Kept a v) :=
  (addSenddata_writes [text] hk (by simpa using ht)).congr (by simp)

variable (env) in
theorem addSid_writes : Writes h (h.addSid env) (a.cookieBytes env) (Kept a v) := by
  unfold addSid Asked.cookieBytes
  have hcookie : a.cookie = h.mCookieValue.isSome := (congrArg Asked.cookie hk.asked).symm
  by_cases hnone : h.mCookieValue = none
  · rw [if_pos hnone, if_neg (by simp [hcookie, hnone])]
    have hvalue : (0 : UInt8) ∉ getCookieValue env (ascii "zyf") := by
      rw [getCookieValue, List.mem_append]
      exact not_or.mpr ⟨zero_notMem_stdToString _, by decide⟩
    have h61 : (stdToString 61).length = 2 := by decide
    have hname : [ascii "sid", stdToString 61, getCookieValue env (ascii "zyf"),
        ascii "; "].flatten.length = 10 + digits env.cookieTime := by
      simp [ascii, digits, getCookieValue, h61]
      omega
    have hexpire :
        [ascii "expirse=", env.strtime (env.expireTime + 300), ascii "; "].flatten.length =
          10 + (env.strtime (env.expireTime + 300)).length := by
      simp [ascii]
      omega
    have hw : Writes h (h.addCookie env (ascii "sid") 300 (ascii "/") (ascii "192.168.138.135"))
        (12 + (10 + digits env.cookieTime + (10 + (env.strtime (env.expireTime + 300)).length +
          (8 + 24)))) (Kept a v) := by
      unfold addCookie
      refine ((addSenddata_writes _ hk (by decide)).congr (by decide)).bind fun g₁ h₁ => ?_
      refine ((addSenddata_writes _ h₁ ?_).congr hname).bind fun g₂ h₂ => ?_
      · simp only [List.forall_mem_cons]
        exact ⟨by decide, zero_notMem_stdToString _, hvalue, by decide, by simp⟩
      refine ((addSenddata_writes _ h₂ ?_).congr hexpire).bind fun g₃ h₃ => ?_
      · simp only [List.forall_mem_cons]
        exact ⟨by decide, env.strtime_nul _, by decide, by simp⟩
      refine ((addSenddata_writes _ h₃ (by decide)).congr (by decide)).bind fun g₄ h₄ => ?_
      exact (addSenddata_writes _ h₄ (by decide)).congr (by decide)
    exact hw.congr (by omega)
  · rw [if_neg hnone, if_pos (by rw [hcookie]; exact Option.isSome_iff_ne_none.mpr hnone)]
    exact writes_ok rfl hk

variable (env) in
theorem ifModifiedSince_writes : Writes h (h.ifModifiedSince env)
    (17 + (env.strtime a.stat.stMtime).length) (Kept a v) := by
  have hstat : h.mStat = a.stat := congrArg Asked.stat hk.asked
  rw [← hstat]
  exact (addSenddata_writes _ hk (by
    simp only [List.forall_mem_cons]
    exact ⟨by decide, env.strtime_nul _, by decide, by simp⟩)).congr (by
    simp [ascii, crlf]
    omega)

theorem range_writes_of_fits (hfit : a.RangeFits) : Writes h h.range
    (18 + digits a.rangeStart + digits a.rangeEnd + digits a.rangeLength) (Kept a v) := by
  obtain rfl := hk.asked
  rw [range, if_pos (show ¬ (h.mRangeStart < 0 ∨ h.mStat.stSize < h.mRangeEnd) from hfit)]
  exact (addSenddata_writes _ hk (by
    simp only [List.forall_mem_cons]
    exact ⟨by decide, zero_notMem_stdToString _, by decide, zero_notMem_stdToString _, by decide,
      zero_notMem_stdToString _, by decide, by simp⟩)).congr (by
    simp [ascii, digits, crlf, Asked.rangeLength, asked]
    omega)

theorem range_writes_of_not_fits (hfit : ¬ a.RangeFits) :
    Writes h h.range 14 (Kept a.reset v) := by
  obtain rfl := hk.asked
  rw [range, if_neg (show ¬¬ (h.mRangeStart < 0 ∨ h.mStat.stSize < h.mRangeEnd) from hfit)]
  have hk' : Kept h.asked.reset v
      { h with mRangeStart := 0, mRangeEnd := int32 h.mStat.stSize } := ⟨rfl, hk.iov⟩
  have hw := addSenddata_writes [ascii "Accept: none", crlf] hk' (by decide)
  exact ⟨hw.fits, hw.full⟩

end Lines

variable (env) in
/-- **The callbacks** of the header lines. -/
theorem callbacks_writes (fs : List Callback) : ∀ {h : HttpServer} {a : Asked}, Kept a v h →
    Writes h (callbacks env h fs) (a.callbackBytes env fs) (Kept (a.called fs) v) := by
  induction fs with
  | nil => exact fun hk => writes_ok rfl hk
  | cons f fs ih =>
    intro h a hk
    cases f with
    | ifModifiedSince => exact (ifModifiedSince_writes env hk).bind fun g hg => ih hg
    | range =>
      rw [Asked.callbackBytes, Asked.called]
      split_ifs with hfit
      · exact (range_writes_of_fits hk hfit).bind fun g hg => ih hg
      · exact (range_writes_of_not_fits hk hfit).bind fun g hg => ih hg

/-! ## Whole responses -/

/-- The response is set up: `count` segments, those behind the packet header with the bytes written
and `rest` more. -/
structure Laid (a : Asked) (count rest : ℕ) (g : HttpServer) : Prop where
  asked : g.asked = a
  iovCount : g.mIovCount = count
  iovLength : g.mIov.length = 3
  behind : (((g.mIov.take count).drop 1).map Iovec.iovLen).sum = g.mWriteBuffer.length + rest

section Laid

variable (hk : Kept a v g) (hv : v.length = 3)
include hk hv

theorem iovHead_writes : Writes g (.ok (g.iovHead 2)) 0 (Laid a 2 0) := by
  obtain ⟨v₀, v₁, v₂, rfl⟩ := List.length_eq_three.mp hv
  refine writes_ok rfl ⟨hk.asked, rfl, ?_, ?_⟩
  · simp [iovHead, hk.iov]
  · simp [iovHead, hk.iov]

theorem iovBody_writes (off len : ℤ) : Writes g (.ok ((g.iovBody off len).iovHead 3)) 0
    (Laid a 3 (sizeT len)) := by
  obtain ⟨v₀, v₁, v₂, rfl⟩ := List.length_eq_three.mp hv
  refine writes_ok rfl ⟨hk.asked, rfl, ?_, ?_⟩
  · simp [iovHead, iovBody, hk.iov]
  · simp [iovHead, iovBody, hk.iov]

end Laid

variable (hk : Kept a v h) (hv : v.length = 3)
include hk hv

variable (env) in
/-- **A whole file.** -/
theorem getFunc_fileRequest : Writes h (h.getFunc env .fileRequest) (a.okBytes env)
    (Laid (a.called a.callbacks) 3 (sizeT a.contentLength)) := by
  have hw : Writes h (h.getFunc env .fileRequest)
      (17 + (8 + (env.strtime env.dateTime).length + (18 + digits a.contentLength +
        (a.cookieBytes env + (a.callbackBytes env a.callbacks + (2 + 0))))))
      (Laid (a.called a.callbacks) 3 (sizeT a.contentLength)) := by
    unfold getFunc
    refine (okLine_writes hk).bind fun g₁ h₁ => ?_
    refine (addDate_writes env h₁).bind fun g₂ h₂ => ?_
    have hcl₂ : g₂.mContentLength = a.contentLength := congrArg Asked.contentLength h₂.asked
    rw [hcl₂]
    refine (numberLine_writes h₂ (by decide) (by decide) _).bind fun g₃ h₃ => ?_
    refine (addSid_writes env h₃).bind fun g₄ h₄ => ?_
    have hvec : g₄.mHeaderFuncVec = a.callbacks := congrArg Asked.callbacks h₄.asked
    rw [hvec]
    refine (callbacks_writes env a.callbacks h₄).bind fun g₅ h₅ => ?_
    refine (addBlankLine_writes h₅).bind fun g₆ h₆ => ?_
    have hcl : g₆.mContentLength = a.contentLength :=
      (congrArg Asked.contentLength h₆.asked).trans (Asked.called_contentLength _ a)
    rw [hcl]
    exact iovBody_writes h₆ hv 0 _
  refine hw.congr ?_
  rw [Asked.okBytes]
  omega

variable (env) in
/-- **A part of a file.** -/
theorem getFunc_partialContent (hfit : a.RangeFits) :
    Writes h (h.getFunc env .partialContent) (a.partialBytes env)
      (Laid a 3 (sizeT a.rangeLength)) := by
  have hw : Writes h (h.getFunc env .partialContent)
      (30 + (8 + (env.strtime env.dateTime).length + (18 + digits a.rangeLength +
        (a.callbackBytes env a.callbacks + (2 + 0)))))
      (Laid a 3 (sizeT a.rangeLength)) := by
    unfold getFunc
    have hline : Writes h (h.addStatusLine 206 (ascii "Partial Content")) 30 (Kept a v) :=
      (addStatusLine_writes hk (by decide) (by decide)).congr (by simp [ascii])
    refine hline.bind fun g₁ h₁ => ?_
    refine (addDate_writes env h₁).bind fun g₂ h₂ => ?_
    have hlen : ∀ {g : HttpServer}, Kept a v g →
        int32 (g.mRangeEnd - g.mRangeStart + 1) = a.rangeLength := fun hg => by
      rw [← hg.asked]
      rfl
    rw [hlen h₂]
    refine (numberLine_writes h₂ (by decide) (by decide) _).bind fun g₃ h₃ => ?_
    have hvec : g₃.mHeaderFuncVec = a.callbacks := congrArg Asked.callbacks h₃.asked
    rw [hvec]
    have hcalls := callbacks_writes env a.callbacks h₃
    rw [Asked.called_of_rangeFits _ hfit] at hcalls
    refine hcalls.bind fun g₄ h₄ => ?_
    refine (addBlankLine_writes h₄).bind fun g₅ h₅ => ?_
    rw [hlen h₅]
    exact iovBody_writes h₅ hv _ _
  refine hw.congr ?_
  rw [Asked.partialBytes]
  omega

/-- A response of 300 bytes at most, without a body. -/
def Brief (h : HttpServer) (r : Except Fault HttpServer) (a : Asked) : Prop :=
  ∃ n, n ≤ 300 ∧ Writes h r n (Laid a 2 0)

theorem errorResponse_brief {page : ErrorPage} (hp : page.Short) :
    Brief h (h.errorResponse page) a := by
  have hd : digits (page.form.length : ℤ) ≤ 11 :=
    length_stdToString_le (by have := hp.formLength; omega)
  have htl := hp.titleLength
  have hfl := hp.formLength
  refine ⟨15 + page.title.length + (18 + digits page.form.length + 2 + (page.form.length + 0)),
    by omega, ?_⟩
  unfold errorResponse
  refine (addStatusLine_writes hk hp.status hp.title).bind fun g₁ h₁ => ?_
  refine ((numberLine_writes h₁ (by decide) (by decide) _).bind fun g₂ h₂ =>
    addBlankLine_writes h₂).bind fun g₃ h₃ => ?_
  refine (addContent_writes h₃ hp.form).bind fun g₄ h₄ => ?_
  exact iovHead_writes h₄ hv

variable (env) in
/-- **The other responses of `GET_func`.** -/
theorem getFunc_brief {code : HttpCode} (hfile : code ≠ .fileRequest)
    (hpart : code ≠ .partialContent) : Brief h (h.getFunc env code) a := by
  cases code with
  | fileRequest => exact absurd rfl hfile
  | partialContent => exact absurd rfl hpart
  | badRequest => exact errorResponse_brief hk hv short400
  | internalError => exact errorResponse_brief hk hv short500
  | noResource => exact errorResponse_brief hk hv short404
  | forbiddenRequest => exact errorResponse_brief hk hv short403
  | notModified =>
    exact ⟨27 + 0, by decide, ((addStatusLine_writes hk (by decide) (by decide)).congr
      (by simp [ascii])).bind fun g₁ h₁ => iovHead_writes h₁ hv⟩
  | preconditionFailed =>
    have htl := short412.titleLength
    have hfl := short412.formLength
    exact ⟨15 + error412.title.length + (error412.form.length + 0), by omega,
      (addStatusLine_writes hk short412.status short412.title).bind fun g₁ h₁ =>
        (addContent_writes h₁ short412.form).bind fun g₂ h₂ => iovHead_writes h₂ hv⟩
  | noRequest => exact ⟨0, by decide, iovHead_writes hk hv⟩
  | getRequest => exact ⟨0, by decide, iovHead_writes hk hv⟩
  | closedConnection => exact ⟨0, by decide, iovHead_writes hk hv⟩
  | responseSuccessful => exact ⟨0, by decide, iovHead_writes hk hv⟩

variable (env) in
/-- **The response to HEAD**, for a content length that is an `int`. -/
theorem headFunc_brief (hint : -2 ^ 31 ≤ a.contentLength ∧ a.contentLength < 2 ^ 31) :
    Brief h (h.headFunc env) a := by
  have hdate := env.strtime_length env.dateTime
  have hmod := env.strtime_length h.mStat.stMtime
  have hd : digits a.contentLength ≤ 11 := length_stdToString_le hint
  rw [timeBufferSize] at hdate hmod
  have htime : ∀ d ∈ [ascii "Last-Modified: ", env.strtime h.mStat.stMtime, crlf],
      (0 : UInt8) ∉ d := by
    simp only [List.forall_mem_cons]
    exact ⟨by decide, env.strtime_nul _, by decide, by simp⟩
  have hlines : [ascii "Last-Modified: ", env.strtime h.mStat.stMtime, crlf].flatten.length =
      17 + (env.strtime h.mStat.stMtime).length := by
    simp [ascii, crlf]
    omega
  refine ⟨17 + (8 + (env.strtime env.dateTime).length + (33 + (18 + digits a.contentLength +
    (17 + (env.strtime h.mStat.stMtime).length + (17 + (15 + (2 + 0))))))), by omega, ?_⟩
  unfold headFunc
  refine (okLine_writes hk).bind fun g₁ h₁ => ?_
  refine (addDate_writes env h₁).bind fun g₂ h₂ => ?_
  refine ((addSenddata_writes _ h₂ (by decide)).congr (by decide)).bind fun g₃ h₃ => ?_
  have hcl : g₃.mContentLength = a.contentLength := congrArg Asked.contentLength h₃.asked
  rw [hcl]
  refine (numberLine_writes h₃ (by decide) (by decide) _).bind fun g₄ h₄ => ?_
  refine ((addSenddata_writes _ h₄ htime).congr hlines).bind fun g₅ h₅ => ?_
  refine ((addSenddata_writes _ h₅ (by decide)).congr (by decide)).bind fun g₆ h₆ => ?_
  refine ((addSenddata_writes _ h₆ (by decide)).congr (by decide)).bind fun g₇ h₇ => ?_
  exact (addBlankLine_writes h₇).bind fun g₈ h₈ => iovHead_writes h₈ hv

variable (env) in
/-- **The response to OPTIONS.** -/
theorem optionsFunc_brief : Brief h (h.optionsFunc env) a := by
  have hdate := env.strtime_length env.dateTime
  rw [timeBufferSize] at hdate
  refine ⟨17 + (8 + (env.strtime env.dateTime).length + (33 + (2 + 0))), by omega, ?_⟩
  unfold optionsFunc
  refine (okLine_writes hk).bind fun g₁ h₁ => ?_
  refine (addDate_writes env h₁).bind fun g₂ h₂ => ?_
  refine ((addSenddata_writes _ h₂ (by decide)).congr (by decide)).bind fun g₃ h₃ => ?_
  exact (addBlankLine_writes h₃).bind fun g₄ h₄ => iovHead_writes h₄ hv

end HttpServer

end ServerNginx
