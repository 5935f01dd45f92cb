import ServerNginx.Http.Length

set_option autoImplicit false

/-!
# The text of a response

The writing functions append lines to `m_write_buffer`. `h.put t` is `h` with `t` behind the bytes
written, and `Puts h r t` says that this is what `r` ends in.

* `callbacks_post`: the callbacks append `Asked.callbackLines`;
* **`getFunc_whole`**, **`getFunc_part`**: the responses in front of a file;
* `errorResponse_puts`, `getFunc_notModified`, `headFunc_puts`, `optionsFunc_puts`: the others.
-/

namespace ServerNginx

open CString CNumber

/-! ## Lines -/

/-- Lines with the CRLF each of them ends with. -/
def ended (ls : List (List UInt8)) : List UInt8 := ls.flatMap fun l => l ++ HttpServer.crlf

@[simp] theorem ended_nil : ended [] = [] := rfl

@[simp] theorem ended_cons (l : List UInt8) (ls : List (List UInt8)) :
    ended (l :: ls) = l ++ (HttpServer.crlf ++ ended ls) := by
  rw [ended, List.flatMap_cons, List.append_assoc]
  rfl

@[simp] theorem ended_append (ls ms : List (List UInt8)) :
    ended (ls ++ ms) = ended ls ++ ended ms := List.flatMap_append

theorem length_ended_cons (l : List UInt8) (ls : List (List UInt8)) :
    (ended (l :: ls)).length = l.length + 2 + (ended ls).length := by
  rw [ended_cons, List.length_append, List.length_append, Nat.add_assoc]
  rfl

theorem length_le_ended (ls : List (List UInt8)) : ls.length ≤ (ended ls).length := by
  induction ls with
  | nil => exact le_rfl
  | cons l ls ih =>
    rw [length_ended_cons, List.length_cons]
    omega

/-- A status line. -/
def statusLine (status : ℤ) (title : List UInt8) : List UInt8 :=
  ascii "HTTP/1.1 " ++ (stdToString status ++ (ascii " " ++ title))

/-- A status line, header lines and the empty line. -/
def headText (status : ℤ) (title : List UInt8) (headers : List (List UInt8)) : List UInt8 :=
  ended (statusLine status title :: headers) ++ HttpServer.crlf

/-- The line of `add_date`. -/
def dateLine (env : Env) : List UInt8 := ascii "Date: " ++ env.strtime env.dateTime

/-- A line of a name and a number. -/
def numberLine (name : List UInt8) (n : ℤ) : List UInt8 := name ++ stdToString n

/-- The line of the methods there are. -/
def allowLine : List UInt8 := ascii "Allow: " ++ ascii "GET, POST, HEAD, OPTIONS"

/-- The line of `if_modified_since_func`, and the same line of `HEAD_func`. -/
def modifiedLine (env : Env) (st : Stat) : List UInt8 :=
  ascii "Last-Modified: " ++ env.strtime st.stMtime

namespace Asked

variable (env : Env) (a : Asked)

/-- The line of `range` for a range that fits. -/
def rangeLine : List UInt8 :=
  ascii "Accept: bytes " ++ (stdToString a.rangeStart ++ (ascii "-" ++ (stdToString a.rangeEnd ++
    (ascii "\\" ++ stdToString a.rangeLength))))

/-- The lines of the callbacks. -/
def callbackLines : Asked → List Callback → List (List UInt8)
  | _, [] => []
  | a, .ifModifiedSince :: fs => modifiedLine env a.stat :: callbackLines a fs
  | a, .range :: fs =>
    if a.RangeFits then a.rangeLine :: callbackLines a fs
    else ascii "Accept: none" :: callbackLines a.reset fs

/-- The line of `add_cookie`, for a request without a cookie. -/
def cookieLines : List (List UInt8) :=
  if a.cookie then []
  else [ascii "Set-Cookie: " ++ (ascii "sid" ++ (stdToString 61 ++
    (HttpServer.getCookieValue env (ascii "zyf") ++ (ascii "; " ++ (ascii "expirse=" ++
      (env.strtime (env.expireTime + 300) ++ (ascii "; " ++ (ascii "path=" ++ (ascii "/" ++
        (ascii "; " ++ (ascii "domain=" ++ ascii "192.168.138.135")))))))))))]

/-- The header lines in front of a whole file. -/
def wholeLines : List (List UInt8) :=
  dateLine env :: numberLine (ascii "Connect-Length: ") a.contentLength ::
    (a.cookieLines env ++ a.callbackLines env a.callbacks)

/-- The header lines in front of a part of a file. -/
def partLines : List (List UInt8) :=
  dateLine env :: numberLine (ascii "Connect-Length: ") a.rangeLength ::
    a.callbackLines env a.callbacks

/-- The header lines of the response to HEAD. -/
def headLines : List (List UInt8) :=
  [dateLine env, allowLine, numberLine (ascii "Content-Length: ") a.contentLength,
    modifiedLine env a.stat, ascii "Server: " ++ ascii "Test1.0", ascii "Accept: bytes"]

end Asked

/-- The header line of an error. -/
def ErrorPage.headers (page : ErrorPage) : List (List UInt8) :=
  [numberLine (ascii "Connect-Length: ") page.form.length]

namespace HttpServer

variable {env : Env} {h : HttpServer} {s t : List UInt8}

/-! ## Writing -/

/-- `h` with `t` behind the bytes written. -/
def put (h : HttpServer) (t : List UInt8) : HttpServer :=
  { h with mWriteBuffer := h.mWriteBuffer ++ t }

@[simp] theorem put_put (h : HttpServer) (s t : List UInt8) :
    (h.put s).put t = h.put (s ++ t) := by
  simp [put]

@[simp] theorem put_asked (h : HttpServer) (t : List UInt8) : (h.put t).asked = h.asked := rfl

@[simp] theorem asked_contentLength (h : HttpServer) :
    h.asked.contentLength = h.mContentLength := rfl

@[simp] theorem asked_callbacks (h : HttpServer) : h.asked.callbacks = h.mHeaderFuncVec := rfl

@[simp] theorem asked_stat (h : HttpServer) : h.asked.stat = h.mStat := rfl

@[simp] theorem asked_rangeStart (h : HttpServer) : h.asked.rangeStart = h.mRangeStart := rfl

@[simp] theorem asked_rangeEnd (h : HttpServer) : h.asked.rangeEnd = h.mRangeEnd := rfl

@[simp] theorem put_stat (h : HttpServer) (t : List UInt8) : (h.put t).mStat = h.mStat := rfl

@[simp] theorem put_contentLength (h : HttpServer) (t : List UInt8) :
    (h.put t).mContentLength = h.mContentLength := rfl

@[simp] theorem put_rangeStart (h : HttpServer) (t : List UInt8) :
    (h.put t).mRangeStart = h.mRangeStart := rfl

@[simp] theorem put_rangeEnd (h : HttpServer) (t : List UInt8) :
    (h.put t).mRangeEnd = h.mRangeEnd := rfl

@[simp] theorem put_headerFuncVec (h : HttpServer) (t : List UInt8) :
    (h.put t).mHeaderFuncVec = h.mHeaderFuncVec := rfl

/-- `r` appends `t`, or it faults because there is no room for it. -/
def Puts (h : HttpServer) (r : Except Fault HttpServer) (t : List UInt8) : Prop :=
  Post r (fun e => e ≠ .readBuffer) fun g => g = h.put t

section Puts

variable {r : Except Fault HttpServer} {f : HttpServer → Except Fault HttpServer}
  {P : HttpServer → Prop}

theorem Puts.then (hr : Puts h r s) (hf : Post (f (h.put s)) (fun e => e ≠ .readBuffer) P) :
    Post (r >>= f) (fun e => e ≠ .readBuffer) P :=
  Post.bind hr fun g hg => by
    rw [hg]
    exact hf

theorem Puts.bind (hr : Puts h r s) (hf : Puts (h.put s) (f (h.put s)) t) :
    Puts h (r >>= f) (s ++ t) :=
  hr.then (hf.mono fun g hg => by rw [hg, put_put])

theorem Puts.congr (hr : Puts h r s) (hst : s = t) : Puts h r t := hst ▸ hr

end Puts

/-- **`add_senddata`** appends its arguments. -/
theorem addSenddata_puts (ds : List (List UInt8)) : Puts h (h.addSenddata ds) ds.flatten :=
  addSenddata_post ds h

/-! ## The lines of a head -/

theorem addBlankLine_puts : Puts h h.addBlankLine crlf :=
  (addSenddata_puts _).congr (by simp)

theorem addStatusLine_puts (status : ℤ) (title : List UInt8) :
    Puts h (h.addStatusLine status title) (statusLine status title ++ crlf) :=
  (addSenddata_puts _).congr (by simp [statusLine])

variable (env) in
theorem addDate_puts : Puts h (h.addDate env) (dateLine env ++ crlf) :=
  (addSenddata_puts _).congr (by simp [dateLine])

theorem numberLine_puts (name : List UInt8) (n : ℤ) :
    Puts h (h.addSenddata [name, stdToString n, crlf]) (numberLine name n ++ crlf) :=
  (addSenddata_puts _).congr (by simp [numberLine])

theorem allowLine_puts :
    Puts h (h.addSenddata [ascii "Allow: ", ascii "GET, POST, HEAD, OPTIONS", crlf])
      (allowLine ++ crlf) :=
  (addSenddata_puts _).congr (by simp [allowLine])

theorem addContent_puts (text : List UInt8) : Puts h (h.addContent text) text :=
  (addSenddata_puts [text]).congr (by simp)

variable (env h) in
theorem addSid_puts : Puts h (h.addSid env) (ended (h.asked.cookieLines env)) := by
  unfold addSid Asked.cookieLines
  have hcookie : h.asked.cookie = h.mCookieValue.isSome := rfl
  by_cases hnone : h.mCookieValue = none
  · have hno : ¬ h.asked.cookie := by simp [hcookie, hnone]
    rw [if_pos hnone, if_neg hno]
    unfold addCookie
    refine Puts.congr ((addSenddata_puts _).bind ((addSenddata_puts _).bind
      ((addSenddata_puts _).bind ((addSenddata_puts _).bind (addSenddata_puts _))))) ?_
    simp
  · have hyes : h.asked.cookie := by
      rw [hcookie]
      exact Option.isSome_iff_ne_none.mpr hnone
    rw [if_neg hnone, if_pos hyes]
    simp [Puts, Post, put]

variable (env) in
theorem ifModifiedSince_puts : Puts h (h.ifModifiedSince env) (modifiedLine env h.mStat ++ crlf) :=
  (addSenddata_puts _).congr (by simp [modifiedLine])

theorem range_puts_of_fits (hfit : h.asked.RangeFits) :
    Puts h h.range (h.asked.rangeLine ++ crlf) := by
  rw [range, if_pos (show ¬ (h.mRangeStart < 0 ∨ h.mStat.stSize < h.mRangeEnd) from hfit)]
  exact (addSenddata_puts _).congr (by simp [Asked.rangeLine, Asked.rangeLength, asked])

/-- `h` with the range of `a`. -/
def withRange (h : HttpServer) (a : Asked) : HttpServer :=
  { h with mRangeStart := a.rangeStart, mRangeEnd := a.rangeEnd }

@[simp] theorem withRange_asked (h : HttpServer) : h.withRange h.asked = h := rfl

@[simp] theorem withRange_put (h : HttpServer) (a : Asked) (t : List UInt8) :
    (h.withRange a).put t = (h.put t).withRange a := rfl

@[simp] theorem withRange_contentLength (h : HttpServer) (a : Asked) :
    (h.withRange a).mContentLength = h.mContentLength := rfl

theorem range_post_of_not_fits (hfit : ¬ h.asked.RangeFits) :
    Post h.range (fun e => e ≠ .readBuffer) fun g =>
      g = (h.withRange h.asked.reset).put (ascii "Accept: none" ++ crlf) := by
  rw [range, if_neg (show ¬¬ (h.mRangeStart < 0 ∨ h.mStat.stSize < h.mRangeEnd) from hfit)]
  refine (addSenddata_post _ _).mono fun g hg => ?_
  rw [hg]
  simp [put, withRange, Asked.reset, asked]

variable (env) in
/-- **The callbacks** append a line each, and may reset the range. -/
theorem callbacks_post (fs : List Callback) : ∀ h : HttpServer,
    Post (callbacks env h fs) (fun e => e ≠ .readBuffer) fun g =>
      g = (h.put (ended (h.asked.callbackLines env fs))).withRange (h.asked.called fs) := by
  induction fs with
  | nil =>
    intro h
    simp [callbacks, Post, Asked.callbackLines, Asked.called, put, withRange, asked]
  | cons f fs ih =>
    intro h
    cases f with
    | ifModifiedSince =>
      refine (ifModifiedSince_puts env).then ((ih _).mono fun g hg => ?_)
      rw [hg, put_put, put_asked, Asked.callbackLines, Asked.called, ended_cons,
        ← List.append_assoc]
      rfl
    | range =>
      rw [Asked.callbackLines, Asked.called]
      split_ifs with hfit
      · refine (range_puts_of_fits hfit).then ((ih _).mono fun g hg => ?_)
        rw [hg, put_put, put_asked, ended_cons, ← List.append_assoc]
      · refine (range_post_of_not_fits hfit).bind fun k hk => (ih k).mono fun g hg => ?_
        have hasked : k.asked = h.asked.reset := by
          rw [hk]
          rfl
        rw [hg, hasked, hk, put_put, ended_cons, ← List.append_assoc]
        rfl

variable (env) in
theorem callbacks_puts (fs : List Callback) (hfit : h.asked.RangeFits) :
    Puts h (callbacks env h fs) (ended (h.asked.callbackLines env fs)) :=
  (callbacks_post env fs h).mono fun g hg => by
    rw [hg, Asked.called_of_rangeFits fs hfit]
    rfl

/-! ## Whole responses -/

variable (env h) in
/-- **A whole file.** -/
theorem getFunc_whole : Post (h.getFunc env .fileRequest) (fun e => e ≠ .readBuffer) fun g =>
    g = (((h.put (headText 200 (ascii "OK") (h.asked.wholeLines env))).withRange
      (h.asked.called h.mHeaderFuncVec)).iovBody 0 h.mContentLength).iovHead 3 := by
  unfold getFunc
  refine (addStatusLine_puts _ _).then ?_
  refine (addDate_puts env).then ?_
  refine (numberLine_puts _ _).then ?_
  refine (addSid_puts env _).then ?_
  refine (callbacks_post env _ _).bind fun k hk => ?_
  refine addBlankLine_puts.then ?_
  rw [Post.ok_iff]
  simp [hk, headText, Asked.wholeLines]

variable (env) in
/-- **A part of a file.** -/
theorem getFunc_part (hfit : h.asked.RangeFits) :
    Post (h.getFunc env .partialContent) (fun e => e ≠ .readBuffer) fun g =>
      g = ((h.put (headText 206 (ascii "Partial Content") (h.asked.partLines env))).iovBody
        h.mRangeStart h.asked.rangeLength).iovHead 3 := by
  unfold getFunc
  refine (addStatusLine_puts _ _).then ?_
  refine (addDate_puts env).then ?_
  refine (numberLine_puts _ _).then ?_
  refine Puts.then (callbacks_puts env _ ?_) ?_
  · exact hfit
  refine addBlankLine_puts.then ?_
  rw [Post.ok_iff]
  simp [headText, Asked.partLines, Asked.rangeLength]

variable (h) in
theorem errorResponse_puts (page : ErrorPage) :
    Post (h.errorResponse page) (fun e => e ≠ .readBuffer) fun g =>
      g = (h.put (headText page.status page.title page.headers ++ page.form)).iovHead 2 := by
  unfold errorResponse
  refine (addStatusLine_puts _ _).then ?_
  refine ((numberLine_puts _ _).bind addBlankLine_puts).then ?_
  refine (addContent_puts _).then ?_
  rw [Post.ok_iff]
  simp [headText, ErrorPage.headers]

variable (env h) in
theorem getFunc_notModified :
    Post (h.getFunc env .notModified) (fun e => e ≠ .readBuffer) fun g =>
      g = (h.put (statusLine 304 (ascii "Not Modified") ++ crlf)).iovHead 2 :=
  (addStatusLine_puts _ _).then rfl

variable (env h) in
/-- **The response to HEAD.** -/
theorem headFunc_puts : Post (h.headFunc env) (fun e => e ≠ .readBuffer) fun g =>
    g = (h.put (headText 200 (ascii "OK") (h.asked.headLines env))).iovHead 2 := by
  unfold headFunc
  refine (addStatusLine_puts _ _).then ?_
  refine (addDate_puts env).then ?_
  refine allowLine_puts.then ?_
  refine (numberLine_puts _ _).then ?_
  refine (ifModifiedSince_puts env).then ?_
  refine (addSenddata_puts _).then ?_
  refine (addSenddata_puts _).then ?_
  refine addBlankLine_puts.then ?_
  rw [Post.ok_iff]
  simp [headText, Asked.headLines]

variable (env h) in
/-- **The response to OPTIONS.** -/
theorem optionsFunc_puts : Post (h.optionsFunc env) (fun e => e ≠ .readBuffer) fun g =>
    g = (h.put (headText 200 (ascii "OK") [dateLine env, allowLine])).iovHead 2 := by
  unfold optionsFunc
  refine (addStatusLine_puts _ _).then ?_
  refine (addDate_puts env).then ?_
  refine allowLine_puts.then ?_
  refine addBlankLine_puts.then ?_
  rw [Post.ok_iff]
  simp [headText]

end HttpServer

end ServerNginx
