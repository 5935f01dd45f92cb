import ServerNginx.Http.Respond
import ServerNginx.Lib.Post

set_option autoImplicit false

/-!
# What a response writes

The functions that write append to `m_write_buffer` and stay away from the packet. `Grows h g`: `g`
is `h` with more in `m_write_buffer`.

* `addSenddata_eq`: what `add_senddata` writes and when it faults;
* `Answered h g`: `g` has a status line more, and `m_iov` shows all of `m_write_buffer`;
* **`processWrite_post`**: `process_write` answers, unless the method is POST.
-/

namespace ServerNginx

open CString CNumber

namespace HttpServer

variable {env : Env} {h g k : HttpServer}

/-- The members no writing function touches. -/
def besideText (h : HttpServer) : HttpServer :=
  { h with mWriteBuffer := [], mRangeStart := 0, mRangeEnd := 0 }

/-- `g` is `h` with more in `m_write_buffer`. -/
structure Grows (h g : HttpServer) : Prop where
  others : g.besideText = h.besideText
  text : h.mWriteBuffer <+: g.mWriteBuffer

theorem Grows.trans (h₁ : Grows h g) (h₂ : Grows g k) : Grows h k where
  others := h₂.others.trans h₁.others
  text := h₁.text.trans h₂.text

/-- A function that appends to `m_write_buffer` or faults there. -/
def Appends (h : HttpServer) (r : Except Fault HttpServer) : Prop :=
  Post r (fun e => e ≠ .readBuffer) (Grows h)

theorem Appends.bind {r : Except Fault HttpServer} {f : HttpServer → Except Fault HttpServer}
    (hr : Appends h r) (hf : ∀ g, Appends g (f g)) : Appends h (r >>= f) :=
  Post.bind hr fun g hg => (hf g).mono fun _ => hg.trans

theorem appends_ok : Appends h (.ok h) := ⟨rfl, List.prefix_rfl⟩

/-- **`add_senddata`** appends its arguments. -/
theorem addSenddata_post (ds : List (List UInt8)) : ∀ h : HttpServer,
    Post (h.addSenddata ds) (fun e => e ≠ .readBuffer)
      fun g => g = { h with mWriteBuffer := h.mWriteBuffer ++ ds.flatten } := by
  induction ds with
  | nil =>
    intro h
    rw [addSenddata, Post.ok_iff, List.flatten_nil, List.append_nil]
  | cons d ds ih =>
    intro h
    have hd : Post (h.writeSenddata d) (fun e => e ≠ .readBuffer)
        fun g => g = { h with mWriteBuffer := h.mWriteBuffer ++ d } := by
      unfold writeSenddata
      split_ifs
      · rfl
      · exact nofun
    refine hd.bind fun g hg => (ih g).mono fun k hk => ?_
    rw [hk, hg, List.flatten_cons, ← List.append_assoc]

theorem addSenddata_appends (ds : List (List UInt8)) : Appends h (h.addSenddata ds) :=
  (addSenddata_post ds h).mono fun g hg => by
    subst hg
    exact ⟨rfl, List.prefix_append _ _⟩

theorem addBlankLine_appends : Appends h h.addBlankLine := addSenddata_appends _

theorem addDate_appends : Appends h (h.addDate env) := addSenddata_appends _

theorem addContent_appends (text : List UInt8) : Appends h (h.addContent text) :=
  addSenddata_appends _

theorem addHeaders_appends (text : List UInt8) : Appends h (h.addHeaders text) :=
  (addSenddata_appends _).bind fun _ => addBlankLine_appends

theorem addCookie_appends (name : List UInt8) (expirse : ℤ) (path domain : List UInt8) :
    Appends h (h.addCookie env name expirse path domain) :=
  (addSenddata_appends _).bind fun _ => (addSenddata_appends _).bind fun _ =>
    (addSenddata_appends _).bind fun _ => (addSenddata_appends _).bind fun _ =>
      addSenddata_appends _

theorem addSid_appends : Appends h (h.addSid env) := by
  unfold addSid
  split_ifs
  · exact addCookie_appends _ _ _ _
  · exact appends_ok

theorem callback_appends (f : Callback) : Appends h (callback env h f) := by
  cases f with
  | ifModifiedSince => exact addSenddata_appends _
  | range =>
    rw [callback, range]
    split_ifs
    · exact (addSenddata_appends _).mono fun g hg => ⟨hg.others, hg.text⟩
    · exact addSenddata_appends _

theorem callbacks_appends (fs : List Callback) : ∀ h : HttpServer,
    Appends h (callbacks env h fs) := by
  induction fs with
  | nil => exact fun h => appends_ok
  | cons f fs ih => exact fun h => (callback_appends f).bind ih

/-! ## Status lines -/

/-- `g` has twelve bytes more than `h` at least: `HTTP/1.1 ` and the status. -/
structure Headed (h g : HttpServer) : Prop where
  grows : Grows h g
  length : h.mWriteBuffer.length + 12 ≤ g.mWriteBuffer.length

theorem Headed.grow (h₁ : Headed h g) (h₂ : Grows g k) : Headed h k where
  grows := h₁.grows.trans h₂
  length := h₁.length.trans h₂.text.length_le

theorem addStatusLine_post {status : ℤ} (title : List UInt8)
    (hs : 3 ≤ (stdToString status).length) :
    Post (h.addStatusLine status title) (fun e => e ≠ .readBuffer) (Headed h) :=
  (addSenddata_post _ h).mono fun g hg => by
    subst hg
    refine ⟨⟨rfl, List.prefix_append _ _⟩, ?_⟩
    have hhttp : (ascii "HTTP/1.1 ").length = 9 := by decide
    simp [hhttp]
    omega

/-! ## The method functions -/

/-- The members `process_write` leaves alone. -/
def besideOutput (h : HttpServer) : HttpServer := { h.besideText with mIov := [], mIovCount := 0 }

/-- `g` is `h` with an answer written behind what `m_write_buffer` held, all of which `m_iov`
shows. -/
structure Answered (h g : HttpServer) : Prop where
  others : g.besideOutput = h.besideOutput
  text : h.mWriteBuffer <+: g.mWriteBuffer
  length : h.mWriteBuffer.length + 12 ≤ g.mWriteBuffer.length
  iovLength : g.mIov.length = h.mIov.length
  iov : 1 < h.mIov.length → g.mIov[1]? = some ⟨.writeBuffer, g.mWriteBuffer.length⟩
  count : 2 ≤ g.mIovCount

theorem Headed.iovHead (hh : Headed h g) {count : ℕ} (hc : 2 ≤ count) :
    Answered h (g.iovHead count) := by
  have hiov : g.mIov = h.mIov := (congrArg mIov hh.grows.others :)
  refine ⟨(congrArg besideOutput hh.grows.others :), hh.grows.text, hh.length, ?_, fun hl => ?_, hc⟩
  · simp [HttpServer.iovHead, hiov]
  · simp [HttpServer.iovHead, hiov, hl]

theorem Headed.iovBodyHead (hh : Headed h g) {off len : ℤ} :
    Answered h ((g.iovBody off len).iovHead 3) := by
  have hiov : g.mIov = h.mIov := (congrArg mIov hh.grows.others :)
  refine ⟨(congrArg besideOutput hh.grows.others :), hh.grows.text, hh.length, ?_, fun hl => ?_,
    Nat.le_succ 2⟩
  · simp [HttpServer.iovHead, iovBody, hiov]
  · simp [HttpServer.iovHead, iovBody, hiov, hl]

/-- The codes `process_read` returns. -/
def Final : HttpCode → Prop
  | .noRequest => False
  | .getRequest => False
  | .closedConnection => False
  | .responseSuccessful => False
  | _ => True

/-- The result of a method function for `code`. -/
def Answers (h : HttpServer) (code : HttpCode) (r : Except Fault HttpServer) : Prop :=
  Post r (fun e => e ≠ .readBuffer) fun g =>
    g.besideOutput = h.besideOutput ∧ (Final code → Answered h g)

section Chains

variable {code : HttpCode} {r : Except Fault HttpServer} {f : HttpServer → Except Fault HttpServer}

/-- A response starts with its status line, -/
theorem answers_addStatusLine {status : ℤ} {title : List UInt8}
    (hs : 3 ≤ (stdToString status).length) (hf : ∀ g, Headed h g → Answers h code (f g)) :
    Answers h code (h.addStatusLine status title >>= f) :=
  (addStatusLine_post title hs).bind hf

/-- goes on with headers and content, -/
theorem Headed.answers_bind (hg : Headed h g) (hr : Appends g r)
    (hf : ∀ k, Headed h k → Answers h code (f k)) : Answers h code (r >>= f) :=
  Post.bind hr fun k hk => hf k (hg.grow hk)

/-- and ends by setting up `m_iov`. -/
theorem Headed.answers (hg : Headed h g) : Answers h code (.ok (g.iovHead 2)) :=
  ⟨(hg.iovHead le_rfl).others, fun _ => hg.iovHead le_rfl⟩

theorem Headed.answers_body (hg : Headed h g) {off len : ℤ} :
    Answers h code (.ok ((g.iovBody off len).iovHead 3)) :=
  ⟨hg.iovBodyHead.others, fun _ => hg.iovBodyHead⟩

theorem errorResponse_answers {page : ErrorPage} (hs : 3 ≤ (stdToString page.status).length) :
    Answers h code (h.errorResponse page) :=
  answers_addStatusLine hs fun _ h₁ => h₁.answers_bind (addHeaders_appends _) fun _ h₂ =>
    h₂.answers_bind (addContent_appends _) fun _ h₃ => h₃.answers

end Chains

theorem getFunc_answers : ∀ code, Answers h code (h.getFunc env code)
  | .badRequest => errorResponse_answers (by decide)
  | .internalError => errorResponse_answers (by decide)
  | .noResource => errorResponse_answers (by decide)
  | .forbiddenRequest => errorResponse_answers (by decide)
  | .fileRequest =>
    answers_addStatusLine (by decide) fun _ h₁ => h₁.answers_bind addDate_appends fun _ h₂ =>
      h₂.answers_bind (addSenddata_appends _) fun _ h₃ =>
        h₃.answers_bind addSid_appends fun _ h₄ =>
          h₄.answers_bind (callbacks_appends _ _) fun _ h₅ =>
            h₅.answers_bind addBlankLine_appends fun _ h₆ => h₆.answers_body
  | .notModified => answers_addStatusLine (by decide) fun _ h₁ => h₁.answers
  | .preconditionFailed =>
    answers_addStatusLine (by decide) fun _ h₁ =>
      h₁.answers_bind (addContent_appends _) fun _ h₂ => h₂.answers
  | .partialContent =>
    answers_addStatusLine (by decide) fun _ h₁ => h₁.answers_bind addDate_appends fun _ h₂ =>
      h₂.answers_bind (addSenddata_appends _) fun _ h₃ =>
        h₃.answers_bind (callbacks_appends _ _) fun _ h₄ =>
          h₄.answers_bind addBlankLine_appends fun _ h₅ => h₅.answers_body
  | .noRequest => ⟨rfl, False.elim⟩
  | .getRequest => ⟨rfl, False.elim⟩
  | .closedConnection => ⟨rfl, False.elim⟩
  | .responseSuccessful => ⟨rfl, False.elim⟩

theorem headFunc_answers (code : HttpCode) : Answers h code (h.headFunc env) :=
  answers_addStatusLine (by decide) fun _ h₁ => h₁.answers_bind addDate_appends fun _ h₂ =>
    h₂.answers_bind (addSenddata_appends _) fun _ h₃ =>
      h₃.answers_bind (addSenddata_appends _) fun _ h₄ =>
        h₄.answers_bind (addSenddata_appends _) fun _ h₅ =>
          h₅.answers_bind (addSenddata_appends _) fun _ h₆ =>
            h₆.answers_bind (addSenddata_appends _) fun _ h₇ =>
              h₇.answers_bind addBlankLine_appends fun _ h₈ => h₈.answers

theorem optionsFunc_answers (code : HttpCode) : Answers h code (h.optionsFunc env) :=
  answers_addStatusLine (by decide) fun _ h₁ => h₁.answers_bind addDate_appends fun _ h₂ =>
    h₂.answers_bind (addSenddata_appends _) fun _ h₃ =>
      h₃.answers_bind addBlankLine_appends fun _ h₄ => h₄.answers

/-- **`process_write`** answers a request, unless the method is POST; then it does nothing. -/
theorem processWrite_post (code : HttpCode) :
    Post (h.processWrite env code) (fun e => e ≠ .readBuffer) fun g =>
      g.besideOutput = h.besideOutput ∧ (h.mMethod = .post → g = h) ∧
        (h.mMethod ≠ .post → Final code → Answered h g) := by
  unfold processWrite
  split
  · rename_i hm
    exact (getFunc_answers code).mono fun g hg => ⟨hg.1, fun hp => (nomatch hm.symm.trans hp),
      fun _ => hg.2⟩
  · rename_i hm
    exact ⟨rfl, fun _ => rfl, fun hn => absurd hm hn⟩
  · rename_i hm
    exact (headFunc_answers code).mono fun g hg =>
      ⟨hg.1, fun hp => (nomatch hm.symm.trans hp), fun _ => hg.2⟩
  · rename_i hm
    exact (optionsFunc_answers code).mono fun g hg =>
      ⟨hg.1, fun hp => (nomatch hm.symm.trans hp), fun _ => hg.2⟩
  · exact nofun

end HttpServer

end ServerNginx
