import ServerNginx.Http.Object

set_option autoImplicit false

/-!
# Header handlers

The handlers of `parse_header_func_map`. A handler gets the C string behind the colon and the index
`base` of its first byte in `m_read_buffer`; where it cuts the string it writes a NUL there.
-/

namespace ServerNginx

open CString CNumber

/-- Blank and tab. -/
def blank : List UInt8 := [32, 9]

/-- `m.emplace(w, s)`: an entry of an equivalent weight is kept. -/
def WeightMap.emplace (m : WeightMap) (w : F32) (s : List UInt8) : WeightMap :=
  if m.any (·.1 = w) then m
  else
    let before := fun x : F32 × List UInt8 => match x.1, w with
      | .inf false, _ => true
      | _, .inf true => true
      | .fin p, .fin q => decide (q < p)
      | _, _ => false
    m.takeWhile before ++ (w, s) :: m.dropWhile before

namespace HttpServer

variable (h : HttpServer) (base : ℕ) (t : List UInt8)

/-- `Connection_func`. -/
def connectionFunc : Except Fault (HttpCode × HttpServer) :=
  let t := t.drop (strspn t blank)
  if strncaseeq t (ascii "keep-alive") 11 then .ok (.noRequest, { h with mKeeplive := true })
  else if strncaseeq t (ascii "close") 5 then .ok (.noRequest, { h with mKeeplive := false })
  else .ok (.noRequest, h)

/-- `Host_func`. -/
def hostFunc : Except Fault (HttpCode × HttpServer) :=
  .ok (.noRequest, { h with mHost := some (h.ptr (base + strspn t blank)) })

/-- `Connect_Length_func`. -/
def connectLengthFunc : Except Fault (HttpCode × HttpServer) := do
  let n ← throwing (stoi (t.drop (strspn t blank)))
  .ok (.noRequest, { h with mContentLength := n })

/-- `Range_func`. -/
def rangeFunc : Except Fault (HttpCode × HttpServer) :=
  let k := strspn t blank
  let base := base + k
  let t := t.drop k
  if strncaseeq t (ascii "bytes=") 6 then
    let base := base + 6
    let t := t.drop 6
    match strchr t 45 with
    | none => .ok (.noRequest, { h with mHeaderFuncVec := h.mHeaderFuncVec ++ [.range] })
    | some i => do
      let h ← h.poke (base + i)
      let start ← throwing (stoi (t.take i))
      let stop ← throwing (stoi (t.drop (i + 1)))
      .ok (.noRequest, { h with
        mRangeStart := start
        mRangeEnd := stop
        mHeaderFuncVec := h.mHeaderFuncVec ++ [.range] })
  else .ok (.badRequest, h)

/-- `If_Modified_Since_func`. -/
def ifModifiedSinceFunc (env : Env) : Except Fault (HttpCode × HttpServer) :=
  .ok (.noRequest,
    { h with mIfModifiedSinceTime := env.timeOfStr (t.drop (strspn t blank)) })

/-- The loop of `decompose_weight` at `left` and `right`, with at most `n` more semicolons. A NUL
has been written over every semicolon before `right`, so the strings at `text` and `left` end at
the first semicolon. -/
def decomposeWeightLoop : ℕ → HttpServer → ℕ → ℕ → WeightMap →
    Except Fault (WeightMap × HttpServer)
  | 0, h, _, _, m => .ok (m, h)
  | n + 1, h, left, right, m =>
    match strchr (t.drop right) 59 with
    | none => .ok (m.emplace (.fin 1) (t.takeWhile (· ≠ 59)), h)
    | some i => do
      let h ← h.poke (base + (right + i))
      let right := right + i + 1
      let right := right + strspn (t.drop right) blank
      if strncaseeq (t.drop right) (ascii "q=") 2 then
        let right := right + 2
        let right := right + strspn (t.drop right) blank
        let w ← throwing (stof (t.drop right))
        let m := m.emplace w ((t.drop left).takeWhile (· ≠ 59))
        match strchr (t.drop right) 44 with
        | none => .ok (m, h)
        | some j => decomposeWeightLoop n h (right + j + 1) (right + j + 1) m
      else decomposeWeightLoop n h left right m

/-- `decompose_weight`; `strmap` is a copy of the caller's map. -/
def decomposeWeight (strmap : WeightMap) : Except Fault (WeightMap × HttpServer) :=
  decomposeWeightLoop base t (t.length + 1) h 0 0 strmap

/-- The `Accept` handlers: the member they name is passed by value and stays as it is. -/
def acceptHandler (member : HttpServer → WeightMap) : Except Fault (HttpCode × HttpServer) := do
  let k := strspn t blank
  let r ← h.decomposeWeight (base + k) (t.drop k) (member h)
  .ok (.noRequest, r.2)

/-- `Accept_func`. -/
def acceptFunc : Except Fault (HttpCode × HttpServer) := h.acceptHandler base t acceptMap

/-- `Accept_Charset_func`. -/
def acceptCharsetFunc : Except Fault (HttpCode × HttpServer) :=
  h.acceptHandler base t acceptCharsetMap

/-- `Accept_Encoding_func`. -/
def acceptEncodingFunc : Except Fault (HttpCode × HttpServer) :=
  h.acceptHandler base t acceptEncodingMap

/-- `Accept_Language_func`. -/
def acceptLanguageFunc : Except Fault (HttpCode × HttpServer) :=
  h.acceptHandler base t acceptLanguageMap

/-- `Cookie_func`: the result of `strchr` is not checked. -/
def cookieFunc : Except Fault (HttpCode × HttpServer) :=
  let k := strspn t blank
  let base := base + k
  match strchr (t.drop k) 61 with
  | none => .error .nullDeref
  | some i => do
    let h ← h.poke (base + i)
    .ok (.noRequest, { h with
      mCookieValue := some (h.ptr (base + i + 1))
      mCookieName := some (h.ptr base) })

/-- `If_Match_func`: neither result of `strchr` is checked. -/
def ifMatchFunc : Except Fault (HttpCode × HttpServer) :=
  let k := strspn t blank
  let base := base + k
  let t := t.drop k
  match strchr t 34 with
  | none => .error .nullDeref
  | some i => do
    let h ← h.poke (base + i)
    match strchr (t.drop (i + 1)) 34 with
    | none => .error .nullDeref
    | some j => do
      let h ← h.poke (base + (i + 1 + j))
      .ok (.noRequest, { h with mETag := some (h.ptr (base + i + 1)) })

/-- A header handler. -/
abbrev ParseHeaderFunc := HttpServer → ℕ → List UInt8 → Except Fault (HttpCode × HttpServer)

/-- `parse_header_func_map`. -/
def parseHeaderFuncMap (env : Env) : List (List UInt8 × ParseHeaderFunc) :=
  [(ascii "Connection", fun h _ t => h.connectionFunc t),
    (ascii "Host", hostFunc),
    (ascii "Connect-Length", fun h _ t => h.connectLengthFunc t),
    (ascii "Range", rangeFunc),
    (ascii "If-Modified-Since", fun h _ t => h.ifModifiedSinceFunc t env),
    (ascii "Accept", acceptFunc),
    (ascii "Accept-Charset", acceptCharsetFunc),
    (ascii "Accept-Encoding", acceptEncodingFunc),
    (ascii "Accept-Language", acceptLanguageFunc),
    (ascii "Cookie", cookieFunc),
    (ascii "If-Match", ifMatchFunc)]

end HttpServer

end ServerNginx
