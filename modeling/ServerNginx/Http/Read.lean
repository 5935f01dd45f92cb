import ServerNginx.Http.Header

set_option autoImplicit false

/-!
# Reading a request

`parse_line`, the parsers of the three states, `do_request` and the loop of `process_read`. The
loop ends: a line takes two bytes at least, so `process_read` has enough rounds.
-/

namespace ServerNginx

open CString CNumber

/-- Carriage return. -/
def cr : UInt8 := 13

/-- Line feed. -/
def lf : UInt8 := 10

/-- `LOCAL_FILE_ADDR`. -/
def localFileAddr : List UInt8 := ascii "./Resource"

namespace HttpServer

/-! ## Lines -/

/-- `text[m_check_idx++] = '\0'`, twice. -/
def cutLine (h : HttpServer) : Except Fault (LineStatus × HttpServer) := do
  let h ← h.poke h.mCheckIdx
  let h ← h.poke (h.mCheckIdx + 1)
  .ok (.lineOk, { h with mCheckIdx := h.mCheckIdx + 2 })

/-- The loop of `parse_line`, with `n` bytes from `m_check_idx` to `m_read_idx`. -/
def parseLineLoop : ℕ → HttpServer → Except Fault (LineStatus × HttpServer)
  | 0, h => .ok (.lineOpen, h)
  | n + 1, h =>
    match h.mReadBuffer[h.mCheckIdx]? with
    | none => .error .readBuffer
    | some temp =>
      if temp = cr then
        if h.mCheckIdx + 1 = h.mReadIdx then .ok (.lineOpen, h)
        else
          match h.mReadBuffer[h.mCheckIdx + 1]? with
          | none => .error .readBuffer
          | some c => if c = lf then h.cutLine else .ok (.lineBad, h)
      else if temp = lf then
        -- `m_check_idx` is at the second byte of the pair here, and so are the writes
        if 1 < h.mCheckIdx ∧ h.mReadBuffer[h.mCheckIdx - 1]? = some cr then h.cutLine
        else .ok (.lineBad, h)
      else parseLineLoop n { h with mCheckIdx := h.mCheckIdx + 1 }

/-- `parse_line`. -/
def parseLine (h : HttpServer) : Except Fault (LineStatus × HttpServer) :=
  parseLineLoop (h.mReadIdx - h.mCheckIdx) h

/-! ## The request line -/

/-- The method a token names; an unknown one leaves `m_method` as it is. -/
def methodOf (name : List UInt8) (old : Method) : Method :=
  if strcaseeq name (ascii "GET") then .get
  else if strcaseeq name (ascii "POST") then .post
  else if strcaseeq name (ascii "HEAD") then .head
  else if strcaseeq name (ascii "OPTIONS") then .options
  else old

/-- `parse_request` on the C string `t` at index `base`. -/
def parseRequest (h : HttpServer) (base : ℕ) (t : List UInt8) :
    Except Fault (HttpCode × HttpServer) :=
  match strpbrk t blank with
  | none => .ok (.badRequest, { h with mUrl := none })
  | some i => do
    let h ← h.poke (base + i)
    let h := { h with mMethod := methodOf (t.take i) h.mMethod }
    let u := i + 1 + strspn (t.drop (i + 1)) blank
    let h := { h with mUrl := some (h.ptr (base + u)) }
    match strpbrk (t.drop u) blank with
    | none => .ok (.badRequest, { h with mVersion := none })
    | some j => do
      let h ← h.poke (base + (u + j))
      let v := u + j + 1 + strspn (t.drop (u + j + 1)) blank
      let h := { h with mVersion := some (h.ptr (base + v)) }
      let url := (t.drop u).take j
      if !strcaseeq (t.drop v) (ascii "HTTP/1.1") then .ok (.badRequest, h)
      else if !strncaseeq url (ascii "http://") 7 then .ok (.badRequest, h)
      else
        match strchr (url.drop 7) 47 with
        | none => .ok (.badRequest, { h with mUrl := none })
        | some k => .ok (.noRequest, { h with
            mUrl := some (h.ptr (base + (u + 7 + k)))
            mCheckState := .header })

/-! ## Header lines and the content -/

/-- `parse_header` on the C string `t` at index `base`: the result of `strchr` is not checked. -/
def parseHeader (env : Env) (h : HttpServer) (base : ℕ) (t : List UInt8) :
    Except Fault (HttpCode × HttpServer) :=
  if t = [] then
    if 0 < h.mContentLength then .ok (.noRequest, { h with mCheckState := .content })
    else .ok (.getRequest, h)
  else
    match strchr t 58 with
    | none => .error .nullDeref
    | some i => do
      let h ← h.poke (base + i)
      match (parseHeaderFuncMap env).lookup (t.take i) with
      | none => .ok (.badRequest, h)
      | some handler => handler h (base + i + 1) (t.drop (i + 1))

/-- `parse_content`, with `text` at index `base`. -/
def parseContent (h : HttpServer) (base : ℕ) : Except Fault (HttpCode × HttpServer) :=
  if int32 (h.mContentLength + h.mCheckIdx) ≤ h.mReadIdx then
    let i := base + h.mContentLength
    if i < 0 then .error .readBuffer
    else do
      let h ← h.poke i.toNat
      .ok (.getRequest, h)
  else .ok (.noRequest, h)

/-! ## The file -/

/-- `m_filename` after the two `memcpy`; the second copies no NUL. -/
def fileName (h : HttpServer) (url : List UInt8) : Except Fault (Block UInt8 filenameLen) :=
  match (h.mFilename.write 0 localFileAddr).bind fun b => b.write 10 url with
  | none => .error .filename
  | some b => .ok b

/-- The part of `do_request` from `open` on. -/
def openFile (env : Env) (h : HttpServer) (path : List UInt8) : HttpCode × HttpServer :=
  if !env.openOk path then (.internalError, h)
  else
    match if h.mStat.stSize = 0 then none else env.mmap path with
    | none => (.internalError, { h with mFilePtr := .mapFailed })
    | some content =>
      let h := { h with
        mFilePtr := .mapped h.pkt content
        mContentLength := int32 h.mStat.stSize }
      if (h.mRangeStart ≠ 0 ∧ h.mRangeEnd ≠ 0) ∧
          ¬ (h.mRangeStart < 0 ∨ h.mStat.stSize < h.mRangeEnd) then
        (.partialContent,
          { h with mContentLength := int32 (h.mRangeEnd - h.mRangeStart + 1) })
      else (.fileRequest, h)

/-- The part of `do_request` from `stat` on, for the file `path`. -/
def statFile (env : Env) (h : HttpServer) (path : List UInt8) : HttpCode × HttpServer :=
  match env.stat path with
  | none => (.noResource, h)
  | some st =>
    let h := { h with mStat := st }
    if st.isDir then (.badRequest, h)
    else if !st.iroth then (.forbiddenRequest, h)
    else if h.mIfModifiedSinceTime ≠ 0 then
      if h.mIfModifiedSinceTime < st.stMtime then
        openFile env { h with mHeaderFuncVec := h.mHeaderFuncVec ++ [.ifModifiedSince] } path
      else (.notModified, h)
    else if h.mIfUnmodifiedSinceTime ≠ 0 ∧ h.mIfModifiedSinceTime < st.stMtime then
      (.preconditionFailed, h)
    else openFile env h path

/-- `do_request`. -/
def doRequest (env : Env) (h : HttpServer) : Except Fault (HttpCode × HttpServer) :=
  if h.mMethod = .options then .ok (.fileRequest, h)
  else do
    let url ← h.deref h.mUrl
    let name ← h.fileName url
    let h := { h with mFilename := name }
    match cstr name.cells 0 with
    | none => .error .filename
    | some path => .ok (statFile env h path)

/-! ## The loop -/

/-- What a parser's verdict means for the loop: go on, or return a code. -/
def verdict (env : Env) (r : HttpCode × HttpServer) :
    Except Fault (Option HttpCode × HttpServer) :=
  match r.1 with
  | .badRequest => .ok (some .badRequest, r.2)
  | .getRequest => do
    let q ← doRequest env r.2
    .ok (some q.1, q.2)
  | _ => .ok (none, r.2)

/-- The parser of the current state, on the line at index `base`. -/
def parseText (env : Env) (h : HttpServer) (base : ℕ) : Except Fault (HttpCode × HttpServer) :=
  match h.mCheckState with
  | .content => h.parseContent base
  | .requestLine =>
    match cstr h.mReadBuffer base with
    | none => .error .readBuffer
    | some t => h.parseRequest base t
  | .header =>
    match cstr h.mReadBuffer base with
    | none => .error .readBuffer
    | some t => parseHeader env h base t

/-- `m_start_idx = m_check_idx`. -/
def startNext (h : HttpServer) : HttpServer := { h with mStartIdx := h.mCheckIdx }

/-- `parse_line` and the parser of the current state; without a complete line, `BAD_REQUEST`. -/
def readText (env : Env) (h : HttpServer) : Except Fault (HttpCode × HttpServer) := do
  let (lineStatus, h) ← h.parseLine
  if lineStatus = .lineOk then parseText env h.startNext h.mStartIdx
  else .ok (.badRequest, h)

/-- One iteration of `process_read`: the code it returns, or none where the loop goes on. -/
def processReadIter (env : Env) (h : HttpServer) : Except Fault (Option HttpCode × HttpServer) := do
  let r ← readText env h
  verdict env r

/-- At most `n` iterations of `process_read`. -/
def processReadLoop (env : Env) : ℕ → HttpServer → Except Fault (HttpCode × HttpServer)
  | 0, h => .ok (.badRequest, h)
  | n + 1, h => do
    let (code, h) ← processReadIter env h
    match code with
    | some code => .ok (code, h)
    | none => processReadLoop env n h

/-- `process_read`. -/
def processRead (env : Env) (h : HttpServer) : Except Fault (HttpCode × HttpServer) :=
  processReadLoop env (h.mReadIdx - h.mCheckIdx + 1) h

end HttpServer

end ServerNginx
