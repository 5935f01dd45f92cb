import ServerNginx.Http.Read

set_option autoImplicit false

/-!
# Writing a response

`write_senddata` appends to `m_write_buffer`; the method functions build the response in it and set
up `m_iov`. `Business` reads a request, writes its response and fills in the packet header.
-/

namespace ServerNginx

open CString CNumber

/-- The bytes of a response body's explanation. -/
structure ErrorPage where
  status : ℤ
  title : List UInt8
  form : List UInt8

/-- `error_400_title` and `error_400_form`. -/
def error400 : ErrorPage :=
  ⟨400, ascii "Bad Request",
    ascii "Your request has bab syntax or is inherently impossible to satisfy.\n"⟩

/-- `error_403_title` and `error_403_form`. -/
def error403 : ErrorPage :=
  ⟨403, ascii "Forbidden", ascii "You do not have permission to get file from this server.\n"⟩

/-- `error_404_title` and `error_404_form`. -/
def error404 : ErrorPage :=
  ⟨404, ascii "Not Found", ascii "The request file was not fount on this server.\n"⟩

/-- `error_412_title` and `error_412_form`. -/
def error412 : ErrorPage :=
  ⟨412, ascii "Precondition Failed",
    ascii "One or more preconditions specified in the request header(s) could not be satisfied"⟩

/-- `error_500_title` and `error_500_form`. -/
def error500 : ErrorPage :=
  ⟨500, ascii "Internal Error",
    ascii "There was an unusual problem serving ths requested file.\n"⟩

namespace HttpServer

variable (env : Env) (h : HttpServer)

/-- `write_senddata` of the bytes of one argument. -/
def writeSenddata (h : HttpServer) (data : List UInt8) : Except Fault HttpServer :=
  if h.mWriteBuffer.length + data.length ≤ writeBufferSize then
    .ok { h with mWriteBuffer := h.mWriteBuffer ++ data }
  else .error .writeBuffer

/-- `add_senddata`. -/
def addSenddata : HttpServer → List (List UInt8) → Except Fault HttpServer
  | h, [] => .ok h
  | h, d :: ds => do
    let h ← h.writeSenddata d
    addSenddata h ds

/-- The end of a line. -/
def crlf : List UInt8 := [cr, lf]

/-- `add_status_line`. -/
def addStatusLine (status : ℤ) (title : List UInt8) : Except Fault HttpServer :=
  h.addSenddata [ascii "HTTP/1.1 ", stdToString status, ascii " ", title, crlf]

/-- `add_blank_line`. -/
def addBlankLine : Except Fault HttpServer := h.addSenddata [crlf]

/-- `add_date`. -/
def addDate : Except Fault HttpServer :=
  h.addSenddata [ascii "Date: ", env.strtime env.dateTime, crlf]

/-- `add_content`. -/
def addContent (text : List UInt8) : Except Fault HttpServer := h.addSenddata [text]

/-- `add_headers`. -/
def addHeaders (text : List UInt8) : Except Fault HttpServer := do
  let h ← h.addSenddata [ascii "Connect-Length: ", stdToString text.length, crlf]
  h.addBlankLine

/-- `get_cookie_value`. -/
def getCookieValue (env : Env) (text : List UInt8) : List UInt8 :=
  stdToString env.cookieTime ++ text

/-- `add_cookie`. The character `'='` is written by `std::to_string`, as the number 61. -/
def addCookie (cookieName : List UInt8) (expirse : ℤ) (path domain : List UInt8) :
    Except Fault HttpServer := do
  let h ← h.addSenddata [ascii "Set-Cookie: "]
  let h ← h.addSenddata
    [cookieName, stdToString 61, getCookieValue env (ascii "zyf"), ascii "; "]
  let h ← h.addSenddata [ascii "expirse=", env.strtime (env.expireTime + expirse), ascii "; "]
  let h ← h.addSenddata [ascii "path=", path, ascii "; "]
  h.addSenddata [ascii "domain=", domain, crlf]

/-- `if(m_cookie_value == nullptr) add_cookie(...)` of `GET_func`. -/
def addSid : Except Fault HttpServer :=
  if h.mCookieValue = none then
    h.addCookie env (ascii "sid") 300 (ascii "/") (ascii "192.168.138.135")
  else .ok h

/-- `if_modified_since_func`. -/
def ifModifiedSince : Except Fault HttpServer :=
  h.addSenddata [ascii "Last-Modified: ", env.strtime h.mStat.stMtime, crlf]

/-- `range`. -/
def range : Except Fault HttpServer :=
  if ¬ (h.mRangeStart < 0 ∨ h.mStat.stSize < h.mRangeEnd) then
    h.addSenddata [ascii "Accept: bytes ", stdToString h.mRangeStart, ascii "-",
      stdToString h.mRangeEnd, ascii "\\",
      stdToString (int32 (h.mRangeEnd - h.mRangeStart + 1)), crlf]
  else
    { h with mRangeStart := 0, mRangeEnd := int32 h.mStat.stSize }.addSenddata
      [ascii "Accept: none", crlf]

/-- A callback of `m_header_func_vec`. -/
def callback : HttpServer → Callback → Except Fault HttpServer
  | h, .ifModifiedSince => h.ifModifiedSince env
  | h, .range => h.range

/-- `for(auto it : m_header_func_vec) it();` -/
def callbacks : HttpServer → List Callback → Except Fault HttpServer
  | h, [] => .ok h
  | h, f :: fs => do
    let h ← callback env h f
    callbacks h fs

/-- An `int` turned into a `size_t`. -/
def sizeT (n : ℤ) : ℕ := (n % 2 ^ 64).toNat

/-- `m_iov[1]` for the response head, and `m_iov_count`. -/
def iovHead (count : ℕ) : HttpServer :=
  { h with mIov := h.mIov.set 1 ⟨.writeBuffer, h.mWriteBuffer.length⟩, mIovCount := count }

/-- `m_iov[2]` for `len` bytes from offset `off` of the file on. -/
def iovBody (off len : ℤ) : HttpServer :=
  { h with mIov := h.mIov.set 2 ⟨.file h.mFilePtr off, sizeT len⟩ }

/-- The case of `GET_func` for an error with an explanation. -/
def errorResponse (page : ErrorPage) : Except Fault HttpServer := do
  let h ← h.addStatusLine page.status page.title
  let h ← h.addHeaders page.form
  let h ← h.addContent page.form
  .ok (h.iovHead 2)

/-- `GET_func`. -/
def getFunc : HttpCode → Except Fault HttpServer
  | .badRequest => h.errorResponse error400
  | .internalError => h.errorResponse error500
  | .noResource => h.errorResponse error404
  | .forbiddenRequest => h.errorResponse error403
  | .fileRequest => do
    let h ← h.addStatusLine 200 (ascii "OK")
    let h ← h.addDate env
    let h ← h.addSenddata [ascii "Connect-Length: ", stdToString h.mContentLength, crlf]
    let h ← h.addSid env
    let h ← callbacks env h h.mHeaderFuncVec
    let h ← h.addBlankLine
    .ok ((h.iovBody 0 h.mContentLength).iovHead 3)
  | .notModified => do
    let h ← h.addStatusLine 304 (ascii "Not Modified")
    .ok (h.iovHead 2)
  | .preconditionFailed => do
    let h ← h.addStatusLine error412.status error412.title
    let h ← h.addContent error412.form
    .ok (h.iovHead 2)
  | .partialContent => do
    let h ← h.addStatusLine 206 (ascii "Partial Content")
    let h ← h.addDate env
    let h ← h.addSenddata [ascii "Connect-Length: ",
      stdToString (int32 (h.mRangeEnd - h.mRangeStart + 1)), crlf]
    let h ← callbacks env h h.mHeaderFuncVec
    let h ← h.addBlankLine
    .ok ((h.iovBody h.mRangeStart (int32 (h.mRangeEnd - h.mRangeStart + 1))).iovHead 3)
  | _ => .ok (h.iovHead 2)

/-- `HEAD_func`: the same response for every code. -/
def headFunc : Except Fault HttpServer := do
  let timebuf := env.strtime h.mStat.stMtime
  let h ← h.addStatusLine 200 (ascii "OK")
  let h ← h.addDate env
  let h ← h.addSenddata [ascii "Allow: ", ascii "GET, POST, HEAD, OPTIONS", crlf]
  let h ← h.addSenddata [ascii "Content-Length: ", stdToString h.mContentLength, crlf]
  let h ← h.addSenddata [ascii "Last-Modified: ", timebuf, crlf]
  let h ← h.addSenddata [ascii "Server: ", ascii "Test1.0", crlf]
  let h ← h.addSenddata [ascii "Accept: bytes", crlf]
  let h ← h.addBlankLine
  .ok (h.iovHead 2)

/-- `OPTIONS_func`: the same response for every code. -/
def optionsFunc : Except Fault HttpServer := do
  let h ← h.addStatusLine 200 (ascii "OK")
  let h ← h.addDate env
  let h ← h.addSenddata [ascii "Allow: ", ascii "GET, POST, HEAD, OPTIONS", crlf]
  let h ← h.addBlankLine
  .ok (h.iovHead 2)

/-- `process_write`; `POST_func` does nothing, and methods the map does not hold have no
function. -/
def processWrite (code : HttpCode) : Except Fault HttpServer :=
  match h.mMethod with
  | .get => h.getFunc env code
  | .post => .ok h
  | .head => h.headFunc env
  | .options => h.optionsFunc env
  | _ => .error .nullDeref

/-- `strlen(m_write_buffer)`. -/
def writeLen : Except Fault ℕ :=
  if (0 : UInt8) ∈ h.mWriteBuffer ∨ h.mWriteBuffer.length < writeBufferSize then
    .ok (h.mWriteBuffer.takeWhile (· ≠ 0)).length
  else .error .writeBuffer

/-- What `Business` leaves behind: the code `process_read` returned, the `pkgLen` it wrote (and
stored in `isendlen`) and the object. -/
structure Reply where
  code : HttpCode
  pkgLen : ℕ
  obj : HttpServer
  deriving DecidableEq

/-- The part of `Business` behind `process_read`, on the eight bytes `pkgHeader`. -/
def reply (pkgHeader : List UInt8) (code : HttpCode) (h : HttpServer) : Except Fault Reply := do
  let h ← h.processWrite env code
  let len ← h.writeLen
  let pkgLen := ((len + h.mContentLength + 8) % 2 ^ 16).toNat
  let header := [pkgLen.toUInt8, (pkgLen / 256).toUInt8] ++ pkgHeader.drop 2
  .ok ⟨code, pkgLen, { h with mIov := h.mIov.set 0 ⟨.pkgHeader header, 8⟩ }⟩

/-- `Business`, on the header and the body of a packet. -/
def business (pkgHeader body : List UInt8) : Except Fault Reply := do
  let (code, h) ← processRead env (h.receive body)
  reply env pkgHeader code h

/-- The bytes of an `m_iov` segment, if they all exist. -/
def segment (v : Iovec) : Option (List UInt8) :=
  match v.iovBase with
  | .unset => none
  | .pkgHeader bytes => if v.iovLen ≤ bytes.length then some (bytes.take v.iovLen) else none
  | .writeBuffer =>
    if v.iovLen ≤ h.mWriteBuffer.length then some (h.mWriteBuffer.take v.iovLen) else none
  | .file (.mapped _ content) off =>
    if 0 ≤ off ∧ off + v.iovLen ≤ content.length then
      some ((content.drop off.toNat).take v.iovLen)
    else none
  | .file _ _ => none

end HttpServer

end ServerNginx
