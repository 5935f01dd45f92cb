import ServerNginx.Lib.Block
import ServerNginx.Lib.CNumber

set_option autoImplicit false

/-!
# HttpServer objects

The members of `HttpServer`, its constructor and the world its requests see. A member function is
a function to `Except Fault`: a fault is an access the code has no right to make, or an exception
that no member function catches. In a thread of the pool `std::packaged_task` keeps such an
exception, and the thread ends.

`m_read_buffer` points into the packet being processed. Packets are numbered, and a pointer kept
from one packet to the next says which packet it points into.
-/

namespace ServerNginx

open CString CNumber

/-- `METHOD`. -/
inductive Method
  | get
  | post
  | head
  | put
  | delete
  | trace
  | options
  | connect
  | patch
  deriving DecidableEq, Repr

/-- `HTTP_CODE`. -/
inductive HttpCode
  | noRequest
  | getRequest
  | badRequest
  | noResource
  | forbiddenRequest
  | fileRequest
  | internalError
  | closedConnection
  | notModified
  | partialContent
  | preconditionFailed
  | responseSuccessful
  deriving DecidableEq, Repr

/-- `LINE_STATUS`. -/
inductive LineStatus
  | lineOk
  | lineBad
  | lineOpen
  deriving DecidableEq, Repr

/-- `CHECK_STATE`. -/
inductive CheckState
  | requestLine
  | header
  | content
  deriving DecidableEq, Repr

/-- What ends a member function early. -/
inductive Fault
  /-- a null pointer is dereferenced -/
  | nullDeref
  /-- an exception of `std::stoi` or `std::stof` -/
  | conv (e : ConvError)
  /-- a write, or a read of `parse_line`, outside the packet body `m_read_buffer` points to -/
  | readBuffer
  /-- a C string behind a pointer into the packet body that runs past its end -/
  | overread
  /-- an access through a pointer into a packet that has been freed -/
  | dangling
  /-- an access outside `m_filename` -/
  | filename
  /-- an access outside `m_write_buffer` -/
  | writeBuffer
  deriving DecidableEq, Repr

/-- A conversion that may throw. -/
def throwing {α : Type} : Except ConvError α → Except Fault α
  | .ok a => .ok a
  | .error e => .error (.conv e)

/-- A pointer into the body of packet number `pkt`. -/
structure Ptr where
  pkt : ℕ
  off : ℕ
  deriving DecidableEq, Repr

/-- The part of `struct stat` the code looks at. -/
structure Stat where
  stSize : ℤ
  stMtime : ℤ
  isDir : Bool
  iroth : Bool
  deriving DecidableEq, Repr

/-- `m_file_ptr`: null, `MAP_FAILED`, or a mapping with the bytes it shows. -/
inductive FilePtr
  | null
  | mapFailed
  | mapped (id : ℕ) (content : List UInt8)
  deriving DecidableEq, Repr

/-- `iov_base`: never set, the packet header, `m_write_buffer`, or an offset from `m_file_ptr`. -/
inductive IovBase
  | unset
  | pkgHeader (bytes : List UInt8)
  | writeBuffer
  | file (p : FilePtr) (off : ℤ)
  deriving DecidableEq, Repr

/-- `struct iovec`. -/
structure Iovec where
  iovBase : IovBase
  iovLen : ℕ
  deriving DecidableEq, Repr

/-- The callbacks of `m_header_func_vec`. -/
inductive Callback
  | ifModifiedSince
  | range
  deriving DecidableEq, Repr

/-- `std::map<float, std::string, std::greater<float>>`, in its order. -/
abbrev WeightMap := List (F32 × List UInt8)

/-- `WRITE_BUFFER_SIZE`. -/
def writeBufferSize : ℕ := 4096

/-- `FILENAME_LEN`. -/
def filenameLen : ℕ := 200

/-- `TIME_BUFFER_SIZE`. -/
def timeBufferSize : ℕ := 30

/-- The world a request sees: the file system, the clock readings of its response, and the
conversions of times to and from text. -/
structure Env where
  stat : List UInt8 → Option Stat
  openOk : List UInt8 → Bool
  /-- the bytes of a non-empty file, if it can be mapped -/
  mmap : List UInt8 → Option (List UInt8)
  /-- `time(NULL)` in `add_date` -/
  dateTime : ℤ
  /-- `time(NULL)` in `add_cookie` -/
  expireTime : ℤ
  /-- `time(NULL)` in `get_cookie_value` -/
  cookieTime : ℤ
  /-- `time_t_convert_strtime` -/
  strtime : ℤ → List UInt8
  strtime_length : ∀ t, (strtime t).length < timeBufferSize
  strtime_nul : ∀ t, (0 : UInt8) ∉ strtime t
  /-- `strtime_convert_time_t` -/
  timeOfStr : List UInt8 → ℤ

/-- A world without files, in which it is always the epoch and times have no text. -/
def Env.noFiles : Env where
  stat := fun _ => none
  openOk := fun _ => false
  mmap := fun _ => none
  dateTime := 0
  expireTime := 0
  cookieTime := 0
  strtime := fun _ => []
  strtime_length := fun _ => by decide
  strtime_nul := fun _ => by simp
  timeOfStr := fun _ => 0

/-- `HttpServer`. -/
structure HttpServer where
  mStartIdx : ℕ
  mCheckIdx : ℕ
  mReadIdx : ℕ
  mCheckState : CheckState
  mMethod : Method
  mFilePtr : FilePtr
  mUrl : Option Ptr
  mVersion : Option Ptr
  mCookieName : Option Ptr
  mCookieValue : Option Ptr
  mHost : Option Ptr
  mETag : Option Ptr
  mRangeStart : ℤ
  mRangeEnd : ℤ
  mContentLength : ℤ
  mIfModifiedSinceTime : ℤ
  mIfUnmodifiedSinceTime : ℤ
  /-- the `m_write_idx` bytes written; those behind are as `bzero` left them -/
  mWriteBuffer : List UInt8
  mReadBuffer : List UInt8
  /-- the number of the packet `m_read_buffer` points into -/
  pkt : ℕ
  mFilename : Block UInt8 filenameLen
  mIov : List Iovec
  mIovCount : ℕ
  mStat : Stat
  mHeaderFuncVec : List Callback
  acceptMap : WeightMap
  acceptCharsetMap : WeightMap
  acceptEncodingMap : WeightMap
  acceptLanguageMap : WeightMap
  mKeeplive : Bool
  deriving DecidableEq

/-- What the constructor leaves as it finds it. -/
structure Uninit where
  mIov1 : Iovec
  mIov2 : Iovec
  mStat : Stat
  mKeeplive : Bool
  deriving DecidableEq

/-- Memory that was zero. -/
def Uninit.zero : Uninit := ⟨⟨.unset, 0⟩, ⟨.unset, 0⟩, ⟨0, 0, false, false⟩, false⟩

namespace HttpServer

/-- `HttpServer::HttpServer` with `init`; `m_keeplive` is not set, as `init` declares a local
variable of that name. -/
def new (u : Uninit) : HttpServer where
  mStartIdx := 0
  mCheckIdx := 0
  mReadIdx := 0
  mCheckState := .requestLine
  mMethod := .get
  mFilePtr := .null
  mUrl := none
  mVersion := none
  mCookieName := none
  mCookieValue := none
  mHost := none
  mETag := none
  mRangeStart := 0
  mRangeEnd := 0
  mContentLength := 0
  mIfModifiedSinceTime := 0
  mIfUnmodifiedSinceTime := 0
  mWriteBuffer := []
  mReadBuffer := []
  pkt := 0
  mFilename := .fill filenameLen 0
  mIov := [⟨.unset, 0⟩, u.mIov1, u.mIov2]
  mIovCount := 0
  mStat := u.mStat
  mHeaderFuncVec := []
  acceptMap := []
  acceptCharsetMap := []
  acceptEncodingMap := []
  acceptLanguageMap := []
  mKeeplive := u.mKeeplive

variable (h : HttpServer)

/-- A pointer into the current packet. -/
def ptr (off : ℕ) : Ptr := ⟨h.pkt, off⟩

/-- `m_read_buffer[i] = '\0'`. -/
def poke (i : ℕ) : Except Fault HttpServer :=
  if i < h.mReadBuffer.length then .ok { h with mReadBuffer := h.mReadBuffer.set i 0 }
  else .error .readBuffer

/-- The C string a pointer into `m_read_buffer` leads to. -/
def deref : Option Ptr → Except Fault (List UInt8)
  | none => .error .nullDeref
  | some p =>
    if p.pkt ≠ h.pkt then .error .dangling
    else
      match cstr h.mReadBuffer p.off with
      | none => .error .overread
      | some t => .ok t

/-- Point `m_read_buffer` at the body of the next packet. -/
def receive (body : List UInt8) : HttpServer :=
  { h with mReadBuffer := body, mReadIdx := body.length, pkt := h.pkt + 1 }

end HttpServer

end ServerNginx
