import ServerNginx.Lib.Run
import ServerNginx.Net.Connection

set_option autoImplicit false

/-!
# The two receivers

`ngxReadRequestHandler` is the LT handler, run once for every readable event; `recvprocET` is the
loop of the ET task. Both are given the successful reads of `recvproc`: a read is a clock reading
(used if `TestFlood` is called) and the bytes `recv` put at `precvbuf`. The result is `none` where
those bytes do not fit behind `precvbuf`.

A receiver reports the messages it passes to `threadRecvProcFunc` (queued in LT mode, called in ET
mode) and whether it kicked the connection as a flood.
-/

namespace ServerNginx

/-- A successful `recv`. -/
structure Read where
  now : UInt64
  data : List UInt8
  deriving DecidableEq, Repr

/-- What a receiver does besides changing the connection. -/
inductive RecvEv
  | msg (m : Msg)
  | kick
  deriving DecidableEq, Repr

variable (cfg : Conf) (self : Addr)

/-- `recv` fills the memory at `precvbuf`. -/
def Connection.fill (c : Connection) (data : List UInt8) : Option Connection :=
  match c.precvbuf, c.precvMemPointer with
  | .dataHeadInfo off, _ =>
    (c.dataHeadInfo.write off data).map fun b => { c with dataHeadInfo := b }
  | .mem off, some m =>
    if off < iLenMsgHeader then none
    else (Block.writeAt m.pkg (off - iLenMsgHeader) (data.map some)).map fun p =>
      { c with precvMemPointer := some { m with pkg := p } }
  | .mem _, none => none
  | .null, _ => none

/-- `precvbuf += ret`. -/
def RecvPtr.advance (ret : ℕ) : RecvPtr → RecvPtr
  | .null => .null
  | .dataHeadInfo off => .dataHeadInfo (off + ret)
  | .mem off => .mem (off + ret)

/-- Ready for the next packet header. -/
def Connection.resetHead (c : Connection) : Connection :=
  { c with curStat := .pkgHdInit, irecvlen := iLenPkgHeader, precvbuf := .dataHeadInfo 0 }

/-- The block `AllocMemory` returns for a packet, with the message header filled in and the packet
header copied: the body is uninitialised. -/
def Connection.newMsg (c : Connection) (ePkgLen : ℕ) : Msg where
  header := ⟨self, c.iCurrsequence⟩
  pkg := (c.dataHeadInfo.cells.take iLenPkgHeader).map some ++
    List.replicate (ePkgLen - iLenPkgHeader) none

/-- `precvbuf` and `precvMemPointer` at the start of a new block. -/
def Connection.attach (c : Connection) (m : Msg) : Connection :=
  { c with precvbuf := .mem 0, precvMemPointer := some m }

/-- `ngx_free_con_self`, as far as the receiver sees it: the socket is closed. -/
def Connection.kicked (c : Connection) : Connection := { c with fd := -1 }

/-! ## LT mode -/

/-- `ngx_wait_request_handler_proc_plast`. -/
def ngxWaitRequestHandlerProcPlast (c : Connection) : Connection × List RecvEv :=
  ({ c with
    precvMemPointer := none
    curStat := .pkgHdInit
    precvbuf := .dataHeadInfo 0
    irecvlen := iLenPkgHeader }, (c.precvMemPointer.map RecvEv.msg).toList)

/-- `ngx_wait_request_handler_proc_p1`, with `floodflag`. -/
def ngxWaitRequestHandlerProcP1 (now : UInt64) (c : Connection) :
    Connection × List RecvEv × Bool :=
  let ePkgLen := pkgLen c.dataHeadInfo.cells
  if pkgMaxLength - 1000 < ePkgLen then (c.resetHead, [], false)
  else if ePkgLen < iLenPkgHeader then (c.resetHead, [], false)
  else
    let c := c.attach (c.newMsg self ePkgLen)
    if ePkgLen = iLenPkgHeader then
      let (c, floodflag) := testFlood cfg now c
      if floodflag then (c, [], true)
      else
        let (c, evs) := ngxWaitRequestHandlerProcPlast c
        (c, evs, false)
    else
      ({ c with
        curStat := .pkgBdInit
        precvbuf := .mem (iLenMsgHeader + iLenPkgHeader)
        irecvlen := ePkgLen - iLenPkgHeader }, [], false)

/-- `ngx_read_request_handler`, for a `recvproc` that returned `ret > 0`. -/
def ngxReadRequestHandler (c : Connection) (rd : Read) : Option (Connection × List RecvEv) :=
  (c.fill rd.data).map fun c =>
    let ret := rd.data.length
    match c.curStat with
    | .pkgHdInit =>
      if ret = iLenPkgHeader then
        let (c, evs, floodflag) := ngxWaitRequestHandlerProcP1 cfg self rd.now c
        if floodflag then (c.kicked, evs ++ [.kick]) else (c, evs)
      else
        ({ c with
          curStat := .pkgHdRecving
          precvbuf := c.precvbuf.advance ret
          irecvlen := c.irecvlen - ret }, [])
    | .pkgHdRecving =>
      if c.irecvlen = ret then
        let (c, evs, floodflag) := ngxWaitRequestHandlerProcP1 cfg self rd.now c
        if floodflag then (c.kicked, evs ++ [.kick]) else (c, evs)
      else
        ({ c with precvbuf := c.precvbuf.advance ret, irecvlen := c.irecvlen - ret }, [])
    | .pkgBdInit =>
      let (c, floodflag) := testFlood cfg rd.now c
      if floodflag then (c.kicked, [.kick])
      else if c.irecvlen = ret then ngxWaitRequestHandlerProcPlast c
      else
        ({ c with
          curStat := .pkgBdRecving
          precvbuf := c.precvbuf.advance ret
          irecvlen := c.irecvlen - ret }, [])
    | .pkgBdRecving =>
      if c.irecvlen = ret then ngxWaitRequestHandlerProcPlast c
      -- the count is set to what was read, not lowered by it
      else ({ c with precvbuf := c.precvbuf.advance ret, irecvlen := ret }, [])

/-! ## ET mode -/

/-- `ngx_wait_request_handler_proc_plast_ET`. -/
def ngxWaitRequestHandlerProcPlastET (c : Connection) : Connection × List RecvEv :=
  ({ c with
    precvMemPointer := none
    curStat := .pkgHdInit
    precvbuf := .dataHeadInfo 0
    irecvlen := iLenPkgHeader }, (c.precvMemPointer.map RecvEv.msg).toList)

/-- `ngx_wait_request_handler_proc_p1_ET`, with `readflag` and `floodflag`. -/
def ngxWaitRequestHandlerProcP1ET (now : UInt64) (c : Connection) :
    Connection × List RecvEv × Bool × Bool :=
  let ePkgLen := pkgLen c.dataHeadInfo.cells
  if pkgMaxLength - 1000 < ePkgLen then (c.resetHead, [], false, false)
  else if ePkgLen < iLenPkgHeader then (c.resetHead, [], false, false)
  else
    let c := c.attach (c.newMsg self ePkgLen)
    if ePkgLen = iLenPkgHeader then
      let (c, floodflag) := testFlood cfg now c
      if floodflag then (c, [], false, true)
      else
        let (c, evs) := ngxWaitRequestHandlerProcPlastET c
        (c, evs, true, false)
    else
      ({ c with
        curStat := .pkgBdInit
        precvbuf := .mem (iLenMsgHeader + iLenPkgHeader)
        irecvlen := ePkgLen - iLenPkgHeader }, [], false, false)

/-- How an iteration of the ET loop leaves it: `stop` for `flag` set or a `break`. -/
structure ETIter where
  conn : Connection
  evs : List RecvEv
  stop : Bool
  floodflag : Bool

/-- One iteration of the loop of `recvproc_ET`, for a `recvproc` that returned `ret > 0`. -/
def recvprocETIter (c : Connection) (rd : Read) : Option ETIter :=
  (c.fill rd.data).map fun c =>
    let ret := rd.data.length
    match c.curStat with
    | .pkgHdInit =>
      if ret = iLenPkgHeader then
        let (c, evs, flag, floodflag) := ngxWaitRequestHandlerProcP1ET cfg self rd.now c
        ⟨c, evs, flag, floodflag⟩
      else
        ⟨{ c with
          curStat := .pkgHdRecving
          precvbuf := c.precvbuf.advance ret
          irecvlen := c.irecvlen - ret }, [], false, false⟩
    | .pkgHdRecving =>
      if c.irecvlen = ret then
        let (c, evs, flag, floodflag) := ngxWaitRequestHandlerProcP1ET cfg self rd.now c
        ⟨c, evs, flag, floodflag⟩
      else
        ⟨{ c with precvbuf := c.precvbuf.advance ret, irecvlen := c.irecvlen - ret }, [],
          false, false⟩
    | .pkgBdInit =>
      let (c, floodflag) := testFlood cfg rd.now c
      if floodflag then ⟨c, [], true, true⟩
      else if c.irecvlen = ret then
        let (c, evs) := ngxWaitRequestHandlerProcPlastET c
        ⟨c, evs, true, false⟩
      else
        ⟨{ c with
          curStat := .pkgBdRecving
          precvbuf := c.precvbuf.advance ret
          irecvlen := c.irecvlen - ret }, [], false, false⟩
    | .pkgBdRecving =>
      if c.irecvlen = ret then
        let (c, evs) := ngxWaitRequestHandlerProcPlastET c
        ⟨c, evs, true, false⟩
      -- the count is set to what was read, not lowered by it
      else ⟨{ c with precvbuf := c.precvbuf.advance ret, irecvlen := ret }, [], false, false⟩

/-- What an iteration reports once the code behind the loop has run. -/
def ETIter.finish (r : ETIter) : Connection × List RecvEv :=
  if r.floodflag then (r.conn.kicked, r.evs ++ [.kick]) else (r.conn, r.evs)

/-- `recvproc_ET` on the reads its `recv` calls return: the connection and the events when the
task ends, with the reads it has not made. -/
def recvprocET : Connection → List Read → Option (Connection × List RecvEv × List Read)
  | c, [] => some (c, [], [])
  | c, rd :: rds => (recvprocETIter cfg self c rd).bind fun r =>
    if r.stop || r.floodflag then some (r.finish.1, r.finish.2, rds)
    else (recvprocET r.conn rds).map fun p => (p.1, r.evs ++ p.2.1, p.2.2)

/-- A single read of the ET receiver, its loop entered again whenever it has ended. -/
def recvprocETStep (c : Connection) (rd : Read) : Option (Connection × List RecvEv) :=
  (recvprocETIter cfg self c rd).map ETIter.finish

end ServerNginx
