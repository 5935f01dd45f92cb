import Mathlib.Tactic
import ServerNginx.Lib.Block
import ServerNginx.Net.Comm

set_option autoImplicit false

/-!
# Connections of the socket layer

The part of `ngx_connection_s` that the socket layer reads and writes, the message header put in
front of a received packet, the settings read by `CSocket::ReadConf` and `CSocket::TestFlood`.
The send side of a connection (`psendbuf`, `isendlen`, `logicPorcMutex`) belongs to the dispatcher.
-/

namespace ServerNginx

/-- The address of a connection object: element `idx` behind the start of pool block `block`. -/
structure Addr where
  block : ℕ
  idx : ℕ
  deriving DecidableEq, Repr

/-- The receive states `_PKG_HD_INIT`, `_PKG_HD_RECVING`, `_PKG_BD_INIT`, `_PKG_BD_RECVING`. -/
inductive CurStat
  | pkgHdInit
  | pkgHdRecving
  | pkgBdInit
  | pkgBdRecving
  deriving DecidableEq, Repr

/-- A byte of heap memory; `none` has never been written. -/
abbrev Cell := Option UInt8

/-- `STRUC_MSG_HEADER`: the connection a message came from and its sequence number then. -/
structure StrucMsgHeader where
  pConn : Addr
  iCurrsequence : UInt64
  deriving DecidableEq, Repr

/-- A received message in one heap block: message header, then packet header and body. -/
structure Msg where
  header : StrucMsgHeader
  pkg : List Cell
  deriving DecidableEq, Repr

/-- The size of the heap block of a message. -/
def Msg.size (m : Msg) : ℕ := iLenMsgHeader + m.pkg.length

/-- Where `precvbuf` points. -/
inductive RecvPtr
  | null
  | dataHeadInfo (off : ℕ)
  | mem (off : ℕ)
  deriving DecidableEq, Repr

/-- `ngx_connection_s`, without the send side. `FloodAttackCount` is an `int`: C++ leaves its
overflow undefined, here it wraps around. -/
structure Connection where
  fd : ℤ
  iCurrsequence : UInt64
  logicObj : Option ℕ
  curStat : CurStat
  dataHeadInfo : Block UInt8 dataBufSize
  precvbuf : RecvPtr
  irecvlen : ℕ
  precvMemPointer : Option Msg
  lastPingTime : ℤ
  storePingTime : ℤ
  floodkickLastTime : UInt64
  floodAttackCount : Int32
  next : Option Addr
  deriving DecidableEq

/-- A connection object cleared by `bzero`. -/
def Connection.zero : Connection where
  fd := 0
  iCurrsequence := 0
  logicObj := none
  curStat := .pkgHdInit
  dataHeadInfo := .fill dataBufSize 0
  precvbuf := .null
  irecvlen := 0
  precvMemPointer := none
  lastPingTime := 0
  storePingTime := 0
  floodkickLastTime := 0
  floodAttackCount := 0
  next := none

/-- The receive state `ngx_event_accept` gives a connection just taken from the pool. -/
def Connection.initRecv (c : Connection) : Connection :=
  { c with
    curStat := .pkgHdInit
    irecvlen := iLenPkgHeader
    precvbuf := .dataHeadInfo 0
    precvMemPointer := none
    floodAttackCount := 0 }

/-- A freshly accepted connection on descriptor `fd`. -/
def Connection.accepted (fd : ℤ) (seq : UInt64) (obj : ℕ) : Connection :=
  { Connection.zero with fd := fd, iCurrsequence := seq, logicObj := some obj }.initRecv

/-- `m_ETflag`. -/
inductive ETFlag
  | etClose
  | etOpen
  deriving DecidableEq, Repr

/-- The settings of `CSocket::ReadConf`. -/
structure Conf where
  mWorkerConnections : ℤ
  mETflag : ETFlag
  mFloodAkEnable : ℤ
  mFloodTimeInterval : ℤ
  mFloodKickCount : Int32
  deriving DecidableEq, Repr

/-- `m_connection_n_max`, as `ReadConf` computes it (C division truncates). The source adds `int`s:
values of `worker_connections` from 1431655766 on, where that sum overflows, are left out. -/
def Conf.mConnectionNMax (cfg : Conf) : ℤ :=
  cfg.mWorkerConnections + cfg.mWorkerConnections.tdiv 2

/-- `CSocket::TestFlood` at clock reading `timeNow`: the new counters and the verdict. The
difference and the comparison are unsigned 64-bit; `m_floodAkEnable` is not looked at. -/
def testFlood (cfg : Conf) (timeNow : UInt64) (c : Connection) : Connection × Bool :=
  let c' :=
    if timeNow - c.floodkickLastTime < UInt64.ofInt cfg.mFloodTimeInterval then
      { c with floodAttackCount := c.floodAttackCount + 1, floodkickLastTime := timeNow }
    else { c with floodAttackCount := 0, floodkickLastTime := timeNow }
  (c', decide (c'.floodAttackCount = cfg.mFloodKickCount))

/-! ### `TestFlood` touches the flood counters only -/

section TestFlood

variable (cfg : Conf) (now : UInt64) (c : Connection)

@[simp] theorem testFlood_fd : (testFlood cfg now c).1.fd = c.fd := by
  unfold testFlood; split_ifs <;> rfl

@[simp] theorem testFlood_iCurrsequence :
    (testFlood cfg now c).1.iCurrsequence = c.iCurrsequence := by
  unfold testFlood; split_ifs <;> rfl

@[simp] theorem testFlood_precvMemPointer :
    (testFlood cfg now c).1.precvMemPointer = c.precvMemPointer := by
  unfold testFlood; split_ifs <;> rfl

@[simp] theorem testFlood_precvbuf : (testFlood cfg now c).1.precvbuf = c.precvbuf := by
  unfold testFlood; split_ifs <;> rfl

@[simp] theorem testFlood_irecvlen : (testFlood cfg now c).1.irecvlen = c.irecvlen := by
  unfold testFlood; split_ifs <;> rfl

end TestFlood

end ServerNginx
