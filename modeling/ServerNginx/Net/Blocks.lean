import ServerNginx.Lib.Custody
import ServerNginx.Net.Effect
import ServerNginx.Net.Response

set_option autoImplicit false

/-!
# The blocks of received messages

`ngx_wait_request_handler_proc_p1` and `_p1_ET` allocate a block for every packet. The receive state
of the connection shows it in `precvMemPointer` until the packet is complete; then it goes to
`threadRecvProcFunc`, as a task in LT mode, by a call from `recvproc_ET` in ET mode. `sendMsg` and
`sendRemainMsg` free what `psendMemPointer` shows, which is a block of `_HandlePing` always.

* `received`: a read up to the call of `plast`, with the allocation;
* `Blocks.step`: a worker process and its blocks, where the threads of the pool take turns between
  `recv`, the tests of `threadRecvProcFunc`, the handler, `FreeMemory` and the end of `plast_ET`.
  Where `Business` throws, its thread ends in the handler, behind `FreeMemory` and the lock;
* `Blocks.FreedOnce`: every block is freed once.
-/

namespace ServerNginx

/-! ## Receiving -/

/-- How a read leaves the receiver: the packet is incomplete, `TestFlood` kicks the connection, or
`ngx_wait_request_handler_proc_plast` is called. -/
inductive ReadNext
  | more
  | kick
  | plast
  deriving DecidableEq

/-- The connection after a read, up to there, and whether `AllocMemory` was called. -/
structure Received where
  conn : Connection
  allocated : Bool
  next : ReadNext

section Receiving

variable (cfg : Conf) (self : Addr)

/-- `ngx_wait_request_handler_proc_p1` and `_p1_ET`; they differ in `readflag` only. -/
def procP1Received (now : UInt64) (c : Connection) : Received :=
  let ePkgLen := pkgLen c.dataHeadInfo.cells
  if pkgMaxLength - 1000 < ePkgLen then ⟨c.resetHead, false, .more⟩
  else if ePkgLen < iLenPkgHeader then ⟨c.resetHead, false, .more⟩
  else
    let c := c.attach (c.newMsg self ePkgLen)
    if ePkgLen = iLenPkgHeader then
      let (c, floodflag) := testFlood cfg now c
      ⟨c, true, if floodflag then .kick else .plast⟩
    else
      ⟨{ c with
        curStat := .pkgBdInit
        precvbuf := .mem (iLenMsgHeader + iLenPkgHeader)
        irecvlen := ePkgLen - iLenPkgHeader }, true, .more⟩

/-- A read of either receiver. -/
def received (c : Connection) (rd : Read) : Option Received :=
  (c.fill rd.data).map fun c =>
    let ret := rd.data.length
    match c.curStat with
    | .pkgHdInit =>
      if ret = iLenPkgHeader then procP1Received cfg self rd.now c
      else
        ⟨{ c with
          curStat := .pkgHdRecving
          precvbuf := c.precvbuf.advance ret
          irecvlen := c.irecvlen - ret }, false, .more⟩
    | .pkgHdRecving =>
      if c.irecvlen = ret then procP1Received cfg self rd.now c
      else
        ⟨{ c with precvbuf := c.precvbuf.advance ret, irecvlen := c.irecvlen - ret }, false, .more⟩
    | .pkgBdInit =>
      let (c, floodflag) := testFlood cfg rd.now c
      if floodflag then ⟨c, false, .kick⟩
      else if c.irecvlen = ret then ⟨c, false, .plast⟩
      else
        ⟨{ c with
          curStat := .pkgBdRecving
          precvbuf := c.precvbuf.advance ret
          irecvlen := c.irecvlen - ret }, false, .more⟩
    | .pkgBdRecving =>
      if c.irecvlen = ret then ⟨c, false, .plast⟩
      else ⟨{ c with precvbuf := c.precvbuf.advance ret, irecvlen := ret }, false, .more⟩

/-- The rest of a read. -/
def Received.finish (r : Received) : Connection × List RecvEv :=
  match r.next with
  | .more => (r.conn, [])
  | .kick => (r.conn.kicked, [.kick])
  | .plast => ngxWaitRequestHandlerProcPlast r.conn

theorem procP1Received_finish (now : UInt64) (c : Connection) :
    (procP1Received cfg self now c).finish =
      let r := ngxWaitRequestHandlerProcP1 cfg self now c
      if r.2.2 then (r.1.kicked, r.2.1 ++ [.kick]) else (r.1, r.2.1) := by
  unfold procP1Received ngxWaitRequestHandlerProcP1
  dsimp only
  split_ifs with h₁ h₂ h₃ h₄ <;> simp_all [Received.finish]

/-- **The receivers** are a read and the rest of it. -/
theorem received_finish (c : Connection) (rd : Read) :
    (received cfg self c rd).map Received.finish = ngxReadRequestHandler cfg self c rd := by
  unfold received ngxReadRequestHandler
  rw [Option.map_map]
  congr 1
  funext c
  dsimp only [Function.comp_apply]
  cases c.curStat with
  | pkgHdInit | pkgHdRecving =>
    dsimp only
    split_ifs with h₁ h₂
    · rw [procP1Received_finish]
      simp [h₂]
    · rw [procP1Received_finish]
      simp [h₂]
    · rfl
  | pkgBdInit | pkgBdRecving =>
    dsimp only
    split_ifs <;> rfl

end Receiving

/-! ## Messages -/

/-- The packet of a message; the header has been written, bytes that have not count as 0. -/
def Msg.bytes (m : Msg) : List UInt8 := m.pkg.map fun x => x.getD 0

/-- `threadRecvProcFunc` returns before it calls a handler, and before `FreeMemory`: a header alone
that is no ping, a message of an earlier connection, a code without a handler. -/
def Msg.Rejected (m : Msg) (iCurrsequence : UInt64) : Prop :=
  (pkgLen m.bytes = iLenPkgHeader ∧ msgCode m.bytes ≠ cmdPing) ∨
    m.header.iCurrsequence ≠ iCurrsequence ∨ handleNum ≤ msgCode m.bytes

instance (m : Msg) (iCurrsequence : UInt64) : Decidable (m.Rejected iCurrsequence) :=
  inferInstanceAs (Decidable (_ ∨ _ ∨ _))

theorem rejected_iff (m : Msg) (c : SendSide) : m.Rejected c.iCurrsequence ↔
    threadRecvProcFunc c m.header.iCurrsequence m.bytes = none := by
  unfold Msg.Rejected threadRecvProcFunc
  split_ifs with h₁ h₂ h₃
  · exact iff_of_true (Or.inl h₁) rfl
  · exact iff_of_true (Or.inr (Or.inl h₂)) rfl
  · exact iff_of_true (Or.inr (Or.inr h₃)) rfl
  · refine iff_of_false (by simp [h₁, h₂, h₃]) ?_
    have hcode : msgCode m.bytes = 0 ∨ msgCode m.bytes = 1 := by
      simp only [handleNum, funcBuf, List.length_cons, List.length_nil] at h₃
      omega
    rcases hcode with h | h <;> rw [h] <;> decide

/-- A message passed to `threadRecvProcFunc`, and the number of its block; in ET mode the thread is
in `recvproc_ET` for connection `slot`. -/
structure Passed where
  slot : Option Addr
  id : ℕ
  msg : Msg
  deriving DecidableEq, Repr

/-- A worker process with the blocks of its messages. -/
structure Blocks where
  net : CSocket
  /-- the block that `precvMemPointer` shows -/
  block : Addr → Option ℕ
  /-- calls of `AllocMemory` -/
  allocated : ℕ
  /-- the blocks of the calls of `FreeMemory` -/
  freed : List ℕ
  /-- `threadRecvProcFunc` has not looked at them: the tasks of LT mode, the calls of ET mode -/
  pending : List Passed
  /-- in a handler, up to the end of `sendMsg` -/
  handling : List Passed
  /-- behind `sendMsg`, and before `FreeMemory` -/
  sent : List Passed
  /-- the connections with a thread in the loop of `recvproc_ET` -/
  reading : List Addr
  /-- those with a thread behind `threadRecvProcFunc` in `plast_ET` -/
  returned : List Addr
  /-- those whose thread has ended in a handler -/
  ended : List Addr
  /-- in ET mode -/
  logicPorcMutex : Addr → Bool

/-- A turn of a thread. -/
inductive Turn
  /-- a step of the process; reading in ET mode is in the turns of the pool -/
  | net (i : CSocket.Step)
  /-- `recvproc_ET` takes the lock -/
  | lock (a : Addr)
  /-- `recv` in the loop of `recvproc_ET` -/
  | recv (a : Addr) (ret : RecvRet)
  /-- the tests of `threadRecvProcFunc` -/
  | dispatch (p : Passed)
  /-- the handler returns, and leaves the lock taken or not -/
  | sent (p : Passed) (locked : Bool)
  /-- `Business` throws: the exception goes up to the `std::packaged_task` of the thread -/
  | thrown (p : Passed)
  /-- `FreeMemory` in `threadRecvProcFunc` -/
  | free (p : Passed)
  /-- `plast_ET` resets the receive state -/
  | reset (a : Addr)
  /-- `sendRemainMsg` gives back a lock that a handler has left taken -/
  | sendRemainMsg (a : Addr)
  deriving DecidableEq

namespace Blocks

variable (cfg : Conf) (s : Blocks)

/-- A process before its first connection. -/
def start (net : CSocket) : Blocks :=
  ⟨net, fun _ => none, 0, [], [], [], [], [], [], [], fun _ => false⟩

/-- The messages that `threadRecvProcFunc` has. -/
def passed : List Passed := s.pending ++ s.handling ++ s.sent

/-- The block of connection `a` has not been freed. -/
def Intact (a : Addr) : Prop := (s.block a).all (fun id => decide (id ∉ s.freed)) = true

instance (a : Addr) : Decidable (s.Intact a) := inferInstanceAs (Decidable (_ = true))

/-- `AllocMemory` for connection `a`, if it is called. -/
def alloc (a : Addr) (allocated : Bool) : Blocks :=
  if allocated then
    { s with
      block := Function.update s.block a (some s.allocated)
      allocated := s.allocated + 1 }
  else s

/-- `plast`, which forgets the block, and `plast_ET` up to the call of `threadRecvProcFunc`; not
defined for a pointer to another block. -/
def pass (a : Addr) (c : Connection) : Option Blocks :=
  match s.block a, c.precvMemPointer with
  | some id, some m =>
    match cfg.mETflag with
    | .etClose => some { s with
        pending := ⟨none, id, m⟩ :: s.pending
        block := Function.update s.block a none }
    | .etOpen => some { s with
        pending := ⟨some a, id, m⟩ :: s.pending
        reading := s.reading.erase a }
  | _, _ => none

/-- `bzero` in `ngx_get_connection`. -/
def renew : List PoolEv → Blocks
  | .get a :: _ => { s with
      block := Function.update s.block a none
      ended := s.ended.filter (· ≠ a)
      logicPorcMutex := Function.update s.logicPorcMutex a false }
  | _ => s

/-- `recvproc_ET` gives back the lock and returns. -/
def leave (a : Addr) : Blocks :=
  { s with
    reading := s.reading.erase a
    logicPorcMutex := Function.update s.logicPorcMutex a false }

/-- `ngx_read_request_handler` on a `recv` that returned data; `recv` has none on a closed
descriptor. -/
def readLT (a : Addr) (rd : Read) : Option Blocks :=
  if (s.net.conn a).fd = -1 then none
  else (received cfg a (s.net.conn a) rd).bind fun r =>
    (s.net.step cfg (.read a (.data rd))).bind fun q =>
      let t := { s with net := q.1 }.alloc a r.allocated
      match r.next with
      | .plast => t.pass cfg a r.conn
      | .more | .kick => some t

/-- A step of the process. -/
def netStep : CSocket.Step → Option Blocks
  | .accept fd now added =>
    (s.net.ngxEventAccept cfg fd now added).map fun q => { s with net := q.1 }.renew q.2
  | .read a (.data rd) => s.readLT cfg a rd
  | .task .. => none
  | i => (s.net.step cfg i).map fun q => { s with net := q.1 }

/-- An iteration of the loop of `recvproc_ET`; reading into a block that has been freed is not
defined. -/
def recvET (a : Addr) : RecvRet → Option Blocks
  | .data rd =>
    if (s.net.conn a).fd = -1 ∨ ¬ s.Intact a then none
    else (received cfg a (s.net.conn a) rd).bind fun r =>
      let t := { s with net := s.net.setConn a r.conn }.alloc a r.allocated
      match r.next with
      | .more => some t
      | .kick => (t.net.ngxFreeConSelf a).map fun q => { t with net := q.1 }.leave a
      | .plast => t.pass cfg a r.conn
  | ret => (s.net.recvproc a ret).map fun q => { s with net := q.1 }.leave a

/-- `threadRecvProcFunc` up to the call of the handler. -/
def dispatch (p : Passed) : Blocks :=
  if p.msg.Rejected (s.net.conn p.msg.header.pConn).iCurrsequence then
    { s with pending := s.pending.erase p, returned := p.slot.toList ++ s.returned }
  else { s with pending := s.pending.erase p, handling := p :: s.handling }

/-- A handler returns. -/
def sendMsg (p : Passed) (locked : Bool) : Blocks :=
  { s with
    handling := s.handling.erase p
    sent := p :: s.sent
    logicPorcMutex :=
      match p.slot with
      | some a => if locked then s.logicPorcMutex else Function.update s.logicPorcMutex a false
      | none => s.logicPorcMutex }

/-- A thread ends in the handler, which has the lock. -/
def unwind (p : Passed) : Blocks :=
  { s with
    handling := s.handling.erase p
    ended := p.slot.toList ++ s.ended }

/-- `FreeMemory(pMsgBuf)`. -/
def freeMemory (p : Passed) : Blocks :=
  { s with
    sent := s.sent.erase p
    freed := p.id :: s.freed
    returned := p.slot.toList ++ s.returned }

/-- The end of `plast_ET`. -/
def resetET (a : Addr) : Blocks :=
  { s with
    net := s.net.setConn a (ngxWaitRequestHandlerProcPlastET (s.net.conn a)).1
    returned := s.returned.erase a
    block := Function.update s.block a none }

/-- **A turn**; `none` is one that cannot be taken, or reads a block that has been freed. -/
def step : Turn → Option (Blocks × List Unit)
  | .net i => (s.netStep cfg i).map fun t => (t, [])
  | .lock a =>
    if a ∈ s.net.taskBuf ∧ s.logicPorcMutex a = false then
      some ({ s with
        net := { s.net with taskBuf := s.net.taskBuf.erase a }
        reading := a :: s.reading
        logicPorcMutex := Function.update s.logicPorcMutex a true }, [])
    else none
  | .recv a ret => if a ∈ s.reading then (s.recvET cfg a ret).map fun t => (t, []) else none
  | .dispatch p => if p ∈ s.pending ∧ p.id ∉ s.freed then some (s.dispatch p, []) else none
  | .sent p locked =>
    if p ∈ s.handling ∧ p.id ∉ s.freed then some (s.sendMsg p locked, []) else none
  | .thrown p =>
    if p ∈ s.handling ∧ p.id ∉ s.freed ∧ msgCode p.msg.bytes = cmdBusiness then
      some (s.unwind p, [])
    else none
  | .free p => if p ∈ s.sent then some (s.freeMemory p, []) else none
  | .reset a => if a ∈ s.returned then some (s.resetET a, []) else none
  | .sendRemainMsg a =>
    if s.logicPorcMutex a = true ∧ a ∉ s.reading ∧ a ∉ s.ended ∧
        some a ∉ (s.pending ++ s.handling).map Passed.slot then
      some ({ s with logicPorcMutex := Function.update s.logicPorcMutex a false }, [])
    else none

/-! ## The property and its condition -/

/-- **Freed exactly once**: no block twice, and every block by the time `threadRecvProcFunc` has
returned from its message or ended with an exception, or its connection object has been taken
again. -/
def FreedOnce : Prop :=
  s.freed.Nodup ∧ ∀ id < s.allocated, id ∉ s.freed →
    id ∈ s.passed.map Passed.id ∨ ∃ a, s.block a = some id ∧ a ∉ s.returned ++ s.ended

/-- Nobody but connection object `a` has the block it shows. -/
def Alone (a : Addr) : Prop :=
  (s.block a).any (fun id => decide (id ∉ s.freed ∧ id ∉ s.passed.map Passed.id)) = true

instance (a : Addr) : Decidable (s.Alone a) := inferInstanceAs (Decidable (_ = true))

/-- The object that an accept takes from the pool. -/
def taken : Option Addr := if s.net.Refuses cfg then none else s.net.pool.mPfreeConnections

/-- **No block is forgotten**: `bzero` does not clear a pointer to a block that nobody else has,
`threadRecvProcFunc` calls a handler for the message, and the handler returns. -/
def Frees : Turn → Prop
  | .net (.accept ..) => (s.taken cfg).all (fun a => decide (¬ s.Alone a)) = true
  | .dispatch p => ¬ p.msg.Rejected (s.net.conn p.msg.header.pConn).iCurrsequence
  | .thrown _ => False
  | _ => True

/-- **No data between call and reset**: `recvproc_ET` reads no bytes while another thread is in
`plast_ET` for the connection. -/
def ReadsApart : Turn → Prop
  | .recv a (.data _) => some a ∉ s.passed.map Passed.slot ∧ a ∉ s.returned
  | _ => True

end Blocks

end ServerNginx
