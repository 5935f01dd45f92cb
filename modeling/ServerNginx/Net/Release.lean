import ServerNginx.Lib.CNumber
import ServerNginx.Net.Pool
import ServerNginx.Net.Request

set_option autoImplicit false

/-!
# Accepting and closing connections

The state of a worker process as far as the life of its connections goes, and the steps that open
and close them: `ngx_event_accept`, the readers, `ngx_evhup_handler`, the heartbeat sweep and the
delayed release through the timer and `ngx_timer_free_connection`. A step is `none` where it cannot
be taken, or where the code has no defined behaviour (`erase(end())`, a read past a buffer).

Steps report what becomes of the slots of the pool: a slot is taken, a release of it is scheduled
or begun, it goes back to the free list, its `logicObj` is deleted.
-/

namespace ServerNginx

/-- What becomes of a slot of the pool. -/
inductive PoolEv
  | get (a : Addr)
  | release (a : Addr)
  | free (a : Addr)
  | delete (a : Addr)
  deriving DecidableEq, Repr

/-- A worker process. -/
structure CSocket where
  pool : Pool
  /-- descriptors open in the process -/
  fds : List ℤ
  /-- the descriptors of accepted connections in the epoll set, with their `data.ptr` -/
  epoll : List (ℤ × Addr)
  /-- the `data.ptr` of the events of connections that `epoll_wait` has returned, as far as the loop
  has not come to them -/
  mEvents : List Addr
  /-- `recvproc_ET` tasks not yet run -/
  taskBuf : List Addr
  /-- `ngx_time_tofree_connection` timers -/
  timerBuf : List Addr
  mRecyconnectionList : List Addr
  mTimerQueuemap : List (ℤ × StrucMsgHeader)
  mOnlineUserCount : ℤ
  /-- objects created by `new HttpServer` -/
  objs : ℕ

/-- A result of the `recv` in `recvproc`: data, 0, `EAGAIN` or `EINTR`, `ECONNRESET`, or another
error. -/
inductive RecvRet
  | data (rd : Read)
  | zero
  | again
  | reset
  | error
  deriving DecidableEq, Repr

/-- How a reader is done with a connection. -/
inductive Ending
  | done
  | flood
  | ret (r : RecvRet)
  deriving DecidableEq, Repr

/-- The ending closes the connection. -/
def Ending.closes : Ending → Bool
  | .done => false
  | .flood => true
  | .ret (.data _) => false
  | .ret .again => false
  | .ret _ => true

/-- `WAITTIME * 3 + 10`. -/
def pingTimeout : ℤ := 20 * 3 + 10

namespace CSocket

variable (cfg : Conf) (s : CSocket)

/-- The connection is in the epoll set. -/
def Registered (a : Addr) : Prop := a ∈ s.epoll.map Prod.snd

instance (a : Addr) : Decidable (s.Registered a) := inferInstanceAs (Decidable (_ ∈ _))

/-- The next event is one of connection `a`. -/
def NextEvent (a : Addr) : Prop := s.mEvents.head? = some a

instance (a : Addr) : Decidable (s.NextEvent a) := inferInstanceAs (Decidable (_ = _))

/-- The loop of `ngx_epoll_process_events` goes on to the next event. -/
def takeEvent : CSocket := { s with mEvents := s.mEvents.tail }

/-- The connection object. -/
def conn (a : Addr) : Connection := s.pool.mem a

/-- Assign a connection object. -/
def setConn (a : Addr) (c : Connection) : CSocket := { s with pool := s.pool.set a c }

/-! ## Closing -/

/-- `ngx_epoll_del_event`. -/
def ngxEpollDelEvent (a : Addr) : CSocket :=
  { s with epoll := s.epoll.filter fun e => e.1 ≠ (s.conn a).fd }

/-- `close`: the descriptor leaves the epoll set too. -/
def closeFd (fd : ℤ) : CSocket :=
  { s with fds := s.fds.erase fd, epoll := s.epoll.filter fun e => e.1 ≠ fd }

/-- `m_onlineUserCount--`. -/
def offline : CSocket := { s with mOnlineUserCount := s.mOnlineUserCount - 1 }

/-- `AddTimer` of `ngx_time_tofree_connection`. -/
def addTimer (a : Addr) : CSocket := { s with timerBuf := s.timerBuf ++ [a] }

/-- `m_timerQueuemap.erase(m_timerQueuemap.find(key))`, undefined where no entry has the key. -/
def erasePing (key : ℤ) : Option CSocket :=
  if s.mTimerQueuemap.any (·.1 = key) then
    some { s with mTimerQueuemap := s.mTimerQueuemap.eraseP (·.1 = key) }
  else none

/-- `ngx_close_connection` with `ngx_free_connection`. -/
def ngxCloseConnection (a : Addr) : CSocket × List PoolEv :=
  let c := s.conn a
  let s := if c.fd ≠ -1 then s.closeFd c.fd else s
  let s := s.setConn a { c with floodAttackCount := 0, fd := -1 }
  ({ s with pool := s.pool.ngxFreeConnection a },
    .free a :: if c.logicObj.isSome then [.delete a] else [])

/-- `ngx_free_con_self`. -/
def ngxFreeConSelf (a : Addr) : Option (CSocket × List PoolEv) :=
  let c := s.conn a
  let s := s.ngxEpollDelEvent a
  let s := if c.fd ≠ -1 then (s.closeFd c.fd).setConn a { c with fd := -1 } else s
  ((s.offline.addTimer a).erasePing c.storePingTime).map fun s => (s, [.release a])

/-- What `recvproc` does with the connection on a result of `recv`. -/
def recvproc (a : Addr) : RecvRet → Option (CSocket × List PoolEv)
  | .data _ => some (s, [])
  | .again => some (s, [])
  | .zero =>
    (((s.ngxEpollDelEvent a).offline.addTimer a).erasePing (s.conn a).storePingTime).map
      fun s => (s, [.release a])
  | .reset =>
    -- the count of users stays, and the entry is looked up under the last ping
    (((s.ngxEpollDelEvent a).addTimer a).erasePing (s.conn a).lastPingTime).map
      fun s => (s, [.release a])
  | .error =>
    let (s, evs) := (s.ngxEpollDelEvent a).ngxCloseConnection a
    some (s, .release a :: evs)

/-- `ngx_evhup_handler`. -/
def ngxEvhupHandler (a : Addr) : Option (CSocket × List PoolEv) :=
  (((s.ngxEpollDelEvent a).offline.addTimer a).erasePing (s.conn a).storePingTime).map
    fun s => (s, [.release a])

/-- One iteration of `ngx_timer_free_connection`. -/
def ngxTimerFreeConnection : Option (CSocket × List PoolEv) :=
  match s.mRecyconnectionList with
  | [] => none
  | con :: rest => some ({ s with mRecyconnectionList := rest }.ngxCloseConnection con)

/-! ## Accepting -/

/-- `emplace` in the multimap `m_timerQueuemap`: behind the entries of the same key. -/
def emplacePing (m : List (ℤ × StrucMsgHeader)) (e : ℤ × StrucMsgHeader) :
    List (ℤ × StrucMsgHeader) :=
  m.orderedInsert (fun x y => x.1 < y.1) e

/-- `ngx_add_check`. -/
def ngxAddCheck (a : Addr) (now : ℤ) : CSocket :=
  let c := { s.conn a with lastPingTime := now, storePingTime := now }
  let s := s.setConn a c
  { s with mTimerQueuemap := emplacePing s.mTimerQueuemap (now, ⟨a, c.iCurrsequence⟩) }

/-- `ngx_event_accept` when `accept4` has returned `fd`; `added` is the result of
`EPOLL_CTL_ADD`. -/
def ngxEventAccept (fd now : ℤ) (added : Bool) : Option (CSocket × List PoolEv) :=
  if fd < 0 ∨ fd ∈ s.fds then none
  else if cfg.mWorkerConnections < s.mOnlineUserCount then some (s, [])
  else
    match s.pool.ngxGetConnection cfg fd with
    | none => some (s, [])
    | some (a, pool) =>
      let newc := { (pool.mem a).initRecv with logicObj := some s.objs }
      let s := { s with
        pool := pool.set a newc
        fds := fd :: s.fds
        mOnlineUserCount := s.mOnlineUserCount + 1
        objs := s.objs + 1 }
      if added then
        some ({ s with epoll := (fd, a) :: s.epoll }.ngxAddCheck a now, [.get a])
      else
        let (s, evs) := s.ngxCloseConnection a
        some (s, .get a :: .release a :: evs)

/-! ## Reading -/

/-- A `recvproc_ET` task on the results its `recv` calls return. -/
def recvprocETTask (self : Addr) : Connection → List RecvRet → Option (Connection × Ending)
  | _, [] => none
  | c, .data rd :: rets => (recvprocETIter cfg self c rd).bind fun r =>
    if r.floodflag then some (r.conn, .flood)
    else if r.stop then some (r.conn, .done)
    else recvprocETTask self r.conn rets
  | c, ret :: _ => some (c, .ret ret)

/-- One call of the LT handler. -/
def ngxReadRequestHandlerCall (self : Addr) (c : Connection) :
    RecvRet → Option (Connection × Ending)
  | .data rd => (ngxReadRequestHandler cfg self c rd).map fun r =>
    -- the descriptor is closed by `ngx_free_con_self` below
    if RecvEv.kick ∈ r.2 then ({ r.1 with fd := c.fd }, .flood) else (r.1, .done)
  | ret => some (c, .ret ret)

/-- What a reader leaves behind: the connection object as read, and the way it ended. -/
def afterRead (a : Addr) (r : Connection × Ending) : Option (CSocket × List PoolEv) :=
  let s := s.setConn a r.1
  match r.2 with
  | .done => some (s, [])
  | .flood => s.ngxFreeConSelf a
  | .ret ret => s.recvproc a ret

/-! ## The heartbeat -/

/-- The sweep has timed the entry out and kicks its connection. -/
def Kicks (e : ℤ × StrucMsgHeader) (now : ℤ) : Prop :=
  e.2.iCurrsequence = (s.conn e.2.pConn).iCurrsequence ∧ pingTimeout ≤ now - e.1 ∧
    (e.1 = (s.conn e.2.pConn).lastPingTime ∨ pingTimeout ≤ now - (s.conn e.2.pConn).lastPingTime)

instance (e : ℤ × StrucMsgHeader) (now : ℤ) : Decidable (s.Kicks e now) :=
  inferInstanceAs (Decidable (_ ∧ _ ∧ _))

/-- A visit of the sweep of `ngx_time_check` to one entry. What the sweep does with the entry after
`ngx_free_con_self` is left out. -/
def ngxTimeCheckVisit (e : ℤ × StrucMsgHeader) (now : ℤ) : Option (CSocket × List PoolEv) :=
  let a := e.2.pConn
  let c := s.conn a
  if e.2.iCurrsequence ≠ c.iCurrsequence then
    some ({ s with mTimerQueuemap := s.mTimerQueuemap.erase e }, [])
  else if pingTimeout ≤ now - e.1 then
    if s.Kicks e now then s.ngxFreeConSelf a
    else
      let s := s.setConn a { c with storePingTime := c.lastPingTime }
      -- `t` is a `std::pair<int, LPSTRUC_MSG_HEADER>`
      let m := emplacePing (s.mTimerQueuemap.erase e) (CNumber.int32 c.lastPingTime, e.2)
      some ({ s with mTimerQueuemap := m }, [])
  else some (s, [])

/-! ## Steps -/

/-- The steps of the process. -/
inductive Step
  | accept (fd now : ℤ) (added : Bool)
  /-- `epoll_wait` returns events of connections -/
  | wait (as : List Addr)
  /-- an event that calls `rhandler`, in ET mode -/
  | edge (a : Addr)
  | task (a : Addr) (rets : List RecvRet)
  /-- an event that calls `rhandler`, in LT mode -/
  | read (a : Addr) (ret : RecvRet)
  /-- an event that calls `phandler` -/
  | hup (a : Addr)
  /-- an event that calls `whandler` -/
  | write (a : Addr)
  | ping (h : StrucMsgHeader) (now : ℤ)
  | visit (e : ℤ × StrucMsgHeader) (now : ℤ)
  | expire (a : Addr)
  | timerFree
  deriving DecidableEq, Repr

/-- A step of the process. The kernel reports connections that are registered when `epoll_wait`
returns; the handlers are called for them whatever has become of them since, as the checks for
stale events are commented out. Tasks run in any order. -/
def step : Step → Option (CSocket × List PoolEv)
  | .accept fd now added => s.ngxEventAccept cfg fd now added
  | .wait as =>
    if s.mEvents = [] ∧ as.Nodup ∧ ∀ a ∈ as, s.Registered a then
      some ({ s with mEvents := as }, [])
    else none
  | .edge a =>
    if cfg.mETflag = .etOpen ∧ s.NextEvent a then
      some ({ s.takeEvent with taskBuf := s.taskBuf ++ [a] }, [])
    else none
  | .task a rets =>
    if a ∈ s.taskBuf then
      (recvprocETTask cfg a (s.conn a) rets).bind
        ({ s with taskBuf := s.taskBuf.erase a }.afterRead a)
    else none
  | .read a ret =>
    if cfg.mETflag = .etClose ∧ s.NextEvent a then
      (ngxReadRequestHandlerCall cfg a (s.conn a) ret).bind (s.takeEvent.afterRead a)
    else none
  | .hup a => if s.NextEvent a then s.takeEvent.ngxEvhupHandler a else none
  -- `AddTask(sendRemainMsg)`
  | .write a => if s.NextEvent a then some (s.takeEvent, []) else none
  | .ping h now =>
    if (s.conn h.pConn).iCurrsequence = h.iCurrsequence then
      some (s.setConn h.pConn { s.conn h.pConn with lastPingTime := now }, [])
    else some (s, [])
  | .visit e now => if e ∈ s.mTimerQueuemap then s.ngxTimeCheckVisit e now else none
  | .expire a =>
    if a ∈ s.timerBuf then
      some ({ s with
        timerBuf := s.timerBuf.erase a
        mRecyconnectionList := s.mRecyconnectionList ++ [a] }, [])
    else none
  | .timerFree => s.ngxTimerFreeConnection

/-- The objects of the listening sockets. -/
def takeListening : Pool → List ℤ → Option Pool
  | p, [] => some p
  | p, fd :: fds => (p.ngxGetConnection cfg fd).bind fun q => takeListening q.2 fds

/-- The state after `ngx_epoll_init` with the given listening sockets. -/
def ngxEpollInit (heap : Addr → Connection) (listen : List ℤ) : Option CSocket :=
  (takeListening cfg (Pool.init cfg heap) listen).map fun pool =>
    { pool := pool
      fds := listen
      epoll := []
      mEvents := []
      taskBuf := []
      timerBuf := []
      mRecyconnectionList := []
      mTimerQueuemap := []
      mOnlineUserCount := 0
      objs := 0 }

end CSocket

end ServerNginx
