import ServerNginx.Net.Sweep

set_option autoImplicit false

/-!
# The threads at `m_PingMutex`

The heartbeat queue is guarded by `m_PingMutex`. The event loop takes the mutex when it has accepted
a connection and when one is closed, the pool threads when a read ends a connection, and
`ngx_time_check` over a whole pass. A kick calls `ngx_free_con_self`, which takes it again: the
thread waits for a mutex that it holds itself.

* `front`: what a step does before it comes to the mutex; `step_eq_front`: the two halves are the
  step of the process;
* `Beating.step`: the event loop, the pool and the heartbeat thread, iteration by iteration;
* `iter_stops_iff`: the heartbeat thread stops where it meets a connection to kick;
* **`stalled_run`**: from then on nobody gets the mutex, the queue stays as it is, and the first
  event that needs the mutex is the last event that the loop comes to.
-/

namespace ServerNginx

namespace CSocket

/-- What a thread does to the queue once it has the mutex. -/
inductive PingOp
  /-- `emplace`, in `ngx_add_check` -/
  | add (a : Addr)
  /-- `erase(find(c ->storePingTime))` -/
  | eraseStore (a : Addr)
  /-- `erase(find(c ->lastPingTime))` -/
  | eraseLast (a : Addr)
  deriving DecidableEq

def PingOp.apply (s : CSocket) : PingOp → Option CSocket
  | .add a => some { s with
      mTimerQueuemap := emplacePing s.mTimerQueuemap
        ((s.conn a).lastPingTime, ⟨a, (s.conn a).iCurrsequence⟩) }
  | .eraseStore a => s.erasePing (s.conn a).storePingTime
  | .eraseLast a => s.erasePing (s.conn a).lastPingTime

variable (cfg : Conf) (s : CSocket)

/-- `ngx_free_con_self` up to the mutex. -/
def frontFreeConSelf (a : Addr) : CSocket :=
  let c := s.conn a
  let s := s.ngxEpollDelEvent a
  let s := if c.fd ≠ -1 then (s.closeFd c.fd).setConn a { c with fd := -1 } else s
  s.offline.addTimer a

/-- The end of a read up to the mutex, where it comes to it. -/
def frontRead (a : Addr) (r : Connection × Ending) : Option (CSocket × PingOp) :=
  let s := s.setConn a r.1
  match r.2 with
  | .flood => some (s.frontFreeConSelf a, .eraseStore a)
  | .ret .zero => some ((s.ngxEpollDelEvent a).offline.addTimer a, .eraseStore a)
  | .ret .reset => some ((s.ngxEpollDelEvent a).addTimer a, .eraseLast a)
  | _ => none

/-- `ngx_event_accept` up to the mutex, where it comes to it. -/
def frontAccept (fd now : ℤ) (added : Bool) : Option (CSocket × Addr) :=
  if fd < 0 ∨ fd ∈ s.fds then none
  else if cfg.mWorkerConnections < s.mOnlineUserCount then none
  else if added then
    (s.pool.ngxGetConnection cfg fd).map fun r =>
      let s := { s.takeConn fd r.1 r.2 with epoll := (fd, r.1) :: s.epoll }
      (s.setConn r.1 { s.conn r.1 with lastPingTime := now, storePingTime := now }, r.1)
  else none

/-- A step up to the mutex, with what is left to do; `none` where the step does not come to it. -/
def front : Step → Option ((CSocket × List PoolEv) × PingOp)
  | .accept fd now added =>
    (s.frontAccept cfg fd now added).map fun r => ((r.1, [.get r.2]), .add r.2)
  | .hup a =>
    if s.NextEvent a then
      some (((s.takeEvent.ngxEpollDelEvent a).offline.addTimer a, [.release a]), .eraseStore a)
    else none
  | .read a ret =>
    if cfg.mETflag = .etClose ∧ s.NextEvent a then
      ((ngxReadRequestHandlerCall cfg a (s.conn a) ret).bind (s.takeEvent.frontRead a)).map fun r =>
        ((r.1, [.release a]), r.2)
    else none
  | .task a rets =>
    if a ∈ s.taskBuf then
      ((recvprocETTask cfg a (s.conn a) rets).bind
        ({ s with taskBuf := s.taskBuf.erase a }.frontRead a)).map fun r =>
          ((r.1, [.release a]), r.2)
    else none
  | _ => none

/-- The threads of a worker process that take steps. -/
inductive Thread
  /-- `ngx_worker_process_cycle` -/
  | loop
  /-- a thread of the pool -/
  | pool
  /-- `ngx_timer_free_connection` -/
  | reclaim
  /-- `ngx_time_check` -/
  | heartbeat
  deriving DecidableEq

/-- The thread that takes a step. -/
def Step.thread : Step → Thread
  | .accept .. | .wait _ | .edge _ | .read .. | .hup _ | .write _ | .expire _ => .loop
  | .task .. | .ping .. => .pool
  | .timerFree => .reclaim
  | .visit .. => .heartbeat

variable {cfg : Conf} {s t : CSocket} {i : Step} {a : Addr} {op : PingOp} {os : List PoolEv}

/-! ## The two halves of a step -/

theorem ngxFreeConSelf_eq_front : s.ngxFreeConSelf a =
    (PingOp.apply (s.frontFreeConSelf a) (.eraseStore a)).map fun t => (t, [.release a]) := by
  have hstore : ((s.frontFreeConSelf a).conn a).storePingTime = (s.conn a).storePingTime := by
    have hself : ∀ (u : CSocket) c, ((u.setConn a c).offline.addTimer a).conn a = c :=
      fun u c => conn_setConn_self ..
    unfold frontFreeConSelf
    simp only
    split_ifs
    · rw [hself]
    · rfl
  rw [PingOp.apply, hstore]
  rfl

theorem frontFreeConSelf_map : (s.frontFreeConSelf a).mTimerQueuemap = s.mTimerQueuemap := by
  unfold frontFreeConSelf
  simp only
  split_ifs <;> rfl

theorem afterRead_eq_front {r : Connection × Ending} (h : s.frontRead a r = some (t, op)) :
    s.afterRead a r = (op.apply t).map fun u => (u, [.release a]) := by
  obtain ⟨c, e⟩ := r
  cases e with
  | done => cases h
  | flood =>
    cases h
    exact ngxFreeConSelf_eq_front
  | ret ret =>
    cases ret with
    | data rd | again | error => cases h
    | zero | reset =>
      cases h
      rfl

theorem frontRead_map {r : Connection × Ending} (h : s.frontRead a r = some (t, op)) :
    t.mTimerQueuemap = s.mTimerQueuemap := by
  obtain ⟨c, e⟩ := r
  cases e with
  | done => cases h
  | flood =>
    cases h
    exact frontFreeConSelf_map
  | ret ret =>
    cases ret with
    | data rd | again | error => cases h
    | zero | reset =>
      cases h
      rfl

theorem ngxCloseConnection_map :
    (s.ngxCloseConnection a).1.mTimerQueuemap = s.mTimerQueuemap := by
  unfold ngxCloseConnection
  simp only
  split_ifs <;> rfl

theorem afterRead_map {r : Connection × Ending} (hf : s.frontRead a r = none)
    (h : s.afterRead a r = some (t, os)) : t.mTimerQueuemap = s.mTimerQueuemap := by
  obtain ⟨c, e⟩ := r
  cases e with
  | done =>
    cases h
    rfl
  | flood => cases hf
  | ret ret =>
    cases ret with
    | zero | reset => cases hf
    | data rd | again =>
      cases h
      rfl
    | error =>
      obtain rfl : t = (((s.setConn a c).ngxEpollDelEvent a).ngxCloseConnection a).1 := by
        cases h
        rfl
      exact ngxCloseConnection_map

theorem accept_eq_front {fd now : ℤ} {added : Bool}
    (h : s.frontAccept cfg fd now added = some (t, a)) :
    s.ngxEventAccept cfg fd now added = ((PingOp.add a).apply t).map fun u => (u, [.get a]) := by
  unfold frontAccept at h
  unfold ngxEventAccept
  split_ifs at h with hfd hmax hadd
  obtain ⟨⟨b, pool⟩, hget, he⟩ := Option.map_eq_some_iff.mp h
  cases he
  rw [if_neg hfd, if_neg hmax, hget]
  simp only [hadd, if_true, PingOp.apply, ngxAddCheck, conn_setConn_self]
  rfl

theorem frontAccept_map {fd now : ℤ} {added : Bool}
    (h : s.frontAccept cfg fd now added = some (t, a)) : t.mTimerQueuemap = s.mTimerQueuemap := by
  unfold frontAccept at h
  split_ifs at h with hfd hmax hadd
  obtain ⟨⟨b, pool⟩, hget, he⟩ := Option.map_eq_some_iff.mp h
  cases he
  rfl

theorem accept_map {fd now : ℤ} {added : Bool} (hf : s.frontAccept cfg fd now added = none)
    (h : s.ngxEventAccept cfg fd now added = some (t, os)) :
    t.mTimerQueuemap = s.mTimerQueuemap := by
  obtain ⟨hfd, ⟨-, rfl, rfl⟩ | ⟨a, pool, hmax, hget, hcase⟩⟩ := ngxEventAccept_cases h
  · rfl
  · rcases hcase with ⟨hadd, rfl, rfl⟩ | ⟨-, rfl, rfl⟩
    · unfold frontAccept at hf
      rw [if_neg hfd, if_neg hmax, if_pos hadd, hget] at hf
      cases hf
    · exact ngxCloseConnection_map

/-- **The two halves**: what a step does up to the mutex, and what it does behind it. -/
theorem step_eq_front (h : s.front cfg i = some ((t, os), op)) :
    s.step cfg i = (op.apply t).map fun u => (u, os) := by
  cases i with
  | accept fd now added =>
    obtain ⟨⟨u, a⟩, hf, he⟩ := Option.map_eq_some_iff.mp h
    cases he
    exact accept_eq_front hf
  | hup a =>
    simp only [front] at h
    split_ifs at h with hreg
    cases h
    exact if_pos hreg
  | read a ret =>
    simp only [front] at h
    split_ifs at h with hreg
    obtain ⟨⟨u, p⟩, hf, he⟩ := Option.map_eq_some_iff.mp h
    obtain ⟨r, hr, hf⟩ := Option.bind_eq_some_iff.mp hf
    cases he
    simp only [step, if_pos hreg, hr, Option.bind_some]
    exact afterRead_eq_front hf
  | task a rets =>
    simp only [front] at h
    split_ifs at h with hmem
    obtain ⟨⟨u, p⟩, hf, he⟩ := Option.map_eq_some_iff.mp h
    obtain ⟨r, hr, hf⟩ := Option.bind_eq_some_iff.mp hf
    cases he
    simp only [step, if_pos hmem, hr, Option.bind_some]
    exact afterRead_eq_front hf
  | wait | edge | write | ping | visit | expire | timerFree => cases h

theorem front_map (h : s.front cfg i = some ((t, os), op)) :
    t.mTimerQueuemap = s.mTimerQueuemap := by
  cases i with
  | accept fd now added =>
    obtain ⟨⟨u, a⟩, hf, he⟩ := Option.map_eq_some_iff.mp h
    cases he
    exact frontAccept_map hf
  | hup a =>
    simp only [front] at h
    split_ifs at h
    cases h
    rfl
  | read a ret | task a ret =>
    simp only [front] at h
    split_ifs at h
    obtain ⟨⟨u, p⟩, hf, he⟩ := Option.map_eq_some_iff.mp h
    obtain ⟨r, -, hf⟩ := Option.bind_eq_some_iff.mp hf
    cases he
    have hmap := frontRead_map hf
    exact hmap
  | wait | edge | write | ping | visit | expire | timerFree => cases h

/-- **The mutex guards the queue**: outside the sweep, what does not come to it leaves the queue. -/
theorem step_map (hi : i.thread ≠ .heartbeat) (hf : s.front cfg i = none)
    (h : s.step cfg i = some (t, os)) : t.mTimerQueuemap = s.mTimerQueuemap := by
  cases i with
  | accept fd now added => exact accept_map (Option.map_eq_none_iff.mp hf) h
  | wait as | edge a | write a =>
    simp only [step] at h
    split_ifs at h
    cases h
    rfl
  | task a rets =>
    simp only [step] at h
    simp only [front] at hf
    split_ifs at h hf
    obtain ⟨r, hr, h⟩ := Option.bind_eq_some_iff.mp h
    rw [Option.map_eq_none_iff, hr] at hf
    have hmap := afterRead_map hf h
    exact hmap
  | read a ret =>
    simp only [step] at h
    simp only [front] at hf
    split_ifs at h hf
    obtain ⟨r, hr, h⟩ := Option.bind_eq_some_iff.mp h
    rw [Option.map_eq_none_iff, hr] at hf
    have hmap := afterRead_map (s := s.takeEvent) hf h
    exact hmap
  | hup a =>
    simp only [step] at h
    simp only [front] at hf
    split_ifs at h hf
  | ping m now =>
    simp only [step] at h
    split_ifs at h
    · cases h
      rfl
    · cases h
      rfl
  | visit e now => exact absurd rfl hi
  | expire a =>
    simp only [step] at h
    split_ifs at h
    cases h
    rfl
  | timerFree =>
    simp only [step, ngxTimerFreeConnection] at h
    cases hl : s.mRecyconnectionList with
    | nil =>
      rw [hl] at h
      cases h
    | cons con rest =>
      rw [hl] at h
      obtain rfl : t = (({ s with mRecyconnectionList := rest }).ngxCloseConnection con).1 := by
        cases h
        rfl
      exact ngxCloseConnection_map

end CSocket

/-! ## The threads -/

open CSocket

/-- The heartbeat thread: it waits for connections, and has the mutex in the other states. -/
inductive Heart
  | waiting
  /-- behind `wait`, in `sleep(1)` -/
  | checking
  /-- in the loop over the queue -/
  | passing (now : ℤ)
  /-- in `ngx_free_con_self`, at the mutex that it has itself -/
  | blocked
  deriving DecidableEq

/-- A worker process with its threads at `m_PingMutex`. -/
structure Beating where
  cs : CSocket
  heart : Heart
  /-- what the event loop waits to do, where it is at the mutex -/
  loop : Option PingOp
  /-- what the pool threads wait to do that are at the mutex -/
  pool : List PingOp

/-- What the threads do, the heartbeat thread by iterations. -/
inductive BeatStep
  /-- `wait` returns -/
  | lock
  | time (now : ℤ)
  | iter
  /-- a step is taken, up to the mutex where it comes to it -/
  | start (i : Step)
  /-- the event loop gets the mutex -/
  | loop
  /-- a pool thread gets it -/
  | pool (op : PingOp)
  deriving DecidableEq

/-- What is seen of it. -/
inductive BeatOut
  /-- a step that has not come to the mutex -/
  | handled (i : Step) (os : List PoolEv)
  /-- a step that has -/
  | comes (i : Step) (os : List PoolEv)
  | entered (op : PingOp)
  /-- the heartbeat thread kicks a connection, and comes to the mutex -/
  | stopped (a : Addr)
  deriving DecidableEq

namespace Beating

variable (cfg : Conf) (n : ℕ) (s : Beating)

/-- The thread can begin a step. The pool has `n` threads for its tasks. -/
def Idle : Thread → Prop
  | .loop => s.loop = none
  | .pool => s.pool.length < n
  | .reclaim => True
  | .heartbeat => False

instance : DecidablePred (s.Idle n) := fun h => by
  cases h <;> unfold Idle <;> infer_instance

/-- A thread has come to the mutex. -/
def queue (h : Thread) (op : PingOp) : Beating :=
  if h = .loop then { s with loop := some op } else { s with pool := op :: s.pool }

/-- A step of one of the threads. -/
def step : BeatStep → Option (Beating × List BeatOut)
  | .lock =>
    if s.heart = .waiting ∧ s.cs.mTimerQueuemap ≠ [] then some ({ s with heart := .checking }, [])
    else none
  | .time now =>
    match s.heart, s.cs.mTimerQueuemap with
    | .checking, e :: _ =>
      some ({ s with heart := if now - e.1 < pingTimeout then .waiting else .passing now }, [])
    | _, _ => none
  | .iter =>
    match s.heart with
    | .passing now =>
      match ngxTimeCheckIter now s.cs.sweep, s.cs.mTimerQueuemap with
      | .again w, _ => some ({ s with cs := w.cs }, [])
      | .stop (.ended w), _ => some ({ s with cs := w.cs, heart := .waiting }, [])
      | .stop .blocked, e :: _ =>
        some ({ s with cs := s.cs.frontFreeConSelf e.2.pConn, heart := .blocked },
          [.stopped e.2.pConn])
      | _, _ => none
    | _ => none
  | .start i =>
    if s.Idle n i.thread then
      match s.cs.front cfg i with
      | some ((t, os), op) => some ({ s with cs := t }.queue i.thread op, [.comes i os])
      | none => (s.cs.step cfg i).map fun r => ({ s with cs := r.1 }, [.handled i r.2])
    else none
  | .loop =>
    match s.heart, s.loop with
    | .waiting, some op =>
      (op.apply s.cs).map fun t => ({ s with cs := t, loop := none }, [.entered op])
    | _, _ => none
  | .pool op =>
    if s.heart = .waiting ∧ op ∈ s.pool then
      (op.apply s.cs).map fun t => ({ s with cs := t, pool := s.pool.erase op }, [.entered op])
    else none

variable {cfg : Conf} {n : ℕ} {s t u : Beating} {i : BeatStep} {e : ℤ × StrucMsgHeader}
  {rest : List (ℤ × StrucMsgHeader)} {now : ℤ} {os o : List BeatOut}

/-- **The kick**: the heartbeat thread stops in the iteration that comes to a connection that has
timed out. -/
theorem iter_stops_iff (hp : s.heart = .passing now) (he : s.cs.mTimerQueuemap = e :: rest) :
    (∃ t os, s.step cfg n .iter = some (t, os) ∧ t.heart = .blocked) ↔ s.cs.Kicks e now := by
  have hconns : Sweep.SameConns s.cs s.cs.sweep.cs := fun a => ⟨rfl, rfl⟩
  have hagain : ∀ w, ngxTimeCheckIter now s.cs.sweep = .again w →
      ¬ ∃ t os, s.step cfg n .iter = some (t, os) ∧ t.heart = .blocked := by
    rintro w hw ⟨t, os, ht, hb⟩
    simp only [step, hp, hw] at ht
    cases ht
    cases hb
  rcases Sweep.iter_cases now rfl hconns he with ⟨hl, hw⟩ | ⟨hl, hf, ho, hw⟩ | ⟨hl, hf, ho, hw⟩ |
    ⟨hl, hf, ho, hw⟩ | ⟨hl, hf, ho, hw⟩
  · exact iff_of_false (hagain _ hw) fun hk => hl hk.1
  · refine iff_of_true ⟨{ s with cs := s.cs.frontFreeConSelf e.2.pConn, heart := .blocked },
      [.stopped e.2.pConn], ?_, rfl⟩ ⟨hl, hf, ho⟩
    simp only [step, hp, hw, he]
  · exact iff_of_false (hagain _ hw) fun hk => ho hk.2.2
  · refine iff_of_false ?_ fun hk => hf hk.2.1
    rintro ⟨t, os, ht, hb⟩
    simp only [step, hp, hw] at ht
    cases ht
    cases hb
  · exact iff_of_false (hagain _ hw) fun hk => hf hk.2.1

end Beating

/-- The thread that an output is of. -/
def BeatOut.thread : BeatOut → Option Thread
  | .handled i _ | .comes i _ => some i.thread
  | .entered _ | .stopped _ => none

/-- A thread comes to the mutex. -/
def BeatOut.arrives (h : Thread) : BeatOut → Bool
  | .comes i _ => i.thread = h
  | _ => false

namespace Beating

/-- **Nobody gets the mutex** from `s` to `t`. -/
structure Stalled (n : ℕ) (s t : Beating) (os : List BeatOut) : Prop where
  heart : t.heart = .blocked
  map : t.cs.mTimerQueuemap = s.cs.mTimerQueuemap
  entered : ∀ op, .entered op ∉ os
  loop : os.countP (BeatOut.arrives .loop) + s.loop.toList.length = t.loop.toList.length
  pool : os.countP (BeatOut.arrives .pool) + s.pool.length = t.pool.length
  full : t.pool.length ≤ max n s.pool.length
  /-- where the event loop has come to the mutex, it does nothing more -/
  last : os.Pairwise fun o o' => o.arrives .loop = true → o'.thread ≠ some .loop
  /-- where it was there already, it does nothing -/
  gone : s.loop ≠ none → ∀ o ∈ os, o.thread ≠ some .loop

variable {cfg : Conf} {n : ℕ} {s t u : Beating} {i : BeatStep} {e : ℤ × StrucMsgHeader}
  {rest : List (ℤ × StrucMsgHeader)} {now : ℤ} {os o : List BeatOut}

theorem Stalled.refl (h : s.heart = .blocked) : Stalled n s s [] where
  heart := h
  map := rfl
  entered _ := List.not_mem_nil
  loop := Nat.zero_add _
  pool := Nat.zero_add _
  full := le_max_right _ _
  last := .nil
  gone _ _ ho := absurd ho List.not_mem_nil

theorem front_thread {s : CSocket} {j : Step} {r : (CSocket × List PoolEv) × PingOp}
    (h : s.front cfg j = some r) : j.thread = .loop ∨ j.thread = .pool := by
  cases j with
  | accept | read | hup => exact Or.inl rfl
  | task => exact Or.inr rfl
  | wait | edge | write | ping | visit | expire | timerFree => cases h

/-- While the heartbeat thread has stopped, a thread only begins a step. -/
theorem step_of_blocked (hs : s.heart = .blocked) (h : s.step cfg n i = some (t, o)) :
    ∃ j os, s.Idle n j.thread ∧ t.heart = .blocked ∧
      t.cs.mTimerQueuemap = s.cs.mTimerQueuemap ∧
      (o = [.handled j os] ∧ t.loop = s.loop ∧ t.pool = s.pool ∨
        o = [.comes j os] ∧ j.thread = .loop ∧ t.loop ≠ none ∧ t.pool = s.pool ∨
        o = [.comes j os] ∧ j.thread = .pool ∧ t.loop = s.loop ∧
          t.pool.length = s.pool.length + 1) := by
  cases i with
  | lock | time now | iter | loop | pool op => simp [step, hs] at h
  | start j =>
    simp only [step] at h
    split_ifs at h with hidle
    have hbeat : j.thread ≠ .heartbeat := by
      intro hj
      rw [hj] at hidle
      exact hidle
    cases hf : s.cs.front cfg j with
    | none =>
      rw [hf] at h
      obtain ⟨⟨cs, os⟩, hr, he⟩ := Option.map_eq_some_iff.mp h
      cases he
      exact ⟨j, os, hidle, hs, step_map hbeat hf hr, Or.inl ⟨rfl, rfl, rfl⟩⟩
    | some r =>
      obtain ⟨⟨cs, os⟩, op⟩ := r
      rw [hf] at h
      cases h
      have hmap := front_map hf
      rcases front_thread hf with hj | hj
      · rw [queue, if_pos hj]
        exact ⟨j, os, hidle, hs, hmap, Or.inr (Or.inl ⟨rfl, hj, Option.some_ne_none _, rfl⟩)⟩
      · rw [queue, if_neg (by rw [hj]; decide)]
        exact ⟨j, os, hidle, hs, hmap, Or.inr (Or.inr ⟨rfl, hj, rfl, rfl⟩)⟩

theorem length_toList_eq_one {α : Type} {x : Option α} (h : x ≠ none) : x.toList.length = 1 := by
  cases x with
  | none => exact absurd rfl h
  | some a => rfl

theorem Stalled.loop_free (h : Stalled n s t os) (hl : t.loop = none) :
    s.loop = none ∧ ∀ o ∈ os, ¬ o.arrives .loop = true := by
  have hloop := h.loop
  rw [hl, Option.toList_none, List.length_nil, Nat.add_eq_zero_iff] at hloop
  constructor
  · by_contra hne
    rw [length_toList_eq_one hne] at hloop
    exact absurd hloop.2 one_ne_zero
  · exact List.countP_eq_zero.mp hloop.1

/-- **A step behind the stop.** -/
theorem Stalled.step (h : Stalled n s t os) (hstep : t.step cfg n i = some (u, o)) :
    Stalled n s u (os ++ o) := by
  obtain ⟨j, ps, hidle, hheart, hmap, hcase⟩ := step_of_blocked h.heart hstep
  have hfree : j.thread = .loop → t.loop = none := by
    intro hj
    rw [hj] at hidle
    exact hidle
  have hlast : ∀ x : BeatOut, x.thread = some j.thread →
      (os ++ [x]).Pairwise fun o o' => o.arrives .loop = true → o'.thread ≠ some .loop := by
    intro x hx
    refine List.pairwise_append.mpr ⟨h.last, List.pairwise_singleton .., fun o ho o' ho' => ?_⟩
    rw [List.mem_singleton.mp ho', hx]
    intro ha hj
    exact (h.loop_free (hfree (Option.some.inj hj))).2 o ho ha
  have hgone : ∀ x : BeatOut, x.thread = some j.thread →
      s.loop ≠ none → ∀ o ∈ os ++ [x], o.thread ≠ some .loop := by
    intro x hx hne o ho
    rcases List.mem_append.mp ho with ho | ho
    · exact h.gone hne o ho
    · rw [List.mem_singleton.mp ho, hx]
      exact fun hj => hne (h.loop_free (hfree (Option.some.inj hj))).1
  have hentered : ∀ x : BeatOut, x.thread = some j.thread → ∀ op, .entered op ∉ os ++ [x] := by
    intro x hx op hop
    rcases List.mem_append.mp hop with hop | hop
    · exact h.entered op hop
    · rw [← List.mem_singleton.mp hop] at hx
      cases hx
  have hloop := h.loop
  have hpool := h.pool
  have hfull := h.full
  rcases hcase with ⟨rfl, hl, hp⟩ | ⟨rfl, hj, hl, hp⟩ | ⟨rfl, hj, hl, hp⟩
  · refine ⟨hheart, hmap.trans h.map, hentered _ rfl, ?_, ?_, ?_, hlast _ rfl, hgone _ rfl⟩
    · rw [hl, ← hloop]
      simp [BeatOut.arrives]
    · rw [hp, ← hpool]
      simp [BeatOut.arrives]
    · rw [hp]
      exact hfull
  · have hone := length_toList_eq_one hl
    have hzero : t.loop.toList.length = 0 := by rw [hfree hj]; rfl
    refine ⟨hheart, hmap.trans h.map, hentered _ rfl, ?_, ?_, ?_, hlast _ rfl, hgone _ rfl⟩
    · simp [BeatOut.arrives, hj]
      omega
    · rw [hp, ← hpool]
      simp [BeatOut.arrives, hj]
    · rw [hp]
      exact hfull
  · have hlt : t.pool.length < n := by
      rw [hj] at hidle
      exact hidle
    refine ⟨hheart, hmap.trans h.map, hentered _ rfl, ?_, ?_, ?_, hlast _ rfl, hgone _ rfl⟩
    · rw [hl, ← hloop]
      simp [BeatOut.arrives, hj]
    · rw [hp, ← hpool]
      simp [BeatOut.arrives, hj]
      omega
    · omega

/-- **The end of the heartbeat.** The iteration that comes to a timed-out connection stops the
heartbeat thread, and whatever the threads do then, nobody gets the mutex. -/
theorem stalled_run (cfg : Conf) (n : ℕ) (s : Beating) (now : ℤ) (e : ℤ × StrucMsgHeader)
    (rest : List (ℤ × StrucMsgHeader)) (hp : s.heart = .passing now)
    (he : s.cs.mTimerQueuemap = e :: rest) (hk : s.cs.Kicks e now) :
    ∃ s' os', s.step cfg n .iter = some (s', os') ∧
      ∀ is t os, Run.run (step cfg n) s' is = some (t, os) → Stalled n s' t os := by
  obtain ⟨s', os', hs', hb⟩ := (iter_stops_iff hp he).mpr hk
  refine ⟨s', os', hs', fun is t os hr => ?_⟩
  let R : List BeatStep → List BeatOut → Beating → Prop := fun _ os u => Stalled n s' u os
  have hstep : ∀ is os u i u' o, R is os u → True → step cfg n u i = some (u', o) →
      R (is ++ [i]) (os ++ o) u' := fun _ _ _ _ _ _ h _ hs => h.step hs
  exact @Run.run_induct _ _ _ _ _ R hstep [] [] s' t is os (Stalled.refl hb)
    (Run.guarded_true _ _) hr

/-- No thread has come to the mutex. -/
def init (s : CSocket) : Beating := ⟨s, .waiting, none, []⟩

/-- A client that comes at 0 and is silent till 70. -/
theorem stalled_silent :
    let cfg : Conf := ⟨6, .etOpen, 0, 100, 10⟩
    let s := (ngxEpollInit cfg (fun _ => .zero) [3]).get (by decide +kernel)
    let t := (Run.run (step cfg 2) (init s)
      [.start (.accept 5 0 true), .loop, .lock, .time 70]).get (by decide +kernel)
    ∃ s' os', t.1.step cfg 2 .iter = some (s', os') ∧
      ∀ is u os, Run.run (step cfg 2) s' is = some (u, os) → Stalled 2 s' u os :=
  stalled_run _ 2 _ 70 (0, ⟨⟨0, 1⟩, 1⟩) [] (by decide +kernel) (by decide +kernel)
    (by decide +kernel)

end Beating

end ServerNginx
