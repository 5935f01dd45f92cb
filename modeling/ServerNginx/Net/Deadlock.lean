import ServerNginx.Net.Response

set_option autoImplicit false

/-!
# The event loop and the pool over the locks of connections

In LT mode the event loop reads packets, takes the lock of a connection in `TestFlood`, and queues
tasks; pool threads take the lock in the handlers. A response that `sendMsg` leaves to `EPOLLOUT`
keeps the lock until a `sendRemainMsg` task gives it back. A step is what a thread does between two
points at which it can be blocked.

* `Process.NoDeadlock`: while a response is left, neither the event loop nor the whole pool waits
  for its lock;
* `Process.Safe`: the steps that keep it so;
* **`noDeadlock_iff`**: there is no deadlock all along a run exactly when every step is safe.
-/

namespace ServerNginx

/-- The lock of a connection. -/
inductive ConnLock
  | free
  /-- a handler has it -/
  | handler
  /-- `sendMsg` has left the rest of the handler's response, and the lock with it -/
  | left (h : Handler)
  /-- `sendMsg` has given up the response, and left the lock taken -/
  | lost
  deriving DecidableEq, Repr

/-- The event loop thread: it goes through the events of `epoll_wait`, or is in `TestFlood`. -/
inductive EventLoop
  | events
  | testFlood (c : Addr)
  deriving DecidableEq, Repr

/-- A task of the pool. -/
inductive PoolTask
  /-- `threadRecvProcFunc` of a packet of connection `c` -/
  | packet (c : Addr)
  | sendRemainMsg (c : Addr)
  deriving DecidableEq, Repr

/-- A thread of the pool. -/
inductive PoolThread
  | idle
  /-- at `logicPorcMutex.lock()` of a handler -/
  | waiting (c : Addr) (h : Handler)
  /-- in a handler, with the lock -/
  | sending (c : Addr) (h : Handler)
  | remaining (c : Addr)
  deriving DecidableEq, Repr

/-- What reading a connection once comes to. -/
inductive ReadResult
  /-- more bytes are to come -/
  | more
  /-- `TestFlood` is called -/
  | testFlood
  /-- the rest of a body is complete -/
  | packet
  deriving DecidableEq, Repr

/-- How `sendMsg` returns: see `sendMsg_cases` and `sendMsgIter_cases`. -/
inductive SendResult
  | sent
  | left
  | lost
  deriving DecidableEq, Repr

/-- The event loop thread and a pool of `n + 1` threads. -/
structure Process (n : ℕ) where
  lock : Addr → ConnLock
  /-- the event a connection is registered for -/
  event : Addr → OprEvent
  loop : EventLoop
  /-- the events `epoll_wait` has returned and the loop has not come to -/
  mEvents : List (Addr × OprEvent)
  taskBuf : List PoolTask
  threads : Fin (n + 1) → PoolThread

/-- What happens. -/
inductive ProcessStep (n : ℕ)
  | epollWait (events : List (Addr × OprEvent))
  /-- the loop comes to the next event -/
  | event (r : ReadResult)
  /-- `TestFlood` gets the lock and gives it back; with it a packet may be complete -/
  | flooded (packet : Bool)
  /-- a thread takes a task; a packet gets a handler or none -/
  | getTask (w : Fin (n + 1)) (h : Option Handler)
  | lock (w : Fin (n + 1))
  /-- `sendMsg` returns, and its handler with it -/
  | sendMsg (w : Fin (n + 1)) (r : SendResult)
  /-- `sendRemainMsg` returns; it has sent all, or the peer is gone -/
  | sendRemainMsg (w : Fin (n + 1)) (sent : Bool)
  deriving DecidableEq

namespace Process

variable {n : ℕ} (s : Process n)

/-- The process when all connections are idle. -/
def start (n : ℕ) : Process n :=
  ⟨fun _ => .free, fun _ => .readEvent, .events, [], [], fun _ => .idle⟩

/-- A thread goes on. -/
def setThread (w : Fin (n + 1)) (a : PoolThread) : Process n :=
  { s with threads := Function.update s.threads w a }

/-- The lock of connection `c` changes. -/
def setLock (c : Addr) (l : ConnLock) : Process n := { s with lock := Function.update s.lock c l }

/-- `ngx_epoll_opr_event`. -/
def oprEvent (c : Addr) (e : OprEvent) : Process n :=
  { s with event := Function.update s.event c e }

/-- `AddTask`. -/
def addTask (t : PoolTask) : Process n := { s with taskBuf := s.taskBuf ++ [t] }

/-- **One step**; `none` is a step that cannot be taken, or a `sendRemainMsg` that finds no
response. -/
def step (s : Process n) : ProcessStep n → Option (Process n × List Unit)
  | .epollWait events =>
    if s.loop = .events ∧ s.mEvents = [] ∧ ∀ e ∈ events, s.event e.1 = e.2 then
      some ({ s with mEvents := events }, [])
    else none
  | .event r =>
    match s.loop, s.mEvents with
    | .events, (c, .writeEvent) :: es =>
      some ({ s with mEvents := es }.addTask (.sendRemainMsg c), [])
    | .events, (c, .readEvent) :: es =>
      match r with
      | .more => some ({ s with mEvents := es }, [])
      | .testFlood => some ({ s with mEvents := es, loop := .testFlood c }, [])
      | .packet => some ({ s with mEvents := es }.addTask (.packet c), [])
    | _, _ => none
  | .flooded packet =>
    match s.loop with
    | .testFlood c =>
      if s.lock c = .free then
        some (if packet then { s with loop := .events }.addTask (.packet c)
          else { s with loop := .events }, [])
      else none
    | .events => none
  | .getTask w h =>
    match s.threads w, s.taskBuf with
    | .idle, .packet c :: q =>
      match h with
      | some h => some ({ s with taskBuf := q }.setThread w (.waiting c h), [])
      | none => some ({ s with taskBuf := q }, [])
    | .idle, .sendRemainMsg c :: q =>
      -- only a ping sets `psendMemPointer`
      if s.lock c = .left .handlePing then
        some ({ s with taskBuf := q }.setThread w (.remaining c), [])
      else none
    | _, _ => none
  | .lock w =>
    match s.threads w with
    | .waiting c h =>
      if s.lock c = .free then some ((s.setLock c .handler).setThread w (.sending c h), [])
      else none
    | _ => none
  | .sendMsg w r =>
    match s.threads w with
    | .sending c h =>
      match r with
      | .sent => some ((s.setLock c .free).setThread w .idle, [])
      | .left => some (((s.setLock c (.left h)).oprEvent c .writeEvent).setThread w .idle, [])
      | .lost => some ((s.setLock c .lost).setThread w .idle, [])
    | _ => none
  | .sendRemainMsg w sent =>
    match s.threads w with
    | .remaining c =>
      if s.lock c = .left .handlePing then
        let s' := (s.setLock c .free).setThread w .idle
        some (if sent then s'.oprEvent c .readEvent else s', [])
      else none
    | _ => none

/-- Connection `c` has the rest of a response to send. -/
def Left (c : Addr) : Prop := ∃ h, s.lock c = .left h

/-- **No deadlock** over a response that is left. -/
structure NoDeadlock : Prop where
  loop : ∀ c, s.Left c → s.loop ≠ .testFlood c
  pool : ∀ c, s.Left c → ∃ w, ∀ h, s.threads w ≠ .waiting c h

/-- **A step that keeps the process live**: the event loop does not enter `TestFlood` of a
connection with a response left, no response is left while the loop is there, and a thread that
takes a packet of such a connection is not the last that is not blocked on it. -/
def Safe : ProcessStep n → Prop
  | .event .testFlood => ∀ c, s.mEvents.head? = some (c, .readEvent) → ¬ s.Left c
  | .getTask w (some _) => ∀ c, s.taskBuf.head? = some (.packet c) → s.Left c →
      ∃ v, v ≠ w ∧ ∀ h, s.threads v ≠ .waiting c h
  | .sendMsg w .left => ∀ c h, s.threads w = .sending c h → s.loop ≠ .testFlood c
  | _ => True

variable {s} {s' : Process n} {o : List Unit} {i : ProcessStep n} {c d : Addr} {w : Fin (n + 1)}

/-! ## One step -/

theorem start_noDeadlock : (start n).NoDeadlock :=
  ⟨fun _ _ => nofun, fun _ ⟨_, h⟩ => by cases h⟩

theorem NoDeadlock.of_le (h : s.NoDeadlock) (hleft : ∀ c, s'.Left c → s.Left c)
    (hloop : ∀ c, s'.loop = .testFlood c → s.loop = .testFlood c)
    (hthreads : ∀ w c k, s'.threads w = .waiting c k → s.threads w = .waiting c k) :
    s'.NoDeadlock where
  loop c hc hl := h.loop c (hleft c hc) (hloop c hl)
  pool c hc := by
    obtain ⟨w, hw⟩ := h.pool c (hleft c hc)
    exact ⟨w, fun k hk => hw k (hthreads w c k hk)⟩

@[simp] theorem threads_setThread_self (a : PoolThread) : (s.setThread w a).threads w = a :=
  Function.update_self ..

theorem threads_setThread {a : PoolThread} (ha : ∀ c k, a ≠ .waiting c k) (v : Fin (n + 1))
    (c : Addr) (k : Handler) (h : (s.setThread w a).threads v = .waiting c k) :
    s.threads v = .waiting c k := by
  by_cases hv : v = w
  · subst hv
    exact absurd ((threads_setThread_self a).symm.trans h) (ha c k)
  · exact (Function.update_of_ne hv a s.threads) ▸ h

theorem left_setLock {l : ConnLock} (hl : ∀ h, l ≠ .left h) (h : (s.setLock c l).Left d) :
    s.Left d := by
  obtain ⟨k, hk⟩ := h
  by_cases hd : d = c
  · subst hd
    exact absurd (Function.update_self (f := s.lock) d l ▸ hk) (hl k)
  · exact ⟨k, (Function.update_of_ne hd l s.lock) ▸ hk⟩

theorem step_event {r : ReadResult} (h : s.NoDeadlock)
    (hs : s.step (.event r) = some (s', o)) : s'.NoDeadlock ↔ s.Safe (.event r) := by
  simp only [step] at hs
  split at hs
  case h_1 c es _ he =>
    cases hs
    refine iff_of_true (h.of_le (fun _ => id) (fun _ => id) fun _ _ _ => id) ?_
    cases r with
    | testFlood =>
      intro d hd
      rw [he] at hd
      cases hd
    | more | packet => trivial
  case h_2 c es _ he =>
    cases r with
    | more | packet =>
      cases hs
      exact iff_of_true (h.of_le (fun _ => id) (fun _ => id) fun _ _ _ => id) trivial
    | testFlood =>
      cases hs
      constructor
      · intro h' d hd hleft
        rw [he] at hd
        cases hd
        exact h'.loop c hleft rfl
      · intro hsafe
        refine ⟨fun d hleft hd => ?_, h.pool⟩
        cases hd
        exact hsafe c (by rw [he]; rfl) hleft
  case h_3 => cases hs

theorem step_getTask {k : Option Handler} (h : s.NoDeadlock)
    (hs : s.step (.getTask w k) = some (s', o)) : s'.NoDeadlock ↔ s.Safe (.getTask w k) := by
  simp only [step] at hs
  split at hs
  case h_1 c q hw hq =>
    cases k with
    | none =>
      cases hs
      exact iff_of_true (h.of_le (fun _ => id) (fun _ => id) fun _ _ _ => id) trivial
    | some k =>
      cases hs
      have hother : ∀ v, v ≠ w → ∀ d l,
          ({ s with taskBuf := q }.setThread w (.waiting c k)).threads v = .waiting d l →
            s.threads v = .waiting d l := fun v hv d l hd =>
        (Function.update_of_ne hv (PoolThread.waiting c k) s.threads) ▸ hd
      have hself : ({ s with taskBuf := q }.setThread w (.waiting c k)).threads w =
          .waiting c k := threads_setThread_self _
      constructor
      · intro h' d hd hleft
        rw [hq] at hd
        cases hd
        obtain ⟨v, hv⟩ := h'.pool c hleft
        have hvw : v ≠ w := by
          rintro rfl
          exact hv k hself
        exact ⟨v, hvw, fun l hl => hv l ((Function.update_of_ne hvw _ s.threads).trans hl)⟩
      · intro hsafe
        refine ⟨h.loop, fun d hleft => ?_⟩
        by_cases hd : d = c
        · subst hd
          obtain ⟨v, hvw, hv⟩ := hsafe d (by rw [hq]; rfl) hleft
          exact ⟨v, fun l hl => hv l (hother v hvw d l hl)⟩
        · obtain ⟨v, hv⟩ := h.pool d hleft
          refine ⟨v, fun l hl => ?_⟩
          by_cases hvw : v = w
          · subst hvw
            rw [hself] at hl
            cases hl
            exact hd rfl
          · exact hv l (hother v hvw d l hl)
  case h_2 c q hw hq =>
    split_ifs at hs
    cases hs
    refine iff_of_true (h.of_le (fun _ => id) (fun _ => id) (threads_setThread nofun)) ?_
    cases k with
    | none => trivial
    | some k =>
      intro d hd
      rw [hq] at hd
      cases hd
  case h_3 => cases hs

theorem step_sendMsg {r : SendResult} (h : s.NoDeadlock)
    (hs : s.step (.sendMsg w r) = some (s', o)) : s'.NoDeadlock ↔ s.Safe (.sendMsg w r) := by
  simp only [step] at hs
  split at hs
  case h_1 c k hw =>
    cases r with
    | sent =>
      cases hs
      exact iff_of_true (h.of_le (fun _ => left_setLock nofun) (fun _ => id)
        (threads_setThread nofun)) trivial
    | lost =>
      cases hs
      exact iff_of_true (h.of_le (fun _ => left_setLock nofun) (fun _ => id)
        (threads_setThread nofun)) trivial
    | left =>
      cases hs
      constructor
      · intro h' d l hd
        rw [hw] at hd
        cases hd
        exact h'.loop c ⟨k, Function.update_self ..⟩
      · intro hsafe
        refine ⟨fun d ⟨l, hl⟩ hd => ?_, fun _ _ => ⟨w, fun l hl => ?_⟩⟩
        · by_cases hdc : d = c
          · subst hdc
            exact hsafe d k hw hd
          · exact h.loop d ⟨l, (Function.update_of_ne hdc _ s.lock).symm.trans hl⟩ hd
        · cases (threads_setThread_self PoolThread.idle).symm.trans hl
  case h_2 => cases hs

/-- **One step.** -/
theorem step_noDeadlock (h : s.NoDeadlock) (hs : s.step i = some (s', o)) :
    s'.NoDeadlock ↔ s.Safe i := by
  cases i with
  | epollWait events =>
    simp only [step] at hs
    split_ifs at hs
    cases hs
    exact iff_of_true (h.of_le (fun _ => id) (fun _ => id) fun _ _ _ => id) trivial
  | event r => exact step_event h hs
  | flooded packet =>
    simp only [step] at hs
    split at hs
    case h_1 c _ =>
      split_ifs at hs <;>
      · cases hs
        exact iff_of_true (h.of_le (fun _ => id) nofun fun _ _ _ => id) trivial
    case h_2 => cases hs
  | getTask w k => exact step_getTask h hs
  | lock w =>
    simp only [step] at hs
    split at hs
    case h_1 c k hw =>
      split_ifs at hs
      cases hs
      exact iff_of_true (h.of_le (fun _ => left_setLock nofun) (fun _ => id)
        (threads_setThread nofun)) trivial
    case h_2 => cases hs
  | sendMsg w r => exact step_sendMsg h hs
  | sendRemainMsg w sent =>
    simp only [step] at hs
    split at hs
    case h_1 c hw =>
      split_ifs at hs <;>
      · cases hs
        exact iff_of_true (h.of_le (fun _ => left_setLock nofun) (fun _ => id)
          (threads_setThread nofun)) trivial
    case h_2 => cases hs

/-- **No deadlock.** With `n + 1` threads, a response that is left blocks neither the event loop
nor the whole pool all along a run exactly when every step of it is safe. -/
theorem noDeadlock_iff (n : ℕ) {is : List (ProcessStep n)}
    (hv : Run.Guarded step (Run.Defined step) (start n) is) :
    Run.Always step NoDeadlock (start n) is ↔ Run.Guarded step Safe (start n) is := by
  refine Run.always_iff_guarded (I := fun _ => True) (fun s i _ h hd => ?_) trivial
    start_noDeadlock hv
  obtain ⟨⟨s', o⟩, hs⟩ := Option.isSome_iff_exists.mp hd
  exact ⟨s', o, hs, step_noDeadlock h hs, fun _ => trivial⟩

/-! ## Two pings of one connection, one thread -/

/-- A ping of a connection comes in one piece. -/
def pingComes (c : Addr) : List (ProcessStep 0) :=
  [.epollWait [(c, .readEvent)], .event .testFlood, .flooded true]

/-- A thread handles a ping, the rest of its answer is left and sent later. -/
theorem noDeadlock_ping : Run.Always step NoDeadlock (start 0)
    (pingComes ⟨0, 1⟩ ++ [.getTask 0 (some .handlePing), .lock 0, .sendMsg 0 .left,
      .epollWait [(⟨0, 1⟩, .writeEvent)], .event .more, .getTask 0 none,
      .sendRemainMsg 0 true]) := by
  refine (noDeadlock_iff 0 (by decide)).mpr ?_
  refine ⟨trivial, ?_⟩
  rintro _ _ ⟨⟩
  refine ⟨fun _ _ ⟨_, h⟩ => (by cases h), ?_⟩
  rintro _ _ ⟨⟩
  refine ⟨trivial, ?_⟩
  rintro _ _ ⟨⟩
  refine ⟨fun _ _ ⟨_, h⟩ => (by cases h), ?_⟩
  rintro _ _ ⟨⟩
  refine ⟨trivial, ?_⟩
  rintro _ _ ⟨⟩
  refine ⟨fun _ _ _ => nofun, ?_⟩
  rintro _ _ ⟨⟩
  refine ⟨trivial, ?_⟩
  rintro _ _ ⟨⟩
  refine ⟨trivial, ?_⟩
  rintro _ _ ⟨⟩
  refine ⟨trivial, ?_⟩
  rintro _ _ ⟨⟩
  exact ⟨trivial, fun _ _ _ => trivial⟩

/-- The thread takes the second ping while the answer to the first is left. -/
theorem not_always_noDeadlock : ¬ ∀ (n : ℕ) (is : List (ProcessStep n)),
    Run.Always step NoDeadlock (start n) is := by
  intro h
  have ha := h 0 (pingComes ⟨0, 1⟩ ++ pingComes ⟨0, 1⟩ ++ [.getTask 0 (some .handlePing), .lock 0,
    .sendMsg 0 .left, .getTask 0 (some .handlePing)])
  have hcheck : ((Run.run step (start 0) (pingComes ⟨0, 1⟩ ++ pingComes ⟨0, 1⟩ ++
    [.getTask 0 (some .handlePing), .lock 0, .sendMsg 0 .left,
      .getTask 0 (some .handlePing)])).any fun r =>
        decide (r.1.lock ⟨0, 1⟩ = .left .handlePing ∧
          ∀ w, r.1.threads w = .waiting ⟨0, 1⟩ .handlePing)) = true := by decide
  obtain ⟨⟨s, os⟩, hr, hcheck⟩ := Run.exists_of_any hcheck
  obtain ⟨hleft, hall⟩ := of_decide_eq_true hcheck
  obtain ⟨w, hw⟩ := (ha.last hr).pool _ ⟨_, hleft⟩
  exact hw _ (hall w)

end Process

end ServerNginx
