import ServerNginx.Net.Request
import ServerNginx.Net.Response

set_option autoImplicit false

/-!
# Bytes no event is left for

A connection in ET mode with its socket's receive buffer. The kernel reports `EPOLLIN` once for
bytes that arrive, and once more where `ngx_epoll_opr_event` finds bytes; an event queues a task.
`recvproc_ET` takes the lock, reads in its loop and calls the handler of a complete packet; the
rest of a response is sent by `sendRemainMsg`. Where `Business` throws, the task ends with the
exception in the `std::packaged_task` of its thread, and keeps the lock.

* `EtConn.step`: one step of the kernel or of a task;
* `EtConn.NotStranded`: where no task and no event is to come, the receive buffer is empty;
* `EtConn.Safe`: the last task to end leaves no byte in the buffer;
* **`notStranded_iff`**: no byte is stranded all along a run exactly when every step is safe.
-/

namespace ServerNginx

/-- `recvproc_ET` has left its loop with a packet and not returned. -/
def Phase.Handling : Phase → Bool
  | .received | .called _ | .locked _ | .prepared _ | .sending _ => true
  | .start | .waiting | .remaining | .done => false

/-- A connection in ET mode; the event its socket is registered for is `proc.conn.event`. -/
structure EtConn where
  recv : Connection
  /-- the send side, and where the handling of the latest packet stands -/
  proc : Processing
  job : Job
  /-- the bytes of the peer that `recv` has not returned -/
  buffer : List UInt8
  /-- an `EPOLLIN` is to be delivered -/
  edge : Bool
  /-- an `EPOLLOUT` is to be delivered -/
  outPending : Bool
  /-- `recvproc_ET` tasks that have not got the lock -/
  tasks : ℕ
  /-- `recvproc_ET` is in its loop -/
  reading : Bool
  /-- `sendRemainMsg` tasks in the queue -/
  queued : ℕ
  /-- threads in the loop of `sendRemainMsg` -/
  looping : ℕ

/-- What happens on a connection in ET mode. -/
inductive EtStep
  | arrive (bytes : List UInt8)
  /-- `ngx_read_request_handler_ET` -/
  | epollIn
  /-- `ngx_write_request_handler` -/
  | epollOut
  /-- `recvproc_ET` gets the lock -/
  | lock
  /-- `recv` returns in the loop of `recvproc_ET`; `j` is the handling of the packet that may be
  complete with it -/
  | recv (now : UInt64) (j : Job)
  /-- `recvproc_ET` goes on behind its loop -/
  | run
  /-- `Business` throws, and leaves its object as `obj` -/
  | thrown (obj : HttpServer)
  /-- `WriteFunc` returns to `sendMsg` -/
  | write (r : WriteRet)
  /-- a thread takes a `sendRemainMsg` task -/
  | remain
  /-- `WriteFunc` returns to `sendRemainMsg` -/
  | remainWrite (r : WriteRet)

namespace EtConn

variable (cfg : Conf) (self : Addr) (s : EtConn)

/-- A connection that has been accepted. -/
def start (fd : ℤ) (seq : UInt64) (obj : HttpServer) (j : Job) : EtConn where
  recv := .accepted fd seq 0
  proc := ⟨⟨seq, false, none, none, 0, false, .readEvent, fun _ => none⟩, obj, .done⟩
  job := j
  buffer := []
  edge := false
  outPending := false
  tasks := 0
  reading := false
  queued := 0
  looping := 0

/-- `epoll_ctl` of `ngx_epoll_opr_event`: reading is reported where there are bytes, writing once
there is room. -/
def epollCtl : OprEvent → EtConn
  | .readEvent => { s with edge := !s.buffer.isEmpty, outPending := false }
  | .writeEvent => { s with edge := false, outPending := true }

/-- The send side changes. -/
def setConn (c : SendSide) : EtConn := { s with proc := { s.proc with conn := c } }

/-- The packet `pkg` is what is in the memory of message `m`. -/
def Holds (m : Msg) (pkg : List UInt8) : Prop :=
  pkg.length = m.pkg.length ∧ ∀ x ∈ m.pkg.zip pkg, x.1 = none ∨ x.1 = some x.2

-- the instances of `Fintype` would go through all bytes
instance (m : Msg) (pkg : List UInt8) : Decidable (Holds m pkg) :=
  @instDecidableAnd _ _ _ (List.decidableBAll _ _)

/-- A complete packet is passed to `threadRecvProcFunc`. -/
def receive (m : Msg) (j : Job) : Option EtConn :=
  if j.mETflag = .etOpen ∧ j.floodflag = false ∧ Holds m j.pkg ∧
      s.proc.conn.memory j.arg = none then
    some { s with
      job := j
      reading := false
      proc := { s.proc with
        conn := { s.proc.conn with
          memory := Function.update s.proc.conn.memory j.arg (some m.header.iCurrsequence) }
        phase := .received } }
  else none

/-- `recv` of at most `irecvlen` bytes in the loop of `recvproc_ET`; without bytes it fails with
`EAGAIN`. -/
def recvStep (now : UInt64) (j : Job) : Option EtConn :=
  if s.reading = false then none
  else if s.buffer = [] then
    some ({ s with reading := false }.setConn s.proc.conn.unlock)
  else if s.recv.irecvlen = 0 then none
  else
    (recvprocETIter cfg self s.recv ⟨now, s.buffer.take s.recv.irecvlen⟩).bind fun it =>
      let s := { s with recv := it.conn, buffer := s.buffer.drop s.recv.irecvlen }
      -- a flood is kicked
      if it.floodflag then none
      else if it.stop then
        match it.evs with
        | [.msg m] => s.receive m j
        | _ => none
      else some s

/-- `recvproc_ET` behind its loop. It returns with `sendMsg`. -/
def taskStep (i : JobStep) : Option EtConn :=
  if s.proc.phase.Handling then
    (s.job.step s.proc i).map fun q =>
      if q.1.phase = .waiting then { s with proc := q.1.finish }.epollCtl .writeEvent
      else { s with proc := q.1 }
  else none

/-- `Business` throws: `std::stoi` or `std::stof` is given no number, or one out of range. -/
def Throws : Bool :=
  match HttpServer.business s.job.env s.proc.obj (s.job.pkg.take iLenPkgHeader)
    (s.job.pkg.drop iLenPkgHeader) with
  | .error (.conv _) => true
  | _ => false

/-- The task ends with an exception, in the handler. -/
def thrownStep (obj : HttpServer) : Option EtConn :=
  if s.proc.phase = .locked .handleBusiness ∧ s.Throws = true then
    some { s with proc := ⟨s.proc.conn, obj, .done⟩ }
  else none

/-- A thread has left `sendRemainMsg` at `it`, with `queued` tasks and `looping` other threads. -/
def remained (it : SendIter) (queued looping : ℕ) : EtConn :=
  { s.setConn it.conn with
    queued := queued
    looping := if it.next = .loop then looping + 1 else looping }

/-- `sendRemainMsg` up to its loop. -/
def remainStep : Option EtConn :=
  if s.queued = 0 then none
  else (sendRemainMsg s.proc.conn).map fun it => s.remained it (s.queued - 1) s.looping

/-- The loop of `sendRemainMsg`. -/
def remainWriteStep (r : WriteRet) : Option EtConn :=
  if s.looping = 0 then none
  else (sendRemainIter s.proc.conn r).map fun it =>
    let s' := s.remained it s.queued (s.looping - 1)
    if r = .ret s.proc.conn.isendlen then s'.epollCtl .readEvent else s'

/-- **One step**; `none` is an access to memory that is not there, a step that cannot be taken, or
the connection being closed or kicked. -/
def step (s : EtConn) : EtStep → Option (EtConn × List Unit)
  | .arrive bytes =>
    if bytes = [] then none
    else some ({ s with
      buffer := s.buffer ++ bytes
      edge := s.edge || decide (s.proc.conn.event = .readEvent) }, [])
  | .epollIn =>
    if s.edge then some ({ s with edge := false, tasks := s.tasks + 1 }, []) else none
  | .epollOut =>
    if s.proc.conn.event = .writeEvent then
      some ({ s with outPending := false, queued := s.queued + 1 }, [])
    else none
  | .lock =>
    if s.tasks ≠ 0 ∧ s.proc.conn.logicPorcMutex = false ∧ s.reading = false ∧
        s.proc.phase = .done then
      some ({ s with tasks := s.tasks - 1, reading := true }.setConn
        { s.proc.conn with logicPorcMutex := true }, [])
    else none
  | .recv now j => (s.recvStep cfg self now j).map fun s => (s, [])
  | .run => (s.taskStep .run).map fun s => (s, [])
  | .thrown obj => (s.thrownStep obj).map fun s => (s, [])
  | .write r => (s.taskStep (.write r)).map fun s => (s, [])
  | .remain => s.remainStep.map fun s => (s, [])
  | .remainWrite r => (s.remainWriteStep r).map fun s => (s, [])

/-- **No task and no event** is to come. -/
structure Quiescent : Prop where
  tasks : s.tasks = 0
  reading : s.reading = false
  phase : s.proc.phase = .done
  queued : s.queued = 0
  looping : s.looping = 0
  edge : s.edge = false
  outPending : s.outPending = false

/-- **No byte is stranded.** -/
def NotStranded : Prop := s.Quiescent → s.buffer = []

/-- How many tasks and events are to come. -/
def due : ℕ :=
  s.tasks + s.queued + s.looping + s.edge.toNat + s.outPending.toNat + s.reading.toNat +
    if s.proc.phase = .done then 0 else 1

/-- The message header in block `a` is not of this use of the connection. -/
def Stale (a : ℕ) : Prop := ∃ n ∈ s.proc.conn.memory a, n ≠ s.proc.conn.iCurrsequence

instance (a : ℕ) : Decidable (s.Stale a) := Option.decidableExistsMem _

/-- The handling of a packet is over in phase `p` without `sendMsg`, or `sendMsg` is not to send. -/
def HandlingEnds : Phase → Prop
  | .received => s.job.floodflag = true ∨ ∀ n ∈ s.proc.conn.memory s.job.arg,
      threadRecvProcFunc s.proc.conn n s.job.pkg = none
  | .called .handlePing => iBodyLength s.job.pkg ≠ 0
  | .prepared h => s.Stale (s.job.sendArg h)
  | _ => False

instance : ∀ p, Decidable (s.HandlingEnds p)
  | .received => @instDecidableOr _ _ _ (Option.decidableForallMem _)
  | .called .handlePing => inferInstanceAs (Decidable (_ ≠ _))
  | .prepared _ => inferInstanceAs (Decidable (s.Stale _))
  | .called .handleBusiness | .start | .locked _ | .sending _ | .waiting | .remaining | .done =>
    isFalse id

/-- **A task ends**, and asks for no event: a packet gets no handler, a ping has a body, `Business`
throws, a response is stale, all of it is sent, or the peer is gone. -/
def Ends : EtStep → Prop
  | .run => s.HandlingEnds s.proc.phase
  | .thrown _ => True
  | .write r => r = .ret s.proc.conn.isendlen ∨ r.PeerGone = true
  | .remain => (∃ a ∈ s.proc.conn.psendMemPointer, s.Stale a) ∨ s.proc.conn.isendlen = 0
  | .remainWrite r => r.PeerGone = true ∨ s.proc.conn.isendlen = 0 ∧ r ≠ .ret 0
  | _ => False

instance : ∀ i, Decidable (s.Ends i)
  | .run => inferInstanceAs (Decidable (s.HandlingEnds _))
  | .thrown _ => isTrue trivial
  | .write _ | .remain => inferInstanceAs (Decidable (_ ∨ _))
  | .remainWrite _ => inferInstanceAs (Decidable (_ ∨ _ ∧ _))
  | .arrive _ | .epollIn | .epollOut | .lock | .recv .. => isFalse id

/-- **A step that strands no byte**: bytes arrive where they are reported or something is to come,
and a task that ends finds the buffer empty or is not the last. -/
def Safe : EtStep → Prop
  | .arrive _ => s.proc.conn.event = .readEvent ∨ s.due ≠ 0
  | i => s.Ends i → s.buffer = [] ∨ 1 < s.due

instance : ∀ i, Decidable (s.Safe i)
  | .arrive _ => inferInstanceAs (Decidable (_ ∨ _))
  | .epollIn | .epollOut | .lock | .recv .. | .run | .thrown _ | .write _ | .remain
  | .remainWrite _ => inferInstanceAs (Decidable (s.Ends _ → _))

variable {cfg self s} {s' : EtConn} {o : List Unit} {i : EtStep}

/-! ## What is to come -/

theorem quiescent_iff : s.Quiescent ↔ s.due = 0 := by
  have hsum : s.due = 0 ↔ s.tasks = 0 ∧ s.queued = 0 ∧ s.looping = 0 ∧ s.edge = false ∧
      s.outPending = false ∧ s.reading = false ∧ s.proc.phase = .done := by
    simp only [due, Nat.add_eq_zero_iff, Bool.toNat_eq_zero, ite_eq_left_iff, one_ne_zero,
      imp_false, not_not, and_assoc]
  rw [hsum]
  constructor
  · intro h
    exact ⟨h.tasks, h.queued, h.looping, h.edge, h.outPending, h.reading, h.phase⟩
  · rintro ⟨htasks, hqueued, hlooping, hedge, hout, hreading, hphase⟩
    exact ⟨htasks, hreading, hphase, hqueued, hlooping, hedge, hout⟩

theorem notStranded_of_due (h : s.due ≠ 0) : s.NotStranded :=
  fun hq => absurd (quiescent_iff.mp hq) h

theorem notStranded_iff_due : s.NotStranded ↔ s.buffer = [] ∨ s.due ≠ 0 := by
  rw [NotStranded, quiescent_iff]
  tauto

theorem notStranded_of_end (hb : s'.buffer = s.buffer) (hd : s'.due + 1 = s.due) :
    s'.NotStranded ↔ s.buffer = [] ∨ 1 < s.due := by
  rw [notStranded_iff_due, hb]
  exact or_congr_right (by omega)

theorem keeps (hd : s'.due ≠ 0) (he : ¬ s.Ends i) :
    s'.NotStranded ↔ (s.Ends i → s.buffer = [] ∨ 1 < s.due) :=
  iff_of_true (notStranded_of_due hd) fun h => absurd h he

theorem ends (hb : s'.buffer = s.buffer) (hd : s'.due + 1 = s.due) (he : s.Ends i) :
    s'.NotStranded ↔ (s.Ends i → s.buffer = [] ∨ 1 < s.due) :=
  (notStranded_of_end hb hd).trans ⟨fun h _ => h, fun h => h he⟩

/-! ## One step -/

theorem recvStep_notStranded {now : UInt64} {j : Job} (hs : s.recvStep cfg self now j = some s') :
    s'.NotStranded := by
  unfold recvStep at hs
  split_ifs at hs with hreading hbuffer hlen
  · cases hs
    exact fun _ => hbuffer
  · obtain ⟨it, -, hs⟩ := Option.bind_eq_some_iff.mp hs
    replace hreading : s.reading = true := Bool.eq_true_of_not_eq_false hreading
    simp only at hs
    split_ifs at hs with hflood hstop
    · split at hs
      · unfold receive at hs
        split_ifs at hs
        cases hs
        exact notStranded_of_due (by simp [due])
      · cases hs
    · cases hs
      exact notStranded_of_due (by simp [due, hreading])

theorem run_ends {q : Processing} {os : List SendEv} (hh : s.proc.phase.Handling = true)
    (hs : s.job.run s.proc = some (q, os)) :
    q.phase ≠ .waiting ∧ (q.phase = .done ↔ s.Ends .run) := by
  unfold Ends HandlingEnds
  cases hp : s.proc.phase with
  | start | waiting | remaining | done =>
    rw [hp] at hh
    cases hh
  | sending h =>
    simp only [Job.run, hp] at hs
    cases hs
  | received =>
    rcases Job.run_received_cases hp hs with ⟨hflood, ⟨-, -, rfl⟩ | ⟨-, -, rfl⟩⟩ |
      ⟨hflood, -, n, hn, ⟨hk, rfl⟩ | ⟨k, hk, rfl⟩⟩
    · exact ⟨by simp [Processing.finish], iff_of_true rfl (Or.inl hflood)⟩
    · exact ⟨by simp, iff_of_true rfl (Or.inl hflood)⟩
    · refine ⟨by simp [Processing.finish], iff_of_true rfl (Or.inr fun m hm => ?_)⟩
      rw [hn] at hm
      cases hm
      exact hk
    · refine ⟨by simp, iff_of_false (by simp) ?_⟩
      rintro (he | he)
      · rw [hflood] at he
        cases he
      · rw [he n hn] at hk
        cases hk
  | called k =>
    rcases Job.run_called_cases hp hs with ⟨rfl, hbody, -, rfl⟩ | ⟨hbody, hlock⟩
    · exact ⟨by simp, iff_of_true rfl hbody⟩
    · have hph : q.phase = .locked k := by
        rcases Job.lockLT_cases hlock with ⟨-, -, -, rfl⟩ | ⟨-, -, rfl⟩
        · rfl
        · rfl
      rw [hph]
      refine ⟨by simp, iff_of_false (by simp) ?_⟩
      cases k with
      | handlePing => exact not_not.mpr (hbody rfl)
      | handleBusiness => exact id
  | locked k =>
    have hph : q.phase = .prepared k := by
      rcases Job.prepare_cases (Job.run_locked_cases hp hs).2 with ⟨-, n, -, -, rfl⟩ |
        ⟨-, reply, -, rfl⟩
      · rfl
      · rfl
    rw [hph]
    exact ⟨by simp, iff_of_false (by simp) id⟩
  | prepared k =>
    obtain ⟨it, hit, hs⟩ := Job.run_prepared_cases hp hs
    obtain ⟨-, -, hph, -⟩ := Job.sent_cases hs
    obtain ⟨n, hn, hit⟩ := Option.bind_eq_some_iff.mp hit
    split_ifs at hit with hne
    · obtain ⟨c, -, rfl⟩ := Option.map_eq_some_iff.mp hit
      rw [hph]
      exact ⟨by simp [Job.sentPhase], iff_of_true rfl ⟨n, hn, hne⟩⟩
    · cases hit
      rw [hph]
      refine ⟨by simp [Job.sentPhase], iff_of_false (by simp [Job.sentPhase]) ?_⟩
      rintro ⟨m, hm, hstale⟩
      rw [hn] at hm
      cases hm
      exact hne hstale

theorem write_ends {q : Processing} {os : List SendEv} {r : WriteRet}
    (hh : s.proc.phase.Handling = true) (hs : s.job.write s.proc r = some (q, os)) :
    q.phase = .waiting ∧ ¬ s.Ends (.write r) ∨
      q.phase ≠ .waiting ∧ (q.phase = .done ↔ s.Ends (.write r)) := by
  unfold Ends
  rcases Job.write_cases hs with ⟨k, it, o, -, hit, hq, -⟩ | ⟨it, hp, -⟩
  · obtain ⟨-, -, hph, -⟩ := Job.sent_cases hq
    rw [hph]
    rcases sendMsgIter_cases hit with ⟨-, hgone, hne, rfl⟩ | ⟨hshort, k, hk, rfl⟩ |
      ⟨hall, c, -, rfl⟩ | ⟨hgone, c, -, rfl⟩
    · refine Or.inr ⟨nofun, iff_of_false nofun ?_⟩
      rintro (he | he)
      · exact hne he
      · rw [hgone] at he
        cases he
    · refine Or.inl ⟨rfl, ?_⟩
      rcases hk with ⟨rfl, hk⟩ | ⟨rfl, -⟩
      · rintro (he | he)
        · cases he
          exact lt_irrefl _ hk
        · cases he
      · rintro (he | he) <;> cases he
    · exact Or.inr ⟨nofun, iff_of_true rfl (Or.inl hall)⟩
    · exact Or.inr ⟨nofun, iff_of_true rfl (Or.inr hgone)⟩
  · rw [hp] at hh
    cases hh

theorem taskStep_notStranded {k : JobStep} (hs : s.taskStep k = some s')
    (hk : ∀ q os, s.proc.phase.Handling = true → s.job.step s.proc k = some (q, os) →
      q.phase = .waiting ∧ ¬ s.Ends i ∨ q.phase ≠ .waiting ∧ (q.phase = .done ↔ s.Ends i)) :
    s'.NotStranded ↔ (s.Ends i → s.buffer = [] ∨ 1 < s.due) := by
  unfold taskStep at hs
  split_ifs at hs with hh
  obtain ⟨⟨q, os⟩, hq, rfl⟩ := Option.map_eq_some_iff.mp hs
  have hbusy : s.proc.phase ≠ .done := by
    intro hd
    rw [hd] at hh
    cases hh
  rcases hk q os hh hq with ⟨hw, hend⟩ | ⟨hw, hiff⟩
  · refine keeps ?_ hend
    simp [if_pos hw, due, epollCtl]
  · simp only [if_neg hw]
    by_cases hd : q.phase = .done
    · exact ends rfl (by simp [due, hd, hbusy]) (hiff.mp hd)
    · exact keeps (by simp [due, hd]) (hd ∘ hiff.mpr)

/-- Nothing is to come from a task that ends with an exception. -/
theorem thrownStep_notStranded {obj : HttpServer} (hs : s.thrownStep obj = some s') :
    s'.NotStranded ↔ (s.Ends (.thrown obj) → s.buffer = [] ∨ 1 < s.due) := by
  unfold thrownStep at hs
  split_ifs at hs with ht
  cases hs
  refine ends rfl ?_ trivial
  simp [due, ht.1]

theorem remained_notStranded {it : SendIter} {queued looping : ℕ}
    (hn : queued + looping + 1 = s.queued + s.looping) (he : it.next ≠ .loop ↔ s.Ends i) :
    (s.remained it queued looping).NotStranded ↔ (s.Ends i → s.buffer = [] ∨ 1 < s.due) := by
  by_cases hnext : it.next = .loop
  · exact keeps (by simp [due, remained, hnext]) fun h => he.mpr h hnext
  · refine ends rfl ?_ (he.mp hnext)
    simp only [due, remained, setConn, if_neg hnext]
    omega

theorem remainStep_notStranded (hs : s.remainStep = some s') :
    s'.NotStranded ↔ (s.Ends .remain → s.buffer = [] ∨ 1 < s.due) := by
  unfold remainStep at hs
  split_ifs at hs with hqueued
  obtain ⟨it, hit, rfl⟩ := Option.map_eq_some_iff.mp hs
  refine remained_notStranded (by omega) ?_
  obtain ⟨n, hn, hit⟩ := Option.bind_eq_some_iff.mp hit
  obtain ⟨a, ha, hn⟩ := Option.bind_eq_some_iff.mp hn
  split_ifs at hit with hne
  · obtain ⟨c, -, rfl⟩ := Option.map_eq_some_iff.mp hit
    exact iff_of_true nofun (Or.inl ⟨a, ha, n, hn, hne⟩)
  · cases hit
    have hstale : ¬ ∃ b ∈ s.proc.conn.psendMemPointer, s.Stale b := by
      rintro ⟨b, hb, m, hm, hstale⟩
      rw [ha] at hb
      cases hb
      rw [hn] at hm
      cases hm
      exact hne hstale
    rw [Ends, or_iff_right hstale]
    simp [SendSide.remainNext]

theorem remainIter_ends {it : SendIter} {r : WriteRet}
    (hit : sendRemainIter s.proc.conn r = some it)
    (hall : r ≠ .ret s.proc.conn.isendlen) : it.next ≠ .loop ↔ s.Ends (.remainWrite r) := by
  rcases sendRemainIter_cases hit with ⟨k, hk, rfl⟩ | ⟨he, -⟩ | ⟨hgone, c, -, rfl⟩
  · rcases hk with ⟨rfl, hk⟩ | ⟨hgone, -, rfl⟩
    · refine iff_of_false (not_not.mpr (if_pos ?_)) ?_
      · simp only [SendSide.advance]
        omega
      · rintro (he | ⟨he, -⟩)
        · cases he
        · omega
    · rw [SendSide.advance_zero, Ends, hgone]
      simp only [SendSide.remainNext, Bool.false_eq_true, false_or]
      constructor
      · intro hnext
        have hlen : s.proc.conn.isendlen = 0 := by
          by_contra hlen
          exact hnext (if_pos hlen)
        exact ⟨hlen, hlen ▸ hall⟩
      · rintro ⟨hlen, -⟩
        simp [hlen]
  · exact absurd he hall
  · exact iff_of_true (fun h => by cases h) (Or.inl hgone)

theorem remainWriteStep_notStranded {r : WriteRet} (hs : s.remainWriteStep r = some s') :
    s'.NotStranded ↔ (s.Ends (.remainWrite r) → s.buffer = [] ∨ 1 < s.due) := by
  unfold remainWriteStep at hs
  split_ifs at hs with hlooping hall
  · obtain ⟨it, hit, rfl⟩ := Option.map_eq_some_iff.mp hs
    -- the socket is registered for reading again
    have hend : ¬ s.Ends (.remainWrite r) := by
      rw [hall]
      rintro (he | ⟨hlen, hne⟩)
      · cases he
      · exact hne (by rw [hlen])
    refine iff_of_true (notStranded_iff_due.mpr ?_) fun h => absurd h hend
    by_cases hbuffer : s.buffer = []
    · exact Or.inl hbuffer
    · exact Or.inr (by simp [due, epollCtl, remained, setConn, hbuffer])
  · obtain ⟨it, hit, rfl⟩ := Option.map_eq_some_iff.mp hs
    exact remained_notStranded (by omega) (remainIter_ends hit hall)

/-- **One step.** -/
theorem step_notStranded (hs : step cfg self s i = some (s', o)) :
    s'.NotStranded ↔ s.Safe i := by
  have hsub : ∀ {x : Option EtConn}, (x.map fun s => (s, ([] : List Unit))) = some (s', o) →
      x = some s' := by
    intro x hx
    obtain ⟨t, rfl, he⟩ := Option.map_eq_some_iff.mp hx
    cases he
    rfl
  cases i with
  | arrive bytes =>
    simp only [step] at hs
    split_ifs at hs with hbytes
    cases hs
    rw [notStranded_iff_due, Safe]
    by_cases hev : s.proc.conn.event = .readEvent
    · simp [due, hev]
    · simp [due, hev, hbytes]
  | epollIn =>
    simp only [step] at hs
    split_ifs at hs
    cases hs
    exact keeps (by simp [due]) nofun
  | epollOut =>
    simp only [step] at hs
    split_ifs at hs
    cases hs
    exact keeps (by simp [due]) nofun
  | lock =>
    simp only [step] at hs
    split_ifs at hs
    cases hs
    exact keeps (by simp [due, setConn]) nofun
  | recv now j => exact iff_of_true (recvStep_notStranded (hsub hs)) nofun
  | run => exact taskStep_notStranded (hsub hs) fun _ _ hh hq => Or.inr (run_ends hh hq)
  | thrown obj => exact thrownStep_notStranded (hsub hs)
  | write r => exact taskStep_notStranded (hsub hs) fun _ _ hh hq => write_ends hh hq
  | remain => exact remainStep_notStranded (hsub hs)
  | remainWrite r => exact remainWriteStep_notStranded (hsub hs)

/-- **No byte is stranded.** In every run of a connection, each state in which no task and no
event is to come has an empty receive buffer exactly when every step of the run is safe. -/
theorem notStranded_iff (cfg : Conf) (self : Addr) (fd : ℤ) (seq : UInt64) (obj : HttpServer)
    (j : Job) {is : List EtStep}
    (hv : Run.Guarded (step cfg self) (Run.Defined (step cfg self)) (start fd seq obj j) is) :
    Run.Always (step cfg self) NotStranded (start fd seq obj j) is ↔
      Run.Guarded (step cfg self) Safe (start fd seq obj j) is := by
  refine Run.always_iff_guarded (I := fun _ => True) (fun s i _ _ hd => ?_) trivial
    (fun _ => rfl) hv
  obtain ⟨⟨s', o⟩, hs⟩ := Option.isSome_iff_exists.mp hd
  exact ⟨s', o, hs, step_notStranded hs, fun _ => trivial⟩

/-! ## Two pings in one burst -/

/-- A connection in ET mode. -/
def accepted : EtConn := start 5 0 (.new .zero) ⟨.noFiles, .etOpen, [], 0, 1, false⟩

/-- The settings of a server in ET mode. -/
def confET : Conf := ⟨1024, .etOpen, 1, 100, 10⟩

/-- One `EPOLLIN`, and a ping is handled and answered. -/
def pingHandled : List EtStep :=
  [.epollIn, .lock, .recv 1000 ⟨.noFiles, .etOpen, [8, 0, 0, 0, 0, 0, 0, 0], 0, 1, false⟩,
    .run, .run, .run, .run, .write (.ret 8)]

/-- A ping comes alone. -/
theorem notStranded_ping : Run.Always (step confET ⟨0, 1⟩) NotStranded accepted
    (.arrive [8, 0, 0, 0, 0, 0, 0, 0] :: pingHandled) := by
  refine (notStranded_iff _ _ _ _ _ _ (by decide +kernel)).mpr ?_
  decide +kernel

/-- Two pings come together: the second is not read. -/
theorem not_always_notStranded : ¬ ∀ (cfg : Conf) (self : Addr) (fd : ℤ) (seq : UInt64)
    (obj : HttpServer) (j : Job) (is : List EtStep),
    Run.Always (step cfg self) NotStranded (start fd seq obj j) is := by
  intro h
  have ha := h confET ⟨0, 1⟩ 5 0 (.new .zero) ⟨.noFiles, .etOpen, [], 0, 1, false⟩
    (.arrive [8, 0, 0, 0, 0, 0, 0, 0, 8, 0, 0, 0, 0, 0, 0, 0] :: pingHandled)
  have hcheck : ((Run.run (step confET ⟨0, 1⟩) accepted
    (.arrive [8, 0, 0, 0, 0, 0, 0, 0, 8, 0, 0, 0, 0, 0, 0, 0] :: pingHandled)).any fun r =>
      decide (r.1.due = 0 ∧ r.1.buffer = [8, 0, 0, 0, 0, 0, 0, 0])) = true := by decide +kernel
  obtain ⟨⟨s, os⟩, hr, hcheck⟩ := Run.exists_of_any hcheck
  obtain ⟨hdue, hbuffer⟩ := of_decide_eq_true hcheck
  have hempty := ha.last hr (quiescent_iff.mpr hdue)
  rw [hbuffer] at hempty
  cases hempty

/-- A range that is no number ends the thread: what came behind the request is not read, and the
lock is kept. -/
example :
    let pkg : List UInt8 := [51, 0, 1, 0, 0, 0, 0, 0] ++
      CString.ascii "GET http://h/x HTTP/1.1\r\nRange:bytes=a-\r\n\r\n"
    let j : Job := ⟨.noFiles, .etOpen, pkg, 0, 1, false⟩
    ((Run.run (step confET ⟨0, 1⟩) accepted [.arrive (pkg ++ [8]), .epollIn, .lock, .recv 1000 j,
      .recv 1000 j, .run, .run, .thrown (.new .zero)]).any fun r => decide
        (r.1.due = 0 ∧ r.1.buffer = [8] ∧ r.1.proc.conn.logicPorcMutex = true)) = true := by
  decide +kernel

end EtConn

end ServerNginx
