import ServerNginx.Lib.Turns
import ServerNginx.Net.Response

set_option autoImplicit false

/-!
# Packets of one connection in the thread pool

`n` threads serve the task queue. In LT mode a packet becomes a task when it is complete, and its
handler takes the lock; in ET mode a task is `recvproc_ET`, which takes the lock and then reads a
packet off the socket. A step is what a thread does between two of its waits, so the steps of a run
are in the order in which tasks are taken and the lock is granted.

`sendMsg` gives back the lock before `plast_ET` resets the receive state. A `recvproc_ET` that gets
the lock in between and finds bytes reads them into the packet whose handler has just returned.

* `Pipeline.InOrder`: the packets that get a handler have had it in the order in which they came;
* `Pipeline.Inv`: where each packet is;
* **`inOrder_iff`**: in runs in which `recvproc_ET` reads apart, the order is kept exactly when in
  LT mode the lock is granted to threads in the order of their tasks;
* `inOrder_of_etOpen`, `fair_of_one`: in ET mode it is always kept then, and so it is by one thread.
-/

namespace ServerNginx

/-- A task of the connection. -/
inductive Task
  /-- `threadRecvProcFunc` of the packet that came as number `i` -/
  | threadRecvProcFunc (i : ℕ)
  | recvprocET
  deriving DecidableEq, Repr

/-- What a pool thread does with the tasks of the connection. -/
inductive Worker
  | idle
  /-- it waits for the lock -/
  | waiting (t : Task)
  /-- it has the lock in `recvproc_ET` and has not read a packet -/
  | reading
  /-- it has the lock in the handler of packet `i` -/
  | handling (i : ℕ)
  /-- the handler has returned to `recvproc_ET`, which has not reset the receive state -/
  | returned
  deriving DecidableEq, Repr

/-- The thread has the lock. -/
def Worker.inside : Worker → Bool
  | .reading | .handling _ => true
  | .idle | .waiting _ | .returned => false

/-- The packets of a connection, its tasks and `n` threads. -/
structure Pipeline (n : ℕ) where
  /-- the packets that came -/
  received : List (List UInt8)
  /-- in ET mode, how many of them `recvproc_ET` has read -/
  read : ℕ
  /-- bytes of the last of them have gone into the packet before -/
  torn : Bool
  taskBuf : List Task
  workers : Fin n → Worker
  logicPorcMutex : Bool
  /-- the packets whose handlers have got the lock -/
  handled : List ℕ

/-- What happens. -/
inductive PipelineStep (n : ℕ)
  /-- a packet is complete (LT), or has come to the socket (ET) -/
  | packet (pkg : List UInt8)
  /-- `ngx_read_request_handler_ET` -/
  | readable
  /-- `GetTask` -/
  | getTask (w : Fin n)
  /-- a thread gets the lock it waits for -/
  | lock (w : Fin n)
  /-- `recvproc_ET` has read a packet -/
  | readPacket (w : Fin n)
  /-- `recvproc_ET` reads bytes of the next packet into the last one, whose receive state has not
  been reset; `again`: they complete it, and it is passed to `threadRecvProcFunc` again -/
  | readInto (w : Fin n) (again : Bool)
  /-- `recvproc_ET` finds nothing to read -/
  | readNothing (w : Fin n)
  /-- the handler returns, and leaves the lock taken or not; one that throws does not -/
  | handled (w : Fin n) (locked : Bool)
  /-- `recvproc_ET` resets the receive state -/
  | reset (w : Fin n)
  /-- `sendRemainMsg` gives back a lock that a handler has left taken -/
  | sendRemainMsg
  deriving DecidableEq

/-- A packet gets as far as the lock in its handler, on a connection that is not freed: it has a
handler, and a ping has no body. -/
def getsLock (c : SendSide) (pkg : List UInt8) : Bool :=
  match threadRecvProcFunc c c.iCurrsequence pkg with
  | none => false
  | some .handlePing => iBodyLength pkg = 0
  | some .handleBusiness => true

namespace Pipeline

variable {n : ℕ} (c : SendSide) (mETflag : ETFlag) (s : Pipeline n)

/-- A connection before its first packet. -/
def start (n : ℕ) : Pipeline n := ⟨[], 0, false, [], fun _ => .idle, false, []⟩

/-- A thread goes on. -/
def setWorker (w : Fin n) (a : Worker) : Pipeline n :=
  { s with workers := Function.update s.workers w a }

/-- Packet `i` gets as far as the lock. -/
def Answered (i : ℕ) : Prop := ∃ pkg ∈ s.received[i]?, getsLock c pkg = true

instance (i : ℕ) : Decidable (s.Answered c i) :=
  decidable_of_iff ((s.received[i]?).any (getsLock c) = true) (by
    cases h : s.received[i]? <;> simp [Answered, h])

/-- `AddTask`. -/
def addTask (t : Task) : Pipeline n := { s with taskBuf := s.taskBuf ++ [t] }

/-- The packets that get as far as the lock, in the order in which they came. -/
def answered : List ℕ := (List.range s.received.length).filter fun i => s.Answered c i

/-- **In order**: the handlers have got the lock in the order in which their packets came. -/
def InOrder : Prop := s.handled <+: s.answered c

/-- **One step**; `none` is a step that cannot be taken, or one that reads on behind bytes that have
gone into another packet. -/
def step (s : Pipeline n) : PipelineStep n → Option (Pipeline n × List Unit)
  | .packet pkg =>
    let s' := { s with received := s.received ++ [pkg] }
    match mETflag with
    | .etClose => some (s'.addTask (.threadRecvProcFunc s.received.length), [])
    | .etOpen => some (s', [])
  | .readable =>
    match mETflag with
    | .etClose => none
    | .etOpen => some (s.addTask .recvprocET, [])
  | .getTask w =>
    match s.workers w, s.taskBuf with
    | .idle, .recvprocET :: q =>
      some ({ s with taskBuf := q }.setWorker w (.waiting .recvprocET), [])
    | .idle, .threadRecvProcFunc i :: q =>
      if s.Answered c i then
        some ({ s with taskBuf := q }.setWorker w (.waiting (.threadRecvProcFunc i)), [])
      -- `threadRecvProcFunc` returns without the lock
      else some ({ s with taskBuf := q }, [])
    | _, _ => none
  | .lock w =>
    if s.logicPorcMutex then none
    else
      match s.workers w with
      | .waiting (.threadRecvProcFunc i) =>
        some ({ s with logicPorcMutex := true, handled := s.handled ++ [i] }.setWorker w
          (.handling i), [])
      | .waiting .recvprocET =>
        some ({ s with logicPorcMutex := true }.setWorker w .reading, [])
      | _ => none
  | .readPacket w =>
    if s.workers w = .reading ∧ s.read < s.received.length ∧ s.torn = false ∧
        ∀ v, s.workers v ≠ .returned then
      if s.Answered c s.read then
        some ({ s with read := s.read + 1, handled := s.handled ++ [s.read] }.setWorker w
          (.handling s.read), [])
      -- the lock stays taken
      else some ({ s with read := s.read + 1 }.setWorker w .returned, [])
    else none
  | .readInto w again =>
    if s.workers w = .reading ∧ s.read < s.received.length ∧ s.torn = false ∧
        ∃ v, s.workers v = .returned then
      let s' := { s with read := s.read + 1, torn := true }
      if again then
        if s.Answered c (s.read - 1) then
          some ({ s' with handled := s.handled ++ [s.read - 1] }.setWorker w
            (.handling (s.read - 1)), [])
        else some (s'.setWorker w .returned, [])
      else some (s', [])
    else none
  | .readNothing w =>
    if s.workers w = .reading then
      some ({ s with logicPorcMutex := false }.setWorker w .idle, [])
    else none
  | .handled w locked =>
    match s.workers w with
    | .handling _ =>
      some ({ s with logicPorcMutex := locked }.setWorker w
        (match mETflag with
        | .etClose => .idle
        | .etOpen => .returned), [])
    | _ => none
  | .reset w => if s.workers w = .returned then some (s.setWorker w .idle, []) else none
  | .sendRemainMsg =>
    if s.logicPorcMutex ∧ ∀ w, (s.workers w).inside = false then
      some ({ s with logicPorcMutex := false }, [])
    else none

/-- Thread `w` waits for the lock with packet `i`. -/
def Waits (w : Fin n) (i : ℕ) : Prop := s.workers w = .waiting (.threadRecvProcFunc i)

instance (w : Fin n) (i : ℕ) : Decidable (s.Waits w i) := inferInstanceAs (Decidable (_ = _))

/-- **The lock goes to the thread whose task was queued first.** In ET mode no thread waits with a
packet. -/
def Fair : PipelineStep n → Prop
  | .lock w => ∀ v i j, s.Waits w i → s.Waits v j → i ≤ j
  | _ => True

/-- **No data between call and reset**: `recvproc_ET` reads no bytes while another thread has not
reset the receive state. -/
def ReadsApart : PipelineStep n → Prop
  | .readInto .. => False
  | _ => True

instance : ∀ i : PipelineStep n, Decidable (ReadsApart i)
  | .readInto .. => isFalse id
  | .packet _ | .readable | .getTask _ | .lock _ | .readPacket _ | .readNothing _ | .handled _ _
  | .reset _ | .sendRemainMsg => isTrue trivial

/-- The packet a thread waits with. -/
def packetOf : Worker → Option ℕ
  | .waiting (.threadRecvProcFunc i) => some i
  | _ => none

theorem waits_iff {w : Fin n} {i : ℕ} : s.Waits w i ↔ i ∈ packetOf (s.workers w) := by
  unfold Waits packetOf
  split <;> simp_all

instance : ∀ i, Decidable (s.Fair i)
  | .lock w => decidable_of_iff
      (∀ v, ∀ i ∈ packetOf (s.workers w), ∀ j ∈ packetOf (s.workers v), i ≤ j) (by
        simp only [Fair, waits_iff]
        exact ⟨fun h v i j hi hj => h v i hi j hj, fun h v i hi j hj => h v i j hi hj⟩)
  | .packet _ | .readable | .getTask _ | .readPacket _ | .readInto .. | .readNothing _
  | .handled _ _ | .reset _ | .sendRemainMsg => isTrue trivial

instance : Decidable (s.InOrder c) := inferInstanceAs (Decidable (_ <+: _))

/-! ## Where the packets are -/

/-- In LT mode the first `m` packets have left the queue, and those of them that get a handler have
had it or wait with a thread. -/
structure InvLT (m : ℕ) : Prop where
  le : m ≤ s.received.length
  taskBuf : s.taskBuf = (List.range' m (s.received.length - m)).map .threadRecvProcFunc
  waits : ∀ w i, s.Waits w i → i < m ∧ s.Answered c i ∧ i ∉ s.handled
  distinct : ∀ v w i, s.Waits v i → s.Waits w i → v = w
  handled : ∀ i ∈ s.handled, i < m
  left : ∀ i < m, s.Answered c i → i ∈ s.handled ∨ ∃ w, s.Waits w i
  workers : ∀ w, s.workers w ≠ .reading ∧ s.workers w ≠ .waiting .recvprocET

/-- In ET mode the packets that have been read have had their handlers. -/
structure InvET : Prop where
  le : s.read ≤ s.received.length
  taskBuf : ∀ t ∈ s.taskBuf, t = .recvprocET
  waits : ∀ w i, ¬ s.Waits w i
  handled : s.handled = (List.range s.read).filter fun i => s.Answered c i

/-- **The invariant** of the mode. -/
def Inv : Prop :=
  match mETflag with
  | .etClose => ∃ m, s.InvLT c m
  | .etOpen => s.InvET c

variable {c mETflag s} {s' : Pipeline n} {o : List Unit} {i : PipelineStep n} {m k : ℕ}

theorem answered_append {r : List (List UInt8)} (h : k < s.received.length) :
    ({ s with received := s.received ++ r } : Pipeline n).Answered c k ↔ s.Answered c k := by
  simp only [Answered, List.getElem?_append_left h]

theorem Answered.lt (h : s.Answered c k) : k < s.received.length := by
  obtain ⟨pkg, hk, -⟩ := h
  exact (List.getElem?_eq_some_iff.mp hk).1

theorem mem_answered : k ∈ s.answered c ↔ s.Answered c k := by
  rw [answered, List.mem_filter, List.mem_range, decide_eq_true_iff]
  exact ⟨And.right, fun h => ⟨h.lt, h⟩⟩

theorem answered_pairwise : (s.answered c).Pairwise (· < ·) :=
  List.pairwise_lt_range.filter _

theorem prefix_answered (pkg : List UInt8) :
    s.answered c <+: ({ s with received := s.received ++ [pkg] } : Pipeline n).answered c := by
  have hlen : (s.received ++ [pkg]).length = s.received.length + 1 := by simp
  have hsame : (List.range s.received.length).filter (fun i =>
      ({ s with received := s.received ++ [pkg] } : Pipeline n).Answered c i) = s.answered c :=
    List.filter_congr fun k hk => by
      rw [decide_eq_decide]
      exact answered_append (List.mem_range.mp hk)
  rw [answered, answered, hlen, List.range_succ, List.filter_append, hsame]
  exact List.prefix_append _ _

/-! ## One step in LT mode -/

theorem invLT_packet (h : s.InvLT c m) (pkg : List UInt8) :
    (({ s with received := s.received ++ [pkg] } : Pipeline n).addTask
      (.threadRecvProcFunc s.received.length)).InvLT c m where
  le := by
    have := h.le
    simp only [addTask, List.length_append, List.length_singleton]
    omega
  taskBuf := by
    have hle := h.le
    have hlen : (s.received ++ [pkg]).length - m = s.received.length - m + 1 := by
      simp only [List.length_append, List.length_singleton]
      omega
    simp only [addTask, h.taskBuf, hlen, List.range'_1_concat, List.map_append, List.map_singleton]
    congr 3
    omega
  waits w i hw := by
    obtain ⟨h₁, h₂, h₃⟩ := h.waits w i hw
    exact ⟨h₁, (answered_append h₂.lt).mpr h₂, h₃⟩
  distinct := h.distinct
  handled := h.handled
  left i hi ha := h.left i hi ((answered_append (Nat.lt_of_lt_of_le hi h.le)).mp ha)
  workers := h.workers

theorem waits_setWorker {v w : Fin n} {a : Worker} : (s.setWorker w a).Waits v k ↔
    v = w ∧ a = .waiting (.threadRecvProcFunc k) ∨ v ≠ w ∧ s.Waits v k := by
  by_cases hv : v = w
  · subst hv
    simp [Waits, setWorker]
  · simp [Waits, setWorker, hv]

theorem invLT_setWorker (h : s.InvLT c m) {w : Fin n} {a : Worker} (hw : ∀ k, ¬ s.Waits w k)
    (ha : ∀ t, a ≠ .waiting t) (hr : a ≠ .reading) (b : Bool) :
    ({ s with logicPorcMutex := b }.setWorker w a).InvLT c m where
  le := h.le
  taskBuf := h.taskBuf
  waits v k hv := h.waits v k ((waits_setWorker.mp hv).resolve_left fun hv => ha _ hv.2).2
  distinct u v k hu hv := h.distinct u v k
    ((waits_setWorker.mp hu).resolve_left fun hu => ha _ hu.2).2
    ((waits_setWorker.mp hv).resolve_left fun hv => ha _ hv.2).2
  handled := h.handled
  left k hk hans := (h.left k hk hans).imp_right fun ⟨v, hv⟩ =>
    ⟨v, waits_setWorker.mpr (Or.inr ⟨fun hvw => hw k (hvw ▸ hv), hv⟩)⟩
  workers v := by
    by_cases hv : v = w
    · subst hv
      simp only [setWorker, Function.update_self]
      exact ⟨hr, ha _⟩
    · simp only [setWorker, Function.update_of_ne hv]
      exact h.workers v

theorem range'_eq_cons {q : List Task} {len : ℕ}
    (h : (List.range' m len).map Task.threadRecvProcFunc = .threadRecvProcFunc k :: q) :
    k = m ∧ 0 < len ∧ q = (List.range' (m + 1) (len - 1)).map .threadRecvProcFunc := by
  cases len with
  | zero => cases h
  | succ len =>
    rw [List.range'_succ, List.map_cons, List.cons_eq_cons] at h
    exact ⟨by cases h.1; rfl, Nat.succ_pos len, h.2.symm⟩

theorem invLT_getTask (h : s.InvLT c m) {w : Fin n}
    (hs : step c .etClose s (.getTask w) = some (s', o)) : s'.InvLT c (m + 1) := by
  simp only [step] at hs
  split at hs
  case h_1 q hw hq =>
    rw [h.taskBuf] at hq
    have : Task.recvprocET ∈ (List.range' m (s.received.length - m)).map
        Task.threadRecvProcFunc := hq ▸ List.mem_cons_self
    simp at this
  case h_2 k q hw hq =>
    rw [h.taskBuf] at hq
    obtain ⟨rfl, hpos, rfl⟩ := range'_eq_cons hq
    have hle := h.le
    have hbuf : (List.range' (k + 1) (s.received.length - k - 1)).map Task.threadRecvProcFunc =
        (List.range' (k + 1) (s.received.length - (k + 1))).map Task.threadRecvProcFunc := by
      rw [Nat.sub_sub]
    have hnot : ∀ j, ¬ s.Waits w j := fun j hj => by
      rw [Waits, hw] at hj
      cases hj
    split_ifs at hs with hans
    · cases hs
      refine ⟨?_, hbuf, fun v j hv => ?_, fun u v j hu hv => ?_, fun j hj => ?_,
        fun j hj hja => ?_, fun v => ?_⟩
      · simp only [setWorker]
        omega
      · rcases waits_setWorker.mp hv with ⟨-, he⟩ | ⟨-, hv⟩
        · cases he
          exact ⟨Nat.lt_succ_self k, hans, fun hmem => Nat.lt_irrefl k (h.handled k hmem)⟩
        · obtain ⟨h₁, h₂, h₃⟩ := h.waits v j hv
          exact ⟨Nat.lt_succ_of_lt h₁, h₂, h₃⟩
      · rcases waits_setWorker.mp hu with ⟨rfl, he⟩ | ⟨-, hu'⟩ <;>
          rcases waits_setWorker.mp hv with ⟨rfl, he'⟩ | ⟨-, hv'⟩
        · rfl
        · cases he
          exact absurd (h.waits v _ hv').1 (Nat.lt_irrefl _)
        · cases he'
          exact absurd (h.waits u _ hu').1 (Nat.lt_irrefl _)
        · exact h.distinct u v j hu' hv'
      · exact Nat.lt_succ_of_lt (h.handled j hj)
      · rcases Nat.lt_succ_iff_lt_or_eq.mp hj with hj | rfl
        · exact (h.left j hj hja).imp_right fun ⟨v, hv⟩ =>
            ⟨v, waits_setWorker.mpr (Or.inr ⟨fun hvw => hnot j (hvw ▸ hv), hv⟩)⟩
        · exact Or.inr ⟨w, waits_setWorker.mpr (Or.inl ⟨rfl, rfl⟩)⟩
      · by_cases hv : v = w
        · subst hv
          simp [setWorker]
        · simpa only [setWorker, Function.update_of_ne hv] using h.workers v
    · cases hs
      refine ⟨?_, hbuf, fun v j hv => ?_, h.distinct, fun j hj => ?_, fun j hj hja => ?_,
        h.workers⟩
      · simp only
        omega
      · obtain ⟨h₁, h₂, h₃⟩ := h.waits v j hv
        exact ⟨Nat.lt_succ_of_lt h₁, h₂, h₃⟩
      · exact Nat.lt_succ_of_lt (h.handled j hj)
      · rcases Nat.lt_succ_iff_lt_or_eq.mp hj with hj | rfl
        · exact h.left j hj hja
        · exact absurd hja hans
  case h_3 => cases hs

theorem lock_cases (h : s.InvLT c m) {w : Fin n}
    (hs : step c .etClose s (.lock w) = some (s', o)) : ∃ k, s.Waits w k ∧
      s' = { s with logicPorcMutex := true, handled := s.handled ++ [k] }.setWorker w
        (.handling k) := by
  simp only [step] at hs
  by_cases hl : s.logicPorcMutex = true
  · rw [if_pos hl] at hs
    cases hs
  · rw [if_neg hl] at hs
    split at hs
    case h_1 k hw =>
      cases hs
      exact ⟨k, hw, rfl⟩
    case h_2 hw => exact absurd hw (h.workers w).2
    case h_3 => cases hs

theorem invLT_lock (h : s.InvLT c m) {w : Fin n} (hw : s.Waits w k) :
    ({ s with logicPorcMutex := true, handled := s.handled ++ [k] }.setWorker w
      (.handling k)).InvLT c m where
  le := h.le
  taskBuf := h.taskBuf
  waits v j hv := by
    obtain ⟨hvw, hv⟩ := (waits_setWorker.mp hv).resolve_left nofun
    obtain ⟨h₁, h₂, h₃⟩ := h.waits v j hv
    refine ⟨h₁, h₂, ?_⟩
    rw [setWorker, List.mem_append, List.mem_singleton, not_or]
    exact ⟨h₃, fun hjk => hvw (h.distinct v w j hv (hjk ▸ hw))⟩
  distinct u v j hu hv := h.distinct u v j
    ((waits_setWorker.mp hu).resolve_left nofun).2 ((waits_setWorker.mp hv).resolve_left nofun).2
  handled j hj := by
    rcases List.mem_append.mp hj with hj | hj
    · exact h.handled j hj
    · cases List.mem_singleton.mp hj
      exact (h.waits w k hw).1
  left j hj hja := by
    rcases h.left j hj hja with hmem | ⟨v, hv⟩
    · exact Or.inl (List.mem_append_left _ hmem)
    · by_cases hvw : v = w
      · subst hvw
        rw [Waits, hw] at hv
        cases hv
        exact Or.inl (List.mem_append_right _ (List.mem_singleton.mpr rfl))
      · exact Or.inr ⟨v, waits_setWorker.mpr (Or.inr ⟨hvw, hv⟩)⟩
  workers v := by
    by_cases hv : v = w
    · subst hv
      simp [setWorker]
    · simpa only [setWorker, Function.update_of_ne hv] using h.workers v

/-- **One step in LT mode**: a packet goes from the queue to a thread and from there to its
handler, in order exactly when the lock goes to the thread whose task was queued first. -/
theorem step_etClose (h : s.InvLT c m) (hin : s.InOrder c)
    (hs : step c .etClose s i = some (s', o)) :
    (s'.InOrder c ↔ s.Fair i) ∧ ∃ m', s'.InvLT c m' := by
  cases i with
  | packet pkg =>
    cases hs
    exact ⟨iff_of_true (hin.trans (prefix_answered pkg)) trivial, m, invLT_packet h pkg⟩
  | readable => cases hs
  | getTask w =>
    refine ⟨iff_of_true ?_ trivial, m + 1, invLT_getTask h hs⟩
    simp only [step] at hs
    split at hs
    case h_1 =>
      cases hs
      exact hin
    case h_2 =>
      split_ifs at hs <;>
      · cases hs
        exact hin
    case h_3 => cases hs
  | lock w =>
    obtain ⟨k, hw, rfl⟩ := lock_cases h hs
    refine ⟨?_, m, invLT_lock h hw⟩
    obtain ⟨hkm, hka, hkn⟩ := h.waits w k hw
    refine (Turns.concat_prefix_iff answered_pairwise hin (mem_answered.mpr hka) hkn).trans ?_
    constructor
    · intro hleast v j l hj hl
      rw [Waits, hw] at hj
      cases hj
      obtain ⟨-, hla, hln⟩ := h.waits v l hl
      exact hleast l (mem_answered.mpr hla) hln
    · intro hfair b hb hbn
      by_cases hbm : b < m
      · obtain ⟨v, hv⟩ := (h.left b hbm (mem_answered.mp hb)).resolve_left hbn
        exact hfair v k b hw hv
      · omega
  | readPacket w =>
    simp only [step] at hs
    split_ifs at hs with hr <;> exact absurd hr.1 (h.workers w).1
  | readInto w again =>
    simp only [step] at hs
    split_ifs at hs with hr <;> exact absurd hr.1 (h.workers w).1
  | readNothing w =>
    simp only [step] at hs
    split_ifs at hs with hr
    exact absurd hr (h.workers w).1
  | handled w locked =>
    simp only [step] at hs
    split at hs
    case h_1 k hw =>
      cases hs
      refine ⟨iff_of_true hin trivial, m,
        invLT_setWorker (a := .idle) h (fun j hj => ?_) nofun nofun locked⟩
      rw [Waits, hw] at hj
      cases hj
    case h_2 => cases hs
  | reset w =>
    simp only [step] at hs
    split_ifs at hs with hw
    cases hs
    refine ⟨iff_of_true hin trivial, m,
      invLT_setWorker (a := .idle) h (fun j hj => ?_) nofun nofun s.logicPorcMutex⟩
    rw [Waits, hw] at hj
    cases hj
  | sendRemainMsg =>
    simp only [step] at hs
    split_ifs at hs
    cases hs
    exact ⟨iff_of_true hin trivial, m, h.le, h.taskBuf, h.waits, h.distinct, h.handled, h.left,
      h.workers⟩

/-! ## One step in ET mode -/

theorem not_waits_setWorker (h : ∀ w k, ¬ s.Waits w k) {w : Fin n} {a : Worker}
    (ha : ∀ k, a ≠ .waiting (.threadRecvProcFunc k)) (v : Fin n) (k : ℕ) :
    ¬ (s.setWorker w a).Waits v k := fun hv =>
  (waits_setWorker.mp hv).elim (fun hv => ha k hv.2) fun hv => h v k hv.2

theorem InvET.inOrder (h : s.InvET c) : s.InOrder c := by
  obtain ⟨d, hd⟩ := Nat.exists_eq_add_of_le h.le
  rw [InOrder, h.handled, answered, hd, List.range_add, List.filter_append]
  exact List.prefix_append _ _

/-- **One step in ET mode** that reads apart. -/
theorem invET_step (h : s.InvET c) (ha : ReadsApart i)
    (hs : step c .etOpen s i = some (s', o)) : s'.InvET c := by
  cases i with
  | packet pkg =>
    cases hs
    refine ⟨?_, h.taskBuf, h.waits, ?_⟩
    · have := h.le
      simp only [List.length_append, List.length_singleton]
      omega
    · rw [h.handled]
      refine List.filter_congr fun k hk => ?_
      rw [decide_eq_decide]
      exact (answered_append (Nat.lt_of_lt_of_le (List.mem_range.mp hk) h.le)).symm
  | readable =>
    cases hs
    refine ⟨h.le, fun t ht => ?_, h.waits, h.handled⟩
    rcases List.mem_append.mp ht with ht | ht
    · exact h.taskBuf t ht
    · exact List.mem_singleton.mp ht
  | getTask w =>
    simp only [step] at hs
    split at hs
    case h_1 q hw hq =>
      cases hs
      exact ⟨h.le, fun t ht => h.taskBuf t (hq ▸ List.mem_cons_of_mem _ ht),
        not_waits_setWorker h.waits nofun, h.handled⟩
    case h_2 k q hw hq => cases h.taskBuf (.threadRecvProcFunc k) (hq ▸ List.mem_cons_self)
    case h_3 => cases hs
  | lock w =>
    simp only [step] at hs
    by_cases hl : s.logicPorcMutex = true
    · rw [if_pos hl] at hs
      cases hs
    · rw [if_neg hl] at hs
      split at hs
      case h_1 k hw => exact absurd hw (h.waits w k)
      case h_2 hw =>
        cases hs
        exact ⟨h.le, h.taskBuf, not_waits_setWorker h.waits nofun, h.handled⟩
      case h_3 => cases hs
  | readPacket w =>
    simp only [step] at hs
    split_ifs at hs with hr hans
    · cases hs
      refine ⟨hr.2.1, h.taskBuf, not_waits_setWorker h.waits nofun, ?_⟩
      show s.handled ++ [s.read] = (List.range (s.read + 1)).filter fun i => s.Answered c i
      rw [List.range_succ, List.filter_append, h.handled,
        List.filter_cons_of_pos (p := fun i => decide (s.Answered c i)) (decide_eq_true hans),
        List.filter_nil]
    · cases hs
      refine ⟨hr.2.1, h.taskBuf, not_waits_setWorker h.waits nofun, ?_⟩
      show s.handled = (List.range (s.read + 1)).filter fun i => s.Answered c i
      rw [List.range_succ, List.filter_append, h.handled,
        List.filter_cons_of_neg (by simpa using hans), List.filter_nil, List.append_nil]
  | readInto w again => exact ha.elim
  | readNothing w =>
    simp only [step] at hs
    split_ifs at hs with hr
    cases hs
    exact ⟨h.le, h.taskBuf, not_waits_setWorker h.waits nofun, h.handled⟩
  | handled w locked =>
    simp only [step] at hs
    split at hs
    case h_1 k hw =>
      cases hs
      exact ⟨h.le, h.taskBuf, not_waits_setWorker h.waits nofun, h.handled⟩
    case h_2 => cases hs
  | reset w =>
    simp only [step] at hs
    split_ifs at hs with hw
    cases hs
    exact ⟨h.le, h.taskBuf, not_waits_setWorker h.waits nofun, h.handled⟩
  | sendRemainMsg =>
    simp only [step] at hs
    split_ifs at hs
    cases hs
    exact ⟨h.le, h.taskBuf, h.waits, h.handled⟩

/-! ## Runs -/

theorem inv_start : (start n).Inv c mETflag := by
  cases mETflag with
  | etClose => exact ⟨0, le_rfl, rfl, nofun, nofun, nofun, nofun, fun _ => ⟨nofun, nofun⟩⟩
  | etOpen => exact ⟨le_rfl, nofun, nofun, rfl⟩

/-- **One step.** -/
theorem step_iff (h : s.Inv c mETflag) (hin : s.InOrder c) (ha : ReadsApart i)
    (hs : step c mETflag s i = some (s', o)) :
    (s'.InOrder c ↔ s.Fair i) ∧ s'.Inv c mETflag := by
  cases mETflag with
  | etClose =>
    obtain ⟨m, h⟩ := h
    exact step_etClose h hin hs
  | etOpen =>
    have h' := invET_step h ha hs
    refine ⟨iff_of_true h'.inOrder ?_, h'⟩
    cases i with
    | lock w => exact fun _ k _ hk => absurd hk (h.waits w k)
    | _ => trivial

/-- **Answers in order.** With any number of threads, and where `recvproc_ET` reads no data between
the call and the reset of `plast_ET` by another thread, the handlers of a connection run in the
order in which their packets came exactly when the lock always goes to the thread whose task was
queued first. -/
theorem inOrder_iff (c : SendSide) (mETflag : ETFlag) (n : ℕ) {is : List (PipelineStep n)}
    (hv : Run.Guarded (step c mETflag)
      (fun s i => Run.Defined (step c mETflag) s i ∧ ReadsApart i) (start n) is) :
    Run.Always (step c mETflag) (InOrder c) (start n) is ↔
      Run.Guarded (step c mETflag) Fair (start n) is := by
  refine Run.always_iff_guarded (I := Inv c mETflag) (fun s i hi hin hd => ?_) inv_start
    List.nil_prefix hv
  obtain ⟨⟨s', o⟩, hs⟩ := Option.isSome_iff_exists.mp hd.1
  obtain ⟨hiff, hinv⟩ := step_iff hi hin hd.2 hs
  exact ⟨s', o, hs, hiff, fun _ => hinv⟩

theorem inOrder_of_etOpen (c : SendSide) (n : ℕ) (is : List (PipelineStep n))
    (ha : Run.Guarded (step c .etOpen) (fun _ => ReadsApart) (start n) is) :
    Run.Always (step c .etOpen) (InOrder c) (start n) is :=
  (Run.always_of_guarded (p := InvET c) (fun _ _ _ _ h ha hs => invET_step h ha hs)
    (show (start n).Inv c .etOpen from inv_start) ha).imp fun _ h => h.inOrder

theorem fair_of_one (s : Pipeline 1) (i : PipelineStep 1) : s.Fair i := by
  cases i with
  | lock w =>
    intro v i j hi hj
    rw [Subsingleton.elim v w, Waits, hi] at hj
    cases hj
    exact le_rfl
  | _ => trivial

/-! ## Two pings, two threads -/

/-- A connection with sequence number 0. -/
def conn : SendSide := ⟨0, false, none, none, 0, false, .readEvent, fun _ => none⟩

/-- Two pings come and are taken by two threads. -/
def twoPings : List (PipelineStep 2) :=
  [.packet [8, 0, 0, 0, 0, 0, 0, 0], .packet [8, 0, 0, 0, 0, 0, 0, 0], .getTask 0, .getTask 1]

/-- The first thread gets the lock first. -/
theorem inOrder_twoPings : Run.Always (step conn .etClose) (InOrder conn) (start 2)
    (twoPings ++ [.lock 0, .handled 0 false, .lock 1]) :=
  (inOrder_iff conn .etClose 2 (by decide)).mpr (by decide)

/-- The second thread gets the lock first. -/
theorem not_always_inOrder : ¬ ∀ (c : SendSide) (mETflag : ETFlag) (n : ℕ)
    (is : List (PipelineStep n)), Run.Always (step c mETflag) (InOrder c) (start n) is := by
  intro h
  have ha := h conn .etClose 2 (twoPings ++ [.lock 1])
  exact absurd ha (by decide)

/-- In ET mode, the second thread gets the lock between `sendMsg` and the reset: it reads the second
ping into the first one, which is answered twice. -/
example : ¬ Run.Always (step conn .etOpen) (InOrder conn) (start 2)
    [.packet [8, 0, 0, 0, 0, 0, 0, 0], .packet [8, 0, 0, 0, 0, 0, 0, 0], .readable, .readable,
      .getTask 0, .getTask 1, .lock 0, .readPacket 0, .handled 0 false, .lock 1,
      .readInto 1 true] := by decide

end Pipeline

end ServerNginx
