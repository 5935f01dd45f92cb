import ServerNginx.Misc.Wakeup

set_option autoImplicit false

/-!
# The destructor of the thread pool

`~CThread` sets `shutdown` without a lock, calls `notify_one` as often as there are workers, and
joins them one after the other. A worker that has found the predicate false before `shutdown` was
set may fall asleep behind the last call. A task that throws ends its worker: the `packaged_task`
keeps the exception, and `fut.get()` rethrows it in the destructor, which is `noexcept`.

* `Closing.step`: the workers, the callers of `AddTask` and the destructor of a pool without a
  manager;
* `Closing.Late`: a worker falls asleep behind the last `notify_one`;
* `Closing.Throws`: a task ends with an exception;
* `Closing.rank`: the steps left; `rank_step`: every step but `AddTask` takes one;
* **`destroyed_iff`**: the destructor comes to an end, and joins every worker exactly when none was
  late and no task has thrown.
-/

namespace ServerNginx

/-- Where `~CThread` is. -/
inductive Destroyer
  | idle
  /-- in the first loop, `i` calls of `notify_one` made -/
  | notifying (i : ℕ)
  /-- in the second loop, `j` workers joined -/
  | joining (j : ℕ)
  | closed
  /-- `std::terminate`: `fut.get()` has rethrown what a task has thrown -/
  | terminated
  deriving DecidableEq

/-- The last call of `notify_one` has been made. -/
def Destroyer.Behind (liveNum : ℤ) : Destroyer → Prop
  | .idle => False
  | .notifying i => liveNum ≤ i
  | .joining _ => True
  | .closed => True
  | .terminated => True

instance (liveNum : ℤ) : (d : Destroyer) → Decidable (d.Behind liveNum)
  | .idle => inferInstanceAs (Decidable False)
  | .notifying _ => inferInstanceAs (Decidable (_ ≤ _))
  | .joining _ | .closed | .terminated => inferInstanceAs (Decidable True)

/-- The pool and its destructor. -/
structure Closing (Task : Type) where
  pool : ThreadPool Task
  /-- the workers whose `fut` holds an exception -/
  failed : List ℕ
  destroyer : Destroyer

/-- What happens in the pool while it is used and destroyed. -/
inductive ClosingStep (Task : Type)
  | pool (e : PoolStep Task)
  /-- the task of worker `i` throws -/
  | throws (i : ℕ)
  | shutdown
  | notify (w : Option ℕ)
  /-- the first loop ends, or a worker is joined, or the second loop ends -/
  | join

namespace Closing

variable {Task : Type}

/-- `CThread(n, n)`: there is neither a manager nor a recycling thread. -/
def start (Task : Type) (n : ℕ) : Closing Task := ⟨ThreadPool.construct Task n n, [], .idle⟩

/-- The step is one of a worker or of a caller of `AddTask`. -/
def ofWorker : PoolStep Task → Bool
  | .addTask .. => true
  | .check _ => true
  | .sleep _ => true
  | .proceed _ => true
  | .finish _ => true
  | .sample => false
  | .adjust _ => false
  | .recycle _ => false

variable (s : Closing Task)

/-- `WorkThread` ends with the exception of its task: `CThreadMutex` is not held, and `busyNum`
stays as it is. -/
def throws (i : ℕ) : Option (Closing Task) :=
  match s.pool.threads[i]? with
  | some (.running _) =>
    some { s with pool := s.pool.moved i .exited, failed := i :: s.failed }
  | _ => none

def notify (w : Option ℕ) : Option (Closing Task) :=
  match s.destroyer with
  | .notifying i =>
    if i < s.pool.liveNum then
      (CondVar.notifyOne Place.isAsleep .woken s.pool.threads w).map fun ts =>
        { s with pool := { s.pool with threads := ts }, destroyer := .notifying (i + 1) }
    else none
  | _ => none

def join : Option (Closing Task) :=
  match s.destroyer with
  | .notifying i => if i < s.pool.liveNum then none else some { s with destroyer := .joining 0 }
  | .joining j =>
    match s.pool.threads[j]? with
    | none => some { s with destroyer := .closed }
    | some .exited =>
      some { s with destroyer := if j ∈ s.failed then .terminated else .joining (j + 1) }
    | some _ => none
  | _ => none

/-- One step; behind `std::terminate` there is none. -/
def step : ClosingStep Task → Option (Closing Task × List (PoolOut Task))
  | .pool e =>
    if ofWorker e ∧ s.destroyer ≠ .terminated then
      (s.pool.step e).map fun r => ({ s with pool := r.1 }, r.2)
    else none
  | .throws i => if s.destroyer = .terminated then none else s.throws i |>.map fun t => (t, [])
  | .shutdown =>
    if s.destroyer = .idle then
      some ({ s with pool := { s.pool with shutdown := true }, destroyer := .notifying 0 }, [])
    else none
  | .notify w => (s.notify w).map fun t => (t, [])
  | .join => s.join.map fun t => (t, [])

/-- The last call of `notify_one` has been made. -/
def Behind : Prop := s.destroyer.Behind s.pool.liveNum

instance : Decidable s.Behind := inferInstanceAs (Decidable (s.destroyer.Behind _))

/-- A worker falls asleep behind the last call of `notify_one`. -/
def Late : ClosingStep Task → Prop
  | .pool (.sleep _) => s.Behind
  | _ => False

instance : (e : ClosingStep Task) → Decidable (s.Late e)
  | .pool (.sleep _) => inferInstanceAs (Decidable s.Behind)
  | .pool (.addTask ..) | .pool (.check _) | .pool (.proceed _) | .pool (.finish _) |
    .pool .sample | .pool (.adjust _) | .pool (.recycle _) | .throws _ | .shutdown | .notify _ |
    .join => inferInstanceAs (Decidable False)

/-- A call of `AddTask`. -/
def Adds : ClosingStep Task → Prop
  | .pool (.addTask ..) => True
  | _ => False

/-- A task ends with an exception. -/
def Throws : ClosingStep Task → Prop
  | .throws _ => True
  | _ => False

/-! ## What holds before and behind `shutdown` -/

/-- A pool of `n` workers, none of them recycled; `CThreadMutex` has one owner, and those who have
failed are workers. -/
structure Staffed (n : ℕ) (s : Closing Task) : Prop where
  threads : s.pool.threads.length = n
  present : ∀ p ∈ s.pool.threads, p ≠ .recycled
  holders : s.pool.count Place.isWindow + s.pool.count Place.isPassed ≤ 1
  failed : ∀ i ∈ s.failed, i < n

/-- Before `shutdown`. -/
structure Used (n : ℕ) (s : Closing Task) : Prop extends Staffed n s where
  idle : s.destroyer = .idle
  constant : s.pool.Constant n

/-- Behind `shutdown`: the calls of `notify_one` that are left are enough for those who sleep, or
are to sleep; those joined have exited, without an exception. -/
structure Ending (n : ℕ) (s : Closing Task) : Prop extends Staffed n s where
  shutdown : s.pool.shutdown = true
  liveNum : s.pool.liveNum = n
  started : s.destroyer ≠ .idle
  notified : ∀ i, s.destroyer = .notifying i → i ≤ n ∧
    (i < n → s.pool.count Place.isAsleep + s.pool.count Place.isWindow ≤ n - i)
  joined : ∀ j, s.destroyer = .joining j →
    j ≤ n ∧ ∀ k < j, s.pool.threads[k]? = some .exited ∧ k ∉ s.failed
  closed : s.destroyer = .closed → s.failed = [] ∧ ∀ p ∈ s.pool.threads, p = .exited
  terminated : s.destroyer = .terminated → s.failed ≠ []

variable {s} {s' t : Closing Task} {n : ℕ} {e : ClosingStep Task} {o : List (PoolOut Task)}

theorem used_start : Used n (start Task n) where
  threads := by simp [start, ThreadPool.construct]
  present p hp := by
    rw [List.eq_of_mem_replicate hp]
    simp
  holders := (ThreadPool.sound_construct n n).holders
  failed := nofun
  idle := rfl
  constant := ⟨by simp [start, ThreadPool.construct], rfl, rfl, rfl⟩

theorem pool_step {e : PoolStep Task} (h : s.step (.pool e) = some (s', o)) :
    ofWorker e = true ∧ s.pool.step e = some (s'.pool, o) ∧ s' = { s with pool := s'.pool } := by
  simp only [step] at h
  obtain ⟨hw, h⟩ := Option.ite_none_right_eq_some.mp h
  obtain ⟨r, hr, he⟩ := Option.map_eq_some_iff.mp h
  cases he
  exact ⟨hw.1, hr, rfl⟩

theorem throws_cases {i : ℕ} (h : s.step (.throws i) = some (s', o)) :
    ∃ task, s.destroyer ≠ .terminated ∧ s.pool.threads[i]? = some (.running task) ∧
      s' = { s with pool := s.pool.moved i .exited, failed := i :: s.failed } := by
  obtain ⟨hd, h⟩ := Option.ite_none_left_eq_some.mp h
  obtain ⟨u, hu, he⟩ := Option.map_eq_some_iff.mp h
  cases he
  unfold Closing.throws at hu
  split at hu
  · next task hi =>
    cases hu
    exact ⟨task, hd, hi, rfl⟩
  · cases hu

theorem present_set {ts : List (Place Task)} {i : ℕ} {q : Place Task}
    (h : ∀ p ∈ ts, p ≠ .recycled) (hq : q ≠ .recycled) : ∀ p ∈ ts.set i q, p ≠ .recycled := by
  intro p hp
  rcases List.mem_or_eq_of_mem_set hp with hp | rfl
  · exact h p hp
  · exact hq

theorem present_notifyOne {ts ts' : List (Place Task)} {w : Option ℕ}
    (hw : CondVar.notifyOne Place.isAsleep .woken ts w = some ts')
    (h : ∀ p ∈ ts, p ≠ .recycled) : ts'.length = ts.length ∧ ∀ p ∈ ts', p ≠ .recycled := by
  obtain ⟨-, -, rfl⟩ | ⟨i, p, -, -, -, rfl⟩ := CondVar.notifyOne_cases hw
  · exact ⟨rfl, h⟩
  · exact ⟨List.length_set, present_set h nofun⟩

theorem present_step {s s' : ThreadPool Task} {e : PoolStep Task} (hw : ofWorker e = true)
    (h : ∀ p ∈ s.threads, p ≠ .recycled) (hs : s.step e = some (s', o)) :
    s'.threads.length = s.threads.length ∧ ∀ p ∈ s'.threads, p ≠ .recycled := by
  have moved : ∀ {i q}, q ≠ Place.recycled → (s.threads.set i q).length = s.threads.length ∧
      ∀ p ∈ s.threads.set i q, p ≠ .recycled := fun hq => ⟨List.length_set, present_set h hq⟩
  cases ThreadPool.moves_of_step hs with
  | addTask hn => exact present_notifyOne hn h
  | pass | stay | sleep | quit | leave | fail | take | finish => exact moved nofun
  | retire | sample | grow | shrink | rest | recycle => cases hw

theorem notify_counts {s : ThreadPool Task} {ts : List (Place Task)} {w : Option ℕ}
    (hw : CondVar.notifyOne Place.isAsleep .woken s.threads w = some ts) :
    ts.countP Place.isAsleep = s.count Place.isAsleep - 1 ∧
      ts.countP Place.isWindow = s.count Place.isWindow ∧
      ts.countP Place.isPassed = s.count Place.isPassed :=
  ⟨CondVar.sleeping_notifyOne hw rfl, ThreadPool.count_notifyOne hw rfl,
    ThreadPool.count_notifyOne hw rfl⟩

theorem holders_moved {s : ThreadPool Task} {i : ℕ} {p : Place Task} (q : Place Task)
    (hi : s.threads[i]? = some p) (h : s.count Place.isWindow + s.count Place.isPassed ≤ 1)
    (hq : q.isWindow = true ∨ q.isPassed = true → ¬ s.locked) :
    (s.moved i q).count Place.isWindow + (s.moved i q).count Place.isPassed ≤ 1 := by
  obtain ⟨cW, cP, -, -⟩ := ThreadPool.counts_moved q hi
  simp only [ThreadPool.locked] at hq
  cases q with
  | window =>
    have := hq (.inl rfl)
    simp only [Place.isWindow, Place.isPassed, if_true, if_false, Bool.false_eq_true] at cW cP
    omega
  | passed =>
    have := hq (.inr rfl)
    simp only [Place.isWindow, Place.isPassed, if_true, if_false, Bool.false_eq_true] at cW cP
    omega
  | _ =>
    simp only [Place.isWindow, Place.isPassed, if_false, Bool.false_eq_true] at cW cP
    omega

theorem holders_step {s s' : ThreadPool Task} {e : PoolStep Task} (hw : ofWorker e = true)
    (h : s.count Place.isWindow + s.count Place.isPassed ≤ 1) (hs : s.step e = some (s', o)) :
    s'.count Place.isWindow + s'.count Place.isPassed ≤ 1 := by
  cases ThreadPool.moves_of_step hs with
  | @addTask task w ts hn =>
    obtain ⟨-, cW, cP⟩ := notify_counts hn
    show ts.countP Place.isWindow + ts.countP Place.isPassed ≤ 1
    omega
  | pass hl hi => exact holders_moved .passed hi h fun _ => hl
  | stay hl hi => exact holders_moved .window hi h fun _ => hl
  | sleep hi => exact holders_moved .asleep hi h nofun
  | quit hi => exact holders_moved .exited hi h nofun
  | leave hi => exact holders_moved .exited hi h nofun
  | fail hi => exact holders_moved .start hi h nofun
  | @take i task rest hi => exact holders_moved (.running task) hi h nofun
  | finish hl hi => exact holders_moved .start hi h nofun
  | retire | sample | grow | shrink | rest | recycle => cases hw

theorem Staffed.pool {e : PoolStep Task} (h : Staffed n s)
    (hs : s.step (.pool e) = some (s', o)) : Staffed n s' := by
  obtain ⟨hw, hp, he⟩ := pool_step hs
  obtain ⟨hlen, hpres⟩ := present_step hw h.present hp
  rw [he]
  exact ⟨hlen.trans h.threads, hpres, holders_step hw h.holders hp, h.failed⟩

theorem Staffed.throws {i : ℕ} (h : Staffed n s) (hs : s.step (.throws i) = some (s', o)) :
    Staffed n s' := by
  obtain ⟨task, -, hi, rfl⟩ := throws_cases hs
  refine ⟨List.length_set.trans h.threads, present_set h.present nofun,
    holders_moved .exited hi h.holders nofun, fun k hk => ?_⟩
  rcases List.mem_cons.mp hk with rfl | hk
  · have := (List.getElem?_eq_some_iff.mp hi).1
    rwa [h.threads] at this
  · exact h.failed k hk

theorem Used.pool {e : PoolStep Task} (h : Used n s) (hs : s.step (.pool e) = some (s', o)) :
    Used n s' := by
  obtain ⟨-, hp, he⟩ := pool_step hs
  have hd : s'.destroyer = s.destroyer := by rw [he]
  exact ⟨h.toStaffed.pool hs, hd.trans h.idle, ThreadPool.constant_step h.constant hp⟩

theorem Used.throws {i : ℕ} (h : Used n s) (hs : s.step (.throws i) = some (s', o)) :
    Used n s' := by
  have hstaff := h.toStaffed.throws hs
  obtain ⟨-, -, -, rfl⟩ := throws_cases hs
  exact ⟨hstaff, h.idle, h.constant.1, h.constant.2, h.constant.3, h.constant.4⟩

/-- **`shutdown` is set**: as many calls are to come as there are workers. -/
theorem Used.shutdown (h : Used n s) (hs : s.step .shutdown = some (s', o)) :
    Ending n s' := by
  obtain ⟨-, hs⟩ := Option.ite_none_right_eq_some.mp hs
  cases hs
  have hle : s.pool.count Place.isAsleep + s.pool.count Place.isWindow ≤ s.pool.threads.length := by
    have hL := ThreadPool.count_isAlive (s := s.pool)
    have hW := ThreadPool.count_isWindow_le (s := s.pool)
    have : s.pool.count Place.isAlive ≤ s.pool.threads.length := List.countP_le_length
    omega
  refine ⟨⟨h.threads, h.present, h.holders, h.failed⟩, rfl, h.constant.liveNum, nofun, ?_, nofun,
    nofun, nofun⟩
  intro i hi
  cases hi
  rw [h.threads] at hle
  exact ⟨Nat.zero_le n, fun _ => hle⟩

/-! ## The steps behind `shutdown` -/

/-- What a worker, or a caller of `AddTask`, can do behind `shutdown`. -/
inductive Ends (s : ThreadPool Task) : PoolStep Task → ThreadPool Task → Prop
  | addTask {task : Task} {w : Option ℕ} {ts : List (Place Task)}
      (hn : CondVar.notifyOne Place.isAsleep .woken s.threads w = some ts) :
      Ends s (.addTask task w) { s with taskBuf := s.taskBuf ++ [task], threads := ts }
  | pass {i : ℕ} {p : Place Task} (hl : ¬ s.locked) (hi : s.threads[i]? = some p)
      (hp : p.wantsLock = true) : Ends s (.check i) (s.moved i .passed)
  | sleep {i : ℕ} (hi : s.threads[i]? = some .window) : Ends s (.sleep i) (s.moved i .asleep)
  | quit {i : ℕ} (hi : s.threads[i]? = some .passed) : Ends s (.proceed i) (s.moved i .exited)
  | finish {i : ℕ} {task : Task} (hl : ¬ s.locked) (hi : s.threads[i]? = some (.running task)) :
      Ends s (.finish i) { s.moved i .start with busyNum := s.busyNum - 1 }

theorem ends_of_step {s s' : ThreadPool Task} {e : PoolStep Task} (hsd : s.shutdown = true)
    (hw : ofWorker e = true) (h : s.step e = some (s', o)) : Ends s e s' := by
  cases e with
  | sample | adjust | recycle => cases hw
  | proceed i =>
    obtain ⟨hi, h⟩ := Option.ite_none_right_eq_some.mp h
    obtain ⟨p, hi, hp⟩ := Option.any_eq_true _ _ |>.mp hi
    rw [ThreadPool.workThread, if_pos hsd] at h
    cases h
    cases p <;> cases hp
    exact .quit hi
  | addTask task w =>
    cases ThreadPool.moves_of_step h with
    | addTask hn => exact .addTask hn
  | check i =>
    cases ThreadPool.moves_of_step h with
    | pass hl hi hp => exact .pass hl hi hp
    | stay hl hi hp hc => exact absurd (.inr (.inl hsd)) hc
  | sleep i =>
    cases ThreadPool.moves_of_step h with
    | sleep hi => exact .sleep hi
  | finish i =>
    cases ThreadPool.moves_of_step h with
    | finish hl hi => exact .finish hl hi

theorem joined_set {ts : List (Place Task)} {i k : ℕ} {p q : Place Task}
    (hi : ts[i]? = some p) (hp : p.isAlive = true) (hk : ts[k]? = some .exited) :
    (ts.set i q)[k]? = some .exited := by
  have hne : i ≠ k := by
    rintro rfl
    rw [hi] at hk
    cases hk
    cases hp
  rwa [List.getElem?_set_ne hne]

theorem joined_notifyOne {ts ts' : List (Place Task)} {w : Option ℕ} {k : ℕ}
    (hw : CondVar.notifyOne Place.isAsleep .woken ts w = some ts')
    (hk : ts[k]? = some .exited) : ts'[k]? = some .exited := by
  obtain ⟨-, -, rfl⟩ | ⟨i, p, -, hi, hp, rfl⟩ := CondVar.notifyOne_cases hw
  · exact hk
  · rw [ThreadPool.eq_asleep hp] at hi
    exact joined_set hi rfl hk

/-- Who has exited stays so, and those who sleep, or are to sleep, do not become more. -/
theorem ends_exited {s s' : ThreadPool Task} {e : PoolStep Task} (h : Ends s e s') :
    (∀ k : ℕ, s.threads[k]? = some .exited → s'.threads[k]? = some .exited) ∧
      s'.count Place.isAsleep + s'.count Place.isWindow ≤
        s.count Place.isAsleep + s.count Place.isWindow := by
  cases h with
  | @addTask task w ts hn =>
    obtain ⟨cS, cW, -⟩ := notify_counts hn
    refine ⟨fun k hk => joined_notifyOne hn hk, ?_⟩
    show ts.countP Place.isAsleep + ts.countP Place.isWindow ≤ _
    omega
  | @pass i p hl hi hp =>
    obtain ⟨halive, -, -, -⟩ := Place.of_wantsLock hp
    obtain ⟨cW, -⟩ := ThreadPool.counts_moved .passed hi
    obtain ⟨cS, -⟩ := ThreadPool.sleepers_moved .passed hi
    rw [if_neg (show ¬ Place.passed.isWindow = true from Bool.false_ne_true)] at cW
    rw [if_neg (show ¬ Place.passed.isAsleep = true from Bool.false_ne_true)] at cS
    exact ⟨fun k hk => joined_set hi halive hk, by omega⟩
  | @sleep i hi =>
    obtain ⟨cW, -⟩ := ThreadPool.counts_moved .asleep hi
    obtain ⟨cS, -⟩ := ThreadPool.sleepers_moved .asleep hi
    simp only [Place.isAsleep, Place.isWindow, Bool.false_eq_true, if_true, if_false] at cS cW
    exact ⟨fun k hk => joined_set hi rfl hk, by omega⟩
  | @quit i hi =>
    obtain ⟨cW, -⟩ := ThreadPool.counts_moved .exited hi
    obtain ⟨cS, -⟩ := ThreadPool.sleepers_moved .exited hi
    simp only [Place.isAsleep, Place.isWindow, Bool.false_eq_true, if_false] at cS cW
    exact ⟨fun k hk => joined_set hi rfl hk, by omega⟩
  | @finish i task hl hi =>
    obtain ⟨cW, -⟩ := ThreadPool.counts_moved .start hi
    obtain ⟨cS, -⟩ := ThreadPool.sleepers_moved .start hi
    simp only [Place.isAsleep, Place.isWindow, Bool.false_eq_true, if_false] at cS cW
    refine ⟨fun k hk => joined_set hi rfl hk, ?_⟩
    show (s.moved i .start).count _ + (s.moved i .start).count _ ≤ _
    omega

theorem ends_constant {s s' : ThreadPool Task} {e : PoolStep Task} (h : Ends s e s') :
    s'.shutdown = s.shutdown ∧ s'.liveNum = s.liveNum := by
  cases h <;> exact ⟨rfl, rfl⟩

theorem Ending.pool {e : PoolStep Task} (h : Ending n s) (hs : s.step (.pool e) = some (s', o)) :
    Ending n s' := by
  have hstaff := h.toStaffed.pool hs
  obtain ⟨hw, hp, he⟩ := pool_step hs
  have hends := ends_of_step h.shutdown hw hp
  obtain ⟨hexit, hle⟩ := ends_exited hends
  obtain ⟨hsd, hlive⟩ := ends_constant hends
  have hd : s'.destroyer = s.destroyer := by rw [he]
  have hf : s'.failed = s.failed := by rw [he]
  refine ⟨hstaff, hsd.trans h.shutdown, hlive.trans h.liveNum, hd ▸ h.started, fun j hj => ?_,
    fun j hj => ?_, fun hc => ?_, fun ht => hf ▸ h.terminated (hd ▸ ht)⟩
  · obtain ⟨hj, hlt⟩ := h.notified j (hd ▸ hj)
    exact ⟨hj, fun hj => hle.trans (hlt hj)⟩
  · obtain ⟨hj, hall⟩ := h.joined j (hd ▸ hj)
    exact ⟨hj, fun k hk => ⟨hexit k (hall k hk).1, hf ▸ (hall k hk).2⟩⟩
  · obtain ⟨hnone, hall⟩ := h.closed (hd ▸ hc)
    refine ⟨hf.trans hnone, fun p hp => ?_⟩
    obtain ⟨k, hk⟩ := List.getElem?_of_mem hp
    have hlt : k < s.pool.threads.length := by
      rw [h.threads, ← hstaff.threads]
      exact (List.getElem?_eq_some_iff.mp hk).1
    have := hexit k (List.getElem?_eq_some_iff.mpr ⟨hlt, hall _ (List.getElem_mem hlt)⟩)
    rw [hk] at this
    exact Option.some.inj this

/-- **A task throws**: its worker has exited, and none that has been joined is among those who have
failed. -/
theorem Ending.throws {i : ℕ} (h : Ending n s) (hs : s.step (.throws i) = some (s', o)) :
    Ending n s' := by
  have hstaff := h.toStaffed.throws hs
  obtain ⟨task, hne, hi, rfl⟩ := throws_cases hs
  obtain ⟨cW, -⟩ := ThreadPool.counts_moved .exited hi
  obtain ⟨cS, -⟩ := ThreadPool.sleepers_moved .exited hi
  simp only [Place.isAsleep, Place.isWindow, Bool.false_eq_true, if_false] at cS cW
  refine ⟨hstaff, h.shutdown, h.liveNum, h.started, fun j hj => ?_, fun j hj => ?_, fun hc => ?_,
    fun _ => List.cons_ne_nil i s.failed⟩
  · obtain ⟨hj, hlt⟩ := h.notified j hj
    refine ⟨hj, fun hj => ?_⟩
    have := hlt hj
    show (s.pool.moved i .exited).count _ + (s.pool.moved i .exited).count _ ≤ _
    omega
  · obtain ⟨hj, hall⟩ := h.joined j hj
    refine ⟨hj, fun k hk => ⟨joined_set hi rfl (hall k hk).1, fun hm => ?_⟩⟩
    rcases List.mem_cons.mp hm with rfl | hm
    · rw [(hall k hk).1] at hi
      cases hi
    · exact (hall k hk).2 hm
  · have := (h.closed hc).2 _ (List.mem_of_getElem? hi)
    cases this

theorem notify_cases {w : Option ℕ} (hs : s.step (.notify w) = some (s', o)) :
    ∃ i ts, s.destroyer = .notifying i ∧ i < s.pool.liveNum ∧
      CondVar.notifyOne Place.isAsleep .woken s.pool.threads w = some ts ∧
      s' = { s with pool := { s.pool with threads := ts }, destroyer := .notifying (i + 1) } := by
  obtain ⟨u, hu, he⟩ := Option.map_eq_some_iff.mp hs
  cases he
  unfold Closing.notify at hu
  split at hu
  · next i hi =>
    obtain ⟨hlt, hu⟩ := Option.ite_none_right_eq_some.mp hu
    obtain ⟨ts, hts, rfl⟩ := Option.map_eq_some_iff.mp hu
    exact ⟨i, ts, hi, hlt, hts, rfl⟩
  · cases hu

theorem join_cases (hs : s.step .join = some (s', o)) :
    (∃ i, s.destroyer = .notifying i ∧ s.pool.liveNum ≤ i ∧
      s' = { s with destroyer := .joining 0 }) ∨
    (∃ j, s.destroyer = .joining j ∧ s.pool.threads[j]? = none ∧
      s' = { s with destroyer := .closed }) ∨
    (∃ j, s.destroyer = .joining j ∧ s.pool.threads[j]? = some .exited ∧ j ∉ s.failed ∧
      s' = { s with destroyer := .joining (j + 1) }) ∨
    ∃ j, s.destroyer = .joining j ∧ s.pool.threads[j]? = some .exited ∧ j ∈ s.failed ∧
      s' = { s with destroyer := .terminated } := by
  obtain ⟨u, hu, he⟩ := Option.map_eq_some_iff.mp hs
  cases he
  unfold Closing.join at hu
  split at hu
  · next i hi =>
    obtain ⟨hlt, hu⟩ := Option.ite_none_left_eq_some.mp hu
    cases hu
    exact .inl ⟨i, hi, not_lt.mp hlt, rfl⟩
  · next j hj =>
    split at hu
    · next hn =>
      cases hu
      exact .inr (.inl ⟨j, hj, hn, rfl⟩)
    · next hx =>
      cases hu
      by_cases hf : j ∈ s.failed
      · rw [if_pos hf]
        exact .inr (.inr (.inr ⟨j, hj, hx, hf, rfl⟩))
      · rw [if_neg hf]
        exact .inr (.inr (.inl ⟨j, hj, hx, hf, rfl⟩))
    · cases hu
  · cases hu

theorem Ending.notify {w : Option ℕ} (h : Ending n s) (hs : s.step (.notify w) = some (s', o)) :
    Ending n s' := by
  obtain ⟨i, ts, hi, hlt, hn, rfl⟩ := notify_cases hs
  rw [h.liveNum] at hlt
  obtain ⟨cS, cW, cP⟩ := notify_counts hn
  obtain ⟨hlen, hpres⟩ := present_notifyOne hn h.present
  have hone := h.holders
  have hle := (h.notified i hi).2 (by omega)
  refine ⟨⟨hlen.trans h.threads, hpres, ?_, h.failed⟩, h.shutdown, h.liveNum, nofun, fun j hj => ?_,
    nofun, nofun, nofun⟩
  · show ts.countP Place.isWindow + ts.countP Place.isPassed ≤ 1
    omega
  · cases hj
    refine ⟨by omega, fun hj => ?_⟩
    show ts.countP Place.isAsleep + ts.countP Place.isWindow ≤ n - (i + 1)
    omega

theorem Ending.join (h : Ending n s) (hs : s.step .join = some (s', o)) : Ending n s' := by
  have hstaff (d : Destroyer) : Staffed n { s with destroyer := d } :=
    ⟨h.threads, h.present, h.holders, h.failed⟩
  obtain ⟨i, hi, hle, rfl⟩ | ⟨j, hj, hnone, rfl⟩ | ⟨j, hj, hx, hf, rfl⟩ | ⟨j, hj, hx, hf, rfl⟩ :=
    join_cases hs
  · refine ⟨hstaff _, h.shutdown, h.liveNum, nofun, nofun, ?_, nofun, nofun⟩
    intro k hk
    cases hk
    exact ⟨Nat.zero_le n, fun k hk => absurd hk (Nat.not_lt_zero k)⟩
  · have hlen : s.pool.threads.length ≤ j := List.getElem?_eq_none_iff.mp hnone
    have hall := (h.joined j hj).2
    refine ⟨hstaff _, h.shutdown, h.liveNum, nofun, nofun, nofun, fun _ => ⟨?_, ?_⟩, nofun⟩
    · refine List.eq_nil_iff_forall_not_mem.mpr fun k hk => ?_
      have hlt := h.failed k hk
      rw [← h.threads] at hlt
      exact (hall k (by omega)).2 hk
    · intro p hp
      obtain ⟨k, hk⟩ := List.getElem?_of_mem hp
      have hlt : k < s.pool.threads.length := (List.getElem?_eq_some_iff.mp hk).1
      have := (hall k (by omega)).1
      rw [hk] at this
      exact Option.some.inj this
  · refine ⟨hstaff _, h.shutdown, h.liveNum, nofun, nofun, ?_, nofun, nofun⟩
    intro k hk
    cases hk
    have hlt := (List.getElem?_eq_some_iff.mp hx).1
    rw [h.threads] at hlt
    refine ⟨hlt, fun k hk => ?_⟩
    rcases Nat.lt_succ_iff_lt_or_eq.mp hk with hk | rfl
    · exact (h.joined j hj).2 k hk
    · exact ⟨hx, hf⟩
  · exact ⟨hstaff _, h.shutdown, h.liveNum, nofun, nofun, nofun, nofun,
      fun _ => List.ne_nil_of_mem hf⟩

theorem Ending.step (h : Ending n s) (hs : s.step e = some (s', o)) : Ending n s' := by
  cases e with
  | pool e => exact h.pool hs
  | throws i => exact h.throws hs
  | shutdown =>
    obtain ⟨hi, -⟩ := Option.ite_none_right_eq_some.mp hs
    exact absurd hi h.started
  | notify w => exact h.notify hs
  | join => exact h.join hs

/-! ## The steps left -/

/-- The steps a worker has left behind `shutdown`. -/
def steps : Place Task → ℕ
  | .window => 4
  | .asleep => 3
  | .running _ => 3
  | .start => 2
  | .woken => 2
  | .passed => 1
  | .exited => 0
  | .recycled => 0

/-- The steps the destructor of `n` workers has left. -/
def stepsLeft (n : ℕ) : Destroyer → ℕ
  | .idle => 0
  | .notifying i => n - i + n + 2
  | .joining j => n - j + 1
  | .closed => 0
  | .terminated => 0

/-- The steps left. -/
def rank (n : ℕ) (s : Closing Task) : ℕ :=
  (s.pool.threads.map steps).sum + stepsLeft n s.destroyer

theorem sum_notifyOne {ts ts' : List (Place Task)} {w : Option ℕ}
    (hw : CondVar.notifyOne Place.isAsleep .woken ts w = some ts') :
    (ts'.map steps).sum ≤ (ts.map steps).sum := by
  obtain ⟨-, -, rfl⟩ | ⟨i, p, -, hi, hp, rfl⟩ := CondVar.notifyOne_cases hw
  · exact le_rfl
  · have := CondVar.sum_set steps .woken hi
    rw [ThreadPool.eq_asleep hp] at this
    simp only [steps] at this
    omega

theorem sum_set_lt {ts : List (Place Task)} {i : ℕ} {p q : Place Task} (hi : ts[i]? = some p)
    (hlt : steps q < steps p) : ((ts.set i q).map steps).sum < (ts.map steps).sum := by
  have := CondVar.sum_set steps q hi
  omega

/-- **Every step but `AddTask` is one less.** -/
theorem rank_step (h : Ending n s) (ha : ¬ Adds e) (hs : s.step e = some (s', o)) :
    s'.rank n < s.rank n := by
  unfold rank
  cases e with
  | shutdown =>
    obtain ⟨hi, -⟩ := Option.ite_none_right_eq_some.mp hs
    exact absurd hi h.started
  | notify w =>
    obtain ⟨i, ts, hi, hlt, hn, rfl⟩ := notify_cases hs
    rw [h.liveNum] at hlt
    have := sum_notifyOne hn
    rw [hi]
    simp only [stepsLeft]
    omega
  | join =>
    obtain ⟨i, hi, hle, rfl⟩ | ⟨j, hj, hnone, rfl⟩ | ⟨j, hj, hx, hf, rfl⟩ | ⟨j, hj, hx, hf, rfl⟩ :=
      join_cases hs
    · rw [hi]
      simp only [stepsLeft]
      omega
    · rw [hj]
      simp only [stepsLeft]
      omega
    · have hlt := (List.getElem?_eq_some_iff.mp hx).1
      rw [h.threads] at hlt
      rw [hj]
      simp only [stepsLeft]
      omega
    · rw [hj]
      simp only [stepsLeft]
      omega
  | throws i =>
    obtain ⟨task, -, hi, rfl⟩ := throws_cases hs
    exact Nat.add_lt_add_right (sum_set_lt hi (by simp [steps])) _
  | pool e =>
    obtain ⟨hw, hp, he⟩ := pool_step hs
    have hd : s'.destroyer = s.destroyer := by rw [he]
    rw [hd]
    have hlt : (s'.pool.threads.map steps).sum < (s.pool.threads.map steps).sum := by
      generalize s'.pool = pool at hp
      cases ends_of_step h.shutdown hw hp with
      | addTask => exact absurd trivial ha
      | @pass i p hl hi hpl =>
        refine sum_set_lt hi ?_
        cases p with
        | start | woken => simp [steps]
        | _ => cases hpl
      | sleep hi => exact sum_set_lt hi (by simp [steps])
      | quit hi => exact sum_set_lt hi (by simp [steps])
      | finish hl hi => exact sum_set_lt hi (by simp [steps])
    omega

theorem rank_le (h : Ending n s) (h0 : s.destroyer = .notifying 0) : s.rank n ≤ 6 * n + 2 := by
  have hle : ∀ ts : List (Place Task), (ts.map steps).sum ≤ 4 * ts.length := by
    intro ts
    induction ts with
    | nil => exact le_rfl
    | cons p ts ih =>
      have : steps p ≤ 4 := by cases p <;> simp [steps]
      rw [List.map_cons, List.sum_cons, List.length_cons]
      omega
  have := hle s.pool.threads
  rw [h.threads] at this
  rw [rank, h0]
  simp only [stepsLeft]
  omega

/-! ## Late sleepers -/

theorem behind_iff {s s' : Closing Task} (h : Ending n s) (h' : Ending n s')
    (hd : s'.destroyer = s.destroyer) : s'.Behind ↔ s.Behind := by
  rw [Behind, Behind, hd, h.liveNum, h'.liveNum]

theorem destroyer_pool {e : PoolStep Task} (hs : s.step (.pool e) = some (s', o)) :
    s'.destroyer = s.destroyer := by
  obtain ⟨-, -, he⟩ := pool_step hs
  rw [he]

theorem asleep_throws {i : ℕ} (hs : s.step (.throws i) = some (s', o)) :
    s'.destroyer = s.destroyer ∧ s'.pool.count Place.isAsleep = s.pool.count Place.isAsleep := by
  obtain ⟨task, -, hi, rfl⟩ := throws_cases hs
  obtain ⟨cS, -⟩ := ThreadPool.sleepers_moved .exited hi
  exact ⟨rfl, cS⟩

/-- The sleepers behind a step of a worker that is not late. -/
theorem asleep_pool {e : PoolStep Task} (h : Ending n s) (hs : s.step (.pool e) = some (s', o)) :
    ((∀ i, e ≠ .sleep i) → s'.pool.count Place.isAsleep ≤ s.pool.count Place.isAsleep) ∧
      (¬ Adds (.pool e) → s.pool.count Place.isAsleep ≤ s'.pool.count Place.isAsleep) := by
  obtain ⟨hw, hp, -⟩ := pool_step hs
  generalize s'.pool = pool at hp
  cases ends_of_step h.shutdown hw hp with
  | @addTask task w ts hn =>
    obtain ⟨cS, -, -⟩ := notify_counts hn
    refine ⟨fun _ => ?_, fun ha => absurd trivial ha⟩
    show ts.countP Place.isAsleep ≤ _
    omega
  | @pass i p hl hi hpl =>
    obtain ⟨-, -, hsleep, -⟩ := Place.of_wantsLock hpl
    obtain ⟨cS, -⟩ := ThreadPool.sleepers_moved .passed hi
    rw [hsleep] at cS
    simp only [Place.isAsleep, Bool.false_eq_true, if_false] at cS
    omega
  | @sleep i hi =>
    obtain ⟨cS, -⟩ := ThreadPool.sleepers_moved .asleep hi
    simp only [Place.isAsleep, Bool.false_eq_true, if_true, if_false] at cS
    exact ⟨fun hne => absurd rfl (hne i), fun _ => by omega⟩
  | @quit i hi =>
    obtain ⟨cS, -⟩ := ThreadPool.sleepers_moved .exited hi
    simp only [Place.isAsleep, Bool.false_eq_true, if_false] at cS
    omega
  | @finish i task hl hi =>
    obtain ⟨cS, -⟩ := ThreadPool.sleepers_moved .start hi
    simp only [Place.isAsleep, Bool.false_eq_true, if_false] at cS
    have hsame : ThreadPool.count { s.pool.moved i .start with busyNum := s.pool.busyNum - 1 }
        Place.isAsleep = (s.pool.moved i .start).count Place.isAsleep := rfl
    omega

theorem asleep_step (h : Ending n s) (h0 : s.Behind → s.pool.count Place.isAsleep = 0)
    (hl : ¬ s.Late e) (hs : s.step e = some (s', o)) :
    s'.Behind → s'.pool.count Place.isAsleep = 0 := by
  have h' := h.step hs
  cases e with
  | shutdown =>
    obtain ⟨hi, -⟩ := Option.ite_none_right_eq_some.mp hs
    exact absurd hi h.started
  | notify w =>
    obtain ⟨i, ts, hi, hlt, hn, rfl⟩ := notify_cases hs
    intro hb
    have hb : s.pool.liveNum ≤ (i + 1 : ℕ) := hb
    rw [h.liveNum] at hlt hb
    have hle := (h.notified i hi).2 (by omega)
    obtain ⟨cS, -, -⟩ := notify_counts hn
    show ts.countP Place.isAsleep = 0
    omega
  | join =>
    intro _
    obtain ⟨i, hi, hle, rfl⟩ | ⟨j, hj, -, rfl⟩ | ⟨j, hj, -, -, rfl⟩ | ⟨j, hj, -, -, rfl⟩ :=
      join_cases hs
    · exact h0 (by rw [Behind, hi]; exact hle)
    · exact h0 (by rw [Behind, hj]; trivial)
    · exact h0 (by rw [Behind, hj]; trivial)
    · exact h0 (by rw [Behind, hj]; trivial)
  | throws i =>
    intro hb
    obtain ⟨hd, hsame⟩ := asleep_throws hs
    exact hsame.trans (h0 ((behind_iff h h' hd).mp hb))
  | pool e =>
    intro hb
    have hb := (behind_iff h h' (destroyer_pool hs)).mp hb
    have hle := (asleep_pool h hs).1 (by
      rintro i rfl
      exact hl hb)
    have := h0 hb
    omega

theorem asleep_stays (h : Ending n s) (hb : s.Behind) (h0 : 0 < s.pool.count Place.isAsleep)
    (ha : ¬ Adds e) (hs : s.step e = some (s', o)) :
    s'.Behind ∧ 0 < s'.pool.count Place.isAsleep := by
  have h' := h.step hs
  cases e with
  | shutdown =>
    obtain ⟨hi, -⟩ := Option.ite_none_right_eq_some.mp hs
    exact absurd hi h.started
  | notify w =>
    obtain ⟨i, ts, hi, hlt, -, -⟩ := notify_cases hs
    rw [Behind, hi] at hb
    exact absurd hb (not_le.mpr hlt)
  | join =>
    obtain ⟨i, hi, hle, rfl⟩ | ⟨j, hj, -, rfl⟩ | ⟨j, hj, -, -, rfl⟩ | ⟨j, hj, -, -, rfl⟩ :=
      join_cases hs
    · exact ⟨trivial, h0⟩
    · exact ⟨trivial, h0⟩
    · exact ⟨trivial, h0⟩
    · exact ⟨trivial, h0⟩
  | throws i =>
    obtain ⟨hd, hsame⟩ := asleep_throws hs
    exact ⟨(behind_iff h h' hd).mpr hb, by omega⟩
  | pool e =>
    have := (asleep_pool h hs).2 ha
    exact ⟨(behind_iff h h' (destroyer_pool hs)).mpr hb, by omega⟩

/-! ## Where nothing can happen any more -/

theorem exists_of_locked (ht : s.destroyer ≠ .terminated) (h : s.pool.locked) :
    ∃ e, ¬ Adds e ∧ (s.step e).isSome := by
  have hpos : 0 < s.pool.count Place.isWindow ∨ 0 < s.pool.count Place.isPassed := by
    simp only [ThreadPool.locked] at h
    omega
  rcases hpos with hw | hp
  · obtain ⟨p, hp, hw⟩ := List.countP_pos_iff.mp hw
    obtain ⟨i, hi⟩ := List.getElem?_of_mem hp
    exact ⟨.pool (.sleep i), not_false, by simp [step, ofWorker, ThreadPool.step, hi, hw, ht]⟩
  · obtain ⟨p, hp, hw⟩ := List.countP_pos_iff.mp hp
    obtain ⟨i, hi⟩ := List.getElem?_of_mem hp
    exact ⟨.pool (.proceed i), not_false, by simp [step, ofWorker, ThreadPool.step, hi, hw, ht]⟩

/-- A worker that has neither exited nor sleeps without a wake-up can go on, or the holder of the
lock can. -/
theorem exists_of_worker (h : Ending n s) (ht : s.destroyer ≠ .terminated) {i : ℕ}
    {p : Place Task} (hi : s.pool.threads[i]? = some p) (hx : p ≠ .exited) (ha : p ≠ .asleep) :
    ∃ e, ¬ Adds e ∧ (s.step e).isSome := by
  by_cases hl : s.pool.locked
  · exact exists_of_locked ht hl
  · cases p with
    | start => exact ⟨.pool (.check i), not_false, by
        simp [step, ofWorker, ThreadPool.step, hi, hl, ht, Place.wantsLock]⟩
    | woken => exact ⟨.pool (.check i), not_false, by
        simp [step, ofWorker, ThreadPool.step, hi, hl, ht, Place.wantsLock]⟩
    | window => exact absurd (Nat.add_pos_left (CondVar.countP_pos _ hi rfl) _) hl
    | passed => exact absurd (Nat.add_pos_right _ (CondVar.countP_pos _ hi rfl)) hl
    | running task => exact ⟨.pool (.finish i), not_false, by
        simp [step, ofWorker, ThreadPool.step, hi, hl, ht]⟩
    | asleep => exact absurd rfl ha
    | exited => exact absurd rfl hx
    | recycled => exact absurd rfl (h.present _ (List.mem_of_getElem? hi))

/-- **Where nobody sleeps behind the last call, the destructor gets to its end**, or a `fut.get()`
has rethrown. -/
theorem closed_of_final (h : Ending n s) (h0 : s.Behind → s.pool.count Place.isAsleep = 0)
    (hf : ∀ e, ¬ Adds e → s.step e = none) : s.destroyer = .closed ∨ s.destroyer = .terminated := by
  have stuck : ¬ ∃ e, ¬ Adds e ∧ (s.step e).isSome := by
    rintro ⟨e, ha, hs⟩
    rw [hf e ha] at hs
    cases hs
  cases hd : s.destroyer with
  | idle => exact absurd hd h.started
  | closed => exact .inl rfl
  | terminated => exact .inr rfl
  | notifying i =>
    exfalso
    by_cases hlt : (i : ℤ) < s.pool.liveNum
    · have hjoin : ∃ w ts, CondVar.notifyOne Place.isAsleep .woken s.pool.threads w = some ts := by
        by_cases hz : s.pool.threads.countP Place.isAsleep = 0
        · exact ⟨none, _, if_pos hz⟩
        · obtain ⟨p, hp, hw⟩ := List.countP_pos_iff.mp (Nat.pos_of_ne_zero hz)
          obtain ⟨k, hk⟩ := List.getElem?_of_mem hp
          exact ⟨some k, _, if_pos (by simp [hk, hw])⟩
      obtain ⟨w, ts, hn⟩ := hjoin
      exact stuck ⟨.notify w, nofun, by simp [step, notify, hd, hlt, hn]⟩
    · exact stuck ⟨.join, nofun, by simp [step, join, hd, hlt]⟩
  | joining j =>
    exfalso
    have hz := h0 (by rw [Behind, hd]; trivial)
    cases hj : s.pool.threads[j]? with
    | none => exact stuck ⟨.join, nofun, by simp [step, join, hd, hj]⟩
    | some p =>
      by_cases hx : p = .exited
      · subst hx
        exact stuck ⟨.join, nofun, by simp [step, join, hd, hj]⟩
      · refine stuck (exists_of_worker h (by rw [hd]; nofun) hj hx ?_)
        rintro rfl
        have := CondVar.countP_pos Place.isAsleep hj rfl
        exact absurd hz (Nat.pos_iff_ne_zero.mp this)

/-! ## Whole runs -/

theorem failed_step (hs : s.step e = some (s', o)) :
    s'.failed = [] ↔ s.failed = [] ∧ ¬ Throws e := by
  have keeps : s'.failed = s.failed → ¬ Throws e →
      (s'.failed = [] ↔ s.failed = [] ∧ ¬ Throws e) := by
    intro hf ht
    rw [hf, and_iff_left ht]
  cases e with
  | throws i =>
    obtain ⟨-, -, -, rfl⟩ := throws_cases hs
    simp [Throws]
  | pool e =>
    obtain ⟨-, -, he⟩ := pool_step hs
    exact keeps (by rw [he]) not_false
  | shutdown =>
    obtain ⟨-, hs⟩ := Option.ite_none_right_eq_some.mp hs
    cases hs
    exact keeps rfl not_false
  | notify w =>
    obtain ⟨i, ts, -, -, -, rfl⟩ := notify_cases hs
    exact keeps rfl not_false
  | join =>
    obtain ⟨i, -, -, rfl⟩ | ⟨j, -, -, rfl⟩ | ⟨j, -, -, -, rfl⟩ | ⟨j, -, -, -, rfl⟩ := join_cases hs
    · exact keeps rfl not_false
    · exact keeps rfl not_false
    · exact keeps rfl not_false
    · exact keeps rfl not_false

theorem failed_run {es : List (ClosingStep Task)} {os : List (PoolOut Task)}
    (hr : Run.run step s es = some (t, os)) :
    t.failed = [] ↔ s.failed = [] ∧ ∀ e ∈ es, ¬ Throws e := by
  induction es generalizing s os with
  | nil =>
    cases hr
    simp
  | cons e es ih =>
    obtain ⟨u, o, o', hs, hr, -⟩ := Run.run_cons_eq_some.mp hr
    rw [ih hr, failed_step hs, List.forall_mem_cons, and_assoc]

theorem used_run {es : List (ClosingStep Task)} {os : List (PoolOut Task)}
    (hr : Run.run step (start Task n) es = some (s, os)) : Used n s ∨ Ending n s := by
  let R (_ : List (ClosingStep Task)) (_ : List (PoolOut Task)) (s : Closing Task) : Prop :=
    Used n s ∨ Ending n s
  have h₀ : R [] [] (start Task n) := .inl used_start
  have h : R ([] ++ es) ([] ++ os) s := by
    refine Run.run_induct ?_ h₀ (Run.guarded_true _ es) hr
    rintro - - s e s' o (h | h) - hs
    · cases e with
      | pool e => exact .inl (h.pool hs)
      | throws i => exact .inl (h.throws hs)
      | shutdown => exact .inr (h.shutdown hs)
      | notify w =>
        obtain ⟨i, ts, hi, -⟩ := notify_cases hs
        rw [h.idle] at hi
        cases hi
      | join =>
        obtain ⟨i, hi, -⟩ | ⟨j, hj, -⟩ | ⟨j, hj, -⟩ | ⟨j, hj, -⟩ := join_cases hs
        · rw [h.idle] at hi
          cases hi
        · rw [h.idle] at hj
          cases hj
        · rw [h.idle] at hj
          cases hj
        · rw [h.idle] at hj
          cases hj
    · exact .inr (h.step hs)
  exact h

/-- Behind `shutdown`, without `AddTask`: the steps are counted, nobody sleeps behind the last call
in a run without late sleepers, and a late one sleeps at its end. -/
theorem ending_run {es : List (ClosingStep Task)} {os : List (PoolOut Task)} (h : Ending n s)
    (ha : ∀ e ∈ es, ¬ Adds e) (hr : Run.run step s es = some (t, os)) :
    Ending n t ∧ es.length + t.rank n ≤ s.rank n ∧
      ((s.Behind → s.pool.count Place.isAsleep = 0) →
        Run.Guarded step (fun s e => ¬ s.Late e) s es →
        t.Behind → t.pool.count Place.isAsleep = 0) ∧
      (s.Behind → 0 < s.pool.count Place.isAsleep → 0 < t.pool.count Place.isAsleep) ∧
      (t.pool.count Place.isAsleep = 0 → Run.Guarded step (fun s e => ¬ s.Late e) s es) := by
  induction es generalizing s os with
  | nil =>
    cases hr
    exact ⟨h, by simp, fun h0 _ => h0, fun _ h0 => h0, fun _ => trivial⟩
  | cons e es ih =>
    obtain ⟨u, o, o', hs, hr, -⟩ := Run.run_cons_eq_some.mp hr
    have hadd := ha e List.mem_cons_self
    obtain ⟨ht, hrank, hnone, hstay, hguard⟩ :=
      ih (h.step hs) (fun e he => ha e (List.mem_cons_of_mem _ he)) hr
    have hlt := rank_step h hadd hs
    refine ⟨ht, by rw [List.length_cons]; omega, fun h0 hg => ?_, fun hb h0 => ?_, fun hz => ?_⟩
    · exact hnone (asleep_step h h0 hg.1 hs) (hg.2 u o hs)
    · obtain ⟨hb', h0'⟩ := asleep_stays h hb h0 hadd hs
      exact hstay hb' h0'
    · refine ⟨fun hl => ?_, fun u' o'' hs' => ?_⟩
      · -- the late sleeper is asleep behind the step, and to the end
        obtain ⟨i, rfl⟩ : ∃ i, e = .pool (.sleep i) := by
          cases e with
          | pool e =>
            cases e with
            | sleep i => exact ⟨i, rfl⟩
            | _ => cases hl
          | _ => cases hl
        have hasleep : 0 < u.pool.count Place.isAsleep := by
          obtain ⟨-, hp, -⟩ := pool_step hs
          generalize u.pool = pool at hp
          cases ends_of_step h.shutdown rfl hp with
          | sleep hi =>
            obtain ⟨cS, -⟩ := ThreadPool.sleepers_moved .asleep hi
            simp only [Place.isAsleep, Bool.false_eq_true, if_true, if_false] at cS
            omega
        have := hstay ((behind_iff h (h.step hs) (destroyer_pool hs)).mpr hl) hasleep
        omega
      · rw [hs] at hs'
        cases hs'
        exact hguard hz

/-- **The destructor, late sleepers and exceptions.** However a pool of `n` workers has been used,
once `~CThread` has begun and no task is added any more there are at most `6 * n + 2` steps until
nothing can happen, where every task that runs returns or throws; then the destructor has joined
all workers, each of which has exited, exactly when no worker has fallen asleep behind its last
`notify_one` and no task has thrown, while the pool was used or behind that. -/
theorem destroyed_iff (n : ℕ) (s t : Closing Task) (es es' : List (ClosingStep Task))
    (os os' : List (PoolOut Task)) (hr : Run.run step (start Task n) es = some (s, os))
    (hs : s.destroyer = .idle) (hr' : Run.run step s (.shutdown :: es') = some (t, os'))
    (ha : ∀ e ∈ es', ¬ Adds e) :
    es'.length ≤ 6 * n + 2 ∧
    ((∀ e, ¬ Adds e → step t e = none) → (t.destroyer = .closed ↔
      Run.Guarded step (fun s e => ¬ s.Late e) s (.shutdown :: es') ∧
        ∀ e ∈ es ++ es', ¬ Throws e)) ∧
    (t.destroyer = .closed → ∀ p ∈ t.pool.threads, p = .exited) := by
  obtain ⟨u, o, o', hu, hru, -⟩ := Run.run_cons_eq_some.mp hr'
  have hused : Used n s := (used_run hr).resolve_right fun h => h.started hs
  have hend := hused.shutdown hu
  have h0 : u.destroyer = .notifying 0 := by
    obtain ⟨-, hu⟩ := Option.ite_none_right_eq_some.mp hu
    cases hu
    rfl
  obtain ⟨ht, hrank, hnone, -, hguard⟩ := ending_run hend ha hru
  have hle := rank_le hend h0
  have hfailed : t.failed = [] ↔ ∀ e ∈ es ++ es', ¬ Throws e := by
    rw [failed_run hru, failed_step hu, failed_run hr, List.forall_mem_append,
      and_iff_right (show (start Task n).failed = [] from rfl),
      and_iff_left (show ¬ Throws (.shutdown : ClosingStep Task) from not_false)]
  refine ⟨by omega, fun hf => ⟨fun hc => ⟨?_, hfailed.mp (ht.closed hc).1⟩, fun hg => ?_⟩,
    fun hc => (ht.closed hc).2⟩
  · refine ⟨fun h => h, fun u' o'' hu' => ?_⟩
    rw [hu] at hu'
    cases hu'
    refine hguard (List.countP_eq_zero.mpr fun p hp => ?_)
    rw [(ht.closed hc).2 p hp]
    exact Bool.false_ne_true
  · obtain ⟨hg, hthrows⟩ := hg
    refine (closed_of_final ht (hnone (fun hb => ?_) (hg.2 u o hu)) hf).resolve_right
      fun hterm => ht.terminated hterm (hfailed.mpr hthrows)
    -- with workers, the first call is still to come
    have hb : u.pool.liveNum ≤ (0 : ℕ) := by rwa [Behind, h0] at hb
    have hzero : u.pool.threads.length = 0 := by
      rw [hend.threads]
      rw [hend.liveNum] at hb
      omega
    rw [ThreadPool.count, List.length_eq_zero_iff.mp hzero]
    rfl

/-- Two workers, one asleep and one at a task; both exit and are joined. -/
theorem destroyed_two :
    ∃ (s t : Closing ℕ) (os os' : List (PoolOut ℕ)),
      Run.run step (start ℕ 2) [.pool (.check 1), .pool (.sleep 1), .pool (.addTask 7 (some 1)),
        .pool (.check 1), .pool (.proceed 1), .pool (.check 0), .pool (.sleep 0)] = some (s, os) ∧
      Run.run step s [.shutdown, .notify (some 0), .notify none, .join, .pool (.check 0),
        .pool (.proceed 0), .join, .pool (.finish 1), .pool (.check 1), .pool (.proceed 1), .join,
        .join] = some (t, os') ∧ t.destroyer = .closed ∧ ∀ p ∈ t.pool.threads, p = .exited := by
  obtain ⟨⟨s, os⟩, hr, h⟩ := Run.exists_of_any
    (x := Run.run step (start ℕ 2) [.pool (.check 1), .pool (.sleep 1),
      .pool (.addTask 7 (some 1)), .pool (.check 1), .pool (.proceed 1), .pool (.check 0),
      .pool (.sleep 0)])
    (f := fun r => decide (r.1.destroyer = .idle) && (Run.run step r.1 [.shutdown,
      .notify (some 0), .notify none, .join, .pool (.check 0), .pool (.proceed 0), .join,
      .pool (.finish 1), .pool (.check 1), .pool (.proceed 1), .join, .join]).any
        fun q : Closing ℕ × List (PoolOut ℕ) => decide (q.1.destroyer = .closed))
    (by decide +kernel)
  obtain ⟨hidle, h⟩ := Bool.and_eq_true_iff.mp h
  obtain ⟨⟨t, os'⟩, hr', hc⟩ := Run.exists_of_any h
  have hc := of_decide_eq_true hc
  have ha : ∀ e ∈ [ClosingStep.notify (some 0), .notify none, .join, .pool (.check 0),
      .pool (.proceed 0), .join, .pool (.finish 1), .pool (.check 1), .pool (.proceed 1), .join,
      (.join : ClosingStep ℕ)], ¬ Adds e := by
    simp [Adds]
  exact ⟨s, t, os, os', hr, hr', hc,
    (destroyed_iff 2 s t _ _ os os' hr (of_decide_eq_true hidle) hr' ha).2.2 hc⟩

/-- A worker that had found the predicate false sleeps behind the call, and is never joined. -/
example : (Run.run step (start ℕ 1) [.pool (.check 0), .shutdown, .notify none, .pool (.sleep 0),
    .join]).any (fun r => decide (r.1.pool.count Place.isAsleep = 1) && (r.1.step .join).isNone) =
      true := by decide +kernel

/-- A task that has thrown ends the process when its worker is joined. -/
example : (Run.run step (start ℕ 1) [.pool (.addTask 7 none), .pool (.check 0), .pool (.proceed 0),
    .throws 0, .shutdown, .notify none, .join, .join]).any
      (fun r => decide (r.1.destroyer = .terminated)) = true := by decide +kernel

end Closing

end ServerNginx
