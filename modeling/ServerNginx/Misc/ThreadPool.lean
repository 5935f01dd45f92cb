import ServerNginx.Lib.CNumber
import ServerNginx.Lib.CondVar
import ServerNginx.Lib.Run

set_option autoImplicit false

/-!
# The thread pool

`CThread` with its two mutexes. A section under `CThreadMutex` is one step, or several where the
code leaves room for another thread: a worker that holds the lock evaluates the predicate of the
wait in one step and goes on in the next, since `AddTask` takes `TQMutex` only. `notify_one` is
`CondVar.notifyOne`. No step sets `shutdown`.

* `Place`: where a `WorkThread` is;
* `ThreadPool.step`: one step of a worker, of the manager, of the recycling thread or of a caller of
  `AddTask`;
* `ThreadPool.Moves`, `moves_of_step`: everything a step can do;
* `ThreadPool.Sound`: what holds of every pool that was constructed with `Tmin ≤ Tmax`.
-/

namespace ServerNginx

/-- Where a `WorkThread` is. -/
inductive Place (Task : Type)
  /-- it is to lock `CThreadMutex` and to wait -/
  | start
  /-- holding `CThreadMutex`, it has found the predicate false and is to sleep -/
  | window
  /-- in `NotEmpty.wait`, with no wake-up -/
  | asleep
  /-- in `NotEmpty.wait`, woken, to lock `CThreadMutex` again -/
  | woken
  /-- holding `CThreadMutex`, it has passed the wait -/
  | passed
  | running (task : Task)
  /-- it has returned -/
  | exited
  /-- `RecycleThread` has erased it from `ThreadBuf` -/
  | recycled

namespace Place

variable {Task : Type}

/-- It holds `CThreadMutex`. -/
def isWindow : Place Task → Bool
  | .window => true
  | _ => false

def isPassed : Place Task → Bool
  | .passed => true
  | _ => false

def isAsleep : Place Task → Bool
  | .asleep => true
  | _ => false

def isRunning : Place Task → Bool
  | .running _ => true
  | _ => false

/-- The thread has not returned. -/
def isAlive : Place Task → Bool
  | .exited | .recycled => false
  | _ => true

/-- A thread that has not returned and is not in the wait without a wake-up. -/
def isAwake : Place Task → Bool
  | .asleep | .exited | .recycled => false
  | _ => true

/-- It is to lock `CThreadMutex` and to evaluate the predicate. -/
def wantsLock : Place Task → Bool
  | .start | .woken => true
  | _ => false

theorem of_wantsLock {p : Place Task} (hp : p.wantsLock = true) :
    p.isAlive = true ∧ p.isAwake = true ∧ p.isAsleep = false ∧ p.isRunning = false := by
  cases p with
  | start | woken => exact ⟨rfl, rfl, rfl, rfl⟩
  | _ => cases hp

end Place

/-- Where `ManagerThread` is in its loop, with its locals. -/
inductive Manager
  /-- there is none, or it has returned -/
  | absent
  | sleeping
  /-- it has sampled the counters and unlocked -/
  | sampled (busy live tasknum : ℤ)
  deriving DecidableEq

structure ThreadPool (Task : Type) where
  minNum : ℤ
  maxNum : ℤ
  busyNum : ℤ
  liveNum : ℤ
  exitNum : ℤ
  shutdown : Bool
  taskBuf : List Task
  /-- every `WorkThread` there has been, in the order of creation -/
  threads : List (Place Task)
  manager : Manager

/-- What happens in the pool; the workers that `notify_one` wakes are chosen with it. -/
inductive PoolStep (Task : Type)
  | addTask (task : Task) (w : Option ℕ)
  /-- worker `i` gets `CThreadMutex` and evaluates the predicate -/
  | check (i : ℕ)
  /-- worker `i` releases `CThreadMutex` and sleeps -/
  | sleep (i : ℕ)
  /-- worker `i` goes on behind the wait -/
  | proceed (i : ℕ)
  /-- the task of worker `i` returns -/
  | finish (i : ℕ)
  /-- the manager's first section -/
  | sample
  /-- the rest of the manager's round -/
  | adjust (ws : List (Option ℕ))
  /-- the recycling thread finds worker `i` ready -/
  | recycle (i : ℕ)

/-- What is to be seen of a step. -/
inductive PoolOut (Task : Type)
  | added (task : Task)
  | taken (i : ℕ) (task : Task)
  /-- "Get Task failed" -/
  | failed (i : ℕ)
  /-- worker `i` exits because `exitNum > 0` -/
  | left (i : ℕ)
  /-- worker `i` has run the task -/
  | ran (i : ℕ) (task : Task)
  deriving DecidableEq

namespace ThreadPool

def onceCreateNum : ℤ := 2
def onceDestroyNum : ℤ := 2

variable {Task : Type}

/-- `CThread::CThread`, for `Tmin <= Tmax`. -/
def construct (Task : Type) (Tmin Tmax : ℤ) : ThreadPool Task where
  minNum := Tmin
  maxNum := Tmax
  busyNum := 0
  liveNum := Tmin
  exitNum := 0
  shutdown := false
  taskBuf := []
  threads := List.replicate Tmin.toNat .start
  manager := if Tmin < Tmax then .sleeping else .absent

variable (s : ThreadPool Task)

/-- How many threads are at a place of a kind. -/
def count (f : Place Task → Bool) : ℕ := s.threads.countP f

/-- `CThreadMutex` is held. -/
def locked : Prop := 0 < s.count Place.isWindow + s.count Place.isPassed

instance : Decidable s.locked := inferInstanceAs (Decidable (0 < _))

def getTaskNum : ℕ := s.taskBuf.length

/-- The predicate of the wait. -/
def condition : Prop := 0 < s.getTaskNum ∨ s.shutdown = true ∨ 0 < s.exitNum

instance : Decidable s.condition := inferInstanceAs (Decidable (_ ∨ _ ∨ _))

def moved (i : ℕ) (p : Place Task) : ThreadPool Task := { s with threads := s.threads.set i p }

/-- The threads that `n` calls of `emplace_back` start. -/
def createThreads (n : ℤ) : ThreadPool Task :=
  { s with
    threads := s.threads ++ List.replicate n.toNat .start
    liveNum := s.liveNum + n.toNat }

def getTask : Option (Task × ThreadPool Task) :=
  match s.taskBuf with
  | [] => none
  | task :: rest => some (task, { s with taskBuf := rest })

def addTask (task : Task) (w : Option ℕ) : Option (ThreadPool Task) :=
  (CondVar.notifyOne Place.isAsleep .woken s.threads w).map fun ts =>
    { s with taskBuf := s.taskBuf ++ [task], threads := ts }

/-- `WorkThread` behind the wait, up to the task. -/
def workThread (i : ℕ) : ThreadPool Task × List (PoolOut Task) :=
  if s.shutdown then (s.moved i .exited, [])
  else if 0 < s.exitNum then
    ({ s.moved i .exited with exitNum := s.exitNum - 1, liveNum := s.liveNum - 1 }, [.left i])
  else
    match s.getTask with
    | none => (s.moved i .start, [.failed i])
    | some (task, s') =>
      ({ s'.moved i (.running task) with busyNum := s.busyNum + 1 }, [.taken i task])

/-- The first condition of `ManagerThread`. -/
def grows (live tasknum : ℤ) : Prop := live < s.maxNum ∧ tasknum ≠ 0

/-- The second condition of `ManagerThread`. -/
def shrinks (busy live : ℤ) : Prop := s.minNum < live ∧ busy * 2 < live

instance (live tasknum : ℤ) : Decidable (s.grows live tasknum) :=
  inferInstanceAs (Decidable (_ ∧ _))

instance (busy live : ℤ) : Decidable (s.shrinks busy live) := inferInstanceAs (Decidable (_ ∧ _))

/-- How many threads the manager starts. -/
def growth (live : ℤ) : ℤ :=
  if live + onceCreateNum ≤ s.maxNum then onceCreateNum else s.maxNum - live

/-- How many threads the manager tells to exit. -/
def shrinkage (live : ℤ) : ℤ :=
  if s.minNum ≤ live - onceDestroyNum then onceDestroyNum else live - s.minNum

/-- `ManagerThread` behind its first section. -/
def managerThread (busy live tasknum : ℤ) (ws : List (Option ℕ)) : Option (ThreadPool Task) :=
  if s.grows live tasknum then
    if s.locked then none
    else some { s.createThreads (s.growth live) with manager := .sleeping }
  else if s.shrinks busy live then
    if s.locked ∨ ws.length ≠ (s.shrinkage live).toNat then none
    else
      (CondVar.notifyEach Place.isAsleep .woken s.threads ws).map fun ts =>
        { s with exitNum := s.shrinkage live, threads := ts, manager := .sleeping }
  else some { s with manager := .sleeping }

/-- One step of a thread. -/
def step : PoolStep Task → Option (ThreadPool Task × List (PoolOut Task))
  | .addTask task w => (s.addTask task w).map fun s' => (s', [.added task])
  | .check i =>
    if ¬ s.locked ∧ s.threads[i]?.any Place.wantsLock then
      some (s.moved i (if s.condition then .passed else .window), [])
    else none
  | .sleep i => if s.threads[i]?.any Place.isWindow then some (s.moved i .asleep, []) else none
  | .proceed i => if s.threads[i]?.any Place.isPassed then some (s.workThread i) else none
  | .finish i =>
    match s.threads[i]? with
    | some (.running task) =>
      if s.locked then none
      else some ({ s.moved i .start with busyNum := s.busyNum - 1 }, [.ran i task])
    | _ => none
  | .sample =>
    if s.manager = .sleeping then
      if s.shutdown then some ({ s with manager := .absent }, [])
      else if s.locked then none
      else
        let tasknum := CNumber.int32 s.getTaskNum
        some ({ s with manager := .sampled s.busyNum s.liveNum tasknum }, [])
    else none
  | .adjust ws =>
    match s.manager with
    | .sampled busy live tasknum => (s.managerThread busy live tasknum ws).map fun s' => (s', [])
    | _ => none
  | .recycle i =>
    match s.threads[i]? with
    | some .exited => if s.locked then none else some (s.moved i .recycled, [])
    | _ => none

/-! ## What a step can do -/

/-- Every branch of a step, with what it tests. -/
inductive Moves : PoolStep Task → ThreadPool Task → List (PoolOut Task) → Prop
  | addTask {task : Task} {w : Option ℕ} {ts : List (Place Task)}
      (hw : CondVar.notifyOne Place.isAsleep .woken s.threads w = some ts) :
      Moves (.addTask task w) { s with taskBuf := s.taskBuf ++ [task], threads := ts }
        [.added task]
  | pass {i : ℕ} {p : Place Task} (hl : ¬ s.locked) (hi : s.threads[i]? = some p)
      (hp : p.wantsLock = true) (hc : s.condition) : Moves (.check i) (s.moved i .passed) []
  | stay {i : ℕ} {p : Place Task} (hl : ¬ s.locked) (hi : s.threads[i]? = some p)
      (hp : p.wantsLock = true) (hc : ¬ s.condition) : Moves (.check i) (s.moved i .window) []
  | sleep {i : ℕ} (hi : s.threads[i]? = some .window) : Moves (.sleep i) (s.moved i .asleep) []
  | quit {i : ℕ} (hi : s.threads[i]? = some .passed) (hs : s.shutdown = true) :
      Moves (.proceed i) (s.moved i .exited) []
  | leave {i : ℕ} (hi : s.threads[i]? = some .passed) (he : 0 < s.exitNum) :
      Moves (.proceed i)
        { s.moved i .exited with exitNum := s.exitNum - 1, liveNum := s.liveNum - 1 } [.left i]
  | fail {i : ℕ} (hi : s.threads[i]? = some .passed) (hs : s.shutdown = false)
      (he : ¬ 0 < s.exitNum) (ht : s.taskBuf = []) :
      Moves (.proceed i) (s.moved i .start) [.failed i]
  | take {i : ℕ} {task : Task} {rest : List Task} (hi : s.threads[i]? = some .passed)
      (he : ¬ 0 < s.exitNum) (ht : s.taskBuf = task :: rest) :
      Moves (.proceed i)
        { s.moved i (.running task) with taskBuf := rest, busyNum := s.busyNum + 1 }
        [.taken i task]
  | finish {i : ℕ} {task : Task} (hl : ¬ s.locked) (hi : s.threads[i]? = some (.running task)) :
      Moves (.finish i) { s.moved i .start with busyNum := s.busyNum - 1 } [.ran i task]
  | retire (hm : s.manager = .sleeping) (hs : s.shutdown = true) :
      Moves .sample { s with manager := .absent } []
  | sample (hm : s.manager = .sleeping) :
      Moves .sample
        { s with manager := .sampled s.busyNum s.liveNum (CNumber.int32 s.getTaskNum) } []
  | grow {busy live tasknum : ℤ} {ws : List (Option ℕ)}
      (hm : s.manager = .sampled busy live tasknum) (hg : s.grows live tasknum)
      (hl : ¬ s.locked) :
      Moves (.adjust ws) { s.createThreads (s.growth live) with manager := .sleeping } []
  | shrink {busy live tasknum : ℤ} {ws : List (Option ℕ)} {ts : List (Place Task)}
      (hm : s.manager = .sampled busy live tasknum) (hg : ¬ s.grows live tasknum)
      (hs : s.shrinks busy live) (hl : ¬ s.locked) (hn : ws.length = (s.shrinkage live).toNat)
      (hw : CondVar.notifyEach Place.isAsleep .woken s.threads ws = some ts) :
      Moves (.adjust ws)
        { s with exitNum := s.shrinkage live, threads := ts, manager := .sleeping } []
  | rest {busy live tasknum : ℤ} {ws : List (Option ℕ)}
      (hm : s.manager = .sampled busy live tasknum) (hg : ¬ s.grows live tasknum)
      (hs : ¬ s.shrinks busy live) : Moves (.adjust ws) { s with manager := .sleeping } []
  | recycle {i : ℕ} (hl : ¬ s.locked) (hi : s.threads[i]? = some .exited) :
      Moves (.recycle i) (s.moved i .recycled) []

variable {s} {s' : ThreadPool Task} {e : PoolStep Task} {o : List (PoolOut Task)}

theorem moves_workThread {i : ℕ} (hi : s.threads[i]? = some .passed) :
    Moves s (.proceed i) (s.workThread i).1 (s.workThread i).2 := by
  unfold workThread
  by_cases hs : s.shutdown = true
  · rw [if_pos hs]
    exact .quit hi hs
  rw [if_neg hs]
  by_cases he : 0 < s.exitNum
  · rw [if_pos he]
    exact .leave hi he
  rw [if_neg he]
  cases ht : s.taskBuf with
  | nil =>
    simp only [getTask, ht]
    exact .fail hi (by simpa using hs) he ht
  | cons task rest =>
    simp only [getTask, ht]
    exact .take hi he ht

theorem moves_managerThread {busy live tasknum : ℤ} {ws : List (Option ℕ)}
    (hm : s.manager = .sampled busy live tasknum)
    (h : s.managerThread busy live tasknum ws = some s') : Moves s (.adjust ws) s' [] := by
  unfold managerThread at h
  by_cases hg : s.grows live tasknum
  · rw [if_pos hg] at h
    obtain ⟨hl, h⟩ := Option.ite_none_left_eq_some.mp h
    cases h
    exact .grow hm hg hl
  rw [if_neg hg] at h
  by_cases hs : s.shrinks busy live
  · rw [if_pos hs] at h
    obtain ⟨hl, h⟩ := Option.ite_none_left_eq_some.mp h
    obtain ⟨ts, hw, rfl⟩ := Option.map_eq_some_iff.mp h
    push Not at hl
    exact .shrink hm hg hs hl.1 hl.2 hw
  rw [if_neg hs] at h
  cases h
  exact .rest hm hg hs

/-- **Inversion.** A step is one of the moves. -/
theorem moves_of_step (h : s.step e = some (s', o)) : Moves s e s' o := by
  cases e with
  | addTask task w =>
    obtain ⟨t, ht, h⟩ := Option.map_eq_some_iff.mp h
    obtain ⟨ts, hw, rfl⟩ := Option.map_eq_some_iff.mp ht
    cases h
    exact .addTask hw
  | check i =>
    obtain ⟨⟨hl, hi⟩, h⟩ := Option.ite_none_right_eq_some.mp h
    obtain ⟨p, hi, hp⟩ := Option.any_eq_true _ _ |>.mp hi
    cases h
    by_cases hc : s.condition
    · rw [if_pos hc]
      exact .pass hl hi hp hc
    · rw [if_neg hc]
      exact .stay hl hi hp hc
  | sleep i =>
    obtain ⟨hi, h⟩ := Option.ite_none_right_eq_some.mp h
    obtain ⟨p, hi, hp⟩ := Option.any_eq_true _ _ |>.mp hi
    cases h
    cases p <;> cases hp
    exact .sleep hi
  | proceed i =>
    obtain ⟨hi, h⟩ := Option.ite_none_right_eq_some.mp h
    obtain ⟨p, hi, hp⟩ := Option.any_eq_true _ _ |>.mp hi
    cases p <;> cases hp
    have := moves_workThread hi
    rw [Option.some.inj h] at this
    exact this
  | finish i =>
    simp only [step] at h
    split at h
    · next task hi =>
      obtain ⟨hl, h⟩ := Option.ite_none_left_eq_some.mp h
      cases h
      exact .finish hl hi
    · cases h
  | sample =>
    obtain ⟨hm, h⟩ := Option.ite_none_right_eq_some.mp h
    split at h
    · next hs =>
      cases h
      exact .retire hm hs
    · obtain ⟨hl, h⟩ := Option.ite_none_left_eq_some.mp h
      cases h
      exact .sample hm
  | adjust ws =>
    simp only [step] at h
    split at h
    · next busy live tasknum hm =>
      obtain ⟨t, ht, h⟩ := Option.map_eq_some_iff.mp h
      cases h
      exact moves_managerThread hm ht
    · cases h
  | recycle i =>
    simp only [step] at h
    split at h
    · next hi =>
      obtain ⟨hl, h⟩ := Option.ite_none_left_eq_some.mp h
      cases h
      exact .recycle hl hi
    · cases h

/-! ## Counting threads -/

theorem eq_asleep {p : Place Task} (h : p.isAsleep = true) : p = .asleep := by
  cases p <;> first | rfl | cases h

theorem count_createThreads (n : ℤ) (f : Place Task → Bool) :
    (s.createThreads n).count f = s.count f + if f .start then n.toNat else 0 := by
  simp only [count, createThreads, List.countP_append, List.countP_replicate]

theorem count_isAlive : s.count Place.isAlive = s.count Place.isAsleep + s.count Place.isAwake := by
  unfold count
  induction s.threads with
  | nil => rfl
  | cons p ts ih =>
    simp only [List.countP_cons, ih]
    cases p <;> simp [Place.isAlive, Place.isAsleep, Place.isAwake] <;> omega

theorem count_isRunning_le : s.count Place.isRunning ≤ s.count Place.isAlive := by
  refine List.countP_mono_left fun p _ hp => ?_
  cases p <;> first | rfl | cases hp

theorem map_notifyOne {β : Type} {w : Option ℕ} {ts : List (Place Task)} {g : Place Task → β}
    (hw : CondVar.notifyOne Place.isAsleep .woken s.threads w = some ts)
    (hg : g .asleep = g .woken) : ts.map g = s.threads.map g :=
  CondVar.map_notifyOne hw fun p hp => by rw [eq_asleep hp, hg]

theorem map_notifyEach {β : Type} {ws : List (Option ℕ)} {ts : List (Place Task)}
    {g : Place Task → β}
    (hw : CondVar.notifyEach Place.isAsleep .woken s.threads ws = some ts)
    (hg : g .asleep = g .woken) : ts.map g = s.threads.map g :=
  CondVar.map_notifyEach hw fun p hp => by rw [eq_asleep hp, hg]

theorem count_notifyOne {w : Option ℕ} {ts : List (Place Task)} {f : Place Task → Bool}
    (hw : CondVar.notifyOne Place.isAsleep .woken s.threads w = some ts)
    (hf : f .asleep = f .woken) : ts.countP f = s.count f :=
  CondVar.countP_of_map (map_notifyOne hw hf)

theorem count_notifyEach {ws : List (Option ℕ)} {ts : List (Place Task)} {f : Place Task → Bool}
    (hw : CondVar.notifyEach Place.isAsleep .woken s.threads ws = some ts)
    (hf : f .asleep = f .woken) : ts.countP f = s.count f :=
  CondVar.countP_of_map (map_notifyEach hw hf)

/-! ## What holds of every pool -/

/-- The counters and the lock, in every pool that can be reached. -/
structure Sound (s : ThreadPool Task) : Prop where
  shutdown : s.shutdown = false
  /-- `CThreadMutex` has one owner -/
  holders : s.count Place.isWindow + s.count Place.isPassed ≤ 1
  /-- nobody sets `exitNum` while a worker is to sleep -/
  window : 0 < s.count Place.isWindow → s.exitNum = 0
  /-- the predicate is true until the worker that found it true unlocks -/
  passed : 0 < s.count Place.isPassed → 0 < s.getTaskNum ∨ 0 < s.exitNum
  exitNum : 0 ≤ s.exitNum
  busyNum : s.busyNum = s.count Place.isRunning
  liveNum : s.liveNum = s.count Place.isAlive + min 0 s.minNum

theorem sound_construct (Tmin Tmax : ℤ) : Sound (construct Task Tmin Tmax) where
  shutdown := rfl
  holders := by simp [count, construct, Place.isWindow, Place.isPassed, List.countP_replicate]
  window := fun _ => rfl
  passed := by simp [count, construct, Place.isPassed, List.countP_replicate]
  exitNum := le_refl _
  busyNum := by simp [count, construct, Place.isRunning, List.countP_replicate]
  liveNum := by simp [count, construct, Place.isAlive, List.countP_replicate]; omega

theorem shrinkage_pos {busy live : ℤ} (h : s.shrinks busy live) : 0 < s.shrinkage live := by
  unfold shrinkage onceDestroyNum
  have := h.1
  split <;> omega

theorem counts_moved {i : ℕ} {p : Place Task} (q : Place Task) (hi : s.threads[i]? = some p) :
    ((s.moved i q).count Place.isWindow + (if p.isWindow then 1 else 0) =
      s.count Place.isWindow + if q.isWindow then 1 else 0) ∧
    ((s.moved i q).count Place.isPassed + (if p.isPassed then 1 else 0) =
      s.count Place.isPassed + if q.isPassed then 1 else 0) ∧
    ((s.moved i q).count Place.isRunning + (if p.isRunning then 1 else 0) =
      s.count Place.isRunning + if q.isRunning then 1 else 0) ∧
    ((s.moved i q).count Place.isAlive + (if p.isAlive then 1 else 0) =
      s.count Place.isAlive + if q.isAlive then 1 else 0) :=
  ⟨CondVar.countP_set _ _ hi, CondVar.countP_set _ _ hi, CondVar.countP_set _ _ hi,
    CondVar.countP_set _ _ hi⟩

theorem Sound.moved (h : Sound s) {i : ℕ} {p q : Place Task} (hi : s.threads[i]? = some p)
    (hr : q.isRunning = p.isRunning) (ha : q.isAlive = p.isAlive)
    (hw : q.isWindow = true → ¬ s.locked ∧ s.exitNum = 0)
    (hp : q.isPassed = true → ¬ s.locked ∧ (0 < s.getTaskNum ∨ 0 < s.exitNum)) :
    Sound (s.moved i q) := by
  obtain ⟨cW, cP, cR, cA⟩ := counts_moved q hi
  obtain ⟨h1, h2, h3, h4, h5, h6, h7⟩ := h
  simp only [locked] at hw hp
  rw [hr] at cR
  rw [ha] at cA
  have one : q.isWindow = true → ¬ q.isPassed = true := by
    intro a b
    cases q <;> simp [Place.isWindow, Place.isPassed] at a b
  refine ⟨h1, ?_, fun c => ?_, fun c => ?_, h5, ?_, ?_⟩
  · by_cases a : q.isWindow = true
    · have := (hw a).1
      rw [if_pos a] at cW
      rw [if_neg (one a)] at cP
      omega
    · rw [if_neg a] at cW
      by_cases b : q.isPassed = true
      · have := (hp b).1
        rw [if_pos b] at cP
        omega
      · rw [if_neg b] at cP
        omega
  · by_cases a : q.isWindow = true
    · exact (hw a).2
    · rw [if_neg a] at cW
      exact h3 (by omega)
  · by_cases a : q.isPassed = true
    · exact (hp a).2
    · rw [if_neg a] at cP
      exact h4 (by omega)
  · show s.busyNum = _
    omega
  · show s.liveNum = _ + min 0 s.minNum
    omega

theorem Sound.step (h : Sound s) (hs : s.step e = some (s', o)) : Sound s' := by
  cases moves_of_step hs with
  | addTask hw =>
    have cW := count_notifyOne (f := Place.isWindow) hw rfl
    have cP := count_notifyOne (f := Place.isPassed) hw rfl
    have cR := count_notifyOne (f := Place.isRunning) hw rfl
    have cA := count_notifyOne (f := Place.isAlive) hw rfl
    obtain ⟨h1, h2, h3, h4, h5, h6, h7⟩ := h
    refine ⟨h1, ?_, ?_, fun _ => .inl (by simp [getTaskNum]), h5, ?_, ?_⟩ <;>
      simp only [count] at * <;> omega
  | @pass i p hl hi hp hc =>
    have hc : 0 < s.getTaskNum ∨ 0 < s.exitNum := by simpa [condition, h.shutdown] using hc
    obtain ⟨halive, -, -, hrun⟩ := Place.of_wantsLock hp
    exact h.moved hi hrun.symm halive.symm (fun a => by cases a) fun _ => ⟨hl, hc⟩
  | @stay i p hl hi hp hc =>
    have he : s.exitNum = 0 := by
      have := h.exitNum
      have : ¬ 0 < s.exitNum := fun a => hc (.inr (.inr a))
      omega
    obtain ⟨halive, -, -, hrun⟩ := Place.of_wantsLock hp
    exact h.moved hi hrun.symm halive.symm (fun _ => ⟨hl, he⟩) fun a => by cases a
  | sleep hi => exact h.moved hi rfl rfl (fun a => by cases a) fun a => by cases a
  | quit hi hq => simp [h.shutdown] at hq
  | @leave i hi he =>
    obtain ⟨cW, cP, cR, cA⟩ := counts_moved .exited hi
    obtain ⟨h1, h2, h3, h4, h5, h6, h7⟩ := h
    simp only [Place.isWindow, Place.isPassed, Place.isRunning, Place.isAlive, Bool.false_eq_true,
      if_true, if_false] at cW cP cR cA
    simp only [count] at h2 h3 h4 h6 h7
    refine ⟨h1, ?_, ?_, ?_, ?_, ?_, ?_⟩ <;> simp only [count, ThreadPool.moved, getTaskNum] at * <;>
      omega
  | fail hi => exact h.moved hi rfl rfl (fun a => by cases a) fun a => by cases a
  | @take i task rest hi he ht =>
    obtain ⟨cW, cP, cR, cA⟩ := counts_moved (.running task) hi
    obtain ⟨h1, h2, h3, h4, h5, h6, h7⟩ := h
    simp only [Place.isWindow, Place.isPassed, Place.isRunning, Place.isAlive, Bool.false_eq_true,
      if_true, if_false] at cW cP cR cA
    simp only [count] at h2 h3 h4 h6 h7
    refine ⟨h1, ?_, ?_, ?_, ?_, ?_, ?_⟩ <;> simp only [count, ThreadPool.moved, getTaskNum] at * <;>
      omega
  | @finish i task hl hi =>
    obtain ⟨cW, cP, cR, cA⟩ := counts_moved .start hi
    obtain ⟨h1, h2, h3, h4, h5, h6, h7⟩ := h
    simp only [Place.isWindow, Place.isPassed, Place.isRunning, Place.isAlive, Bool.false_eq_true,
      if_true, if_false] at cW cP cR cA
    simp only [count, locked] at hl h2 h3 h4 h6 h7
    refine ⟨h1, ?_, ?_, ?_, ?_, ?_, ?_⟩ <;> simp only [count, ThreadPool.moved, getTaskNum] at * <;>
      omega
  | retire => exact ⟨h.1, h.2, h.3, h.4, h.5, h.6, h.7⟩
  | sample => exact ⟨h.1, h.2, h.3, h.4, h.5, h.6, h.7⟩
  | @grow busy live tasknum ws hm hg hl =>
    have c := fun f => count_createThreads (s := s) (s.growth live) f
    refine ⟨h.1, ?_, ?_, ?_, h.5, ?_, ?_⟩
    · exact (c _).symm ▸ (c _).symm ▸ h.holders
    · exact (c _).symm ▸ h.window
    · exact (c _).symm ▸ h.passed
    · exact (c _).symm ▸ h.busyNum
    · have := h.liveNum
      have := c Place.isAlive
      simp only [count, Place.isAlive, if_true, createThreads] at *
      omega
  | shrink hm hg hr hl hn hw =>
    have hpos := shrinkage_pos hr
    have cW := count_notifyEach (f := Place.isWindow) hw rfl
    have cP := count_notifyEach (f := Place.isPassed) hw rfl
    have cR := count_notifyEach (f := Place.isRunning) hw rfl
    have cA := count_notifyEach (f := Place.isAlive) hw rfl
    obtain ⟨h1, h2, h3, h4, h5, h6, h7⟩ := h
    refine ⟨h1, ?_, ?_, fun _ => .inr hpos, hpos.le, ?_, ?_⟩ <;>
      simp only [count, locked] at * <;> omega
  | rest => exact ⟨h.1, h.2, h.3, h.4, h.5, h.6, h.7⟩
  | recycle hl hi => exact h.moved hi rfl rfl (fun a => by cases a) fun a => by cases a

end ThreadPool

end ServerNginx
