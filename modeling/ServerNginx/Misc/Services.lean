import ServerNginx.Misc.Tasks

set_option autoImplicit false

/-!
# The two tasks that do not return

`ngx_epoll_init` adds `ngx_time_check` and `ngx_timer_free_connection` before anything else is
added, two loops that nothing leaves. The pool of a worker process is `GetInstance(5, 5)`: it has
neither a manager nor a recycling thread.

* `WorkerTask`: what a worker process adds to its pool; `FromWorker`: in what order, and what
  returns;
* `Staffed`: the threads against the tasks that have been taken;
* `run_fill`: a pool whose threads take one task after the other;
* **`requests_le`**: of `T` threads at most `T - 2` run the work of clients, as many can, and with
  two threads or less no work is ever taken.
-/

namespace ServerNginx

/-- The arguments of `AddTask` in a worker process. -/
inductive WorkerTask (Work : Type)
  | ngxTimeCheck
  | ngxTimerFreeConnection
  | work (w : Work)
  deriving DecidableEq

namespace WorkerTask

variable {Work : Type}

def isService : WorkerTask Work → Bool
  | .ngxTimeCheck | .ngxTimerFreeConnection => true
  | .work _ => false

def isWork (t : WorkerTask Work) : Bool := !t.isService

variable (Work) in
/-- What `ngx_epoll_init` adds. -/
def services : List (WorkerTask Work) := [.ngxTimeCheck, .ngxTimerFreeConnection]

end WorkerTask

/-- A thread runs a task of a kind. -/
def Place.isBusy {Task : Type} (f : Task → Bool) : Place Task → Bool
  | .running task => f task
  | _ => false

namespace ThreadPool

variable {Work Task : Type}

open WorkerTask (services isService isWork)

/-- The outputs are those of a worker process. -/
structure FromWorker (os : List (PoolOut (WorkerTask Work))) : Prop where
  added : ∃ ws : List Work, tasksAdded os <+: services Work ++ ws.map .work
  /-- the loops do not return -/
  endless : ∀ i task, .ran i task ∈ os → task.isService = false

variable {os o : List (PoolOut (WorkerTask Work))} {s s' : ThreadPool (WorkerTask Work)}
  {e : PoolStep (WorkerTask Work)} {n : ℕ}

theorem FromWorker.of_append (h : FromWorker (os ++ o)) : FromWorker os where
  added := by
    obtain ⟨ws, hws⟩ := h.added
    rw [tasksAdded, List.filterMap_append] at hws
    exact ⟨ws, (List.prefix_append _ _).trans hws⟩
  endless := fun i task hi => h.endless i task (List.mem_append_left _ hi)

theorem countP_isService {ts : List (WorkerTask Work)} {ws : List Work} {w : Work}
    (hts : ts <+: services Work ++ ws.map .work) (hw : .work w ∈ ts) :
    ts.countP isService = 2 := by
  cases ts with
  | nil => cases hw
  | cons x ts =>
    obtain ⟨hx, h₁⟩ := List.cons_prefix_cons.mp hts
    cases ts with
    | nil => simp [hx] at hw
    | cons y ts =>
      obtain ⟨hy, h₂⟩ := List.cons_prefix_cons.mp h₁
      have hzero : ts.countP isService = 0 := by
        refine List.countP_eq_zero.mpr fun t ht => ?_
        obtain ⟨w', -, rfl⟩ := List.mem_map.mp (h₂.subset ht)
        exact Bool.false_ne_true
      rw [hx, hy, List.countP_cons_of_pos rfl, List.countP_cons_of_pos rfl, hzero]

theorem count_isBusy_le (s : ThreadPool (WorkerTask Work)) :
    s.count (Place.isBusy isService) + s.count (Place.isBusy isWork) ≤ s.threads.length := by
  unfold count
  induction s.threads with
  | nil => exact le_rfl
  | cons p ts ih =>
    have hp : (if Place.isBusy isService p then 1 else 0) +
        (if Place.isBusy isWork p then 1 else 0) ≤ 1 := by
      cases p with
      | running task => cases h : task.isService <;> simp [Place.isBusy, isWork, h]
      | _ => simp [Place.isBusy]
    rw [List.countP_cons, List.countP_cons, List.length_cons]
    omega

/-! ## The threads and the tasks that have been taken -/

/-- What a run of a pool without a manager has come to. -/
structure Staffed (n : ℕ) (os : List (PoolOut (WorkerTask Work)))
    (s : ThreadPool (WorkerTask Work)) : Prop where
  manager : s.manager = .absent
  threads : s.threads.length = n
  taken : s.count (Place.isBusy isService) = (tasksTaken os).countP isService
  room : ∀ w, .work w ∈ tasksTaken os → 3 ≤ n

theorem isBusy_of_wantsLock {p : Place Task} {f : Task → Bool} (hp : p.wantsLock = true) :
    p.isBusy f = false := by
  cases p with
  | start | woken => rfl
  | _ => cases hp

theorem Staffed.moved (h : Staffed n os s) {i : ℕ} {p : Place (WorkerTask Work)}
    (q : Place (WorkerTask Work)) (hi : s.threads[i]? = some p)
    (hq : q.isBusy isService = p.isBusy isService)
    (ho : tasksTaken (os ++ o) = tasksTaken os) (hm : s'.manager = s.manager)
    (ht : s'.threads = s.threads.set i q) : Staffed n (os ++ o) s' where
  manager := hm.trans h.manager
  threads := by
    rw [ht, List.length_set]
    exact h.threads
  taken := by
    have hset := CondVar.countP_set (Place.isBusy isService) q hi
    rw [hq] at hset
    rw [ho, ← h.taken, count, ht]
    exact Nat.add_right_cancel hset
  room := by
    rw [ho]
    exact h.room

theorem Staffed.step (h : Staffed n os s) (hL : Ledger (os ++ o) s') (hf : FromWorker (os ++ o))
    (hs : s.step e = some (s', o)) : Staffed n (os ++ o) s' := by
  have hquiet : tasksTaken o = [] → tasksTaken (os ++ o) = tasksTaken os := by
    intro ho
    unfold tasksTaken at ho ⊢
    rw [List.filterMap_append, ho, List.append_nil]
  cases moves_of_step hs with
  | addTask hw =>
    have hlen := congrArg List.length (map_notifyOne (g := Place.isAlive) hw rfl)
    rw [List.length_map, List.length_map] at hlen
    refine ⟨h.manager, hlen.trans h.threads, ?_, ?_⟩
    · rw [hquiet rfl, ← h.taken]
      exact count_notifyOne hw rfl
    · rw [hquiet rfl]
      exact h.room
  | @pass i p hl hi hp hc =>
    exact h.moved .passed hi (isBusy_of_wantsLock hp).symm (hquiet rfl) rfl rfl
  | @stay i p hl hi hp hc =>
    exact h.moved .window hi (isBusy_of_wantsLock hp).symm (hquiet rfl) rfl rfl
  | sleep hi => exact h.moved .asleep hi rfl (hquiet rfl) rfl rfl
  | quit hi hq => exact h.moved .exited hi rfl (hquiet rfl) rfl rfl
  | leave hi he => exact h.moved .exited hi rfl (hquiet rfl) rfl rfl
  | fail hi => exact h.moved .start hi rfl (hquiet rfl) rfl rfl
  | @take i task rest hi he ht =>
    have htaken : tasksTaken (os ++ [.taken i task]) = tasksTaken os ++ [task] := by
      rw [tasksTaken, List.filterMap_append]
      rfl
    have hset := CondVar.countP_set (Place.isBusy isService) (.running task) hi
    have hlen : (s.threads.set i (.running task)).length = n := List.length_set.trans h.threads
    have hserv : (s.threads.set i (.running task)).countP (Place.isBusy isService) =
        (tasksTaken (os ++ [.taken i task])).countP isService := by
      rw [htaken, List.countP_append, List.countP_singleton, ← h.taken]
      exact hset
    refine ⟨h.manager, hlen, hserv, fun w hw => ?_⟩
    rw [htaken, List.mem_append, List.mem_singleton] at hw
    rcases hw with hw | rfl
    · exact h.room w hw
    -- work is taken: both services are running, and this thread runs something else
    · obtain ⟨ws, hws⟩ := hf.added
      have hpre : tasksTaken (os ++ [.taken i (.work w)]) <+: services Work ++ ws.map .work :=
        by
        rw [hL.order] at hws
        exact (List.prefix_append _ _).trans hws
      have htwo := countP_isService hpre (w := w) (by rw [htaken]; simp)
      have hone := CondVar.countP_pos (p := .running (.work w)) (Place.isBusy isWork)
        (List.getElem?_set_self (List.getElem?_eq_some_iff.mp hi).1) rfl
      have hle := count_isBusy_le (s.moved i (.running (.work w)))
      simp only [count, ThreadPool.moved] at hle
      omega
  | @finish i task hl hi =>
    have hwork : task.isService = false := hf.endless i task (by simp)
    exact h.moved .start hi hwork.symm (hquiet rfl) rfl rfl
  | retire hm => cases hm.symm.trans h.manager
  | sample hm => cases hm.symm.trans h.manager
  | grow hm => cases hm.symm.trans h.manager
  | shrink hm => cases hm.symm.trans h.manager
  | rest hm => cases hm.symm.trans h.manager
  | recycle hl hi => exact h.moved .recycled hi rfl (hquiet rfl) rfl rfl

theorem staffed_construct (T : ℤ) :
    Staffed T.toNat [] (construct (WorkerTask Work) T T) where
  manager := if_neg (lt_irrefl T)
  threads := List.length_replicate
  taken := by simp [count, construct, Place.isBusy, List.countP_replicate, tasksTaken]
  room := by simp [tasksTaken]

/-! ## A pool that is filled -/

/-- Task after task is added and taken, from thread `i` on. -/
def fill : ℕ → List Task → List (PoolStep Task)
  | _, [] => []
  | i, t :: ts => .addTask t none :: .check i :: .proceed i :: fill (i + 1) ts

def filled : ℕ → List Task → List (PoolOut Task)
  | _, [] => []
  | i, t :: ts => .added t :: .taken i t :: filled (i + 1) ts

/-- The pool where `ts` are running, and `n` threads have not begun. -/
def busyPool (T : ℤ) (ts : List Task) (n : ℕ) : ThreadPool Task :=
  { construct Task T T with
    busyNum := ts.length
    threads := ts.map .running ++ List.replicate n .start }

theorem count_busyPool {T : ℤ} {ts : List Task} {n : ℕ} {f : Place Task → Bool}
    (hstart : f .start = false) (hrun : ∀ t, f (.running t) = false) :
    (busyPool T ts n).count f = 0 := by
  refine List.countP_eq_zero.mpr fun p hp => ?_
  rcases List.mem_append.mp hp with hp | hp
  · obtain ⟨t, -, rfl⟩ := List.mem_map.mp hp
    rw [hrun]
    exact Bool.false_ne_true
  · rw [List.eq_of_mem_replicate hp, hstart]
    exact Bool.false_ne_true

theorem count_isBusy (T : ℤ) (ts : List Task) (n : ℕ) (f : Task → Bool) :
    (busyPool T ts n).count (Place.isBusy f) = ts.countP f := by
  have hidle : (List.replicate n Place.start : List (Place Task)).countP (Place.isBusy f) = 0 := by
    refine List.countP_eq_zero.mpr fun p hp => ?_
    rw [List.eq_of_mem_replicate hp]
    exact Bool.false_ne_true
  rw [count, busyPool, List.countP_append, List.countP_map, hidle]
  rfl

theorem run_take (T : ℤ) (ts : List Task) (t : Task) (n : ℕ) :
    Run.run step (busyPool T ts (n + 1)) [.addTask t none, .check ts.length, .proceed ts.length] =
      some (busyPool T (ts ++ [t]) n, [.added t, .taken ts.length t]) := by
  have hget : ∀ p : Place Task,
      (ts.map Place.running ++ p :: List.replicate n .start)[ts.length]? = some p := by
    intro p
    rw [List.getElem?_append_right (by simp), List.length_map, Nat.sub_self]
    rfl
  have hset : ∀ p q : Place Task,
      (ts.map Place.running ++ p :: List.replicate n .start).set ts.length q =
        ts.map Place.running ++ q :: List.replicate n .start := by
    intro p q
    rw [List.set_append_right _ _ (by simp), List.length_map, Nat.sub_self]
    rfl
  let s₁ : ThreadPool Task := { busyPool T ts (n + 1) with taskBuf := [t] }
  have h₁ : (busyPool T ts (n + 1)).step (.addTask t none) = some (s₁, [.added t]) := by
    have hw : CondVar.notifyOne Place.isAsleep .woken (busyPool T ts (n + 1)).threads none =
        some (busyPool T ts (n + 1)).threads := if_pos (count_busyPool rfl fun _ => rfl)
    simp only [step, ThreadPool.addTask, hw, Option.map_some]
    rfl
  have h₂ : s₁.step (.check ts.length) = some (s₁.moved ts.length .passed, []) := by
    have hl : ¬ s₁.locked := by
      have hwin : s₁.count Place.isWindow = 0 := count_busyPool (T := T) rfl fun _ => rfl
      have hpass : s₁.count Place.isPassed = 0 := count_busyPool (T := T) rfl fun _ => rfl
      simp [locked, hwin, hpass]
    have hi : s₁.threads[ts.length]? = some .start := hget .start
    have hc : s₁.condition := Or.inl Nat.one_pos
    simp only [step, hi, hl, hc, Option.any_some, if_true]
    rfl
  have h₃ : (s₁.moved ts.length .passed).step (.proceed ts.length) =
      some (busyPool T (ts ++ [t]) n, [.taken ts.length t]) := by
    have hthreads : (s₁.moved ts.length .passed).threads =
        ts.map Place.running ++ .passed :: List.replicate n .start := hset .start .passed
    have hpool : ts.map Place.running ++ .running t :: List.replicate n .start =
        (ts ++ [t]).map Place.running ++ List.replicate n .start := by simp
    have hi : (s₁.moved ts.length .passed).threads[ts.length]? = some .passed := by
      rw [hthreads, hget]
    have hwork : (s₁.moved ts.length .passed).workThread ts.length =
        ({ s₁ with
          busyNum := ts.length + 1
          taskBuf := []
          threads := (s₁.moved ts.length .passed).threads.set ts.length (.running t) },
          [.taken ts.length t]) := rfl
    rw [hthreads, hset, hpool] at hwork
    have hlen : ((ts ++ [t]).length : ℤ) = ts.length + 1 := by simp
    simp only [step, hi, Option.any_some, Place.isPassed, if_true, hwork, busyPool, hlen]
    rfl
  exact Run.run_cons_eq_some.mpr ⟨_, _, _, h₁, Run.run_cons_eq_some.mpr
    ⟨_, _, _, h₂, Run.run_cons_eq_some.mpr ⟨_, _, _, h₃, rfl, rfl⟩, rfl⟩, rfl⟩

theorem run_fill (T : ℤ) (ts : List Task) : ∀ (us : List Task) (n : ℕ),
    Run.run step (busyPool T us (ts.length + n)) (fill us.length ts) =
      some (busyPool T (us ++ ts) n, filled us.length ts) := by
  induction ts with
  | nil =>
    intro us n
    rw [List.length_nil, Nat.zero_add, List.append_nil]
    rfl
  | cons t ts ih =>
    intro us n
    have hfirst := run_take T us t (ts.length + n)
    have hrest := ih (us ++ [t]) n
    rw [List.length_append, List.length_singleton, List.append_assoc] at hrest
    rw [List.length_cons, Nat.add_right_comm]
    exact Run.run_append_eq_some.mpr ⟨_, _, _, hfirst, hrest, rfl⟩

theorem filled_spec (ts : List Task) : ∀ i : ℕ, tasksAdded (filled i ts) = ts ∧
    tasksTaken (filled i ts) = ts ∧ ∀ j t, .ran j t ∉ filled i ts := by
  induction ts with
  | nil => exact fun i => ⟨rfl, rfl, fun j t => List.not_mem_nil⟩
  | cons t ts ih =>
    intro i
    obtain ⟨hadded, htaken, hran⟩ := ih (i + 1)
    refine ⟨congrArg (t :: ·) hadded, congrArg (t :: ·) htaken, fun j u hu => ?_⟩
    simp only [filled, List.mem_cons, reduceCtorEq, false_or] at hu
    exact hran j u hu

/-! ## The work of clients -/

theorem ledger_staffed {T : ℤ} {es : List (PoolStep (WorkerTask Work))}
    (hr : Run.run step (construct (WorkerTask Work) T T) es = some (s, os)) (hf : FromWorker os) :
    Ledger os s ∧ Staffed T.toNat os s := by
  let R (_ : List (PoolStep (WorkerTask Work))) (os : List (PoolOut (WorkerTask Work)))
      (s : ThreadPool (WorkerTask Work)) : Prop :=
    Sound s ∧ Ledger os s ∧ (FromWorker os → Staffed T.toNat os s)
  have h₀ : R [] [] (construct (WorkerTask Work) T T) :=
    ⟨sound_construct T T, ledger_construct T T, fun _ => staffed_construct T⟩
  have h : R ([] ++ es) ([] ++ os) s := by
    refine Run.run_induct ?_ h₀ (Run.guarded_true _ es) hr
    rintro - os s e s' o ⟨hS, hL, hT⟩ - hs
    have hL' := hL.step hS hs
    exact ⟨hS.step hs, hL', fun hf => (hT hf.of_append).step hL' hf hs⟩
  exact ⟨h.2.1, h.2.2 hf⟩

/-- **What is left for clients.** In every run of a pool of `T` threads that has come to any work of
a client there are three threads or more, the two services are running, and at most `T - 2` threads
are running work. As many can: whatever the first `T - 2` requests are. -/
theorem requests_le (Work : Type) (T : ℤ) :
    (∀ es s os, Run.run step (construct (WorkerTask Work) T T) es = some (s, os) → FromWorker os →
      ∀ w, .work w ∈ tasksTaken os → 3 ≤ T ∧ s.count (Place.isBusy isService) = 2 ∧
        s.count (Place.isBusy isWork) + 2 ≤ T) ∧
    ∀ ws : List Work, ws.length + 2 ≤ T → ∃ es s os,
      Run.run step (construct (WorkerTask Work) T T) es = some (s, os) ∧ FromWorker os ∧
      tasksTaken os = services Work ++ ws.map .work ∧
      s.count (Place.isBusy isWork) = ws.length := by
  constructor
  · intro es s os hr hf w hw
    obtain ⟨hL, hS⟩ := ledger_staffed hr hf
    obtain ⟨ws, hws⟩ := hf.added
    rw [hL.order] at hws
    have htwo := countP_isService ((List.prefix_append _ _).trans hws) hw
    have hroom := hS.room w hw
    have hle := count_isBusy_le s
    have hthreads := hS.threads
    have htaken := hS.taken
    omega
  · intro ws hlen
    let ts := services Work ++ ws.map .work
    have hts : ts.length = ws.length + 2 := by simp [ts, services]
    obtain ⟨hadded, htaken, hran⟩ := filled_spec ts 0
    have hfill := run_fill T ts [] (T.toNat - ts.length)
    rw [show ts.length + (T.toNat - ts.length) = T.toNat by omega] at hfill
    refine ⟨fill 0 ts, _, filled 0 ts, hfill, ⟨⟨ws, ?_⟩, fun i t h => absurd h (hran i t)⟩,
      htaken, ?_⟩
    · exact ⟨[], (List.append_nil _).trans hadded⟩
    · have hwork : (ws.map WorkerTask.work).countP isWork = ws.length := by
        rw [List.countP_map]
        exact List.countP_eq_length.mpr fun w _ => rfl
      rw [List.nil_append, count_isBusy, List.countP_append, hwork]
      exact Nat.zero_add _

/-- The pool of a worker process with three requests at work. -/
theorem requests_le_five : ∃ es s os,
    Run.run step (construct (WorkerTask ℕ) 5 5) es = some (s, os) ∧
      s.count (Place.isBusy isService) = 2 ∧ s.count (Place.isBusy isWork) = 3 := by
  obtain ⟨hle, hreach⟩ := requests_le ℕ 5
  obtain ⟨es, s, os, hr, hf, htaken, hcount⟩ := hreach [7, 8, 9] (by decide)
  obtain ⟨-, htwo, -⟩ := hle es s os hr hf 7 (by rw [htaken]; decide)
  exact ⟨es, s, os, hr, htwo, hcount⟩

end ThreadPool

end ServerNginx
