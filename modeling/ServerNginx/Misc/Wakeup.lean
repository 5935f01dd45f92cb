import ServerNginx.Misc.ThreadPool

set_option autoImplicit false

/-!
# Lost wake-ups

`AddTask` notifies under `TQMutex`, which a worker between its predicate and its sleep does not
hold. Every other sleeper would take the wake-up, so a task is left behind where there is none.

* `ThreadPool.NotLost`: no task waits while every worker is asleep without a wake-up;
* `ThreadPool.Wakeful`: enough workers are awake for the tasks and the exits that are asked for;
* `ThreadPool.Safe`: the steps that keep `NotLost`;
* **`notLost_iff`**: no wake-up is lost all along a run exactly when every step is safe;
* `notLost_of_two`: two workers or more, as many all the time, lose none.
-/

namespace ServerNginx.ThreadPool

variable {Task : Type}

/-- `TaskBuf` is empty, or a worker is not asleep in `NotEmpty.wait` without a wake-up. -/
def NotLost (s : ThreadPool Task) : Prop :=
  ¬ (s.taskBuf ≠ [] ∧ ∀ p ∈ s.threads, p.isAlive = true → p.isAsleep = true)

/-- The steps that leave no task behind: tasks are added while there is a worker, and the only
worker there is does not sleep or exit while a task waits. -/
def Safe (s : ThreadPool Task) : PoolStep Task → Prop
  | .addTask .. => 0 < s.count Place.isAlive
  | .sleep _ => s.getTaskNum = 0 ∨ 1 < s.count Place.isAlive
  | .proceed _ => 0 < s.exitNum → s.getTaskNum = 0 ∨ 1 < s.count Place.isAlive
  | _ => True

instance (s : ThreadPool Task) : (e : PoolStep Task) → Decidable (s.Safe e)
  | .addTask .. => inferInstanceAs (Decidable (0 < _))
  | .sleep _ => inferInstanceAs (Decidable (_ ∨ _))
  | .proceed _ => inferInstanceAs (Decidable (_ → _))
  | .check _ | .finish _ | .sample | .adjust _ | .recycle _ => inferInstanceAs (Decidable True)

/-- What keeps a wake-up from getting lost: while a worker sleeps, as many are awake as have to
exit, and one more where a task waits; beside a worker that is to sleep although a task has come,
another one is awake, or there is no other. -/
structure Wakeful (s : ThreadPool Task) : Prop extends Sound s where
  exits : 0 < s.count Place.isAsleep → s.exitNum ≤ s.count Place.isAwake
  tasks : 0 < s.count Place.isAsleep → 0 < s.getTaskNum → s.exitNum + 1 ≤ s.count Place.isAwake
  beside : 0 < s.count Place.isWindow → 0 < s.getTaskNum →
    2 ≤ s.count Place.isAwake ∨ s.count Place.isAlive ≤ 1

variable {s s' : ThreadPool Task} {e : PoolStep Task} {o : List (PoolOut Task)}

theorem notLost_iff_awake : s.NotLost ↔ s.getTaskNum = 0 ∨ 0 < s.count Place.isAwake := by
  have awake : ∀ p : Place Task, p.isAwake = true ↔ ¬ (p.isAlive = true → p.isAsleep = true) := by
    intro p
    cases p <;> simp [Place.isAwake, Place.isAlive, Place.isAsleep]
  simp only [NotLost, getTaskNum, count, List.countP_pos_iff, awake, not_and_or, not_forall,
    not_not, List.length_eq_zero_iff, ne_eq, exists_prop]

theorem sleepers_moved {i : ℕ} {p : Place Task} (q : Place Task) (hi : s.threads[i]? = some p) :
    ((s.moved i q).count Place.isAsleep + (if p.isAsleep then 1 else 0) =
      s.count Place.isAsleep + if q.isAsleep then 1 else 0) ∧
    ((s.moved i q).count Place.isAwake + (if p.isAwake then 1 else 0) =
      s.count Place.isAwake + if q.isAwake then 1 else 0) :=
  ⟨CondVar.countP_set _ _ hi, CondVar.countP_set _ _ hi⟩

theorem wakeful_construct (Tmin Tmax : ℤ) : Wakeful (construct Task Tmin Tmax) where
  toSound := sound_construct Tmin Tmax
  exits := by simp [count, construct, Place.isAsleep, List.countP_replicate]
  tasks := by simp [getTaskNum, construct]
  beside := by simp [getTaskNum, construct]

theorem count_isWindow_le : s.count Place.isWindow ≤ s.count Place.isAwake := by
  refine List.countP_mono_left fun p _ hp => ?_
  cases p <;> first | rfl | cases hp

theorem Wakeful.goesOn (h : Wakeful s) (hP : s.NotLost) {i : ℕ} {p q : Place Task}
    (hi : s.threads[i]? = some p) (hp : p.isAsleep = false) (hq : q.isAsleep = false)
    (ha : q.isAwake = p.isAwake) (hw : q.isWindow = true → s.getTaskNum = 0) (hs : Sound s')
    (ht : s'.threads = s.threads.set i q) (he : s'.exitNum = s.exitNum)
    (hb : s'.getTaskNum ≤ s.getTaskNum) : s'.NotLost ∧ Wakeful s' := by
  have c (f : Place Task → Bool) : s'.count f + (if f p then 1 else 0) =
      s.count f + if f q then 1 else 0 := by
    rw [count, ht]
    exact CondVar.countP_set f q hi
  have cS := c Place.isAsleep
  have cA := c Place.isAwake
  have cW := c Place.isWindow
  have hL := count_isAlive (s := s)
  have hL' := count_isAlive (s := s')
  rw [notLost_iff_awake] at hP ⊢
  obtain ⟨-, h1, h2, h3⟩ := h
  rw [hp, hq] at cS
  rw [ha] at cA
  refine ⟨by omega, hs, by omega, by omega, fun hw' ht' => ?_⟩
  by_cases b : q.isWindow = true
  · have := hw b
    omega
  · rw [if_neg b] at cW
    omega

/-- **One step.** No task is left behind exactly under the guard. -/
theorem notLost_step (h : Wakeful s) (hP : s.NotLost) (hs : s.step e = some (s', o)) :
    (s'.NotLost ↔ s.Safe e) ∧ (s'.NotLost → Wakeful s') := by
  have hS' := h.toSound.step hs
  have hL := count_isAlive (s := s)
  have hL' := count_isAlive (s := s')
  have hWA := count_isWindow_le (s := s)
  have onward : s'.NotLost ∧ Wakeful s' → s.Safe e = True →
      (s'.NotLost ↔ s.Safe e) ∧ (s'.NotLost → Wakeful s') := fun a b =>
    ⟨iff_of_true a.1 (b ▸ trivial), fun _ => a.2⟩
  have hPs := notLost_iff_awake.mp hP
  cases moves_of_step hs with
  | addTask hw =>
    have cS := CondVar.sleeping_notifyOne hw rfl
    have cL := count_notifyOne (f := Place.isAlive) hw rfl
    have cW := count_notifyOne (f := Place.isWindow) hw rfl
    obtain ⟨h0, h1, h2, h3⟩ := h
    rw [notLost_iff_awake]
    simp only [Safe, getTaskNum, List.length_append, List.length_singleton, count] at *
    refine ⟨by omega, fun _ => ⟨hS', ?_, ?_, ?_⟩⟩ <;> simp only [count, getTaskNum] <;> omega
  | @pass i p hl hi hp hc =>
    obtain ⟨-, hawake, hasleep, -⟩ := Place.of_wantsLock hp
    exact onward (h.goesOn hP hi hasleep (q := .passed) rfl hawake.symm (fun a => by cases a) hS'
      rfl rfl le_rfl) rfl
  | @stay i p hl hi hp hc =>
    obtain ⟨-, hawake, hasleep, -⟩ := Place.of_wantsLock hp
    have hnone : s.getTaskNum = 0 := Nat.eq_zero_of_not_pos fun a => hc (.inl a)
    exact onward (h.goesOn hP hi hasleep (q := .window) rfl hawake.symm (fun _ => hnone) hS' rfl
      rfl le_rfl) rfl
  | @sleep i hi =>
    obtain ⟨cS, cA⟩ := sleepers_moved .asleep hi
    obtain ⟨cW, -⟩ := counts_moved .asleep hi
    simp only [Place.isAsleep, Place.isAwake, Place.isWindow, Bool.false_eq_true, if_true,
      if_false] at cS cA cW
    obtain ⟨h0, h1, h2, h3⟩ := h
    have hE := h0.window (by omega)
    have hH := h0.holders
    rw [notLost_iff_awake]
    refine ⟨?_, fun hP' => ⟨hS', ?_, ?_, ?_⟩⟩
    · show s.getTaskNum = 0 ∨ _ ↔ s.getTaskNum = 0 ∨ _
      omega
    · show _ → s.exitNum ≤ _
      omega
    · show _ → 0 < s.getTaskNum → s.exitNum + 1 ≤ _
      have hP' : s.getTaskNum = 0 ∨ _ := hP'
      omega
    · omega
  | quit hi hq => simp [h.shutdown] at hq
  | @leave i hi he =>
    obtain ⟨cS, cA⟩ := sleepers_moved .exited hi
    obtain ⟨cW, cP, -, cL⟩ := counts_moved .exited hi
    simp only [Place.isAsleep, Place.isAwake, Place.isWindow, Place.isPassed, Place.isAlive,
      Bool.false_eq_true, if_true, if_false] at cS cA cW cP cL
    obtain ⟨h0, h1, h2, h3⟩ := h
    have hH := h0.holders
    rw [notLost_iff_awake]
    simp only [Safe, count, ThreadPool.moved, getTaskNum] at *
    refine ⟨by omega, fun hP' => ⟨hS', ?_, ?_, ?_⟩⟩ <;> simp only [count, getTaskNum] <;> omega
  | @fail i hi hq he ht =>
    have := h.passed (CondVar.countP_pos _ hi rfl)
    simp only [getTaskNum, ht, List.length_nil] at this
    omega
  | @take i task rest hi he ht =>
    have hb : rest.length ≤ s.getTaskNum := by simp [getTaskNum, ht]
    have := h.goesOn hP hi rfl (q := .running task) rfl rfl (fun a => by cases a) hS' rfl rfl hb
    exact ⟨iff_of_true this.1 fun a => absurd a he, fun _ => this.2⟩
  | finish hl hi =>
    exact onward (h.goesOn hP hi rfl (q := .start) rfl rfl (fun a => by cases a) hS' rfl rfl
      le_rfl) rfl
  | retire => exact onward ⟨hP, hS', h.exits, h.tasks, h.beside⟩ rfl
  | sample => exact onward ⟨hP, hS', h.exits, h.tasks, h.beside⟩ rfl
  | @grow busy live tasknum ws hm hg hl =>
    have cS := count_createThreads (s := s) (s.growth live) Place.isAsleep
    have cA := count_createThreads (s := s) (s.growth live) Place.isAwake
    have cW := count_createThreads (s := s) (s.growth live) Place.isWindow
    obtain ⟨h0, h1, h2, h3⟩ := h
    simp only [Place.isAsleep, Place.isAwake, Place.isWindow, Bool.false_eq_true, if_true,
      if_false] at cS cA cW
    refine onward ?_ rfl
    rw [notLost_iff_awake]
    simp only [count, createThreads, getTaskNum, locked] at *
    refine ⟨by omega, hS', ?_, ?_, ?_⟩ <;> simp only [count, getTaskNum] <;> omega
  | @shrink busy live tasknum ws ts hm hg hr hl hn hw =>
    have hpos := shrinkage_pos hr
    have cS := CondVar.sleeping_notifyEach hw rfl
    have cL := count_notifyEach (f := Place.isAlive) hw rfl
    have cW := count_notifyEach (f := Place.isWindow) hw rfl
    obtain ⟨h0, h1, h2, h3⟩ := h
    have hE := h0.exitNum
    refine onward ?_ rfl
    rw [notLost_iff_awake]
    simp only [getTaskNum, count, locked] at *
    refine ⟨by omega, hS', ?_, ?_, ?_⟩ <;> simp only [count, getTaskNum] <;> omega
  | rest => exact onward ⟨hP, hS', h.exits, h.tasks, h.beside⟩ rfl
  | recycle hl hi =>
    exact onward (h.goesOn hP hi rfl (q := .recycled) rfl rfl (fun a => by cases a) hS' rfl rfl
      le_rfl) rfl

/-! ## Whole runs -/

/-- **No lost wake-up, and when.** Along a run of the pool no task waits while every worker is
asleep without a wake-up exactly when every step is safe. -/
theorem notLost_iff (Tmin Tmax : ℤ) (es : List (PoolStep Task))
    (hr : Run.Guarded step (Run.Defined step) (construct Task Tmin Tmax) es) :
    Run.Always step NotLost (construct Task Tmin Tmax) es ↔
      Run.Guarded step Safe (construct Task Tmin Tmax) es := by
  refine Run.always_iff_guarded (I := Wakeful) ?_ (wakeful_construct Tmin Tmax) ?_ hr
  · intro s e hI hP hv
    obtain ⟨⟨s', o⟩, hs⟩ := Option.isSome_iff_exists.mp hv
    have := notLost_step hI hP hs
    exact ⟨s', o, hs, this.1, this.2⟩
  · exact notLost_iff_awake.mpr (.inl rfl)

/-- Two workers: one is to sleep as a task comes; the other one, woken, runs it. -/
theorem notLost_iff_two :
    Run.Always step NotLost (construct ℕ 2 2)
      [.check 1, .sleep 1, .check 0, .addTask 7 (some 1), .sleep 0, .check 1, .proceed 1,
        .finish 1] := by
  refine (notLost_iff 2 2 _ ?_).mpr ?_
  · decide +kernel
  · decide +kernel

/-- One worker: the task comes between its predicate and its sleep. -/
theorem lost_alone :
    ∃ (es : List (PoolStep ℕ)) (s : ThreadPool ℕ) (os : List (PoolOut ℕ)),
      Run.run step (construct ℕ 1 1) es = some (s, os) ∧ s.threads.length = 1 ∧ ¬ s.NotLost := by
  obtain ⟨⟨s, os⟩, hr, h⟩ := Run.exists_of_any
    (x := Run.run step (construct ℕ 1 1) [.check 0, .addTask 7 none, .sleep 0])
    (f := fun r => decide (r.1.getTaskNum ≠ 0 ∧ r.1.count Place.isAwake = 0 ∧
      r.1.threads.length = 1)) (by decide +kernel)
  have h := of_decide_eq_true h
  refine ⟨_, s, os, hr, h.2.2, fun hP => ?_⟩
  exact (notLost_iff_awake.mp hP).elim h.1 h.2.1.not_gt

/-! ## As many workers all the time -/

/-- A pool without a manager, where nobody is told to exit. -/
structure Constant (n : ℤ) (s : ThreadPool Task) : Prop where
  manager : s.manager = .absent
  exitNum : s.exitNum = 0
  liveNum : s.liveNum = n
  minNum : s.minNum = n

theorem constant_step {n : ℤ} (h : Constant n s) (hs : s.step e = some (s', o)) :
    Constant n s' := by
  obtain ⟨hm, he, hl, hn⟩ := h
  cases moves_of_step hs with
  | leave hi hx => omega
  | grow hr | shrink hr | rest hr | sample hr | retire hr => simp [hm] at hr
  | _ => exact ⟨hm, he, hl, hn⟩

theorem notLost_of_two {n : ℤ} (hn : 2 ≤ n) (es : List (PoolStep Task)) :
    Run.Always step NotLost (construct Task n n) es := by
  suffices h : Run.Always step (fun s => s.NotLost ∧ Wakeful s ∧ Constant n s)
      (construct Task n n) es from h.imp fun s h => h.1
  refine Run.always_of_guarded ?_ ?_ (Run.guarded_true _ _)
  · rintro s e s' o ⟨hP, hW, hC⟩ - hs
    have two : 1 < s.count Place.isAlive := by
      have := hW.liveNum
      rw [hC.liveNum, hC.minNum] at this
      omega
    have safe : s.Safe e := by
      cases e with
      | addTask => exact Nat.zero_lt_of_lt two
      | sleep => exact .inr two
      | proceed => exact fun _ => .inr two
      | _ => trivial
    have step := notLost_step hW hP hs
    exact ⟨step.1.mpr safe, step.2 (step.1.mpr safe), constant_step hC hs⟩
  · refine ⟨notLost_iff_awake.mpr (.inl rfl), wakeful_construct n n, ?_, rfl, rfl, rfl⟩
    simp [construct]

end ServerNginx.ThreadPool
