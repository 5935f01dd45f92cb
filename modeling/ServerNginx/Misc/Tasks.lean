import ServerNginx.Misc.ThreadPool

set_option autoImplicit false

/-!
# No task is lost or run twice

Every dequeue happens under `CThreadMutex`, by the worker that has found the predicate true.

* `ThreadPool.tasksAdded`, `tasksTaken`, `takenBy`, `ranBy`: what the outputs of a run say of tasks;
* `ThreadPool.Ledger`: the outputs against the queue and the workers;
* **`tasks_conserved`**: tasks are taken once each, in the order they were added, and run by the
  worker that takes them; `GetTask` never fails.
-/

namespace ServerNginx.ThreadPool

variable {Task : Type}

/-! ## What the outputs say -/

/-- The arguments of `AddTask`, in the order of the pushes. -/
def tasksAdded (os : List (PoolOut Task)) : List Task :=
  os.filterMap fun
    | .added task => some task
    | _ => none

/-- The tasks `GetTask` has returned, in order. -/
def tasksTaken (os : List (PoolOut Task)) : List Task :=
  os.filterMap fun
    | .taken _ task => some task
    | _ => none

/-- The tasks `GetTask` has returned to worker `i`. -/
def takenBy (i : ℕ) (os : List (PoolOut Task)) : List Task :=
  os.filterMap fun
    | .taken j task => if j = i then some task else none
    | _ => none

/-- The tasks worker `i` has run. -/
def ranBy (i : ℕ) (os : List (PoolOut Task)) : List Task :=
  os.filterMap fun
    | .ran j task => if j = i then some task else none
    | _ => none

/-- A worker that exits because `exitNum > 0` has run what it has taken, and takes nothing more. -/
def ExitsClean (os : List (PoolOut Task)) : Prop :=
  ∀ os₁ i os₂, os = os₁ ++ .left i :: os₂ → takenBy i os₁ = ranBy i os₁ ∧ takenBy i os₂ = []

/-- The task a thread is running. -/
def taskOf : Place Task → List Task
  | .running task => [task]
  | _ => []

theorem taskOf_of_wantsLock {p : Place Task} (hp : p.wantsLock = true) : taskOf p = [] := by
  cases p with
  | start | woken => rfl
  | _ => cases hp

/-- The task worker `i` is running. -/
def held (s : ThreadPool Task) (i : ℕ) : List Task := (s.threads.map taskOf)[i]?.getD []

/-- Worker `i` has returned. -/
def gone (s : ThreadPool Task) (i : ℕ) : Prop := (s.threads.map Place.isAlive)[i]? = some false

/-- The outputs so far against the queue and the workers. -/
structure Ledger (os : List (PoolOut Task)) (s : ThreadPool Task) : Prop where
  order : tasksAdded os = tasksTaken os ++ s.taskBuf
  each : ∀ i, takenBy i os = ranBy i os ++ s.held i
  failed : ∀ i, .failed i ∉ os
  gone : ∀ i, .left i ∈ os → s.gone i
  exits : ExitsClean os

variable {s s' : ThreadPool Task} {e : PoolStep Task} {o os : List (PoolOut Task)}

theorem exitsClean_concat {x : PoolOut Task} (h : ExitsClean os)
    (hl : ∀ i, x = .left i → takenBy i os = ranBy i os)
    (ht : ∀ i task, x = .taken i task → .left i ∉ os) : ExitsClean (os ++ [x]) := by
  intro os₁ i os₂ he
  obtain rfl | ⟨os₂, y, rfl⟩ := List.eq_nil_or_concat os₂
  · obtain ⟨rfl, hx⟩ := List.append_inj' he rfl
    exact ⟨hl i (by simpa using hx), rfl⟩
  · have he : os ++ [x] = (os₁ ++ .left i :: os₂) ++ [y] := by simpa using he
    obtain ⟨rfl, hx⟩ := List.append_inj' he rfl
    obtain rfl : x = y := by simpa using hx
    obtain ⟨h1, h2⟩ := h os₁ i os₂ rfl
    refine ⟨h1, ?_⟩
    simp only [takenBy, List.concat_eq_append, List.filterMap_append] at h2 ⊢
    rw [h2]
    cases x with
    | taken j task =>
      have : j ≠ i := fun hj => ht j task rfl (by simp [hj])
      simp [this]
    | _ => rfl

theorem Ledger.silent (h : Ledger os s) (hb : s'.taskBuf = s.taskBuf)
    (ht : ∀ i, s'.held i = s.held i) (hg : ∀ i, s.gone i → s'.gone i) : Ledger (os ++ []) s' := by
  rw [List.append_nil]
  exact ⟨hb ▸ h.order, fun i => ht i ▸ h.each i, h.failed, fun i hi => hg i (h.gone i hi), h.exits⟩

theorem Ledger.seen (h : Ledger os s) {x : PoolOut Task}
    (ho : s.taskBuf ++ tasksAdded [x] = tasksTaken [x] ++ s'.taskBuf)
    (he : ∀ i, s.held i ++ takenBy i [x] = ranBy i [x] ++ s'.held i)
    (hf : ∀ i, x ≠ .failed i) (hg : ∀ i, s.gone i ∨ x = .left i → s'.gone i)
    (hl : ∀ i, x = .left i → s.held i = []) (ht : ∀ i task, x = .taken i task → ¬ s.gone i) :
    Ledger (os ++ [x]) s' where
  order := by
    have := h.order
    simp only [tasksAdded, tasksTaken, List.filterMap_append] at this ho ⊢
    rw [this, List.append_assoc, List.append_assoc, ho]
  each i := by
    have := h.each i
    have he := he i
    simp only [takenBy, ranBy, List.filterMap_append] at this he ⊢
    rw [this, List.append_assoc, List.append_assoc, he]
  failed i := by
    simp only [List.mem_append, List.mem_singleton, not_or]
    exact ⟨h.failed i, (hf i).symm⟩
  gone i hi := by
    simp only [List.mem_append, List.mem_singleton] at hi
    exact hg i (hi.imp (h.gone i) Eq.symm)
  exits := by
    refine exitsClean_concat h.exits (fun i hx => ?_) fun i task hx hm => ht i task hx (h.gone i hm)
    rw [h.each, hl i hx, List.append_nil]

theorem held_moved {i : ℕ} {p q : Place Task} (hi : s.threads[i]? = some p) (j : ℕ) :
    (s.moved i q).held j = if i = j then taskOf q else s.held j := by
  obtain ⟨hi, -⟩ := List.getElem?_eq_some_iff.mp hi
  simp only [held, moved, List.map_set, List.getElem?_set, List.length_map, hi, if_true]
  split <;> rfl

theorem gone_moved {i : ℕ} {p q : Place Task} (hi : s.threads[i]? = some p)
    (hq : p.isAlive = false → q.isAlive = false) (j : ℕ) (hj : s.gone j) :
    (s.moved i q).gone j := by
  obtain ⟨hlt, rfl⟩ := List.getElem?_eq_some_iff.mp hi
  simp only [gone, moved, List.map_set, List.getElem?_set, List.length_map, hlt, if_true] at hj ⊢
  split
  · next he =>
    subst he
    rw [List.getElem?_map, hi] at hj
    exact congrArg some (hq (by simpa using hj))
  · exact hj

theorem held_of_eq {i : ℕ} {p : Place Task} (hi : s.threads[i]? = some p) :
    s.held i = taskOf p := by
  simp [held, hi]

theorem not_gone {i : ℕ} {p : Place Task} (hi : s.threads[i]? = some p)
    (hp : p.isAlive = true) : ¬ s.gone i := by
  simp [gone, hi, hp]

theorem Ledger.moved (h : Ledger os s) {i : ℕ} {p q : Place Task}
    (hi : s.threads[i]? = some p) (ht : taskOf q = taskOf p)
    (hq : p.isAlive = false → q.isAlive = false) : Ledger (os ++ []) (s.moved i q) := by
  refine h.silent rfl (fun j => ?_) fun j => gone_moved hi hq j
  rw [held_moved hi, ht]
  split
  · next hj => rw [← hj, held_of_eq hi]
  · rfl

theorem Ledger.step (hS : Sound s) (h : Ledger os s) (hs : s.step e = some (s', o)) :
    Ledger (os ++ o) s' := by
  cases moves_of_step hs with
  | @addTask task w ts hw =>
    have ht := map_notifyOne (g := taskOf) hw rfl
    have ha := map_notifyOne (g := Place.isAlive) hw rfl
    refine h.seen rfl (fun i => ?_) (by simp) (fun i hi => ?_) (by simp) (by simp)
    · simp only [takenBy, ranBy, held, ht]
      simp
    · unfold ThreadPool.gone at hi ⊢
      simpa [ha] using hi
  | @pass i p hl hi hp hc =>
    exact h.moved hi (taskOf_of_wantsLock hp).symm fun ha =>
      absurd ((Place.of_wantsLock hp).1.symm.trans ha) nofun
  | @stay i p hl hi hp hc =>
    exact h.moved hi (taskOf_of_wantsLock hp).symm fun ha =>
      absurd ((Place.of_wantsLock hp).1.symm.trans ha) nofun
  | sleep hi => exact h.moved hi rfl fun ha => by cases ha
  | quit hi hq => simp [hS.shutdown] at hq
  | @leave i hi he =>
    refine h.seen ?_ (fun j => ?_) (by simp) (fun j hj => ?_) (fun j hj => ?_) (by simp)
    · simp [tasksAdded, tasksTaken, ThreadPool.moved]
    · show s.held j ++ [] = [] ++ (s.moved i .exited).held j
      rw [held_moved hi, List.append_nil, List.nil_append]
      split
      · next hj => rw [← hj, held_of_eq hi]; rfl
      · rfl
    · show (s.moved i .exited).gone j
      obtain hj | hj := hj
      · exact gone_moved hi (fun ha => by cases ha) j hj
      · cases hj
        obtain ⟨hlt, -⟩ := List.getElem?_eq_some_iff.mp hi
        simp [ThreadPool.gone, ThreadPool.moved, hlt, Place.isAlive]
    · cases hj
      exact held_of_eq hi
  | @fail i hi hq he ht =>
    have := hS.passed (CondVar.countP_pos _ hi rfl)
    simp only [getTaskNum, ht, List.length_nil] at this
    omega
  | @take i task rest hi he ht =>
    refine h.seen ?_ (fun j => ?_) (by simp) (fun j hj => ?_) (by simp) fun j t hj => ?_
    · simp [tasksAdded, tasksTaken, ht]
    · show s.held j ++ takenBy j [.taken i task] = [] ++ (s.moved i (.running task)).held j
      rw [held_moved hi]
      by_cases hj : i = j
      · rw [if_pos hj, ← hj, held_of_eq hi]
        simp [takenBy, taskOf]
      · simp [takenBy, hj]
    · exact gone_moved hi (fun ha => by cases ha) j (by simpa using hj)
    · cases hj
      exact not_gone hi rfl
  | @finish i task hl hi =>
    refine h.seen ?_ (fun j => ?_) (by simp) (fun j hj => ?_) (by simp) (by simp)
    · simp [tasksAdded, tasksTaken, ThreadPool.moved]
    · show s.held j ++ [] = ranBy j [.ran i task] ++ (s.moved i .start).held j
      rw [held_moved hi]
      by_cases hj : i = j
      · rw [if_pos hj, ← hj, held_of_eq hi]
        simp [ranBy, taskOf]
      · simp [ranBy, hj]
    · exact gone_moved hi (fun ha => by cases ha) j (by simpa using hj)
  | retire => exact h.silent rfl (fun _ => rfl) fun _ => id
  | sample => exact h.silent rfl (fun _ => rfl) fun _ => id
  | @grow busy live tasknum ws hm hg hl =>
    refine h.silent rfl (fun i => ?_) fun i hi => ?_
    · simp only [held, createThreads, List.map_append, List.map_replicate, taskOf,
        List.getElem?_append, List.length_map, List.getElem?_replicate]
      split
      · rfl
      · next hi =>
        rw [List.getElem?_eq_none (by simpa using hi)]
        split <;> rfl
    · obtain ⟨hlt, -⟩ := List.getElem?_eq_some_iff.mp hi
      simp only [ThreadPool.gone, createThreads, List.map_append] at hi ⊢
      rw [List.getElem?_append_left hlt, hi]
  | @shrink busy live tasknum ws ts hm hg hr hl hn hw =>
    have ht := map_notifyEach (g := taskOf) hw rfl
    have ha := map_notifyEach (g := Place.isAlive) hw rfl
    refine h.silent rfl (fun i => ?_) fun i => ?_
    · simp only [held, ht]
    · simp only [ThreadPool.gone, ha, imp_self]
  | rest => exact h.silent rfl (fun _ => rfl) fun _ => id
  | recycle hl hi => exact h.moved hi rfl fun ha => rfl

/-! ## Whole runs -/

theorem ledger_construct (Tmin Tmax : ℤ) : Ledger [] (construct Task Tmin Tmax) where
  order := rfl
  each i := by
    simp only [held, construct, List.map_replicate, List.getElem?_replicate]
    split <;> rfl
  failed i := by simp
  gone i hi := by simp at hi
  exits := by
    intro os₁ i os₂ h
    simp at h

/-- **No task is lost or run twice.** Whatever has happened since the pool was constructed, the
tasks added are those taken and then those in `TaskBuf`, in the order they were added; a worker
that has exited because `exitNum > 0` had run every task it took, and takes none afterwards;
"Get Task failed" has not happened, and will not at a worker that has passed the wait with
`shutdown` false and `exitNum` 0. -/
theorem tasks_conserved (Tmin Tmax : ℤ) (es : List (PoolStep Task)) (s : ThreadPool Task)
    (os : List (PoolOut Task)) (hr : Run.run step (construct Task Tmin Tmax) es = some (s, os)) :
    tasksAdded os = tasksTaken os ++ s.taskBuf ∧
    (∀ os₁ i os₂, os = os₁ ++ .left i :: os₂ →
      takenBy i os₁ = ranBy i os₁ ∧ takenBy i os₂ = []) ∧
    (∀ i, .failed i ∉ os) ∧
    ∀ i : ℕ, s.threads[i]? = some .passed → s.shutdown = false → s.exitNum = 0 →
      s.taskBuf ≠ [] := by
  let R (_ : List (PoolStep Task)) (os : List (PoolOut Task)) (s : ThreadPool Task) : Prop :=
    Sound s ∧ Ledger os s
  have h₀ : R [] [] (construct Task Tmin Tmax) :=
    ⟨sound_construct Tmin Tmax, ledger_construct Tmin Tmax⟩
  have h : R ([] ++ es) ([] ++ os) s := by
    refine Run.run_induct ?_ h₀ (Run.guarded_true _ es) hr
    rintro - os s e s' o ⟨hS, hL⟩ - hs
    exact ⟨hS.step hs, hL.step hS hs⟩
  refine ⟨h.2.order, h.2.exits, h.2.failed, fun i hi _ he ht => ?_⟩
  have := h.1.passed (CondVar.countP_pos _ hi rfl)
  simp only [getTaskNum, ht, List.length_nil] at this
  omega

/-- The manager starts worker 1 and has it exit again; task 8 is added to the queue behind 7. -/
theorem tasks_conserved_run :
    ∃ (es : List (PoolStep ℕ)) (s : ThreadPool ℕ) (os : List (PoolOut ℕ)),
      Run.run step (construct ℕ 1 2) es = some (s, os) ∧ .left 1 ∈ os ∧ s.taskBuf = [8] ∧
      tasksAdded os = tasksTaken os ++ s.taskBuf ∧ takenBy 1 os = ranBy 1 os := by
  obtain ⟨⟨s, os⟩, hr, h⟩ := Run.exists_of_any
    (x := Run.run step (construct ℕ 1 2) [.addTask 7 none, .sample, .adjust [], .check 0,
      .proceed 0, .check 1, .sleep 1, .finish 0, .check 0, .sleep 0, .sample, .adjust [some 1],
      .check 1, .proceed 1, .addTask 8 (some 0), .recycle 1])
    (f := fun r => decide (r.2 = [.added 7, .taken 0 7, .ran 0 7, .left 1, .added 8] ∧
      r.1.taskBuf = [8])) (by decide +kernel)
  obtain ⟨rfl, hb⟩ := of_decide_eq_true h
  have hc := tasks_conserved 1 2 _ s _ hr
  exact ⟨_, s, _, hr, by simp, hb, hc.1, rfl⟩

end ServerNginx.ThreadPool
