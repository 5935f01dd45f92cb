import ServerNginx.App.Timer

set_option autoImplicit false

/-!
# Timers in the loop of a worker

`ngx_worker_process_cycle` waits for events no longer than `SetTime` says, and calls `CheckTimer`
where `ngx_epoll_process_events` returns 0.

* `WorkerLoop.cycle`: one iteration, with what `epoll_wait` returns;
* `WorkerLoop.Punctual`: an iteration that starts with an overdue timer fires one;
* `WorkerLoop.Prompt`: `epoll_wait` has timed out, and the first entry has a firing left;
* **`punctual_iff`**: every iteration of a run is punctual exactly when it is prompt;
* `starved`: while there are events, no timer fires.
-/

namespace ServerNginx.WorkerLoop

variable {F A : Type}

/-- What `epoll_wait` returns; the handlers of the events may call `AddTimer`. -/
inductive EpollRet (F A : Type)
  | eintr
  | error
  | timeout
  | ready (adds : List (AddCall F A))

/-- What happens to the timer of a worker. -/
inductive LoopStep (F A : Type)
  | addTimer (c : AddCall F A)
  /-- an iteration of the loop: `GetTime` in `SetTime`, what `epoll_wait` returns, and, for the
  case of `CheckTimer`, the calls of the callback and `GetTime` behind it -/
  | iterate (now : ℤ) (ret : EpollRet F A) (calls : List (AddCall F A)) (later : ℤ)

/-- What `ngx_epoll_process_events(timer)` returns. -/
def processEvents (timer : ℤ) : EpollRet F A → ℤ
  | .eintr => 1
  | .error => -1
  | .timeout => if timer ≠ -1 then 0 else -1
  | .ready _ => 1

/-- The timer after the handlers of the events. -/
def handled (s : Timer F A) : EpollRet F A → Timer F A × List (TimerOut F A)
  | .ready adds => s.addTimers adds
  | .eintr | .error | .timeout => (s, [])

/-- An iteration of the loop in `ngx_worker_process_cycle`. -/
def cycle (s : Timer F A) (now : ℤ) (ret : EpollRet F A) (calls : List (AddCall F A))
    (later : ℤ) : Option (Timer F A × List (TimerOut F A)) :=
  let timer := CNumber.int32 (s.setTime now)
  let r := handled s ret
  if processEvents timer ret = 0 then
    (r.1.checkTimer calls later).map fun q => (q.1, r.2 ++ q.2)
  else some r

def step (s : Timer F A) : LoopStep F A → Option (Timer F A × List (TimerOut F A))
  | .addTimer c => some (s.addTimer c, [.added (s.newInfo c)])
  | .iterate now ret calls later => cycle s now ret calls later

/-- The deadline of a timer has passed. -/
def Overdue (s : Timer F A) (now : ℤ) : Prop := ∃ t ∈ s.timerBuf, t.tData ≤ now

/-- An iteration that starts while the deadline of a timer has passed fires such a timer. -/
def Punctual (s : Timer F A) : LoopStep F A → Prop
  | .addTimer _ => True
  | .iterate now ret calls later => Overdue s now →
    ∃ s' o, cycle s now ret calls later = some (s', o) ∧ ∃ t ∈ Timer.fired o, t.tData ≤ now

/-- Where the deadline of a timer has passed, `epoll_wait` returns 0, and the count of the first
entry is one that `CheckTimer` knows. -/
def Prompt (s : Timer F A) : LoopStep F A → Prop
  | .addTimer _ => True
  | .iterate now ret _ _ => Overdue s now →
    ret = .timeout ∧ ∀ t ∈ s.timerBuf.head?, t.tCount = -1 ∨ 1 ≤ t.tCount

variable {s s' : Timer F A} {o : List (TimerOut F A)}

theorem overdue_cases {now : ℤ} (hs : OrdMultiset.Sorted TimerInfo.lt s.timerBuf)
    (h : Overdue s now) : ∃ it rest, s.timerBuf = it :: rest ∧ it.tData ≤ now ∧
      CNumber.int32 (s.setTime now) = 0 := by
  obtain ⟨t, ht, hd⟩ := h
  obtain ⟨it, rest, hb⟩ := List.exists_cons_of_ne_nil (List.ne_nil_of_mem ht)
  have hle : ¬ t.lt it = true := by
    have := OrdMultiset.least_of_sorted Timer.lt_irrefl (hb ▸ hs) t (hb ▸ ht)
    simp [this]
  rw [Timer.lt_iff] at hle
  refine ⟨it, rest, hb, by omega, ?_⟩
  have : ¬ 0 < it.tData - now := by omega
  simp only [Timer.setTime, hb, this, if_false]
  rfl

theorem cycle_of_ne {now later : ℤ} {ret : EpollRet F A} {calls : List (AddCall F A)}
    (h : ret ≠ .timeout) : cycle s now ret calls later = some (handled s ret) := by
  cases ret with
  | timeout => exact absurd rfl h
  | _ => rfl

theorem fired_handled (ret : EpollRet F A) : Timer.fired (handled s ret).2 = [] := by
  cases ret with
  | ready adds => exact Timer.fired_addTimers adds
  | _ => rfl

/-- With any other count `CheckTimer` does nothing. -/
theorem checkTimer_of_dead {it : TimerInfo F A} {rest calls later}
    (hb : s.timerBuf = it :: rest) (h : ¬ (it.tCount = -1 ∨ 1 ≤ it.tCount)) :
    s.checkTimer calls later = some (s, []) := by
  have h1 : it.tCount ≠ 1 := by omega
  have h2 : ¬ 1 < it.tCount := by omega
  have h3 : it.tCount ≠ -1 := by omega
  simp only [Timer.checkTimer, hb, h1, h2, h3, if_false]

/-- **One iteration.** -/
theorem punctual_step (hs : OrdMultiset.Sorted TimerInfo.lt s.timerBuf) (e : LoopStep F A) :
    Punctual s e ↔ Prompt s e := by
  cases e with
  | addTimer c => exact Iff.rfl
  | iterate now ret calls later =>
    refine forall_congr' fun ho => ?_
    obtain ⟨it, rest, hb, hd, hset⟩ := overdue_cases hs ho
    by_cases hret : ret = .timeout
    · subst hret
      have hcycle : cycle s now .timeout calls later = s.checkTimer calls later := by
        simp only [cycle, hset, processEvents, handled]
        simp
      rw [hcycle, hb]
      simp only [List.head?_cons, Option.mem_def, Option.some.injEq, forall_eq', true_and]
      constructor
      · rintro ⟨s', o, hq, t, ht, -⟩
        by_contra hlive
        rw [checkTimer_of_dead hb hlive] at hq
        cases hq
        cases ht
      · intro hlive
        refine ⟨_, _, Timer.checkTimer_cons hb hlive calls later, it, ?_, hd⟩
        simp [Timer.fired, List.filterMap_append]
    · rw [cycle_of_ne hret]
      refine iff_of_false ?_ fun h => hret h.1
      rintro ⟨s', o, hq, t, ht, -⟩
      have ho : (handled s ret).2 = o := congrArg Prod.snd (Option.some.inj hq)
      rw [← ho, fired_handled] at ht
      cases ht

/-! ## Whole runs -/

theorem sorted_addTimers (hs : OrdMultiset.Sorted TimerInfo.lt s.timerBuf)
    (cs : List (AddCall F A)) : OrdMultiset.Sorted TimerInfo.lt (s.addTimers cs).1.timerBuf := by
  induction cs generalizing s with
  | nil => exact hs
  | cons c cs ih => exact ih (OrdMultiset.sorted_insert Timer.lt_irrefl Timer.lt_trans hs)

theorem sorted_checkTimer {calls : List (AddCall F A)} {now : ℤ}
    (hs : OrdMultiset.Sorted TimerInfo.lt s.timerBuf)
    (h : s.checkTimer calls now = some (s', o)) :
    OrdMultiset.Sorted TimerInfo.lt s'.timerBuf := by
  cases hb : s.timerBuf with
  | nil => simp [Timer.checkTimer, hb] at h
  | cons it rest =>
    by_cases hlive : it.tCount = -1 ∨ 1 ≤ it.tCount
    · rw [Timer.checkTimer_cons hb hlive] at h
      cases h
      exact OrdMultiset.sorted_insert_all Timer.lt_irrefl Timer.lt_trans
        (OrdMultiset.sorted_erase (sorted_addTimers hs calls)) _
    · rw [checkTimer_of_dead hb hlive] at h
      cases h
      exact hs

theorem sorted_step {e : LoopStep F A} (hs : OrdMultiset.Sorted TimerInfo.lt s.timerBuf)
    (h : step s e = some (s', o)) : OrdMultiset.Sorted TimerInfo.lt s'.timerBuf := by
  cases e with
  | addTimer c =>
    cases h
    exact OrdMultiset.sorted_insert Timer.lt_irrefl Timer.lt_trans hs
  | iterate now ret calls later =>
    have hhandled : OrdMultiset.Sorted TimerInfo.lt (handled s ret).1.timerBuf := by
      cases ret with
      | ready adds => exact sorted_addTimers hs adds
      | _ => exact hs
    simp only [step, cycle] at h
    split_ifs at h
    · obtain ⟨q, hq, he⟩ := Option.map_eq_some_iff.mp h
      cases he
      exact sorted_checkTimer hhandled hq
    · have : handled s ret = (s', o) := Option.some.inj h
      rwa [this] at hhandled

/-- **Overdue timers and traffic.** Along a run of the loop of a worker every iteration that starts
while the deadline of a timer has passed fires such a timer exactly when in each of them
`epoll_wait` returns 0 and the first entry has a firing left. -/
theorem punctual_iff (es : List (LoopStep F A)) :
    Run.Guarded step Punctual (Timer.start F A) es ↔
      Run.Guarded step Prompt (Timer.start F A) es := by
  have h₀ : OrdMultiset.Sorted TimerInfo.lt (Timer.start F A).timerBuf := List.Pairwise.nil
  exact Run.guarded_congr (I := fun s => OrdMultiset.Sorted TimerInfo.lt s.timerBuf)
    (fun _ _ _ _ hs h => sorted_step hs h) (fun _ e hs => punctual_step hs e) h₀

/-- A timer with deadline 10, and an event ready at 20. -/
theorem overdue_with_event :
    ¬ Run.Guarded step Punctual (Timer.start Unit Unit)
      [.addTimer ⟨0, 10, -1, (), ()⟩, .iterate 20 (.ready []) [] 20] := by
  intro h
  have h := (h.2 _ _ rfl).1 ⟨_, List.mem_singleton_self _, by decide⟩
  obtain ⟨s', o, hq, t, ht, -⟩ := h
  cases hq
  cases ht

/-- While every iteration finds events, no timer fires. -/
theorem starved {es : List (LoopStep F A)} {os : List (TimerOut F A)}
    (hr : Run.run step s es = some (s', os))
    (hready : ∀ now ret calls later, .iterate now ret calls later ∈ es → ret ≠ .timeout) :
    Timer.fired os = [] := by
  induction es generalizing s os with
  | nil =>
    cases hr
    rfl
  | cons e es ih =>
    obtain ⟨t, o, o', hs, hr', rfl⟩ := Run.run_cons_eq_some.mp hr
    have hrest := ih hr' fun now ret calls later hm =>
      hready now ret calls later (List.mem_cons_of_mem _ hm)
    have hone : Timer.fired o = [] := by
      cases e with
      | addTimer c =>
        cases hs
        rfl
      | iterate now ret calls later =>
        rw [step, cycle_of_ne (hready now ret calls later List.mem_cons_self)] at hs
        have ho : (handled s ret).2 = o := congrArg Prod.snd (Option.some.inj hs)
        rw [← ho, fired_handled]
    rw [Timer.fired, List.filterMap_append]
    exact congrArg₂ (· ++ ·) hone hrest

end ServerNginx.WorkerLoop
