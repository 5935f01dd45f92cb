import ServerNginx.Misc.ThreadPool

set_option autoImplicit false

/-!
# The size of the pool

`ManagerThread` samples the counters, unlocks, and tells workers to exit by what it has sampled.
Workers that exit in between are not counted.

* `ThreadPool.WithinLimits`: the bounds on `liveNum`, `exitNum` and `busyNum`;
* `ThreadPool.Fresh`: the manager tells no more workers to exit than there are above `minNum`;
* **`withinLimits_iff`**: the bounds hold all along a run exactly when `Tmin` is not negative and
  the manager's sample is fresh at every step.
-/

namespace ServerNginx.ThreadPool

variable {Task : Type}

/-- The limits of the pool. -/
structure WithinLimits (s : ThreadPool Task) : Prop where
  min_le : s.minNum ≤ s.liveNum
  le_max : s.liveNum ≤ s.maxNum
  exitNum : 0 ≤ s.exitNum
  stays : s.minNum ≤ s.liveNum - s.exitNum
  busyNum : 0 ≤ s.busyNum
  busy_le : s.busyNum ≤ s.liveNum

theorem withinLimits_iff_and (s : ThreadPool Task) : WithinLimits s ↔ s.minNum ≤ s.liveNum ∧
    s.liveNum ≤ s.maxNum ∧ 0 ≤ s.exitNum ∧ s.minNum ≤ s.liveNum - s.exitNum ∧ 0 ≤ s.busyNum ∧
    s.busyNum ≤ s.liveNum :=
  ⟨fun h => ⟨h.1, h.2, h.3, h.4, h.5, h.6⟩, fun h => ⟨h.1, h.2.1, h.2.2.1, h.2.2.2.1,
    h.2.2.2.2.1, h.2.2.2.2.2⟩⟩

instance (s : ThreadPool Task) : Decidable (WithinLimits s) :=
  decidable_of_iff' _ (withinLimits_iff_and s)

/-- Where the manager is to shrink the pool, as many workers above `minNum` as it tells to exit
are still alive. -/
def Fresh (s : ThreadPool Task) : PoolStep Task → Prop
  | .adjust _ =>
    match s.manager with
    | .sampled busy live tasknum =>
      ¬ s.grows live tasknum → s.shrinks busy live → s.minNum + s.shrinkage live ≤ s.liveNum
    | _ => True
  | _ => True

instance (s : ThreadPool Task) : (e : PoolStep Task) → Decidable (s.Fresh e)
  | .adjust ws =>
    match h : s.manager with
    | .sampled busy live tasknum =>
      decidable_of_iff (¬ s.grows live tasknum → s.shrinks busy live →
        s.minNum + s.shrinkage live ≤ s.liveNum) (by simp [Fresh, h])
    | .absent | .sleeping => isTrue (by simp [Fresh, h])
  | .addTask .. | .check _ | .sleep _ | .proceed _ | .finish _ | .sample | .recycle _ =>
    isTrue trivial

/-- The counters against the manager's sample: workers only exit after it. -/
structure Bounded (s : ThreadPool Task) : Prop extends Sound s where
  minNum : 0 ≤ s.minNum
  sampled : ∀ busy live tasknum, s.manager = .sampled busy live tasknum → s.liveNum ≤ live

variable {s s' : ThreadPool Task} {e : PoolStep Task} {o : List (PoolOut Task)}

theorem Bounded.busy (h : Bounded s) : 0 ≤ s.busyNum ∧ s.busyNum ≤ s.liveNum := by
  have := h.minNum
  have := h.busyNum
  have := h.liveNum
  have := count_isRunning_le (s := s)
  omega

theorem growth_le {live tasknum : ℤ} (h : s.grows live tasknum) :
    0 ≤ s.growth live ∧ live + s.growth live ≤ s.maxNum := by
  have := h.1
  unfold growth onceCreateNum
  split <;> omega

theorem Bounded.step (h : Bounded s) (hs : s.step e = some (s', o)) : Bounded s' := by
  have hS := h.toSound.step hs
  obtain ⟨-, hn, hm⟩ := h
  cases moves_of_step hs with
  | sample => exact ⟨hS, hn, fun busy live tasknum hq => by cases hq; rfl⟩
  | retire | grow | shrink | rest => exact ⟨hS, hn, fun _ _ _ hq => by cases hq⟩
  | leave =>
    refine ⟨hS, hn, fun busy live tasknum hq => ?_⟩
    have := hm busy live tasknum hq
    show s.liveNum - 1 ≤ live
    omega
  | _ => exact ⟨hS, hn, hm⟩

/-- **One step.** The limits are kept exactly under the guard. -/
theorem withinLimits_step (h : Bounded s) (hP : s.WithinLimits) (hs : s.step e = some (s', o)) :
    s'.WithinLimits ↔ s.Fresh e := by
  have hB := (h.step hs).busy
  rw [withinLimits_iff_and] at hP ⊢
  cases moves_of_step hs with
  | leave hi he =>
    refine iff_of_true ?_ trivial
    simp only [ThreadPool.moved] at hB ⊢
    omega
  | @grow busy live tasknum ws hm hg hl =>
    have := growth_le hg
    have := h.sampled _ _ _ hm
    refine iff_of_true ?_ ?_
    · simp only [createThreads] at hB ⊢
      omega
    · simp only [Fresh, hm]
      exact fun a => absurd hg a
  | @shrink busy live tasknum ws ts hm hg hr hl hn hw =>
    have := shrinkage_pos hr
    simp only [Fresh, hm, hg, hr, not_false_eq_true, forall_const]
    omega
  | rest hm hg hr =>
    refine iff_of_true ⟨hP.1, hP.2.1, hP.2.2.1, hP.2.2.2.1, hB⟩ ?_
    simp only [Fresh, hm]
    exact fun _ a => absurd a hr
  | _ => exact iff_of_true ⟨hP.1, hP.2.1, hP.2.2.1, hP.2.2.2.1, hB⟩ trivial

/-- **The pool size stays within its limits, and when.** Along a run of the pool the limits hold
in every state exactly when `Tmin` is not negative and the manager, where it shrinks the pool,
finds as many workers above `Tmin` as it tells to exit. -/
theorem withinLimits_iff (Tmin Tmax : ℤ) (h : Tmin ≤ Tmax) (es : List (PoolStep Task))
    (hr : Run.Guarded step (Run.Defined step) (construct Task Tmin Tmax) es) :
    Run.Always step WithinLimits (construct Task Tmin Tmax) es ↔
      0 ≤ Tmin ∧ Run.Guarded step Fresh (construct Task Tmin Tmax) es := by
  by_cases hmin : 0 ≤ Tmin
  · rw [and_iff_right hmin]
    refine Run.always_iff_guarded (I := Bounded) ?_ ?_ ?_ hr
    · intro s e hI hP hv
      obtain ⟨⟨s', o⟩, hs⟩ := Option.isSome_iff_exists.mp hv
      exact ⟨s', o, hs, withinLimits_step hI hP hs, fun _ => hI.step hs⟩
    · refine ⟨sound_construct Tmin Tmax, hmin, fun busy live tasknum hq => ?_⟩
      simp only [construct] at hq
      split at hq <;> cases hq
    · exact ⟨le_rfl, h, le_rfl, (sub_zero Tmin).ge, le_rfl, hmin⟩
  · refine iff_of_false (fun ha => hmin ?_) fun ha => hmin ha.1
    exact ha.head.busyNum.trans ha.head.busy_le

/-- One worker, two more for a task that waits, and back to one. -/
theorem withinLimits_iff_run :
    Run.Always step WithinLimits (construct ℕ 1 3)
      [.addTask 7 none, .sample, .adjust [], .check 0, .proceed 0, .finish 0, .check 1, .sleep 1,
        .sample, .adjust [some 1, none], .check 1, .proceed 1, .check 2, .proceed 2, .sample,
        .adjust []] := by
  refine (withinLimits_iff 1 3 (by decide) _ ?_).mpr ⟨by decide, ?_⟩
  · decide +kernel
  · decide +kernel

/-- Two workers exit after the second sample, which still counts them; the last one exits too. -/
theorem exceeded :
    ∃ (es : List (PoolStep ℕ)) (s : ThreadPool ℕ) (os : List (PoolOut ℕ)),
      Run.run step (construct ℕ 1 3) es = some (s, os) ∧ s.shutdown = false ∧
      s.liveNum < s.minNum := by
  obtain ⟨⟨s, os⟩, hr, h⟩ := Run.exists_of_any
    (x := Run.run step (construct ℕ 1 3) [.addTask 7 none, .sample, .adjust [], .check 0,
      .proceed 0, .finish 0, .check 0, .sleep 0, .check 1, .sleep 1, .check 2, .sleep 2, .sample,
      .adjust [some 0, some 1], .sample, .check 0, .proceed 0, .check 1, .proceed 1,
      .adjust [some 2, none], .check 2, .proceed 2])
    (f := fun r => decide (r.1.shutdown = false ∧ r.1.liveNum < r.1.minNum)) (by decide +kernel)
  exact ⟨_, s, os, hr, of_decide_eq_true h⟩

end ServerNginx.ThreadPool
