import ServerNginx.App.WorkerLoop
import Mathlib.Tactic.Linarith

set_option autoImplicit false

/-!
# No timer fires early

`CheckTimer` runs the callback of the first entry without a look at its deadline: it is called
where `epoll_wait` has timed out, and the timeout comes from a `SetTime` that other threads may
have overtaken with `AddTimer`.

* `Alarm`: the timer of a worker with what `GetTime` returns, inside or outside of `epoll_wait`;
* `Due`: the entries are in order, and the wait ends behind a deadline;
* `due_of_timeout`: where `epoll_wait` times out, the deadline of the first entry has passed;
* **`firings_le`**: a timer of `msec` milliseconds that has fired `k` times was added at least
  `k * msec` milliseconds ago.
-/

namespace ServerNginx

/-- A worker between two steps: `wait` holds when `epoll_wait` was called, and its timeout. -/
structure Alarm (F A : Type) where
  timer : Timer F A
  now : ℤ
  wait : Option (ℤ × ℤ)

/-- What happens in the loop of `ngx_worker_process_cycle`, and around it. -/
inductive AlarmStep (F A : Type)
  | tick (d : ℕ)
  /-- `AddTimer`, in a handler or in another thread. It is one step: `Timer_buf` and `id` have no
  lock, and what two threads in them at once do to them is left out. -/
  | addTimer (msec count : ℤ) (func : F) (arg : A)
  /-- `ngx_epoll_process_events(timer->SetTime())`, as far as `epoll_wait` -/
  | wait
  /-- `epoll_wait` returns with events, or interrupted -/
  | ready
  /-- `epoll_wait` returns 0: `CheckTimer`, with the calls of `AddTimer` its callback makes and
  `GetTime` behind it -/
  | timeout (calls : List (AddCall F A)) (later : ℤ)

variable {F A : Type}

namespace Alarm

/-- The process starts outside of `epoll_wait`. -/
def start (F A : Type) (now : ℤ) : Alarm F A := ⟨Timer.start F A, now, none⟩

variable (w : Alarm F A)

/-- The timeout of `epoll_wait` has run; a negative one never does. -/
def TimedOut : Prop := ∃ p ∈ w.wait, 0 ≤ p.2 ∧ p.1 + p.2 ≤ w.now

instance : Decidable w.TimedOut := inferInstanceAs (Decidable (∃ p ∈ w.wait, _))

/-- `GetTime` does not go back. -/
def Later (calls : List (AddCall F A)) (later : ℤ) : Prop :=
  w.now ≤ later ∧ ∀ c ∈ calls, w.now ≤ c.now ∧ c.now ≤ later

instance (calls : List (AddCall F A)) (later : ℤ) : Decidable (w.Later calls later) :=
  inferInstanceAs (Decidable (_ ∧ _))

def step : AlarmStep F A → Option (Alarm F A × List (TimerOut F A))
  | .tick d => some ({ w with now := w.now + d }, [])
  | .addTimer msec count func arg =>
    let c : AddCall F A := ⟨w.now, msec, count, func, arg⟩
    some ({ w with timer := w.timer.addTimer c }, [.added (w.timer.newInfo c)])
  | .wait =>
    if w.wait = none then
      some ({ w with wait := some (w.now, CNumber.int32 (w.timer.setTime w.now)) }, [])
    else none
  | .ready => if w.wait = none then none else some ({ w with wait := none }, [])
  | .timeout calls later =>
    if w.TimedOut ∧ w.Later calls later then
      (w.timer.checkTimer calls later).map fun r => (⟨r.1, later, none⟩, r.2)
    else none

/-- The intervals that the code asks for. -/
def Spans (os : List (TimerOut F A)) : Prop :=
  ∀ t ∈ Timer.added os, 0 ≤ t.tMsec ∧ t.tMsec < 2 ^ 31

instance (os : List (TimerOut F A)) : Decidable (Spans os) :=
  inferInstanceAs (Decidable (∀ _ ∈ _, _))

/-- The entries are in order, none lies further ahead than its interval, and a wait that can time
out ends behind the deadline of an entry. -/
structure Due : Prop where
  sorted : OrdMultiset.Sorted TimerInfo.lt w.timer.timerBuf
  ahead : ∀ u ∈ w.timer.timerBuf, 0 ≤ u.tMsec ∧ u.tMsec < 2 ^ 31 ∧ u.tData ≤ w.now + u.tMsec
  wait : ∀ p ∈ w.wait, 0 ≤ p.2 → ∃ u ∈ w.timer.timerBuf, u.tData ≤ p.1 + p.2

variable {w} {w' : Alarm F A} {os o : List (TimerOut F A)}

theorem due_start (now : ℤ) : Due (start F A now) where
  sorted := List.Pairwise.nil
  ahead u h := by cases h
  wait p h := by cases h

/-- **Where the wait has timed out, the first entry is due.** -/
theorem due_of_timeout (h : w.Due) (ht : w.TimedOut) :
    ∃ it rest, w.timer.timerBuf = it :: rest ∧ it.tData ≤ w.now := by
  obtain ⟨p, hp, h0, hend⟩ := ht
  obtain ⟨u, hu, hd⟩ := h.wait p hp h0
  obtain ⟨it, rest, hb⟩ := List.exists_cons_of_ne_nil (List.ne_nil_of_mem hu)
  refine ⟨it, rest, hb, ?_⟩
  have hle := OrdMultiset.least_of_sorted Timer.lt_irrefl (hb ▸ h.sorted) u (hb ▸ hu)
  have hnot : ¬ u.lt it = true := by simp [hle]
  rw [Timer.lt_iff] at hnot
  omega

theorem setTime_cases (h : w.Due) : w.timer.timerBuf = [] ∧
      CNumber.int32 (w.timer.setTime w.now) = -1 ∨
    ∃ it ∈ w.timer.timerBuf, it.tData ≤ w.now + CNumber.int32 (w.timer.setTime w.now) := by
  cases hb : w.timer.timerBuf with
  | nil =>
    left
    rw [Timer.setTime, hb]
    exact ⟨rfl, rfl⟩
  | cons it rest =>
    right
    refine ⟨it, List.mem_cons_self, ?_⟩
    obtain ⟨-, hlt, hd⟩ := h.ahead it (hb ▸ List.mem_cons_self)
    rw [Timer.setTime, hb]
    dsimp only
    split_ifs with hpos
    · rw [CNumber.int32_of_lt (by omega) (by omega)]
      omega
    · rw [CNumber.int32_of_lt (by omega) (by omega)]
      omega

/-! ## One step -/

theorem timeout_cases {calls : List (AddCall F A)} {later : ℤ} (h : w.Due)
    (hs : w.step (.timeout calls later) = some (w', o)) :
    ∃ it rest s', w.timer.timerBuf = it :: rest ∧ it.tData ≤ w.now ∧ w.Later calls later ∧
      w.timer.checkTimer calls later = some (s', o) ∧ w' = ⟨s', later, none⟩ := by
  simp only [step] at hs
  split_ifs at hs with hc
  obtain ⟨⟨s', o'⟩, hr, he⟩ := Option.map_eq_some_iff.mp hs
  cases he
  obtain ⟨it, rest, hb, hd⟩ := due_of_timeout h hc.1
  exact ⟨it, rest, s', hb, hd, hc.2, hr, rfl⟩

theorem mem_addTimers {s : Timer F A} {calls : List (AddCall F A)} {u : TimerInfo F A}
    (h : u ∈ (s.addTimers calls).1.timerBuf) :
    u ∈ s.timerBuf ∨ u ∈ Timer.added (s.addTimers calls).2 ∧
      ∃ c ∈ calls, u.tMsec = c.msec ∧ u.tData = c.now + c.msec := by
  induction calls generalizing s with
  | nil => exact .inl h
  | cons c cs ih =>
    rcases ih h with h | ⟨h, d, hd, hu⟩
    · rcases OrdMultiset.mem_insert.mp h with rfl | h
      · exact .inr ⟨List.mem_cons_self, c, List.mem_cons_self, rfl, rfl⟩
      · exact .inl h
    · exact .inr ⟨List.mem_cons_of_mem _ h, d, List.mem_cons_of_mem _ hd, hu⟩

theorem mem_rearmed {it u : TimerInfo F A} {later : ℤ} (h : u ∈ Timer.rearmed it later) :
    u.tMsec = it.tMsec ∧ u.tData = later + it.tMsec := by
  unfold Timer.rearmed at h
  split_ifs at h
  · cases h
  · rw [List.mem_singleton.mp h]
    exact ⟨rfl, rfl⟩
  · rw [List.mem_singleton.mp h]
    exact ⟨rfl, rfl⟩

theorem mem_checkTimer {s s' : Timer F A} {it : TimerInfo F A} {rest : List (TimerInfo F A)}
    {calls : List (AddCall F A)} {later : ℤ} {u : TimerInfo F A} (hb : s.timerBuf = it :: rest)
    (hc : s.checkTimer calls later = some (s', o)) (hu : u ∈ s'.timerBuf) :
    (u.tMsec = it.tMsec ∧ u.tData = later + it.tMsec) ∨ u ∈ s.timerBuf ∨
      u ∈ Timer.added o ∧ ∃ c ∈ calls, u.tMsec = c.msec ∧ u.tData = c.now + c.msec := by
  by_cases hlive : it.tCount = -1 ∨ 1 ≤ it.tCount
  · rw [Timer.checkTimer_cons hb hlive] at hc
    cases hc
    have hmem := (OrdMultiset.perm_insert_all _).mem_iff.mp hu
    rcases List.mem_append.mp hmem with hu | hu
    · exact .inl (mem_rearmed hu)
    · right
      rcases mem_addTimers (List.mem_of_mem_filter hu) with hu | ⟨hu, hcall⟩
      · exact .inl hu
      · refine .inr ⟨?_, hcall⟩
        rw [Timer.added_concat_fired]
        exact hu
  · rw [WorkerLoop.checkTimer_of_dead hb hlive] at hc
    cases hc
    exact .inr (.inl hu)

/-- **A step keeps the wait behind a deadline.** -/
theorem Due.step {e : AlarmStep F A} (h : w.Due) (hsp : Spans o)
    (hs : w.step e = some (w', o)) : w'.Due := by
  cases e with
  | tick d =>
    cases hs
    refine ⟨h.sorted, fun u hu => ?_, h.wait⟩
    obtain ⟨h0, hlt, hd⟩ := h.ahead u hu
    refine ⟨h0, hlt, ?_⟩
    dsimp only
    omega
  | addTimer msec count func arg =>
    cases hs
    refine ⟨OrdMultiset.sorted_insert Timer.lt_irrefl Timer.lt_trans h.sorted, fun u hu => ?_,
      fun p hp h0 => ?_⟩
    · rcases OrdMultiset.mem_insert.mp hu with rfl | hu
      · obtain ⟨h0, hlt⟩ := hsp _ (List.mem_singleton_self _)
        exact ⟨h0, hlt, le_refl _⟩
      · exact h.ahead u hu
    · obtain ⟨u, hu, hd⟩ := h.wait p hp h0
      exact ⟨u, OrdMultiset.mem_insert.mpr (.inr hu), hd⟩
  | wait =>
    simp only [Alarm.step] at hs
    split_ifs at hs
    cases hs
    refine ⟨h.sorted, h.ahead, fun p hp h0 => ?_⟩
    cases hp
    dsimp only at h0 ⊢
    rcases setTime_cases h with ⟨-, hneg⟩ | hit
    · omega
    · exact hit
  | ready =>
    simp only [Alarm.step] at hs
    split_ifs at hs
    cases hs
    exact ⟨h.sorted, h.ahead, fun p hp => by cases hp⟩
  | timeout calls later =>
    obtain ⟨it, rest, s', hb, -, hl, hc, rfl⟩ := timeout_cases h hs
    refine ⟨WorkerLoop.sorted_checkTimer h.sorted hc, fun u hu => ?_, fun p hp => by cases hp⟩
    rcases mem_checkTimer hb hc hu with ⟨hm, hd⟩ | hu | ⟨hadd, c, hcall, hm, hd⟩
    · obtain ⟨h0, hlt, -⟩ := h.ahead it (hb ▸ List.mem_cons_self)
      rw [hm, hd]
      exact ⟨h0, hlt, le_refl _⟩
    · obtain ⟨h0, hlt, hd⟩ := h.ahead u hu
      have := hl.1
      refine ⟨h0, hlt, ?_⟩
      dsimp only
      omega
    · obtain ⟨h0, hlt⟩ := hsp u hadd
      have := (hl.2 c hcall).2
      refine ⟨h0, hlt, ?_⟩
      dsimp only
      omega

/-! ## The pace of the firings -/

/-- When timer `t` was added. -/
def addedAt (t : TimerInfo F A) : ℤ := t.tData - t.tMsec

/-- The firings so far, and the next one, against the time. -/
structure Pace (os : List (TimerOut F A)) (s : Timer F A) (now : ℤ) : Prop where
  table : Timer.Timetable os s
  past : ∀ t ∈ Timer.added os, addedAt t + Timer.firings t.tId os * t.tMsec ≤ now
  next : ∀ t ∈ Timer.added os, ∀ u ∈ s.timerBuf, u.tId = t.tId →
    addedAt t + (Timer.firings t.tId os + 1) * t.tMsec ≤ u.tData

variable {s s' : Timer F A} {now later : ℤ}

theorem pace_start (now : ℤ) : Pace [] (Timer.start F A) now where
  table := Timer.timetable_start
  past t h := by cases h
  next t h := by cases h

theorem Pace.mono (h : Pace os s now) (hl : now ≤ later) : Pace os s later :=
  ⟨h.table, fun t ht => (h.past t ht).trans hl, h.next⟩

theorem Pace.add {c : AddCall F A} (h : Pace os s now) (hc : c.now ≤ now)
    (hp : Timer.Promised (os ++ [.added (s.newInfo c)])) :
    Pace (os ++ [.added (s.newInfo c)]) (s.addTimer c) now := by
  have same : ∀ i, Timer.firings i (os ++ [.added (s.newInfo c)]) = Timer.firings i os :=
    fun i => by rw [Timer.firings, Timer.fired_concat_added, Timer.firings]
  have none : Timer.firings s.id os = 0 :=
    Timer.firings_eq_zero fun t ht => h.table.before t (.inr ht)
  have hnew : addedAt (s.newInfo c) = c.now := by
    simp [addedAt, Timer.newInfo]
  refine ⟨h.table.addPromised c hp, fun t ht => ?_, fun t ht u hu he => ?_⟩
  · rw [Timer.added_concat, List.mem_append, List.mem_singleton] at ht
    rw [same]
    rcases ht with ht | rfl
    · exact h.past t ht
    · rw [hnew, show (s.newInfo c).tId = s.id from rfl, none]
      simpa using hc
  · rw [Timer.added_concat, List.mem_append, List.mem_singleton] at ht
    rw [same]
    rcases OrdMultiset.mem_insert.mp hu with rfl | hu
    · rcases ht with ht | rfl
      · exact absurd he.symm (h.table.before t (.inl ht)).ne
      · rw [hnew, show (s.newInfo c).tId = s.id from rfl, none]
        simp [Timer.newInfo]
    · rcases ht with ht | rfl
      · exact h.next t ht u hu he
      · exact absurd he (h.table.known u hu).1.ne

theorem Pace.addTimers {cs : List (AddCall F A)} (h : Pace os s now)
    (hc : ∀ c ∈ cs, c.now ≤ now) (hp : Timer.Promised (os ++ (s.addTimers cs).2)) :
    Pace (os ++ (s.addTimers cs).2) (s.addTimers cs).1 now := by
  induction cs generalizing s os with
  | nil => simpa [Timer.addTimers] using h
  | cons c cs ih =>
    simp only [Timer.addTimers] at hp ⊢
    rw [List.append_cons] at hp ⊢
    exact ih (h.add (hc c List.mem_cons_self) hp.left)
      (fun d hd => hc d (List.mem_cons_of_mem _ hd)) hp

theorem tMsec_of_entry {t u : TimerInfo F A} (h : Timer.Timetable os s) (ht : t ∈ Timer.added os)
    (hu : u ∈ s.timerBuf) (he : u.tId = t.tId) : u.tMsec = t.tMsec := by
  obtain ⟨d, hd⟩ := h.entry t ht
  have hmem : u ∈ s.entries t.tId := List.mem_filter.mpr ⟨hu, decide_eq_true he⟩
  rw [hd] at hmem
  unfold Timer.remaining at hmem
  split_ifs at hmem
  · rw [List.mem_singleton.mp hmem]
  · rw [List.mem_singleton.mp hmem]
  · cases hmem

/-- **A firing keeps the pace** where the deadline of the entry has passed. -/
theorem Pace.check {it : TimerInfo F A} {rest : List (TimerInfo F A)} {calls : List (AddCall F A)}
    (h : Pace os s now) (hb : s.timerBuf = it :: rest) (hd : it.tData ≤ now)
    (hl : now ≤ later ∧ ∀ c ∈ calls, now ≤ c.now ∧ c.now ≤ later)
    (hp : Timer.Promised (os ++ o)) (hs : s.checkTimer calls later = some (s', o)) :
    Pace (os ++ o) s' later := by
  have hit : it ∈ s.timerBuf := hb ▸ List.mem_cons_self
  rw [Timer.checkTimer_cons hb (h.table.known it hit).2] at hs
  have ho : o = (s.addTimers calls).2 ++ [.fired it] := by
    cases hs
    rfl
  subst ho
  rw [← List.append_assoc] at hp ⊢
  have ha := (h.mono hl.1).addTimers (fun c hc => (hl.2 c hc).2) hp.left
  have hita := (h.table.addTimers hp.left).2 it hit
  have count : ∀ i, Timer.firings i (os ++ (s.addTimers calls).2 ++ [.fired it]) =
      Timer.firings i (os ++ (s.addTimers calls).2) + if it.tId = i then 1 else 0 := by
    intro i
    simp only [Timer.firings, Timer.fired_concat, List.countP_append, List.countP_singleton,
      decide_eq_true_eq]
  have table : Timer.Timetable (os ++ (s.addTimers calls).2 ++ [.fired it]) s' := by
    rw [List.append_assoc]
    exact h.table.check hb hp.left ((Timer.checkTimer_cons hb (h.table.known it hit).2 ..).trans hs)
  refine ⟨table, fun t ht => ?_, fun t ht u hu he => ?_⟩
  · rw [Timer.added_concat_fired] at ht
    rw [count]
    by_cases hid : it.tId = t.tId
    · have := ha.next t ht it hita hid
      rw [if_pos hid]
      push_cast
      exact this.trans (hd.trans hl.1)
    · rw [if_neg hid, Nat.add_zero]
      exact ha.past t ht
  · rw [Timer.added_concat_fired] at ht
    rw [count]
    have hbuf : s'.timerBuf = (Timer.rearmed it later).foldr (OrdMultiset.insert TimerInfo.lt)
        (OrdMultiset.erase TimerInfo.lt it (s.addTimers calls).1.timerBuf) := by
      cases hs
      rfl
    rw [hbuf] at hu
    rcases List.mem_append.mp ((OrdMultiset.perm_insert_all _).mem_iff.mp hu) with hu | hu
    · -- the entry armed again waits its interval from now on
      have hid : it.tId = t.tId := (Timer.tId_rearmed u hu).symm.trans he
      have hnext := ha.next t ht it hita hid
      obtain ⟨-, hdata⟩ := mem_rearmed hu
      rw [hdata, if_pos hid, tMsec_of_entry ha.table ht hita hid]
      push_cast
      have := hl.1
      linarith
    · have hne : it.tId ≠ t.tId := by
        rintro hid
        have hu' := List.mem_of_mem_filter hu
        have heq := List.inj_on_of_nodup_map ha.table.nodup hu' hita (he.trans hid.symm)
        subst heq
        simp [OrdMultiset.erase, Timer.lt_irrefl] at hu
      rw [if_neg hne, Nat.add_zero]
      exact ha.next t ht u (List.mem_of_mem_filter hu) he

/-! ## Whole runs -/

theorem Pace.step {e : AlarmStep F A} (h : Pace os w.timer w.now) (hdue : w.Due)
    (hp : Timer.Promised (os ++ o)) (hs : w.step e = some (w', o)) :
    Pace (os ++ o) w'.timer w'.now := by
  cases e with
  | tick d =>
    cases hs
    rw [List.append_nil]
    exact h.mono (by dsimp only; omega)
  | addTimer msec count func arg =>
    cases hs
    exact h.add (le_refl _) hp
  | wait =>
    simp only [Alarm.step] at hs
    split_ifs at hs
    cases hs
    rwa [List.append_nil]
  | ready =>
    simp only [Alarm.step] at hs
    split_ifs at hs
    cases hs
    rwa [List.append_nil]
  | timeout calls later =>
    obtain ⟨it, rest, s', hb, hd, hl, hc, rfl⟩ := timeout_cases hdue hs
    exact h.check hb hd hl hp hc

theorem Spans.left {os' : List (TimerOut F A)} (h : Spans (os ++ os')) :
    Spans os ∧ Spans os' := by
  have ha : Timer.added (os ++ os') = Timer.added os ++ Timer.added os' := List.filterMap_append
  rw [Spans, ha] at h
  exact ⟨fun t ht => h t (List.mem_append_left _ ht), fun t ht => h t (List.mem_append_right _ ht)⟩

theorem pace_run {t₀ : ℤ} {es : List (AlarmStep F A)}
    (hr : Run.run step (start F A t₀) es = some (w, os)) (hp : Timer.Promised os)
    (hsp : Spans os) : w.Due ∧ Pace os w.timer w.now := by
  let R (_ : List (AlarmStep F A)) (os : List (TimerOut F A)) (w : Alarm F A) : Prop :=
    Timer.Promised os → Spans os → w.Due ∧ Pace os w.timer w.now
  have h₀ : R [] [] (start F A t₀) := fun _ _ => ⟨due_start t₀, pace_start t₀⟩
  have h : R ([] ++ es) ([] ++ os) w := by
    refine Run.run_induct ?_ h₀ (Run.guarded_true _ es) hr
    intro is os s e s' o hR _ hs hp hsp
    obtain ⟨hdue, hpace⟩ := hR hp.left hsp.left.1
    exact ⟨hdue.step hsp.left.2 hs, hpace.step hdue hp hs⟩
  exact h hp hsp

/-- **No timer fires early.** In every run of the loop of a worker in which other threads and
handlers add timers at any time, one after the other, with intervals below 2^31 ms, a count of -1 or
from 1, and fewer than 2^31 calls, a timer that has fired `k` times was added at least `k` intervals
ago. -/
theorem firings_le (t₀ : ℤ) (es : List (AlarmStep F A)) (w : Alarm F A)
    (os : List (TimerOut F A)) (hr : Run.run step (start F A t₀) es = some (w, os))
    (hp : Timer.Promised os) (hsp : Spans os) :
    ∀ t ∈ Timer.added os, Timer.firings t.tId os * t.tMsec ≤ w.now - addedAt t := by
  intro t ht
  have := (pace_run hr hp hsp).2.past t ht
  omega

/-- A timer of 5 ms added by another thread while the worker waits for one of 20 ms. -/
theorem firings_le_overtaken :
    ∃ (es : List (AlarmStep Unit Unit)) (w : Alarm Unit Unit) (os : List (TimerOut Unit Unit)),
      Run.run step (start Unit Unit 100) es = some (w, os) ∧ Timer.firings 1 os = 2 ∧
      (2 : ℤ) * 5 ≤ w.now - 110 := by
  obtain ⟨⟨w, os⟩, hr, h⟩ := Run.exists_of_any
    (x := Run.run step (start Unit Unit 100) [.addTimer 20 1 () (), .wait, .tick 10,
      .addTimer 5 (-1) () (), .tick 10, .timeout [] 120, .wait, .timeout [] 121, .wait, .tick 4,
      .timeout [] 126])
    (f := fun r => decide (⟨5, 115, (), 1, -1, ()⟩ ∈ Timer.added r.2 ∧ Timer.Promised r.2 ∧
      Spans r.2 ∧ Timer.firings 1 r.2 = 2)) (by decide +kernel)
  obtain ⟨ht, hp, hsp, hf⟩ := of_decide_eq_true h
  have hle := firings_le 100 _ w os hr hp hsp _ ht
  rw [hf] at hle
  exact ⟨_, w, os, hr, hf, hle⟩

/-- An interval above 2^31: the timeout of 2^32 + 5 ms is cut down to 5 ms. -/
example : (Run.run step (start Unit Unit 100) [.addTimer (2 ^ 32 + 5) 1 () (), .wait, .tick 5,
    .timeout [] 105]).any (fun r => Timer.firings 0 r.2 = 1) = true := by decide +kernel

end Alarm

end ServerNginx
