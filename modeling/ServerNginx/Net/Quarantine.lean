import ServerNginx.App.Alarm
import ServerNginx.Net.Motion

set_option autoImplicit false

/-!
# Closed slots rest before they are taken again

`CSocket` with the `Timer` of the process in the place of the list of its pending timers: a close
sets a timer of 10 or 30 s, `CheckTimer` runs `ngx_time_tofree_connection`.

* `Clocked.step`: the steps of `CSocket` and of the loop of the worker together;
* `run_sock`: for its connections, a run of `Clocked` is a run of `CSocket`;
* `Rested`: a slot that goes back to the free list was closed in the same step, or at least 10 s
  before;
* **`rested_run`**: so it does in every run whose closes find their connection registered, and no
  timeout is lost.
-/

namespace ServerNginx

/-- The functions given to `AddTimer`. -/
inductive TimerCall
  | ngxTimeTocheck
  | ngxTimeTofreeConnection
  deriving DecidableEq

/-- A worker process with its timer; the argument of a timer is a connection, or `this`. -/
structure Clocked where
  sock : CSocket
  worker : Alarm TimerCall (Option Addr)

/-- The steps of the process, and of the loop of the worker. -/
inductive ClockStep
  | tick (d : ℕ)
  | wait
  | ready
  | timeout (later : ℤ)
  | sock (i : CSocket.Step)
  deriving DecidableEq

/-- The interval of the timer behind a read that closes. -/
def Ending.delay : Ending → ℤ
  | .flood => 30000
  | .done => 10000
  | .ret _ => 10000

/-- The connection that a timer puts in `m_recyconnectionList`. -/
def TimerInfo.recycles (t : TimerInfo TimerCall (Option Addr)) : Option Addr :=
  match t.tFunc with
  | .ngxTimeTocheck => none
  | .ngxTimeTofreeConnection => t.tArg

namespace Clocked

variable (cfg : Conf) (c : Clocked)

/-- The interval of the timer a step sets. -/
def delay (s : CSocket) : CSocket.Step → ℤ
  | .task a rets => ((CSocket.recvprocETTask cfg a (s.conn a) rets).map (·.2.delay)).getD 10000
  | .read a ret =>
    ((CSocket.ngxReadRequestHandlerCall cfg a (s.conn a) ret).map (·.2.delay)).getD 10000
  | .visit .. => 30000
  | _ => 10000

/-- The calls of `AddTimer` of a step that leads to `t`. -/
def calls (i : CSocket.Step) (t : CSocket) : List (AddCall TimerCall (Option Addr)) :=
  (t.timerBuf.drop c.sock.timerBuf.length).map fun a =>
    ⟨c.worker.now, delay cfg c.sock i, 1, .ngxTimeTofreeConnection, some a⟩

/-- The outputs of a step are the events of its slots, with the time. -/
def step : ClockStep → Option (Clocked × List (ℤ × List PoolEv))
  | .tick d => (c.worker.step (.tick d)).map fun r => (⟨c.sock, r.1⟩, [])
  | .wait => (c.worker.step .wait).map fun r => (⟨c.sock, r.1⟩, [])
  | .ready => (c.worker.step .ready).map fun r => (⟨c.sock, r.1⟩, [])
  | .timeout later => (c.worker.step (.timeout [] later)).bind fun r =>
    match (Timer.fired r.2).filterMap TimerInfo.recycles with
    | [] => some (⟨c.sock, r.1⟩, [])
    | a :: _ => (c.sock.step cfg (.expire a)).map fun q => (⟨q.1, r.1⟩, [(later, q.2)])
  | .sock (.expire _) => none
  | .sock i => (c.sock.step cfg i).map fun q =>
    (⟨q.1, { c.worker with timer := (c.worker.timer.addTimers (c.calls cfg i q.1)).1 }⟩,
      [(c.worker.now, q.2)])

/-- The state after `ngx_epoll_init`, with the timer of the heartbeat. -/
def ngxEpollInit (heap : Addr → Connection) (listen : List ℤ) (now : ℤ) : Option Clocked :=
  (CSocket.ngxEpollInit cfg heap listen).map fun s =>
    ⟨s, (Timer.start TimerCall (Option Addr)).addTimer ⟨now, 20000, -1, .ngxTimeTocheck, none⟩,
      now, none⟩

end Clocked

/-! ## When a slot was closed -/

/-- The last close of slot `a` was at `t` or before, and it was not taken since. -/
def ClosedBy (log : List (ℤ × List PoolEv)) (a : Addr) (t : ℤ) : Prop :=
  ∃ l e l', log = l ++ e :: l' ∧ .release a ∈ e.2 ∧ e.1 ≤ t ∧
    ∀ e' ∈ l', PoolEv.get a ∉ e'.2 ∧ PoolEv.release a ∉ e'.2

/-- A slot that goes back to the free list was closed in the same step, or 10 s before. -/
def Rested (log : List (ℤ × List PoolEv)) : Prop :=
  ∀ l e l' a, log = l ++ e :: l' → .free a ∈ e.2 →
    .release a ∈ e.2 ∨ ClosedBy l a (e.1 - 10000)

/-- The number of closes. -/
def closes (log : List (ℤ × List PoolEv)) : ℕ :=
  (log.flatMap Prod.snd).countP fun
    | .release _ => true
    | _ => false

section ClosedBy

variable {log : List (ℤ × List PoolEv)} {e : ℤ × List PoolEv} {a : Addr} {t t' : ℤ}

theorem ClosedBy.mono (h : ClosedBy log a t) (ht : t ≤ t') : ClosedBy log a t' := by
  obtain ⟨l, e, l', hl, hm, he, hlast⟩ := h
  exact ⟨l, e, l', hl, hm, he.trans ht, hlast⟩

theorem ClosedBy.concat (h : ClosedBy log a t) (hget : PoolEv.get a ∉ e.2)
    (hrel : PoolEv.release a ∉ e.2) : ClosedBy (log ++ [e]) a t := by
  obtain ⟨l, d, l', rfl, hm, hd, hlast⟩ := h
  refine ⟨l, d, l' ++ [e], by simp, hm, hd, fun e' he' => ?_⟩
  rcases List.mem_append.mp he' with he' | he'
  · exact hlast e' he'
  · rw [List.mem_singleton.mp he']
    exact ⟨hget, hrel⟩

theorem closedBy_concat (h : .release a ∈ e.2) (ht : e.1 ≤ t) : ClosedBy (log ++ [e]) a t :=
  ⟨log, e, [], rfl, h, ht, fun _ h => by cases h⟩

theorem rested_nil : Rested [] := by
  intro l e l' a h
  simp at h

theorem Rested.concat (h : Rested log)
    (he : ∀ a, .free a ∈ e.2 → .release a ∈ e.2 ∨ ClosedBy log a (e.1 - 10000)) :
    Rested (log ++ [e]) := by
  intro l d l' a heq hm
  rcases List.eq_nil_or_concat l' with rfl | ⟨l'', x, rfl⟩
  · obtain ⟨rfl, hd⟩ := List.append_inj' heq rfl
    cases hd
    exact he a hm
  · rw [List.concat_eq_append, ← List.cons_append, ← List.append_assoc] at heq
    obtain ⟨rfl, -⟩ := List.append_inj' heq rfl
    exact h l d l'' a rfl hm

theorem closes_append (l l' : List (ℤ × List PoolEv)) :
    closes (l ++ l') = closes l + closes l' := by
  rw [closes, List.flatMap_append, List.countP_append]
  rfl

end ClosedBy

namespace Clocked

/-! ## Refinement -/

section Refinement

variable {cfg : Conf} {c c' : Clocked} {log o : List (ℤ × List PoolEv)}

theorem step_sock {i : ClockStep} (h : c.step cfg i = some (c', o)) :
    c'.sock = c.sock ∧ o = [] ∨
      ∃ j t os, c.sock.step cfg j = some (c'.sock, os) ∧ o = [(t, os)] := by
  cases i with
  | tick d =>
    cases h
    exact .inl ⟨rfl, rfl⟩
  | wait | ready =>
    obtain ⟨r, -, he⟩ := Option.map_eq_some_iff.mp h
    cases he
    exact .inl ⟨rfl, rfl⟩
  | timeout later =>
    obtain ⟨r, -, h⟩ := Option.bind_eq_some_iff.mp h
    split at h
    · cases h
      exact .inl ⟨rfl, rfl⟩
    · next a _ _ =>
      obtain ⟨q, hq, he⟩ := Option.map_eq_some_iff.mp h
      cases he
      exact .inr ⟨.expire a, later, q.2, hq, rfl⟩
  | sock j =>
    cases j with
    | expire a => cases h
    | _ =>
      obtain ⟨q, hq, he⟩ := Option.map_eq_some_iff.mp h
      cases he
      exact .inr ⟨_, c.worker.now, q.2, hq, rfl⟩

/-- **A run with the timer is a run of the connections**, with the same events. -/
theorem run_sock {is : List ClockStep} (h : Run.run (step cfg) c is = some (c', log)) :
    ∃ js, Run.run (CSocket.step cfg) c.sock js = some (c'.sock, log.flatMap Prod.snd) := by
  induction is generalizing c log with
  | nil =>
    cases h
    exact ⟨[], rfl⟩
  | cons i is ih =>
    obtain ⟨d, o, o', hs, hr, rfl⟩ := Run.run_cons_eq_some.mp h
    obtain ⟨js, hjs⟩ := ih hr
    rcases step_sock hs with ⟨he, rfl⟩ | ⟨j, t, os, hj, rfl⟩
    · exact ⟨js, he ▸ hjs⟩
    · exact ⟨j :: js, Run.run_cons_eq_some.mpr ⟨d.sock, os, _, hj, hjs, by simp⟩⟩

end Refinement

/-! ## The invariant -/

/-- A timer of `ngx_epoll_init`, or one that a close has set. -/
def Kind (u : TimerInfo TimerCall (Option Addr)) : Prop :=
  u.recycles = none ∧ u.tCount = -1 ∨ (∃ a, u.recycles = some a) ∧ u.tCount = 1

/-- The connections under way, with the times they were closed at. -/
structure Quarantine (c : Clocked) (log : List (ℤ × List PoolEv)) : Prop where
  inv : c.sock.Inv (log.flatMap Prod.snd)
  due : c.worker.Due
  table : ∃ os, Timer.Timetable os c.worker.timer ∧ (Timer.added os).length ≤ closes log + 1 ∧
    ∀ t ∈ Timer.added os, t.tCount = -1 ∨ 1 ≤ t.tCount
  kind : ∀ u ∈ c.worker.timer.timerBuf, Kind u
  timers : (c.worker.timer.timerBuf.filterMap TimerInfo.recycles).Perm c.sock.timerBuf
  ripe : ∀ u ∈ c.worker.timer.timerBuf, ∀ a ∈ u.recycles, ClosedBy log a (u.tData - 10000)
  waited : ∀ a ∈ c.sock.mRecyconnectionList, ClosedBy log a (c.worker.now - 10000)
  rested : Rested log

variable {cfg : Conf} {c c' : Clocked} {log o : List (ℤ × List PoolEv)}

theorem le_delay (s : CSocket) (i : CSocket.Step) :
    10000 ≤ delay cfg s i ∧ delay cfg s i < 2 ^ 31 := by
  have hend : ∀ e : Ending, 10000 ≤ e.delay ∧ e.delay < 2 ^ 31 := by
    intro e
    cases e <;> simp [Ending.delay]
  have hopt : ∀ o : Option (Connection × Ending), 10000 ≤ (o.map (·.2.delay)).getD 10000 ∧
      (o.map (·.2.delay)).getD 10000 < 2 ^ 31 := by
    intro o
    cases o with
    | none => simp
    | some r => exact hend r.2
  cases i with
  | task a rets => exact hopt _
  | read a ret => exact hopt _
  | _ => simp [delay]

theorem perm_checkTimer {F A : Type} {s s' : Timer F A} {os o : List (TimerOut F A)}
    {it : TimerInfo F A} {rest : List (TimerInfo F A)} {later : ℤ} (h : Timer.Timetable os s)
    (hb : s.timerBuf = it :: rest) (hs : s.checkTimer [] later = some (s', o)) :
    s'.timerBuf.Perm (Timer.rearmed it later ++ rest) ∧ o = [.fired it] := by
  rw [Timer.checkTimer_cons hb (h.known it (hb ▸ List.mem_cons_self)).2] at hs
  cases hs
  refine ⟨(OrdMultiset.perm_insert_all _).trans (List.Perm.append_left _ ?_), rfl⟩
  have hnd := h.nodup
  rw [hb, List.map_cons] at hnd
  refine OrdMultiset.perm_erase Timer.lt_irrefl (.of_eq hb) fun u hu => Timer.lt_or_lt fun he => ?_
  exact (List.nodup_cons.mp hnd).1 (he ▸ List.mem_map_of_mem hu)

theorem Quarantine.worker {w : Alarm TimerCall (Option Addr)} (h : Quarantine c log)
    (hw : w.Due) (ht : w.timer = c.worker.timer) (hn : c.worker.now ≤ w.now) :
    Quarantine ⟨c.sock, w⟩ log where
  inv := h.inv
  due := hw
  table := by rw [ht]; exact h.table
  kind := by rw [ht]; exact h.kind
  timers := by rw [ht]; exact h.timers
  ripe := by rw [ht]; exact h.ripe
  waited a ha := (h.waited a ha).mono (by dsimp only; omega)
  rested := h.rested

theorem timeout_cases {later : ℤ} (h : Quarantine c log)
    (hs : c.step cfg (.timeout later) = some (c', o)) :
    ∃ it rest s', c.worker.timer.timerBuf = it :: rest ∧ it.tData ≤ later ∧
      c.worker.now ≤ later ∧
      c.worker.step (.timeout [] later) = some (⟨s', later, none⟩, [.fired it]) ∧
      c.worker.timer.checkTimer [] later = some (s', [.fired it]) ∧
      s'.timerBuf.Perm (Timer.rearmed it later ++ rest) ∧
      (it.recycles = none ∧ it.tCount = -1 ∧ o = [] ∧ c' = ⟨c.sock, ⟨s', later, none⟩⟩ ∨
      ∃ a t os, it.recycles = some a ∧ it.tCount = 1 ∧
        c.sock.step cfg (.expire a) = some (t, os) ∧ o = [(later, os)] ∧
        c' = ⟨t, ⟨s', later, none⟩⟩) := by
  simp only [step] at hs
  obtain ⟨⟨w, os⟩, hw, hs⟩ := Option.bind_eq_some_iff.mp hs
  obtain ⟨it, rest, s', hb, hd, hl, hc, rfl⟩ := Alarm.timeout_cases h.due hw
  obtain ⟨ts, ht, -, -⟩ := h.table
  obtain ⟨hperm, rfl⟩ := perm_checkTimer ht hb hc
  refine ⟨it, rest, s', hb, hd.trans hl.1, hl.1, hw, hc, hperm, ?_⟩
  have hfired : (Timer.fired [TimerOut.fired it]).filterMap TimerInfo.recycles =
      it.recycles.toList := by
    simp only [Timer.fired, List.filterMap_cons, List.filterMap_nil]
    cases it.recycles <;> rfl
  rw [hfired] at hs
  rcases h.kind it (hb ▸ List.mem_cons_self) with ⟨hnone, hcount⟩ | ⟨⟨a, ha⟩, hcount⟩
  · rw [hnone] at hs
    cases hs
    exact .inl ⟨hnone, hcount, rfl, rfl⟩
  · rw [ha] at hs
    obtain ⟨⟨t, os⟩, ht, he⟩ := Option.map_eq_some_iff.mp hs
    cases he
    exact .inr ⟨a, t, os, ha, hcount, ht, rfl, rfl⟩

/-- The invariant behind a step of the connections that nothing under way notices. -/
theorem closedBy_keeps {a : Addr} {lim lim' : ℤ} {e : ℤ × List PoolEv}
    (h : ClosedBy log a lim) (he : PoolEv.get a ∉ e.2 ∧ PoolEv.release a ∉ e.2)
    (hlim : lim ≤ lim') : ClosedBy (log ++ [e]) a lim' :=
  (h.concat he.1 he.2).mono hlim

theorem Quarantine.timeout {later : ℤ} (h : Quarantine c log)
    (hs : c.step cfg (.timeout later) = some (c', o)) (hn : closes log + 1 < 2 ^ 31) :
    Quarantine c' (log ++ o) := by
  obtain ⟨it, rest, s', hb, hd, hl, hw, hc, hperm, hcase⟩ := timeout_cases h hs
  have hit : it ∈ c.worker.timer.timerBuf := hb ▸ List.mem_cons_self
  have hrest : ∀ u ∈ rest, u ∈ c.worker.timer.timerBuf := fun u hu =>
    hb ▸ List.mem_cons_of_mem _ hu
  have hdue := h.due.step (fun t ht => by cases ht) hw
  have htable : ∃ os, Timer.Timetable os s' ∧ (Timer.added os).length ≤ closes log + 1 ∧
      ∀ t ∈ Timer.added os, t.tCount = -1 ∨ 1 ≤ t.tCount := by
    obtain ⟨ts, ht, hlen, hcount⟩ := h.table
    have hp : Timer.Promised (ts ++ [.fired it]) := by
      rw [Timer.Promised, Timer.added_concat_fired]
      exact ⟨hcount, by omega⟩
    exact ⟨_, ht.step (e := .checkTimer [] later) hp hc, by rwa [Timer.added_concat_fired],
      by rwa [Timer.added_concat_fired]⟩
  have hfm := hperm.filterMap TimerInfo.recycles
  have htimers := h.timers
  rw [hb] at htimers
  rcases hcase with ⟨hnone, hcount, rfl, rfl⟩ | ⟨a, t, os, ha, hcount, ht, rfl, rfl⟩
  · -- the heartbeat timer is armed again
    have hre : Timer.rearmed it later = [{ it with tData := later + it.tMsec }] := by
      simp [Timer.rearmed, hcount]
    have hmem : ∀ u ∈ s'.timerBuf, u = { it with tData := later + it.tMsec } ∨ u ∈ rest := by
      intro u hu
      simpa [hre] using hperm.mem_iff.mp hu
    have hnone' : TimerInfo.recycles { it with tData := later + it.tMsec } = none := hnone
    rw [List.append_nil]
    refine ⟨h.inv, hdue, htable, fun u hu => ?_, ?_, fun u hu a ha => ?_,
      fun a ha => (h.waited a ha).mono (by dsimp only; omega), h.rested⟩
    · rcases hmem u hu with rfl | hu
      · exact .inl ⟨hnone', hcount⟩
      · exact h.kind u (hrest u hu)
    · rw [hre, List.singleton_append, List.filterMap_cons_none hnone'] at hfm
      rw [List.filterMap_cons_none hnone] at htimers
      exact hfm.trans htimers
    · rcases hmem u hu with rfl | hu
      · rw [hnone'] at ha
        cases ha
      · exact h.ripe u (hrest u hu) a ha
  · -- a connection is recycled
    have hre : Timer.rearmed it later = [] := by
      simp [Timer.rearmed, hcount]
    rw [hre, List.nil_append] at hperm hfm
    rw [List.filterMap_cons_some ha] at htimers
    have hinv := CSocket.step_inv (i := .expire a) h.inv trivial ht
    simp only [CSocket.step] at ht
    split_ifs at ht with hmem
    cases ht
    have hkeep : ∀ {b lim lim'}, ClosedBy log b lim → lim ≤ lim' →
        ClosedBy (log ++ [(later, [])]) b lim' := fun hb hlim =>
      closedBy_keeps hb ⟨List.not_mem_nil, List.not_mem_nil⟩ hlim
    refine ⟨by simpa using hinv, hdue, ?_, fun u hu => ?_, ?_, fun u hu b hb => ?_,
      fun b hb => ?_, ?_⟩
    · obtain ⟨ts, htab, hlen, hc⟩ := htable
      exact ⟨ts, htab, by simpa [closes] using hlen, hc⟩
    · exact h.kind u (hrest u (hperm.mem_iff.mp hu))
    · refine hfm.trans ?_
      have := htimers.erase a
      rwa [List.erase_cons_head] at this
    · exact hkeep (h.ripe u (hrest u (hperm.mem_iff.mp hu)) b hb) le_rfl
    · rcases List.mem_append.mp hb with hb | hb
      · exact hkeep (h.waited b hb) (by dsimp only; omega)
      · rw [List.mem_singleton.mp hb]
        exact hkeep (h.ripe it hit a ha) (by dsimp only; omega)
    · exact h.rested.concat fun b hb => by cases hb

theorem mem_of_recycles (h : Quarantine c log) {u : TimerInfo TimerCall (Option Addr)} {a : Addr}
    (hu : u ∈ c.worker.timer.timerBuf) (ha : a ∈ u.recycles) : a ∈ c.sock.timerBuf :=
  h.timers.mem_iff.mp (List.mem_filterMap.mpr ⟨u, hu, ha⟩)

theorem Quarantine.quiet {t : CSocket} {os : List PoolEv} (h : Quarantine c log)
    (hinv : t.Inv (log.flatMap Prod.snd ++ os)) (ht : t.timerBuf = c.sock.timerBuf)
    (hr : ∀ a ∈ t.mRecyconnectionList, a ∈ c.sock.mRecyconnectionList)
    (hkeep : ∀ b ∈ c.sock.timerBuf ++ c.sock.mRecyconnectionList,
      PoolEv.get b ∉ os ∧ PoolEv.release b ∉ os)
    (hfree : ∀ a, .free a ∈ os → .release a ∈ os ∨ a ∈ c.sock.mRecyconnectionList) :
    Quarantine ⟨t, c.worker⟩ (log ++ [(c.worker.now, os)]) where
  inv := by simpa using hinv
  due := h.due
  table := by
    obtain ⟨ts, htab, hlen, hc⟩ := h.table
    exact ⟨ts, htab, by rw [closes_append]; omega, hc⟩
  kind := h.kind
  timers := by rw [ht]; exact h.timers
  ripe u hu a ha := closedBy_keeps (h.ripe u hu a ha)
    (hkeep a (List.mem_append_left _ (mem_of_recycles h hu ha))) le_rfl
  waited a ha := closedBy_keeps (h.waited a (hr a ha))
    (hkeep a (List.mem_append_right _ (hr a ha))) le_rfl
  rested := h.rested.concat fun a ha => (hfree a ha).imp_right fun ha => h.waited a ha

theorem Quarantine.later {t : CSocket} {i : CSocket.Step} {a : Addr} (h : Quarantine c log)
    (hn : closes log + 2 < 2 ^ 31) (hinv : t.Inv (log.flatMap Prod.snd ++ [.release a]))
    (ht : t.timerBuf = c.sock.timerBuf ++ [a])
    (hr : t.mRecyconnectionList = c.sock.mRecyconnectionList)
    (hkeep : ∀ b ∈ c.sock.timerBuf ++ c.sock.mRecyconnectionList,
      PoolEv.get b ∉ [PoolEv.release a] ∧ PoolEv.release b ∉ [PoolEv.release a]) :
    Quarantine ⟨t, { c.worker with timer := (c.worker.timer.addTimers (c.calls cfg i t)).1 }⟩
      (log ++ [(c.worker.now, [.release a])]) := by
  have hcalls : c.calls cfg i t =
      [⟨c.worker.now, delay cfg c.sock i, 1, .ngxTimeTofreeConnection, some a⟩] := by
    rw [calls, ht, List.drop_left]
    rfl
  rw [hcalls]
  have hdelay : 10000 ≤ delay cfg c.sock i ∧ delay cfg c.sock i < 2 ^ 31 := le_delay c.sock i
  obtain ⟨hle, hlt⟩ := hdelay
  generalize delay cfg c.sock i = d at hle hlt
  let call : AddCall TimerCall (Option Addr) :=
    ⟨c.worker.now, d, 1, .ngxTimeTofreeConnection, some a⟩
  change Quarantine ⟨t, { c.worker with timer := c.worker.timer.addTimer call }⟩ _
  have hmem : ∀ u ∈ (c.worker.timer.addTimer call).timerBuf,
      u = c.worker.timer.newInfo call ∨ u ∈ c.worker.timer.timerBuf := fun u hu =>
    OrdMultiset.mem_insert.mp hu
  have hlog : closes (log ++ [(c.worker.now, [PoolEv.release a])]) = closes log + 1 :=
    closes_append ..
  refine ⟨by simpa using hinv, ?_, ?_, fun u hu => ?_, ?_, fun u hu b hb => ?_, fun b hb => ?_, ?_⟩
  · refine h.due.step (e := .addTimer d 1 .ngxTimeTofreeConnection (some a))
      (fun u hu => ?_) rfl
    rw [List.mem_singleton.mp hu]
    exact ⟨by dsimp only [Timer.newInfo]; omega, hlt⟩
  · obtain ⟨ts, htab, hlen, hc⟩ := h.table
    have hadd : Timer.added (ts ++ [.added (c.worker.timer.newInfo call)]) =
        Timer.added ts ++ [c.worker.timer.newInfo call] := Timer.added_concat _
    have hp : Timer.Promised (ts ++ [.added (c.worker.timer.newInfo call)]) := by
      rw [Timer.Promised, hadd, List.length_append, List.length_singleton]
      refine ⟨fun u hu => ?_, by omega⟩
      rcases List.mem_append.mp hu with hu | hu
      · exact hc u hu
      · rw [List.mem_singleton.mp hu]
        exact .inr le_rfl
    refine ⟨_, htab.addPromised call hp, ?_, hp.1⟩
    rw [hadd, hlog, List.length_append, List.length_singleton]
    omega
  · rcases hmem u hu with rfl | hu
    · exact .inr ⟨⟨a, rfl⟩, rfl⟩
    · exact h.kind u hu
  · have hperm : (c.worker.timer.addTimer call).timerBuf.Perm
        (c.worker.timer.newInfo call :: c.worker.timer.timerBuf) := OrdMultiset.perm_insert
    rw [ht]
    have hrec : (c.worker.timer.newInfo call).recycles = some a := rfl
    refine (hperm.filterMap _).trans ?_
    rw [List.filterMap_cons_some hrec]
    exact (h.timers.cons a).trans (List.perm_append_singleton ..).symm
  · rcases hmem u hu with rfl | hu
    · obtain rfl : a = b := by
        cases hb
        rfl
      refine closedBy_concat List.mem_cons_self ?_
      dsimp only [Timer.newInfo, call]
      omega
    · exact closedBy_keeps (h.ripe u hu b hb)
        (hkeep b (List.mem_append_left _ (mem_of_recycles h hu hb))) le_rfl
  · rw [hr] at hb
    exact closedBy_keeps (h.waited b hb) (hkeep b (List.mem_append_right _ hb)) le_rfl
  · exact h.rested.concat fun b hb => by simp at hb

/-- A close of the step finds its connection registered. -/
def ClosesRegistered (cfg : Conf) (c : Clocked) : ClockStep → Prop
  | .sock i => c.sock.ClosesRegistered cfg i
  | _ => True

instance (cfg : Conf) (c : Clocked) : ∀ i, Decidable (c.ClosesRegistered cfg i)
  | .sock i => inferInstanceAs (Decidable (c.sock.ClosesRegistered cfg i))
  | .tick _ | .wait | .ready | .timeout _ => isTrue trivial

theorem Quarantine.sock {i : CSocket.Step} (h : Quarantine c log)
    (hg : c.sock.ClosesRegistered cfg i) (hn : closes (log ++ o) + 1 < 2 ^ 31)
    (hs : c.step cfg (.sock i) = some (c', o)) : Quarantine c' (log ++ o) := by
  have hi : ∀ a, i ≠ .expire a := by
    rintro a rfl
    cases hs
  have hs : (c.sock.step cfg i).map (fun q =>
      (⟨q.1, { c.worker with timer := (c.worker.timer.addTimers (c.calls cfg i q.1)).1 }⟩,
        [(c.worker.now, q.2)])) = some (c', o) := by
    cases i with
    | expire a => exact absurd rfl (hi a)
    | _ => exact hs
  obtain ⟨⟨t, os⟩, ht, he⟩ := Option.map_eq_some_iff.mp hs
  have hinv := CSocket.step_inv h.inv hg ht
  have hm := CSocket.step_motion hg ht
  have hkeep := fun b hb => hm.keeps (b := b) h.inv hb
  have hquiet : t.timerBuf = c.sock.timerBuf → c' = ⟨t, c.worker⟩ ∧ o = [(c.worker.now, os)] := by
    intro hl
    cases he
    rw [calls, hl, List.drop_length]
    exact ⟨rfl, rfl⟩
  have hdels : ∀ {a b : Addr} {dels : List PoolEv}, (∀ e ∈ dels, e = PoolEv.delete a) →
      PoolEv.free b ∉ dels := fun hd h => PoolEv.noConfusion (hd _ h)
  cases hm with
  | none hl =>
    obtain ⟨rfl, rfl⟩ := hquiet hl.1
    exact h.quiet hinv hl.1 (fun a ha => hl.2 ▸ ha) hkeep fun a ha => by cases ha
  | get a ha hl =>
    obtain ⟨rfl, rfl⟩ := hquiet hl.1
    exact h.quiet hinv hl.1 (fun a ha => hl.2 ▸ ha) hkeep fun b hb => by simp at hb
  | refuse a dels hd ha hl =>
    obtain ⟨rfl, rfl⟩ := hquiet hl.1
    refine h.quiet hinv hl.1 (fun a ha => hl.2 ▸ ha) hkeep fun b hb => .inl ?_
    obtain rfl : b = a := by simpa [hdels hd] using hb
    simp
  | release a ha hl hr =>
    cases he
    have hn : closes log + 2 < 2 ^ 31 := by
      rw [closes_append] at hn
      exact hn
    exact h.later hn hinv hl hr hkeep
  | drop a dels hd ha hl =>
    obtain ⟨rfl, rfl⟩ := hquiet hl.1
    refine h.quiet hinv hl.1 (fun a ha => hl.2 ▸ ha) hkeep fun b hb => .inl ?_
    obtain rfl : b = a := by simpa [hdels hd] using hb
    simp
  | expire a hexp => exact absurd hexp (hi a)
  | free a dels _ hd hl hr =>
    obtain ⟨rfl, rfl⟩ := hquiet hl
    refine h.quiet hinv hl (fun b hb => hr ▸ List.mem_cons_of_mem _ hb) hkeep fun b hb => .inr ?_
    obtain rfl : b = a := by simpa [hdels hd] using hb
    rw [hr]
    exact List.mem_cons_self

/-- **One step** keeps the connections under way for their time. -/
theorem Quarantine.step {i : ClockStep} (h : Quarantine c log) (hg : c.ClosesRegistered cfg i)
    (hn : closes (log ++ o) + 1 < 2 ^ 31) (hs : c.step cfg i = some (c', o)) :
    Quarantine c' (log ++ o) := by
  have hw : ∀ {e w os}, c.worker.step e = some (w, os) → (∀ t ∈ Timer.added os, False) →
      w.Due := fun hw ho => h.due.step (fun t ht => (ho t ht).elim) hw
  cases i with
  | tick d =>
    cases hs
    rw [List.append_nil]
    exact h.worker (hw (e := .tick d) rfl fun t ht => by cases ht) rfl (by dsimp only; omega)
  | wait =>
    obtain ⟨⟨w, os⟩, hstep, he⟩ := Option.map_eq_some_iff.mp hs
    cases he
    rw [List.append_nil]
    have hstep' := hstep
    simp only [Alarm.step] at hstep
    split_ifs at hstep
    cases hstep
    exact h.worker (hw hstep' fun t ht => by cases ht) rfl le_rfl
  | ready =>
    obtain ⟨⟨w, os⟩, hstep, he⟩ := Option.map_eq_some_iff.mp hs
    cases he
    rw [List.append_nil]
    have hstep' := hstep
    simp only [Alarm.step] at hstep
    split_ifs at hstep
    cases hstep
    exact h.worker (hw hstep' fun t ht => by cases ht) rfl le_rfl
  | timeout later =>
    refine h.timeout hs ?_
    rw [closes_append] at hn
    omega
  | sock i => exact h.sock hg hn hs

/-! ## Whole runs -/

theorem quarantine_ngxEpollInit {heap : Addr → Connection} {listen : List ℤ} {now : ℤ}
    (h : ngxEpollInit cfg heap listen now = some c) : Quarantine c [] := by
  obtain ⟨s, hs, rfl⟩ := Option.map_eq_some_iff.mp h
  let call : AddCall TimerCall (Option Addr) := ⟨now, 20000, -1, .ngxTimeTocheck, none⟩
  have hempty : s.timerBuf = [] ∧ s.mRecyconnectionList = [] := by
    obtain ⟨p, -, rfl⟩ := Option.map_eq_some_iff.mp hs
    exact ⟨rfl, rfl⟩
  have hdue : (Alarm.mk ((Timer.start TimerCall (Option Addr)).addTimer call) now none).Due := by
    refine (Alarm.due_start now).step (e := .addTimer 20000 (-1) .ngxTimeTocheck none)
      (fun u hu => ?_) rfl
    rw [List.mem_singleton.mp hu]
    simp [Timer.newInfo]
  refine ⟨CSocket.inv_ngxEpollInit hs, hdue, ?_, fun u hu => ?_, ?_, fun u hu a ha => ?_,
    fun a ha => ?_, rested_nil⟩
  · have hadd : Timer.added [TimerOut.added ((Timer.start TimerCall (Option Addr)).newInfo call)] =
        [(Timer.start TimerCall (Option Addr)).newInfo call] := rfl
    have hcount : ∀ t ∈ Timer.added [TimerOut.added ((Timer.start TimerCall (Option Addr)).newInfo
        call)], t.tCount = -1 ∨ 1 ≤ t.tCount := by
      intro t ht
      rw [hadd, List.mem_singleton] at ht
      rw [ht]
      exact .inl rfl
    refine ⟨_, Timer.timetable_start.addPromised call ⟨hcount, ?_⟩, le_rfl, hcount⟩
    rw [List.nil_append, hadd, List.length_singleton]
    omega
  · rw [List.mem_singleton.mp hu]
    exact .inl ⟨rfl, rfl⟩
  · rw [hempty.1]
    rfl
  · rw [List.mem_singleton.mp hu] at ha
    cases ha
  · rw [hempty.2] at ha
    cases ha

theorem quarantine_run {is : List ClockStep} {c₀ : Clocked} (h₀ : Quarantine c₀ [])
    (hg : Run.Guarded (step cfg) (ClosesRegistered cfg) c₀ is)
    (hr : Run.run (step cfg) c₀ is = some (c, log)) (hn : closes log + 1 < 2 ^ 31) :
    Quarantine c log := by
  let R (_ : List ClockStep) (log : List (ℤ × List PoolEv)) (c : Clocked) : Prop :=
    closes log + 1 < 2 ^ 31 → Quarantine c log
  have h : R ([] ++ is) ([] ++ log) c := by
    refine Run.run_induct ?_ (fun _ => h₀ : R [] [] c₀) hg hr
    intro is log c i c' o hR hg hs hn
    refine (hR ?_).step hg hn hs
    rw [closes_append] at hn
    omega
  exact h hn

/-- **No timeout is lost**: where `epoll_wait` has timed out, the callback of the first timer finds
its connection. -/
theorem timeout_isSome (h : Quarantine c log) (ht : c.worker.TimedOut) {later : ℤ}
    (hl : c.worker.now ≤ later) : (c.step cfg (.timeout later)).isSome := by
  obtain ⟨it, rest, hb, -⟩ := Alarm.due_of_timeout h.due ht
  have hit : it ∈ c.worker.timer.timerBuf := hb ▸ List.mem_cons_self
  obtain ⟨ts, htab, -, -⟩ := h.table
  have hcheck := Timer.checkTimer_cons hb (htab.known it hit).2 [] later
  have hfired : ([TimerOut.fired it] : List (TimerOut TimerCall (Option Addr))) =
      (c.worker.timer.addTimers []).2 ++ [.fired it] := rfl
  have hw : c.worker.TimedOut ∧ c.worker.Later [] later := ⟨ht, hl, fun d hd => by cases hd⟩
  simp only [step, Alarm.step, if_pos hw, hcheck, Option.map_some, Option.bind_some]
  rw [← hfired]
  rcases h.kind it hit with ⟨hnone, -⟩ | ⟨⟨a, ha⟩, -⟩
  · simp [Timer.fired, hnone]
  · have hmem : a ∈ c.sock.timerBuf := mem_of_recycles h hit ha
    simp [Timer.fired, ha, CSocket.step, hmem]

/-- **Closed slots rest.** In every run from `ngx_epoll_init` on whose closes find their connection
registered, with fewer than 2^31 - 1 closes, a slot goes back to the free list in the step that
closes its connection (a read error, or an accept that epoll refuses), or at least 10 s after the
last close; and where `epoll_wait` has timed out, the callback finds its connection. Each
`AddTimer` is one step, whichever thread makes it. -/
theorem rested_run (cfg : Conf) (heap : Addr → Connection) (listen : List ℤ) (now : ℤ)
    (c₀ c : Clocked) (is : List ClockStep) (log : List (ℤ × List PoolEv))
    (h₀ : ngxEpollInit cfg heap listen now = some c₀)
    (hg : Run.Guarded (step cfg) (ClosesRegistered cfg) c₀ is)
    (hr : Run.run (step cfg) c₀ is = some (c, log)) (hn : closes log + 1 < 2 ^ 31) :
    Rested log ∧ (c.worker.TimedOut → ∀ later, c.worker.now ≤ later →
      (c.step cfg (.timeout later)).isSome) := by
  have h := quarantine_run (quarantine_ngxEpollInit h₀) hg hr hn
  exact ⟨h.rested, fun ht later hl => timeout_isSome h ht hl⟩

/-- A peer that closes, and the slot back in the free list 10 s later. -/
theorem rested_close :
    ∃ (c₀ c : Clocked) (log : List (ℤ × List PoolEv)),
      ngxEpollInit ⟨4, .etClose, 0, 100, 10⟩ (fun _ => .zero) [3] 0 = some c₀ ∧
      Run.run (step ⟨4, .etClose, 0, 100, 10⟩) c₀ [.sock (.accept 5 0 true),
        .sock (.wait [⟨0, 1⟩]), .sock (.read ⟨0, 1⟩ .zero), .wait, .tick 10000, .timeout 10000,
        .sock .timerFree, .sock (.accept 5 10 true)] = some (c, log) ∧
      (10000, [.free ⟨0, 1⟩, .delete ⟨0, 1⟩]) ∈ log ∧ Rested log := by
  obtain ⟨⟨c, log⟩, hr, h⟩ := Run.exists_of_any
    (x := Run.run (step ⟨4, .etClose, 0, 100, 10⟩)
      ((ngxEpollInit ⟨4, .etClose, 0, 100, 10⟩ (fun _ => .zero) [3] 0).get (by decide +kernel))
      [.sock (.accept 5 0 true), .sock (.wait [⟨0, 1⟩]), .sock (.read ⟨0, 1⟩ .zero), .wait,
        .tick 10000, .timeout 10000, .sock .timerFree, .sock (.accept 5 10 true)])
    (f := fun r => decide ((10000, [.free ⟨0, 1⟩, .delete ⟨0, 1⟩]) ∈ r.2 ∧
      closes r.2 + 1 < 2 ^ 31)) (by decide +kernel)
  obtain ⟨hm, hn⟩ := of_decide_eq_true h
  exact ⟨_, c, log, (Option.some_get _).symm, hr, hm, (rested_run _ _ _ _ _ _ _ _
    (Option.some_get _).symm (by decide +kernel) hr hn).1⟩

end Clocked

end ServerNginx
