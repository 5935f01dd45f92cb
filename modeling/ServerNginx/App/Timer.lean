import ServerNginx.Lib.CNumber
import ServerNginx.Lib.Multiset
import ServerNginx.Lib.Run

set_option autoImplicit false

/-!
# The timer

`Timer` with its multiset of entries. A callback may call `AddTimer`; the calls it makes, with the
times `GetTime` returns to them, are given with the call of `CheckTimer`.

* `Timer.addTimer`, `delTimer`, `setTime`, `checkTimer`: the functions;
* `Timer.Timetable`: the entries against the timers added and the callbacks run so far;
* **`timers_fire`**: each `CheckTimer` runs the callback of the least entry, and an entry has as
  many firings left as its timer.
-/

namespace ServerNginx

structure TimerInfo (F A : Type) where
  tMsec : ℤ
  /-- the deadline -/
  tData : ℤ
  tFunc : F
  tId : ℤ
  tCount : ℤ
  tArg : A
  deriving DecidableEq

/-- A call of `AddTimer`, with what `GetTime` returns in it. -/
structure AddCall (F A : Type) where
  now : ℤ
  msec : ℤ
  count : ℤ
  func : F
  arg : A

structure Timer (F A : Type) where
  timerBuf : List (TimerInfo F A)
  id : ℤ

/-- What happens to the timer. -/
inductive TimerStep (F A : Type)
  | addTimer (c : AddCall F A)
  /-- `CheckTimer`: the calls of `AddTimer` its callback makes, and `GetTime` afterwards -/
  | checkTimer (calls : List (AddCall F A)) (now : ℤ)

/-- What is to be seen of a step. -/
inductive TimerOut (F A : Type)
  | added (t : TimerInfo F A)
  /-- the callback of the entry has run -/
  | fired (t : TimerInfo F A)
  deriving DecidableEq

variable {F A : Type}

/-- `operator<` -/
def TimerInfo.lt (t1 t2 : TimerInfo F A) : Bool :=
  if t1.tData < t2.tData then true
  else if t2.tData < t1.tData then false
  else if t1.tId < t2.tId then true else false

namespace Timer

/-- The process starts without timers. -/
def start (F A : Type) : Timer F A := ⟨[], 0⟩

variable (s : Timer F A)

/-- The entry of a new timer. -/
def newInfo (c : AddCall F A) : TimerInfo F A where
  tMsec := c.msec
  tData := c.now + c.msec
  tFunc := c.func
  tId := s.id
  tCount := c.count
  tArg := c.arg

/-- `Timer::AddTimer(TimerInfo)` -/
def addInfo (t : TimerInfo F A) : Timer F A :=
  { s with timerBuf := OrdMultiset.insert TimerInfo.lt t s.timerBuf }

/-- `Timer::AddTimer(time_t, int, callback&&, void*)` -/
def addTimer (c : AddCall F A) : Timer F A :=
  { s.addInfo (s.newInfo c) with id := CNumber.int32 (s.id + 1) }

def delTimer (t : TimerInfo F A) : Timer F A :=
  { s with timerBuf := OrdMultiset.erase TimerInfo.lt t s.timerBuf }

/-- `Timer::SetTime`, where `GetTime` returns `now`. -/
def setTime (now : ℤ) : ℤ :=
  match s.timerBuf with
  | [] => -1
  | it :: _ =>
    let diss := it.tData - now
    if 0 < diss then diss else 0

/-- The calls of `AddTimer` a callback makes. -/
def addTimers (s : Timer F A) : List (AddCall F A) → Timer F A × List (TimerOut F A)
  | [] => (s, [])
  | c :: cs =>
    let r := (s.addTimer c).addTimers cs
    (r.1, .added (s.newInfo c) :: r.2)

/-- `Timer::CheckTimer`; with no entry it reads behind the end of the multiset. -/
def checkTimer (calls : List (AddCall F A)) (now : ℤ) :
    Option (Timer F A × List (TimerOut F A)) :=
  match s.timerBuf with
  | [] => none
  | it :: _ =>
    let r := s.addTimers calls
    if it.tCount = 1 then some (r.1.delTimer it, r.2 ++ [.fired it])
    else if 1 < it.tCount then
      let t := { it with tData := now + it.tMsec, tCount := it.tCount - 1 }
      some ((r.1.delTimer it).addInfo t, r.2 ++ [.fired it])
    else if it.tCount = -1 then
      let t := { it with tData := now + it.tMsec }
      some ((r.1.delTimer it).addInfo t, r.2 ++ [.fired it])
    else some (s, [])

def step : TimerStep F A → Option (Timer F A × List (TimerOut F A))
  | .addTimer c => some (s.addTimer c, [.added (s.newInfo c)])
  | .checkTimer calls now => s.checkTimer calls now

/-! ## What the outputs say -/

/-- The timers added. -/
def added (os : List (TimerOut F A)) : List (TimerInfo F A) :=
  os.filterMap fun
    | .added t => some t
    | .fired _ => none

/-- The entries whose callbacks have run. -/
def fired (os : List (TimerOut F A)) : List (TimerInfo F A) :=
  os.filterMap fun
    | .added _ => none
    | .fired t => some t

/-- How often timer `i` has fired. -/
def firings (i : ℤ) (os : List (TimerOut F A)) : ℕ := (fired os).countP fun t => t.tId = i

/-- The entries of timer `i`. -/
def entries (i : ℤ) : List (TimerInfo F A) := s.timerBuf.filter fun t => t.tId = i

/-- What is left of timer `t` after `k` firings, with deadline `d`. -/
def remaining (t : TimerInfo F A) (k : ℕ) (d : ℤ) : List (TimerInfo F A) :=
  if t.tCount = -1 then [{ t with tData := d }]
  else if k < t.tCount then [{ t with tData := d, tCount := t.tCount - k }]
  else []

/-- The entries against the timers added and the callbacks run. -/
structure Timetable (os : List (TimerOut F A)) (s : Timer F A) : Prop where
  sorted : OrdMultiset.Sorted TimerInfo.lt s.timerBuf
  nodup : (s.timerBuf.map TimerInfo.tId).Nodup
  id : s.id = (added os).length
  known : ∀ t ∈ s.timerBuf, t.tId < s.id ∧ (t.tCount = -1 ∨ 1 ≤ t.tCount)
  before : ∀ t, t ∈ added os ∨ t ∈ fired os → t.tId < s.id
  entry : ∀ t ∈ added os, ∃ d, s.entries t.tId = remaining t (firings t.tId os) d
  enough : ∀ t ∈ added os, t.tCount = -1 ∨ firings t.tId os ≤ t.tCount

variable {s} {s' : Timer F A} {os o : List (TimerOut F A)}

theorem timetable_start : Timetable [] (start F A) where
  sorted := List.Pairwise.nil
  nodup := List.nodup_nil
  id := rfl
  known t h := by cases h
  before t h := by simp [added, fired] at h
  entry t h := by cases h
  enough t h := by cases h

/-! ## The order of the entries -/

theorem lt_irrefl (t : TimerInfo F A) : t.lt t = false := by
  simp [TimerInfo.lt]

theorem lt_iff (t u : TimerInfo F A) :
    t.lt u = true ↔ t.tData < u.tData ∨ t.tData = u.tData ∧ t.tId < u.tId := by
  unfold TimerInfo.lt
  split_ifs with h1 h2 h3
  · simp [h1]
  · simp only [false_iff]
    omega
  · simp only [true_iff]
    omega
  · simp only [false_iff]
    omega

theorem lt_trans (t u v : TimerInfo F A) (h : t.lt u = true) (h' : u.lt v = true) :
    t.lt v = true := by
  rw [lt_iff] at *
  omega

theorem lt_or_lt {t u : TimerInfo F A} (h : u.tId ≠ t.tId) : t.lt u = true ∨ u.lt t = true := by
  rw [lt_iff, lt_iff]
  omega

/-! ## Adding -/

theorem perm_remaining {l : List (TimerInfo F A)} {t : TimerInfo F A} {k : ℕ} {d : ℤ}
    (h : l.Perm (remaining t k d)) : l = remaining t k d := by
  unfold remaining at h ⊢
  split_ifs at h ⊢ with h1 h2
  · exact List.perm_singleton.mp h
  · exact List.perm_singleton.mp h
  · exact List.perm_nil.mp h

theorem remaining_zero {t : TimerInfo F A} (h : t.tCount = -1 ∨ 1 ≤ t.tCount) :
    remaining t 0 t.tData = [t] := by
  unfold remaining
  by_cases h1 : t.tCount = -1
  · rw [if_pos h1]
  · have : ((0 : ℕ) : ℤ) < t.tCount := by
      push_cast
      omega
    rw [if_neg h1, if_pos this]
    simp

theorem firings_eq_zero {i : ℤ} (h : ∀ t ∈ fired os, t.tId < i) : firings i os = 0 := by
  refine List.countP_eq_zero.mpr fun t ht => ?_
  have := h t ht
  simp only [decide_eq_true_eq]
  omega

theorem added_concat (t : TimerInfo F A) : added (os ++ [.added t]) = added os ++ [t] := by
  simp [added, List.filterMap_append]

theorem fired_concat_added (t : TimerInfo F A) : fired (os ++ [.added t]) = fired os := by
  simp [fired, List.filterMap_append]

theorem added_concat_fired (t : TimerInfo F A) : added (os ++ [.fired t]) = added os := by
  simp [added, List.filterMap_append]

theorem fired_concat (t : TimerInfo F A) : fired (os ++ [.fired t]) = fired os ++ [t] := by
  simp [fired, List.filterMap_append]

theorem Timetable.add (h : Timetable os s) (c : AddCall F A) (hc : c.count = -1 ∨ 1 ≤ c.count)
    (hn : s.id + 1 < 2 ^ 31) :
    Timetable (os ++ [.added (s.newInfo c)]) (s.addTimer c) := by
  have hp : (s.addTimer c).timerBuf.Perm (s.newInfo c :: s.timerBuf) := OrdMultiset.perm_insert
  have hid : (s.addTimer c).id = s.id + 1 := by
    have := h.id
    exact CNumber.int32_of_lt (by omega) hn
  have fresh : ∀ t ∈ s.timerBuf, t.tId ≠ s.id := fun t ht => (h.known t ht).1.ne
  have same : ∀ i, firings i (os ++ [.added (s.newInfo c)]) = firings i os := fun i => by
    rw [firings, fired_concat_added, firings]
  have none : firings s.id os = 0 := firings_eq_zero fun t ht => h.before t (.inr ht)
  refine ⟨?_, ?_, ?_, ?_, ?_, ?_, ?_⟩
  · exact OrdMultiset.sorted_insert lt_irrefl lt_trans h.sorted
  · rw [(hp.map _).nodup_iff]
    refine List.nodup_cons.mpr ⟨fun hm => ?_, h.nodup⟩
    obtain ⟨t, ht, he⟩ := List.mem_map.mp hm
    exact fresh t ht he
  · rw [hid, added_concat, h.id]
    simp
  · intro t ht
    rw [hid]
    rcases List.mem_cons.mp (hp.mem_iff.mp ht) with rfl | ht
    · exact ⟨lt_add_one s.id, hc⟩
    · exact ⟨(h.known t ht).1.trans (lt_add_one s.id), (h.known t ht).2⟩
  · intro t ht
    rw [added_concat, fired_concat_added, List.mem_append, List.mem_singleton] at ht
    rw [hid]
    obtain (ht | rfl) | ht := ht
    · exact (h.before t (.inl ht)).trans (lt_add_one s.id)
    · exact lt_add_one s.id
    · exact (h.before t (.inr ht)).trans (lt_add_one s.id)
  · intro t ht
    rw [added_concat, List.mem_append, List.mem_singleton] at ht
    rw [same]
    have hf := hp.filter fun u => u.tId = t.tId
    rcases ht with ht | rfl
    · obtain ⟨d, hd⟩ := h.entry t ht
      have hne : s.id ≠ t.tId := (h.before t (.inl ht)).ne'
      rw [List.filter_cons_of_neg (by simp only [newInfo, hne]; decide)] at hf
      rw [entries] at hd
      rw [hd] at hf
      exact ⟨d, perm_remaining hf⟩
    · have hnil : s.timerBuf.filter (fun u => u.tId = (s.newInfo c).tId) = [] :=
        List.filter_eq_nil_iff.mpr fun u hu => by
          simp only [newInfo, fresh u hu]
          decide
      rw [List.filter_cons_of_pos (by simp), hnil, ← remaining_zero hc] at hf
      refine ⟨(s.newInfo c).tData, ?_⟩
      rw [show firings (s.newInfo c).tId os = 0 from none]
      exact perm_remaining hf
  · intro t ht
    rw [added_concat, List.mem_append, List.mem_singleton] at ht
    rw [same]
    rcases ht with ht | rfl
    · exact h.enough t ht
    · show c.count = -1 ∨ (firings s.id os : ℤ) ≤ c.count
      rw [none]
      omega

/-! ## Firing -/

/-- What `CheckTimer` puts in the place of the entry it fires. -/
def rearmed (it : TimerInfo F A) (now : ℤ) : List (TimerInfo F A) :=
  if it.tCount = 1 then []
  else if 1 < it.tCount then [{ it with tData := now + it.tMsec, tCount := it.tCount - 1 }]
  else [{ it with tData := now + it.tMsec }]

theorem rearmed_of_remaining {t it : TimerInfo F A} {k : ℕ} {d : ℤ} (now : ℤ)
    (h : remaining t k d = [it]) :
    rearmed it now = remaining t (k + 1) (now + t.tMsec) ∧
      (t.tCount = -1 ∨ (k + 1 : ℕ) ≤ t.tCount) := by
  unfold remaining at h ⊢
  split_ifs at h with h1 h2
  · cases h
    simp [rearmed, h1]
  · cases h
    rw [if_neg h1]
    push_cast
    by_cases h3 : t.tCount - k = 1
    · have h4 : ¬ (k : ℤ) + 1 < t.tCount := by omega
      exact ⟨by simp [rearmed, h3, h4], .inr (by omega)⟩
    · have h4 : (k : ℤ) + 1 < t.tCount := by omega
      have h5 : 1 < t.tCount - k := by omega
      refine ⟨?_, .inr h4.le⟩
      simp only [rearmed, h3, h4, h5, if_true, if_false]
      simp only [List.cons.injEq, TimerInfo.mk.injEq, true_and, and_true]
      omega

theorem rearmed_cases (it : TimerInfo F A) (now : ℤ) :
    rearmed it now = [] ∨ ∃ u, rearmed it now = [u] ∧ u.tId = it.tId := by
  unfold rearmed
  split_ifs
  · exact .inl rfl
  · exact .inr ⟨_, rfl, rfl⟩
  · exact .inr ⟨_, rfl, rfl⟩

theorem tId_rearmed {it : TimerInfo F A} {now : ℤ} : ∀ u ∈ rearmed it now, u.tId = it.tId := by
  intro u hu
  obtain h | ⟨v, h, hv⟩ := rearmed_cases it now
  · simp [h] at hu
  · rw [h, List.mem_singleton] at hu
    rw [hu, hv]

theorem count_rearmed {it : TimerInfo F A} {now : ℤ} (h : it.tCount = -1 ∨ 1 ≤ it.tCount) :
    ∀ u ∈ rearmed it now, u.tCount = -1 ∨ 1 ≤ u.tCount := by
  intro u hu
  unfold rearmed at hu
  split_ifs at hu with h1 h2
  · cases hu
  · rw [List.mem_singleton.mp hu]
    exact .inr (by dsimp only; omega)
  · rw [List.mem_singleton.mp hu]
    exact h

/-- **A firing.** The entry's callback has run, and what is left of it takes its place. -/
theorem Timetable.fire (h : Timetable os s) {it : TimerInfo F A} {rest : List (TimerInfo F A)}
    {now : ℤ} (hp : s.timerBuf.Perm (it :: rest)) (hid : s'.id = s.id)
    (hs : OrdMultiset.Sorted TimerInfo.lt s'.timerBuf)
    (hp' : s'.timerBuf.Perm (rearmed it now ++ rest)) : Timetable (os ++ [.fired it]) s' := by
  have hit : it ∈ s.timerBuf := hp.mem_iff.mpr List.mem_cons_self
  have hk := h.known it hit
  have hnd : (it.tId :: rest.map TimerInfo.tId).Nodup := (hp.map _).nodup_iff.mp h.nodup
  have others : ∀ u ∈ rest, u.tId ≠ it.tId := fun u hu he =>
    (List.nodup_cons.mp hnd).1 (he ▸ List.mem_map_of_mem hu)
  have same : added (os ++ [.fired it]) = added os := added_concat_fired it
  have count : ∀ i, firings i (os ++ [.fired it]) = firings i os + if it.tId = i then 1 else 0 := by
    intro i
    simp only [firings, fired_concat, List.countP_append, List.countP_singleton,
      decide_eq_true_eq]
  have key : ∀ t ∈ added os, it.tId = t.tId → ∃ d, remaining t (firings t.tId os) d = [it] := by
    intro t ht he
    obtain ⟨d, hd⟩ := h.entry t ht
    have hf := hp.filter fun u => u.tId = t.tId
    have hnil : rest.filter (fun u => u.tId = t.tId) = [] :=
      List.filter_eq_nil_iff.mpr fun u hu => by simpa [← he] using others u hu
    rw [List.filter_cons_of_pos (by simpa using he), hnil] at hf
    exact ⟨d, by rw [← hd, entries]; exact List.perm_singleton.mp hf⟩
  refine ⟨hs, ?_, ?_, ?_, ?_, ?_, ?_⟩
  · rw [(hp'.map _).nodup_iff, List.map_append]
    obtain hr | ⟨u, hr, hu⟩ := rearmed_cases it now
    · rw [hr]
      exact (List.nodup_cons.mp hnd).2
    · rw [hr, List.map_singleton, hu]
      exact hnd
  · rw [hid, same, h.id]
  · intro t ht
    rw [hid]
    rcases List.mem_append.mp (hp'.mem_iff.mp ht) with ht | ht
    · exact ⟨tId_rearmed t ht ▸ hk.1, count_rearmed hk.2 t ht⟩
    · exact h.known t (hp.mem_iff.mpr (List.mem_cons_of_mem _ ht))
  · intro t ht
    rw [same, fired_concat, List.mem_append, List.mem_singleton] at ht
    rw [hid]
    obtain ht | ht | rfl := ht
    · exact h.before t (.inl ht)
    · exact h.before t (.inr ht)
    · exact hk.1
  · intro t ht
    rw [same] at ht
    have hf' := hp'.filter fun u => u.tId = t.tId
    rw [List.filter_append] at hf'
    rw [count]
    by_cases he : it.tId = t.tId
    · obtain ⟨d, hd⟩ := key t ht he
      have hnil : rest.filter (fun u => u.tId = t.tId) = [] :=
        List.filter_eq_nil_iff.mpr fun u hu => by simpa [← he] using others u hu
      have hall : (rearmed it now).filter (fun u => u.tId = t.tId) = rearmed it now :=
        List.filter_eq_self.mpr fun u hu => by simpa [← he] using tId_rearmed u hu
      rw [hnil, hall, List.append_nil, (rearmed_of_remaining now hd).1] at hf'
      rw [if_pos he]
      exact ⟨_, perm_remaining hf'⟩
    · obtain ⟨d, hd⟩ := h.entry t ht
      have hf := hp.filter fun u => u.tId = t.tId
      have hnil : (rearmed it now).filter (fun u => u.tId = t.tId) = [] :=
        List.filter_eq_nil_iff.mpr fun u hu => by simpa [tId_rearmed u hu] using he
      rw [List.filter_cons_of_neg (by simpa using he)] at hf
      rw [hnil, List.nil_append] at hf'
      rw [entries] at hd
      rw [if_neg he, Nat.add_zero]
      exact ⟨d, perm_remaining (hd ▸ hf'.trans hf.symm)⟩
  · intro t ht
    rw [same] at ht
    rw [count]
    by_cases he : it.tId = t.tId
    · obtain ⟨d, hd⟩ := key t ht he
      rw [if_pos he]
      exact (rearmed_of_remaining now hd).2
    · rw [if_neg he, Nat.add_zero]
      exact h.enough t ht

/-! ## Whole runs -/

/-- The counts the callers of `AddTimer` ask for, and how many calls there are. -/
def Promised (os : List (TimerOut F A)) : Prop :=
  (∀ t ∈ added os, t.tCount = -1 ∨ 1 ≤ t.tCount) ∧ (added os).length < 2 ^ 31

instance (os : List (TimerOut F A)) : Decidable (Promised os) := inferInstanceAs (Decidable (_ ∧ _))

theorem Promised.left {os' : List (TimerOut F A)} (h : Promised (os ++ os')) : Promised os := by
  have ha : added (os ++ os') = added os ++ added os' := List.filterMap_append
  obtain ⟨hc, hn⟩ := h
  rw [ha] at hc hn
  rw [List.length_append] at hn
  exact ⟨fun t ht => hc t (List.mem_append_left _ ht), by omega⟩

theorem Timetable.addPromised (h : Timetable os s) (c : AddCall F A)
    (hp : Promised (os ++ [.added (s.newInfo c)])) :
    Timetable (os ++ [.added (s.newInfo c)]) (s.addTimer c) := by
  have hid := h.id
  obtain ⟨hc, hn⟩ := hp
  rw [added_concat] at hc hn
  rw [List.length_append, List.length_singleton] at hn
  exact h.add c (hc (s.newInfo c) (by simp)) (by omega)

theorem Timetable.addTimers {cs : List (AddCall F A)} (h : Timetable os s)
    (hp : Promised (os ++ (s.addTimers cs).2)) :
    Timetable (os ++ (s.addTimers cs).2) (s.addTimers cs).1 ∧
      ∀ t ∈ s.timerBuf, t ∈ (s.addTimers cs).1.timerBuf := by
  induction cs generalizing s os with
  | nil => exact ⟨by simpa [Timer.addTimers] using h, fun t ht => ht⟩
  | cons c cs ih =>
    simp only [Timer.addTimers] at hp ⊢
    rw [List.append_cons] at hp ⊢
    obtain ⟨ha, hm⟩ := ih (h.addPromised c hp.left) hp
    exact ⟨ha, fun t ht => hm t (OrdMultiset.mem_insert.mpr (.inr ht))⟩

theorem fired_addTimers (cs : List (AddCall F A)) : fired (s.addTimers cs).2 = [] := by
  induction cs generalizing s with
  | nil => rfl
  | cons c cs ih => exact ih

theorem checkTimer_cons {it : TimerInfo F A} {rest : List (TimerInfo F A)}
    (hb : s.timerBuf = it :: rest) (hc : it.tCount = -1 ∨ 1 ≤ it.tCount)
    (calls : List (AddCall F A)) (now : ℤ) :
    s.checkTimer calls now = some
      (⟨(rearmed it now).foldr (OrdMultiset.insert TimerInfo.lt)
        (OrdMultiset.erase TimerInfo.lt it (s.addTimers calls).1.timerBuf),
        (s.addTimers calls).1.id⟩, (s.addTimers calls).2 ++ [.fired it]) := by
  simp only [checkTimer, hb, rearmed]
  by_cases h1 : it.tCount = 1
  · simp only [h1, if_true]
    rfl
  · by_cases h2 : 1 < it.tCount
    · simp only [h1, h2, if_true, if_false]
      rfl
    · have h3 : it.tCount = -1 := by omega
      simp only [h3]
      rfl

theorem Timetable.check (h : Timetable os s) {it : TimerInfo F A}
    {rest : List (TimerInfo F A)} (hb : s.timerBuf = it :: rest) {calls : List (AddCall F A)}
    {now : ℤ} (hp : Promised (os ++ (s.addTimers calls).2))
    (hs : s.checkTimer calls now = some (s', o)) : Timetable (os ++ o) s' := by
  obtain ⟨ha, hm⟩ := h.addTimers hp
  have hit : it ∈ s.timerBuf := hb ▸ List.mem_cons_self
  rw [checkTimer_cons hb (h.known it hit).2] at hs
  cases hs
  rw [← List.append_assoc]
  obtain ⟨l₁, l₂, hl⟩ := List.append_of_mem (hm it hit)
  have hperm : (s.addTimers calls).1.timerBuf.Perm (it :: (l₁ ++ l₂)) :=
    hl ▸ List.perm_middle
  have hnd : (it.tId :: (l₁ ++ l₂).map TimerInfo.tId).Nodup :=
    (hperm.map _).nodup_iff.mp ha.nodup
  have hrest : (OrdMultiset.erase TimerInfo.lt it (s.addTimers calls).1.timerBuf).Perm
      (l₁ ++ l₂) := by
    refine OrdMultiset.perm_erase lt_irrefl hperm fun u hu => lt_or_lt fun he => ?_
    exact (List.nodup_cons.mp hnd).1 (he ▸ List.mem_map_of_mem hu)
  refine ha.fire hperm rfl ?_ ((OrdMultiset.perm_insert_all _).trans (hrest.append_left _))
  exact OrdMultiset.sorted_insert_all lt_irrefl lt_trans (OrdMultiset.sorted_erase ha.sorted) _

theorem Timetable.step {e : TimerStep F A} (h : Timetable os s) (hp : Promised (os ++ o))
    (hs : s.step e = some (s', o)) : Timetable (os ++ o) s' := by
  cases e with
  | addTimer c =>
    cases hs
    exact h.addPromised c hp
  | checkTimer calls now =>
    have hs : s.checkTimer calls now = some (s', o) := hs
    cases hb : s.timerBuf with
    | nil => simp [checkTimer, hb] at hs
    | cons it rest =>
      have hit : it ∈ s.timerBuf := hb ▸ List.mem_cons_self
      refine h.check hb ?_ hs
      rw [checkTimer_cons hb (h.known it hit).2] at hs
      cases hs
      rw [← List.append_assoc] at hp
      exact hp.left

theorem timetable_run {es : List (TimerStep F A)} (hr : Run.run step (start F A) es = some (s, os))
    (hp : Promised os) : Timetable os s := by
  let R (_ : List (TimerStep F A)) (os : List (TimerOut F A)) (s : Timer F A) : Prop :=
    Promised os → Timetable os s
  have h₀ : R [] [] (start F A) := fun _ => timetable_start
  have h : R ([] ++ es) ([] ++ os) s := by
    refine Run.run_induct ?_ h₀ (Run.guarded_true _ es) hr
    intro is os s e s' o hR _ hs hp
    exact (hR hp.left).step hp hs
  exact h hp

/-- **Timers fire the right number of times in deadline order.** After any calls of `AddTimer`,
with a count of -1 or from 1, fewer than 2^31, those of callbacks included, and of `CheckTimer`:
the ids of the entries differ; `CheckTimer` runs one callback, that of the entry with the least
deadline, by id among equal ones; a timer added with count `n` has one entry, with `n - k` firings
left, after `k < n` firings, and none after `n`; one added with count -1 has one entry. -/
theorem timers_fire (es : List (TimerStep F A)) (s : Timer F A) (os : List (TimerOut F A))
    (hr : Run.run step (start F A) es = some (s, os))
    (hc : ∀ t ∈ added os, t.tCount = -1 ∨ 1 ≤ t.tCount) (hn : (added os).length < 2 ^ 31) :
    (s.timerBuf.map TimerInfo.tId).Nodup ∧
    (s.timerBuf ≠ [] → ∀ calls now, ∃ it ∈ s.timerBuf,
      (∀ u ∈ s.timerBuf, u ≠ it → it.tData < u.tData ∨ it.tData = u.tData ∧ it.tId < u.tId) ∧
      ∃ s' o, s.step (.checkTimer calls now) = some (s', o) ∧ fired o = [it]) ∧
    ∀ t ∈ added os,
      (t.tCount = -1 → ∃ d, s.entries t.tId = [{ t with tData := d }]) ∧
      (1 ≤ t.tCount → firings t.tId os ≤ t.tCount ∧
        (firings t.tId os < t.tCount → ∃ d, s.entries t.tId =
          [{ t with tData := d, tCount := t.tCount - firings t.tId os }]) ∧
        (firings t.tId os = t.tCount → s.entries t.tId = [])) := by
  have h := timetable_run hr ⟨hc, hn⟩
  refine ⟨h.nodup, fun hne calls now => ?_, fun t ht => ?_⟩
  · obtain ⟨it, rest, hb⟩ := List.exists_cons_of_ne_nil hne
    have hit : it ∈ s.timerBuf := hb ▸ List.mem_cons_self
    refine ⟨it, hit, fun u hu hui => ?_, _, _, checkTimer_cons hb (h.known it hit).2 calls now, ?_⟩
    · have hle : u.lt it = false :=
        OrdMultiset.least_of_sorted lt_irrefl (hb ▸ h.sorted) u (hb ▸ hu)
      have hid : u.tId ≠ it.tId := fun he => hui (List.inj_on_of_nodup_map h.nodup hu hit he)
      exact (lt_iff it u).mp ((lt_or_lt hid).resolve_right (by simp [hle]))
    · rw [fired, List.filterMap_append]
      exact congrArg (· ++ [it]) (fired_addTimers calls)
  · obtain ⟨d, hd⟩ := h.entry t ht
    refine ⟨fun h1 => ⟨d, ?_⟩, fun h1 => ⟨?_, fun hk => ⟨d, ?_⟩, fun hk => ?_⟩⟩
    · rw [hd, remaining, if_pos h1]
    · have := h.enough t ht
      omega
    · rw [hd, remaining, if_neg (by omega), if_pos hk]
    · rw [hd, remaining, if_neg (by omega), if_neg (by omega)]

/-- A timer of count 2 and one of count -1; the callback of the latter adds a third one. -/
theorem timers_fire_run :
    ∃ (es : List (TimerStep Unit Unit)) (s : Timer Unit Unit) (os : List (TimerOut Unit Unit)),
      Run.run step (start Unit Unit) es = some (s, os) ∧ (s.timerBuf.map TimerInfo.tId).Nodup ∧
      s.timerBuf.length = 3 ∧ firings 0 os = 1 ∧
      ∃ d, s.entries 0 = [⟨10, d, (), 0, 1, ()⟩] := by
  obtain ⟨⟨s, os⟩, hr, h⟩ := Run.exists_of_any
    (x := Run.run step (start Unit Unit) [.addTimer ⟨100, 10, 2, (), ()⟩,
      .addTimer ⟨101, 5, -1, (), ()⟩, .checkTimer [⟨107, 100, 3, (), ()⟩] 108, .checkTimer [] 109,
      .checkTimer [] 111])
    (f := fun r => decide (⟨10, 110, (), 0, 2, ()⟩ ∈ added r.2 ∧ Promised r.2 ∧
      firings 0 r.2 = 1 ∧ r.1.timerBuf.length = 3)) (by decide +kernel)
  obtain ⟨ht, hp, hf, hl⟩ := of_decide_eq_true h
  have hc := timers_fire _ s os hr hp.1 hp.2
  have h1 := (hc.2.2 _ ht).2 (by decide)
  obtain ⟨d, hd⟩ := h1.2.1 (by rw [hf]; decide)
  refine ⟨_, s, os, hr, hc.1, hl, hf, d, ?_⟩
  rw [hf] at hd
  exact hd

end Timer

end ServerNginx
