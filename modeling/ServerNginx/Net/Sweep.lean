import ServerNginx.Lib.Loop
import ServerNginx.Net.Heartbeat

set_option autoImplicit false

/-!
# One pass of the heartbeat sweep

`ngx_time_check` holds `m_PingMutex` over a pass. Its loop looks at the first entry of
`m_timerQueuemap` again and again: behind an `erase` the iterator is at the next entry, which is
the first one then, and behind an `insert` it is set to `begin()`.

* `ngxTimeCheckIter`: an iteration; `ngx_free_con_self` locks `m_PingMutex` itself;
* `Pending`: an entry is overdue, so that the loop does not end here; `Calm`: nobody has timed out;
* **`sweepsRight_iff`**: a pass kicks the timed-out connections and ends exactly where there are
  none, and no entry is moved to a ping time that does not fit an `int`;
* **`rekeysRight_iff`**: where nobody is to be kicked, the loop ends with all connections in the
  queue under their last ping exactly where the ping times it moves entries to fit an `int`.
-/

namespace ServerNginx

/-- What a pass does: a connection is handed to `ngx_free_con_self`, the header of an entry is
freed, an entry is inserted again. -/
inductive SweepEv
  | freeConSelf (a : Addr)
  | freeMemory (h : StrucMsgHeader)
  | insert (e : ℤ × StrucMsgHeader)
  deriving DecidableEq, Repr

/-- The connections handed to `ngx_free_con_self`. -/
def kicked (evs : List SweepEv) : List Addr :=
  evs.filterMap fun
    | .freeConSelf a => some a
    | _ => none

/-- The headers freed. -/
def freedHeaders (evs : List SweepEv) : List StrucMsgHeader :=
  evs.filterMap fun
    | .freeMemory h => some h
    | _ => none

/-- The entries inserted again. -/
def reinserted (evs : List SweepEv) : List (ℤ × StrucMsgHeader) :=
  evs.filterMap fun
    | .insert e => some e
    | _ => none

/-- A pass under way. -/
structure Sweep where
  cs : CSocket
  /-- `m_PingMutex` is held by the pass -/
  mPingMutex : Bool
  evs : List SweepEv

/-- How a pass ends: the loop is left, the thread waits for a mutex that it holds itself, or the
behaviour is undefined. -/
inductive SweepEnd
  | ended (w : Sweep)
  | blocked
  | undefined

namespace Sweep

variable (w : Sweep) (e : ℤ × StrucMsgHeader)

/-- The connection of an entry is gone: `FreeMemory(it->second)`, `erase(it)`. -/
def forget : Sweep :=
  { w with
    cs := { w.cs with mTimerQueuemap := w.cs.mTimerQueuemap.erase e }
    evs := w.evs ++ [.freeMemory e.2] }

/-- `ngx_free_con_self`, `FreeMemory(it->second)`, `erase(it)`. -/
def kick : Loop.Next Sweep SweepEnd :=
  let w : Sweep := { w with evs := w.evs ++ [.freeConSelf e.2.pConn] }
  -- `ngx_free_con_self` comes to its lock before it erases an entry
  if w.mPingMutex then .stop .blocked
  else
    match (w.cs.ngxFreeConSelf e.2.pConn).bind fun r => w.cs.eraseKicked e r.1 with
    | none => .stop .undefined
    | some cs => .again { w with cs := cs, evs := w.evs ++ [.freeMemory e.2] }

/-- The connection has sent a ping: its entry moves to that time. -/
def rekey : Sweep :=
  let c := w.cs.conn e.2.pConn
  -- `t` is a `std::pair<int, LPSTRUC_MSG_HEADER>`
  let t := (CNumber.int32 c.lastPingTime, e.2)
  { w with
    cs := { w.cs.setConn e.2.pConn { c with storePingTime := c.lastPingTime } with
      mTimerQueuemap := CSocket.emplacePing (w.cs.mTimerQueuemap.erase e) t }
    evs := w.evs ++ [.insert t] }

end Sweep

/-- An iteration of the loop of `ngx_time_check`; no difference of two times overflows. -/
def ngxTimeCheckIter (now : ℤ) (w : Sweep) : Loop.Next Sweep SweepEnd :=
  match w.cs.mTimerQueuemap with
  | [] => .stop (.ended w)
  | e :: _ =>
    let c := w.cs.conn e.2.pConn
    if e.2.iCurrsequence ≠ c.iCurrsequence then .again (w.forget e)
    else if pingTimeout ≤ now - e.1 then
      if e.1 = c.lastPingTime then w.kick e
      else if pingTimeout ≤ now - c.lastPingTime then w.kick e
      else .again (w.rekey e)
    else if now - c.lastPingTime ≤ pingTimeout then .stop (.ended w)
    else .again w

namespace CSocket

variable (s : CSocket)

/-- The mutex is locked, and nothing is done yet. -/
def sweep : Sweep := ⟨s, true, []⟩

/-- A pass of `ngx_time_check` behind its `wait`, with `n` iterations of its loop at most. -/
def ngxTimeCheck (now : ℤ) (n : ℕ) : Option SweepEnd :=
  match s.mTimerQueuemap with
  | [] => some .undefined
  | e :: _ =>
    if now - e.1 < pingTimeout then some (.ended s.sweep)
    else Loop.run (ngxTimeCheckIter now) n s.sweep

/-- `iCurrsequence` of the entry is still that of its connection. -/
def Live (e : ℤ × StrucMsgHeader) : Prop :=
  e.2.iCurrsequence = (s.conn e.2.pConn).iCurrsequence

instance (e : ℤ × StrucMsgHeader) : Decidable (s.Live e) := inferInstanceAs (Decidable (_ = _))

/-- The last ping of the entry's connection. -/
def lastPing (e : ℤ × StrucMsgHeader) : ℤ := (s.conn e.2.pConn).lastPingTime

/-- The entry's connection has sent no ping for `WAITTIME * 3 + 10` seconds. -/
def TimedOut (now : ℤ) (e : ℤ × StrucMsgHeader) : Prop :=
  s.Live e ∧ pingTimeout ≤ now - s.lastPing e

instance (now : ℤ) (e : ℤ × StrucMsgHeader) : Decidable (s.TimedOut now e) :=
  inferInstanceAs (Decidable (_ ∧ _))

/-- The order of a multimap. -/
def QueueSorted : Prop := s.mTimerQueuemap.Pairwise fun x y => x.1 ≤ y.1

instance : Decidable s.QueueSorted := inferInstanceAs (Decidable (List.Pairwise _ _))

/-- The live entries of a connection. -/
def liveEntries (a : Addr) : List (ℤ × StrucMsgHeader) :=
  s.mTimerQueuemap.filter fun e => s.Live e ∧ e.2.pConn = a

/-- **A pass as it should be**: it ends, it has handed exactly the connections that have timed out
to `ngx_free_con_self`, once for each entry, and every header is in the queue or has been freed
once. -/
def SweepsRight (now : ℤ) : Prop :=
  ∃ n w, s.ngxTimeCheck now n = some (.ended w) ∧
    (kicked w.evs).Perm ((s.mTimerQueuemap.filter fun e => s.TimedOut now e).map fun e =>
      e.2.pConn) ∧
    (w.cs.mTimerQueuemap.map Prod.snd ++ freedHeaders w.evs).Perm
      (s.mTimerQueuemap.map Prod.snd)

/-- **A loop that moves entries as it should**: it ends, it has freed headers of closed connections
only, every other entry is still there, for every connection once for each it had, and those it has
inserted are under the last ping of their connections. -/
def RekeysRight (now : ℤ) : Prop :=
  ∃ w, Loop.Ends (ngxTimeCheckIter now) s.sweep (.ended w) ∧
    (w.cs.mTimerQueuemap.map Prod.snd ++ freedHeaders w.evs).Perm
      (s.mTimerQueuemap.map Prod.snd) ∧
    (∀ h ∈ freedHeaders w.evs, h.iCurrsequence ≠ (s.conn h.pConn).iCurrsequence) ∧
    (∀ a, (w.cs.liveEntries a).length = (s.liveEntries a).length) ∧
    ∀ e ∈ reinserted w.evs, e.1 = (w.cs.conn e.2.pConn).storePingTime ∧
      (w.cs.conn e.2.pConn).storePingTime = s.lastPing e

end CSocket

/-! ## What an iteration does -/

namespace Sweep

variable {s : CSocket} {w : Sweep} {e x : ℤ × StrucMsgHeader} {a : Addr} {now : ℤ}

/-- The sequence numbers and the last pings are those of `s`. -/
def SameConns (s t : CSocket) : Prop := ∀ a, (t.conn a).iCurrsequence = (s.conn a).iCurrsequence ∧
  (t.conn a).lastPingTime = (s.conn a).lastPingTime

theorem rekey_conn_self : (w.rekey e).cs.conn e.2.pConn =
    { w.cs.conn e.2.pConn with storePingTime := (w.cs.conn e.2.pConn).lastPingTime } :=
  CSocket.conn_setConn_self ..

theorem rekey_conn_of_ne (h : a ≠ e.2.pConn) : (w.rekey e).cs.conn a = w.cs.conn a :=
  CSocket.conn_setConn_of_ne _ _ h

theorem SameConns.rekey (h : SameConns s w.cs) : SameConns s (w.rekey e).cs := by
  intro a
  by_cases ha : a = e.2.pConn
  · subst ha
    rw [rekey_conn_self]
    exact h _
  · rw [rekey_conn_of_ne ha]
    exact h a

theorem mem_emplacePing {m : List (ℤ × StrucMsgHeader)} :
    x ∈ CSocket.emplacePing m e ↔ x = e ∨ x ∈ m := List.mem_orderedInsert _

theorem sorted_emplacePing {m : List (ℤ × StrucMsgHeader)}
    (h : m.Pairwise fun x y => x.1 ≤ y.1) :
    (CSocket.emplacePing m e).Pairwise fun x y => x.1 ≤ y.1 := by
  unfold CSocket.emplacePing
  induction m with
  | nil => exact List.pairwise_singleton _ _
  | cons y m ih =>
    obtain ⟨hy, hm⟩ := List.pairwise_cons.mp h
    rw [List.orderedInsert_cons]
    split_ifs with hlt
    · refine List.pairwise_cons.mpr ⟨fun z hz => ?_, h⟩
      rcases List.mem_cons.mp hz with rfl | hz
      · exact hlt.le
      · exact hlt.le.trans (hy z hz)
    · refine List.pairwise_cons.mpr ⟨fun z hz => ?_, ih hm⟩
      rcases mem_emplacePing.mp hz with rfl | hz
      · exact not_lt.mp hlt
      · exact hy z hz

variable (now) in
/-- **The first entry decides** what an iteration does, while the pass holds the mutex. -/
theorem iter_cases {rest : List (ℤ × StrucMsgHeader)} (hp : w.mPingMutex = true)
    (hc : SameConns s w.cs) (he : w.cs.mTimerQueuemap = e :: rest) :
    (¬ s.Live e ∧ ngxTimeCheckIter now w = .again (w.forget e)) ∨
    (s.Live e ∧ pingTimeout ≤ now - e.1 ∧
      (e.1 = s.lastPing e ∨ pingTimeout ≤ now - s.lastPing e) ∧
      ngxTimeCheckIter now w = .stop .blocked) ∨
    (s.Live e ∧ pingTimeout ≤ now - e.1 ∧
      ¬ (e.1 = s.lastPing e ∨ pingTimeout ≤ now - s.lastPing e) ∧
      ngxTimeCheckIter now w = .again (w.rekey e)) ∨
    (s.Live e ∧ ¬ pingTimeout ≤ now - e.1 ∧ now - s.lastPing e ≤ pingTimeout ∧
      ngxTimeCheckIter now w = .stop (.ended w)) ∨
    (s.Live e ∧ ¬ pingTimeout ≤ now - e.1 ∧ ¬ now - s.lastPing e ≤ pingTimeout ∧
      ngxTimeCheckIter now w = .again w) := by
  have hkick : w.kick e = .stop .blocked := by
    unfold kick
    exact if_pos hp
  obtain ⟨hseq, hlast⟩ := hc e.2.pConn
  unfold ngxTimeCheckIter CSocket.Live CSocket.lastPing
  simp only [he, hseq, hlast, hkick]
  split_ifs with h₁ h₂ h₃ h₄ h₅
  · exact Or.inl ⟨h₁, rfl⟩
  · exact Or.inr (Or.inl ⟨not_not.mp h₁, h₂, Or.inl h₃, rfl⟩)
  · exact Or.inr (Or.inl ⟨not_not.mp h₁, h₂, Or.inr h₄, rfl⟩)
  · exact Or.inr (Or.inr (Or.inl ⟨not_not.mp h₁, h₂, not_or.mpr ⟨h₃, h₄⟩, rfl⟩))
  · exact Or.inr (Or.inr (Or.inr (Or.inl ⟨not_not.mp h₁, h₂, h₅, rfl⟩)))
  · exact Or.inr (Or.inr (Or.inr (Or.inr ⟨not_not.mp h₁, h₂, h₅, rfl⟩)))

/-! ## Overdue entries -/

/-- A live entry is overdue, and its connection has sent its last ping at a time with `B`. -/
structure Pending (s : CSocket) (now : ℤ) (B : ℤ → Prop) (w : Sweep) : Prop where
  held : w.mPingMutex = true
  conns : SameConns s w.cs
  sorted : w.cs.QueueSorted
  entry : ∃ x ∈ w.cs.mTimerQueuemap, s.Live x ∧ pingTimeout ≤ now - x.1 ∧ B (s.lastPing x)

variable {B : ℤ → Prop}

theorem sorted_forget (h : w.cs.QueueSorted) : (w.forget e).cs.QueueSorted :=
  h.sublist List.erase_sublist

theorem sorted_rekey (h : w.cs.QueueSorted) : (w.rekey e).cs.QueueSorted :=
  sorted_emplacePing (h.sublist List.erase_sublist)

/-- The loop does not pass an overdue entry: it blocks, it drops or moves another entry, or it
moves this one. -/
theorem Pending.iter (h : Pending s now B w) : ngxTimeCheckIter now w = .stop .blocked ∨
    (∃ t, ngxTimeCheckIter now w = .again t ∧ Pending s now B t) ∨
    ∃ x ∈ w.cs.mTimerQueuemap, s.Live x ∧ B (s.lastPing x) ∧
      ¬ pingTimeout ≤ now - s.lastPing x ∧ ngxTimeCheckIter now w = .again (w.rekey x) := by
  obtain ⟨x, hx, hlive, hage, hB⟩ := h.entry
  cases he : w.cs.mTimerQueuemap with
  | nil =>
    rw [he] at hx
    cases hx
  | cons e rest =>
    have hfirst : e.1 ≤ x.1 := by
      have hs := h.sorted
      rw [CSocket.QueueSorted, he] at hs
      rw [he] at hx
      rcases List.mem_cons.mp hx with rfl | hx
      · exact le_rfl
      · exact List.rel_of_pairwise_cons hs hx
    have hold : pingTimeout ≤ now - e.1 := by omega
    have hkeep : x ≠ e → x ∈ w.cs.mTimerQueuemap.erase e := fun hne =>
      (List.mem_erase_of_ne hne).mpr hx
    rcases iter_cases now h.held h.conns he with ⟨hdead, hi⟩ | ⟨-, -, -, hi⟩ |
      ⟨hl, -, hk, hi⟩ | ⟨-, hy, -, -⟩ | ⟨-, hy, -, -⟩
    · have hne : x ≠ e := by
        rintro rfl
        exact hdead hlive
      exact Or.inr (Or.inl ⟨_, hi, h.held, h.conns, sorted_forget h.sorted, x, hkeep hne, hlive,
        hage, hB⟩)
    · exact Or.inl hi
    · by_cases hne : x = e
      · subst hne
        exact Or.inr (Or.inr ⟨x, List.mem_cons_self, hlive, hB, fun ht => hk (Or.inr ht), hi⟩)
      · exact Or.inr (Or.inl ⟨_, hi, h.held, h.conns.rekey, sorted_rekey h.sorted, x,
          mem_emplacePing.mpr (Or.inr (hkeep hne)), hlive, hage, hB⟩)
    · exact absurd hold hy
    · exact absurd hold hy

/-- **An entry that stays overdue** keeps the pass from ending: its connection has timed out, or it
is moved to a time that is overdue again. -/
theorem not_ended_of_pending (h : Pending s now (fun last => pingTimeout ≤ now - last ∨
    pingTimeout ≤ now - CNumber.int32 last) w) {t : Sweep} :
    ¬ Loop.Ends (ngxTimeCheckIter now) w (.ended t) := by
  intro hends
  have hq := hends.sat (Q := fun r => r = .blocked) (fun w h => ?_) h
  · cases hq
  · rcases h.iter with hi | ⟨t, hi, ht⟩ | ⟨x, hx, hlive, hB, hout, hi⟩
    · rw [hi]
      exact rfl
    · rw [hi]
      exact ht
    · rw [hi]
      have hlast := (h.conns x.2.pConn).2
      refine ⟨h.held, h.conns.rekey, sorted_rekey h.sorted, (CNumber.int32 (s.lastPing x), x.2),
        mem_emplacePing.mpr (Or.inl ?_), hlive, hB.resolve_left hout, hB⟩
      rw [hlast]
      rfl

theorem reinserted_forget : reinserted (w.forget e).evs = reinserted w.evs := by
  simp [forget, reinserted]

theorem reinserted_rekey : reinserted (w.rekey e).evs =
    reinserted w.evs ++ [(CNumber.int32 (w.cs.conn e.2.pConn).lastPingTime, e.2)] := by
  simp [rekey, reinserted]

/-- An entry with `P` has been inserted. -/
def Shows (P : ℤ × StrucMsgHeader → Prop) (w : Sweep) : Prop := ∃ x ∈ reinserted w.evs, P x

/-- The loop has been left with such an entry, if it has been left. -/
def EndShows (P : ℤ × StrucMsgHeader → Prop) : SweepEnd → Prop
  | .ended t => Shows P t
  | _ => True

variable {P : ℤ × StrucMsgHeader → Prop}

variable (now) in
/-- Nothing takes an inserted entry out of the record. -/
theorem Shows.iter (hp : w.mPingMutex = true) (hx : Shows P w) :
    (ngxTimeCheckIter now w).Sat (fun t => t.mPingMutex = true ∧ Shows P t) (EndShows P) := by
  cases he : w.cs.mTimerQueuemap with
  | nil =>
    simp only [ngxTimeCheckIter, he]
    exact hx
  | cons e rest =>
    rcases iter_cases (s := w.cs) now hp (fun _ => ⟨rfl, rfl⟩) he with ⟨-, hi⟩ |
      ⟨-, -, -, hi⟩ | ⟨-, -, -, hi⟩ | ⟨-, -, -, hi⟩ | ⟨-, -, -, hi⟩
    all_goals rw [hi]
    · exact ⟨hp, by rwa [Shows, reinserted_forget]⟩
    · exact trivial
    · obtain ⟨x, hx, hP⟩ := hx
      exact ⟨hp, x, reinserted_rekey ▸ List.mem_append_left _ hx, hP⟩
    · exact hx
    · exact ⟨hp, hx⟩

/-- **An entry that is moved to a wrong time** shows in what the loop has inserted. -/
theorem reinserted_of_pending (h : Pending s now (fun last => CNumber.int32 last ≠ last) w)
    {t : Sweep} (hends : Loop.Ends (ngxTimeCheckIter now) w (.ended t)) :
    Shows (fun e => e.1 ≠ s.lastPing e) t := by
  refine hends.sat (Q := EndShows fun e => e.1 ≠ s.lastPing e)
    (I := fun w => Pending s now (fun last => CNumber.int32 last ≠ last) w ∨
      w.mPingMutex = true ∧ Shows (fun e => e.1 ≠ s.lastPing e) w)
    (fun w hw => ?_) (Or.inl h)
  rcases hw with h | ⟨hp, hx⟩
  · rcases h.iter with hi | ⟨t, hi, ht⟩ | ⟨x, -, -, hB, -, hi⟩
    · rw [hi]
      exact trivial
    · rw [hi]
      exact Or.inl ht
    · rw [hi]
      refine Or.inr ⟨h.held, (CNumber.int32 (s.lastPing x), x.2), ?_, hB⟩
      rw [reinserted_rekey, (h.conns x.2.pConn).2]
      exact List.mem_append_right _ (List.mem_singleton_self _)
  · have hnext := hx.iter now hp
    cases hi : ngxTimeCheckIter now w with
    | again t =>
      rw [hi] at hnext
      exact Or.inr hnext
    | stop r =>
      rw [hi] at hnext
      exact hnext

/-! ## A pass that gets through -/

/-- Nobody has timed out, and what is overdue is moved to a time that is not, with `P`; what the
loop has done so far fits `s`. -/
structure Calm (s : CSocket) (now : ℤ) (P : ℤ → Prop) (w : Sweep) : Prop where
  held : w.mPingMutex = true
  conns : SameConns s w.cs
  idle : ∀ x ∈ w.cs.mTimerQueuemap, s.Live x → now - s.lastPing x < pingTimeout
  fits : ∀ x ∈ w.cs.mTimerQueuemap, s.Live x → pingTimeout ≤ now - x.1 →
    now - CNumber.int32 (s.lastPing x) < pingTimeout ∧ P (s.lastPing x)
  headers : (w.cs.mTimerQueuemap.map Prod.snd ++ freedHeaders w.evs).Perm
    (s.mTimerQueuemap.map Prod.snd)
  dead : ∀ h ∈ freedHeaders w.evs, h.iCurrsequence ≠ (s.conn h.pConn).iCurrsequence
  spared : kicked w.evs = []
  moved : ∀ x ∈ reinserted w.evs, x.1 = CNumber.int32 (s.lastPing x) ∧ P (s.lastPing x) ∧
    (w.cs.conn x.2.pConn).storePingTime = s.lastPing x

/-- The entries that the loop is going to drop or move. -/
def due (s : CSocket) (now : ℤ) (w : Sweep) : ℕ :=
  w.cs.mTimerQueuemap.countP fun x => ¬ s.Live x ∨ pingTimeout ≤ now - x.1

variable {rest : List (ℤ × StrucMsgHeader)} {P : ℤ → Prop}

theorem map_forget (he : w.cs.mTimerQueuemap = e :: rest) :
    (w.forget e).cs.mTimerQueuemap = rest := by
  simp [forget, he]

theorem map_rekey (he : w.cs.mTimerQueuemap = e :: rest) : (w.rekey e).cs.mTimerQueuemap =
    CSocket.emplacePing rest (CNumber.int32 (w.cs.conn e.2.pConn).lastPingTime, e.2) := by
  simp [rekey, he]

theorem Calm.forget (h : Calm s now P w) (he : w.cs.mTimerQueuemap = e :: rest)
    (hdead : ¬ s.Live e) : Calm s now P (w.forget e) ∧ due s now (w.forget e) < due s now w := by
  have hmap := map_forget he
  have hsub : ∀ {x}, x ∈ (w.forget e).cs.mTimerQueuemap → x ∈ w.cs.mTimerQueuemap := fun hx => by
    rw [he]
    exact List.mem_cons_of_mem _ (hmap ▸ hx)
  have hfreed : freedHeaders (w.forget e).evs = freedHeaders w.evs ++ [e.2] := by
    simp [Sweep.forget, freedHeaders]
  refine ⟨⟨h.held, h.conns, fun x hx => h.idle x (hsub hx), fun x hx => h.fits x (hsub hx), ?_,
    ?_, ?_, ?_⟩, ?_⟩
  · refine List.Perm.trans ?_ h.headers
    rw [hmap, hfreed, he, ← List.append_assoc]
    exact List.perm_append_comm
  · rw [hfreed]
    intro x hx
    rcases List.mem_append.mp hx with hx | hx
    · exact h.dead x hx
    · rw [List.mem_singleton.mp hx]
      exact hdead
  · have hk : kicked (w.forget e).evs = kicked w.evs := by
      simp [Sweep.forget, kicked]
    rw [hk, h.spared]
  · rw [reinserted_forget]
    exact h.moved
  · rw [due, due, hmap, he, List.countP_cons_of_pos (by simp [hdead])]
    exact Nat.lt_succ_self _

theorem Calm.rekey (h : Calm s now P w) (he : w.cs.mTimerQueuemap = e :: rest) (hlive : s.Live e)
    (hage : pingTimeout ≤ now - e.1) :
    Calm s now P (w.rekey e) ∧ due s now (w.rekey e) < due s now w := by
  have hhead : e ∈ w.cs.mTimerQueuemap := he ▸ List.mem_cons_self
  have hlast : (w.cs.conn e.2.pConn).lastPingTime = s.lastPing e := (h.conns e.2.pConn).2
  obtain ⟨hyoung, hP⟩ := h.fits e hhead hlive hage
  have hmap := map_rekey he
  rw [hlast] at hmap
  have hmem : ∀ {x}, x ∈ (w.rekey e).cs.mTimerQueuemap →
      x = (CNumber.int32 (s.lastPing e), e.2) ∨ x ∈ w.cs.mTimerQueuemap := by
    intro x hx
    rw [hmap] at hx
    rcases mem_emplacePing.mp hx with hx | hx
    · exact Or.inl hx
    · exact Or.inr (he ▸ List.mem_cons_of_mem _ hx)
  have hfreed : freedHeaders (w.rekey e).evs = freedHeaders w.evs := by
    simp [Sweep.rekey, freedHeaders]
  have hperm := List.perm_orderedInsert (fun x y : ℤ × StrucMsgHeader => x.1 < y.1)
    (CNumber.int32 (s.lastPing e), e.2) rest
  refine ⟨⟨h.held, h.conns.rekey, ?_, ?_, ?_, hfreed ▸ h.dead, ?_, ?_⟩, ?_⟩
  · intro x hx hl
    rcases hmem hx with rfl | hx
    · exact h.idle e hhead hl
    · exact h.idle x hx hl
  · intro x hx hl ha
    rcases hmem hx with rfl | hx
    · exact absurd ha hyoung.not_ge
    · exact h.fits x hx hl ha
  · refine List.Perm.trans ?_ h.headers
    rw [hmap, hfreed, he]
    exact (hperm.map Prod.snd).append_right _
  · have hk : kicked (w.rekey e).evs = kicked w.evs := by
      simp [Sweep.rekey, kicked]
    rw [hk, h.spared]
  · rw [reinserted_rekey, hlast]
    intro x hx
    rcases List.mem_append.mp hx with hx | hx
    · obtain ⟨hkey, hp, hstore⟩ := h.moved x hx
      refine ⟨hkey, hp, ?_⟩
      by_cases ha : x.2.pConn = e.2.pConn
      · rw [ha, rekey_conn_self, CSocket.lastPing, ha]
        exact hlast
      · rw [rekey_conn_of_ne ha]
        exact hstore
    · rw [List.mem_singleton.mp hx]
      exact ⟨rfl, hP, by rw [rekey_conn_self]; exact hlast⟩
  · have hcount : due s now (w.rekey e) =
        ((CNumber.int32 (s.lastPing e), e.2) :: rest).countP
          fun x => ¬ s.Live x ∨ pingTimeout ≤ now - x.1 := by
      rw [due, hmap]
      exact hperm.countP_eq _
    have hl : s.Live (CNumber.int32 (s.lastPing e), e.2) := hlive
    rw [hcount, List.countP_cons_of_neg (by simp [hl, hyoung]), due, he,
      List.countP_cons_of_pos (by simp [hage])]
    exact Nat.lt_succ_self _

/-- The loop is left, and what it has done fits `s`. -/
def EndCalm (s : CSocket) (now : ℤ) (P : ℤ → Prop) : SweepEnd → Prop
  | .ended w => Calm s now P w
  | _ => False

theorem Calm.iter (h : Calm s now P w) : (ngxTimeCheckIter now w).Sat
    (fun t => Calm s now P t ∧ due s now t < due s now w) (EndCalm s now P) := by
  cases he : w.cs.mTimerQueuemap with
  | nil =>
    simp only [ngxTimeCheckIter, he]
    exact h
  | cons e rest =>
    have hhead : e ∈ w.cs.mTimerQueuemap := he ▸ List.mem_cons_self
    rcases iter_cases now h.held h.conns he with ⟨hdead, hi⟩ | ⟨hl, ha, hk, -⟩ |
      ⟨hl, ha, -, hi⟩ | ⟨-, -, -, hi⟩ | ⟨hl, -, hy, -⟩
    · rw [hi]
      exact h.forget he hdead
    · have hidle := h.idle e hhead hl
      omega
    · rw [hi]
      exact h.rekey he hl ha
    · rw [hi]
      exact h
    · exact absurd (h.idle e hhead hl).le hy

/-- **A calm pass is left.** -/
theorem Calm.ends (h : Calm s now P w) :
    ∃ t, Loop.Ends (ngxTimeCheckIter now) w (.ended t) ∧ Calm s now P t := by
  obtain ⟨r, hr, hq⟩ := Loop.exists_ends (due s now) (fun w hw => Calm.iter hw) h
  cases r with
  | ended t => exact ⟨t, hr, hq⟩
  | blocked => exact hq.elim
  | undefined => exact hq.elim

/-! ## Where a pass begins -/

theorem calm_sweep (hidle : ∀ x ∈ s.mTimerQueuemap, s.Live x → now - s.lastPing x < pingTimeout)
    (hfits : ∀ x ∈ s.mTimerQueuemap, s.Live x → pingTimeout ≤ now - x.1 →
      now - CNumber.int32 (s.lastPing x) < pingTimeout ∧ P (s.lastPing x)) :
    Calm s now P s.sweep where
  held := rfl
  conns _ := ⟨rfl, rfl⟩
  idle := hidle
  fits := hfits
  headers := by simp [CSocket.sweep, freedHeaders]
  dead x hx := by simp [CSocket.sweep, freedHeaders] at hx
  spared := rfl
  moved x hx := by simp [CSocket.sweep, reinserted] at hx

theorem pending_sweep (hs : s.QueueSorted) (hx : x ∈ s.mTimerQueuemap) (hl : s.Live x)
    (hage : pingTimeout ≤ now - x.1) {B : ℤ → Prop} (hB : B (s.lastPing x)) :
    Pending s now B s.sweep :=
  ⟨rfl, fun _ => ⟨rfl, rfl⟩, hs, x, hx, hl, hage, hB⟩

theorem overdue_int32 {last : ℤ} (hle : last ≤ now) (hlt : now - last < pingTimeout) :
    now - CNumber.int32 last < pingTimeout ↔ last < 2 ^ 31 := by
  have hto : pingTimeout = 70 := rfl
  have hmod : CNumber.int32 last % 2 ^ 32 = last % 2 ^ 32 := by
    unfold CNumber.int32
    exact Int.bmod_emod
  obtain ⟨hlo, hhi⟩ := CNumber.int32_bounds last
  omega

end Sweep

namespace CSocket

open Sweep

variable {s : CSocket} {now : ℤ}

theorem ngxTimeCheck_of_old {n : ℕ} {e : ℤ × StrucMsgHeader} (hs : s.QueueSorted)
    (he : e ∈ s.mTimerQueuemap) (hage : pingTimeout ≤ now - e.1) :
    s.ngxTimeCheck now n = Loop.run (ngxTimeCheckIter now) n s.sweep := by
  unfold ngxTimeCheck
  cases hm : s.mTimerQueuemap with
  | nil =>
    rw [hm] at he
    cases he
  | cons f rest =>
    have hfirst : f.1 ≤ e.1 := by
      rw [QueueSorted, hm] at hs
      rw [hm] at he
      rcases List.mem_cons.mp he with rfl | he
      · exact le_rfl
      · exact List.rel_of_pairwise_cons hs he
    exact if_neg (by omega)

theorem filter_timedOut (hidle : ∀ e ∈ s.mTimerQueuemap, s.Live e →
    now - s.lastPing e < pingTimeout) :
    (s.mTimerQueuemap.filter fun e => s.TimedOut now e) = [] := by
  refine List.filter_eq_nil_iff.mpr fun e he ht => ?_
  have h := of_decide_eq_true ht
  exact absurd h.2 (hidle e he h.1).not_ge

theorem not_ends_of_overdue {e : ℤ × StrucMsgHeader} (hsorted : s.QueueSorted)
    (he : e ∈ s.mTimerQueuemap) (hl : s.Live e) (hage : pingTimeout ≤ now - e.1)
    (hB : pingTimeout ≤ now - s.lastPing e ∨ pingTimeout ≤ now - CNumber.int32 (s.lastPing e))
    {w : Sweep} : ¬ Loop.Ends (ngxTimeCheckIter now) s.sweep (.ended w) :=
  not_ended_of_pending (pending_sweep hsorted he hl hage hB)

variable (now) in
theorem not_sweepsRight_of_overdue {e : ℤ × StrucMsgHeader} (hsorted : s.QueueSorted)
    (he : e ∈ s.mTimerQueuemap) (hl : s.Live e) (hage : pingTimeout ≤ now - e.1)
    (hB : pingTimeout ≤ now - s.lastPing e ∨ pingTimeout ≤ now - CNumber.int32 (s.lastPing e)) :
    ¬ s.SweepsRight now := by
  rintro ⟨n, w, hw, -, -⟩
  rw [ngxTimeCheck_of_old hsorted he hage] at hw
  exact not_ends_of_overdue hsorted he hl hage hB ⟨n, hw⟩

/-- **Exactly when a pass is as it should be**: nobody has timed out, and the overdue entries have
pings of before `2 ^ 31`. -/
theorem sweepsRight_iff (hne : s.mTimerQueuemap ≠ []) (hsorted : s.QueueSorted)
    (hkeys : ∀ e ∈ s.mTimerQueuemap, s.Live e → e.1 ≤ s.lastPing e ∧ s.lastPing e ≤ now) :
    s.SweepsRight now ↔
      (∀ e ∈ s.mTimerQueuemap, s.Live e → now - s.lastPing e < pingTimeout) ∧
        ∀ e ∈ s.mTimerQueuemap, s.Live e → pingTimeout ≤ now - e.1 → s.lastPing e < 2 ^ 31 := by
  constructor
  · intro hright
    have hout : ∀ e ∈ s.mTimerQueuemap, s.Live e → pingTimeout ≤ now - e.1 →
        ¬ (pingTimeout ≤ now - s.lastPing e ∨
          pingTimeout ≤ now - CNumber.int32 (s.lastPing e)) :=
      fun e he hl hage hB => not_sweepsRight_of_overdue now hsorted he hl hage hB hright
    have hidle : ∀ e ∈ s.mTimerQueuemap, s.Live e → now - s.lastPing e < pingTimeout := by
      intro e he hl
      by_contra hlate
      have hkey := (hkeys e he hl).1
      exact hout e he hl (by omega) (Or.inl (not_lt.mp hlate))
    refine ⟨hidle, fun e he hl hage => ?_⟩
    refine (overdue_int32 (hkeys e he hl).2 (hidle e he hl)).mp ?_
    exact not_le.mp fun hlate => hout e he hl hage (Or.inr hlate)
  · rintro ⟨hidle, hfit⟩
    have hcalm : Calm s now (fun _ => True) s.sweep := calm_sweep hidle fun e he hl hage =>
      ⟨(overdue_int32 (hkeys e he hl).2 (hidle e he hl)).mpr (hfit e he hl hage), trivial⟩
    have hright : ∀ w, Calm s now (fun _ => True) w →
        (kicked w.evs).Perm ((s.mTimerQueuemap.filter fun e => s.TimedOut now e).map fun e =>
          e.2.pConn) := by
      intro w hw
      rw [hw.spared, filter_timedOut hidle]
      exact List.Perm.nil
    cases hm : s.mTimerQueuemap with
    | nil => exact absurd hm hne
    | cons f rest =>
      by_cases hyoung : now - f.1 < pingTimeout
      · refine ⟨0, s.sweep, ?_, hright _ hcalm, hcalm.headers⟩
        simp only [ngxTimeCheck, hm, if_pos hyoung]
      · obtain ⟨w, ⟨n, hn⟩, hw⟩ := hcalm.ends
        refine ⟨n, w, ?_, hright w hw, hw.headers⟩
        rw [ngxTimeCheck_of_old hsorted (hm ▸ List.mem_cons_self) (not_lt.mp hyoung)]
        exact hn

/-- The connection accepted at 100, whose entry a pass at 170 moves to its ping of 160. -/
theorem sweepsRight_pinged :
    let cfg : Conf := ⟨4, .etOpen, 0, 100, 10⟩
    let s := (CSocket.ngxEpollInit cfg (fun _ => .zero) [3]).get rfl
    let s := ((s.step cfg (.accept 5 100 true)).get rfl).1
    let s := ((s.step cfg (.ping ⟨⟨0, 1⟩, 1⟩ 160)).get rfl).1
    s.SweepsRight 170 :=
  (sweepsRight_iff (by decide +kernel) (by decide +kernel) (by decide +kernel)).mpr
    (by decide +kernel)

/-- **The connection to be kicked**: accepted at 100, it has sent no ping till 170. -/
theorem not_sweepsRight : ¬ ∀ (s : CSocket) (now : ℤ), s.mTimerQueuemap ≠ [] → s.QueueSorted →
    (∀ e ∈ s.mTimerQueuemap, s.Live e → e.1 ≤ s.lastPing e ∧ s.lastPing e ≤ now) →
      s.SweepsRight now := by
  intro h
  let cfg : Conf := ⟨4, .etOpen, 0, 100, 10⟩
  let s := (CSocket.ngxEpollInit cfg (fun _ => .zero) [3]).get rfl
  let s := ((s.step cfg (.accept 5 100 true)).get rfl).1
  exact not_sweepsRight_of_overdue (s := s) 170 (e := (100, ⟨⟨0, 1⟩, 1⟩))
    (by decide +kernel) (by decide +kernel) (by decide +kernel) (by decide +kernel)
    (by decide +kernel)
    (h s 170 (by decide +kernel) (by decide +kernel) (by decide +kernel))

theorem length_liveEntries (t : CSocket) (hc : SameConns s t) (a : Addr) :
    (t.liveEntries a).length = (t.mTimerQueuemap.map Prod.snd).countP fun h =>
      h.iCurrsequence = (s.conn h.pConn).iCurrsequence ∧ h.pConn = a := by
  rw [liveEntries, ← List.countP_eq_length_filter, List.countP_map]
  refine List.countP_congr fun e _ => ?_
  simp only [Function.comp_apply, decide_eq_true_eq, Live, (hc e.2.pConn).1]

/-- **Exactly when the loop moves its entries as it should**: the ping times they are moved to fit
an `int`. -/
theorem rekeysRight_iff (hsorted : s.QueueSorted)
    (hkeys : ∀ e ∈ s.mTimerQueuemap, s.Live e → e.1 = (s.conn e.2.pConn).storePingTime ∧
      e.1 ≤ s.lastPing e ∧ s.lastPing e ≤ now ∧ now - s.lastPing e < pingTimeout) :
    s.RekeysRight now ↔ ∀ e ∈ s.mTimerQueuemap, s.Live e → pingTimeout ≤ now - e.1 →
      CNumber.int32 (s.lastPing e) = s.lastPing e := by
  have hidle : ∀ e ∈ s.mTimerQueuemap, s.Live e → now - s.lastPing e < pingTimeout :=
    fun e he hl => (hkeys e he hl).2.2.2
  constructor
  · rintro ⟨w, hw, -, -, -, hmoved⟩ e he hl hage
    by_contra hne
    obtain ⟨x, hx, hwrong⟩ := reinserted_of_pending (pending_sweep hsorted he hl hage hne) hw
    obtain ⟨hkey, hstore⟩ := hmoved x hx
    exact hwrong (hkey.trans hstore)
  · intro hfit
    have hcalm : Calm s now (fun last => CNumber.int32 last = last) s.sweep :=
      calm_sweep hidle fun e he hl hage => by
        have h := hfit e he hl hage
        exact ⟨h.symm ▸ hidle e he hl, h⟩
    obtain ⟨w, hw, hc⟩ := hcalm.ends
    refine ⟨w, hw, hc.headers, hc.dead, fun a => ?_, fun x hx => ?_⟩
    · have hperm := hc.headers.countP_eq fun h =>
        h.iCurrsequence = (s.conn h.pConn).iCurrsequence ∧ h.pConn = a
      have hfreed : (freedHeaders w.evs).countP (fun h =>
          h.iCurrsequence = (s.conn h.pConn).iCurrsequence ∧ h.pConn = a) = 0 := by
        refine List.countP_eq_zero.mpr fun h hh => ?_
        simp [hc.dead h hh]
      rw [List.countP_append, hfreed, Nat.add_zero] at hperm
      rw [length_liveEntries w.cs hc.conns, hperm, ← length_liveEntries s fun _ => ⟨rfl, rfl⟩]
    · obtain ⟨hkey, hP, hstore⟩ := hc.moved x hx
      exact ⟨hkey.trans (hP.trans hstore.symm), hstore⟩

/-- An entry that is moved to the ping of 160. -/
theorem rekeysRight_pinged :
    let cfg : Conf := ⟨4, .etOpen, 0, 100, 10⟩
    let s := (CSocket.ngxEpollInit cfg (fun _ => .zero) [3]).get rfl
    let s := ((s.step cfg (.accept 5 100 true)).get rfl).1
    let s := ((s.step cfg (.ping ⟨⟨0, 1⟩, 1⟩ 160)).get rfl).1
    s.RekeysRight 170 :=
  (rekeysRight_iff (by decide +kernel) (by decide +kernel)).mpr (by decide +kernel)

/-- **A ping of 2038**: a connection accepted at `2 ^ 31` has sent one a second later, and its
entry is due. -/
theorem not_rekeysRight : ¬ ∀ (s : CSocket) (now : ℤ), s.QueueSorted →
    (∀ e ∈ s.mTimerQueuemap, s.Live e → e.1 = (s.conn e.2.pConn).storePingTime ∧
      e.1 ≤ s.lastPing e ∧ s.lastPing e ≤ now ∧ now - s.lastPing e < pingTimeout) →
      s.RekeysRight now := by
  intro h
  let cfg : Conf := ⟨4, .etOpen, 0, 100, 10⟩
  let s := (CSocket.ngxEpollInit cfg (fun _ => .zero) [3]).get rfl
  let s := ((s.step cfg (.accept 5 2147483648 true)).get rfl).1
  let s := ((s.step cfg (.ping ⟨⟨0, 1⟩, 1⟩ 2147483649)).get rfl).1
  obtain ⟨w, hw, -⟩ := h s 2147483718 (by decide +kernel) (by decide +kernel)
  exact not_ends_of_overdue (e := (2147483648, ⟨⟨0, 1⟩, 1⟩)) (by decide +kernel)
    (by decide +kernel) (by decide +kernel) (by decide +kernel) (by decide +kernel) hw

end CSocket

end ServerNginx
