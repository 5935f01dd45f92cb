import ServerNginx.Net.Effect

set_option autoImplicit false

/-!
# The heartbeat queue

`QueueOk`: every open connection has one entry in `m_timerQueuemap`, with its sequence number and
under its `storePingTime`, and there are no others. `beat` is a step of the process with all of the
sweep; a step that erases `end()`, or through an iterator that is no longer valid, ends in `none`.

Entries are found by their key alone, and of equal keys the first is taken. **`queueOk_iff`**: the
queue tracks the open connections, and no erase goes wrong, exactly in the runs all of whose erases
find the entry of the connection that is closed (`ErasesOwn`); `not_queueOk` is a run with two
connections accepted in the same second.
-/

namespace ServerNginx

namespace CSocket

/-! ## The whole sweep -/

/-- `m_timerQueuemap.find(key)`: the first entry with the key. -/
def findPing (s : CSocket) (key : ℤ) : Option (ℤ × StrucMsgHeader) :=
  s.mTimerQueuemap.find? (·.1 = key)

/-- `it = m_timerQueuemap.erase(it)` behind a kick: `ngx_free_con_self` has erased an entry of
`s`, and `it` is not valid if it was its own. -/
def eraseKicked (s : CSocket) (e : ℤ × StrucMsgHeader) (t : CSocket) : Option CSocket :=
  if s.findPing (s.conn e.2.pConn).storePingTime = some e then none
  else some { t with mTimerQueuemap := t.mTimerQueuemap.erase e }

/-- A step with what the sweep does behind a kick. -/
def sweepStep (cfg : Conf) (s : CSocket) : Step → Option (CSocket × List PoolEv)
  | .visit e now => (s.step cfg (.visit e now)).bind fun r =>
    if s.Kicks e now then (s.eraseKicked e r.1).map fun t => (t, r.2) else some r
  | i => s.step cfg i

/-- What has to be there for a step to be taken. -/
def Enabled (cfg : Conf) (s : CSocket) : Step → Prop
  | .accept fd _ _ => 0 ≤ fd ∧ fd ∉ s.fds
  | .wait as => s.mEvents = [] ∧ as.Nodup ∧ ∀ a ∈ as, s.Registered a
  | .edge a => cfg.mETflag = .etOpen ∧ s.NextEvent a
  | .task a rets => a ∈ s.taskBuf ∧ (recvprocETTask cfg a (s.conn a) rets).isSome
  | .read a ret => cfg.mETflag = .etClose ∧ s.NextEvent a ∧
      (ngxReadRequestHandlerCall cfg a (s.conn a) ret).isSome
  | .hup a => s.NextEvent a
  | .write a => s.NextEvent a
  | .ping _ _ => True
  | .visit e _ => e ∈ s.mTimerQueuemap
  | .expire a => a ∈ s.timerBuf
  | .timerFree => s.mRecyconnectionList ≠ []

instance (cfg : Conf) (s : CSocket) : ∀ i, Decidable (s.Enabled cfg i)
  | .accept .. | .edge _ | .task .. => inferInstanceAs (Decidable (_ ∧ _))
  | .wait _ | .read .. => inferInstanceAs (Decidable (_ ∧ _ ∧ _))
  | .hup a | .write a => inferInstanceAs (Decidable (s.NextEvent a))
  | .ping .. => isTrue trivial
  | .visit .. | .expire _ => inferInstanceAs (Decidable (_ ∈ _))
  | .timerFree => inferInstanceAs (Decidable (_ ≠ _))

/-- A step of the process, or of its undefined behaviour. -/
def beat (cfg : Conf) : Option CSocket → Step → Option (Option CSocket × List PoolEv)
  | none, _ => none
  | some s, i =>
    if s.Enabled cfg i then
      match s.sweepStep cfg i with
      | none => some (none, [])
      | some (t, os) => some (some t, os)
    else none

/-! ## The queue and the open connections -/

/-- The entries of a connection. -/
def entriesOf (s : CSocket) (a : Addr) : List (ℤ × StrucMsgHeader) :=
  s.mTimerQueuemap.filter fun e => e.2.pConn = a

/-- **The queue tracks the open connections.** -/
structure QueueOk (s : CSocket) : Prop where
  live : ∀ a, s.Registered a →
    s.entriesOf a = [((s.conn a).storePingTime, ⟨a, (s.conn a).iCurrsequence⟩)]
  closed : ∀ a, ¬ s.Registered a → s.entriesOf a = []

/-- Nothing undefined has happened, and the queue tracks the open connections. -/
def Tracks : Option CSocket → Prop
  | none => False
  | some s => s.QueueOk

/-- The key under which the end of a read looks up an entry to erase. -/
def closeKey (c : Connection) : Ending → Option ℤ
  | .flood => some c.storePingTime
  | .ret .zero => some c.storePingTime
  | .ret .reset => some c.lastPingTime
  | _ => none

/-- The first entry with the key is one of connection `a`. -/
def FindsOwn (s : CSocket) (a : Addr) (key : ℤ) : Prop :=
  (s.findPing key).map (fun e => e.2.pConn) = some a

/-- A close erases the entry of its connection. -/
def EndsOwn (s : CSocket) (a : Addr) (e : Ending) : Prop :=
  match closeKey (s.conn a) e with
  | some key => s.FindsOwn a key
  | none => e.closes = false

instance (s : CSocket) (a : Addr) (key : ℤ) : Decidable (s.FindsOwn a key) :=
  inferInstanceAs (Decidable (_ = _))

instance (s : CSocket) (a : Addr) (e : Ending) : Decidable (s.EndsOwn a e) :=
  match h : closeKey (s.conn a) e with
  | some key => decidable_of_iff (s.FindsOwn a key) (by rw [EndsOwn, h])
  | none => decidable_of_iff (e.closes = false) (by rw [EndsOwn, h])

/-- Closes erase the entries of their connections, the sweep kicks nobody, and the ping times it
moves entries to fit an `int`. -/
def ErasesOwn (cfg : Conf) (s : CSocket) : Step → Prop
  | .task a rets =>
    (recvprocETTask cfg a (s.conn a) rets).all (fun r => decide (s.EndsOwn a r.2)) = true
  | .read a ret =>
    (ngxReadRequestHandlerCall cfg a (s.conn a) ret).all (fun r => decide (s.EndsOwn a r.2)) = true
  | .hup a => s.FindsOwn a (s.conn a).storePingTime
  | .visit e now => ¬ s.Kicks e now ∧ (pingTimeout ≤ now - e.1 →
      CNumber.int32 (s.conn e.2.pConn).lastPingTime = (s.conn e.2.pConn).lastPingTime)
  | _ => True

instance (cfg : Conf) (s : CSocket) : ∀ i, Decidable (s.ErasesOwn cfg i)
  | .task .. | .read .. => inferInstanceAs (Decidable (_ = true))
  | .hup _ => inferInstanceAs (Decidable (s.FindsOwn ..))
  | .visit .. => inferInstanceAs (Decidable (¬ _ ∧ (_ → _)))
  | .accept .. | .wait _ | .edge _ | .write _ | .ping .. | .expire _ | .timerFree => isTrue trivial

variable {cfg : Conf} {s t u : CSocket} {log os : List PoolEv} {a b : Addr} {key now : ℤ}
  {e e' : ℤ × StrucMsgHeader}

/-! ## Lists with one element erased -/

theorem filter_eraseP_of_find {α : Type*} {l : List α} {p q : α → Bool} {x : α}
    (h : l.find? p = some x) :
    (q x = false → (l.eraseP p).filter q = l.filter q) ∧
      (q x = true → ((l.eraseP p).filter q).length + 1 = (l.filter q).length) := by
  obtain ⟨hx, as, bs, rfl, has⟩ := List.find?_eq_some_iff_append.mp h
  have herase : (as ++ x :: bs).eraseP p = as ++ bs := by
    rw [List.eraseP_append_right _ fun y hy => by simpa using has y hy, List.eraseP_cons_of_pos hx]
  rw [herase]
  constructor
  · intro hq
    simp [hq]
  · intro hq
    simp only [List.filter_append, List.filter_cons, hq, if_true, List.length_append,
      List.length_cons]
    omega

/-! ## Closing -/

theorem findPing_pConn (hq : s.QueueOk) (h : s.findPing key = some e) :
    s.Registered e.2.pConn ∧ e.1 = key := by
  have hmem : e ∈ s.entriesOf e.2.pConn :=
    List.mem_filter.mpr ⟨List.mem_of_find?_eq_some h, by simp⟩
  refine ⟨?_, by simpa using List.find?_some h⟩
  by_contra hreg
  rw [hq.closed _ hreg] at hmem
  cases hmem

theorem Quiet.queueOk (h : Quiet s t) (hq : s.QueueOk) : t.QueueOk where
  live a ha := by
    have ha' : s.Registered a := by
      rw [Registered, ← h.epoll]
      exact ha
    rw [entriesOf, h.map, (h.ping a ha').1, (h.ping a ha').2]
    exact hq.live a ha'
  closed a ha := by
    rw [entriesOf, h.map]
    apply hq.closed a
    rwa [Registered, ← h.epoll]

theorem Shut.registered_iff (h : Shut s a t) : t.Registered b ↔ s.Registered b ∧ b ≠ a := by
  constructor
  · intro hb
    obtain ⟨e, he, rfl⟩ := List.mem_map.mp hb
    rw [h.epoll] at he
    obtain ⟨he, hne⟩ := List.mem_filter.mp he
    exact ⟨List.mem_map.mpr ⟨e, he, rfl⟩, of_decide_eq_true hne⟩
  · rintro ⟨hb, hba⟩
    obtain ⟨e, he, rfl⟩ := List.mem_map.mp hb
    rw [Registered, h.epoll]
    exact List.mem_map.mpr ⟨e, List.mem_filter.mpr ⟨he, decide_eq_true hba⟩, rfl⟩

/-- **A close keeps the queue** exactly where the entry it finds is that of its connection. -/
theorem Shut.queueOk (h : Shut s a t) (hq : s.QueueOk) (hf : s.findPing key = some e)
    (hmap : t.mTimerQueuemap = s.mTimerQueuemap.eraseP (·.1 = key)) :
    t.QueueOk ↔ e.2.pConn = a := by
  obtain ⟨hreg, -⟩ := findPing_pConn hq hf
  have hother : ∀ b, b ≠ e.2.pConn → t.entriesOf b = s.entriesOf b := fun b hb => by
    rw [entriesOf, hmap]
    exact (filter_eraseP_of_find hf).1 (decide_eq_false (Ne.symm hb))
  have hown : t.entriesOf e.2.pConn = [] := by
    have hlen := (filter_eraseP_of_find (q := fun x => decide (x.2.pConn = e.2.pConn)) hf).2
      (by simp)
    rw [← hmap] at hlen
    have hone := congrArg List.length (hq.live _ hreg)
    apply List.eq_nil_of_length_eq_zero
    simp only [entriesOf, List.length_singleton] at *
    omega
  constructor
  · intro ht
    by_contra hne
    have := ht.live _ (h.registered_iff.mpr ⟨hreg, hne⟩)
    rw [hown] at this
    cases this
  · rintro rfl
    constructor
    · intro b hb
      obtain ⟨hb, hne⟩ := h.registered_iff.mp hb
      rw [hother b hne, (h.ping b hb hne).1, (h.ping b hb hne).2]
      exact hq.live b hb
    · intro b hb
      by_cases hba : b = e.2.pConn
      · rw [hba]
        exact hown
      · rw [hother b hba]
        exact hq.closed b fun hr => hb (h.registered_iff.mpr ⟨hr, hba⟩)

/-- A close that erases nothing leaves an entry behind. -/
theorem Shut.not_queueOk (h : Shut s a t) (hq : s.QueueOk)
    (hmap : t.mTimerQueuemap = s.mTimerQueuemap) : ¬ t.QueueOk := by
  intro ht
  have hnone := ht.closed a fun hr => (h.registered_iff.mp hr).2 rfl
  have hone := hq.live a h.reg
  rw [entriesOf, hmap] at hnone
  rw [entriesOf, hnone] at hone
  cases hone

/-- **The end of a read** keeps the queue exactly where it erases its own entry. -/
theorem Ended.queueOk {e : Ending} (h : Ended s a t e) (hq : s.QueueOk)
    (hdef : ∀ key, closeKey (s.conn a) e = some key → s.findPing key ≠ none) :
    t.QueueOk ↔ s.EndsOwn a e := by
  have hkey : ∀ {key}, closeKey (s.conn a) e = some key → Shut s a t →
      t.mTimerQueuemap = s.mTimerQueuemap.eraseP (·.1 = key) → (t.QueueOk ↔ s.EndsOwn a e) := by
    intro key hk hs hm
    obtain ⟨x, hx⟩ := Option.ne_none_iff_exists'.mp (hdef key hk)
    rw [hs.queueOk hq hx hm, EndsOwn, hk]
    simp only [FindsOwn, hx, Option.map_some, Option.some.injEq]
  cases e with
  | done => exact iff_of_true (Quiet.queueOk h hq) rfl
  | flood => exact hkey rfl h.1 h.2.2
  | ret ret =>
    cases ret with
    | data rd | again => exact iff_of_true (Quiet.queueOk h hq) rfl
    | zero | reset => exact hkey rfl h.1 h.2.2
    | error => exact iff_of_false (h.1.not_queueOk hq h.2.2) (fun he => Bool.noConfusion he)

/-! ## Undefined behaviour -/

theorem erasePing_eq_none_iff : s.erasePing key = none ↔ s.findPing key = none := by
  unfold erasePing findPing
  rw [List.find?_eq_none]
  split_ifs with h
  · obtain ⟨e, he, hk⟩ := List.any_eq_true.mp h
    exact iff_of_false nofun fun hn => hn e he hk
  · refine iff_of_true rfl fun e he hk => h (List.any_eq_true.mpr ⟨e, he, hk⟩)

theorem map_erasePing_eq_none_iff {β : Type} {f : CSocket → β}
    (hmap : t.mTimerQueuemap = s.mTimerQueuemap) :
    (t.erasePing key).map f = none ↔ s.findPing key = none := by
  rw [Option.map_eq_none_iff, erasePing_eq_none_iff, findPing, findPing, hmap]

theorem ngxFreeConSelf_eq_none_iff :
    s.ngxFreeConSelf a = none ↔ s.findPing (s.conn a).storePingTime = none := by
  refine map_erasePing_eq_none_iff ?_
  split_ifs <;> rfl

theorem afterRead_eq_none_iff {r : Connection × Ending} :
    s.afterRead a r = none ↔ ∃ key, closeKey r.1 r.2 = some key ∧ s.findPing key = none := by
  obtain ⟨c, e⟩ := r
  have hself : (s.setConn a c).conn a = c := conn_setConn_self ..
  have hkey : ∀ {key}, closeKey c e = some key →
      ((∃ k, closeKey c e = some k ∧ s.findPing k = none) ↔ s.findPing key = none) := by
    intro key hk
    simp [hk]
  have hnone : ∀ {x : Option (CSocket × List PoolEv)}, x ≠ none → closeKey c e = none →
      (x = none ↔ ∃ k, closeKey c e = some k ∧ s.findPing k = none) := by
    intro x hx hk
    simp [hk, hx]
  cases e with
  | done => exact hnone nofun rfl
  | flood =>
    rw [hkey rfl, afterRead, ngxFreeConSelf_eq_none_iff, hself]
    rfl
  | ret ret =>
    cases ret with
    | data rd | again | error => exact hnone nofun rfl
    | zero | reset =>
      rw [hkey rfl]
      simp only [afterRead, recvproc, hself]
      exact map_erasePing_eq_none_iff rfl

/-- **The end of a read**, undefined behaviour included. -/
theorem tracks_afterRead {r : Connection × Ending} (hi : s.Inv log) (hq : s.QueueOk)
    (hread : ReadsOnly (s.conn a) r.1) (hr : r.2.closes = true → s.Registered a) :
    Tracks ((s.afterRead a r).map Prod.fst) ↔ s.EndsOwn a r.2 := by
  have hsame : closeKey r.1 r.2 = closeKey (s.conn a) r.2 := by
    have h₁ := hread.storePingTime
    have h₂ := hread.lastPingTime
    unfold closeKey
    split <;> simp only [h₁, h₂]
  cases h : s.afterRead a r with
  | none =>
    obtain ⟨key, hk, hf⟩ := afterRead_eq_none_iff.mp h
    rw [hsame] at hk
    refine iff_of_false not_false fun he => ?_
    rw [EndsOwn, hk] at he
    simp [FindsOwn, hf] at he
  | some q =>
    obtain ⟨t, os⟩ := q
    refine (ended_afterRead hi hread hr h).queueOk hq fun key hk hf => ?_
    have hnone : s.afterRead a r = none := afterRead_eq_none_iff.mpr ⟨key, hsame ▸ hk, hf⟩
    rw [h] at hnone
    cases hnone

/-! ## Accepting -/

theorem filter_emplacePing (m : List (ℤ × StrucMsgHeader)) (e : ℤ × StrucMsgHeader)
    (q : ℤ × StrucMsgHeader → Bool) :
    (q e = false → ((emplacePing m e).filter q).Perm (m.filter q)) ∧
      (q e = true → ((emplacePing m e).filter q).Perm (e :: m.filter q)) := by
  have hp := (List.perm_orderedInsert (fun x y => x.1 < y.1) e m).filter q
  constructor
  · intro hq
    rwa [List.filter_cons_of_neg (by simp [hq])] at hp
  · intro hq
    rwa [List.filter_cons_of_pos hq] at hp

theorem Opened.queueOk {fd : ℤ} (h : Opened s fd now a t) (hq : s.QueueOk) : t.QueueOk := by
  have hself : t.entriesOf a = [(now, ⟨a, (t.conn a).iCurrsequence⟩)] := by
    have hp := (filter_emplacePing s.mTimerQueuemap (now, ⟨a, (t.conn a).iCurrsequence⟩)
      fun e => e.2.pConn = a).2 (by simp)
    rw [← h.map, ← entriesOf, ← entriesOf, hq.closed a h.new] at hp
    exact List.perm_singleton.mp hp
  have hother : ∀ b, b ≠ a → (t.entriesOf b).Perm (s.entriesOf b) := by
    intro b hb
    have hp := (filter_emplacePing s.mTimerQueuemap (now, ⟨a, (t.conn a).iCurrsequence⟩)
      fun e => e.2.pConn = b).1 (by simp [Ne.symm hb])
    rwa [← h.map, ← entriesOf, ← entriesOf] at hp
  have hreg : ∀ b, t.Registered b ↔ b = a ∨ s.Registered b := by
    intro b
    rw [Registered, h.epoll, List.map_cons, List.mem_cons]
    rfl
  constructor
  · intro b hb
    by_cases hba : b = a
    · subst hba
      rw [hself, h.store]
    · have hbs := ((hreg b).mp hb).resolve_left hba
      have hp := hother b hba
      rw [hq.live b hbs] at hp
      rw [List.perm_singleton.mp hp, (h.ping b hbs).1, (h.ping b hbs).2]
  · intro b hb
    rw [hreg, not_or] at hb
    have hp := hother b hb.1
    rw [hq.closed b hb.2] at hp
    exact hp.eq_nil

theorem Accepted.queueOk {fd : ℤ} {added : Bool} (h : Accepted cfg s fd now added t)
    (hq : s.QueueOk) : t.QueueOk := by
  unfold Accepted at h
  split_ifs at h with href hadd
  · exact h.queueOk hq
  · obtain ⟨a, ho⟩ := h
    exact ho.queueOk hq
  · obtain ⟨he, hm, -, hp⟩ := h
    -- an accept that is undone changes the count only
    have hquiet : Quiet s { t with mOnlineUserCount := s.mOnlineUserCount } := ⟨he, hm, rfl, hp⟩
    have := hquiet.queueOk hq
    exact ⟨this.live, this.closed⟩

/-! ## The sweep -/

theorem QueueOk.eq_of_mem (hq : s.QueueOk) (he : e ∈ s.mTimerQueuemap) :
    s.Registered e.2.pConn ∧ s.entriesOf e.2.pConn = [e] ∧
      e = ((s.conn e.2.pConn).storePingTime, ⟨e.2.pConn, (s.conn e.2.pConn).iCurrsequence⟩) := by
  have hmem : e ∈ s.entriesOf e.2.pConn := List.mem_filter.mpr ⟨he, by simp⟩
  have hreg : s.Registered e.2.pConn := by
    by_contra hreg
    rw [hq.closed _ hreg] at hmem
    cases hmem
  have hlive := hq.live _ hreg
  have heq := hmem
  rw [hlive, List.mem_singleton] at heq
  exact ⟨hreg, by rw [hlive, ← heq], heq⟩

theorem filter_erase {l : List (ℤ × StrucMsgHeader)} (hl : e ∈ l)
    (q : ℤ × StrucMsgHeader → Bool) :
    (q e = false → ((l.erase e).filter q).Perm (l.filter q)) ∧
      (q e = true → ((l.filter q)).Perm (e :: (l.erase e).filter q)) := by
  have hp := (List.perm_cons_erase hl).filter q
  constructor
  · intro hq
    rw [List.filter_cons_of_neg (by simp [hq])] at hp
    exact hp.symm
  · intro hq
    rwa [List.filter_cons_of_pos hq] at hp

/-- **An entry is moved** to the last ping of its connection, under a key that fits an `int`. -/
theorem rekey_queueOk (hq : s.QueueOk) (he : e ∈ s.mTimerQueuemap) :
    QueueOk { s.setConn e.2.pConn
        { s.conn e.2.pConn with storePingTime := (s.conn e.2.pConn).lastPingTime } with
      mTimerQueuemap := emplacePing (s.mTimerQueuemap.erase e)
        (CNumber.int32 (s.conn e.2.pConn).lastPingTime, e.2) } ↔
    CNumber.int32 (s.conn e.2.pConn).lastPingTime = (s.conn e.2.pConn).lastPingTime := by
  obtain ⟨hreg, hent, heq⟩ := hq.eq_of_mem he
  set a := e.2.pConn with ha
  set k := CNumber.int32 (s.conn a).lastPingTime
  set t : CSocket := { s.setConn a { s.conn a with storePingTime := (s.conn a).lastPingTime } with
    mTimerQueuemap := emplacePing (s.mTimerQueuemap.erase e) (k, e.2) } with ht
  have hself : t.entriesOf a = [(k, e.2)] := by
    have hdel := (filter_erase he fun x => x.2.pConn = a).2 (by simp [ha])
    rw [← entriesOf, hent] at hdel
    have hnil := (List.perm_cons e).mp hdel |>.symm.eq_nil
    have hp := (filter_emplacePing (s.mTimerQueuemap.erase e) (k, e.2) fun x => x.2.pConn = a).2
      (by simp [ha])
    rw [hnil] at hp
    exact List.perm_singleton.mp hp
  have hother : ∀ b, b ≠ a → (t.entriesOf b).Perm (s.entriesOf b) := by
    intro b hb
    have hdel := (filter_erase he fun x => x.2.pConn = b).1 (by simpa [ha] using Ne.symm hb)
    exact ((filter_emplacePing (s.mTimerQueuemap.erase e) (k, e.2) fun x => x.2.pConn = b).1
      (by simpa [ha] using Ne.symm hb)).trans hdel
  have hconn : t.conn a = { s.conn a with storePingTime := (s.conn a).lastPingTime } :=
    conn_setConn_self ..
  have hconn' : ∀ b, b ≠ a → t.conn b = s.conn b := fun b hb => conn_setConn_of_ne _ _ hb
  have hstamp : e.2 = ⟨a, (t.conn a).iCurrsequence⟩ := by
    rw [hconn, heq]
  constructor
  · intro hok
    have hlive := hok.live a hreg
    rw [hself, hconn] at hlive
    simpa using congrArg (fun l => l.map Prod.fst) hlive
  · intro hk
    constructor
    · intro b hb
      by_cases hba : b = a
      · rw [hba, hself, ← hstamp, hk, hconn]
      · have hp := hother b hba
        rw [hq.live b hb] at hp
        rw [List.perm_singleton.mp hp, hconn' b hba]
    · intro b hb
      have hba : b ≠ a := fun h => hb (h ▸ hreg)
      have hp := hother b hba
      rw [hq.closed b hb] at hp
      exact hp.eq_nil

/-- A visit that kicks ends in undefined behaviour, or takes the entry of another connection. -/
theorem kick_not_tracks (hi : s.Inv log) (hq : s.QueueOk) (he : e ∈ s.mTimerQueuemap)
    (hk : s.Kicks e now) :
    ¬ Tracks ((s.sweepStep cfg (.visit e now)).map Prod.fst) := by
  obtain ⟨hreg, hent, heq⟩ := hq.eq_of_mem he
  have hstep : s.step cfg (.visit e now) = s.ngxFreeConSelf e.2.pConn := by
    rw [step, if_pos he, ngxTimeCheckVisit, if_neg (not_not.mpr hk.1), if_pos hk.2.1, if_pos hk]
  simp only [sweepStep, hstep, if_pos hk]
  cases hfree : s.ngxFreeConSelf e.2.pConn with
  | none => exact not_false
  | some r =>
    obtain ⟨u, os⟩ := r
    obtain ⟨hshut, -, hmap⟩ := ended_ngxFreeConSelf hi hreg hfree
    rw [Option.bind_some, eraseKicked]
    split_ifs with hfind
    · exact not_false
    · cases hf : s.findPing (s.conn e.2.pConn).storePingTime with
      | none =>
        rw [ngxFreeConSelf_eq_none_iff.mpr hf] at hfree
        cases hfree
      | some x =>
        intro ht
        obtain ⟨hx, -⟩ := findPing_pConn hq hf
        have hne : x.2.pConn ≠ e.2.pConn := by
          intro hp
          have hmem : x ∈ s.entriesOf e.2.pConn :=
            List.mem_filter.mpr ⟨List.mem_of_find?_eq_some hf, by simp [hp]⟩
          rw [hent, List.mem_singleton] at hmem
          exact hfind (hmem ▸ hf)
        have hlive := QueueOk.live ht x.2.pConn (hshut.registered_iff.mpr ⟨hx, hne⟩)
        -- the entry of `x` is gone
        have hlen := (filter_eraseP_of_find (q := fun y => decide (y.2.pConn = x.2.pConn)) hf).2
          (by simp)
        rw [← hmap] at hlen
        have hone := congrArg List.length (hq.live _ hx)
        have hsub := ((List.erase_sublist (a := e) (l := u.mTimerQueuemap)).filter
          fun y => decide (y.2.pConn = x.2.pConn)).length_le
        have hlen' := congrArg List.length hlive
        simp only [entriesOf, List.length_singleton] at hone hlen'
        omega

/-- **A visit of the sweep** keeps the queue exactly where it kicks nobody and moves the entry to a
ping time that fits an `int`. -/
theorem tracks_visit (hi : s.Inv log) (hq : s.QueueOk) (he : e ∈ s.mTimerQueuemap) :
    Tracks ((s.sweepStep cfg (.visit e now)).map Prod.fst) ↔ s.ErasesOwn cfg (.visit e now) := by
  by_cases hk : s.Kicks e now
  · exact iff_of_false (kick_not_tracks hi hq he hk) fun h => h.1 hk
  obtain ⟨hreg, hent, heq⟩ := hq.eq_of_mem he
  have hseq : e.2.iCurrsequence = (s.conn e.2.pConn).iCurrsequence := by
    have := congrArg (fun x => x.2.iCurrsequence) heq
    exact this
  have hstep : s.sweepStep cfg (.visit e now) = s.ngxTimeCheckVisit e now := by
    simp only [sweepStep, if_neg hk, Option.bind_fun_some, step, if_pos he]
  have hiff : s.ErasesOwn cfg (.visit e now) ↔ (pingTimeout ≤ now - e.1 →
      CNumber.int32 (s.conn e.2.pConn).lastPingTime = (s.conn e.2.pConn).lastPingTime) :=
    and_iff_right hk
  rw [hstep, hiff, ngxTimeCheckVisit, if_neg (not_not.mpr hseq)]
  by_cases htime : pingTimeout ≤ now - e.1
  · rw [if_pos htime, if_neg hk, forall_prop_of_true htime]
    exact rekey_queueOk hq he
  · rw [if_neg htime]
    exact iff_of_true hq fun h => absurd h htime

/-! ## Any step -/

/-- **A step** of the process with the whole sweep keeps track of the open connections exactly where
its erases find the right entries. -/
theorem tracks_step {i : Step} (hi : s.Inv log) (hq : s.QueueOk) (he : s.Enabled cfg i)
    (hg : s.ClosesRegistered cfg i) :
    Tracks ((s.sweepStep cfg i).map Prod.fst) ↔ s.ErasesOwn cfg i := by
  -- a step that is defined and keeps the queue
  have hgood : (s.step cfg i).isSome → (∀ t, Effect cfg s t i → t.QueueOk) →
      Tracks ((s.step cfg i).map Prod.fst) := by
    intro hd ht
    obtain ⟨⟨t, os⟩, hs⟩ := Option.isSome_iff_exists.mp hd
    rw [hs]
    exact ht t (step_effect hi hg hs)
  cases i with
  | accept fd now added =>
    refine iff_of_true (hgood ?_ fun t ht => ht.queueOk hq) trivial
    have hfd : ¬ (fd < 0 ∨ fd ∈ s.fds) := by
      rw [not_or, not_lt]
      exact he
    rw [step, ngxEventAccept, if_neg hfd]
    by_cases hmax : cfg.mWorkerConnections < s.mOnlineUserCount
    · rw [if_pos hmax]
      rfl
    · rw [if_neg hmax]
      cases s.pool.ngxGetConnection cfg fd with
      | none => rfl
      | some q => cases added <;> rfl
  | wait as =>
    have he : s.mEvents = [] ∧ as.Nodup ∧ ∀ a ∈ as, s.Registered a := he
    exact iff_of_true (hgood (by rw [step, if_pos he]; rfl) fun t ht => ht.queueOk hq) trivial
  | edge a =>
    have he : cfg.mETflag = .etOpen ∧ s.NextEvent a := he
    exact iff_of_true (hgood (by rw [step, if_pos he]; rfl) fun t ht => ht.queueOk hq) trivial
  | write a =>
    have he : s.NextEvent a := he
    exact iff_of_true (hgood (by rw [step, if_pos he]; rfl) fun t ht => ht.queueOk hq) trivial
  | ping m now =>
    refine iff_of_true (hgood ?_ fun t ht => ht.queueOk hq) trivial
    rw [step]
    split_ifs <;> rfl
  | expire a =>
    have he : a ∈ s.timerBuf := he
    exact iff_of_true (hgood (by rw [step, if_pos he]; rfl) fun t ht => ht.queueOk hq) trivial
  | timerFree =>
    refine iff_of_true (hgood ?_ fun t ht => ht.queueOk hq) trivial
    rw [step, ngxTimerFreeConnection]
    split
    · rename_i hnil
      exact absurd hnil he
    · rfl
  | visit e now => exact tracks_visit hi hq he
  | task a rets =>
    obtain ⟨hmem, hsome⟩ := he
    obtain ⟨r, hr⟩ := Option.isSome_iff_exists.mp hsome
    have hb : ({ s with taskBuf := s.taskBuf.erase a } : CSocket).Inv log :=
      Books.lists hi rfl rfl rfl (fun b hb => hi.task b (List.mem_of_mem_erase hb)) hi.event
        hi.ping
    have hq' : ({ s with taskBuf := s.taskBuf.erase a } : CSocket).QueueOk := ⟨hq.live, hq.closed⟩
    have ht := tracks_afterRead hb hq' (ReadsOnly.etTask hr) fun hc => hg (by rw [hr]; exact hc)
    rw [ErasesOwn, hr]
    simp only [sweepStep, step, if_pos hmem, hr, Option.bind_some, ht, Option.all_some,
      decide_eq_true_eq]
    rfl
  | read a ret =>
    obtain ⟨hmode, hnext, hsome⟩ := he
    obtain ⟨r, hr⟩ := Option.isSome_iff_exists.mp hsome
    have hq' : s.takeEvent.QueueOk := ⟨hq.live, hq.closed⟩
    have ht := tracks_afterRead (inv_takeEvent hi) hq' (ReadsOnly.ltCall hr) fun hc =>
      hg (by rw [hr]; exact hc)
    rw [ErasesOwn, hr]
    simp only [sweepStep, step, if_pos (And.intro hmode hnext), hr, Option.bind_some, ht,
      Option.all_some, decide_eq_true_eq]
    rfl
  | hup a =>
    have hnext : s.NextEvent a := he
    have hread : s.takeEvent.afterRead a (s.conn a, .ret .zero) =
        (s.takeEvent.setConn a (s.conn a)).ngxEvhupHandler a := rfl
    have hself : s.takeEvent.setConn a (s.conn a) = s.takeEvent := by
      unfold setConn Pool.set conn takeEvent
      rw [Function.update_eq_self]
    have hq' : s.takeEvent.QueueOk := ⟨hq.live, hq.closed⟩
    have ht := tracks_afterRead (r := (s.conn a, .ret .zero)) (inv_takeEvent hi) hq' rfl
      fun _ => hg
    rw [hread, hself] at ht
    simp only [sweepStep, step, if_pos hnext, ht]
    rfl

/-! ## Runs -/

theorem sweepStep_eq {i : Step} (h : s.ErasesOwn cfg i) : s.sweepStep cfg i = s.step cfg i := by
  cases i with
  | visit e now =>
    have hk : ¬ s.Kicks e now := h.1
    simp only [sweepStep, if_neg hk, Option.bind_fun_some]
  | accept | wait | edge | task | read | hup | write | ping | expire | timerFree => rfl

/-- A step that can be taken, whose closes find their connection open. -/
def ClosesEnabled (cfg : Conf) : Option CSocket → Step → Prop
  | none, _ => False
  | some s, i => s.Enabled cfg i ∧ s.ClosesRegistered cfg i

/-- A step whose erases find the right entries. -/
def ErasesRight (cfg : Conf) : Option CSocket → Step → Prop
  | none, _ => False
  | some s, i => s.ErasesOwn cfg i

instance (cfg : Conf) : ∀ x i, Decidable (ClosesEnabled cfg x i)
  | none, _ => isFalse id
  | some _, _ => inferInstanceAs (Decidable (_ ∧ _))

instance (cfg : Conf) : ∀ x i, Decidable (ErasesRight cfg x i)
  | none, _ => isFalse id
  | some s, i => inferInstanceAs (Decidable (s.ErasesOwn cfg i))

theorem beat_some {i : Step} (he : s.Enabled cfg i) : ∃ os, beat cfg (some s) i =
    some ((s.sweepStep cfg i).map Prod.fst, os) := by
  simp only [beat, if_pos he]
  cases s.sweepStep cfg i with
  | none => exact ⟨[], rfl⟩
  | some r => exact ⟨r.2, rfl⟩

/-- **The heartbeat queue tracks exactly the open connections**, and every erase has a valid
iterator, in every state of a run from the initialisation of the process on whose closes find their
connection open, if and only if every close of the run erases the entry of its own connection, no
sweep kicks a connection, and the ping times it moves entries to fit an `int`. -/
theorem queueOk_iff (cfg : Conf) (heap : Addr → Connection) (listen : List ℤ) (s : CSocket)
    (is : List Step) (hs : ngxEpollInit cfg heap listen = some s)
    (hv : Run.Guarded (beat cfg) (ClosesEnabled cfg) (some s) is) :
    Run.Always (beat cfg) Tracks (some s) is ↔
      Run.Guarded (beat cfg) (ErasesRight cfg) (some s) is := by
  have h₀ := inv_ngxEpollInit hs
  have hq : s.QueueOk := by
    obtain ⟨p, -, rfl⟩ := Option.map_eq_some_iff.mp hs
    exact ⟨fun a ha => absurd ha List.not_mem_nil, fun a _ => rfl⟩
  refine Run.always_iff_guarded (I := fun x => ∃ t log, x = some t ∧ t.Inv log) ?_
    ⟨s, [], rfl, h₀⟩ hq hv
  rintro - i ⟨t, log, rfl, hi⟩ hok ⟨he, hg⟩
  obtain ⟨os, hbeat⟩ := beat_some he
  have hiff := tracks_step hi hok he hg
  refine ⟨_, os, hbeat, hiff, fun ht => ?_⟩
  have hown := hiff.mp ht
  rw [sweepStep_eq hown] at ht ⊢
  cases hstep : t.step cfg i with
  | none =>
    rw [hstep] at ht
    exact ht.elim
  | some r => exact ⟨r.1, _, rfl, step_inv hi hg hstep⟩

/-- Two connections of different seconds, one of which closes. -/
theorem queueOk_two_seconds :
    let cfg : Conf := ⟨4, .etOpen, 0, 100, 10⟩
    let s := (ngxEpollInit cfg (fun _ => .zero) [3]).get rfl
    Run.Always (beat cfg) Tracks (some s)
      [.accept 5 100 true, .accept 6 101 true, .ping ⟨⟨0, 1⟩, 1⟩ 160,
        .visit (100, ⟨⟨0, 1⟩, 1⟩) 171, .wait [⟨0, 2⟩], .edge ⟨0, 2⟩, .task ⟨0, 2⟩ [.zero]] :=
  (queueOk_iff ⟨4, .etOpen, 0, 100, 10⟩ (fun _ => .zero) [3] _ _ (Option.some_get _).symm
    (by decide +kernel)).mpr (by decide +kernel)

/-- **Two connections of the same second**: the second closes, and the entry of the first goes. -/
theorem not_queueOk : ¬ ∀ (cfg : Conf) (heap : Addr → Connection) (listen : List ℤ) (s : CSocket)
    (is : List Step), ngxEpollInit cfg heap listen = some s →
    Run.Guarded (beat cfg) (ClosesEnabled cfg) (some s) is →
      Run.Always (beat cfg) Tracks (some s) is := by
  intro h
  have ha := h ⟨4, .etClose, 0, 100, 10⟩ (fun _ => .zero) [3]
    ((ngxEpollInit ⟨4, .etClose, 0, 100, 10⟩ (fun _ => .zero) [3]).get (by decide +kernel))
    [.accept 5 100 true, .accept 6 100 true, .wait [⟨0, 2⟩], .read ⟨0, 2⟩ .zero]
    (Option.some_get _).symm (by decide +kernel)
  -- the first connection is open and has no entry
  have hlost : ∀ x, Tracks x → ∀ t ∈ x, Registered t ⟨0, 1⟩ → t.entriesOf ⟨0, 1⟩ ≠ [] := by
    rintro x hx t rfl hr
    rw [QueueOk.live hx ⟨0, 1⟩ hr]
    exact List.cons_ne_nil _ _
  exact absurd (ha.imp hlost) (by decide +kernel)

end CSocket

end ServerNginx
