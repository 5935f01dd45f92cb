import ServerNginx.Net.ReleasedOnce

set_option autoImplicit false

/-!
# What a step does to the open connections

The epoll set, the heartbeat queue, the count of users and the ping data of the registered
connections, behind a step whose closes find their connection registered.

* `Quiet`, `Shut`: nothing has changed; connection `a` has left the epoll set;
* `Ended`: what the end of a read does; `Effect`: what a step does;
* **`step_effect`**: a step has the effect.
-/

namespace ServerNginx

namespace CSocket

/-- The ping data that the queue has to match. -/
def SamePing (c c' : Connection) : Prop :=
  c'.storePingTime = c.storePingTime ∧ c'.iCurrsequence = c.iCurrsequence

/-- Nothing has happened to the open connections. -/
structure Quiet (s t : CSocket) : Prop where
  epoll : t.epoll = s.epoll
  map : t.mTimerQueuemap = s.mTimerQueuemap
  count : t.mOnlineUserCount = s.mOnlineUserCount
  ping : ∀ b, s.Registered b → SamePing (s.conn b) (t.conn b)

/-- Connection `a` has left the epoll set. -/
structure Shut (s : CSocket) (a : Addr) (t : CSocket) : Prop where
  reg : s.Registered a
  epoll : t.epoll = s.epoll.filter fun e => e.2 ≠ a
  ping : ∀ b, s.Registered b → b ≠ a → SamePing (s.conn b) (t.conn b)

/-- Connection `a` has been accepted under `fd` and entered into the queue. -/
structure Opened (s : CSocket) (fd now : ℤ) (a : Addr) (t : CSocket) : Prop where
  new : ¬ s.Registered a
  epoll : t.epoll = (fd, a) :: s.epoll
  map : t.mTimerQueuemap = emplacePing s.mTimerQueuemap (now, ⟨a, (t.conn a).iCurrsequence⟩)
  count : t.mOnlineUserCount = s.mOnlineUserCount + 1
  store : (t.conn a).storePingTime = now
  ping : ∀ b, s.Registered b → SamePing (s.conn b) (t.conn b)

/-- What the end of a read does to connection `a`. -/
def Ended (s : CSocket) (a : Addr) (t : CSocket) : Ending → Prop
  | .done => Quiet s t
  | .flood => Shut s a t ∧ t.mOnlineUserCount = s.mOnlineUserCount - 1 ∧
      t.mTimerQueuemap = s.mTimerQueuemap.eraseP (·.1 = (s.conn a).storePingTime)
  | .ret .zero => Shut s a t ∧ t.mOnlineUserCount = s.mOnlineUserCount - 1 ∧
      t.mTimerQueuemap = s.mTimerQueuemap.eraseP (·.1 = (s.conn a).storePingTime)
  | .ret .reset => Shut s a t ∧ t.mOnlineUserCount = s.mOnlineUserCount ∧
      t.mTimerQueuemap = s.mTimerQueuemap.eraseP (·.1 = (s.conn a).lastPingTime)
  | .ret .error => Shut s a t ∧ t.mOnlineUserCount = s.mOnlineUserCount ∧
      t.mTimerQueuemap = s.mTimerQueuemap
  | .ret (.data _) => Quiet s t
  | .ret .again => Quiet s t

/-- The connection is refused, for the number of users or for want of a slot. -/
def Refuses (cfg : Conf) (s : CSocket) : Prop :=
  cfg.mWorkerConnections < s.mOnlineUserCount ∨ s.pool.mPfreeConnections = none

instance (cfg : Conf) (s : CSocket) : Decidable (s.Refuses cfg) :=
  inferInstanceAs (Decidable (_ ∨ _))

/-- What an accept does. -/
def Accepted (cfg : Conf) (s : CSocket) (fd now : ℤ) (added : Bool) (t : CSocket) : Prop :=
  if s.Refuses cfg then Quiet s t
  else if added then ∃ a, Opened s fd now a t
  else t.epoll = s.epoll ∧ t.mTimerQueuemap = s.mTimerQueuemap ∧
    t.mOnlineUserCount = s.mOnlineUserCount + 1 ∧
    ∀ b, s.Registered b → SamePing (s.conn b) (t.conn b)

/-- What a visit of the sweep does, before its entry is erased behind a kick. -/
def Visited (s : CSocket) (e : ℤ × StrucMsgHeader) (now : ℤ) (t : CSocket) : Prop :=
  let a := e.2.pConn
  if e.2.iCurrsequence ≠ (s.conn a).iCurrsequence then
    t = { s with mTimerQueuemap := s.mTimerQueuemap.erase e }
  else if s.Kicks e now then Ended s a t .flood
  else if pingTimeout ≤ now - e.1 then
    t = { s.setConn a { s.conn a with storePingTime := (s.conn a).lastPingTime } with
      mTimerQueuemap := emplacePing (s.mTimerQueuemap.erase e)
        (CNumber.int32 (s.conn a).lastPingTime, e.2) }
  else t = s

/-- **What a step does** to the open connections. -/
def Effect (cfg : Conf) (s : CSocket) (t : CSocket) : Step → Prop
  | .accept fd now added => Accepted cfg s fd now added t
  | .task a rets => ∃ r, recvprocETTask cfg a (s.conn a) rets = some r ∧ Ended s a t r.2
  | .read a ret => ∃ r, ngxReadRequestHandlerCall cfg a (s.conn a) ret = some r ∧ Ended s a t r.2
  | .hup a => Ended s a t (.ret .zero)
  | .visit e now => Visited s e now t
  | _ => Quiet s t

variable {cfg : Conf} {s t u : CSocket} {log os : List PoolEv} {a b : Addr} {key : ℤ}

theorem SamePing.refl (c : Connection) : SamePing c c := ⟨rfl, rfl⟩

theorem Quiet.refl (s : CSocket) : Quiet s s := ⟨rfl, rfl, rfl, fun _ _ => .refl _⟩

/-! ## Closing -/

theorem shut_del (hi : s.Inv log) (hr : s.Registered a)
    (ht : t.epoll = (s.ngxEpollDelEvent a).epoll)
    (hconn : ∀ b, b ≠ a → t.conn b = s.conn b) : Shut s a t where
  reg := hr
  epoll := ht.trans (hi.ngxEpollDelEvent_epoll hr)
  ping b _ hba := by
    rw [hconn b hba]
    exact .refl _

theorem ended_later (hi : s.Inv log) (hr : s.Registered a)
    (ht : t.epoll = (s.ngxEpollDelEvent a).epoll) (hconn : ∀ b, b ≠ a → t.conn b = s.conn b)
    (hmap : t.mTimerQueuemap = s.mTimerQueuemap) (h : (t.addTimer a).erasePing key = some u) :
    Shut s a u ∧ u.mOnlineUserCount = t.mOnlineUserCount ∧
      u.mTimerQueuemap = s.mTimerQueuemap.eraseP (·.1 = key) := by
  obtain rfl := eq_of_erasePing h
  refine ⟨shut_del hi hr ht hconn, rfl, ?_⟩
  change t.mTimerQueuemap.eraseP _ = _
  rw [hmap]

theorem ended_ngxFreeConSelf (hi : s.Inv log) (hr : s.Registered a)
    (h : s.ngxFreeConSelf a = some (t, os)) : Ended s a t .flood := by
  obtain ⟨u, hu, he⟩ := Option.map_eq_some_iff.mp h
  cases he
  by_cases hfd : (s.conn a).fd = -1
  · simp only [hfd, ne_eq, not_true_eq_false, if_false] at hu
    exact ended_later (t := (s.ngxEpollDelEvent a).offline) hi hr rfl (fun _ _ => rfl) rfl hu
  · simp only [ne_eq, hfd, not_false_eq_true, if_true] at hu
    refine ended_later (t := (((s.ngxEpollDelEvent a).closeFd (s.conn a).fd).setConn a
      { s.conn a with fd := -1 }).offline) hi hr ?_ (fun b hb => conn_setConn_of_ne _ _ hb) rfl hu
    -- the descriptor has left the set before it is closed
    apply List.filter_eq_self.mpr
    exact fun e he => (List.mem_filter.mp he).2

theorem quiet_close (hb : Books s (a :: (s.timerBuf ++ s.mRecyconnectionList)) log) :
    Quiet s (s.ngxCloseConnection a).1 := by
  obtain ⟨hget, hreg, -, hfree, -⟩ := hb.of_mem_pend List.mem_cons_self
  have hconn : ∀ b, s.Registered b → (s.ngxCloseConnection a).1.conn b = s.conn b := by
    intro b hbr
    have hba : b ≠ a := fun h => hreg (h ▸ hbr)
    unfold ngxCloseConnection conn
    dsimp only
    rw [Pool.ngxFreeConnection_mem hba]
    split_ifs
    · exact conn_setConn_of_ne _ _ hba
    · exact conn_setConn_of_ne _ _ hba
  refine ⟨?_, ?_, ?_, fun b hbr => ?_⟩
  · simp only [ngxCloseConnection]
    split_ifs with hfd
    · exact hb.closeFd_epoll hget hfree hreg hfd
    · rfl
  · simp only [ngxCloseConnection]
    split_ifs <;> rfl
  · simp only [ngxCloseConnection]
    split_ifs <;> rfl
  · rw [hconn b hbr]
    exact .refl _

/-! ## The steps -/

/-- What the end of a read does, seen from an earlier state in which the open connections were the
same. -/
theorem Ended.of_same {e : Ending} (hepoll : u.epoll = s.epoll)
    (hmap : u.mTimerQueuemap = s.mTimerQueuemap) (hcount : u.mOnlineUserCount = s.mOnlineUserCount)
    (hping : ∀ b, SamePing (s.conn b) (u.conn b))
    (hlast : (u.conn a).lastPingTime = (s.conn a).lastPingTime) (h : Ended u a t e) :
    Ended s a t e := by
  have htrans : ∀ {b}, SamePing (u.conn b) (t.conn b) → SamePing (s.conn b) (t.conn b) :=
    fun {b} h => ⟨h.1.trans (hping b).1, h.2.trans (hping b).2⟩
  have hreg : ∀ {b}, s.Registered b ↔ u.Registered b := fun {b} => by
    rw [Registered, Registered, hepoll]
  have hquiet : Quiet u t → Quiet s t := fun h =>
    ⟨h.epoll.trans hepoll, h.map.trans hmap, h.count.trans hcount,
      fun b hb => htrans (h.ping b (hreg.mp hb))⟩
  have hshut : Shut u a t → Shut s a t := fun h =>
    ⟨hreg.mpr h.reg, by rw [h.epoll, hepoll], fun b hb hba => htrans (h.ping b (hreg.mp hb) hba)⟩
  have hstore : (u.conn a).storePingTime = (s.conn a).storePingTime := (hping a).1
  cases e with
  | done => exact hquiet h
  | flood =>
    obtain ⟨hsh, hc, hm⟩ := h
    exact ⟨hshut hsh, by rw [hc, hcount], by rw [hm, hmap, hstore]⟩
  | ret ret =>
    cases ret with
    | data rd => exact hquiet h
    | again => exact hquiet h
    | zero =>
      obtain ⟨hsh, hc, hm⟩ := h
      exact ⟨hshut hsh, by rw [hc, hcount], by rw [hm, hmap, hstore]⟩
    | reset =>
      obtain ⟨hsh, hc, hm⟩ := h
      exact ⟨hshut hsh, hc.trans hcount, by rw [hm, hmap, hlast]⟩
    | error =>
      obtain ⟨hsh, hc, hm⟩ := h
      exact ⟨hshut hsh, hc.trans hcount, hm.trans hmap⟩

theorem samePing_setConn {c : Connection} (hs : SamePing (s.conn a) c) (b : Addr) :
    SamePing (s.conn b) ((s.setConn a c).conn b) := by
  by_cases hba : b = a
  · subst hba
    rw [conn_setConn_self]
    exact hs
  · rw [conn_setConn_of_ne _ _ hba]
    exact .refl _

theorem ended_recvproc (ret : RecvRet) (hi : s.Inv log)
    (hr : (Ending.ret ret).closes = true → s.Registered a)
    (h : s.recvproc a ret = some (t, os)) : Ended s a t (.ret ret) := by
  cases ret with
  | data rd | again =>
    cases h
    exact .refl s
  | zero =>
    obtain ⟨u, hu, he⟩ := Option.map_eq_some_iff.mp h
    cases he
    exact ended_later (t := (s.ngxEpollDelEvent a).offline) hi (hr rfl) rfl (fun _ _ => rfl) rfl hu
  | reset =>
    obtain ⟨u, hu, he⟩ := Option.map_eq_some_iff.mp h
    cases he
    exact ended_later (t := s.ngxEpollDelEvent a) hi (hr rfl) rfl (fun _ _ => rfl) rfl hu
  | error =>
    obtain ⟨rfl, -⟩ : t = ((s.ngxEpollDelEvent a).ngxCloseConnection a).1 ∧
        os = .release a :: ((s.ngxEpollDelEvent a).ngxCloseConnection a).2 := by
      cases h
      exact ⟨rfl, rfl⟩
    have hdel := hi.schedule (hr rfl)
    have hq : Quiet (s.ngxEpollDelEvent a) ((s.ngxEpollDelEvent a).ngxCloseConnection a).1 :=
      quiet_close hdel
    refine ⟨⟨hr rfl, hq.epoll.trans (hi.ngxEpollDelEvent_epoll (hr rfl)), fun b hb hba => ?_⟩,
      hq.count, hq.map⟩
    apply hq.ping b
    obtain ⟨e, he, rfl⟩ := List.mem_map.mp hb
    rw [Registered, hi.ngxEpollDelEvent_epoll (hr rfl)]
    exact List.mem_map.mpr ⟨e, List.mem_filter.mpr ⟨he, decide_eq_true hba⟩, rfl⟩

theorem ended_afterRead {r : Connection × Ending} (hi : s.Inv log)
    (hread : ReadsOnly (s.conn a) r.1) (hr : r.2.closes = true → s.Registered a)
    (h : s.afterRead a r = some (t, os)) : Ended s a t r.2 := by
  have hset : (s.setConn a r.1).Inv log := Books.touch hi hread.fd hread.next hread.logicObj
  refine Ended.of_same (u := s.setConn a r.1) rfl rfl rfl
    (samePing_setConn ⟨hread.storePingTime, hread.iCurrsequence⟩)
    (by rw [conn_setConn_self, hread.lastPingTime]) ?_
  obtain ⟨c, e⟩ := r
  cases e with
  | done =>
    cases h
    exact .refl _
  | flood => exact ended_ngxFreeConSelf hset (hr rfl) h
  | ret ret => exact ended_recvproc ret hset hr h

theorem get_eq_none {p : Pool} {fd : ℤ} :
    p.ngxGetConnection cfg fd = none ↔ p.mPfreeConnections = none := by
  rw [Pool.ngxGetConnection, Option.map_eq_none_iff]

theorem ngxAddCheck_conn_self (s : CSocket) (now : ℤ) : (s.ngxAddCheck a now).conn a =
    { s.conn a with lastPingTime := now, storePingTime := now } := conn_setConn_self ..

theorem ngxAddCheck_conn_of_ne (s : CSocket) (now : ℤ) (h : b ≠ a) :
    (s.ngxAddCheck a now).conn b = s.conn b := conn_setConn_of_ne _ _ h

theorem takeConn_conn {fd : ℤ} {pool : Pool} (hi : s.Inv log)
    (hget : s.pool.ngxGetConnection cfg fd = some (a, pool)) (hreg : ¬ s.Registered a)
    (hb : s.Registered b) : (s.takeConn fd a pool).conn b = s.conn b := by
  have hba : b ≠ a := fun h => hreg (h ▸ hb)
  obtain ⟨xs, hx, -⟩ := hi.free
  obtain ⟨xs', ys, -, ht⟩ := Pool.ngxGetConnection_taken hx hget
  simp only [takeConn, conn, Pool.set, Function.update_of_ne hba]
  exact ht.frame b hba (hi.block b (hi.get_of_registered hb))

theorem accepted_ngxEventAccept {fd now : ℤ} {added : Bool} (hi : s.Inv log)
    (h : s.ngxEventAccept cfg fd now added = some (t, os)) : Accepted cfg s fd now added t := by
  obtain ⟨hfd, ⟨href, rfl, -⟩ | ⟨a, pool, hmax, hget, hcase⟩⟩ := ngxEventAccept_cases h
  · rw [get_eq_none] at href
    have hre : t.Refuses cfg := href
    rw [Accepted, if_pos hre]
    exact .refl _
  · have hnot : ¬ s.Refuses cfg := by
      rintro (hm | hn)
      · exact hmax hm
      · rw [get_eq_none.mpr hn] at hget
        cases hget
    obtain ⟨hb, hreg⟩ := books_takeConn hi hget hfd
    have hconn : ∀ b, s.Registered b → (s.takeConn fd a pool).conn b = s.conn b :=
      fun b hb => takeConn_conn hi hget hreg hb
    rw [Accepted, if_neg hnot]
    rcases hcase with ⟨rfl, -, rfl⟩ | ⟨rfl, -, rfl⟩
    · rw [if_pos rfl]
      refine ⟨a, hreg, rfl, ?_, rfl, ?_, fun b hb => ?_⟩
      · rw [ngxAddCheck_conn_self]
        rfl
      · rw [ngxAddCheck_conn_self]
      · have hba : b ≠ a := fun h => hreg (h ▸ hb)
        have hc := hconn b hb
        rw [ngxAddCheck_conn_of_ne _ _ hba]
        change SamePing _ ((s.takeConn fd a pool).conn b)
        rw [hc]
        exact .refl _
    · have hq := quiet_close (books_refused hi hget hfd)
      rw [if_neg Bool.false_ne_true]
      refine ⟨hq.epoll, hq.map, hq.count, fun b hb => ?_⟩
      have hc := hq.ping b hb
      rw [hconn b hb] at hc
      exact hc

theorem visited_ngxTimeCheckVisit {e : ℤ × StrucMsgHeader} {now : ℤ} (hi : s.Inv log)
    (hr : s.Kicks e now → s.Registered e.2.pConn)
    (h : s.ngxTimeCheckVisit e now = some (t, os)) : Visited s e now t := by
  unfold ngxTimeCheckVisit at h
  unfold Visited
  dsimp only at h ⊢
  by_cases hseq : e.2.iCurrsequence ≠ (s.conn e.2.pConn).iCurrsequence
  · rw [if_pos hseq] at h ⊢
    cases h
    rfl
  rw [if_neg hseq] at h ⊢
  by_cases hk : s.Kicks e now
  · rw [if_pos hk.2.1, if_pos hk] at h
    rw [if_pos hk]
    exact ended_ngxFreeConSelf hi (hr hk) h
  · rw [if_neg hk]
    by_cases htime : pingTimeout ≤ now - e.1
    · rw [if_pos htime, if_neg hk] at h
      rw [if_pos htime]
      cases h
      rfl
    · rw [if_neg htime] at h ⊢
      cases h
      rfl

/-- **A step has its effect** on the open connections. -/
theorem step_effect {i : Step} (hi : s.Inv log) (hg : s.ClosesRegistered cfg i)
    (h : s.step cfg i = some (t, os)) : Effect cfg s t i := by
  cases i with
  | accept fd now added => exact accepted_ngxEventAccept hi h
  | wait as | edge a | write a =>
    simp only [step] at h
    split_ifs at h
    cases h
    exact ⟨rfl, rfl, rfl, fun _ _ => .refl _⟩
  | task a rets =>
    simp only [step] at h
    split_ifs at h
    obtain ⟨r, hr, h⟩ := Option.bind_eq_some_iff.mp h
    have hb : ({ s with taskBuf := s.taskBuf.erase a } : CSocket).Inv log :=
      Books.lists hi rfl rfl rfl (fun b hb => hi.task b (List.mem_of_mem_erase hb)) hi.event
        hi.ping
    have he := ended_afterRead hb (ReadsOnly.etTask hr) (fun hc => hg (by rw [hr]; exact hc)) h
    exact ⟨r, hr, Ended.of_same (s := s) (u := { s with taskBuf := s.taskBuf.erase a }) rfl rfl rfl
      (fun _ => .refl _) rfl he⟩
  | read a ret =>
    simp only [step] at h
    split_ifs at h
    obtain ⟨r, hr, h⟩ := Option.bind_eq_some_iff.mp h
    have he := ended_afterRead (inv_takeEvent hi) (ReadsOnly.ltCall hr)
      (fun hc => hg (by rw [hr]; exact hc)) h
    exact ⟨r, hr, Ended.of_same (u := s.takeEvent) rfl rfl rfl (fun _ => .refl _) rfl he⟩
  | hup a =>
    simp only [step] at h
    split_ifs at h
    have he := ended_recvproc .zero (inv_takeEvent hi) (fun _ => hg) h
    exact Ended.of_same (s := s) (u := s.takeEvent) rfl rfl rfl (fun _ => .refl _) rfl he
  | ping m now =>
    simp only [step] at h
    split_ifs at h
    · cases h
      have hs : SamePing (s.conn m.pConn) { s.conn m.pConn with lastPingTime := now } := ⟨rfl, rfl⟩
      exact ⟨rfl, rfl, rfl, fun b _ => samePing_setConn hs b⟩
    · cases h
      exact .refl s
  | visit e now =>
    simp only [step] at h
    split_ifs at h
    exact visited_ngxTimeCheckVisit hi hg h
  | expire a =>
    simp only [step] at h
    split_ifs at h
    cases h
    exact ⟨rfl, rfl, rfl, fun _ _ => .refl _⟩
  | timerFree =>
    simp only [step, ngxTimerFreeConnection] at h
    cases hl : s.mRecyconnectionList with
    | nil =>
      rw [hl] at h
      cases h
    | cons con rest =>
      rw [hl] at h
      obtain rfl : t = (({ s with mRecyconnectionList := rest }).ngxCloseConnection con).1 := by
        cases h
        rfl
      have hb := Books.congr_pend hi (con :: (s.timerBuf ++ rest)) fun b => by
        rw [hl]
        simp only [List.count_append, List.count_cons]
        omega
      have hq := quiet_close (s := { s with mRecyconnectionList := rest })
        (hb.lists rfl rfl rfl hb.task hb.event hb.ping)
      exact ⟨hq.epoll, hq.map, hq.count, hq.ping⟩

end CSocket

end ServerNginx
