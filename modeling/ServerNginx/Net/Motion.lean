import ServerNginx.Net.Effect

set_option autoImplicit false

/-!
# How a slot moves

Behind a step whose closes find their connection registered: which slot has moved, and between
which lists.

* `Motion`: the slot leaves the free list, is taken out of epoll, waits for its timer, for
  `ngx_timer_free_connection`, or goes back to the free list;
* **`step_motion`**: a step moves one slot at most;
* `Motion.keeps`: a slot under way that stays under way is neither taken nor released.
-/

namespace ServerNginx

namespace CSocket

/-- The lists of the slots under way have not changed. -/
def SameLists (s t : CSocket) : Prop :=
  t.timerBuf = s.timerBuf ∧ t.mRecyconnectionList = s.mRecyconnectionList

/-- The move of a slot, with the events it is seen by. -/
inductive Motion (s : CSocket) (i : Step) (t : CSocket) : List PoolEv → Prop
  | none (hl : SameLists s t) : Motion s i t []
  /-- accepted -/
  | get (a : Addr) (ha : s.pool.mPfreeConnections = some a) (hl : SameLists s t) :
      Motion s i t [.get a]
  /-- accepted, refused by epoll, and closed -/
  | refuse (a : Addr) (dels : List PoolEv) (hd : ∀ e ∈ dels, e = .delete a)
      (ha : s.pool.mPfreeConnections = some a) (hl : SameLists s t) :
      Motion s i t (.get a :: .release a :: .free a :: dels)
  /-- closed behind a timer -/
  | release (a : Addr) (ha : s.Registered a) (ht : t.timerBuf = s.timerBuf ++ [a])
      (hr : t.mRecyconnectionList = s.mRecyconnectionList) : Motion s i t [.release a]
  /-- closed at once -/
  | drop (a : Addr) (dels : List PoolEv) (hd : ∀ e ∈ dels, e = .delete a) (ha : s.Registered a)
      (hl : SameLists s t) : Motion s i t (.release a :: .free a :: dels)
  | expire (a : Addr) (hi : i = .expire a) (ha : a ∈ s.timerBuf)
      (ht : t.timerBuf = s.timerBuf.erase a)
      (hr : t.mRecyconnectionList = s.mRecyconnectionList ++ [a]) : Motion s i t []
  | free (a : Addr) (dels : List PoolEv) (hi : i = .timerFree) (hd : ∀ e ∈ dels, e = .delete a)
      (ht : t.timerBuf = s.timerBuf) (hr : s.mRecyconnectionList = a :: t.mRecyconnectionList) :
      Motion s i t (.free a :: dels)

variable {cfg : Conf} {s t u : CSocket} {i : Step} {log os : List PoolEv} {a b : Addr} {key : ℤ}

theorem SameLists.refl (s : CSocket) : SameLists s s := ⟨rfl, rfl⟩

theorem ngxCloseConnection_events (s : CSocket) (a : Addr) :
    ∃ dels, (s.ngxCloseConnection a).2 = .free a :: dels ∧ ∀ e ∈ dels, e = .delete a := by
  unfold ngxCloseConnection
  refine ⟨_, rfl, fun e he => ?_⟩
  split_ifs at he
  · exact List.mem_singleton.mp he
  · cases he

/-! ## Closing -/

theorem motion_later (hr : s.Registered a) (hl : SameLists s t)
    (h : (t.addTimer a).erasePing key = some u) : Motion s i u [.release a] := by
  obtain rfl := eq_of_erasePing h
  refine .release a hr ?_ hl.2
  change t.timerBuf ++ [a] = _
  rw [hl.1]

theorem motion_drop (hr : s.Registered a) (hl : SameLists s t) :
    Motion s i (t.ngxCloseConnection a).1 (.release a :: (t.ngxCloseConnection a).2) := by
  obtain ⟨dels, he, hd⟩ := ngxCloseConnection_events t a
  rw [he]
  exact .drop a dels hd hr ⟨ngxCloseConnection_timerBuf.trans hl.1,
    ngxCloseConnection_mRecyconnectionList.trans hl.2⟩

theorem motion_ngxFreeConSelf (hr : s.Registered a) (hl : SameLists s u)
    (h : u.ngxFreeConSelf a = some (t, os)) : Motion s i t os := by
  obtain ⟨v, hv, he⟩ := Option.map_eq_some_iff.mp h
  cases he
  refine motion_later hr ?_ hv
  split_ifs
  · exact hl
  · exact hl

theorem motion_recvproc (ret : RecvRet) (hr : (Ending.ret ret).closes = true → s.Registered a)
    (hl : SameLists s u) (h : u.recvproc a ret = some (t, os)) : Motion s i t os := by
  cases ret with
  | data rd | again =>
    cases h
    exact .none hl
  | zero =>
    obtain ⟨v, hv, he⟩ := Option.map_eq_some_iff.mp h
    cases he
    exact motion_later (t := (u.ngxEpollDelEvent a).offline) (hr rfl) hl hv
  | reset =>
    obtain ⟨v, hv, he⟩ := Option.map_eq_some_iff.mp h
    cases he
    exact motion_later (t := u.ngxEpollDelEvent a) (hr rfl) hl hv
  | error =>
    obtain ⟨rfl, rfl⟩ : t = ((u.ngxEpollDelEvent a).ngxCloseConnection a).1 ∧
        os = .release a :: ((u.ngxEpollDelEvent a).ngxCloseConnection a).2 := by
      cases h
      exact ⟨rfl, rfl⟩
    exact motion_drop (t := u.ngxEpollDelEvent a) (hr rfl) hl

theorem motion_afterRead {r : Connection × Ending} (hr : r.2.closes = true → s.Registered a)
    (hl : SameLists s u) (h : u.afterRead a r = some (t, os)) : Motion s i t os := by
  obtain ⟨c, e⟩ := r
  cases e with
  | done =>
    cases h
    exact .none hl
  | flood => exact motion_ngxFreeConSelf (u := u.setConn a c) (hr rfl) hl h
  | ret ret => exact motion_recvproc (u := u.setConn a c) ret hr hl h

/-! ## The steps -/

theorem motion_ngxEventAccept {fd now : ℤ} {added : Bool}
    (h : s.ngxEventAccept cfg fd now added = some (t, os)) : Motion s i t os := by
  obtain ⟨-, ⟨-, rfl, rfl⟩ | ⟨a, pool, -, hget, hcase⟩⟩ := ngxEventAccept_cases h
  · exact .none (.refl t)
  · have ha : s.pool.mPfreeConnections = some a := by
      obtain ⟨c, hc, he⟩ := Option.map_eq_some_iff.mp hget
      rw [hc, (Prod.mk.inj he).1]
    rcases hcase with ⟨-, rfl, rfl⟩ | ⟨-, rfl, rfl⟩
    · exact .get a ha ⟨rfl, rfl⟩
    · obtain ⟨dels, he, hd⟩ := ngxCloseConnection_events (s.takeConn fd a pool) a
      rw [he]
      exact .refuse a dels hd ha
        ⟨ngxCloseConnection_timerBuf, ngxCloseConnection_mRecyconnectionList⟩

theorem motion_ngxTimeCheckVisit {e : ℤ × StrucMsgHeader} {now : ℤ}
    (hr : s.Kicks e now → s.Registered e.2.pConn)
    (h : s.ngxTimeCheckVisit e now = some (t, os)) : Motion s i t os := by
  unfold ngxTimeCheckVisit at h
  dsimp only at h
  split_ifs at h with hseq htime hk
  · cases h
    exact .none ⟨rfl, rfl⟩
  · exact motion_ngxFreeConSelf (hr hk) (.refl s) h
  · cases h
    exact .none ⟨rfl, rfl⟩
  · cases h
    exact .none ⟨rfl, rfl⟩

/-- **A step moves one slot at most.** -/
theorem step_motion (hg : s.ClosesRegistered cfg i)
    (h : s.step cfg i = some (t, os)) : Motion s i t os := by
  cases i with
  | accept fd now added => exact motion_ngxEventAccept h
  | wait as | edge a | write a =>
    simp only [step] at h
    split_ifs at h
    cases h
    exact .none ⟨rfl, rfl⟩
  | task a rets =>
    simp only [step] at h
    split_ifs at h
    obtain ⟨r, hr, h⟩ := Option.bind_eq_some_iff.mp h
    exact motion_afterRead (u := { s with taskBuf := s.taskBuf.erase a })
      (fun hc => hg (by rw [hr]; exact hc)) ⟨rfl, rfl⟩ h
  | read a ret =>
    simp only [step] at h
    split_ifs at h
    obtain ⟨r, hr, h⟩ := Option.bind_eq_some_iff.mp h
    exact motion_afterRead (u := s.takeEvent) (fun hc => hg (by rw [hr]; exact hc)) ⟨rfl, rfl⟩ h
  | hup a =>
    simp only [step] at h
    split_ifs at h
    exact motion_recvproc (u := s.takeEvent) .zero (fun _ => hg) ⟨rfl, rfl⟩ h
  | ping m now =>
    simp only [step] at h
    split_ifs at h
    · cases h
      exact .none ⟨rfl, rfl⟩
    · cases h
      exact .none (.refl s)
  | visit e now =>
    simp only [step] at h
    split_ifs at h
    exact motion_ngxTimeCheckVisit hg h
  | expire a =>
    simp only [step] at h
    split_ifs at h with ha
    cases h
    exact .expire a rfl ha rfl rfl
  | timerFree =>
    simp only [step, ngxTimerFreeConnection] at h
    cases hl : s.mRecyconnectionList with
    | nil =>
      rw [hl] at h
      cases h
    | cons con rest =>
      rw [hl] at h
      obtain ⟨rfl, rfl⟩ : t = (({ s with mRecyconnectionList := rest }).ngxCloseConnection con).1 ∧
          os = (({ s with mRecyconnectionList := rest }).ngxCloseConnection con).2 := by
        cases h
        exact ⟨rfl, rfl⟩
      obtain ⟨dels, he, hd⟩ :=
        ngxCloseConnection_events { s with mRecyconnectionList := rest } con
      rw [he]
      refine .free con dels rfl hd ngxCloseConnection_timerBuf ?_
      rw [ngxCloseConnection_mRecyconnectionList]
      exact hl

theorem notMem_of_free (hi : s.Inv log) (ha : s.pool.mPfreeConnections = some a) :
    a ∉ s.timerBuf ++ s.mRecyconnectionList := by
  intro hp
  obtain ⟨hget, -, -, hfree, -⟩ := hi.of_mem_pend hp
  obtain ⟨xs, hx, hmem⟩ := hi.free
  have hax : a ∈ xs := by
    have hlinks := hx.links
    rw [ha] at hlinks
    cases hlinks with
    | cons => exact List.mem_cons_self
  have := (hmem a hget).mp hax
  omega

/-- **A slot under way** is neither taken nor released. -/
theorem Motion.keeps (hm : Motion s i t os) (hi : s.Inv log)
    (hb : b ∈ s.timerBuf ++ s.mRecyconnectionList) :
    PoolEv.get b ∉ os ∧ PoolEv.release b ∉ os := by
  have hfree : ∀ a, s.pool.mPfreeConnections = some a → a ≠ b := by
    rintro a ha rfl
    exact notMem_of_free hi ha hb
  have hreg : ∀ a, s.Registered a → a ≠ b := by
    rintro a ha rfl
    exact (hi.of_mem_pend hb).2.1 ha
  have hdels : ∀ {a : Addr} {dels : List PoolEv}, (∀ e ∈ dels, e = PoolEv.delete a) →
      PoolEv.get b ∉ dels ∧ PoolEv.release b ∉ dels := fun hd =>
    ⟨fun h => PoolEv.noConfusion (hd _ h), fun h => PoolEv.noConfusion (hd _ h)⟩
  cases hm with
  | none | expire => simp
  | get a ha => simpa using (hfree a ha).symm
  | refuse a dels hd ha => simpa [hdels hd] using (hfree a ha).symm
  | release a ha => simpa using (hreg a ha).symm
  | drop a dels hd ha => simpa [hdels hd] using (hreg a ha).symm
  | free a dels _ hd => simpa using hdels hd

end CSocket

end ServerNginx
