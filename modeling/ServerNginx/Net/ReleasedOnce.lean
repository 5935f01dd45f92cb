import ServerNginx.Net.Account
import ServerNginx.Net.ReadsOnly

set_option autoImplicit false

/-!
# Connections are released once

`SingleRelease`: since a slot was last taken, at most one release of it was scheduled or begun, it
went back to the free list at most once and its `logicObj` was deleted at most once; the free list
is a list without repetitions.

A `recvproc_ET` task does not look whether its connection has been closed since it was queued, the
handlers of an event do not look whether it has been since `epoll_wait` returned, and a heartbeat
entry can outlive the connection it stands for. **`singleRelease_iff`**: a run keeps to single
releases exactly when every task, every handler of an event and every sweep that closes a connection
finds it still registered with epoll; `not_singleRelease` is a run that does not.
-/

namespace ServerNginx

/-- Nothing has happened twice to a slot since it was last taken. -/
def ReleasedOnce (log : List PoolEv) : Prop :=
  ∀ a, released a log ≤ 1 ∧ freed a log ≤ 1 ∧ deleted a log ≤ 1

/-- The free list ends, and holds no slot twice. -/
def CSocket.FreeListOk (s : CSocket) : Prop :=
  ∃ xs, Links s.pool.next s.pool.mPfreeConnections xs ∧ xs.Nodup

/-- The process with what has become of its slots. -/
def SingleRelease (s : CSocket × List PoolEv) : Prop := ReleasedOnce s.2 ∧ s.1.FreeListOk

/-- A task, a handler of an event or a sweep that closes a connection finds it registered with
epoll. -/
def CSocket.ClosesRegistered (cfg : Conf) (s : CSocket) : CSocket.Step → Prop
  | .task a rets =>
    (recvprocETTask cfg a (s.conn a) rets).any (·.2.closes) = true → s.Registered a
  | .read a ret =>
    (ngxReadRequestHandlerCall cfg a (s.conn a) ret).any (·.2.closes) = true → s.Registered a
  | .hup a => s.Registered a
  | .visit e now => s.Kicks e now → s.Registered e.2.pConn
  | _ => True

instance (cfg : Conf) (s : CSocket) : ∀ i, Decidable (s.ClosesRegistered cfg i)
  | .task .. | .read .. => inferInstanceAs (Decidable (_ = true → _))
  | .hup a => inferInstanceAs (Decidable (s.Registered a))
  | .visit .. => inferInstanceAs (Decidable (_ → _))
  | .accept .. | .wait _ | .edge _ | .write _ | .ping .. | .expire _ | .timerFree => isTrue trivial

/-! ## One step -/

namespace CSocket

/-- The books of a process. -/
def Inv (s : CSocket) (log : List PoolEv) : Prop :=
  Books s (s.timerBuf ++ s.mRecyconnectionList) log

variable {cfg : Conf} {s s' t : CSocket} {log os : List PoolEv} {a : Addr} {key : ℤ}

theorem NextEvent.mem (h : s.NextEvent a) : a ∈ s.mEvents := List.mem_of_mem_head? h

theorem inv_takeEvent (hi : s.Inv log) : s.takeEvent.Inv log :=
  Books.lists hi rfl rfl rfl hi.task (fun b hb => hi.event b (List.mem_of_mem_tail hb)) hi.ping

theorem eq_of_erasePing (h : s.erasePing key = some s') :
    s' = { s with mTimerQueuemap := s.mTimerQueuemap.eraseP (·.1 = key) } := by
  unfold erasePing at h
  split_ifs at h
  cases h
  rfl

theorem inv_later (hb : Books t (a :: (t.timerBuf ++ t.mRecyconnectionList)) log)
    (h : (t.addTimer a).erasePing key = some s') : s'.Inv log := by
  rw [eq_of_erasePing h]
  have hb' := hb.congr_pend (t.timerBuf ++ [a] ++ t.mRecyconnectionList) fun b => by
    simp only [List.count_append, List.count_cons, List.count_nil]
    omega
  exact hb'.lists rfl rfl rfl hb.task hb.event fun e he => hb.ping e (List.mem_of_mem_eraseP he)

@[simp] theorem ngxCloseConnection_timerBuf :
    (s.ngxCloseConnection a).1.timerBuf = s.timerBuf := by
  unfold ngxCloseConnection
  dsimp only
  split_ifs <;> rfl

@[simp] theorem ngxCloseConnection_mRecyconnectionList :
    (s.ngxCloseConnection a).1.mRecyconnectionList = s.mRecyconnectionList := by
  unfold ngxCloseConnection
  dsimp only
  split_ifs <;> rfl

theorem inv_close (hb : Books t (a :: (t.timerBuf ++ t.mRecyconnectionList)) log) :
    (t.ngxCloseConnection a).1.Inv (log ++ (t.ngxCloseConnection a).2) := by
  have h := hb.ngxCloseConnection List.mem_cons_self
  rw [List.erase_cons_head] at h
  rw [Inv, ngxCloseConnection_timerBuf, ngxCloseConnection_mRecyconnectionList]
  exact h

theorem books_offline {pend : List Addr} (hb : Books t pend log) : Books t.offline pend log :=
  hb.lists rfl rfl rfl hb.task hb.event hb.ping

theorem inv_ngxFreeConSelf (hi : s.Inv log) (hr : s.Registered a)
    (h : s.ngxFreeConSelf a = some (s', os)) : s'.Inv (log ++ os) := by
  obtain ⟨u, hu, he⟩ := Option.map_eq_some_iff.mp h
  cases he
  have hb := hi.schedule hr
  by_cases hfd : (s.conn a).fd = -1
  · simp only [hfd, ne_eq, not_true_eq_false, if_false] at hu
    exact inv_later (books_offline hb) hu
  · obtain ⟨hget, hreg, -, hfree, -⟩ := hb.of_mem_pend List.mem_cons_self
    simp only [ne_eq, hfd, not_false_eq_true, if_true] at hu
    have hc := hb.closeFd hget hfree hreg (by rwa [ngxEpollDelEvent_conn])
      (c := { s.conn a with fd := -1 }) rfl rfl
    exact inv_later (books_offline hc) hu

theorem inv_recvproc (ret : RecvRet) (hi : s.Inv log)
    (hr : (Ending.ret ret).closes = true → s.Registered a)
    (h : s.recvproc a ret = some (s', os)) : s'.Inv (log ++ os) := by
  cases ret with
  | data rd =>
    cases h
    rwa [List.append_nil]
  | again =>
    cases h
    rwa [List.append_nil]
  | zero =>
    obtain ⟨u, hu, he⟩ := Option.map_eq_some_iff.mp h
    cases he
    exact inv_later (books_offline (hi.schedule (hr rfl))) hu
  | reset =>
    obtain ⟨u, hu, he⟩ := Option.map_eq_some_iff.mp h
    cases he
    exact inv_later (hi.schedule (hr rfl)) hu
  | error =>
    obtain ⟨rfl, rfl⟩ : s' = ((s.ngxEpollDelEvent a).ngxCloseConnection a).1 ∧
        os = .release a :: ((s.ngxEpollDelEvent a).ngxCloseConnection a).2 := by
      cases h
      exact ⟨rfl, rfl⟩
    have hc := inv_close (hi.schedule (hr rfl))
    rwa [List.append_assoc] at hc

theorem release_of_closes {r : Connection × Ending} (hc : r.2.closes = true)
    (h : s.afterRead a r = some (s', os)) :
    ∃ os', os = .release a :: os' ∧ PoolEv.get a ∉ os := by
  obtain ⟨c, e⟩ := r
  have hlater : ∀ {o : Option CSocket},
      o.map (fun s => (s, [PoolEv.release a])) = some (s', os) →
      ∃ os', os = .release a :: os' ∧ PoolEv.get a ∉ os := fun h => by
    obtain ⟨u, -, he⟩ := Option.map_eq_some_iff.mp h
    cases he
    exact ⟨[], rfl, by simp⟩
  cases e with
  | done => cases hc
  | flood => exact hlater h
  | ret ret =>
    cases ret with
    | data rd => cases hc
    | again => cases hc
    | zero => exact hlater h
    | reset => exact hlater h
    | error =>
      cases h
      refine ⟨_, rfl, ?_⟩
      split_ifs <;> simp

theorem inv_afterRead {r : Connection × Ending} (hi : s.Inv log) (hsame : ReadsOnly (s.conn a) r.1)
    (hr : r.2.closes = true → s.Registered a) (h : s.afterRead a r = some (s', os)) :
    s'.Inv (log ++ os) := by
  have ht : (s.setConn a r.1).Inv log := Books.touch hi hsame.fd hsame.next hsame.logicObj
  obtain ⟨c, e⟩ := r
  cases e with
  | done =>
    cases h
    rwa [List.append_nil]
  | flood => exact inv_ngxFreeConSelf ht (hr rfl) h
  | ret ret => exact inv_recvproc ret ht hr h

theorem inv_ngxAddCheck {now : ℤ} (hi : s.Inv log) (hget : PoolEv.get a ∈ log) :
    (s.ngxAddCheck a now).Inv log := by
  have ht := Books.touch hi (a := a)
    (c := { s.conn a with lastPingTime := now, storePingTime := now }) rfl rfl rfl
  have hping : ∀ e ∈ (s.ngxAddCheck a now).mTimerQueuemap, PoolEv.get e.2.pConn ∈ log := by
    intro e he
    rcases (List.mem_orderedInsert _).mp he with rfl | he
    · exact hget
    · exact hi.ping e he
  exact ht.lists rfl rfl rfl hi.task hi.event hping

/-- The process once slot `a` of the pool has become a connection on `fd`. -/
def takeConn (s : CSocket) (fd : ℤ) (a : Addr) (pool : Pool) : CSocket :=
  { s with
    pool := pool.set a { (pool.mem a).initRecv with logicObj := some s.objs }
    fds := fd :: s.fds
    mOnlineUserCount := s.mOnlineUserCount + 1
    objs := s.objs + 1 }

/-- The cases of an accept: no such descriptor, refused, admitted, not added to epoll. -/
theorem ngxEventAccept_cases {fd now : ℤ} {added : Bool}
    (h : s.ngxEventAccept cfg fd now added = some (s', os)) :
    ¬ (fd < 0 ∨ fd ∈ s.fds) ∧
      (((cfg.mWorkerConnections < s.mOnlineUserCount ∨ s.pool.ngxGetConnection cfg fd = none) ∧
        s' = s ∧ os = []) ∨
      ∃ a pool, ¬ cfg.mWorkerConnections < s.mOnlineUserCount ∧
        s.pool.ngxGetConnection cfg fd = some (a, pool) ∧
        ((added = true ∧ os = [.get a] ∧
          s' = { s.takeConn fd a pool with epoll := (fd, a) :: s.epoll }.ngxAddCheck a now) ∨
        (added = false ∧
          os = .get a :: .release a :: ((s.takeConn fd a pool).ngxCloseConnection a).2 ∧
          s' = ((s.takeConn fd a pool).ngxCloseConnection a).1))) := by
  unfold ngxEventAccept at h
  by_cases hfd : fd < 0 ∨ fd ∈ s.fds
  · rw [if_pos hfd] at h
    cases h
  rw [if_neg hfd] at h
  refine ⟨hfd, ?_⟩
  by_cases hmax : cfg.mWorkerConnections < s.mOnlineUserCount
  · rw [if_pos hmax] at h
    cases h
    exact Or.inl ⟨Or.inl hmax, rfl, rfl⟩
  · rw [if_neg hmax] at h
    cases hget : s.pool.ngxGetConnection cfg fd with
    | none =>
      simp only [hget] at h
      cases h
      exact Or.inl ⟨Or.inr rfl, rfl, rfl⟩
    | some q =>
      obtain ⟨a, pool⟩ := q
      simp only [hget] at h
      refine Or.inr ⟨a, pool, hmax, rfl, ?_⟩
      cases added with
      | true =>
        cases h
        exact Or.inl ⟨rfl, rfl, rfl⟩
      | false =>
        cases h
        exact Or.inr ⟨rfl, rfl, rfl⟩

section TakeConn

variable {fd : ℤ} {pool : Pool} (hi : s.Inv log)
  (hget : s.pool.ngxGetConnection cfg fd = some (a, pool)) (hfd : ¬ (fd < 0 ∨ fd ∈ s.fds))
include hi hget hfd

theorem books_takeConn :
    Books { s.takeConn fd a pool with epoll := (fd, a) :: s.epoll }
      (s.timerBuf ++ s.mRecyconnectionList) (log ++ [.get a]) ∧ ¬ s.Registered a := by
  rw [not_or, not_lt] at hfd
  exact Books.get hi hget hfd.1 hfd.2 s.objs _ rfl

/-- An admitted connection that epoll refuses, as if it had been registered and taken out again. -/
theorem books_refused :
    Books (s.takeConn fd a pool) (a :: (s.timerBuf ++ s.mRecyconnectionList))
      (log ++ [.get a] ++ [.release a]) := by
  obtain ⟨hb, -⟩ := books_takeConn hi hget hfd
  rw [not_or, not_lt] at hfd
  have hdel :
      ({ s.takeConn fd a pool with epoll := (fd, a) :: s.epoll } : CSocket).ngxEpollDelEvent a =
        s.takeConn fd a pool := by
    have hfda : (({ s.takeConn fd a pool with epoll := (fd, a) :: s.epoll } : CSocket).conn a).fd =
        fd := (hb.reg (fd, a) List.mem_cons_self).2.2.1
    have hfilter : s.epoll.filter (fun e => e.1 ≠ fd) = s.epoll := by
      apply List.filter_eq_self.mpr
      intro e he
      have her : s.Registered e.2 := List.mem_map.mpr ⟨e, he, rfl⟩
      obtain ⟨hg, -, hefd, hne⟩ := hi.reg e he
      have hmem := hi.fd e.2 hg (hi.freed_of_registered her) (by rwa [hefd])
      rw [decide_eq_true_eq]
      rintro rfl
      exact hfd.2 (hefd ▸ hmem)
    rw [ngxEpollDelEvent, hfda, List.filter_cons_of_neg (by simp), hfilter]
    rfl
  have hc := hb.schedule (a := a) List.mem_cons_self
  rw [hdel] at hc
  exact hc

end TakeConn

theorem inv_ngxEventAccept {fd now : ℤ} {added : Bool} (hi : s.Inv log)
    (h : s.ngxEventAccept cfg fd now added = some (s', os)) : s'.Inv (log ++ os) := by
  obtain ⟨hfd, ⟨-, rfl, rfl⟩ | ⟨a, pool, -, hget, ⟨-, rfl, rfl⟩ | ⟨-, rfl, rfl⟩⟩⟩ :=
    ngxEventAccept_cases h
  · rwa [List.append_nil]
  · obtain ⟨hb, -⟩ := books_takeConn hi hget hfd
    exact inv_ngxAddCheck hb (List.mem_append_right _ List.mem_cons_self)
  · have hc := inv_close (books_refused hi hget hfd)
    rw [List.append_assoc, List.append_assoc] at hc
    exact hc

theorem inv_ngxTimeCheckVisit {e : ℤ × StrucMsgHeader} {now : ℤ} (hi : s.Inv log)
    (he : e ∈ s.mTimerQueuemap) (hr : s.Kicks e now → s.Registered e.2.pConn)
    (h : s.ngxTimeCheckVisit e now = some (s', os)) : s'.Inv (log ++ os) := by
  unfold ngxTimeCheckVisit at h
  dsimp only at h
  split_ifs at h with hseq htime hk
  · cases h
    rw [List.append_nil]
    exact Books.lists hi rfl rfl rfl hi.task hi.event fun x hx =>
      hi.ping x (List.mem_of_mem_erase hx)
  · exact inv_ngxFreeConSelf hi (hr hk) h
  · cases h
    rw [List.append_nil]
    have ht := Books.touch hi (a := e.2.pConn)
      (c := { s.conn e.2.pConn with storePingTime := (s.conn e.2.pConn).lastPingTime }) rfl rfl rfl
    refine ht.lists rfl rfl rfl hi.task hi.event fun x hx => ?_
    rcases (List.mem_orderedInsert _).mp hx with rfl | hx
    · exact hi.ping e he
    · exact hi.ping x (List.mem_of_mem_erase hx)
  · cases h
    rwa [List.append_nil]

/-- **Closes of registered connections keep the books.** -/
theorem step_inv {i : Step} (hi : s.Inv log) (hg : s.ClosesRegistered cfg i)
    (h : s.step cfg i = some (s', os)) : s'.Inv (log ++ os) := by
  cases i with
  | accept fd now added => exact inv_ngxEventAccept hi h
  | wait as =>
    simp only [step] at h
    split_ifs at h with has
    cases h
    rw [List.append_nil]
    exact Books.lists hi rfl rfl rfl hi.task
      (fun b hb => Books.get_of_registered hi (has.2.2 b hb)) hi.ping
  | edge a =>
    simp only [step] at h
    split_ifs at h with ha
    cases h
    rw [List.append_nil]
    have ht := inv_takeEvent hi
    refine Books.lists ht rfl rfl rfl (fun b hb => ?_) ht.event ht.ping
    rcases List.mem_append.mp hb with hb | hb
    · exact hi.task b hb
    · rw [List.mem_singleton.mp hb]
      exact hi.event a ha.2.mem
  | task a rets =>
    simp only [step] at h
    split_ifs at h with ha
    obtain ⟨r, hr, h⟩ := Option.bind_eq_some_iff.mp h
    have hb : ({ s with taskBuf := s.taskBuf.erase a } : CSocket).Inv log :=
      Books.lists hi rfl rfl rfl (fun b hb => hi.task b (List.mem_of_mem_erase hb)) hi.event hi.ping
    exact inv_afterRead hb (ReadsOnly.etTask hr) (fun hc => hg (by rw [hr]; exact hc)) h
  | read a ret =>
    simp only [step] at h
    split_ifs at h with ha
    obtain ⟨r, hr, h⟩ := Option.bind_eq_some_iff.mp h
    exact inv_afterRead (inv_takeEvent hi) (ReadsOnly.ltCall hr)
      (fun hc => hg (by rw [hr]; exact hc)) h
  | hup a =>
    simp only [step] at h
    split_ifs at h with ha
    exact inv_recvproc .zero (inv_takeEvent hi) (fun _ => hg) h
  | write a =>
    simp only [step] at h
    split_ifs at h with ha
    cases h
    rw [List.append_nil]
    exact inv_takeEvent hi
  | ping m now =>
    simp only [step] at h
    split_ifs at h
    · cases h
      rw [List.append_nil]
      exact Books.touch hi rfl rfl rfl
    · cases h
      rwa [List.append_nil]
  | visit e now =>
    simp only [step] at h
    split_ifs at h with he
    exact inv_ngxTimeCheckVisit hi he hg h
  | expire a =>
    simp only [step] at h
    split_ifs at h with ha
    cases h
    rw [List.append_nil]
    have hb := hi.congr_pend (s.timerBuf.erase a ++ (s.mRecyconnectionList ++ [a]))
      fun b => by
        have hcount : (s.timerBuf.erase a).count b + [a].count b = s.timerBuf.count b := by
          rw [List.count_erase, List.count_singleton]
          by_cases hab : a = b
          · subst hab
            have := List.count_pos_iff.mpr ha
            simp only [BEq.rfl, if_true]
            omega
          · simp [hab]
        simp only [List.count_append]
        omega
    exact hb.lists rfl rfl rfl hb.task hb.event hb.ping
  | timerFree =>
    simp only [step, ngxTimerFreeConnection] at h
    cases hl : s.mRecyconnectionList with
    | nil =>
      rw [hl] at h
      cases h
    | cons con rest =>
      rw [hl] at h
      obtain ⟨rfl, rfl⟩ : s' = (({ s with mRecyconnectionList := rest }).ngxCloseConnection con).1 ∧
          os = (({ s with mRecyconnectionList := rest }).ngxCloseConnection con).2 := by
        cases h
        exact ⟨rfl, rfl⟩
      have hb := Books.congr_pend hi (con :: (s.timerBuf ++ rest)) fun b => by
        rw [hl]
        simp only [List.count_append, List.count_cons]
        omega
      exact inv_close (t := { s with mRecyconnectionList := rest })
        (hb.lists rfl rfl rfl hb.task hb.event hb.ping)

/-- **A close of a connection that is no longer registered is its second release.** -/
theorem step_twice {i : Step} (hi : s.Inv log) (hg : ¬ s.ClosesRegistered cfg i)
    (h : s.step cfg i = some (s', os)) : ¬ ReleasedOnce (log ++ os) := by
  have twice : ∀ {a os'}, os = .release a :: os' → PoolEv.get a ∉ os → PoolEv.get a ∈ log →
      ¬ s.Registered a → ¬ ReleasedOnce (log ++ os) := by
    intro a os' hos hnot hget hreg hone
    have h1 := Books.unreg hi a hget hreg
    have h2 := (hone a).1
    rw [released] at h1
    rw [released, tally_append hnot, hos, List.count_cons_self] at h2
    omega
  cases i with
  | task a rets =>
    simp only [step] at h
    split_ifs at h with ha
    obtain ⟨r, hr, h⟩ := Option.bind_eq_some_iff.mp h
    rw [ClosesRegistered, hr] at hg
    obtain ⟨hc, hreg⟩ := Classical.not_imp.mp hg
    obtain ⟨os', hos, hnot⟩ := release_of_closes (by simpa using hc) h
    exact twice hos hnot (hi.task a ha) hreg
  | read a ret =>
    simp only [step] at h
    split_ifs at h with ha
    obtain ⟨r, hr, h⟩ := Option.bind_eq_some_iff.mp h
    rw [ClosesRegistered, hr] at hg
    obtain ⟨hc, hreg⟩ := Classical.not_imp.mp hg
    obtain ⟨os', hos, hnot⟩ := release_of_closes (by simpa using hc) h
    exact twice hos hnot (hi.event a ha.2.mem) hreg
  | hup a =>
    simp only [step] at h
    split_ifs at h with ha
    obtain ⟨u, -, hu⟩ := Option.map_eq_some_iff.mp h
    cases hu
    exact twice rfl (by simp) (hi.event a ha.mem) hg
  | visit e now =>
    obtain ⟨hk, hreg⟩ := Classical.not_imp.mp hg
    simp only [step] at h
    split_ifs at h with he
    rw [ngxTimeCheckVisit, if_neg (not_not.mpr hk.1), if_pos hk.2.1, if_pos hk] at h
    obtain ⟨u, -, hu⟩ := Option.map_eq_some_iff.mp h
    cases hu
    exact twice rfl (by simp) (hi.ping e he) hreg
  | accept | wait | edge | write | ping | expire | timerFree => exact absurd trivial hg

/-! ## Runs -/

theorem Inv.singleRelease (h : s.Inv log) : SingleRelease (s, log) := by
  constructor
  · intro a
    have h1 := h.released_le a
    have h2 := h.booked a
    have h3 := h.deleted a
    have hfreed : freed a log ≤ 1 := by omega
    exact ⟨h1, hfreed, h3.trans_le hfreed⟩
  · obtain ⟨xs, hx, -⟩ := h.free
    exact ⟨xs, hx.links, hx.nodup⟩

theorem takeListening_free {p p' : Pool} {fds : List ℤ} {xs : List Addr} (hf : p.Free xs)
    (h : takeListening cfg p fds = some p') : ∃ ys, p'.Free ys := by
  induction fds generalizing p xs with
  | nil =>
    cases h
    exact ⟨xs, hf⟩
  | cons fd fds ih =>
    obtain ⟨q, hq, h⟩ := Option.bind_eq_some_iff.mp h
    obtain ⟨xs', ys, -, ht⟩ := Pool.ngxGetConnection_taken hf hq
    exact ih ht.free h

theorem inv_ngxEpollInit {heap : Addr → Connection} {listen : List ℤ}
    (h : ngxEpollInit cfg heap listen = some s) : s.Inv [] := by
  obtain ⟨p, hp, rfl⟩ := Option.map_eq_some_iff.mp h
  obtain ⟨xs, hx⟩ := takeListening_free (Pool.init_free cfg heap) hp
  exact {
    free := ⟨xs, hx, fun a h => absurd h List.not_mem_nil⟩
    reg := fun e h => absurd h List.not_mem_nil
    unreg := fun a h => absurd h List.not_mem_nil
    unused := fun a _ => rfl
    booked := fun a => rfl
    deleted := fun a => rfl
    obj := fun a h => absurd h List.not_mem_nil
    block := fun a h => absurd h List.not_mem_nil
    task := fun a h => absurd h List.not_mem_nil
    event := fun a h => absurd h List.not_mem_nil
    ping := fun e h => absurd h List.not_mem_nil
    fd := fun a h => absurd h List.not_mem_nil
    inj := fun a b h => absurd h List.not_mem_nil }

end CSocket

open CSocket in
/-- **Each accepted connection is released exactly once** in every state of a run of the process,
from its initialisation on, if and only if every task, every handler of an event and every heartbeat
sweep of the run that closes a connection finds it still registered with epoll. -/
theorem singleRelease_iff (cfg : Conf) (heap : Addr → Connection) (listen : List ℤ) (s : CSocket)
    (is : List CSocket.Step) (hs : ngxEpollInit cfg heap listen = some s)
    (hv : Run.Guarded (Run.logged (step cfg)) (Run.Defined (Run.logged (step cfg))) (s, []) is) :
    Run.Always (Run.logged (step cfg)) SingleRelease (s, []) is ↔
      Run.Guarded (Run.logged (step cfg)) (fun t i => t.1.ClosesRegistered cfg i) (s, []) is := by
  have h₀ := inv_ngxEpollInit hs
  refine Run.always_iff_guarded (I := fun t => t.1.Inv t.2) ?_ h₀ h₀.singleRelease hv
  rintro ⟨t, log⟩ i hi - hd
  obtain ⟨⟨u, os⟩, hu⟩ := Option.isSome_iff_exists.mp hd
  obtain ⟨t', ht, rfl⟩ := Run.logged_eq_some.mp hu
  refine ⟨_, _, hu, ?_, ?_⟩
  · constructor
    · intro hone
      by_contra hg
      exact step_twice hi hg ht hone.1
    · intro hg
      exact (step_inv hi hg ht).singleRelease
  · intro hone
    by_cases hg : t.ClosesRegistered cfg i
    · exact step_inv hi hg ht
    · exact absurd hone.1 (step_twice hi hg ht)

open CSocket in
/-- A peer that closes, the delayed release, and the slot taken again while its write event is
still in hand. -/
theorem singleRelease_close_again :
    let cfg : Conf := ⟨4, .etOpen, 0, 100, 10⟩
    let s := (ngxEpollInit cfg (fun _ => .zero) [3]).get (by decide +kernel)
    Run.Always (Run.logged (step cfg)) SingleRelease (s, [])
      [.accept 5 0 true, .wait [⟨0, 1⟩], .edge ⟨0, 1⟩, .wait [⟨0, 1⟩],
        .task ⟨0, 1⟩ [.data ⟨0, [13, 0, 1]⟩, .zero], .expire ⟨0, 1⟩, .timerFree,
        .accept 5 20 true, .write ⟨0, 1⟩] :=
  (singleRelease_iff ⟨4, .etOpen, 0, 100, 10⟩ (fun _ => .zero) [3] _ _
    (Option.some_get _).symm (by decide +kernel)).mpr (by decide +kernel)

open CSocket in
/-- **A connection is released twice**: bytes and the end of the stream arrive as two edges, so two
tasks are queued; both read 0 and schedule the release. A second connection, accepted in the same
second, lends its heartbeat entry to the second task. -/
theorem not_singleRelease :
    ¬ ∀ (cfg : Conf) (heap : Addr → Connection) (listen : List ℤ) (s : CSocket)
      (is : List CSocket.Step), ngxEpollInit cfg heap listen = some s →
      Run.Guarded (Run.logged (step cfg)) (Run.Defined (Run.logged (step cfg))) (s, []) is →
      Run.Always (Run.logged (step cfg)) SingleRelease (s, []) is := by
  intro h
  have ha := h ⟨4, .etOpen, 0, 100, 10⟩ (fun _ => .zero) [3]
    ((ngxEpollInit ⟨4, .etOpen, 0, 100, 10⟩ (fun _ => .zero) [3]).get (by decide +kernel))
    [.accept 5 0 true, .accept 6 0 true, .wait [⟨0, 1⟩], .edge ⟨0, 1⟩, .wait [⟨0, 1⟩],
      .edge ⟨0, 1⟩, .task ⟨0, 1⟩ [.data ⟨0, [13, 0, 1]⟩, .zero], .task ⟨0, 1⟩ [.zero],
      .expire ⟨0, 1⟩, .expire ⟨0, 1⟩, .timerFree, .timerFree]
    (Option.some_get _).symm (by decide +kernel)
  have hlast := ha.last (Option.some_get (by decide +kernel)).symm
  exact absurd (hlast.1 ⟨0, 1⟩).2.1 (by decide +kernel)

end ServerNginx
