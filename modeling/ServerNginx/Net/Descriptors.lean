import ServerNginx.Lib.Handles
import ServerNginx.Net.Motion

set_option autoImplicit false

/-!
# The descriptors of a worker process

A connection keeps its descriptor until `ngx_free_con_self` or `ngx_close_connection` closes it.
`ngx_get_connection` clears the slot it hands out, the descriptor included.

* `Pool.Charted`: a set of slots that the free list does not leave;
* `Plain`: what the steps other than an accept do to the descriptors;
* **`descriptors_iff`**: the open descriptors are those of the listening sockets and those that the
  connections keep, one each, exactly as long as no accept is handed a slot that still has one; no
  accept is where every close finds its connection registered.
-/

namespace ServerNginx

namespace Pool

/-- The slots `S`: the free list starts in them and does not leave them, and they are allocated. -/
structure Charted (S : Addr → Prop) (p : Pool) : Prop where
  head : ∀ a, p.mPfreeConnections = some a → S a
  next : ∀ a, S a → ∀ b, p.next a = some b → S b
  block : ∀ a, S a → a.block < p.mPconnections.length

variable {S : Addr → Prop} {p q : Pool} {a : Addr} {cfg : Conf} {fd : ℤ} {xs : List Addr}

theorem Charted.set (h : p.Charted S) {v : Connection} (hv : v.next = (p.mem a).next) :
    (p.set a v).Charted S := by
  have hnext : (p.set a v).next = p.next := by
    funext b
    by_cases hb : b = a
    · subst hb
      simpa [Pool.next, Pool.set] using hv
    · simp [Pool.next, Pool.set, Function.update_of_ne hb]
  exact ⟨h.head, fun b hb => by rw [hnext]; exact h.next b hb, h.block⟩

theorem Charted.free (h : p.Charted S) (ha : S a) : (p.ngxFreeConnection a).Charted S where
  head b hb := by
    cases hb
    exact ha
  next b hb c hc := by
    by_cases hba : b = a
    · subst hba
      apply h.head
      simpa [Pool.next, ngxFreeConnection, Pool.set] using hc
    · apply h.next b hb
      simpa [Pool.next, ngxFreeConnection, Pool.set, Function.update_of_ne hba] using hc
  block := h.block

theorem charted_of_free (h : p.Free xs) : p.Charted (· ∈ xs) where
  head a ha := by
    have := h.links
    rw [ha] at this
    cases this with
    | cons => exact List.mem_cons_self
  next _ ha _ hb := h.links.mem_of_next ha hb
  block := h.block

theorem Charted.get (h : p.Charted S) (hg : p.ngxGetConnection cfg fd = some (a, q)) :
    S a ∧ p.mPfreeConnections = some a ∧ (q.mem a).fd = fd ∧
      (∀ b, S b → b ≠ a → q.mem b = p.mem b) ∧ ∃ S', (∀ b, S b → S' b) ∧ q.Charted S' := by
  obtain ⟨c, hc, he⟩ := Option.map_eq_some_iff.mp hg
  obtain ⟨rfl, rfl⟩ := Prod.mk.inj he
  have hS := h.head c hc
  -- the pool after growing, with the chart of it
  have hgrow : ∃ (r : Pool) (ys : List Addr),
      (if p.next c = none then p.moreConnectionPool cfg createConNum c else p) = r ∧
      p.mPconnections.length ≤ r.mPconnections.length ∧
      (∀ b, S b → b ≠ c → r.mem b = p.mem b) ∧
      (∀ b, r.next c = some b → S b ∨ b ∈ ys) ∧
      (∀ b ∈ ys, b.block < r.mPconnections.length ∧ b ≠ c ∧
        ∀ d, r.next b = some d → d ∈ ys) := by
    by_cases hn : p.next c = none
    · obtain ⟨hlen, hframe, -, ys, hys, hnew⟩ :=
        moreConnectionPool_spec cfg createConNum hn (h.block c hS)
      refine ⟨_, ys, if_pos hn, hlen, fun b hb hbc => hframe b hbc (h.block b hb),
        fun b hb => .inr ?_, fun b hb => ⟨(hnew b hb).2, ?_, fun d hd => hys.mem_of_next hb hd⟩⟩
      · rw [hb] at hys
        cases hys with
        | cons => exact List.mem_cons_self
      · rintro rfl
        have := (hnew b hb).1
        have := h.block b hS
        omega
    · exact ⟨p, [], if_neg hn, le_rfl, fun _ _ _ => rfl, fun b hb => .inl (h.next c hS b hb),
        fun b hb => absurd hb List.not_mem_nil⟩
  obtain ⟨r, ys, hr, hlen, hframe, hhead, hnew⟩ := hgrow
  rw [hr]
  refine ⟨hS, hc, by simp [Pool.set], fun b hb hbc => ?_,
    fun b => S b ∨ b ∈ ys, fun b hb => .inl hb, hhead, fun b hb d hd => ?_, fun b hb => ?_⟩
  · rw [← hframe b hb hbc]
    simp [Pool.set, Function.update_of_ne hbc]
  · by_cases hbc : b = c
    · subst hbc
      simp [Pool.next, Pool.set, Connection.zero] at hd
    · have hd' : r.next b = some d := by
        simpa [Pool.next, Pool.set, Function.update_of_ne hbc] using hd
      rcases hb with hb | hb
      · rw [Pool.next, hframe b hb hbc] at hd'
        exact .inl (h.next b hb d hd')
      · exact .inr ((hnew b hb).2.2 d hd')
  · rcases hb with hb | hb
    · exact (h.block b hb).trans_le hlen
    · exact (hnew b hb).1

end Pool

namespace CSocket

/-! ## The steps other than an accept -/

/-- The lists of the process name slots of `P` only, and these are in the chart `S`. -/
structure Chart (P S : Addr → Prop) (s : CSocket) : Prop where
  sub : ∀ a, P a → S a
  pool : s.pool.Charted S
  epoll : ∀ e ∈ s.epoll, P e.2
  task : ∀ a ∈ s.taskBuf, P a
  event : ∀ a ∈ s.mEvents, P a
  timer : ∀ a ∈ s.timerBuf, P a
  recycle : ∀ a ∈ s.mRecyconnectionList, P a
  ping : ∀ e ∈ s.mTimerQueuemap, P e.2.pConn

/-- The descriptor of one connection is closed at most. -/
inductive FdMove (P : Addr → Prop) (s t : CSocket) : Prop
  | same (hf : t.fds = s.fds) (hc : ∀ b, (t.conn b).fd = (s.conn b).fd)
  | close (a : Addr) (ha : P a) (hne : (s.conn a).fd ≠ -1) (hf : t.fds = s.fds.erase (s.conn a).fd)
      (hn : (t.conn a).fd = -1) (hc : ∀ b, b ≠ a → (t.conn b).fd = (s.conn b).fd)

/-- What a step other than an accept does: the chart stays, a descriptor is closed at most, and a
slot that goes back to the free list has none. -/
structure Plain (P S : Addr → Prop) (s t : CSocket) (os : List PoolEv) : Prop where
  chart : Chart P S s → Chart P S t
  fds : FdMove P s t
  closed : ∀ b, .free b ∈ os → (t.conn b).fd = -1
  noGet : ∀ b, .get b ∉ os

variable {P S : Addr → Prop} {cfg : Conf} {s t u : CSocket} {log os : List PoolEv} {a b : Addr}
  {key : ℤ}

theorem Plain.of_same (hchart : Chart P S s → Chart P S t) (hf : t.fds = s.fds)
    (hc : ∀ b, (t.conn b).fd = (s.conn b).fd) : Plain P S s t [] where
  chart := hchart
  fds := .same hf hc
  closed _ hb := absurd hb List.not_mem_nil
  noGet _ := List.not_mem_nil

theorem FdMove.of_left (hf : u.fds = s.fds) (hc : ∀ b, (u.conn b).fd = (s.conn b).fd)
    (h : FdMove P u t) : FdMove P s t := by
  cases h with
  | same hf' hc' => exact .same (hf'.trans hf) fun b => (hc' b).trans (hc b)
  | close a ha hne hf' hn hc' =>
    rw [hc a] at hne hf'
    rw [hf] at hf'
    exact .close a ha hne hf' hn fun b hb => (hc' b hb).trans (hc b)

theorem Plain.after (h₀ : Plain P S s u []) (hf : u.fds = s.fds)
    (hc : ∀ b, (u.conn b).fd = (s.conn b).fd) (h : Plain P S u t os) : Plain P S s t os where
  chart hs := h.chart (h₀.chart hs)
  fds := h.fds.of_left hf hc
  closed := h.closed
  noGet := h.noGet

theorem fd_setConn {c : Connection} (hfd : c.fd = (s.conn a).fd) (b : Addr) :
    ((s.setConn a c).conn b).fd = (s.conn b).fd := by
  by_cases hb : b = a
  · subst hb
    rw [conn_setConn_self, hfd]
  · rw [conn_setConn_of_ne _ _ hb]

theorem plain_setConn {c : Connection} (hfd : c.fd = (s.conn a).fd)
    (hnext : c.next = (s.conn a).next) : Plain P S s (s.setConn a c) [] :=
  .of_same (fun h => ⟨h.sub, h.pool.set hnext, h.epoll, h.task, h.event, h.timer, h.recycle,
    h.ping⟩) rfl (fd_setConn hfd)

theorem plain_ngxEpollDelEvent (a : Addr) : Plain P S s (s.ngxEpollDelEvent a) [] :=
  .of_same (fun h => ⟨h.sub, h.pool, fun e he => h.epoll e (List.mem_filter.mp he).1, h.task,
    h.event, h.timer, h.recycle, h.ping⟩) rfl fun _ => rfl

theorem plain_later (ha : P a) (h : (s.addTimer a).erasePing key = some t) :
    Plain P S s t [.release a] := by
  obtain rfl := eq_of_erasePing h
  refine ⟨fun h => ⟨h.sub, h.pool, h.epoll, h.task, h.event, fun b hb => ?_, h.recycle,
    fun e he => h.ping e (List.mem_of_mem_eraseP he)⟩, .same rfl fun _ => rfl, by simp, by simp⟩
  rcases List.mem_append.mp hb with hb | hb
  · exact h.timer b hb
  · rw [List.mem_singleton.mp hb]
    exact ha

theorem ngxCloseConnection_fd : ((s.ngxCloseConnection a).1.conn a).fd = -1 := by
  simp [ngxCloseConnection, conn, Pool.ngxFreeConnection, setConn, Pool.set]

theorem ngxCloseConnection_fd_of_ne (hb : b ≠ a) :
    ((s.ngxCloseConnection a).1.conn b).fd = (s.conn b).fd := by
  unfold ngxCloseConnection
  dsimp only
  rw [conn, Pool.ngxFreeConnection_mem hb]
  change ((setConn _ a _).conn b).fd = _
  rw [conn_setConn_of_ne _ _ hb]
  split_ifs <;> rfl

theorem ngxCloseConnection_fds (hfd : (s.conn a).fd ≠ -1) :
    (s.ngxCloseConnection a).1.fds = s.fds.erase (s.conn a).fd := by
  simp [ngxCloseConnection, hfd, setConn, closeFd]

theorem plain_ngxCloseConnection (hs : Chart P S s) (ha : P a) :
    Plain P S s (s.ngxCloseConnection a).1 (s.ngxCloseConnection a).2 := by
  refine ⟨fun _ => ?_, ?_, fun b hb => ?_, fun b => ?_⟩
  · have hpool : (s.ngxCloseConnection a).1.pool.Charted S := by
      unfold ngxCloseConnection
      refine Pool.Charted.free ?_ (hs.sub a ha)
      split_ifs
      · exact Pool.Charted.set (p := s.pool) hs.pool rfl
      · exact Pool.Charted.set (p := s.pool) hs.pool rfl
    refine ⟨hs.sub, hpool, fun e he => ?_, ?_, ?_, ?_, ?_, ?_⟩
    · apply hs.epoll e
      revert he
      unfold ngxCloseConnection
      dsimp only
      split_ifs
      · exact fun he => (List.mem_filter.mp he).1
      · exact id
    all_goals
      unfold ngxCloseConnection
      dsimp only
      split_ifs
    · exact hs.task
    · exact hs.task
    · exact hs.event
    · exact hs.event
    · exact hs.timer
    · exact hs.timer
    · exact hs.recycle
    · exact hs.recycle
    · exact hs.ping
    · exact hs.ping
  · by_cases hfd : (s.conn a).fd = -1
    · refine .same ?_ fun b => ?_
      · simp [ngxCloseConnection, hfd, setConn]
      · by_cases hb : b = a
        · subst hb
          rw [ngxCloseConnection_fd, hfd]
        · exact ngxCloseConnection_fd_of_ne hb
    · exact .close a ha hfd (ngxCloseConnection_fds hfd) ngxCloseConnection_fd
        fun b => ngxCloseConnection_fd_of_ne
  · obtain ⟨dels, he, hd⟩ := ngxCloseConnection_events s a
    rw [he] at hb
    rcases List.mem_cons.mp hb with hb | hb
    · cases hb
      exact ngxCloseConnection_fd
    · cases hd _ hb
  · obtain ⟨dels, he, hd⟩ := ngxCloseConnection_events s a
    rw [he]
    intro hb
    rcases List.mem_cons.mp hb with hb | hb
    · cases hb
    · cases hd _ hb

theorem plain_offline (s : CSocket) : Plain P S s s.offline [] :=
  .of_same (fun h => ⟨h.sub, h.pool, h.epoll, h.task, h.event, h.timer, h.recycle, h.ping⟩) rfl
    fun _ => rfl

theorem plain_ngxFreeConSelf (ha : P a) (h : s.ngxFreeConSelf a = some (t, os)) :
    Plain P S s t os := by
  obtain ⟨v, hv, he⟩ := Option.map_eq_some_iff.mp h
  cases he
  by_cases hfd : (s.conn a).fd = -1
  · rw [if_neg (by simpa using hfd)] at hv
    exact (plain_ngxEpollDelEvent a).after rfl (fun _ => rfl)
      ((plain_offline _).after rfl (fun _ => rfl) (plain_later ha hv))
  · rw [if_pos hfd] at hv
    let c := s.conn a
    let u := (((s.ngxEpollDelEvent a).closeFd c.fd).setConn a { c with fd := -1 }).offline
    have hchart : Chart P S s → Chart P S u := fun hs =>
      ⟨hs.sub, Pool.Charted.set (p := s.pool) hs.pool rfl,
        fun e he => hs.epoll e (List.mem_filter.mp (List.mem_filter.mp he).1).1, hs.task, hs.event,
        hs.timer, hs.recycle, hs.ping⟩
    refine ⟨fun hs => (plain_later (s := u) ha hv).chart (hchart hs), ?_, by simp, by simp⟩
    obtain rfl := eq_of_erasePing hv
    refine .close a ha hfd rfl ?_ fun b hb => ?_
    · exact congrArg Connection.fd (conn_setConn_self _ _)
    · exact congrArg Connection.fd (conn_setConn_of_ne ((s.ngxEpollDelEvent a).closeFd c.fd) _ hb)

theorem plain_recvproc (ret : RecvRet) (hs : Chart P S s) (ha : P a)
    (h : s.recvproc a ret = some (t, os)) : Plain P S s t os := by
  cases ret with
  | data rd | again =>
    cases h
    exact .of_same id rfl fun _ => rfl
  | zero =>
    obtain ⟨v, hv, he⟩ := Option.map_eq_some_iff.mp h
    cases he
    exact (plain_ngxEpollDelEvent a).after rfl (fun _ => rfl)
      ((plain_offline _).after rfl (fun _ => rfl) (plain_later ha hv))
  | reset =>
    obtain ⟨v, hv, he⟩ := Option.map_eq_some_iff.mp h
    cases he
    exact (plain_ngxEpollDelEvent a).after rfl (fun _ => rfl) (plain_later ha hv)
  | error =>
    obtain ⟨rfl, rfl⟩ : t = ((s.ngxEpollDelEvent a).ngxCloseConnection a).1 ∧
        os = .release a :: ((s.ngxEpollDelEvent a).ngxCloseConnection a).2 := by
      cases h
      exact ⟨rfl, rfl⟩
    have hdel : Plain P S s (s.ngxEpollDelEvent a) [] := plain_ngxEpollDelEvent a
    have hclose := hdel.after rfl (fun _ => rfl) (plain_ngxCloseConnection (hdel.chart hs) ha)
    refine ⟨hclose.chart, hclose.fds, fun b hb => hclose.closed b ?_, fun b hb =>
      hclose.noGet b ?_⟩
    · simpa using hb
    · simpa using hb

theorem plain_afterRead {r : Connection × Ending} (hs : Chart P S s) (ha : P a)
    (hread : ReadsOnly (s.conn a) r.1) (h : s.afterRead a r = some (t, os)) :
    Plain P S s t os := by
  have hset : Plain P S s (s.setConn a r.1) [] := plain_setConn hread.fd hread.next
  have hfds : ∀ b, ((s.setConn a r.1).conn b).fd = (s.conn b).fd := fd_setConn hread.fd
  obtain ⟨c, e⟩ := r
  cases e with
  | done =>
    cases h
    exact hset
  | flood => exact hset.after rfl hfds (plain_ngxFreeConSelf ha h)
  | ret ret => exact hset.after rfl hfds (plain_recvproc ret (hset.chart hs) ha h)

theorem plain_ngxTimeCheckVisit {e : ℤ × StrucMsgHeader} {now : ℤ} (ha : P e.2.pConn)
    (h : s.ngxTimeCheckVisit e now = some (t, os)) : Plain P S s t os := by
  unfold ngxTimeCheckVisit at h
  dsimp only at h
  split_ifs at h with hseq htime hk
  · cases h
    exact .of_same (fun h => ⟨h.sub, h.pool, h.epoll, h.task, h.event, h.timer, h.recycle,
      fun x hx => h.ping x (List.mem_of_mem_erase hx)⟩) rfl fun _ => rfl
  · exact plain_ngxFreeConSelf ha h
  · cases h
    have hset : Plain P S s (s.setConn e.2.pConn { s.conn e.2.pConn with
        storePingTime := (s.conn e.2.pConn).lastPingTime }) [] := plain_setConn rfl rfl
    refine .of_same (fun hs => ?_) rfl (fd_setConn (a := e.2.pConn) rfl)
    have := hset.chart hs
    refine ⟨this.sub, this.pool, this.epoll, this.task, this.event, this.timer, this.recycle,
      fun x hx => ?_⟩
    rcases (List.perm_orderedInsert _ _ _).mem_iff.mp hx |> List.mem_cons.mp with rfl | hx
    · exact ha
    · exact hs.ping x (List.mem_of_mem_erase hx)
  · cases h
    exact .of_same id rfl fun _ => rfl

/-- The step accepts a connection. -/
def Step.isAccept : Step → Bool
  | .accept .. => true
  | _ => false

theorem plain_takeEvent : Plain P S s s.takeEvent [] :=
  .of_same (fun h => ⟨h.sub, h.pool, h.epoll, h.task,
    fun b hb => h.event b (List.mem_of_mem_tail hb), h.timer, h.recycle, h.ping⟩) rfl fun _ => rfl

theorem plain_step {i : Step} (hs : Chart P S s) (hi : i.isAccept = false)
    (h : s.step cfg i = some (t, os)) : Plain P S s t os := by
  have htake : Plain P S s s.takeEvent [] := plain_takeEvent
  cases i with
  | accept => cases hi
  | wait as =>
    simp only [step] at h
    split_ifs at h with has
    cases h
    refine .of_same (fun hs => ⟨hs.sub, hs.pool, hs.epoll, hs.task, fun b hb => ?_, hs.timer,
      hs.recycle, hs.ping⟩) rfl fun _ => rfl
    obtain ⟨e, he, rfl⟩ := List.mem_map.mp (has.2.2 b hb)
    exact hs.epoll e he
  | edge a =>
    simp only [step] at h
    split_ifs at h with ha
    cases h
    refine htake.after rfl (fun _ => rfl) (.of_same (fun hs' => ⟨hs'.sub, hs'.pool, hs'.epoll,
      fun b hb => ?_, hs'.event, hs'.timer, hs'.recycle, hs'.ping⟩) rfl fun _ => rfl)
    rcases List.mem_append.mp hb with hb | hb
    · exact hs.task b hb
    · rw [List.mem_singleton.mp hb]
      exact hs.event a ha.2.mem
  | task a rets =>
    simp only [step] at h
    split_ifs at h with ha
    obtain ⟨r, hr, h⟩ := Option.bind_eq_some_iff.mp h
    have hpop : Plain P S s { s with taskBuf := s.taskBuf.erase a } [] :=
      .of_same (fun hs => ⟨hs.sub, hs.pool, hs.epoll,
        fun b hb => hs.task b (List.mem_of_mem_erase hb), hs.event, hs.timer, hs.recycle,
        hs.ping⟩) rfl fun _ => rfl
    exact hpop.after rfl (fun _ => rfl)
      (plain_afterRead (hpop.chart hs) (hs.task a ha) (ReadsOnly.etTask hr) h)
  | read a ret =>
    simp only [step] at h
    split_ifs at h with ha
    obtain ⟨r, hr, h⟩ := Option.bind_eq_some_iff.mp h
    exact htake.after rfl (fun _ => rfl) (plain_afterRead (htake.chart hs) (hs.event a ha.2.mem)
      (ReadsOnly.ltCall hr) h)
  | hup a =>
    simp only [step] at h
    split_ifs at h with ha
    exact htake.after rfl (fun _ => rfl)
      (plain_recvproc .zero (htake.chart hs) (hs.event a ha.mem) h)
  | write a =>
    simp only [step] at h
    split_ifs at h
    cases h
    exact htake
  | ping m now =>
    simp only [step] at h
    split_ifs at h
    · cases h
      exact plain_setConn rfl rfl
    · cases h
      exact .of_same id rfl fun _ => rfl
  | visit e now =>
    simp only [step] at h
    split_ifs at h with he
    exact plain_ngxTimeCheckVisit (hs.ping e he) h
  | expire a =>
    simp only [step] at h
    split_ifs at h with ha
    cases h
    refine .of_same (fun hs => ⟨hs.sub, hs.pool, hs.epoll, hs.task, hs.event,
      fun b hb => hs.timer b (List.mem_of_mem_erase hb), fun b hb => ?_, hs.ping⟩) rfl fun _ => rfl
    rcases List.mem_append.mp hb with hb | hb
    · exact hs.recycle b hb
    · rw [List.mem_singleton.mp hb]
      exact hs.timer a ha
  | timerFree =>
    simp only [step, ngxTimerFreeConnection] at h
    cases hl : s.mRecyconnectionList with
    | nil =>
      rw [hl] at h
      cases h
    | cons con rest =>
      rw [hl] at h
      obtain ⟨rfl, rfl⟩ : t = (({ s with mRecyconnectionList := rest }).ngxCloseConnection con).1 ∧
          os = (({ s with mRecyconnectionList := rest }).ngxCloseConnection con).2 := by
        cases h
        exact ⟨rfl, rfl⟩
      have hpop : Plain P S s { s with mRecyconnectionList := rest } [] :=
        .of_same (fun hs => ⟨hs.sub, hs.pool, hs.epoll, hs.task, hs.event, hs.timer,
          fun b hb => hs.recycle b (by rw [hl]; exact List.mem_cons_of_mem _ hb), hs.ping⟩) rfl
          fun _ => rfl
      have hcon : P con := hs.recycle con (by rw [hl]; exact List.mem_cons_self)
      exact hpop.after rfl (fun _ => rfl) (plain_ngxCloseConnection (hpop.chart hs) hcon)

/-! ## The descriptors that the connections keep -/

/-- The descriptor a slot keeps: it was handed out, and the descriptor is not closed. -/
def handle (x : CSocket × List PoolEv) (a : Addr) : Option ℤ :=
  if .get a ∈ x.2 ∧ (x.1.conn a).fd ≠ -1 then some (x.1.conn a).fd else none

/-- The open descriptors are those of the listening sockets and those of the connections. -/
def NoLeak (listen : List ℤ) (x : CSocket × List PoolEv) : Prop :=
  Handles.Covered (handle x) listen x.1.fds

/-- An accept is not handed a slot that keeps a descriptor. -/
def Vacant (cfg : Conf) (x : CSocket × List PoolEv) : Step → Prop
  | .accept .. => x.1.Refuses cfg ∨ ∀ a ∈ x.1.pool.mPfreeConnections, handle x a = none
  | _ => True

/-- What holds of every run: the free list keeps to its slots, and the slots in it keep nothing. -/
structure Tidy (x : CSocket × List PoolEv) : Prop where
  chart : ∃ S, Chart (fun a => .get a ∈ x.2) S x.1
  returned : ∀ a, .get a ∈ x.2 → freed a x.2 ≠ 0 → (x.1.conn a).fd = -1

instance (cfg : Conf) (x : CSocket × List PoolEv) : ∀ i, Decidable (Vacant cfg x i)
  | .accept .. => inferInstanceAs (Decidable (_ ∨ _))
  | .wait _ | .edge _ | .task .. | .read .. | .hup _ | .write _ | .ping .. | .visit .. |
    .expire _ | .timerFree => isTrue trivial

variable {listen : List ℤ} {fd now : ℤ} {pool : Pool}

theorem Chart.congr {P' : Addr → Prop} (h : Chart P S s) (hP : ∀ a, P' a ↔ P a) : Chart P' S s where
  sub a ha := h.sub a ((hP a).mp ha)
  pool := h.pool
  epoll e he := (hP _).mpr (h.epoll e he)
  task a ha := (hP a).mpr (h.task a ha)
  event a ha := (hP a).mpr (h.event a ha)
  timer a ha := (hP a).mpr (h.timer a ha)
  recycle a ha := (hP a).mpr (h.recycle a ha)
  ping e he := (hP _).mpr (h.ping e he)

theorem mem_append_of_noGet (h : PoolEv.get a ∉ os) :
    PoolEv.get a ∈ log ++ os ↔ PoolEv.get a ∈ log := by
  simp [h]

theorem handle_same {log' : List PoolEv} (hm : ∀ b, PoolEv.get b ∈ log' ↔ PoolEv.get b ∈ log)
    (hc : ∀ b, (t.conn b).fd = (s.conn b).fd) : handle (t, log') = handle (s, log) := by
  funext b
  simp only [handle, hm b, hc b]

theorem handle_close {log' : List PoolEv} (hm : ∀ b, PoolEv.get b ∈ log' ↔ PoolEv.get b ∈ log)
    (hn : (t.conn a).fd = -1) (hc : ∀ b, b ≠ a → (t.conn b).fd = (s.conn b).fd) :
    handle (t, log') = Function.update (handle (s, log)) a none := by
  funext b
  by_cases hb : b = a
  · subst hb
    simp [handle, hn]
  · simp only [handle, hm b, hc b hb, Function.update_of_ne hb]

/-- **A step other than an accept** leaks nothing. -/
theorem NoLeak.plain (h : NoLeak listen (s, log))
    (hp : Plain (fun a => .get a ∈ log) S s t os) : NoLeak listen (t, log ++ os) := by
  unfold NoLeak at *
  cases hp.fds with
  | same hf hc =>
    rw [handle_same (fun b => mem_append_of_noGet (hp.noGet b)) hc, hf]
    exact h
  | close a ha hne hf hn hc =>
    rw [handle_close (fun b => mem_append_of_noGet (hp.noGet b)) hn hc, hf]
    exact h.drop (if_pos ⟨ha, hne⟩)

theorem FdMove.closed (h : FdMove P s t) (ha : (s.conn a).fd = -1) : (t.conn a).fd = -1 := by
  cases h with
  | same _ hc => exact (hc a).trans ha
  | close b _ _ _ hn hc =>
    by_cases hb : a = b
    · rw [hb]
      exact hn
    · exact (hc a hb).trans ha

theorem Tidy.plain (h : Tidy (s, log)) (hp : ∀ S, Chart (fun a => .get a ∈ log) S s →
    Plain (fun a => .get a ∈ log) S s t os) : Tidy (t, log ++ os) := by
  obtain ⟨S, hS⟩ := h.chart
  have hpl := hp S hS
  refine ⟨⟨S, (hpl.chart hS).congr fun a => mem_append_of_noGet (hpl.noGet a)⟩, fun a hg hf => ?_⟩
  have hget := (mem_append_of_noGet (hpl.noGet a)).mp hg
  by_cases hold : freed a log = 0
  · have hcount : freed a (log ++ os) = freed a log + os.count (.free a) :=
      tally_append (hpl.noGet a)
    have hf' : freed a (log ++ os) ≠ 0 := hf
    exact hpl.closed a (List.count_pos_iff.mp (by omega))
  · exact hpl.fds.closed (h.returned a hget hold)

/-! ## An accept -/

theorem takeConn_spec (hs : Chart (fun a => .get a ∈ log) S s) (hfd : ¬ (fd < 0 ∨ fd ∈ s.fds))
    (hget : s.pool.ngxGetConnection cfg fd = some (a, pool)) :
    (∃ S', Chart (fun b => .get b ∈ log ++ [.get a]) S' (s.takeConn fd a pool)) ∧
      (∀ b, b ≠ a → PoolEv.get b ∈ log →
        ((s.takeConn fd a pool).conn b).fd = (s.conn b).fd) ∧
      ((s.takeConn fd a pool).conn a).fd = fd ∧
      handle (s.takeConn fd a pool, log ++ [.get a]) =
        Function.update (handle (s, log)) a (some fd) := by
  obtain ⟨hSa, -, hpfd, hframe, S', hsub, hS'⟩ := hs.pool.get hget
  have hself : ((s.takeConn fd a pool).conn a).fd = fd := by
    simp [takeConn, conn, Pool.set, Connection.initRecv, hpfd]
  have hother : ∀ b, b ≠ a → PoolEv.get b ∈ log →
      ((s.takeConn fd a pool).conn b).fd = (s.conn b).fd := by
    intro b hb hg
    simp [takeConn, conn, Pool.set, Function.update_of_ne hb, hframe b (hs.sub b hg) hb]
  have hmono : ∀ b, PoolEv.get b ∈ log → PoolEv.get b ∈ log ++ [PoolEv.get a] :=
    fun b hb => List.mem_append_left _ hb
  refine ⟨⟨S', ⟨fun b hb => ?_, Pool.Charted.set hS' rfl, fun e he => hmono _ (hs.epoll e he),
    fun b hb => hmono _ (hs.task b hb), fun b hb => hmono _ (hs.event b hb),
    fun b hb => hmono _ (hs.timer b hb), fun b hb => hmono _ (hs.recycle b hb),
    fun e he => hmono _ (hs.ping e he)⟩⟩, hother, hself, ?_⟩
  · rcases List.mem_append.mp hb with hb | hb
    · exact hsub b (hs.sub b hb)
    · cases List.mem_singleton.mp hb
      exact hsub a hSa
  · funext b
    by_cases hb : b = a
    · subst hb
      have hne : fd ≠ -1 := by omega
      simp [handle, hself, hne]
    · rw [Function.update_of_ne hb]
      by_cases hg : PoolEv.get b ∈ log
      · simp [handle, hg, hother b hb hg]
      · simp [handle, hg, hb]

/-- What an accept does that is not refused: slot `a` is handed out, and keeps `fd` or, where epoll
does not take it, nothing. -/
structure Hands (s : CSocket) (log : List PoolEv) (fd : ℤ) (a : Addr) (t : CSocket)
    (os : List PoolEv) : Prop where
  head : s.pool.mPfreeConnections = some a
  chart : ∃ S, Chart (fun b => .get b ∈ log ++ os) S t
  others : ∀ b, b ≠ a → .get b ∈ log → (t.conn b).fd = (s.conn b).fd
  events : ∀ b, b ≠ a → .get b ∉ os ∧ .free b ∉ os
  self : os = [.get a] ∨ (t.conn a).fd = -1
  kept : (t.fds = fd :: s.fds ∧
      handle (t, log ++ os) = Function.update (handle (s, log)) a (some fd)) ∨
    (t.fds = s.fds ∧ handle (t, log ++ os) = Function.update (handle (s, log)) a none)

theorem ngxAddCheck_fd (s : CSocket) : ((s.ngxAddCheck a now).conn b).fd = (s.conn b).fd := by
  by_cases hb : b = a
  · rw [hb, ngxAddCheck_conn_self]
  · rw [ngxAddCheck_conn_of_ne _ _ hb]

theorem hands_added (hs : Chart (fun a => .get a ∈ log) S s) (hfd : ¬ (fd < 0 ∨ fd ∈ s.fds))
    (hget : s.pool.ngxGetConnection cfg fd = some (a, pool)) :
    Hands s log fd a ({ s.takeConn fd a pool with epoll := (fd, a) :: s.epoll }.ngxAddCheck a now)
      [.get a] := by
  obtain ⟨-, hhead, -⟩ := hs.pool.get hget
  obtain ⟨⟨S', hS'⟩, hother, -, hhandle⟩ := takeConn_spec hs hfd hget
  let u : CSocket := { s.takeConn fd a pool with epoll := (fd, a) :: s.epoll }
  have hconn : ∀ b, ((u.ngxAddCheck a now).conn b).fd = ((s.takeConn fd a pool).conn b).fd :=
    fun b => ngxAddCheck_fd u
  have hself : PoolEv.get a ∈ log ++ [.get a] := by simp
  refine ⟨hhead, ⟨S', hS'.sub, Pool.Charted.set (p := u.pool) hS'.pool rfl, fun e he => ?_,
    hS'.task, hS'.event, hS'.timer, hS'.recycle, fun e he => ?_⟩,
    fun b hb hg => (hconn b).trans (hother b hb hg), fun b hb => by simp [hb], .inl rfl,
    .inl ⟨rfl, ?_⟩⟩
  · rcases List.mem_cons.mp he with rfl | he
    · exact hself
    · exact hS'.epoll e he
  · rcases (List.perm_orderedInsert _ _ _).mem_iff.mp he |> List.mem_cons.mp with rfl | he
    · exact hself
    · exact hS'.ping e he
  · rw [← hhandle]
    exact handle_same (fun _ => Iff.rfl) hconn

theorem hands_closed (hs : Chart (fun a => .get a ∈ log) S s) (hfd : ¬ (fd < 0 ∨ fd ∈ s.fds))
    (hget : s.pool.ngxGetConnection cfg fd = some (a, pool)) :
    Hands s log fd a ((s.takeConn fd a pool).ngxCloseConnection a).1
      (.get a :: .release a :: ((s.takeConn fd a pool).ngxCloseConnection a).2) := by
  obtain ⟨-, hhead, -⟩ := hs.pool.get hget
  obtain ⟨⟨S', hS'⟩, hother, hself, hhandle⟩ := takeConn_spec hs hfd hget
  obtain ⟨dels, he, hd⟩ := ngxCloseConnection_events (s.takeConn fd a pool) a
  have hpl := plain_ngxCloseConnection hS' (a := a) (by simp)
  have hmem : ∀ b, PoolEv.get b ∈ log ++ .get a :: .release a ::
      ((s.takeConn fd a pool).ngxCloseConnection a).2 ↔ PoolEv.get b ∈ log ++ [.get a] := by
    intro b
    simp [hpl.noGet b]
  refine ⟨hhead, ⟨S', (hpl.chart hS').congr hmem⟩, fun b hb hg => ?_, fun b hb => ?_,
    .inr ngxCloseConnection_fd, .inr ⟨?_, ?_⟩⟩
  · rw [ngxCloseConnection_fd_of_ne hb]
    exact hother b hb hg
  · have h1 : PoolEv.get b ∉ dels := fun h => PoolEv.noConfusion (hd _ h)
    have h2 : PoolEv.free b ∉ dels := fun h => PoolEv.noConfusion (hd _ h)
    rw [he]
    simp [hb, h1, h2]
  · rw [ngxCloseConnection_fds (by omega), hself]
    exact List.erase_cons_head ..
  · rw [handle_close hmem ngxCloseConnection_fd fun b hb => ngxCloseConnection_fd_of_ne hb,
      hhandle, Function.update_idem]

theorem hands_of_accept {added : Bool} (hs : Chart (fun a => .get a ∈ log) S s)
    (h : s.ngxEventAccept cfg fd now added = some (t, os)) :
    (s.Refuses cfg ∧ t = s ∧ os = []) ∨ ¬ s.Refuses cfg ∧ ∃ a, Hands s log fd a t os := by
  obtain ⟨hfd, ⟨href, rfl, rfl⟩ | ⟨a, pool, hmax, hget, hcase⟩⟩ := ngxEventAccept_cases h
  · exact .inl ⟨href.imp_right get_eq_none.mp, rfl, rfl⟩
  obtain ⟨-, hhead, -⟩ := hs.pool.get hget
  have hadmits : ¬ s.Refuses cfg := by
    rintro (hr | hr)
    · exact hmax hr
    · rw [hhead] at hr
      cases hr
  rcases hcase with ⟨-, rfl, rfl⟩ | ⟨-, rfl, rfl⟩
  · exact .inr ⟨hadmits, a, hands_added hs hfd hget⟩
  · exact .inr ⟨hadmits, a, hands_closed hs hfd hget⟩

/-- **An accept** leaks nothing exactly where the slot it is handed keeps no descriptor. -/
theorem Hands.noLeak_iff (h : Hands s log fd a t os) (hl : NoLeak listen (s, log)) :
    NoLeak listen (t, log ++ os) ↔ handle (s, log) a = none := by
  unfold NoLeak at *
  rcases h.kept with ⟨hf, hh⟩ | ⟨hf, hh⟩
  · rw [hf, hh]
    constructor
    · intro hc
      by_contra hne
      obtain ⟨x, hx⟩ := Option.ne_none_iff_exists'.mp hne
      exact Handles.not_covered_overwrite hl hx hc
    · exact fun hn => hl.take hn fd
  · rw [hf, hh]
    constructor
    · intro hc
      by_contra hne
      obtain ⟨x, hx⟩ := Option.ne_none_iff_exists'.mp hne
      exact Handles.not_covered_clear hl hx hc
    · intro hn
      rw [← hn, Function.update_eq_self]
      exact hl

theorem Hands.tidy (h : Hands s log fd a t os) (hi : Tidy (s, log)) : Tidy (t, log ++ os) := by
  refine ⟨h.chart, fun b hg hf => ?_⟩
  by_cases hb : b = a
  · subst hb
    rcases h.self with rfl | hn
    · refine absurd ?_ hf
      exact tally_get List.not_mem_nil
    · exact hn
  · obtain ⟨hnotGet, hnotFree⟩ := h.events b hb
    have hg' : PoolEv.get b ∈ log := (mem_append_of_noGet hnotGet).mp hg
    have hcount : freed b (log ++ os) = freed b log := tally_append_of_notMem hnotGet hnotFree
    have hf' : freed b (log ++ os) ≠ 0 := hf
    rw [hcount] at hf'
    exact (h.others b hb hg').trans (hi.returned b hg' hf')

/-! ## Runs -/

theorem step_tidy {i : Step} (hi : Tidy (s, log)) (h : s.step cfg i = some (t, os)) :
    Tidy (t, log ++ os) := by
  cases hacc : i.isAccept with
  | false => exact hi.plain fun S hS => plain_step hS hacc h
  | true =>
    cases i with
    | accept fd now added =>
      obtain ⟨S, hS⟩ := hi.chart
      obtain ⟨-, rfl, rfl⟩ | ⟨-, a, ha⟩ := hands_of_accept hS h
      · rw [List.append_nil]
        exact hi
      · exact ha.tidy hi
    | _ => cases hacc

/-- **One step** leaks nothing exactly where it is not an accept that is handed a slot in use. -/
theorem step_noLeak {i : Step} (hi : Tidy (s, log)) (hl : NoLeak listen (s, log))
    (h : s.step cfg i = some (t, os)) :
    NoLeak listen (t, log ++ os) ↔ Vacant cfg (s, log) i := by
  obtain ⟨S, hS⟩ := hi.chart
  cases hacc : i.isAccept with
  | false =>
    have hv : Vacant cfg (s, log) i := by
      cases i with
      | accept => cases hacc
      | _ => trivial
    exact iff_of_true (hl.plain (plain_step hS hacc h)) hv
  | true =>
    cases i with
    | accept fd now added =>
      obtain ⟨href, rfl, rfl⟩ | ⟨hadm, a, ha⟩ := hands_of_accept hS h
      · rw [List.append_nil]
        exact iff_of_true hl (.inl href)
      · rw [ha.noLeak_iff hl]
        constructor
        · intro hn
          refine .inr fun b hb => ?_
          rw [ha.head] at hb
          cases hb
          exact hn
        · exact fun hv => (hv.resolve_left hadm) a ha.head
    | _ => cases hacc

/-- Where every close finds its connection registered, a slot of the free list keeps nothing. -/
theorem vacant_of_inv {i : Step} (hi : Tidy (s, log)) (hb : s.Inv log) : Vacant cfg (s, log) i := by
  cases i with
  | accept fd now added =>
    refine .inr fun a ha => ?_
    by_cases hg : PoolEv.get a ∈ log
    · obtain ⟨xs, hx, hmem⟩ := hb.free
      have hax : a ∈ xs := by
        have hlinks := hx.links
        rw [ha] at hlinks
        cases hlinks with
        | cons => exact List.mem_cons_self
      have hf := (hmem a hg).mp hax
      have hfd : (s.conn a).fd = -1 := hi.returned a hg (by
        change freed a log ≠ 0
        omega)
      simp [handle, hfd]
    · simp [handle, hg]
  | _ => trivial

theorem takeListening_charted {p p' : Pool} {fds : List ℤ} (hp : p.Charted S)
    (h : takeListening cfg p fds = some p') : ∃ S', p'.Charted S' := by
  induction fds generalizing p S with
  | nil =>
    cases h
    exact ⟨S, hp⟩
  | cons fd fds ih =>
    obtain ⟨⟨a, q⟩, hq, h⟩ := Option.bind_eq_some_iff.mp h
    obtain ⟨-, -, -, -, S', -, hS'⟩ := hp.get hq
    exact ih hS' h

theorem tidy_start {heap : Addr → Connection} (h : ngxEpollInit cfg heap listen = some s) :
    Tidy (s, []) ∧ NoLeak listen (s, []) := by
  obtain ⟨p, hp, rfl⟩ := Option.map_eq_some_iff.mp h
  obtain ⟨S, hS⟩ := takeListening_charted (Pool.charted_of_free (Pool.init_free cfg heap)) hp
  refine ⟨⟨⟨S, ⟨fun a ha => absurd ha List.not_mem_nil, hS, by simp, by simp, by simp, by simp,
    by simp, by simp⟩⟩, fun a ha => absurd ha List.not_mem_nil⟩, ?_⟩
  have hnone : ∀ t : CSocket, handle (t, []) = fun _ => none := by
    intro t
    funext a
    simp [handle]
  unfold NoLeak
  rw [hnone]
  exact Handles.covered_base listen

/-- **No descriptor is lost.** In every state of a run of the process the open descriptors are those
of the listening sockets and those that the connections keep, one each, if and only if no accept of
the run is handed a slot that still keeps one; and no accept is where every close of the run finds
its connection registered with epoll. -/
theorem descriptors_iff (cfg : Conf) (heap : Addr → Connection) (listen : List ℤ) (s : CSocket)
    (is : List Step) (hs : ngxEpollInit cfg heap listen = some s)
    (hv : Run.Guarded (Run.logged (step cfg)) (Run.Defined (Run.logged (step cfg))) (s, []) is) :
    (Run.Always (Run.logged (step cfg)) (NoLeak listen) (s, []) is ↔
      Run.Guarded (Run.logged (step cfg)) (Vacant cfg) (s, []) is) ∧
    (Run.Guarded (Run.logged (step cfg)) (fun t i => t.1.ClosesRegistered cfg i) (s, []) is →
      Run.Guarded (Run.logged (step cfg)) (Vacant cfg) (s, []) is) := by
  obtain ⟨ht, hl⟩ := tidy_start hs
  constructor
  · refine Run.always_iff_guarded (I := Tidy) ?_ ht hl hv
    rintro ⟨t, log⟩ i hi hl hd
    obtain ⟨⟨u, os⟩, hu⟩ := Option.isSome_iff_exists.mp hd
    obtain ⟨t', hstep, rfl⟩ := Run.logged_eq_some.mp hu
    exact ⟨_, _, hu, step_noLeak hi hl hstep, fun _ => step_tidy hi hstep⟩
  · have hI : Tidy (s, []) ∧ (s, ([] : List PoolEv)).1.Inv [] := ⟨ht, inv_ngxEpollInit hs⟩
    refine Run.Guarded.of_inv (I := fun t => Tidy t ∧ t.1.Inv t.2) ?_ ?_ hI
    · rintro ⟨t, log⟩ i u os ⟨hi, hb⟩ hg hu
      obtain ⟨t', hstep, rfl⟩ := Run.logged_eq_some.mp hu
      exact ⟨step_tidy hi hstep, step_inv hb hg hstep⟩
    · rintro ⟨t, log⟩ i ⟨hi, hb⟩
      exact vacant_of_inv hi hb

/-- Of a connection that is released twice the slot is in the free list twice: it is handed out with
descriptor 7 and, though that is open, again with 8. -/
theorem descriptors_twice :
    let cfg : Conf := ⟨7, .etOpen, 0, 100, 10⟩
    let s := (ngxEpollInit cfg (fun _ => .zero) [3]).get (by decide +kernel)
    ¬ Run.Always (Run.logged (step cfg)) (NoLeak [3]) (s, [])
      [.accept 5 0 true, .accept 6 0 true, .wait [⟨0, 1⟩], .edge ⟨0, 1⟩, .wait [⟨0, 1⟩],
        .edge ⟨0, 1⟩, .task ⟨0, 1⟩ [.data ⟨0, [13, 0, 1]⟩, .zero], .task ⟨0, 1⟩ [.zero],
        .expire ⟨0, 1⟩, .expire ⟨0, 1⟩, .timerFree, .timerFree, .accept 7 20 true,
        .accept 8 20 true] :=
  fun h => absurd ((descriptors_iff ⟨7, .etOpen, 0, 100, 10⟩ (fun _ => .zero) [3] _ _
    (Option.some_get _).symm (by decide +kernel)).1.mp h) (by decide +kernel)

end CSocket

end ServerNginx
