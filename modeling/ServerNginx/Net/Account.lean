import ServerNginx.Net.Release

set_option autoImplicit false

/-!
# The books of the connection slots

`released`, `freed` and `deleted` count what has become of a slot since it was last taken.
`Books s pend log` keeps the account of every slot that was ever accepted: it is registered with
epoll and not released, or released once and then on its way to the free list (an element of
`pend`) or in it. The lemmas of this file say what the primitive changes do to the books.
-/

namespace ServerNginx

/-! ## Counting events -/

/-- The events since slot `a` was last taken, the newest first. -/
def sinceGet (a : Addr) (log : List PoolEv) : List PoolEv :=
  log.reverse.takeWhile (· ≠ .get a)

/-- The number of events `k a` since slot `a` was last taken. -/
def tally (k : Addr → PoolEv) (a : Addr) (log : List PoolEv) : ℕ := (sinceGet a log).count (k a)

/-- Releases scheduled or begun. -/
abbrev released (a : Addr) (log : List PoolEv) : ℕ := tally .release a log

/-- Returns to the free list. -/
abbrev freed (a : Addr) (log : List PoolEv) : ℕ := tally .free a log

/-- Deletions of the slot's `logicObj`. -/
abbrev deleted (a : Addr) (log : List PoolEv) : ℕ := tally .delete a log

section tally

variable {k : Addr → PoolEv} {a : Addr} {log os : List PoolEv}

theorem tally_append (h : PoolEv.get a ∉ os) :
    tally k a (log ++ os) = tally k a log + os.count (k a) := by
  have hall : ∀ e ∈ os.reverse, decide (e ≠ PoolEv.get a) = true := by
    intro e he
    rw [decide_eq_true_eq]
    rintro rfl
    exact h (List.mem_reverse.mp he)
  rw [tally, sinceGet, List.reverse_append, List.takeWhile_append_of_pos hall, List.count_append,
    List.count_reverse, Nat.add_comm]
  rfl

theorem tally_get (h : PoolEv.get a ∉ os) :
    tally k a (log ++ .get a :: os) = os.count (k a) := by
  have hsplit : log ++ .get a :: os = (log ++ [.get a]) ++ os := by simp
  have hzero : tally k a (log ++ [.get a]) = 0 := by
    simp [tally, sinceGet]
  rw [hsplit, tally_append h, hzero, Nat.zero_add]

theorem tally_append_of_notMem (h : PoolEv.get a ∉ os) (hk : k a ∉ os) :
    tally k a (log ++ os) = tally k a log := by
  rw [tally_append h, List.count_eq_zero_of_not_mem hk, Nat.add_zero]

end tally

/-! ## The connection objects after an assignment -/

namespace CSocket

variable (s : CSocket) {a b : Addr} (c : Connection)

@[simp] theorem conn_setConn_self : (s.setConn a c).conn a = c := by
  simp [conn, setConn, Pool.set]

theorem conn_setConn_of_ne (h : b ≠ a) : (s.setConn a c).conn b = s.conn b := by
  simp [conn, setConn, Pool.set, Function.update_of_ne h]

@[simp] theorem ngxEpollDelEvent_pool : (s.ngxEpollDelEvent a).pool = s.pool := rfl

@[simp] theorem ngxEpollDelEvent_conn : (s.ngxEpollDelEvent a).conn b = s.conn b := rfl

@[simp] theorem ngxEpollDelEvent_fds : (s.ngxEpollDelEvent a).fds = s.fds := rfl

end CSocket

/-! ## The books -/

/-- The account of every slot that was accepted; `pend` lists the slots whose release is under
way. -/
structure Books (s : CSocket) (pend : List Addr) (log : List PoolEv) : Prop where
  free : ∃ xs, s.pool.Free xs ∧ ∀ a, PoolEv.get a ∈ log → (a ∈ xs ↔ freed a log = 1)
  reg : ∀ e ∈ s.epoll, PoolEv.get e.2 ∈ log ∧ released e.2 log = 0 ∧ (s.conn e.2).fd = e.1 ∧
    e.1 ≠ -1
  unreg : ∀ a, PoolEv.get a ∈ log → ¬ s.Registered a → released a log = 1
  unused : ∀ a, PoolEv.get a ∉ log → released a log = 0
  booked : ∀ a, released a log = freed a log + pend.count a
  deleted : ∀ a, deleted a log = freed a log
  obj : ∀ a, PoolEv.get a ∈ log → freed a log = 0 → (s.conn a).logicObj.isSome
  block : ∀ a, PoolEv.get a ∈ log → a.block < s.pool.mPconnections.length
  task : ∀ a ∈ s.taskBuf, PoolEv.get a ∈ log
  event : ∀ a ∈ s.mEvents, PoolEv.get a ∈ log
  ping : ∀ e ∈ s.mTimerQueuemap, PoolEv.get e.2.pConn ∈ log
  fd : ∀ a, PoolEv.get a ∈ log → freed a log = 0 → (s.conn a).fd ≠ -1 → (s.conn a).fd ∈ s.fds
  inj : ∀ a b, PoolEv.get a ∈ log → PoolEv.get b ∈ log → freed a log = 0 → freed b log = 0 →
    (s.conn a).fd ≠ -1 → (s.conn a).fd = (s.conn b).fd → a = b

namespace Books

variable {s : CSocket} {pend : List Addr} {log : List PoolEv} {a b : Addr}

theorem get_of_registered (hb : Books s pend log) (h : s.Registered a) : PoolEv.get a ∈ log := by
  obtain ⟨e, he, rfl⟩ := List.mem_map.mp h
  exact (hb.reg e he).1

theorem released_of_registered (hb : Books s pend log) (h : s.Registered a) :
    released a log = 0 := by
  obtain ⟨e, he, rfl⟩ := List.mem_map.mp h
  exact (hb.reg e he).2.1

theorem freed_of_registered (hb : Books s pend log) (h : s.Registered a) : freed a log = 0 := by
  have := hb.booked a
  have := hb.released_of_registered h
  omega

/-- A slot under way to the free list was accepted, is not registered and not yet free. -/
theorem of_mem_pend (hb : Books s pend log) (h : a ∈ pend) :
    PoolEv.get a ∈ log ∧ ¬ s.Registered a ∧ released a log = 1 ∧ freed a log = 0 ∧
      pend.count a = 1 := by
  have hpos : 0 < pend.count a := List.count_pos_iff.mpr h
  have hbook := hb.booked a
  have hget : PoolEv.get a ∈ log := by
    by_contra hn
    have := hb.unused a hn
    omega
  have hreg : ¬ s.Registered a := by
    intro hr
    have := hb.released_of_registered hr
    omega
  have := hb.unreg a hget hreg
  exact ⟨hget, hreg, this, by omega, by omega⟩

/-- **Every slot is released at most once**, and the free list is a list. -/
theorem released_le (hb : Books s pend log) (a : Addr) : released a log ≤ 1 := by
  by_cases hget : PoolEv.get a ∈ log
  · by_cases hreg : s.Registered a
    · have := hb.released_of_registered hreg
      omega
    · exact (hb.unreg a hget hreg).le
  · have := hb.unused a hget
    omega

theorem congr_pend (hb : Books s pend log) (pend' : List Addr)
    (h : ∀ a, pend'.count a = pend.count a) : Books s pend' log where
  __ := hb
  booked := fun a => by rw [h, hb.booked]

/-- Tasks, events and heartbeat entries may go, or come for accepted slots. -/
theorem lists (hb : Books s pend log) {s' : CSocket} (hpool : s'.pool = s.pool)
    (hfds : s'.fds = s.fds) (hepoll : s'.epoll = s.epoll)
    (htask : ∀ a ∈ s'.taskBuf, PoolEv.get a ∈ log)
    (hevent : ∀ a ∈ s'.mEvents, PoolEv.get a ∈ log)
    (hping : ∀ e ∈ s'.mTimerQueuemap, PoolEv.get e.2.pConn ∈ log) : Books s' pend log := by
  have hconn : ∀ a, s'.conn a = s.conn a := fun a => by rw [CSocket.conn, hpool]; rfl
  exact {
    free := by rw [hpool]; exact hb.free
    reg := by simpa only [hepoll, hconn] using hb.reg
    unreg := by simpa only [CSocket.Registered, hepoll] using hb.unreg
    unused := hb.unused
    booked := hb.booked
    deleted := hb.deleted
    obj := by simpa only [hconn] using hb.obj
    block := by simpa only [hpool] using hb.block
    task := htask
    event := hevent
    ping := hping
    fd := by simpa only [hconn, hfds] using hb.fd
    inj := by simpa only [hconn] using hb.inj }

theorem touch (hb : Books s pend log) {c : Connection} (hfd : c.fd = (s.conn a).fd)
    (hnext : c.next = (s.conn a).next) (hobj : c.logicObj = (s.conn a).logicObj) :
    Books (s.setConn a c) pend log := by
  have heq : ∀ b, ((s.setConn a c).conn b).fd = (s.conn b).fd ∧
      ((s.setConn a c).conn b).next = (s.conn b).next ∧
      ((s.setConn a c).conn b).logicObj = (s.conn b).logicObj := by
    intro b
    by_cases h : b = a
    · subst h
      simp only [CSocket.conn_setConn_self]
      exact ⟨hfd, hnext, hobj⟩
    · simp only [CSocket.conn_setConn_of_ne s c h, and_self]
  exact {
    free := by
      obtain ⟨xs, hx, hmem⟩ := hb.free
      exact ⟨xs, ⟨hx.links.congr fun b _ => (heq b).2.1, hx.block⟩, hmem⟩
    reg := fun e he => by
      rw [(heq e.2).1]
      exact hb.reg e he
    unreg := hb.unreg
    unused := hb.unused
    booked := hb.booked
    deleted := hb.deleted
    obj := fun b => by
      rw [(heq b).2.2]
      exact hb.obj b
    block := hb.block
    task := hb.task
    event := hb.event
    ping := hb.ping
    fd := fun b => by
      rw [(heq b).1]
      exact hb.fd b
    inj := fun b d => by
      rw [(heq b).1, (heq d).1]
      exact hb.inj b d }

theorem schedule (hb : Books s pend log) (hr : s.Registered a) :
    Books (s.ngxEpollDelEvent a) (a :: pend) (log ++ [.release a]) := by
  have hget : ∀ b, PoolEv.get b ∈ log ++ [.release a] ↔ PoolEv.get b ∈ log := by simp
  have hrel : ∀ b, released b (log ++ [.release a]) = released b log + [a].count b := by
    intro b
    rw [released, tally_append (by simp)]
    simp [List.count_cons]
  have hfree : ∀ b, freed b (log ++ [.release a]) = freed b log := fun b =>
    tally_append_of_notMem (by simp) (by simp)
  have hdel : ∀ b, ServerNginx.deleted b (log ++ [.release a]) = ServerNginx.deleted b log :=
    fun b => tally_append_of_notMem (by simp) (by simp)
  exact {
    free := by simpa only [hget, hfree, CSocket.ngxEpollDelEvent_pool] using hb.free
    reg := fun e he => by
      obtain ⟨hmem, hne⟩ := List.mem_filter.mp he
      obtain ⟨hg, h0, hfd, h1⟩ := hb.reg e hmem
      have hea : a ≠ e.2 := by
        rintro rfl
        exact of_decide_eq_true hne hfd.symm
      rw [hget, hrel, List.count_singleton, if_neg (by simpa using hea)]
      exact ⟨hg, h0, hfd, h1⟩
    unreg := fun b hg hn => by
      rw [hget] at hg
      rw [hrel, List.count_singleton]
      by_cases hba : a = b
      · subst hba
        rw [hb.released_of_registered hr, if_pos (by simp)]
      · rw [if_neg (by simpa using hba)]
        apply hb.unreg b hg
        intro hreg
        -- otherwise `b` was registered under the descriptor of `a`
        obtain ⟨e, he, rfl⟩ := List.mem_map.mp hreg
        obtain ⟨-, -, hfd, h1⟩ := hb.reg e he
        by_cases heq : e.1 = (s.conn a).fd
        · exact hba (hb.inj a e.2 (hb.get_of_registered hr) hg (hb.freed_of_registered hr)
            (hb.freed_of_registered hreg) (heq ▸ h1) (heq ▸ hfd.symm))
        · exact hn (List.mem_map.mpr ⟨e, List.mem_filter.mpr ⟨he, decide_eq_true heq⟩, rfl⟩)
    unused := fun b hg => by
      rw [hget] at hg
      have hba : a ≠ b := by
        rintro rfl
        exact hg (hb.get_of_registered hr)
      rw [hrel, hb.unused b hg, List.count_singleton, if_neg (by simpa using hba)]
    booked := fun b => by
      rw [hrel, hfree, hb.booked, List.count_singleton, List.count_cons]
      omega
    deleted := fun b => by rw [hdel, hfree, hb.deleted]
    obj := by simpa only [hget, hfree, CSocket.ngxEpollDelEvent_conn] using hb.obj
    block := fun b hg => hb.block b ((hget b).mp hg)
    task := fun b hm => (hget b).mpr (hb.task b hm)
    event := fun b hm => (hget b).mpr (hb.event b hm)
    ping := fun e he => (hget _).mpr (hb.ping e he)
    fd := by
      simpa only [hget, hfree, CSocket.ngxEpollDelEvent_conn, CSocket.ngxEpollDelEvent_fds]
        using hb.fd
    inj := by simpa only [hget, hfree, CSocket.ngxEpollDelEvent_conn] using hb.inj }

/-- The descriptor of a slot in use that is not registered is not in the epoll set. -/
theorem fd_notMem_epoll (hb : Books s pend log) (hget : PoolEv.get a ∈ log)
    (hfree : freed a log = 0) (hreg : ¬ s.Registered a) (hfd : (s.conn a).fd ≠ -1) :
    ∀ e ∈ s.epoll, e.1 ≠ (s.conn a).fd := by
  intro e he heq
  obtain ⟨hg, -, hefd, -⟩ := hb.reg e he
  have her : s.Registered e.2 := List.mem_map.mpr ⟨e, he, rfl⟩
  have := hb.inj a e.2 hget hg hfree (hb.freed_of_registered her) hfd (by rw [hefd, heq])
  exact hreg (this ▸ her)

theorem closeFd_epoll (hb : Books s pend log) (hget : PoolEv.get a ∈ log)
    (hfree : freed a log = 0) (hreg : ¬ s.Registered a) (hfd : (s.conn a).fd ≠ -1) :
    (s.closeFd (s.conn a).fd).epoll = s.epoll := by
  apply List.filter_eq_self.mpr
  intro e he
  rw [decide_eq_true_eq]
  exact hb.fd_notMem_epoll hget hfree hreg hfd e he

theorem ngxEpollDelEvent_epoll (hb : Books s pend log) (hr : s.Registered a) :
    (s.ngxEpollDelEvent a).epoll = s.epoll.filter fun e => e.2 ≠ a := by
  apply List.filter_congr
  intro e he
  obtain ⟨hg, -, hefd, hne⟩ := hb.reg e he
  have her : s.Registered e.2 := List.mem_map.mpr ⟨e, he, rfl⟩
  have hiff : e.1 = (s.conn a).fd ↔ e.2 = a := by
    constructor
    · intro heq
      exact hb.inj e.2 a hg (hb.get_of_registered hr) (hb.freed_of_registered her)
        (hb.freed_of_registered hr) (by rw [hefd]; exact hne) (by rw [hefd, heq])
    · intro heq
      rw [← heq, hefd]
  simp only [ne_eq, hiff]

theorem closeFd (hb : Books s pend log) (hget : PoolEv.get a ∈ log) (hfree : freed a log = 0)
    (hreg : ¬ s.Registered a) (hfd : (s.conn a).fd ≠ -1) {c : Connection} (hc : c.fd = -1)
    (hobj : c.logicObj = (s.conn a).logicObj) :
    Books ((s.closeFd (s.conn a).fd).setConn a c) pend log := by
  have hself : ((s.closeFd (s.conn a).fd).setConn a c).conn a = c := CSocket.conn_setConn_self ..
  have hother : ∀ b, b ≠ a → ((s.closeFd (s.conn a).fd).setConn a c).conn b = s.conn b :=
    fun b hb => CSocket.conn_setConn_of_ne _ c hb
  have hepoll := hb.closeFd_epoll hget hfree hreg hfd
  have hne : ∀ e ∈ s.epoll, e.2 ≠ a := by
    rintro e he rfl
    exact hreg (List.mem_map.mpr ⟨e, he, rfl⟩)
  exact {
    free := by
      obtain ⟨xs, hx, hmem⟩ := hb.free
      have hax : a ∉ xs := fun h => by
        have := (hmem a hget).mp h
        omega
      exact ⟨xs, hx.set hax c, hmem⟩
    reg := fun e he => by
      have he' : e ∈ s.epoll := hepoll ▸ he
      rw [hother e.2 (hne e he')]
      exact hb.reg e he'
    unreg := fun b hg hn => hb.unreg b hg fun hr => hn (by
      show b ∈ List.map Prod.snd (s.closeFd (s.conn a).fd).epoll
      rw [hepoll]
      exact hr)
    unused := hb.unused
    booked := hb.booked
    deleted := hb.deleted
    obj := fun b hg hf => by
      by_cases hba : b = a
      · subst hba
        rw [hself, hobj]
        exact hb.obj b hg hf
      · rw [hother b hba]
        exact hb.obj b hg hf
    block := hb.block
    task := hb.task
    event := hb.event
    ping := hb.ping
    fd := fun b hg hf hn => by
      by_cases hba : b = a
      · subst hba
        rw [hself] at hn
        exact absurd hc hn
      · rw [hother b hba] at hn ⊢
        apply (List.mem_erase_of_ne _).mpr (hb.fd b hg hf hn)
        intro heq
        exact hba (hb.inj b a hg hget hf hfree hn heq)
    inj := fun b d hbg hdg hbf hdf hn heq => by
      have hba : b ≠ a := by
        rintro rfl
        rw [hself] at hn
        exact hn hc
      have hda : d ≠ a := by
        rintro rfl
        rw [hself] at heq
        exact hn (heq.trans hc)
      rw [hother b hba] at hn heq
      rw [hother d hda] at heq
      exact hb.inj b d hbg hdg hbf hdf hn heq }

theorem perform (hb : Books s pend log) (ha : a ∈ pend) (hfd : (s.conn a).fd = -1) :
    Books { s with pool := s.pool.ngxFreeConnection a } (pend.erase a)
      (log ++ [.free a, .delete a]) := by
  obtain ⟨hga, hrega, hrela, hfa, hpa⟩ := hb.of_mem_pend ha
  have hget : ∀ b, PoolEv.get b ∈ log ++ [.free a, .delete a] ↔ PoolEv.get b ∈ log := by simp
  have hrel : ∀ b, released b (log ++ [.free a, .delete a]) = released b log := fun b =>
    tally_append_of_notMem (by simp) (by simp)
  have hfree : ∀ b, freed b (log ++ [.free a, .delete a]) = freed b log + [a].count b := by
    intro b
    rw [freed, tally_append (by simp)]
    simp [List.count_cons]
  have hdel : ∀ b, ServerNginx.deleted b (log ++ [.free a, .delete a]) =
      ServerNginx.deleted b log + [a].count b := by
    intro b
    rw [ServerNginx.deleted, tally_append (by simp)]
    simp [List.count_cons]
  have hother : ∀ b, b ≠ a →
      CSocket.conn { s with pool := s.pool.ngxFreeConnection a } b = s.conn b :=
    fun b hba => Pool.ngxFreeConnection_mem hba
  have hold : ∀ b, freed b (log ++ [.free a, .delete a]) = 0 → b ≠ a ∧ freed b log = 0 := by
    intro b h0
    rw [hfree] at h0
    refine ⟨?_, by omega⟩
    rintro rfl
    rw [List.count_singleton_self] at h0
    omega
  exact {
    free := by
      obtain ⟨xs, hx, hmem⟩ := hb.free
      have hax : a ∉ xs := fun h => by
        have := (hmem a hga).mp h
        omega
      refine ⟨a :: xs, Pool.ngxFreeConnection_free hx hax (hb.block a hga), fun b hg => ?_⟩
      rw [hget] at hg
      rw [hfree, List.mem_cons]
      by_cases hba : b = a
      · subst hba
        rw [List.count_singleton_self, hfa]
        simp
      · rw [List.count_singleton, if_neg (by simpa using Ne.symm hba), Nat.add_zero, ← hmem b hg]
        exact or_iff_right hba
    reg := fun e he => by
      have hea : e.2 ≠ a := by
        rintro rfl
        exact hrega (List.mem_map.mpr ⟨e, he, rfl⟩)
      rw [hget, hrel, hother e.2 hea]
      exact hb.reg e he
    unreg := fun b hg hn => by
      rw [hget] at hg
      rw [hrel]
      exact hb.unreg b hg hn
    unused := fun b hg => by
      rw [hget] at hg
      rw [hrel, hb.unused b hg]
    booked := fun b => by
      rw [hrel, hfree, hb.booked, List.count_erase, List.count_singleton]
      by_cases hba : a = b
      · subst hba
        simp only [BEq.rfl, if_true]
        omega
      · simp [hba]
    deleted := fun b => by rw [hdel, hfree, hb.deleted]
    obj := fun b hg h0 => by
      obtain ⟨hba, hf⟩ := hold b h0
      rw [hother b hba]
      exact hb.obj b ((hget b).mp hg) hf
    block := fun b hg => hb.block b ((hget b).mp hg)
    task := by simpa only [hget] using hb.task
    event := by simpa only [hget] using hb.event
    ping := by simpa only [hget] using hb.ping
    fd := fun b hg h0 => by
      obtain ⟨hba, hf⟩ := hold b h0
      rw [hother b hba]
      exact hb.fd b ((hget b).mp hg) hf
    inj := fun b d hbg hdg hb0 hd0 => by
      obtain ⟨hba, hbf⟩ := hold b hb0
      obtain ⟨hda, hdf⟩ := hold d hd0
      rw [hother b hba, hother d hda]
      exact hb.inj b d ((hget b).mp hbg) ((hget d).mp hdg) hbf hdf }

theorem of_mem_free (hb : Books s pend log)
    (hfree : PoolEv.get a ∈ log → freed a log = 1) : ¬ s.Registered a ∧ pend.count a = 0 := by
  have hbook := hb.booked a
  constructor
  · intro hr
    have := hfree (hb.get_of_registered hr)
    have := hb.freed_of_registered hr
    omega
  · by_cases hg : PoolEv.get a ∈ log
    · have := hfree hg
      have := hb.released_le a
      omega
    · have := hb.unused a hg
      omega

/-- A slot in use has another descriptor than one that is not open. -/
theorem fd_ne_of_notMem (hb : Books s pend log) {fd : ℤ} (hnew : fd ∉ s.fds)
    (hget : PoolEv.get a ∈ log) (hfree : freed a log = 0) :
    (s.conn a).fd ≠ fd ∨ (s.conn a).fd = -1 := by
  by_contra hc
  rw [not_or, not_not] at hc
  exact hnew (hc.1 ▸ hb.fd a hget hfree hc.2)

theorem get (hb : Books s pend log) {cfg : Conf} {fd : ℤ} {pool : Pool}
    (hpool : s.pool.ngxGetConnection cfg fd = some (a, pool)) (hpos : 0 ≤ fd) (hnew : fd ∉ s.fds)
    (obj : ℕ) (s' : CSocket)
    (hs : s' = { s with
      pool := pool.set a { (pool.mem a).initRecv with logicObj := some obj }
      fds := fd :: s.fds
      epoll := (fd, a) :: s.epoll
      mOnlineUserCount := s'.mOnlineUserCount
      objs := s'.objs }) :
    Books s' pend (log ++ [.get a]) ∧ ¬ s.Registered a := by
  obtain ⟨xs, hx, hmem⟩ := hb.free
  obtain ⟨xs', ys, rfl, ht⟩ := Pool.ngxGetConnection_taken hx hpool
  obtain ⟨hreg, hcount⟩ := hb.of_mem_free fun hg => (hmem a hg).mp List.mem_cons_self
  have hget : ∀ b, PoolEv.get b ∈ log ++ [.get a] ↔ PoolEv.get b ∈ log ∨ b = a := by simp
  have hself : ∀ k : Addr → PoolEv, tally k a (log ++ [.get a]) = 0 := fun k =>
    tally_get List.not_mem_nil
  have hrel : ∀ b, b ≠ a → released b (log ++ [.get a]) = released b log := fun b hba =>
    tally_append_of_notMem (by simpa using hba) (by simp)
  have hfree : ∀ b, b ≠ a → freed b (log ++ [.get a]) = freed b log := fun b hba =>
    tally_append_of_notMem (by simpa using hba) (by simp)
  have hdel : ∀ b, b ≠ a → ServerNginx.deleted b (log ++ [.get a]) = ServerNginx.deleted b log :=
    fun b hba => tally_append_of_notMem (by simpa using hba) (by simp)
  have hca : s'.conn a = { (pool.mem a).initRecv with logicObj := some obj } := by
    rw [hs]
    simp [CSocket.conn, Pool.set]
  have hcb : ∀ b, b ≠ a → PoolEv.get b ∈ log → s'.conn b = s.conn b := fun b hba hg => by
    rw [hs]
    simp only [CSocket.conn, Pool.set, Function.update_of_ne hba]
    exact ht.frame b hba (hb.block b hg)
  have hfda : (s'.conn a).fd = fd := by
    rw [hca]
    simp only [Connection.initRecv, ht.conn]
  have hother : ∀ b, b ≠ a → PoolEv.get b ∈ log ++ [.get a] → PoolEv.get b ∈ log :=
    fun b hba hg => ((hget b).mp hg).resolve_right hba
  refine ⟨?_, hreg⟩
  exact {
    free := by
      refine ⟨ys, ?_, fun b hg => ?_⟩
      · rw [hs]
        exact ht.free.set ht.notMem _
      · by_cases hba : b = a
        · subst hba
          rw [freed, hself]
          exact iff_of_false ht.notMem (by omega)
        · have hg := hother b hba hg
          rw [hfree b hba, ht.mem_iff b (hb.block b hg), ← hmem b hg, List.mem_cons]
          exact (or_iff_right hba).symm
    reg := fun e he => by
      have he : e = (fd, a) ∨ e ∈ s.epoll := by
        rw [hs] at he
        exact List.mem_cons.mp he
      rcases he with rfl | he
      · exact ⟨by simp, hself _, hfda, by dsimp only; omega⟩
      · have hea : e.2 ≠ a := by
          rintro rfl
          exact hreg (List.mem_map.mpr ⟨e, he, rfl⟩)
        obtain ⟨hg, h0, hfd, h1⟩ := hb.reg e he
        rw [hget, hrel e.2 hea, hcb e.2 hea hg]
        exact ⟨Or.inl hg, h0, hfd, h1⟩
    unreg := fun b hg hn => by
      have hepoll : s'.epoll = (fd, a) :: s.epoll := by rw [hs]
      rw [CSocket.Registered, hepoll, List.map_cons, List.mem_cons, not_or] at hn
      rw [hrel b hn.1]
      exact hb.unreg b (hother b hn.1 hg) hn.2
    unused := fun b hg => by
      rw [hget, not_or] at hg
      rw [hrel b hg.2, hb.unused b hg.1]
    booked := fun b => by
      by_cases hba : b = a
      · subst hba
        rw [released, freed, hself, hself, hcount]
      · rw [hrel b hba, hfree b hba, hb.booked]
    deleted := fun b => by
      by_cases hba : b = a
      · subst hba
        rw [ServerNginx.deleted, freed, hself, hself]
      · rw [hdel b hba, hfree b hba, hb.deleted]
    obj := fun b hg h0 => by
      by_cases hba : b = a
      · subst hba
        rw [hca]
        rfl
      · have hg := hother b hba hg
        rw [hcb b hba hg]
        exact hb.obj b hg (by rwa [hfree b hba] at h0)
    block := fun b hg => by
      have hgrow : s.pool.mPconnections.length ≤ s'.pool.mPconnections.length := by
        rw [hs]
        exact ht.grows
      rcases (hget b).mp hg with hg | rfl
      · exact (hb.block b hg).trans_le hgrow
      · exact (hx.block b List.mem_cons_self).trans_le hgrow
    task := fun b hm => by
      rw [hs] at hm
      exact (hget b).mpr (Or.inl (hb.task b hm))
    event := fun b hm => by
      rw [hs] at hm
      exact (hget b).mpr (Or.inl (hb.event b hm))
    ping := fun e he => by
      rw [hs] at he
      exact (hget _).mpr (Or.inl (hb.ping e he))
    fd := fun b hg h0 hn => by
      have hfds : s'.fds = fd :: s.fds := by rw [hs]
      rw [hfds]
      by_cases hba : b = a
      · subst hba
        rw [hfda]
        exact List.mem_cons_self
      · have hg := hother b hba hg
        rw [hcb b hba hg] at hn ⊢
        exact List.mem_cons_of_mem _ (hb.fd b hg (by rwa [hfree b hba] at h0) hn)
    inj := fun b d hbg hdg hb0 hd0 hn heq => by
      -- the descriptor of a slot that is in use differs from the new one
      have hold : ∀ x, x ≠ a → PoolEv.get x ∈ log ++ [.get a] → freed x (log ++ [.get a]) = 0 →
          (s'.conn x).fd ≠ fd ∨ (s'.conn x).fd = -1 := fun x hxa hg h0 => by
        have hg := hother x hxa hg
        rw [hcb x hxa hg]
        exact hb.fd_ne_of_notMem hnew hg (by rwa [hfree x hxa] at h0)
      by_cases hba : b = a
      · by_cases hda : d = a
        · rw [hba, hda]
        · rw [hba, hfda] at heq
          rcases hold d hda hdg hd0 with h | h <;> omega
      · by_cases hda : d = a
        · rw [hda, hfda] at heq
          rcases hold b hba hbg hb0 with h | h <;> omega
        · have hbg := hother b hba hbg
          have hdg := hother d hda hdg
          rw [hcb b hba hbg] at hn heq
          rw [hcb d hda hdg] at heq
          exact hb.inj b d hbg hdg (by rwa [hfree b hba] at hb0) (by rwa [hfree d hda] at hd0) hn
            heq }

/-! ### The closing functions -/

theorem ngxCloseConnection (hb : Books s pend log) (ha : a ∈ pend) :
    Books (s.ngxCloseConnection a).1 (pend.erase a) (log ++ (s.ngxCloseConnection a).2) := by
  obtain ⟨hget, hreg, -, hfree, -⟩ := hb.of_mem_pend ha
  have hevs : (s.ngxCloseConnection a).2 = [.free a, .delete a] := by
    simp only [CSocket.ngxCloseConnection, hb.obj a hget hfree, if_true]
  rw [hevs]
  by_cases hfd : (s.conn a).fd = -1
  · have h := hb.touch (a := a) (c := { s.conn a with floodAttackCount := 0, fd := -1 }) hfd.symm
      rfl rfl
    have := h.perform ha (by rw [CSocket.conn_setConn_self])
    simpa only [CSocket.ngxCloseConnection, hfd, ne_eq, not_true_eq_false, if_false] using this
  · have h := hb.closeFd hget hfree hreg hfd
      (c := { s.conn a with floodAttackCount := 0, fd := -1 }) rfl rfl
    have := h.perform ha (by rw [CSocket.conn_setConn_self])
    simpa only [CSocket.ngxCloseConnection, ne_eq, hfd, not_false_eq_true, if_true] using this

end Books

end ServerNginx
