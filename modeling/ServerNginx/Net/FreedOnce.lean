import ServerNginx.Net.Blocks

set_option autoImplicit false

/-!
# Received messages are freed exactly once

* `Keeps`: what the process does to a connection object between reads: the receive state stays, and
  a descriptor is closed at most;
* `Blocks.custody`: the blocks as things in custody, shown by connection objects and taken over by
  `threadRecvProcFunc`;
* `Blocks.Inv`: every block is in one place, and a receiver that waits for a header shows none;
* **`freedOnce_iff`**: in runs that read apart, every block is freed exactly once if and only if no
  turn forgets one.
-/

namespace ServerNginx

/-! ## The receive state between reads -/

/-- The receive state is the same, and so is the descriptor, unless it has been closed. -/
def Keeps (c c' : Connection) : Prop := c'.curStat = c.curStat ∧ (c'.fd ≠ -1 → c'.fd = c.fd)

theorem Keeps.refl (c : Connection) : Keeps c c := ⟨rfl, fun _ => rfl⟩

theorem Keeps.trans {c c' c'' : Connection} (h : Keeps c c') (h' : Keeps c' c'') : Keeps c c'' :=
  ⟨h'.1.trans h.1, fun hfd => by
    have he := h'.2 hfd
    rw [he] at hfd ⊢
    exact h.2 hfd⟩

namespace Pool

variable {cfg : Conf} {p q : Pool} {a b : Addr} {isock : ℤ}

theorem keeps_set {c : Connection} (h : Keeps (p.mem a) c) :
    Keeps (p.mem b) ((p.set a c).mem b) := by
  by_cases hb : b = a
  · subst hb
    simp only [Pool.set, Function.update_self]
    exact h
  · simp only [Pool.set, Function.update_of_ne hb]
    exact .refl _

theorem keeps_linkLoop (block k : ℕ) : ∀ (i : ℕ) (mem : Addr → Connection) (a : Addr),
    Keeps (mem a) (linkLoop block i k mem a) := by
  induction k with
  | zero =>
    intro i mem a
    rw [linkLoop]
    by_cases ha : a = ⟨block, i⟩
    · subst ha
      rw [Function.update_self]
      exact .refl _
    · rw [Function.update_of_ne ha]
      exact .refl _
  | succ k ih =>
    intro i mem a
    rw [linkLoop]
    refine Keeps.trans ?_ (ih _ _ a)
    by_cases ha : a = ⟨block, i⟩
    · subst ha
      rw [Function.update_self]
      exact ⟨rfl, fun h => absurd rfl h⟩
    · rw [Function.update_of_ne ha]
      exact .refl _

variable (cfg) in
theorem keeps_moreConnectionPool (k : ℕ) (b : Addr) :
    Keeps (p.mem a) ((p.moreConnectionPool cfg k b).mem a) := by
  unfold moreConnectionPool
  dsimp only
  have hset : Keeps (p.mem a) ((p.set b { p.mem b with
      next := some ⟨p.mPconnections.length, 0⟩ }).mem a) := keeps_set ⟨rfl, fun _ => rfl⟩
  generalize (if p.mConnectionN + k ≤ cfg.mConnectionNMax then (k : ℤ)
    else cfg.mConnectionNMax - p.mConnectionN) = n
  split_ifs
  · exact .refl _
  · exact hset.trans (keeps_linkLoop _ _ _ _ a)

theorem keeps_ngxGetConnection (h : p.ngxGetConnection cfg isock = some (a, q)) (hb : b ≠ a) :
    Keeps (p.mem b) (q.mem b) := by
  obtain ⟨c, hc, he⟩ := Option.map_eq_some_iff.mp h
  dsimp only at he
  split_ifs at he
  · cases he
    simp only [Pool.set, Function.update_of_ne hb]
    exact keeps_moreConnectionPool cfg createConNum _
  · cases he
    simp only [Pool.set, Function.update_of_ne hb]
    exact .refl _

theorem keeps_ngxFreeConnection : Keeps (p.mem b) ((p.ngxFreeConnection a).mem b) :=
  keeps_set (p := p) ⟨rfl, fun _ => rfl⟩

end Pool

namespace CSocket

variable {cfg : Conf} {s t : CSocket} {os : List PoolEv} {a b : Addr} {c : Connection} {key : ℤ}

theorem keeps_setConn (h : Keeps (s.conn a) c) : Keeps (s.conn b) ((s.setConn a c).conn b) :=
  Pool.keeps_set h

theorem keeps_ngxCloseConnection : Keeps (s.conn b) ((s.ngxCloseConnection a).1.conn b) := by
  unfold ngxCloseConnection
  dsimp only
  refine Keeps.trans ?_ Pool.keeps_ngxFreeConnection
  split_ifs
  · exact keeps_setConn (s := s.closeFd _) ⟨rfl, fun h => absurd rfl h⟩
  · exact keeps_setConn ⟨rfl, fun h => absurd rfl h⟩

theorem conn_erasePing (h : s.erasePing key = some t) : t.conn b = s.conn b := by
  rw [eq_of_erasePing h]
  rfl

theorem keeps_ngxFreeConSelf (h : s.ngxFreeConSelf a = some (t, os)) :
    Keeps (s.conn b) (t.conn b) ∧ (t.conn a).fd = -1 := by
  obtain ⟨u, hu, he⟩ := Option.map_eq_some_iff.mp h
  cases he
  rw [conn_erasePing hu, conn_erasePing hu]
  by_cases hfd : (s.conn a).fd = -1
  · simp only [hfd, ne_eq, not_true_eq_false, if_false]
    exact ⟨.refl _, hfd⟩
  · simp only [ne_eq, hfd, not_false_eq_true, if_true]
    refine ⟨keeps_setConn (s := (s.ngxEpollDelEvent a).closeFd (s.conn a).fd)
      ⟨rfl, fun h => absurd rfl h⟩, ?_⟩
    have hself := conn_setConn_self (s := (s.ngxEpollDelEvent a).closeFd (s.conn a).fd)
      (a := a) (c := { s.conn a with fd := -1 })
    exact congrArg Connection.fd hself

theorem keeps_recvproc {ret : RecvRet} (h : s.recvproc a ret = some (t, os)) :
    Keeps (s.conn b) (t.conn b) := by
  cases ret with
  | data rd | again =>
    cases h
    exact .refl _
  | zero | reset =>
    obtain ⟨u, hu, he⟩ := Option.map_eq_some_iff.mp h
    cases he
    rw [conn_erasePing hu]
    exact .refl _
  | error =>
    cases h
    exact keeps_ngxCloseConnection (s := s.ngxEpollDelEvent a)

theorem keeps_ngxTimeCheckVisit {e : ℤ × StrucMsgHeader} {now : ℤ}
    (h : s.ngxTimeCheckVisit e now = some (t, os)) : Keeps (s.conn b) (t.conn b) := by
  unfold ngxTimeCheckVisit at h
  dsimp only at h
  split_ifs at h
  · cases h
    exact .refl _
  · exact (keeps_ngxFreeConSelf h).1
  · cases h
    exact keeps_setConn (s := s) ⟨rfl, fun _ => rfl⟩
  · cases h
    exact .refl _

/-- A step that reads no data and accepts nothing. -/
def Still : Step → Prop
  | .accept .. | .task .. | .read _ (.data _) => False
  | _ => True

/-- **The receive state stays** in a step that does not read. -/
theorem keeps_step {i : Step} (hi : Still i) (h : s.step cfg i = some (t, os)) :
    Keeps (s.conn b) (t.conn b) := by
  cases i with
  | accept | task => exact hi.elim
  | wait as | edge a | write a =>
    simp only [step] at h
    split_ifs at h
    cases h
    exact .refl _
  | read a ret =>
    simp only [step] at h
    split_ifs at h
    obtain ⟨r, hr, h⟩ := Option.bind_eq_some_iff.mp h
    cases ret with
    | data rd => exact hi.elim
    | zero | again | reset | error =>
      cases hr
      rw [afterRead] at h
      exact (keeps_setConn (s := s.takeEvent) (.refl _)).trans (keeps_recvproc h)
  | hup a =>
    simp only [step] at h
    split_ifs at h
    have hz : s.takeEvent.recvproc a .zero = some (t, os) := h
    exact keeps_recvproc (s := s.takeEvent) hz
  | ping m now =>
    simp only [step] at h
    split_ifs at h
    · cases h
      exact keeps_setConn ⟨rfl, fun _ => rfl⟩
    · cases h
      exact .refl _
  | visit e now =>
    simp only [step] at h
    split_ifs at h
    exact keeps_ngxTimeCheckVisit h
  | expire a =>
    simp only [step] at h
    split_ifs at h
    cases h
    exact .refl _
  | timerFree =>
    simp only [step, ngxTimerFreeConnection] at h
    cases hl : s.mRecyconnectionList with
    | nil =>
      rw [hl] at h
      cases h
    | cons con rest =>
      rw [hl] at h
      obtain rfl : t = (({ s with mRecyconnectionList := rest }).ngxCloseConnection con).1 := by
        cases h
        rfl
      exact keeps_ngxCloseConnection (s := { s with mRecyconnectionList := rest })

/-- **An accept** is refused, or takes an object and leaves the receive state of the others. -/
theorem accept_cases {fd now : ℤ} {added : Bool}
    (h : s.ngxEventAccept cfg fd now added = some (t, os)) :
    (s.Refuses cfg ∧ t = s ∧ os = []) ∨
      ∃ a os', ¬ s.Refuses cfg ∧ s.pool.mPfreeConnections = some a ∧ os = .get a :: os' ∧
        ∀ b ≠ a, Keeps (s.conn b) (t.conn b) := by
  obtain ⟨-, ⟨href, rfl, rfl⟩ | ⟨a, pool, hmax, hget, hcase⟩⟩ := ngxEventAccept_cases h
  · rw [get_eq_none] at href
    exact Or.inl ⟨href, rfl, rfl⟩
  · have hfree : s.pool.mPfreeConnections = some a := by
      obtain ⟨c, hc, he⟩ := Option.map_eq_some_iff.mp hget
      rw [hc]
      exact congrArg some (congrArg Prod.fst he)
    have hnot : ¬ s.Refuses cfg := by
      rintro (hm | hn)
      · exact hmax hm
      · rw [hfree] at hn
        cases hn
    have htake : ∀ b ≠ a, Keeps (s.conn b) ((s.takeConn fd a pool).conn b) := by
      intro b hb
      have hk := Pool.keeps_ngxGetConnection hget hb
      simp only [takeConn, conn, Pool.set, Function.update_of_ne hb]
      exact hk
    rcases hcase with ⟨-, rfl, rfl⟩ | ⟨-, rfl, rfl⟩
    · refine Or.inr ⟨a, [], hnot, hfree, rfl, fun b hb => ?_⟩
      rw [ngxAddCheck_conn_of_ne _ _ hb]
      exact htake b hb
    · exact Or.inr ⟨a, _, hnot, hfree, rfl, fun b hb => (htake b hb).trans keeps_ngxCloseConnection⟩

end CSocket

/-! ## What a read does -/

/-- The receiver waits for bytes of a packet header. -/
def Connection.AtHead (c : Connection) : Prop := c.curStat = .pkgHdInit ∨ c.curStat = .pkgHdRecving

theorem Keeps.atHead {c c' : Connection} (h : Keeps c c') (hc : c'.AtHead) : c.AtHead := by
  rwa [Connection.AtHead, h.1] at hc

theorem fill_curStat {c d : Connection} {data : List UInt8} (h : c.fill data = some d) :
    d.curStat = c.curStat := by
  unfold Connection.fill at h
  split at h
  · obtain ⟨b, -, rfl⟩ := Option.map_eq_some_iff.mp h
    rfl
  · split_ifs at h
    obtain ⟨b, -, rfl⟩ := Option.map_eq_some_iff.mp h
    rfl
  · cases h
  · cases h

section Received

variable {cfg : Conf} {self : Addr} {c : Connection} {rd : Read} {r : Received}

theorem procP1Received_more (now : UInt64)
    (hm : (procP1Received cfg self now c).next = .more)
    (hh : (procP1Received cfg self now c).conn.AtHead) :
    (procP1Received cfg self now c).allocated = false := by
  unfold procP1Received at *
  dsimp only at *
  split_ifs at *
  · rfl
  · rfl
  · rcases hh with hh | hh <;> cases hh

/-- **A read** allocates a block behind a header only; it waits for a header afterwards only if it
did so before and has allocated nothing. -/
theorem received_spec (h : received cfg self c rd = some r) :
    (r.allocated = true → c.AtHead) ∧
      (r.next = .more → r.conn.AtHead → c.AtHead ∧ r.allocated = false) := by
  obtain ⟨d, hd, rfl⟩ := Option.map_eq_some_iff.mp h
  have hstat := fill_curStat hd
  dsimp only
  cases hs : d.curStat with
  | pkgHdInit =>
    have hc : c.AtHead := Or.inl (hstat.symm.trans hs)
    dsimp only
    split_ifs
    · exact ⟨fun _ => hc, fun hm hh => ⟨hc, procP1Received_more _ hm hh⟩⟩
    · exact ⟨fun _ => hc, fun _ _ => ⟨hc, rfl⟩⟩
  | pkgHdRecving =>
    have hc : c.AtHead := Or.inr (hstat.symm.trans hs)
    dsimp only
    split_ifs
    · exact ⟨fun _ => hc, fun hm hh => ⟨hc, procP1Received_more _ hm hh⟩⟩
    · exact ⟨fun _ => hc, fun _ _ => ⟨hc, rfl⟩⟩
  | pkgBdInit =>
    dsimp only
    split_ifs
    · exact ⟨nofun, nofun⟩
    · exact ⟨nofun, nofun⟩
    · exact ⟨nofun, fun _ hh => by rcases hh with hh | hh <;> cases hh⟩
  | pkgBdRecving =>
    dsimp only
    split_ifs
    · exact ⟨nofun, nofun⟩
    · exact ⟨nofun, fun _ hh => by rcases hh with hh | hh <;> cases hh⟩

open CSocket in
/-- **A read of the LT handler** leaves the other objects, and its own as the receiver does. -/
theorem read_data {s t : CSocket} {os : List PoolEv} {a : Addr}
    (hr : received cfg a (s.conn a) rd = some r)
    (h : s.step cfg (.read a (.data rd)) = some (t, os)) :
    cfg.mETflag = .etClose ∧ (∀ b ≠ a, Keeps (s.conn b) (t.conn b)) ∧
      (r.next = .kick → (t.conn a).fd = -1) ∧ (r.next = .more → t.conn a = r.conn) := by
  simp only [CSocket.step] at h
  split_ifs at h with hreg
  refine ⟨hreg.1, ?_⟩
  rw [ngxReadRequestHandlerCall, ← received_finish, hr] at h
  have hset : ∀ c, ∀ b ≠ a, Keeps (s.conn b) ((s.setConn a c).conn b) := fun c b hb => by
    rw [conn_setConn_of_ne _ _ hb]
    exact .refl _
  cases hn : r.next with
  | more =>
    simp [Received.finish, hn, afterRead] at h
    obtain ⟨rfl, -⟩ := h
    exact ⟨hset _, by simp, fun _ => conn_setConn_self ..⟩
  | kick =>
    simp [Received.finish, hn, afterRead] at h
    exact ⟨fun b hb => (hset _ b hb).trans (keeps_ngxFreeConSelf h).1,
      fun _ => (@keeps_ngxFreeConSelf _ _ _ _ a h).2, by simp⟩
  | plast =>
    have hk : RecvEv.kick ∉ (ngxWaitRequestHandlerProcPlast r.conn).2 := by
      simp [ngxWaitRequestHandlerProcPlast]
    simp [Received.finish, hn, afterRead, hk] at h
    obtain ⟨rfl, -⟩ := h
    exact ⟨hset _, by simp, by simp⟩

end Received

/-! ## The blocks in custody -/

namespace Blocks

variable {cfg : Conf} {s t : Blocks} {a b : Addr} {p : Passed} {c : Connection}

/-- A message as a thing that `threadRecvProcFunc` has taken over. -/
def hold (p : Passed) : Option Addr × ℕ := (p.slot, p.id)

/-- Blocks are things in custody. -/
def custody (s : Blocks) : Custody Addr where
  made := s.allocated
  shown := s.block
  carried := s.passed.map hold
  back := s.freed
  stale := s.returned

theorem custody_ids : s.custody.ids = s.passed.map Passed.id := by
  rw [Custody.ids, custody, List.map_map]
  rfl

/-- Objects whose thread has ended in a handler are not among the slots of the custody. -/
theorem FreedOnce.settled (h : s.FreedOnce) : s.custody.Settled := by
  refine ⟨h.1, fun id hid hback => ?_⟩
  rw [custody_ids]
  exact (h.2 id hid hback).imp_right fun ⟨a, ha, hn⟩ =>
    ⟨a, ha, fun hr => hn (List.mem_append_left _ hr)⟩

theorem freedOnce_of_settled (h : s.custody.Settled) (he : s.ended = []) : s.FreedOnce := by
  refine ⟨h.1, fun id hid hback => ?_⟩
  have hplace := h.2 id hid hback
  rw [custody_ids] at hplace
  rw [he, List.append_nil]
  exact hplace

theorem mem_busy : a ∈ s.custody.busy ↔ some a ∈ s.passed.map Passed.slot ∨ a ∈ s.returned := by
  rw [Custody.mem_busy]
  refine or_congr_left ?_
  simp only [custody, List.mem_map, hold, Prod.mk.injEq]
  constructor
  · rintro ⟨id, p, hp, hs, -⟩
    exact ⟨p, hp, hs⟩
  · rintro ⟨p, hp, hs⟩
    exact ⟨p.id, p, hp, hs, rfl⟩

/-- **The invariant**: every block is in one place; no thread has ended in a handler; a receiver
that waits for a header, with nobody in `plast_ET`, shows no block. Object `x` is being read. -/
structure Inv (cfg : Conf) (s : Blocks) (x : Option Addr) : Prop where
  custody : s.custody.Kept
  alive : s.ended = []
  lt : cfg.mETflag = .etClose → s.custody.busy = []
  head : ∀ a, some a ≠ x → a ∉ s.custody.busy → (s.net.conn a).fd ≠ -1 → (s.net.conn a).AtHead →
    s.block a = none

theorem Inv.freedOnce {x : Option Addr} (h : s.Inv cfg x) : s.FreedOnce :=
  freedOnce_of_settled h.custody.settled h.alive

theorem Inv.of_keeps {x : Option Addr} (h : s.Inv cfg x) (hc : t.custody = s.custody)
    (he : t.ended = s.ended) (hk : ∀ a, Keeps (s.net.conn a) (t.net.conn a)) : t.Inv cfg x where
  custody := hc ▸ h.custody
  alive := he.trans h.alive
  lt := hc ▸ h.lt
  head a hx hb hfd hh := by
    have hblock : t.block a = s.block a := congrArg (fun c => c.shown a) hc
    rw [hblock]
    refine h.head a hx (hc ▸ hb) ?_ ((hk a).atHead hh)
    rw [← (hk a).2 hfd]
    exact hfd

theorem Inv.of_busy (h : s.Inv cfg none) (hk : t.custody.Kept)
    (hb : t.custody.busy.Perm s.custody.busy) (he : t.ended = s.ended) (hs : t.block = s.block)
    (hn : t.net = s.net) : t.Inv cfg none where
  custody := hk
  alive := he.trans h.alive
  lt hc := by
    have hnil := h.lt hc
    rw [hnil] at hb
    exact hb.eq_nil
  head a hx hm hfd hh := by
    rw [hs]
    rw [hn] at hfd hh
    exact h.head a hx (fun hm' => hm (hb.mem_iff.mpr hm')) hfd hh

/-! ## Taking and reading -/

theorem custody_alloc (x : Bool) :
    (s.alloc a x).custody = if x then s.custody.make a else s.custody := by
  cases x <;> rfl

theorem net_alloc (x : Bool) : (s.alloc a x).net = s.net := by
  cases x <;> rfl

/-- **A read** of a connection with nobody in `plast_ET` may allocate a block, and what it leaves at
a header shows none. -/
theorem Inv.received {rd : Read} {r : Received} (net : CSocket) (h : s.Inv cfg none)
    (ha : a ∉ s.custody.busy) (hfd : (s.net.conn a).fd ≠ -1)
    (hr : received cfg a (s.net.conn a) rd = some r)
    (hk : ∀ b ≠ a, Keeps (s.net.conn b) (net.conn b)) :
    let t := { s with net := net }.alloc a r.allocated
    t.Inv cfg (some a) ∧ t.custody.busy = s.custody.busy ∧
      (r.next = .more → r.conn.AtHead → t.block a = none) := by
  obtain ⟨halloc, hmore⟩ := received_spec hr
  intro t
  have hcust : t.custody = if r.allocated then s.custody.make a else s.custody :=
    custody_alloc (s := { s with net := net }) r.allocated
  have hbusy : t.custody.busy = s.custody.busy := by
    rw [hcust]
    split_ifs <;> rfl
  have hnone : (s.net.conn a).AtHead → s.block a = none := h.head a nofun ha hfd
  have hblock : ∀ b ≠ a, t.block b = s.block b := fun b hb => by
    simp only [t, alloc]
    split_ifs
    · exact Function.update_of_ne hb _ _
    · rfl
  have halive : t.ended = [] := by
    simp only [t, alloc]
    split_ifs <;> exact h.alive
  refine ⟨⟨?_, halive, fun hc => hbusy.trans (h.lt hc), fun b hx hb hfdb hh => ?_⟩, hbusy,
    fun hm hh => ?_⟩
  · rw [hcust]
    split_ifs with hal
    · exact h.custody.make (hnone (halloc hal)) ha
    · exact h.custody
  · have hba : b ≠ a := fun he => hx (he ▸ rfl)
    have hkb : Keeps (s.net.conn b) (t.net.conn b) := by
      rw [net_alloc]
      exact hk b hba
    rw [hblock b hba]
    refine h.head b nofun (hbusy ▸ hb) ?_ (hkb.atHead hh)
    rw [← hkb.2 hfdb]
    exact hfdb
  · obtain ⟨hc, hal⟩ := hmore hm hh
    simp only [t, alloc, hal, Bool.false_eq_true, if_false]
    exact hnone hc

/-- The object that was read waits for a header without a block, or its descriptor is closed. -/
theorem Inv.close (h : s.Inv cfg (some a))
    (ha : (s.net.conn a).fd ≠ -1 → (s.net.conn a).AtHead → s.block a = none) : s.Inv cfg none where
  custody := h.custody
  alive := h.alive
  lt := h.lt
  head b _ hb hfd hh := by
    by_cases hba : b = a
    · subst hba
      exact ha hfd hh
    · exact h.head b (fun he => hba (Option.some.inj he)) hb hfd hh

/-- **A complete packet** goes to `threadRecvProcFunc`. -/
theorem Inv.pass (h : s.Inv cfg (some a)) (ha : a ∉ s.custody.busy)
    (hp : s.pass cfg a c = some t) : t.Inv cfg none := by
  unfold Blocks.pass at hp
  cases hs : s.block a with
  | none => simp [hs] at hp
  | some id =>
    cases hm : c.precvMemPointer with
    | none => simp [hs, hm] at hp
    | some m =>
      cases het : cfg.mETflag with
      | etClose =>
        simp only [hs, hm, het, Option.some.injEq] at hp
        subst hp
        have hk : ((s.custody.clear a).carry none id).Kept := h.custody.hand hs ha
        refine ⟨hk, h.alive, h.lt, fun b _ hb hfd hh => ?_⟩
        by_cases hba : b = a
        · subst hba
          exact Function.update_self ..
        · exact (Function.update_of_ne hba _ _).trans
            (h.head b (fun he => hba (Option.some.inj he)) hb hfd hh)
      | etOpen =>
        simp only [hs, hm, het, Option.some.injEq] at hp
        subst hp
        have hk : (s.custody.carry (some a) id).Kept := h.custody.carry hs ha
        refine ⟨hk, h.alive, fun hc => absurd (het.symm.trans hc) nofun, fun b _ hb hfd hh => ?_⟩
        have hb' : b ∉ a :: s.custody.busy := hb
        rw [List.mem_cons, not_or] at hb'
        exact h.head b (fun he => hb'.1 (Option.some.inj he)) hb'.2 hfd hh

/-! ## Behind the receivers -/

theorem Inv.of_perm (h : s.Inv cfg none) (hp : t.passed.Perm s.passed)
    (hm : t.allocated = s.allocated) (hs : t.block = s.block) (hf : t.freed = s.freed)
    (hr : t.returned = s.returned) (he : t.ended = s.ended) (hn : t.net = s.net) :
    t.Inv cfg none := by
  have hc : t.custody = { s.custody with carried := t.passed.map hold } := by
    simp only [Blocks.custody, hm, hs, hf, hr]
  have hl : (t.passed.map hold).Perm s.custody.carried := hp.map _
  refine h.of_busy (hc ▸ h.custody.perm hl) ?_ he hs hn
  rw [hc]
  exact (hl.filterMap _).append_right _

theorem erase_middle {l m : List Passed} (hp : p ∈ l) : (l.erase p ++ p :: m).Perm (l ++ m) :=
  List.perm_middle.trans ((List.perm_cons_erase hp).symm.append_right m)

theorem carried_erase {l : List Passed} (hp : p ∈ s.passed) (hl : (p :: l).Perm s.passed) :
    (l.map hold).Perm (s.custody.carried.erase (hold p)) := by
  have hmem : hold p ∈ s.custody.carried := List.mem_map_of_mem hp
  exact ((hl.map hold).trans (List.perm_cons_erase hmem)).cons_inv

theorem pending_erase (hp : p ∈ s.pending) :
    (p :: (s.pending.erase p ++ s.handling ++ s.sent)).Perm s.passed :=
  ((List.perm_cons_erase hp).symm.append_right s.handling).append_right s.sent

theorem handling_erase (hp : p ∈ s.handling) :
    (p :: (s.pending ++ s.handling.erase p ++ s.sent)).Perm s.passed := by
  have hmid : (p :: (s.pending ++ s.handling.erase p)).Perm (s.pending ++ s.handling) :=
    List.perm_middle.symm.trans ((List.perm_cons_erase hp).symm.append_left _)
  exact hmid.append_right s.sent

theorem sent_erase (hp : p ∈ s.sent) :
    (p :: (s.pending ++ s.handling ++ s.sent.erase p)).Perm s.passed :=
  List.perm_middle.symm.trans ((List.perm_cons_erase hp).symm.append_left _)

theorem mem_passed_of_pending (hp : p ∈ s.pending) : p ∈ s.passed :=
  List.mem_append_left _ (List.mem_append_left _ hp)

theorem mem_passed_of_handling (hp : p ∈ s.handling) : p ∈ s.passed :=
  List.mem_append_left _ (List.mem_append_right _ hp)

theorem Inv.dispatch (h : s.Inv cfg none) (hp : p ∈ s.pending)
    (hr : ¬ p.msg.Rejected (s.net.conn p.msg.header.pConn).iCurrsequence) :
    (s.dispatch p).Inv cfg none := by
  rw [Blocks.dispatch, if_neg hr]
  exact h.of_perm ((erase_middle hp).append_right s.sent) rfl rfl rfl rfl rfl rfl

/-- **A rejected message is forgotten.** -/
theorem not_freedOnce_dispatch (h : s.Inv cfg none) (hp : p ∈ s.pending)
    (hr : p.msg.Rejected (s.net.conn p.msg.header.pConn).iCurrsequence) :
    ¬ (s.dispatch p).FreedOnce := by
  have hmem := mem_passed_of_pending hp
  rw [Blocks.dispatch, if_pos hr]
  have hperm := carried_erase (s := s) hmem (pending_erase hp)
  intro hone
  refine Custody.not_settled_drop h.custody (List.mem_map_of_mem (f := hold) hmem) ?_
  exact (Custody.settled_perm (c := s.custody.drop (hold p)) hperm).mp hone.settled

/-- **A message whose handler throws is forgotten.** -/
theorem not_freedOnce_unwind (h : s.Inv cfg none) (hp : p ∈ s.handling) :
    ¬ (s.unwind p).FreedOnce := by
  have hmem := mem_passed_of_handling hp
  have hperm := carried_erase (s := s) hmem (handling_erase hp)
  intro hone
  refine Custody.not_settled_drop h.custody (List.mem_map_of_mem (f := hold) hmem) ?_
  refine (Custody.settled_perm (c := s.custody.drop (hold p)) hperm).mp
    ⟨hone.1, fun id hid hb => ?_⟩
  refine (hone.2 id hid hb).imp (fun hids => ?_) fun ⟨a, ha, hn⟩ => ⟨a, ha, fun hm => hn ?_⟩
  · rw [← custody_ids] at hids
    exact hids
  · -- the objects whose thread has ended count as dealt with
    rcases List.mem_append.mp hm with hm | hm
    · exact List.mem_append_right _ (List.mem_append_left _ hm)
    · exact List.mem_append_left _ hm

theorem Inv.sendMsg (h : s.Inv cfg none) (hp : p ∈ s.handling) (locked : Bool) :
    (s.sendMsg p locked).Inv cfg none := by
  refine h.of_perm ?_ rfl rfl rfl rfl rfl rfl
  have hmid := (erase_middle (m := s.sent) hp).append_left s.pending
  rwa [← List.append_assoc, ← List.append_assoc] at hmid

/-- **`FreeMemory`** gives the block back. -/
theorem Inv.freeMemory (h : s.Inv cfg none) (hp : p ∈ s.sent) :
    (s.freeMemory p).Inv cfg none := by
  have hmem : p ∈ s.passed := List.mem_append_right _ hp
  have hc : hold p ∈ s.custody.carried := List.mem_map_of_mem hmem
  have hperm := carried_erase (s := s) hmem (sent_erase hp)
  have hk : (s.freeMemory p).custody.Kept := (h.custody.giveBack hc).perm hperm
  refine h.of_busy hk (((hperm.filterMap _).append_right _).trans ?_) rfl rfl rfl
  exact Custody.busy_giveBack hc

theorem Inv.resetET (h : s.Inv cfg none) (ha : a ∈ s.returned) : (s.resetET a).Inv cfg none where
  custody := h.custody.reset ha
  alive := h.alive
  lt hc := by
    have hbusy : a ∈ s.custody.busy := mem_busy.mpr (Or.inr ha)
    rw [h.lt hc] at hbusy
    cases hbusy
  head b _ hb hfd hh := by
    by_cases hba : b = a
    · subst hba
      exact Function.update_self ..
    · have hconn : (s.resetET a).net.conn b = s.net.conn b := CSocket.conn_setConn_of_ne _ _ hba
      rw [hconn] at hfd hh
      refine (Function.update_of_ne hba _ _).trans (h.head b nofun (fun hm => hb ?_) hfd hh)
      rw [mem_busy] at hm ⊢
      exact hm.imp_right (List.mem_erase_of_ne hba).mpr

/-! ## The turns -/

theorem alone_iff :
    s.Alone a ↔ ∃ id, s.block a = some id ∧ id ∉ s.custody.back ++ s.custody.ids := by
  rw [Alone, Option.any_eq_true]
  refine exists_congr fun id => and_congr_right fun _ => ?_
  rw [decide_eq_true_eq, List.mem_append, not_or, custody_ids]
  rfl

theorem Inv.accept {fd now : ℤ} {added : Bool} {q : CSocket × List PoolEv} (h : s.Inv cfg none)
    (hf : s.Frees cfg (.net (.accept fd now added)))
    (hq : s.net.ngxEventAccept cfg fd now added = some q) :
    ({ s with net := q.1 }.renew q.2).Inv cfg none := by
  obtain ⟨net, os⟩ := q
  rcases CSocket.accept_cases hq with ⟨-, rfl, rfl⟩ | ⟨a, os', href, hfree, rfl, hk⟩
  · exact h
  · have halone : ¬ s.Alone a := by
      simpa [Frees, taken, href, hfree] using hf
    have hclear : ∀ id, s.custody.shown a = some id → id ∈ s.custody.back ++ s.custody.ids :=
      fun id hid => by_contra fun hn => halone (alone_iff.mpr ⟨id, hid, hn⟩)
    have halive : s.ended.filter (· ≠ a) = [] := by rw [h.alive, List.filter_nil]
    refine ⟨h.custody.clear hclear, halive, h.lt, fun b hx hb hfd hh => ?_⟩
    by_cases hba : b = a
    · subst hba
      exact Function.update_self ..
    · refine (Function.update_of_ne hba _ _).trans (h.head b hx hb ?_ ((hk b hba).atHead hh))
      rw [← (hk b hba).2 hfd]
      exact hfd

/-- **An accept that clears the last pointer to a block.** -/
theorem not_freedOnce_accept {fd now : ℤ} {added : Bool} {q : CSocket × List PoolEv}
    (h : s.Inv cfg none) (hf : ¬ s.Frees cfg (.net (.accept fd now added)))
    (hq : s.net.ngxEventAccept cfg fd now added = some q) :
    ¬ ({ s with net := q.1 }.renew q.2).FreedOnce := by
  obtain ⟨net, os⟩ := q
  rcases CSocket.accept_cases hq with ⟨href, -, -⟩ | ⟨a, os', href, hfree, rfl, -⟩
  · exact absurd (by simp [Frees, taken, href]) hf
  · have halone : s.Alone a := by
      simpa [Frees, taken, href, hfree] using hf
    obtain ⟨id, hid, hn⟩ := alone_iff.mp halone
    exact fun hone => Custody.not_settled_clear h.custody hid hn hone.settled

theorem Inv.readLT {rd : Read} (h : s.Inv cfg none) (ht : s.readLT cfg a rd = some t) :
    t.Inv cfg none := by
  unfold Blocks.readLT at ht
  split_ifs at ht with hfd
  obtain ⟨r, hr, ht⟩ := Option.bind_eq_some_iff.mp ht
  obtain ⟨⟨net, os⟩, hq, ht⟩ := Option.bind_eq_some_iff.mp ht
  obtain ⟨hlt, hk, hkick, hmore⟩ := read_data hr hq
  have ha : a ∉ s.custody.busy := by simp [h.lt hlt]
  obtain ⟨hi, hb, hnone⟩ := h.received net ha hfd hr hk
  dsimp only at ht
  cases hn : r.next with
  | more =>
    simp only [hn, Option.some.injEq] at ht
    subst ht
    refine hi.close fun _ hh => hnone hn ?_
    rwa [net_alloc, hmore hn] at hh
  | kick =>
    simp only [hn, Option.some.injEq] at ht
    subst ht
    refine hi.close fun hopen _ => absurd ?_ hopen
    rw [net_alloc]
    exact hkick hn
  | plast =>
    simp only [hn] at ht
    exact hi.pass (hb ▸ ha) ht

theorem Inv.recvET {ret : RecvRet} (h : s.Inv cfg none) (ha : s.ReadsApart (.recv a ret))
    (ht : s.recvET cfg a ret = some t) : t.Inv cfg none := by
  cases ret with
  | data rd =>
    have hbusy : a ∉ s.custody.busy := by
      rw [mem_busy, not_or]
      exact ha
    simp only [Blocks.recvET] at ht
    split_ifs at ht with hbad
    rw [not_or] at hbad
    obtain ⟨r, hr, ht⟩ := Option.bind_eq_some_iff.mp ht
    have hk : ∀ b ≠ a, Keeps (s.net.conn b) ((s.net.setConn a r.conn).conn b) := fun b hb => by
      rw [CSocket.conn_setConn_of_ne _ _ hb]
      exact .refl _
    obtain ⟨hi, hb, hnone⟩ := h.received (s.net.setConn a r.conn) hbusy hbad.1 hr hk
    cases hn : r.next with
    | more =>
      simp only [hn, Option.some.injEq] at ht
      subst ht
      refine hi.close fun _ hh => hnone hn ?_
      rwa [net_alloc, CSocket.conn_setConn_self] at hh
    | kick =>
      simp only [hn] at ht
      obtain ⟨⟨net, os⟩, hq, rfl⟩ := Option.map_eq_some_iff.mp ht
      have hi' := hi.of_keeps (t := { ({ s with net := s.net.setConn a r.conn }.alloc a r.allocated)
        with net := net }.leave a) rfl rfl fun b => (CSocket.keeps_ngxFreeConSelf hq).1
      exact hi'.close fun hopen _ => absurd (@CSocket.keeps_ngxFreeConSelf _ _ _ a a hq).2 hopen
    | plast =>
      simp only [hn] at ht
      exact hi.pass (hb ▸ hbusy) ht
  | zero | again | reset | error =>
    simp only [Blocks.recvET] at ht
    obtain ⟨⟨net, os⟩, hq, rfl⟩ := Option.map_eq_some_iff.mp ht
    exact h.of_keeps rfl rfl fun b => CSocket.keeps_recvproc hq

theorem Inv.netStep {i : CSocket.Step} (h : s.Inv cfg none) (hf : s.Frees cfg (.net i))
    (ht : s.netStep cfg i = some t) : t.Inv cfg none := by
  have hstill : ∀ {j}, CSocket.Still j →
      (s.net.step cfg j).map (fun q => { s with net := q.1 }) = some t → t.Inv cfg none := by
    intro j hj ht
    obtain ⟨⟨net, os⟩, hq, rfl⟩ := Option.map_eq_some_iff.mp ht
    exact h.of_keeps rfl rfl fun b => CSocket.keeps_step hj hq
  cases i with
  | accept fd now added =>
    obtain ⟨q, hq, rfl⟩ := Option.map_eq_some_iff.mp ht
    exact h.accept hf hq
  | read a ret =>
    cases ret with
    | data rd => exact h.readLT ht
    | zero | again | reset | error => exact hstill (by trivial) ht
  | task => cases ht
  | wait | edge | hup | write | ping | visit | expire | timerFree => exact hstill (by trivial) ht

/-- **A turn** that forgets no block keeps every block in one place. -/
theorem inv_step {i : Turn} {os : List Unit} (h : s.Inv cfg none) (ha : s.ReadsApart i)
    (hf : s.Frees cfg i) (hs : s.step cfg i = some (t, os)) : t.Inv cfg none := by
  cases i with
  | net i =>
    obtain ⟨u, hu, he⟩ := Option.map_eq_some_iff.mp hs
    cases he
    exact h.netStep hf hu
  | lock a =>
    simp only [step] at hs
    split_ifs at hs
    cases hs
    exact h.of_keeps rfl rfl fun b => .refl _
  | recv a ret =>
    simp only [step] at hs
    split_ifs at hs
    obtain ⟨u, hu, he⟩ := Option.map_eq_some_iff.mp hs
    cases he
    exact h.recvET ha hu
  | dispatch p =>
    simp only [step] at hs
    split_ifs at hs with hp
    cases hs
    exact h.dispatch hp.1 hf
  | sent p locked =>
    simp only [step] at hs
    split_ifs at hs with hp
    cases hs
    exact h.sendMsg hp.1 locked
  | thrown p => exact hf.elim
  | free p =>
    simp only [step] at hs
    split_ifs at hs with hp
    cases hs
    exact h.freeMemory hp
  | reset a =>
    simp only [step] at hs
    split_ifs at hs with hm
    cases hs
    exact h.resetET hm
  | sendRemainMsg a =>
    simp only [step] at hs
    split_ifs at hs
    cases hs
    exact h.of_keeps rfl rfl fun b => .refl _

/-- **A turn that forgets a block.** -/
theorem not_freedOnce_step {i : Turn} {os : List Unit} (h : s.Inv cfg none) (hf : ¬ s.Frees cfg i)
    (hs : s.step cfg i = some (t, os)) : ¬ t.FreedOnce := by
  cases i with
  | net i =>
    cases i with
    | accept fd now added =>
      obtain ⟨u, hu, he⟩ := Option.map_eq_some_iff.mp hs
      cases he
      obtain ⟨q, hq, rfl⟩ := Option.map_eq_some_iff.mp hu
      exact not_freedOnce_accept h hf hq
    | _ => exact absurd trivial hf
  | dispatch p =>
    simp only [step] at hs
    split_ifs at hs with hp
    cases hs
    exact not_freedOnce_dispatch h hp.1 (not_not.mp hf)
  | thrown p =>
    simp only [step] at hs
    split_ifs at hs with hp
    cases hs
    exact not_freedOnce_unwind h hp.1
  | lock | recv | sent | free | reset | sendRemainMsg => exact absurd trivial hf

theorem inv_run {is : List Turn} (h : s.Inv cfg none)
    (hg : Run.Guarded (step cfg) (fun s i => s.ReadsApart i ∧ s.Frees cfg i) s is) :
    Run.Always (step cfg) (fun s => s.Inv cfg none) s is :=
  Run.always_of_guarded (fun _ _ _ _ hi hg hs => inv_step hi hg.1 hg.2 hs) h hg

theorem inv_start (net : CSocket) : (start net).Inv cfg none where
  custody := Custody.kept_start
  alive := rfl
  lt _ := rfl
  head _ _ _ _ _ := rfl

instance decidableFrees : ∀ i, Decidable (s.Frees cfg i)
  | .net (.accept ..) => inferInstanceAs (Decidable (_ = true))
  | .dispatch p => inferInstanceAs
      (Decidable (¬ p.msg.Rejected (s.net.conn p.msg.header.pConn).iCurrsequence))
  | .thrown _ => isFalse id
  | .net (.wait _) | .net (.edge _) | .net (.task ..) | .net (.read ..) | .net (.hup _)
  | .net (.write _) | .net (.ping ..) | .net (.visit ..) | .net (.expire _) | .net .timerFree
  | .lock _ | .recv .. | .sent .. | .free _ | .reset _ | .sendRemainMsg _ => isTrue trivial

instance decidableReadsApart : ∀ i, Decidable (s.ReadsApart i)
  | .recv a (.data _) => inferInstanceAs
      (Decidable (some a ∉ s.passed.map Passed.slot ∧ a ∉ s.returned))
  | .recv _ .zero | .recv _ .again | .recv _ .reset | .recv _ .error | .net _ | .lock _
  | .dispatch _ | .sent .. | .thrown _ | .free _ | .reset _ | .sendRemainMsg _ => isTrue trivial

end Blocks

open Blocks in
/-- **Every received message is freed exactly once** in every state of a run of the process in which
`recvproc_ET` reads no data between the call and the reset of `plast_ET` for its connection, if and
only if every message passed to `threadRecvProcFunc` gets a handler, no handler throws and no
connection object is taken while it alone has a block. -/
theorem freedOnce_iff (cfg : Conf) (net : CSocket) (is : List Turn)
    (hv : Run.Guarded (step cfg) (fun s i => Run.Defined (step cfg) s i ∧ s.ReadsApart i)
      (start net) is) :
    Run.Always (step cfg) FreedOnce (start net) is ↔
      Run.Guarded (step cfg) (Frees cfg) (start net) is := by
  have h₀ : (start net).Inv cfg none := inv_start net
  refine Run.always_iff_guarded (I := fun s => s.Inv cfg none) ?_ h₀ h₀.freedOnce hv
  rintro s i hi - hd
  obtain ⟨⟨t, os⟩, ht⟩ := Option.isSome_iff_exists.mp hd.1
  refine ⟨t, os, ht, ?_, fun hone => ?_⟩
  · constructor
    · intro hone
      by_contra hf
      exact not_freedOnce_step hi hf ht hone
    · intro hf
      exact (inv_step hi hd.2 hf ht).freedOnce
  · by_cases hf : s.Frees cfg i
    · exact inv_step hi hd.2 hf ht
    · exact absurd hone (not_freedOnce_step hi hf ht)

open Blocks in
/-- A ping in two pieces in ET mode. -/
theorem freedOnce_ping : ∃ net, CSocket.ngxEpollInit ⟨4, .etOpen, 0, 100, 10⟩ (fun _ => .zero) [3] =
      some net ∧
    let p : Passed := ⟨some ⟨0, 1⟩, 0, ⟨⟨⟨0, 1⟩, 1⟩, [8, 0, 0, 0, 0, 0, 0, 0].map some⟩⟩
    Run.Always (step ⟨4, .etOpen, 0, 100, 10⟩) FreedOnce (start net) [.net (.accept 5 0 true),
      .net (.wait [⟨0, 1⟩]), .net (.edge ⟨0, 1⟩), .lock ⟨0, 1⟩,
      .recv ⟨0, 1⟩ (.data ⟨1000, [8, 0, 0]⟩), .recv ⟨0, 1⟩ (.data ⟨1000, [0, 0, 0, 0, 0]⟩),
      .dispatch p, .sent p false, .free p, .reset ⟨0, 1⟩] := by
  let cfg : Conf := ⟨4, .etOpen, 0, 100, 10⟩
  let net := (CSocket.ngxEpollInit cfg (fun _ => .zero) [3]).get (by decide +kernel)
  refine ⟨net, (Option.some_get _).symm, ?_⟩
  exact (freedOnce_iff cfg net _ (by decide +kernel)).mpr (by decide +kernel)

open Blocks in
/-- **A header alone that is no ping** is never freed, in LT mode here. -/
theorem not_freedOnce : ¬ ∀ (cfg : Conf) (heap : Addr → Connection) (listen : List ℤ)
    (net : CSocket) (is : List Turn), CSocket.ngxEpollInit cfg heap listen = some net →
    Run.Guarded (step cfg) (Run.Defined (step cfg)) (start net) is →
    Run.Always (step cfg) FreedOnce (start net) is := by
  intro h
  let cfg : Conf := ⟨4, .etClose, 0, 100, 10⟩
  let net := (CSocket.ngxEpollInit cfg (fun _ => .zero) [3]).get (by decide +kernel)
  let p : Passed := ⟨none, 0, ⟨⟨⟨0, 1⟩, 1⟩, [8, 0, 1, 0, 0, 0, 0, 0].map some⟩⟩
  let is : List Turn := [.net (.accept 5 0 true), .net (.wait [⟨0, 1⟩]),
    .net (.read ⟨0, 1⟩ (.data ⟨1000, [8, 0, 1, 0, 0, 0, 0, 0]⟩))]
  have ha := h cfg (fun _ => .zero) [3] net (is ++ [.dispatch p]) (Option.some_get _).symm
    (by decide +kernel)
  obtain ⟨⟨s, os⟩, hr, hp⟩ := Run.exists_of_any (x := Run.run (step cfg) (start net) is)
    (f := fun q => decide (p ∈ q.1.pending ∧ p.id ∉ q.1.freed ∧
      p.msg.Rejected (q.1.net.conn p.msg.header.pConn).iCurrsequence)) (by decide +kernel)
  obtain ⟨hm, hn, hrej⟩ := of_decide_eq_true hp
  have hi : s.Inv cfg none := (inv_run (inv_start net) (by decide +kernel)).last hr
  have hd : Run.run (step cfg) s [.dispatch p] = some (s.dispatch p, []) := by
    simp [Run.run, step, hm, hn]
  have hrun : Run.run (step cfg) (start net) (is ++ [.dispatch p]) =
      some (s.dispatch p, os ++ []) := Run.run_append_eq_some.mpr ⟨s, os, [], hr, hd, rfl⟩
  exact not_freedOnce_dispatch hi hm hrej (ha.last hrun)

open Blocks in
/-- A block that is freed twice: between the call and the reset, a second thread reads into it. -/
example :
    let cfg : Conf := ⟨4, .etOpen, 0, 100, 10⟩
    let p : UInt8 → Passed := fun b =>
      ⟨some ⟨0, 1⟩, 0, ⟨⟨⟨0, 1⟩, 1⟩, [9, 0, 1, 0, 0, 0, 0, 0, b].map some⟩⟩
    ((CSocket.ngxEpollInit cfg (fun _ => .zero) [3]).bind fun net =>
      (Run.run (step cfg) (start net) [.net (.accept 5 0 true),
        .net (.wait [⟨0, 1⟩]), .net (.edge ⟨0, 1⟩), .net (.wait [⟨0, 1⟩]), .net (.edge ⟨0, 1⟩),
        .lock ⟨0, 1⟩, .recv ⟨0, 1⟩ (.data ⟨1000, [9, 0, 1, 0, 0, 0, 0, 0]⟩),
        .recv ⟨0, 1⟩ (.data ⟨1000, [1]⟩), .dispatch (p 1), .sent (p 1) false, .lock ⟨0, 1⟩,
        .recv ⟨0, 1⟩ (.data ⟨1000, [2]⟩), .dispatch (p 2), .sent (p 2) false, .free (p 2),
        .free (p 1)]).map fun q => q.1.freed) = some [0, 0] := by decide +kernel

end ServerNginx
