import ServerNginx.Net.Slots

set_option autoImplicit false

/-!
# Sequence numbers tell stale messages

A message header is stamped with the sequence number of its connection; the later test compares it
with the number the slot has then. `ngx_get_connection` and `ngx_free_connection` each add one to
the number of the slot they are about and wipe or relink others without touching theirs.

* `op_seq`: one call adds one to the number of a slot, or nothing; returning the slot adds one;
* `HandedOut.op`: a slot that is out stays so until it is returned, and its number stays;
* **`current_iff`**: within fewer than `2 ^ 64` calls, the test succeeds exactly where the slot has
  not been returned since;
* `handedOut_of_run`: the slots that are out in a run from `ngx_epoll_init` are handed out.
-/

namespace ServerNginx

namespace Pool

variable (cfg : Conf) (p : Pool)

/-- The pool after a call. -/
def op : PoolOp → Pool
  | .get isock => ((p.ngxGetConnection cfg isock).map Prod.snd).getD p
  | .free c => p.ngxFreeConnection c

/-- The pool after some calls. -/
def ops (is : List PoolOp) : Pool := is.foldl (op cfg) p

/-- What the free list leads to. -/
inductive OnFreeList : Addr → Prop
  | head {a : Addr} (h : p.mPfreeConnections = some a) : OnFreeList a
  | next {a b : Addr} (h : OnFreeList a) (hn : p.next a = some b) : OnFreeList b

/-- A slot of the pool that the free list does not lead to. -/
def HandedOut (c : Addr) : Prop := c.block < p.mPconnections.length ∧ ¬ p.OnFreeList c

/-- The header of a message from connection `c`. -/
def stamp (c : Addr) : StrucMsgHeader := ⟨c, (p.mem c).iCurrsequence⟩

/-- `pMsgHeader->iCurrsequence == pMsgHeader->pConn->iCurrsequence`. -/
def Current (h : StrucMsgHeader) : Prop := h.iCurrsequence = (p.mem h.pConn).iCurrsequence

end Pool

open Pool Lease

variable {cfg : Conf} {p q : Pool} {a b c : Addr} {i : PoolOp}

theorem mem_of_onFreeList {xs : List Addr} (h : Links p.next p.mPfreeConnections xs)
    (ha : p.OnFreeList a) : a ∈ xs := by
  induction ha with
  | head hp =>
    rw [hp] at h
    obtain ⟨ys, rfl, -⟩ := h.tail
    exact List.mem_cons_self
  | next _ hn ih => exact h.mem_of_next ih hn

/-! ## Growing -/

/-- Element `i` to `i + k` of a block. -/
def InSpan (block i k : ℕ) (a : Addr) : Prop := a.block = block ∧ i ≤ a.idx ∧ a.idx ≤ i + k

theorem linkLoop_cases (block k : ℕ) : ∀ (i : ℕ) (mem : Addr → Connection) (a : Addr),
    (InSpan block i k a ∧
      ∀ b, (linkLoop block i k mem a).next = some b → InSpan block i k b) ∨
    (¬ InSpan block i k a ∧ linkLoop block i k mem a = mem a) := by
  induction k with
  | zero =>
    intro i mem a
    by_cases ha : a = ⟨block, i⟩
    · subst ha
      refine Or.inl ⟨⟨rfl, le_rfl, le_rfl⟩, fun b hb => ?_⟩
      rw [linkLoop, Function.update_self] at hb
      cases hb
    · refine Or.inr ⟨fun h => ha ?_, by rw [linkLoop, Function.update_of_ne ha]⟩
      obtain ⟨h₁, h₂, h₃⟩ := h
      obtain ⟨_, _⟩ := a
      simp only [Addr.mk.injEq] at *
      omega
  | succ k ih =>
    intro i mem a
    rw [linkLoop]
    rcases ih (i + 1) (Function.update mem ⟨block, i⟩
        { mem ⟨block, i⟩ with next := some ⟨block, i + 1⟩, fd := -1, iCurrsequence := 0 }) a with
      ⟨hin, hnext⟩ | ⟨hout, hsame⟩
    · refine Or.inl ⟨⟨hin.1, by have := hin.2.1; omega, by have := hin.2.2; omega⟩, fun b hb => ?_⟩
      obtain ⟨h₁, h₂, h₃⟩ := hnext b hb
      exact ⟨h₁, by omega, by omega⟩
    · rw [hsame]
      by_cases ha : a = ⟨block, i⟩
      · subst ha
        refine Or.inl ⟨⟨rfl, le_rfl, Nat.le_add_right i _⟩, fun b hb => ?_⟩
        rw [Function.update_self] at hb
        cases hb
        exact ⟨rfl, Nat.le_succ i, by dsimp only; omega⟩
      · refine Or.inr ⟨fun h => ?_, Function.update_of_ne ha _ _⟩
        obtain ⟨h₁, h₂, h₃⟩ := h
        have hidx : a.idx ≠ i := fun h => ha (by obtain ⟨_, _⟩ := a; simp only at h₁ h; rw [h₁, h])
        exact hout ⟨h₁, by omega, by omega⟩

variable (cfg) in
/-- What growing does to the objects: those of older blocks keep their numbers, and the links from
the last free object on stay in the new block. -/
theorem moreConnectionPool_frame (k : ℕ) (h : Addr) (hn : p.next h = none) :
    let q := p.moreConnectionPool cfg k h
    p.mPconnections.length ≤ q.mPconnections.length ∧
      (∀ a, a.block < p.mPconnections.length →
        (q.mem a).iCurrsequence = (p.mem a).iCurrsequence) ∧
      ∃ S : Addr → Prop, (∀ a, S a → p.mPconnections.length ≤ a.block) ∧
        (∀ a, q.next h = some a → S a) ∧ ∀ a b, S a → a ≠ h → q.next a = some b → S b := by
  intro q
  by_cases hk : (if p.mConnectionN + k ≤ cfg.mConnectionNMax then (k : ℤ)
      else cfg.mConnectionNMax - p.mConnectionN) = 0
  · have hq : q = p := if_pos hk
    rw [hq]
    refine ⟨le_rfl, fun _ _ => rfl, fun _ => False, fun _ h => h.elim, ?_, fun _ _ h => h.elim⟩
    intro a ha
    rw [hn] at ha
    cases ha
  · set mem' := Function.update p.mem h { p.mem h with next := some ⟨p.mPconnections.length, 0⟩ }
      with hmem'
    have hmem : q.mem = linkLoop p.mPconnections.length 0 (k - 1) mem' := by
      simp only [q, moreConnectionPool, if_neg hk, Pool.set, hmem']
    have hlen : q.mPconnections.length = p.mPconnections.length + 1 := by
      simp only [q, moreConnectionPool, if_neg hk, Pool.set, List.length_append,
        List.length_singleton]
    refine ⟨by omega, fun a ha => ?_, InSpan p.mPconnections.length 0 (k - 1),
      fun a ha => ha.1.ge, fun a ha => ?_, fun a b ha hah hb => ?_⟩
    · rw [hmem, linkLoop_of_ne _ _ _ (Or.inl (Nat.ne_of_lt ha)), hmem']
      by_cases hah : a = h
      · subst hah
        rw [Function.update_self]
      · rw [Function.update_of_ne hah]
    · rw [next, hmem] at ha
      rcases linkLoop_cases p.mPconnections.length (k - 1) 0 mem' h with ⟨-, hin⟩ | ⟨-, hsame⟩
      · exact hin a ha
      · rw [hsame, hmem', Function.update_self] at ha
        cases ha
        exact ⟨rfl, le_rfl, Nat.zero_le _⟩
    · rw [next, hmem] at hb
      rcases linkLoop_cases p.mPconnections.length (k - 1) 0 mem' a with ⟨-, hin⟩ | ⟨hout, -⟩
      · exact hin b hb
      · exact absurd ha hout

/-! ## One call -/

section handOut

variable (isock : ℤ) {r : Pool} {h : Addr}

theorem handOut_next_self : (handOut isock r h).next h = none := by
  simp only [handOut, Pool.next, Pool.set, Function.update_self]
  rfl

theorem handOut_seq (c : Addr) : ((handOut isock r h).mem c).iCurrsequence =
    if c = h then (r.mem c).iCurrsequence + 1 else (r.mem c).iCurrsequence := by
  by_cases hc : c = h
  · subst hc
    simp only [handOut, Pool.set, Function.update_self, if_true]
  · simp only [handOut, Pool.set, Function.update_of_ne hc, if_neg hc]

theorem onFreeList_handOut {S : Addr → Prop} (hhead : ∀ a, r.next h = some a → S a)
    (hnext : ∀ a b, S a → a ≠ h → r.next a = some b → S b) (ha : (handOut isock r h).OnFreeList a) :
    S a := by
  induction ha with
  | head hp => exact hhead _ hp
  | @next a b _ hn ih =>
    by_cases hah : a = h
    · rw [hah, handOut_next_self] at hn
      cases hn
    · rw [handOut_next isock hah] at hn
      exact hnext a b ih hah hn

end handOut

variable (cfg) in
/-- **`ngx_get_connection`**, as far as a slot `c` of the pool can tell. -/
theorem op_get (isock : ℤ) (hc : c.block < p.mPconnections.length) :
    let q := p.op cfg (.get isock)
    p.mPconnections.length ≤ q.mPconnections.length ∧
      (q.mem c).iCurrsequence = (if p.mPfreeConnections = some c then (p.mem c).iCurrsequence + 1
        else (p.mem c).iCurrsequence) ∧
      ∀ a, q.OnFreeList a → p.OnFreeList a ∨ p.mPconnections.length ≤ a.block := by
  intro q
  cases hhead : p.mPfreeConnections with
  | none =>
    have hq : q = p := by simp [q, op, ngxGetConnection, hhead]
    rw [hq]
    exact ⟨le_rfl, by simp, fun a ha => Or.inl ha⟩
  | some h =>
    have hhc : some h = some c ↔ c = h := by rw [Option.some.injEq, eq_comm]
    simp only [hhc]
    by_cases hn : p.next h = none
    · have hq : q = handOut isock (p.moreConnectionPool cfg createConNum h) h := by
        simp only [q, op, get_eq isock hhead, if_pos hn, Option.map_some, Option.getD_some]
      obtain ⟨hlen, hseq, S, hS, hfirst, hnext⟩ := moreConnectionPool_frame cfg createConNum h hn
      rw [hq]
      refine ⟨hlen, ?_, fun a ha => Or.inr (hS a (onFreeList_handOut isock hfirst hnext ha))⟩
      rw [handOut_seq, hseq c hc]
    · have hq : q = handOut isock p h := by
        simp only [q, op, get_eq isock hhead, if_neg hn, Option.map_some, Option.getD_some]
      rw [hq]
      refine ⟨le_rfl, handOut_seq isock c, fun a ha => Or.inl ?_⟩
      exact onFreeList_handOut isock (fun b hb => .next (.head hhead) hb)
        (fun b d hb _ hd => .next hb hd) ha

variable (cfg) in
/-- **`ngx_free_connection`**, as far as a slot `c` of the pool can tell. -/
theorem op_free (d : Addr) :
    let q := p.op cfg (.free d)
    q.mPconnections = p.mPconnections ∧
      (q.mem c).iCurrsequence = (if c = d then (p.mem c).iCurrsequence + 1
        else (p.mem c).iCurrsequence) ∧
      ∀ a, q.OnFreeList a → a = d ∨ p.OnFreeList a := by
  intro q
  have hmem : q.mem = Function.update p.mem d { p.mem d with
    next := p.mPfreeConnections
    iCurrsequence := (p.mem d).iCurrsequence + 1 } := rfl
  refine ⟨rfl, ?_, fun a ha => ?_⟩
  · by_cases hcd : c = d
    · subst hcd
      rw [hmem, Function.update_self, if_pos rfl]
    · rw [hmem, Function.update_of_ne hcd, if_neg hcd]
  · induction ha with
    | head hp =>
      cases hp
      exact Or.inl rfl
    | @next a b _ hn ih =>
      rw [next, hmem] at hn
      by_cases had : a = d
      · subst had
        rw [Function.update_self] at hn
        exact Or.inr (.head hn)
      · rw [Function.update_of_ne had] at hn
        exact Or.inr (.next (ih.resolve_left had) hn)

variable (cfg) in
/-- **A call adds one** to the number of a slot of the pool, or nothing; returning the slot adds
one. -/
theorem op_seq (i : PoolOp) (hc : c.block < p.mPconnections.length) :
    c.block < (p.op cfg i).mPconnections.length ∧
      ∃ n ≤ 1, ((p.op cfg i).mem c).iCurrsequence = (p.mem c).iCurrsequence + UInt64.ofNat n ∧
        (i = .free c → n = 1) := by
  cases i with
  | get isock =>
    obtain ⟨hlen, hseq, -⟩ := op_get cfg isock hc
    refine ⟨hc.trans_le hlen, ?_⟩
    rw [hseq]
    by_cases hhead : p.mPfreeConnections = some c
    · exact ⟨1, le_rfl, if_pos hhead, nofun⟩
    · exact ⟨0, Nat.zero_le 1, by rw [if_neg hhead]; exact (UInt64.add_zero _).symm, nofun⟩
  | free d =>
    obtain ⟨hlen, hseq, -⟩ := op_free cfg d
    refine ⟨by rw [hlen]; exact hc, ?_⟩
    rw [hseq]
    by_cases hcd : c = d
    · exact ⟨1, le_rfl, if_pos hcd, fun _ => rfl⟩
    · refine ⟨0, Nat.zero_le 1, by rw [if_neg hcd]; exact (UInt64.add_zero _).symm, fun h => ?_⟩
      cases h
      exact absurd rfl hcd

variable (cfg) in
/-- **A slot that is out** stays so until it is returned, and keeps its number. -/
theorem Pool.HandedOut.op (h : p.HandedOut c) (hi : i ≠ .free c) :
    (p.op cfg i).HandedOut c ∧ ((p.op cfg i).mem c).iCurrsequence = (p.mem c).iCurrsequence := by
  obtain ⟨hc, hout⟩ := h
  cases i with
  | get isock =>
    obtain ⟨hlen, hseq, hfree⟩ := op_get cfg isock hc
    have hhead : p.mPfreeConnections ≠ some c := fun he => hout (.head he)
    refine ⟨⟨hc.trans_le hlen, fun ha => ?_⟩, by rw [hseq, if_neg hhead]⟩
    rcases hfree c ha with ha | ha
    · exact hout ha
    · exact absurd hc (Nat.not_lt.mpr ha)
  | free d =>
    obtain ⟨hlen, hseq, hfree⟩ := op_free cfg d
    have hcd : c ≠ d := fun he => hi (he ▸ rfl)
    refine ⟨⟨by rw [hlen]; exact hc, fun ha => ?_⟩, by rw [hseq, if_neg hcd]⟩
    exact (hfree c ha).elim hcd hout

/-! ## Any calls -/

variable (cfg) in
/-- The number of a slot after some calls: at most one has been added for each of them, and one at
least if the slot was returned. -/
theorem ops_seq (is : List PoolOp) : ∀ {p : Pool}, c.block < p.mPconnections.length →
    ∃ n ≤ is.length, ((p.ops cfg is).mem c).iCurrsequence =
        (p.mem c).iCurrsequence + UInt64.ofNat n ∧ (.free c ∈ is → 1 ≤ n) := by
  induction is with
  | nil => exact fun _ => ⟨0, le_rfl, (UInt64.add_zero _).symm, nofun⟩
  | cons i is ih =>
    intro p hc
    obtain ⟨hc', k, hk, hseq, hfree⟩ := op_seq cfg i hc
    obtain ⟨n, hn, hseq', hfree'⟩ := ih hc'
    refine ⟨k + n, by rw [List.length_cons]; omega, ?_, fun hm => ?_⟩
    · change ((ops cfg (p.op cfg i) is).mem c).iCurrsequence = _
      rw [hseq', hseq, UInt64.add_assoc, UInt64.ofNat_add]
    · rcases List.mem_cons.mp hm with hm | hm
      · have := hfree hm.symm
        omega
      · have := hfree' hm
        omega

variable (cfg) in
theorem Pool.HandedOut.ops (is : List PoolOp) : ∀ {p : Pool}, p.HandedOut c → .free c ∉ is →
    ((p.ops cfg is).mem c).iCurrsequence = (p.mem c).iCurrsequence := by
  induction is with
  | nil => exact fun _ _ => rfl
  | cons i is ih =>
    intro p h hm
    rw [List.mem_cons, not_or] at hm
    obtain ⟨h', hseq⟩ := h.op cfg (Ne.symm hm.1)
    exact (ih h' hm.2).trans hseq

/-! ## Slots that are out -/

/-- The slots that are out are not on the free list. -/
structure Lease.Apart (s : Lease) : Prop where
  free : ∃ xs, s.pool.Free xs ∧ ∀ a ∈ s.out, a ∉ xs ∧ a.block < s.pool.mPconnections.length
  nodup : s.out.Nodup

theorem Lease.Apart.step {s t : Lease} {os : List (Option Addr)} (h : s.Apart)
    (hs : s.step cfg i = some (t, os)) : t.Apart := by
  obtain ⟨⟨xs, hfree, hout⟩, hnodup⟩ := h
  cases i with
  | get isock =>
    cases xs with
    | nil =>
      have hhead : s.pool.mPfreeConnections = none := hfree.links.eq_none_iff.mpr rfl
      simp only [Lease.step, ngxGetConnection, hhead, Option.map_none] at hs
      cases hs
      exact ⟨⟨[], hfree, hout⟩, hnodup⟩
    | cons c xs =>
      obtain ⟨q, ys, hq, ht⟩ := ngxGetConnection_free cfg isock hfree
      simp only [Lease.step, hq] at hs
      cases hs
      have hc : c ∉ s.out := fun hm => (hout c hm).1 List.mem_cons_self
      refine ⟨⟨ys, ht.free, fun a ha => ?_⟩, List.nodup_cons.mpr ⟨hc, hnodup⟩⟩
      rcases List.mem_cons.mp ha with rfl | ha
      · exact ⟨ht.notMem, (hfree.block _ List.mem_cons_self).trans_le ht.grows⟩
      · obtain ⟨hx, hb⟩ := hout a ha
        refine ⟨fun hy => hx ?_, hb.trans_le ht.grows⟩
        exact List.mem_cons_of_mem _ ((ht.mem_iff a hb).mp hy)
  | free c =>
    simp only [Lease.step] at hs
    split_ifs at hs with hc
    cases hs
    obtain ⟨hx, hb⟩ := hout c hc
    refine ⟨⟨c :: xs, ngxFreeConnection_free hfree hx hb, fun a ha => ?_⟩, hnodup.erase c⟩
    obtain ⟨hac, ha⟩ := hnodup.mem_erase_iff.mp ha
    obtain ⟨hax, hab⟩ := hout a ha
    exact ⟨by simp [hac, hax], hab⟩

theorem Lease.Apart.run {is : List PoolOp} : ∀ {s t : Lease} {os : List (Option Addr)}, s.Apart →
    Run.run (Lease.step cfg) s is = some (t, os) → t.Apart := by
  induction is with
  | nil =>
    intro s t os h hr
    cases hr
    exact h
  | cons i is ih =>
    intro s t os h hr
    obtain ⟨u, _, _, hs, hr, -⟩ := Run.run_cons_eq_some.mp hr
    exact ih (h.step hs) hr

/-- **The slots that are out** in a run of calls from the pool of `ngx_epoll_init` are handed
out. -/
theorem handedOut_of_run {heap : Addr → Connection} {is : List PoolOp} {s : Lease}
    {os : List (Option Addr)}
    (h : Run.run (Lease.step cfg) ⟨Pool.init cfg heap, []⟩ is = some (s, os)) (hc : c ∈ s.out) :
    s.pool.HandedOut c := by
  have h₀ : Lease.Apart ⟨Pool.init cfg heap, []⟩ :=
    ⟨⟨_, init_free cfg heap, fun a ha => absurd ha List.not_mem_nil⟩, List.nodup_nil⟩
  obtain ⟨xs, hfree, hout⟩ := (h₀.run h).free
  exact ⟨(hout c hc).2, fun ha => (hout c hc).1 (mem_of_onFreeList hfree.links ha)⟩

/-! ## The test -/

/-- **Stale messages are told exactly.** A message stamped while its connection was handed out
passes the test after fewer than `2 ^ 64` further calls on the pool if and only if the connection
has not been returned since, whatever else was taken and returned. -/
theorem current_iff (cfg : Conf) (p : Pool) (c : Addr) (is : List PoolOp) (hc : p.HandedOut c)
    (hlen : is.length < 2 ^ 64) : (p.ops cfg is).Current (p.stamp c) ↔ .free c ∉ is := by
  constructor
  · intro hcur hm
    obtain ⟨n, hn, hseq, hfree⟩ := ops_seq cfg is hc.1
    have hpos := hfree hm
    have heq : (p.mem c).iCurrsequence = (p.mem c).iCurrsequence + UInt64.ofNat n :=
      hcur.trans hseq
    have hzero : UInt64.ofNat n = 0 := UInt64.left_eq_add.mp heq
    have hnat := congrArg UInt64.toNat hzero
    rw [UInt64.toNat_ofNat'] at hnat
    have hmod : n % 2 ^ 64 = n := Nat.mod_eq_of_lt (by omega)
    rw [hmod] at hnat
    simp at hnat
    omega
  · intro hm
    exact (HandedOut.ops cfg is hc hm).symm

/-- A stamp outlives the traffic on another slot, and not the reuse of its own. -/
theorem current_two_slots :
    let cfg : Conf := ⟨4, .etClose, 0, 100, 10⟩
    let r := Run.run (Lease.step cfg) ⟨Pool.init cfg fun _ => .zero, []⟩ [.get 5, .get 6]
    let s := (r.get (by decide +kernel)).1
    (s.pool.ops cfg [.free ⟨0, 1⟩, .get 7]).Current (s.pool.stamp ⟨0, 0⟩) ∧
      ¬ (s.pool.ops cfg [.free ⟨0, 0⟩, .get 7]).Current (s.pool.stamp ⟨0, 0⟩) := by
  intro cfg r s
  have hr : r = some (s, (r.get (by decide +kernel)).2) :=
    (Option.some_get (by decide +kernel : r.isSome = true)).symm
  have hc : s.pool.HandedOut ⟨0, 0⟩ := handedOut_of_run hr (by decide +kernel)
  constructor
  · exact (current_iff cfg s.pool ⟨0, 0⟩ _ hc (by decide)).mpr (by decide)
  · exact fun h => (current_iff cfg s.pool ⟨0, 0⟩ _ hc (by decide)).mp h (by decide)

end ServerNginx
