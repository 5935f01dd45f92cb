import ServerNginx.Lib.Run
import ServerNginx.Net.Pool

set_option autoImplicit false

/-!
# The pool under any calls

`Lease` is the pool with the slots that are handed out; a run takes slots and returns those that
are out. `WellFormed`: the free list ends and holds, once each, the elements of the blocks that are
not out; `m_connection_n` counts the elements of the blocks and keeps to its limit; the next
`ngx_get_connection` returns a slot of a block that is not out, or null where the limit is reached.

`More_Connection_Pool` links 16 elements where fewer are left to the limit.
**`wellFormed_iff`**: a run keeps the pool well formed exactly when it grows by whole steps of 16
(`GrowsWhole`); `not_wellFormed` is a run that does not.

It leaves `m_free_connection_n` as it is, too. **`counted_iff`**: along a run the counter counts the
free list exactly when the pool never grows (`NeverGrows`).
-/

namespace ServerNginx

namespace Pool

/-- An element of a block. -/
def Allocated (p : Pool) (a : Addr) : Prop := ∃ n, p.mPconnections[a.block]? = some n ∧ a.idx < n

/-- The number of elements of all blocks. -/
def size (p : Pool) : ℕ := p.mPconnections.sum

end Pool

/-- A pool and the slots that are handed out. -/
structure Lease where
  pool : Pool
  out : List Addr

/-- A call of `ngx_get_connection` or `ngx_free_connection`. -/
inductive PoolOp
  | get (isock : ℤ)
  | free (c : Addr)
  deriving DecidableEq, Repr

namespace Lease

/-- A call; only slots that are out can be returned. It reports what `ngx_get_connection`
returns. -/
def step (cfg : Conf) (s : Lease) : PoolOp → Option (Lease × List (Option Addr))
  | .get isock =>
    match s.pool.ngxGetConnection cfg isock with
    | none => some (s, [none])
    | some (c, p) => some (⟨p, c :: s.out⟩, [some c])
  | .free c =>
    if c ∈ s.out then some (⟨s.pool.ngxFreeConnection c, s.out.erase c⟩, []) else none

/-- **The pool is as it should be.** -/
structure WellFormed (cfg : Conf) (s : Lease) : Prop where
  free : ∃ xs, Links s.pool.next s.pool.mPfreeConnections xs ∧ xs.Nodup ∧
    ∀ a, a ∈ xs ↔ s.pool.Allocated a ∧ a ∉ s.out
  count : s.pool.mConnectionN = s.pool.size
  limit : s.pool.mConnectionN ≤ cfg.mConnectionNMax
  fresh : ∀ isock c p, s.pool.ngxGetConnection cfg isock = some (c, p) →
    c ∉ s.out ∧ s.pool.Allocated c
  full : ∀ isock, s.pool.ngxGetConnection cfg isock = none ↔
    (s.out.length : ℤ) = cfg.mConnectionNMax

/-- The last free slot is taken only where the limit is reached or 16 elements away at least. -/
def GrowsWhole (cfg : Conf) (s : Lease) : PoolOp → Prop
  | .get _ => ∀ c, s.pool.mPfreeConnections = some c → s.pool.next c = none →
      s.pool.mConnectionN = cfg.mConnectionNMax ∨
        s.pool.mConnectionN + createConNum ≤ cfg.mConnectionNMax
  | .free _ => True

instance (cfg : Conf) (s : Lease) (i : PoolOp) : Decidable (GrowsWhole cfg s i) := by
  unfold GrowsWhole
  split
  · cases s.pool.mPfreeConnections with
    | none => exact isTrue nofun
    | some c =>
      exact decidable_of_iff (s.pool.next c = none → s.pool.mConnectionN = cfg.mConnectionNMax ∨
        s.pool.mConnectionN + createConNum ≤ cfg.mConnectionNMax) (by simp)
  · exact isTrue trivial

/-! ## The invariant -/

/-- The free list is `xs`, and the slots out are the other elements of the blocks. -/
structure Inv (cfg : Conf) (s : Lease) (xs : List Addr) : Prop where
  links : Links s.pool.next s.pool.mPfreeConnections xs
  mem : ∀ a, a ∈ xs ↔ s.pool.Allocated a ∧ a ∉ s.out
  out : ∀ a ∈ s.out, s.pool.Allocated a
  nodup : s.out.Nodup
  total : xs.length + s.out.length = s.pool.size
  count : s.pool.mConnectionN = s.pool.size
  limit : s.pool.mConnectionN ≤ cfg.mConnectionNMax
  full : xs = [] → s.pool.mConnectionN = cfg.mConnectionNMax

variable {cfg : Conf} {s : Lease} {xs ys : List Addr} {a c : Addr}

theorem Allocated.block_lt {p : Pool} (h : p.Allocated a) : a.block < p.mPconnections.length := by
  obtain ⟨n, hn, -⟩ := h
  obtain ⟨hlt, -⟩ := List.getElem?_eq_some_iff.mp hn
  exact hlt

theorem Inv.freeList (h : s.Inv cfg xs) : s.pool.Free xs where
  links := h.links
  block a ha := Allocated.block_lt ((h.mem a).mp ha).1

theorem head_eq {next : Addr → Option Addr} {p : Option Addr} (h : Links next p (c :: xs)) :
    p = some c := by
  cases h with
  | cons _ => rfl

theorem Inv.tail (h : s.Inv cfg (c :: xs)) : Links s.pool.next (s.pool.next c) xs := by
  have hl := h.links
  rw [head_eq hl] at hl
  obtain ⟨zs, he, hz⟩ := hl.tail
  cases he
  exact hz

/-- **The invariant makes the pool well formed.** -/
theorem Inv.wellFormed (h : s.Inv cfg xs) : s.WellFormed cfg := by
  have hget : ∀ isock, (s.pool.ngxGetConnection cfg isock).map Prod.fst =
      s.pool.mPfreeConnections := by
    intro isock
    simp [Pool.ngxGetConnection, Function.comp_def]
  refine ⟨⟨xs, h.links, h.links.nodup, h.mem⟩, h.count, h.limit, ?_, ?_⟩
  · intro isock c p hc
    have hhead := hget isock
    rw [hc] at hhead
    cases xs with
    | nil => rw [h.links.eq_none_iff.mpr rfl] at hhead; cases hhead
    | cons d xs =>
      rw [head_eq h.links] at hhead
      cases hhead
      exact And.symm ((h.mem c).mp List.mem_cons_self)
  · intro isock
    have hnone : s.pool.ngxGetConnection cfg isock = none ↔ xs = [] := by
      rw [← h.links.eq_none_iff, ← hget isock, Option.map_eq_none_iff]
    have htotal := h.total
    have hcount := h.count
    have hlimit := h.limit
    rw [hnone]
    constructor
    · rintro rfl
      have hfull := h.full rfl
      rw [List.length_nil, Nat.zero_add] at htotal
      omega
    · intro hlen
      apply List.eq_nil_of_length_eq_zero
      omega

/-! ## Taking a slot -/

section get

variable {p : Pool} (isock : ℤ)

/-- The pool behind the handing out of `c`, once it has grown. -/
def handOut (p : Pool) (c : Addr) : Pool :=
  { p with mPfreeConnections := p.next c, mFreeConnectionN := p.mFreeConnectionN - 1 }.set c
    { Connection.zero with fd := isock, iCurrsequence := (p.mem c).iCurrsequence + 1 }

theorem handOut_next (h : a ≠ c) : (handOut isock p c).next a = p.next a := by
  simp only [handOut, Pool.next, Pool.set, Function.update_of_ne h]

theorem get_eq (hc : p.mPfreeConnections = some c) : p.ngxGetConnection cfg isock =
    some (c, handOut isock
      (if p.next c = none then p.moreConnectionPool cfg createConNum c else p) c) := by
  rw [Pool.ngxGetConnection, hc]
  rfl

theorem get_of_next (hc : p.mPfreeConnections = some c) (hn : p.next c ≠ none) :
    p.ngxGetConnection cfg isock = some (c, handOut isock p c) := by
  rw [get_eq isock hc, if_neg hn]

/-- The number of elements `More_Connection_Pool` allocates. -/
def crateNum (cfg : Conf) (p : Pool) : ℤ :=
  if p.mConnectionN + createConNum ≤ cfg.mConnectionNMax then createConNum
  else cfg.mConnectionNMax - p.mConnectionN

theorem get_of_limit (hc : p.mPfreeConnections = some c) (hn : p.next c = none)
    (hk : crateNum cfg p = 0) : p.ngxGetConnection cfg isock = some (c, handOut isock p c) := by
  have hmore : p.moreConnectionPool cfg createConNum c = p := if_pos hk
  rw [get_eq isock hc, if_pos hn, hmore]

/-- **The last slot below the limit** leaves 16 elements of a new block, whatever its size. -/
theorem get_of_grow (hc : p.mPfreeConnections = some c) (hn : p.next c = none)
    (hb : c.block < p.mPconnections.length) (hk : crateNum cfg p ≠ 0) :
    ∃ q, p.ngxGetConnection cfg isock = some (c, q) ∧
      Links q.next q.mPfreeConnections
        ((List.range' 0 createConNum).map (Addr.mk p.mPconnections.length)) ∧
      q.mPconnections = p.mPconnections ++ [(crateNum cfg p).toNat] ∧
      q.mConnectionN = p.mConnectionN + crateNum cfg p := by
  set r := p.moreConnectionPool cfg createConNum c with hr
  have hlen : r.mPconnections = p.mPconnections ++ [(crateNum cfg p).toNat] := by
    rw [hr, Pool.moreConnectionPool]
    exact congrArg Pool.mPconnections (if_neg hk)
  have hnum : r.mConnectionN = p.mConnectionN + crateNum cfg p := by
    rw [hr, Pool.moreConnectionPool]
    exact congrArg Pool.mConnectionN (if_neg hk)
  have hmem : r.mem = Pool.linkLoop p.mPconnections.length 0 (createConNum - 1)
      (p.set c { p.mem c with next := some ⟨p.mPconnections.length, 0⟩ }).mem := by
    rw [hr, Pool.moreConnectionPool]
    exact congrArg Pool.mem (if_neg hk)
  have hnext : r.next c = some ⟨p.mPconnections.length, 0⟩ := by
    rw [Pool.next, hmem, Pool.linkLoop_of_ne _ _ _ (Or.inl (Nat.ne_of_lt hb))]
    simp only [Pool.set, Function.update_self]
  have hlinks : Links r.next (r.next c)
      ((List.range' 0 createConNum).map (Addr.mk p.mPconnections.length)) := by
    rw [hnext]
    unfold Pool.next
    rw [hmem]
    exact Pool.links_linkLoop _ _ _
  refine ⟨handOut isock r c, by rw [get_eq isock hc, if_pos hn], ?_, hlen, hnum⟩
  refine hlinks.congr fun a ha => handOut_next isock ?_
  obtain ⟨i, -, rfl⟩ := List.mem_map.mp ha
  rintro rfl
  exact absurd hb (lt_irrefl _)

end get

/-! ## One step -/

section step

variable {p q : Pool}

theorem allocated_append {n : ℕ} (h : q.mPconnections = p.mPconnections ++ [n]) :
    q.Allocated a ↔ p.Allocated a ∨ a.block = p.mPconnections.length ∧ a.idx < n := by
  unfold Pool.Allocated
  rw [h]
  rcases lt_trichotomy a.block p.mPconnections.length with hlt | heq | hgt
  · rw [List.getElem?_append_left hlt]
    simp [Nat.ne_of_lt hlt]
  · simp [heq]
  · have hnone : (p.mPconnections ++ [n])[a.block]? = none := by simp; omega
    have hnone' : p.mPconnections[a.block]? = none := by simp; omega
    simp [hnone, hnone', Nat.ne_of_gt hgt]

/-- What the pool must have become when the first of the free list is handed out. -/
theorem Inv.take (h : s.Inv cfg (c :: xs)) (hlinks : Links q.next q.mPfreeConnections ys)
    (halloc : ∀ a, s.pool.Allocated a → q.Allocated a)
    (hmem : ∀ a, a ∈ ys ↔ a ∈ xs ∨ q.Allocated a ∧ ¬ s.pool.Allocated a)
    (hsize : ys.length + s.pool.size = xs.length + q.size) (hcount : q.mConnectionN = q.size)
    (hlimit : q.mConnectionN ≤ cfg.mConnectionNMax)
    (hfull : ys = [] → q.mConnectionN = cfg.mConnectionNMax) : Inv cfg ⟨q, c :: s.out⟩ ys where
  links := hlinks
  mem a := by
    have hc := (h.mem c).mp List.mem_cons_self
    have hnot : c ∉ xs := (List.nodup_cons.mp h.links.nodup).1
    have ha := h.mem a
    have hout := h.out a
    simp only [List.mem_cons] at ha
    rw [hmem, List.mem_cons, not_or]
    constructor
    · rintro (hx | ⟨hq, hs⟩)
      · obtain ⟨hal, ho⟩ := ha.mp (Or.inr hx)
        exact ⟨halloc a hal, fun hac => hnot (hac ▸ hx), ho⟩
      · exact ⟨hq, fun hac => hs (hac ▸ hc.1), fun ho => hs (hout ho)⟩
    · rintro ⟨hq, hac, ho⟩
      by_cases hs : s.pool.Allocated a
      · exact Or.inl ((ha.mpr ⟨hs, ho⟩).resolve_left hac)
      · exact Or.inr ⟨hq, hs⟩
  out a ha := by
    rcases List.mem_cons.mp ha with rfl | ha
    · exact halloc a ((h.mem a).mp List.mem_cons_self).1
    · exact halloc a (h.out a ha)
  nodup := List.nodup_cons.mpr ⟨((h.mem c).mp List.mem_cons_self).2, h.nodup⟩
  total := by
    have := h.total
    simp only [List.length_cons] at *
    omega
  count := hcount
  limit := hlimit
  full := hfull

theorem Inv.take_same (h : s.Inv cfg (c :: xs)) (isock : ℤ)
    (hfull : xs = [] → s.pool.mConnectionN = cfg.mConnectionNMax) :
    Inv cfg ⟨handOut isock s.pool c, c :: s.out⟩ xs := by
  have hnot : c ∉ xs := (List.nodup_cons.mp h.links.nodup).1
  refine h.take (h.tail.congr fun a ha => handOut_next isock (fun hac => hnot (hac ▸ ha)))
    (fun a ha => ha) (fun a => ?_) rfl h.count h.limit hfull
  exact ⟨Or.inl, fun hq => hq.resolve_right fun hn => hn.2 hn.1⟩

theorem mem_newBlock (k n : ℕ) :
    a ∈ (List.range' 0 k).map (Addr.mk n) ↔ a.block = n ∧ a.idx < k := by
  constructor
  · intro ha
    obtain ⟨i, hi, rfl⟩ := List.mem_map.mp ha
    exact ⟨rfl, by simpa [List.mem_range'_1] using hi⟩
  · rintro ⟨rfl, hi⟩
    exact List.mem_map.mpr ⟨a.idx, by simpa [List.mem_range'_1] using hi, rfl⟩

/-- **The pool grows** at its last free slot: it stays as it should be if the new block holds the
16 elements that are linked. -/
theorem grow (h : s.Inv cfg [c])
    (hlinks : Links q.next q.mPfreeConnections
      ((List.range' 0 createConNum).map (Addr.mk s.pool.mPconnections.length)))
    (hblocks : q.mPconnections = s.pool.mPconnections ++ [(crateNum cfg s.pool).toNat])
    (hnum : q.mConnectionN = s.pool.mConnectionN + crateNum cfg s.pool) :
    (s.pool.mConnectionN + createConNum ≤ cfg.mConnectionNMax →
      Inv cfg ⟨q, c :: s.out⟩
        ((List.range' 0 createConNum).map (Addr.mk s.pool.mPconnections.length))) ∧
    (¬ s.pool.mConnectionN + createConNum ≤ cfg.mConnectionNMax →
      ¬ WellFormed cfg ⟨q, c :: s.out⟩) := by
  have halloc : ∀ a, q.Allocated a ↔ s.pool.Allocated a ∨
      a.block = s.pool.mPconnections.length ∧ a.idx < (crateNum cfg s.pool).toNat :=
    fun _ => allocated_append hblocks
  have hnew : ∀ a : Addr, a.block = s.pool.mPconnections.length → ¬ s.pool.Allocated a :=
    fun a hb ha => absurd (Allocated.block_lt ha) (by omega)
  constructor
  · intro hroom
    have hcrate : crateNum cfg s.pool = (createConNum : ℤ) := if_pos hroom
    rw [hcrate, Int.toNat_natCast] at hblocks halloc
    rw [hcrate] at hnum
    have hsize : q.size = s.pool.size + createConNum := by
      rw [Pool.size, hblocks, List.sum_append, List.sum_singleton]
      rfl
    have hcount := h.count
    refine h.take hlinks (fun a ha => (halloc a).mpr (Or.inl ha)) (fun a => ?_) ?_ ?_ ?_ ?_
    · rw [mem_newBlock, halloc]
      constructor
      · exact fun ha => Or.inr ⟨Or.inr ha, hnew a ha.1⟩
      · rintro (ha | ⟨ha | ha, hn⟩)
        · cases ha
        · exact absurd ha hn
        · exact ha
    · simp only [List.length_map, List.length_range', List.length_nil]
      omega
    · push_cast [hnum, hsize, hcount]
      rfl
    · rw [hnum]
      exact hroom
    · intro he
      simp [createConNum] at he
  · intro hroom hw
    have hlimit := h.limit
    -- fewer than 16 elements were allocated, but element 15 of the block is on the list
    have hcrate : crateNum cfg s.pool = cfg.mConnectionNMax - s.pool.mConnectionN := if_neg hroom
    obtain ⟨zs, hz, -, hmem⟩ := hw.free
    have hlast : (⟨s.pool.mPconnections.length, createConNum - 1⟩ : Addr) ∈ zs := by
      rw [hz.unique hlinks, mem_newBlock]
      exact ⟨rfl, by simp [createConNum]⟩
    rcases (halloc _).mp ((hmem _).mp hlast).1 with ha | ⟨-, ha⟩
    · exact hnew _ rfl ha
    · simp only [hcrate, createConNum] at ha hroom
      omega

/-- **What `ngx_get_connection` does** to a pool with the invariant. -/
theorem step_get (h : s.Inv cfg xs) (isock : ℤ) :
    ∃ t o, s.step cfg (.get isock) = some (t, o) ∧
      (GrowsWhole cfg s (.get isock) → ∃ ys, t.Inv cfg ys) ∧
      (¬ GrowsWhole cfg s (.get isock) → ¬ t.WellFormed cfg) := by
  cases xs with
  | nil =>
    have hhead : s.pool.mPfreeConnections = none := h.links.eq_none_iff.mpr rfl
    refine ⟨s, [none], ?_, fun _ => ⟨[], h⟩, fun hg => absurd ?_ hg⟩
    · simp [step, Pool.ngxGetConnection, hhead]
    · simp [GrowsWhole, hhead]
  | cons c xs =>
    have hhead : s.pool.mPfreeConnections = some c := head_eq h.links
    have htail := h.tail
    by_cases hn : s.pool.next c = none
    · obtain rfl : xs = [] := htail.eq_none_iff.mp hn
      have hlimit := h.limit
      have hguard : GrowsWhole cfg s (.get isock) ↔ s.pool.mConnectionN = cfg.mConnectionNMax ∨
          s.pool.mConnectionN + createConNum ≤ cfg.mConnectionNMax := by
        simp [GrowsWhole, hhead, hn]
      rw [hguard]
      by_cases hk : crateNum cfg s.pool = 0
      · have hmax : s.pool.mConnectionN = cfg.mConnectionNMax := by
          unfold crateNum createConNum at hk
          split_ifs at hk <;> omega
        refine ⟨_, _, by rw [step, get_of_limit isock hhead hn hk], fun _ =>
          ⟨[], h.take_same isock fun _ => hmax⟩, fun hg => absurd (Or.inl hmax) hg⟩
      · have hb : c.block < s.pool.mPconnections.length :=
          Allocated.block_lt ((h.mem c).mp List.mem_cons_self).1
        obtain ⟨q, hq, hlinks, hblocks, hnum⟩ := get_of_grow isock hhead hn hb hk
        obtain ⟨hroom, hover⟩ := grow h hlinks hblocks hnum
        refine ⟨_, _, by rw [step, hq], fun hg => ⟨_, hroom (hg.resolve_left fun hmax => hk ?_)⟩,
          fun hg => hover fun hr => hg (Or.inr hr)⟩
        simp [crateNum, hmax, createConNum]
    · have hxs : xs ≠ [] := fun he => hn (htail.eq_none_iff.mpr he)
      refine ⟨_, _, by rw [step, get_of_next isock hhead hn], fun _ =>
        ⟨xs, h.take_same isock fun he => absurd he hxs⟩, fun hg => absurd ?_ hg⟩
      simp [GrowsWhole, hhead, hn]

/-- **Returning a slot that is out** keeps the invariant. -/
theorem Inv.free (h : s.Inv cfg xs) (hc : c ∈ s.out) :
    Inv cfg ⟨s.pool.ngxFreeConnection c, s.out.erase c⟩ (c :: xs) where
  links := by
    have hnot : c ∉ xs := fun hx => ((h.mem c).mp hx).2 hc
    exact (Pool.ngxFreeConnection_free h.freeList hnot (Allocated.block_lt (h.out c hc))).links
  mem a := by
    have hnot : ¬ (a ≠ c ∧ a ∈ s.out) ↔ (a ∈ s.out → a = c) := by tauto
    rw [List.mem_cons, h.mem a, h.nodup.mem_erase_iff, hnot]
    change a = c ∨ s.pool.Allocated a ∧ a ∉ s.out ↔ s.pool.Allocated a ∧ (a ∈ s.out → a = c)
    constructor
    · rintro (rfl | ⟨ha, ho⟩)
      · exact ⟨h.out a hc, fun _ => rfl⟩
      · exact ⟨ha, fun hm => absurd hm ho⟩
    · rintro ⟨ha, ho⟩
      by_cases hm : a ∈ s.out
      · exact Or.inl (ho hm)
      · exact Or.inr ⟨ha, hm⟩
  out a ha := h.out a (List.mem_of_mem_erase ha)
  nodup := h.nodup.erase c
  total := by
    have := h.total
    have := List.length_pos_of_mem hc
    rw [List.length_cons, List.length_erase_of_mem hc]
    change _ = s.pool.size
    omega
  count := h.count
  limit := h.limit
  full := nofun

/-- **One call**: it keeps the pool well formed exactly under the guard. -/
theorem step_wellFormed (h : s.Inv cfg xs) {i : PoolOp} (hd : Run.Defined (step cfg) s i) :
    ∃ t o, s.step cfg i = some (t, o) ∧ (GrowsWhole cfg s i → ∃ ys, t.Inv cfg ys) ∧
      (¬ GrowsWhole cfg s i → ¬ t.WellFormed cfg) := by
  cases i with
  | get isock => exact step_get h isock
  | free c =>
    by_cases hc : c ∈ s.out
    · exact ⟨_, _, if_pos hc, fun _ => ⟨_, h.free hc⟩, fun hg => absurd trivial hg⟩
    · simp [Run.Defined, step, hc] at hd

end step

/-! ## Runs -/

theorem inv_init (heap : Addr → Connection) (hw : 1 ≤ cfg.mWorkerConnections) :
    Inv cfg ⟨Pool.init cfg heap, []⟩
      ((List.range' 0 (cfg.mWorkerConnections.toNat - 1 + 1)).map (Addr.mk 0)) := by
  have hpos : cfg.mWorkerConnections.toNat - 1 + 1 = cfg.mWorkerConnections.toNat := by omega
  have halloc : ∀ a, (Pool.init cfg heap).Allocated a ↔
      a.block = 0 ∧ a.idx < cfg.mWorkerConnections.toNat := by
    intro a
    have happ := @allocated_append a ⟨fun _ => .zero, [], none, 0, 0⟩ (Pool.init cfg heap)
      cfg.mWorkerConnections.toNat rfl
    rw [happ]
    simp [Pool.Allocated]
  have hmax : cfg.mConnectionNMax = cfg.mWorkerConnections + cfg.mWorkerConnections / 2 := by
    rw [Conf.mConnectionNMax, Int.tdiv_eq_ediv_of_nonneg (by omega)]
  exact {
    links := (Pool.init_free cfg heap).links
    mem := fun a => by
      rw [mem_newBlock, hpos, halloc]
      simp
    out := fun a ha => absurd ha List.not_mem_nil
    nodup := List.nodup_nil
    total := by simp [hpos, Pool.size, Pool.init]
    count := by
      simp only [Pool.size, Pool.init, List.sum_singleton]
      omega
    limit := by
      rw [hmax]
      change cfg.mWorkerConnections ≤ _
      omega
    full := fun he => by simp at he }

/-- **The pool stays well formed** in every state of a run of calls, from the pool of
`ngx_epoll_init` on, if and only if it grows by whole steps of 16 elements. -/
theorem wellFormed_iff (cfg : Conf) (heap : Addr → Connection) (hw : 1 ≤ cfg.mWorkerConnections)
    (is : List PoolOp)
    (hv : Run.Guarded (step cfg) (Run.Defined (step cfg)) ⟨Pool.init cfg heap, []⟩ is) :
    Run.Always (step cfg) (WellFormed cfg) ⟨Pool.init cfg heap, []⟩ is ↔
      Run.Guarded (step cfg) (GrowsWhole cfg) ⟨Pool.init cfg heap, []⟩ is := by
  have h₀ := inv_init heap hw
  refine Run.always_iff_guarded (I := fun s => ∃ xs, Inv cfg s xs) ?_ ⟨_, h₀⟩ h₀.wellFormed hv
  rintro s i ⟨xs, h⟩ - hd
  obtain ⟨t, o, ht, hgood, hbad⟩ := step_wellFormed h hd
  refine ⟨t, o, ht, ⟨fun hp => ?_, fun hg => ?_⟩, fun hp => ?_⟩
  · by_contra hg
    exact hbad hg hp
  · obtain ⟨ys, hy⟩ := hgood hg
    exact hy.wellFormed
  · by_cases hg : GrowsWhole cfg s i
    · exact hgood hg
    · exact absurd hp (hbad hg)

/-- A pool of 32 grows by 16 to its limit of 48 and is used up. -/
theorem wellFormed_forty_eight :
    Run.Always (step ⟨32, .etClose, 0, 100, 10⟩) (WellFormed ⟨32, .etClose, 0, 100, 10⟩)
      ⟨Pool.init ⟨32, .etClose, 0, 100, 10⟩ fun _ => .zero, []⟩
      (List.replicate 49 (.get 5) ++ [.free ⟨1, 3⟩, .get 6]) :=
  (wellFormed_iff ⟨32, .etClose, 0, 100, 10⟩ (fun _ => .zero) (by decide) _
    (by decide +kernel)).mpr (by decide +kernel)

/-- **A pool of two** has room for one more: the list leads behind the block allocated for it. -/
theorem not_wellFormed :
    ¬ ∀ (cfg : Conf) (heap : Addr → Connection), 1 ≤ cfg.mWorkerConnections →
      ∀ is : List PoolOp,
      Run.Guarded (step cfg) (Run.Defined (step cfg)) ⟨Pool.init cfg heap, []⟩ is →
      Run.Always (step cfg) (WellFormed cfg) ⟨Pool.init cfg heap, []⟩ is := by
  intro hall
  have ha := hall ⟨2, .etClose, 0, 100, 10⟩ (fun _ => .zero) (by decide) [.get 5, .get 6]
    (by decide +kernel)
  have hw := ha.last (Option.some_get (by decide +kernel)).symm
  obtain ⟨xs, hx, -, hmem⟩ := hw.free
  have hhead : Links _ (some ⟨1, 0⟩) xs := hx
  obtain ⟨ys, rfl, hy⟩ := hhead.tail
  have hnext : Links _ (some ⟨1, 1⟩) ys := hy
  obtain ⟨zs, rfl, -⟩ := hnext.tail
  obtain ⟨⟨n, hn, hlt⟩, -⟩ := (hmem ⟨1, 1⟩).mp (by simp)
  have hblocks : some 1 = some n := hn
  cases hblocks
  exact absurd hlt (by decide)

/-! ## The free counter -/

/-- **The free counter counts the free list**, and the other elements are out. -/
def Counted (s : Lease) : Prop :=
  ∃ xs, Links s.pool.next s.pool.mPfreeConnections xs ∧
    s.pool.mFreeConnectionN = xs.length ∧
    s.pool.mConnectionN - s.pool.mFreeConnectionN = s.out.length

/-- The last free slot is taken only where the limit is reached. -/
def NeverGrows (cfg : Conf) (s : Lease) : PoolOp → Prop
  | .get _ => ∀ c, s.pool.mPfreeConnections = some c → s.pool.next c = none →
      s.pool.mConnectionN = cfg.mConnectionNMax
  | .free _ => True

instance (cfg : Conf) (s : Lease) : ∀ i, Decidable (NeverGrows cfg s i)
  | .get _ =>
    match hc : s.pool.mPfreeConnections with
    | none => isTrue fun c h => by simp [hc] at h
    | some c => decidable_of_iff
        (s.pool.next c = none → s.pool.mConnectionN = cfg.mConnectionNMax)
        ⟨fun h d hd => by cases hc.symm.trans hd; exact h, fun h => h c hc⟩
  | .free _ => isTrue trivial

section counter

variable {p q : Pool}

theorem NeverGrows.growsWhole {i : PoolOp} (h : NeverGrows cfg s i) : GrowsWhole cfg s i := by
  cases i with
  | get isock => exact fun c hc hn => Or.inl (h c hc hn)
  | free c => exact trivial

/-- What `ngx_get_connection` does to the two counters. -/
theorem counters_get {isock : ℤ} (h : p.ngxGetConnection cfg isock = some (c, q)) :
    p.mPfreeConnections = some c ∧ q.mFreeConnectionN = p.mFreeConnectionN - 1 ∧
      q.mConnectionN = p.mConnectionN + if p.next c = none then crateNum cfg p else 0 := by
  have hhead : p.mPfreeConnections = some c := by
    obtain ⟨d, hd, he⟩ := Option.map_eq_some_iff.mp h
    cases he
    exact hd
  rw [get_eq isock hhead] at h
  cases h
  refine ⟨hhead, ?_, ?_⟩
  · by_cases hn : p.next c = none
    · simp only [handOut, Pool.set, if_pos hn, Pool.moreConnectionPool]
      split_ifs <;> rfl
    · simp only [handOut, Pool.set, if_neg hn]
  · by_cases hn : p.next c = none
    · by_cases hk : crateNum cfg p = 0
      · have hmore : p.moreConnectionPool cfg createConNum c = p := if_pos hk
        simp only [handOut, Pool.set, if_pos hn, hmore, hk, add_zero]
      · simp only [handOut, Pool.set, if_pos hn, Pool.moreConnectionPool]
        exact congrArg Pool.mConnectionN (if_neg hk)
    · simp only [handOut, Pool.set, if_neg hn, add_zero]

theorem crateNum_eq_zero : crateNum cfg p = 0 ↔ p.mConnectionN = cfg.mConnectionNMax := by
  unfold crateNum createConNum
  split_ifs with hroom <;> omega

theorem Inv.counted_iff_outstanding (h : s.Inv cfg xs) : s.Counted ↔
    s.pool.mConnectionN - s.pool.mFreeConnectionN = s.out.length := by
  have htotal := h.total
  have hcount := h.count
  constructor
  · rintro ⟨ys, -, -, hout⟩
    exact hout
  · intro hout
    exact ⟨xs, h.links, by omega, hout⟩

/-- **One call**: the counter stays right exactly if the pool does not grow. -/
theorem step_counted (h : s.Inv cfg xs) (hc : s.Counted) {i : PoolOp}
    (hd : Run.Defined (step cfg) s i) :
    ∃ t o, s.step cfg i = some (t, o) ∧ (NeverGrows cfg s i → ∃ ys, t.Inv cfg ys) ∧
      (t.Counted ↔ NeverGrows cfg s i) := by
  obtain ⟨t, o, ht, hgood, -⟩ := step_wellFormed h hd
  have hinv : NeverGrows cfg s i → ∃ ys, t.Inv cfg ys := fun hg => hgood hg.growsWhole
  have hout := h.counted_iff_outstanding.mp hc
  refine ⟨t, o, ht, hinv, ?_⟩
  -- the slots out are counted exactly under the guard
  have hkey : t.pool.mConnectionN - t.pool.mFreeConnectionN = t.out.length ↔
      NeverGrows cfg s i := by
    cases i with
    | free c =>
      rw [step] at ht
      split_ifs at ht with hc
      cases ht
      refine iff_of_true ?_ trivial
      have hpos := List.length_pos_of_mem hc
      rw [List.length_erase_of_mem hc]
      simp only [Pool.ngxFreeConnection, Pool.set]
      omega
    | get isock =>
      cases hget : s.pool.ngxGetConnection cfg isock with
      | none =>
        rw [step, hget] at ht
        cases ht
        refine iff_of_true hout fun c hc => ?_
        rw [Pool.ngxGetConnection, hc] at hget
        cases hget
      | some r =>
        obtain ⟨c, q⟩ := r
        obtain ⟨hhead, hfree, hnum⟩ := counters_get hget
        rw [step, hget] at ht
        cases ht
        have hguard : NeverGrows cfg s (.get isock) ↔
            (s.pool.next c = none → crateNum cfg s.pool = 0) := by
          rw [crateNum_eq_zero, NeverGrows]
          simp [hhead]
        rw [hguard]
        simp only [hfree, hnum, List.length_cons]
        split_ifs with hn
        · simp only [hn, true_imp_iff]
          omega
        · simp only [hn, false_imp_iff, iff_true]
          omega
  constructor
  · rintro ⟨ys, -, -, ho⟩
    exact hkey.mp ho
  · intro hg
    obtain ⟨ys, hy⟩ := hinv hg
    exact hy.counted_iff_outstanding.mpr (hkey.mpr hg)

end counter

/-- **The counter stays right** in every state of a run of calls, from the pool of
`ngx_epoll_init` on, if and only if no call makes the pool grow. -/
theorem counted_iff (cfg : Conf) (heap : Addr → Connection) (hw : 1 ≤ cfg.mWorkerConnections)
    (is : List PoolOp)
    (hv : Run.Guarded (step cfg) (Run.Defined (step cfg)) ⟨Pool.init cfg heap, []⟩ is) :
    Run.Always (step cfg) Counted ⟨Pool.init cfg heap, []⟩ is ↔
      Run.Guarded (step cfg) (NeverGrows cfg) ⟨Pool.init cfg heap, []⟩ is := by
  have h₀ := inv_init heap hw
  refine Run.always_iff_guarded (I := fun s => ∃ xs, Inv cfg s xs) ?_ ⟨_, h₀⟩
    (h₀.counted_iff_outstanding.mpr (sub_self _)) hv
  rintro s i ⟨xs, h⟩ hc hd
  obtain ⟨t, o, ht, hinv, hiff⟩ := step_counted h hc hd
  exact ⟨t, o, ht, hiff, fun hp => hinv (hiff.mp hp)⟩

/-- A pool of 4 of which three slots are taken and returned. -/
theorem counted_four :
    Run.Always (step ⟨4, .etClose, 0, 100, 10⟩) Counted
      ⟨Pool.init ⟨4, .etClose, 0, 100, 10⟩ fun _ => .zero, []⟩
      [.get 5, .get 6, .free ⟨0, 0⟩, .get 7, .get 8, .free ⟨0, 2⟩] :=
  (counted_iff ⟨4, .etClose, 0, 100, 10⟩ (fun _ => .zero) (by decide) _
    (by decide +kernel)).mpr (by decide +kernel)

/-- **A pool of 32 that grows**: 16 slots are free, and the counter is at 0. -/
theorem not_counted :
    ¬ ∀ (cfg : Conf) (heap : Addr → Connection), 1 ≤ cfg.mWorkerConnections →
      ∀ is : List PoolOp,
      Run.Guarded (step cfg) (Run.Defined (step cfg)) ⟨Pool.init cfg heap, []⟩ is →
      Run.Always (step cfg) Counted ⟨Pool.init cfg heap, []⟩ is := by
  intro hall
  have ha := hall ⟨32, .etClose, 0, 100, 10⟩ (fun _ => .zero) (by decide)
    (List.replicate 32 (.get 5)) (by decide +kernel)
  have hc := ha.last (Option.some_get (by decide +kernel)).symm
  obtain ⟨-, -, -, hout⟩ := hc
  exact absurd hout (by decide +kernel)

end Lease

end ServerNginx
