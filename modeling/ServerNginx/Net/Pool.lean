import ServerNginx.Lib.Links
import ServerNginx.Net.Connection

set_option autoImplicit false

/-!
# The connection pool

Connection objects live in blocks. `mem` gives the contents of every address, behind the end of a
block too: `More_Connection_Pool` links 16 elements whatever the size of the block it allocates,
and the model lets it write there. Free objects are linked through `next`.

* `init_free`: the first free list;
* `ngxGetConnection_free`: taking an object removes it from the list, which may grow by a block;
* `ngxFreeConnection_free`: returning an object the list does not hold puts it in front.
-/

namespace ServerNginx

/-- `CREATECONNUM`. -/
def createConNum : ℕ := 16

/-- The pool members of `CSocket`. -/
structure Pool where
  mem : Addr → Connection
  /-- the number of elements of each block -/
  mPconnections : List ℕ
  mPfreeConnections : Option Addr
  mConnectionN : ℤ
  mFreeConnectionN : ℤ

namespace Pool

/-- The links of the objects. -/
def next (p : Pool) (a : Addr) : Option Addr := (p.mem a).next

/-- Assign an object. -/
def set (p : Pool) (a : Addr) (c : Connection) : Pool :=
  { p with mem := Function.update p.mem a c }

/-- The loop that links `k` elements of a block from `i` on, and ends the list at the next one. -/
def linkLoop (block : ℕ) : ℕ → ℕ → (Addr → Connection) → Addr → Connection
  | i, 0, mem => Function.update mem ⟨block, i⟩ { mem ⟨block, i⟩ with next := none }
  | i, k + 1, mem => linkLoop block (i + 1) k (Function.update mem ⟨block, i⟩
      { mem ⟨block, i⟩ with next := some ⟨block, i + 1⟩, fd := -1, iCurrsequence := 0 })

/-- The pool `ngx_epoll_init` builds; `heap` is what the memory held before. -/
def init (cfg : Conf) (heap : Addr → Connection) : Pool where
  mem :=
    let n := cfg.mWorkerConnections.toNat
    let zeroed := fun a => if a.block = 0 ∧ a.idx < n then Connection.zero else heap a
    linkLoop 0 0 (n - 1) zeroed
  mPconnections := [cfg.mWorkerConnections.toNat]
  mPfreeConnections := some ⟨0, 0⟩
  mConnectionN := cfg.mWorkerConnections
  mFreeConnectionN := cfg.mWorkerConnections

/-- `CSocket::More_Connection_Pool`. -/
def moreConnectionPool (cfg : Conf) (p : Pool) (conNum : ℕ) (c : Addr) : Pool :=
  let crateNum : ℤ :=
    if p.mConnectionN + conNum ≤ cfg.mConnectionNMax then conNum
    else cfg.mConnectionNMax - p.mConnectionN
  if crateNum = 0 then p
  else
    let block := p.mPconnections.length
    let p := p.set c { p.mem c with next := some ⟨block, 0⟩ }
    { p with
      mPconnections := p.mPconnections ++ [crateNum.toNat]
      mem := linkLoop block 0 (conNum - 1) p.mem
      mConnectionN := p.mConnectionN + crateNum }

/-- `CSocket::ngx_get_connection`. -/
def ngxGetConnection (cfg : Conf) (p : Pool) (isock : ℤ) : Option (Addr × Pool) :=
  p.mPfreeConnections.map fun c =>
    let p := if p.next c = none then p.moreConnectionPool cfg createConNum c else p
    let p := { p with
      mPfreeConnections := p.next c
      mFreeConnectionN := p.mFreeConnectionN - 1 }
    (c, p.set c { Connection.zero with
      fd := isock
      iCurrsequence := (p.mem c).iCurrsequence + 1 })

/-- `CSocket::ngx_free_connection`, without the deletion of `logicObj`. -/
def ngxFreeConnection (p : Pool) (c : Addr) : Pool :=
  let p := p.set c { p.mem c with
    next := p.mPfreeConnections
    iCurrsequence := (p.mem c).iCurrsequence + 1 }
  { p with mPfreeConnections := some c, mFreeConnectionN := p.mFreeConnectionN + 1 }

/-- The free list: its links lead through `xs`, objects of the blocks allocated so far. -/
structure Free (p : Pool) (xs : List Addr) : Prop where
  links : Links p.next p.mPfreeConnections xs
  block : ∀ a ∈ xs, a.block < p.mPconnections.length

/-! ## Linking a block -/

section linkLoop

variable {block : ℕ} {mem : Addr → Connection}

theorem linkLoop_of_ne (k : ℕ) : ∀ (i : ℕ) (mem : Addr → Connection) {a : Addr},
    a.block ≠ block ∨ a.idx < i → linkLoop block i k mem a = mem a := by
  induction k with
  | zero =>
    intro i mem a h
    have hne : a ≠ ⟨block, i⟩ := by
      rintro rfl
      simp at h
    exact Function.update_of_ne hne _ _
  | succ k ih =>
    intro i mem a h
    have hne : a ≠ ⟨block, i⟩ := by
      rintro rfl
      simp at h
    rw [linkLoop, ih _ _ (h.imp_right Nat.lt_succ_of_lt), Function.update_of_ne hne]

theorem links_linkLoop (k : ℕ) : ∀ (i : ℕ) (mem : Addr → Connection),
    Links (fun a => (linkLoop block i k mem a).next) (some ⟨block, i⟩)
      ((List.range' i (k + 1)).map (Addr.mk block)) := by
  induction k with
  | zero =>
    intro i mem
    apply Links.cons
    simp only [linkLoop, Function.update_self]
    exact .nil
  | succ k ih =>
    intro i mem
    rw [List.range'_succ, List.map_cons]
    apply Links.cons
    have hlink : (linkLoop block i (k + 1) mem ⟨block, i⟩).next = some ⟨block, i + 1⟩ := by
      rw [linkLoop, linkLoop_of_ne k _ _ (Or.inr (Nat.lt_succ_self i)), Function.update_self]
    rw [hlink]
    exact ih (i + 1) _

end linkLoop

/-- **The first free list** holds the elements of the first block in order. -/
theorem init_free (cfg : Conf) (heap : Addr → Connection) :
    (init cfg heap).Free
      ((List.range' 0 (cfg.mWorkerConnections.toNat - 1 + 1)).map (Addr.mk 0)) where
  links := links_linkLoop _ _ _
  block := by
    intro a ha
    obtain ⟨i, -, rfl⟩ := List.mem_map.mp ha
    exact Nat.one_pos

variable {cfg : Conf} {p p' : Pool} {c : Addr} {isock : ℤ} {xs : List Addr}

theorem Free.nodup (h : p.Free xs) : xs.Nodup := h.links.nodup

/-! ## Taking and returning an object -/

variable (cfg) in
/-- The pool after growing at its last free object `c`: nothing else changes, and the list
behind `c` is the new block, or empty where the limit is reached. -/
theorem moreConnectionPool_spec (conNum : ℕ) (hc : p.next c = none)
    (hb : c.block < p.mPconnections.length) :
    let q := p.moreConnectionPool cfg conNum c
    p.mPconnections.length ≤ q.mPconnections.length ∧
      (∀ a, a ≠ c → a.block < p.mPconnections.length → q.mem a = p.mem a) ∧
      (q.mem c).iCurrsequence = (p.mem c).iCurrsequence ∧
      ∃ ys, Links q.next (q.next c) ys ∧
        ∀ a ∈ ys, p.mPconnections.length ≤ a.block ∧ a.block < q.mPconnections.length := by
  intro q
  by_cases hn : (if p.mConnectionN + conNum ≤ cfg.mConnectionNMax then (conNum : ℤ)
      else cfg.mConnectionNMax - p.mConnectionN) = 0
  · have hq : q = p := if_pos hn
    rw [hq, hc]
    exact ⟨le_rfl, fun _ _ _ => rfl, rfl, [], .nil, by simp⟩
  · have hmem : q.mem = linkLoop p.mPconnections.length 0 (conNum - 1)
        (Function.update p.mem c { p.mem c with next := some ⟨p.mPconnections.length, 0⟩ }) := by
      simp only [q, moreConnectionPool, if_neg hn, set]
    have hlen : q.mPconnections.length = p.mPconnections.length + 1 := by
      simp only [q, moreConnectionPool, if_neg hn, set, List.length_append, List.length_singleton]
    have hqc : q.mem c = { p.mem c with next := some ⟨p.mPconnections.length, 0⟩ } := by
      rw [hmem, linkLoop_of_ne _ _ _ (Or.inl (Nat.ne_of_lt hb)), Function.update_self]
    refine ⟨by omega, fun a ha hab => ?_, by rw [hqc],
      (List.range' 0 (conNum - 1 + 1)).map (Addr.mk p.mPconnections.length), ?_, ?_⟩
    · rw [hmem, linkLoop_of_ne _ _ _ (Or.inl (Nat.ne_of_lt hab)), Function.update_of_ne ha]
    · have hnext : q.next c = some ⟨p.mPconnections.length, 0⟩ := by
        rw [next, hqc]
      rw [hnext]
      unfold next
      rw [hmem]
      exact links_linkLoop _ _ _
    · intro a ha
      obtain ⟨i, -, rfl⟩ := List.mem_map.mp ha
      dsimp only
      omega

/-- What `ngx_get_connection` has done when it hands out `c`, the first of the free list. -/
structure Taken (p : Pool) (c : Addr) (xs : List Addr) (isock : ℤ) (p' : Pool) (ys : List Addr) :
    Prop where
  free : p'.Free ys
  notMem : c ∉ ys
  mem_iff : ∀ a, a.block < p.mPconnections.length → (a ∈ ys ↔ a ∈ xs)
  grows : p.mPconnections.length ≤ p'.mPconnections.length
  conn : p'.mem c = { Connection.zero with
    fd := isock
    iCurrsequence := (p.mem c).iCurrsequence + 1 }
  frame : ∀ a, a ≠ c → a.block < p.mPconnections.length → p'.mem a = p.mem a

theorem Free.set (h : p.Free xs) {a : Addr} (ha : a ∉ xs) (v : Connection) :
    (p.set a v).Free xs where
  links := h.links.congr fun b hb => by
    have hne : b ≠ a := by
      rintro rfl
      exact ha hb
    simp only [next, Pool.set, Function.update_of_ne hne]
  block := h.block

/-- **Taking an object** removes the first of the free list. -/
theorem ngxGetConnection_free (cfg : Conf) (isock : ℤ) (h : p.Free (c :: xs)) :
    ∃ p' ys, p.ngxGetConnection cfg isock = some (c, p') ∧ p.Taken c xs isock p' ys := by
  have hhead : p.mPfreeConnections = some c := by
    have := h.links
    generalize p.mPfreeConnections = q at this
    cases this with
    | cons _ => rfl
  have hlinks : Links p.next (p.next c) xs := by
    have := h.links
    rw [hhead] at this
    obtain ⟨zs, he, hz⟩ := this.tail
    cases he
    exact hz
  have hcb : c.block < p.mPconnections.length := h.block c List.mem_cons_self
  have hnot : c ∉ xs := (List.nodup_cons.mp h.nodup).1
  unfold ngxGetConnection
  rw [hhead, Option.map_some]
  by_cases hc : p.next c = none
  · obtain ⟨hlen, hframe, hseq, ys, hys, hnew⟩ :=
      moreConnectionPool_spec cfg createConNum hc hcb
    have hxs : xs = [] := by
      rw [hc] at hlinks
      exact hlinks.eq_none_iff.mp rfl
    have hcy : c ∉ ys := fun hm => absurd (hnew c hm).1 (by omega)
    simp only [if_pos hc]
    refine ⟨_, ys, rfl, ?_, hcy, fun a ha => ?_, hlen, ?_, fun a hac hab => ?_⟩
    · apply Free.set _ hcy
      exact ⟨hys, fun a ha => (hnew a ha).2⟩
    · rw [hxs]
      exact iff_of_false (fun hm => absurd (hnew a hm).1 (by omega)) List.not_mem_nil
    · simp only [Pool.set, Function.update_self, hseq]
    · simp only [Pool.set, Function.update_of_ne hac, hframe a hac hab]
  · simp only [if_neg hc]
    refine ⟨_, xs, rfl, ?_, hnot, fun a _ => Iff.rfl, le_rfl, ?_, fun a hac _ => ?_⟩
    · apply Free.set _ hnot
      exact ⟨hlinks, fun a ha => h.block a (List.mem_cons_of_mem _ ha)⟩
    · simp only [Pool.set, Function.update_self]
    · simp only [Pool.set, Function.update_of_ne hac]

theorem ngxGetConnection_taken {cfg : Conf} {isock : ℤ} {p' : Pool} (h : p.Free xs)
    (hget : p.ngxGetConnection cfg isock = some (c, p')) :
    ∃ xs' ys, xs = c :: xs' ∧ p.Taken c xs' isock p' ys := by
  cases xs with
  | nil =>
    have hnone : p.mPfreeConnections = none := h.links.eq_none_iff.mpr rfl
    rw [ngxGetConnection, hnone] at hget
    cases hget
  | cons d xs =>
    obtain ⟨q, ys, hq, ht⟩ := ngxGetConnection_free cfg isock h
    rw [hq] at hget
    cases hget
    exact ⟨xs, ys, rfl, ht⟩

/-- **Returning an object** puts it in front of the free list. -/
theorem ngxFreeConnection_free (h : p.Free xs) (hc : c ∉ xs)
    (hb : c.block < p.mPconnections.length) : (p.ngxFreeConnection c).Free (c :: xs) where
  links := by
    have hnext : (p.ngxFreeConnection c).next =
        Function.update p.next c p.mPfreeConnections := by
      funext a
      by_cases ha : a = c
      · subst ha
        simp only [next, ngxFreeConnection, set, Function.update_self]
      · simp only [next, ngxFreeConnection, set, Function.update_of_ne ha]
    rw [hnext]
    exact h.links.push hc
  block := by
    intro a ha
    rcases List.mem_cons.mp ha with rfl | ha
    · exact hb
    · exact h.block a ha

theorem ngxFreeConnection_mem {a : Addr} (h : a ≠ c) :
    (p.ngxFreeConnection c).mem a = p.mem a := by
  simp only [ngxFreeConnection, set, Function.update_of_ne h]

end Pool

end ServerNginx
