import ServerNginx.Lib.Vec
import ServerNginx.Misc.Limits

set_option autoImplicit false

/-!
# The vectors of the thread pool

`PackBuf` and `ThreadBuf` beside the pool. A `WorkThread` is started with a reference to its element
of `PackBuf`. It has finished when its future is ready, a while after `WorkThread` has returned.
`RecycleThread` holds `CThreadMutex` for a whole pass; only what needs no lock happens in between.

* `Buffers.step`: a step of the pool, a future that becomes ready, or a step of a pass;
* `Buffers.Steady`: the vectors match and fit in what was reserved, and the reference of every
  thread that has not finished leads to its own element;
* **`steady_iff`**: this holds all along a run exactly when the manager counts the slots of workers
  that have exited, and nothing but finished workers stands behind one that is erased.
-/

namespace ServerNginx

/-- `CThread` with its vectors; an element is known by the number of its thread. -/
structure Buffers (Task : Type) where
  pool : ThreadPool Task
  packBuf : Vec ℕ
  threadBuf : List ℕ
  /-- what each thread was started with -/
  refs : List Vec.Ref
  /-- the threads whose future is ready -/
  ready : List ℕ
  /-- `Pit` and `Tit`, in a pass of `RecycleThread` -/
  pass : Option (ℕ × ℕ)

/-- What happens in the pool and in its vectors. -/
inductive BufStep (Task : Type)
  | pool (e : PoolStep Task)
  /-- the future of thread `i`, which has returned, becomes ready -/
  | ready (i : ℕ)
  /-- `RecycleThread` locks `CThreadMutex` -/
  | lock
  /-- an iteration of its loop -/
  | examine
  /-- the loop is over -/
  | unlock

namespace Buffers

variable {Task : Type}

/-- `emplace_back` on both vectors, for thread `t`. -/
def emplace (s : Buffers Task) (t : ℕ) : Buffers Task :=
  let r := s.packBuf.emplaceBack t
  { s with packBuf := r.1, threadBuf := s.threadBuf ++ [t], refs := s.refs ++ [r.2] }

/-- The loop that starts `n` threads. -/
def emplaces : Buffers Task → ℕ → Buffers Task
  | s, 0 => s
  | s, n + 1 => (s.emplace s.refs.length).emplaces n

/-- `CThread::CThread`, for `Tmin < Tmax`. -/
def construct (Task : Type) (Tmin Tmax : ℤ) : Buffers Task :=
  emplaces ⟨.construct Task Tmin Tmax, .reserved Tmax.toNat, [], [], [], none⟩ Tmin.toNat

/-- The step locks `CThreadMutex`. -/
def TakesLock (s : ThreadPool Task) : PoolStep Task → Prop
  | .addTask .. | .sleep _ | .proceed _ => False
  | .check _ | .finish _ | .sample | .recycle _ => True
  | .adjust _ =>
    match s.manager with
    | .sampled busy live tasknum => s.grows live tasknum ∨ s.shrinks busy live
    | _ => False

instance (s : ThreadPool Task) : (e : PoolStep Task) → Decidable (TakesLock s e)
  | .addTask .. | .sleep _ | .proceed _ => isFalse id
  | .check _ | .finish _ | .sample | .recycle _ => isTrue trivial
  | .adjust ws =>
    match h : s.manager with
    | .sampled busy live tasknum =>
      decidable_of_iff (s.grows live tasknum ∨ s.shrinks busy live) (by simp [TakesLock, h])
    | .absent | .sleeping => isFalse (by simp [TakesLock, h])

/-- A step of the pool, and the elements of the threads it starts. -/
def poolStep (s : Buffers Task) (e : PoolStep Task) :
    Option (Buffers Task × List (PoolOut Task)) :=
  (s.pool.step e).map fun r =>
    ({ s with pool := r.1 }.emplaces (r.1.threads.length - s.pool.threads.length), r.2)

/-- An iteration of `RecycleThread`. -/
def recycleThread (s : Buffers Task) (pit tit : ℕ) : Option (Buffers Task) :=
  match s.threadBuf[tit]? with
  | none => none
  | some i =>
    if i ∈ s.ready then
      if pit < s.packBuf.cells.length then
        some { s with
          pool := s.pool.moved i .recycled
          packBuf := s.packBuf.erase pit
          threadBuf := s.threadBuf.eraseIdx tit }
      else none
    else some { s with pass := some (pit + 1, tit + 1) }

/-- One step. The erasing of `PoolStep` is the pass. -/
def step (s : Buffers Task) : BufStep Task → Option (Buffers Task × List (PoolOut Task))
  | .pool (.recycle _) => none
  | .pool e => if s.pass.isSome ∧ TakesLock s.pool e then none else s.poolStep e
  | .ready i =>
    match s.pool.threads[i]? with
    | some .exited => if i ∈ s.ready then none else some ({ s with ready := i :: s.ready }, [])
    | _ => none
  | .lock =>
    if s.pass = none ∧ ¬ s.pool.locked ∧ s.pool.shutdown = false then
      some ({ s with pass := some (0, 0) }, [])
    else none
  | .examine =>
    match s.pass with
    | some (pit, tit) => (s.recycleThread pit tit).map fun s' => (s', [])
    | none => none
  | .unlock =>
    match s.pass with
    | some (_, tit) =>
      if tit = s.threadBuf.length then some ({ s with pass := none }, []) else none
    | none => none

/-- The reference of thread `i` leads to its own element. -/
def Stays (s : Buffers Task) (i : ℕ) : Prop := s.refs[i]?.bind s.packBuf.get = some i

/-- **No running worker's element has moved.** -/
structure Steady (s : Buffers Task) : Prop where
  matching : s.packBuf.cells = s.threadBuf
  reserved : (s.packBuf.cells.length : ℤ) ≤ s.pool.maxNum
  stays : ∀ i < s.pool.threads.length, i ∉ s.ready → s.Stays i

theorem steady_iff_and (s : Buffers Task) : Steady s ↔ s.packBuf.cells = s.threadBuf ∧
    (s.packBuf.cells.length : ℤ) ≤ s.pool.maxNum ∧
    ∀ i < s.pool.threads.length, i ∉ s.ready → s.refs[i]?.bind s.packBuf.get = some i :=
  ⟨fun h => ⟨h.1, h.2, h.3⟩, fun h => ⟨h.1, h.2.1, h.2.2⟩⟩

instance (s : Buffers Task) : Decidable (Steady s) := decidable_of_iff' _ (steady_iff_and s)

/-- Where the manager starts threads, there is room for them beside every slot not yet erased; where
a pass comes to a worker that has finished, all behind it have finished too. -/
def Orderly (s : Buffers Task) : BufStep Task → Prop
  | .pool (.adjust _) =>
    match s.pool.manager with
    | .sampled _ live tasknum => s.pool.grows live tasknum →
      (s.packBuf.cells.length : ℤ) + s.pool.growth live ≤ s.pool.maxNum
    | _ => True
  | .examine =>
    match s.pass with
    | some (_, tit) => (∀ i ∈ s.threadBuf[tit]?, i ∈ s.ready) →
      ∀ j ∈ s.threadBuf.drop tit, j ∈ s.ready
    | none => True
  | _ => True

instance (s : Buffers Task) : (e : BufStep Task) → Decidable (s.Orderly e)
  | .pool (.adjust ws) =>
    match h : s.pool.manager with
    | .sampled busy live tasknum =>
      decidable_of_iff (s.pool.grows live tasknum →
        (s.packBuf.cells.length : ℤ) + s.pool.growth live ≤ s.pool.maxNum) (by simp [Orderly, h])
    | .absent | .sleeping => isTrue (by simp [Orderly, h])
  | .examine =>
    match h : s.pass with
    | some (pit, tit) =>
      decidable_of_iff ((∀ i ∈ s.threadBuf[tit]?, i ∈ s.ready) →
        ∀ j ∈ s.threadBuf.drop tit, j ∈ s.ready) (by simp [Orderly, h])
    | none => isTrue (by simp [Orderly, h])
  | .pool (.addTask ..) | .pool (.check _) | .pool (.sleep _) | .pool (.proceed _)
  | .pool (.finish _) | .pool .sample | .pool (.recycle _) | .ready _ | .lock | .unlock =>
    isTrue trivial

/-- What the vectors count on. -/
structure Sound (s : Buffers Task) : Prop where
  nodup : s.packBuf.cells.Nodup
  lt : ∀ i ∈ s.packBuf.cells, i < s.refs.length
  refs : s.refs.length = s.pool.threads.length
  capacity : s.packBuf.capacity = s.pool.maxNum.toNat
  pass : ∀ c ∈ s.pass, c.1 = c.2

variable {s s' : Buffers Task} {p : ThreadPool Task} {o : List (PoolOut Task)} {n : ℕ}

/-! ## Starting threads -/

theorem emplaces_shape (n : ℕ) : ∀ s : Buffers Task,
    (s.emplaces n).pool = s.pool ∧ (s.emplaces n).ready = s.ready ∧
    (s.emplaces n).pass = s.pass ∧ (s.emplaces n).refs.length = s.refs.length + n ∧
    (s.emplaces n).packBuf.cells = s.packBuf.cells ++ List.range' s.refs.length n ∧
    (s.emplaces n).threadBuf = s.threadBuf ++ List.range' s.refs.length n := by
  induction n with
  | zero => intro s; simp [emplaces]
  | succ n ih =>
    intro s
    obtain ⟨hpool, hready, hpass, hrefs, hcells, hbuf⟩ := ih (s.emplace s.refs.length)
    have hlen : (s.emplace s.refs.length).refs.length = s.refs.length + 1 := by simp [emplace]
    rw [hlen] at hrefs hcells hbuf
    refine ⟨hpool, hready, hpass, ?_, ?_, ?_⟩
    · rw [emplaces, hrefs]
      omega
    · rw [emplaces, hcells, List.range'_succ]
      simp [emplace, Vec.cells_emplaceBack]
    · rw [emplaces, hbuf, List.range'_succ]
      simp [emplace]

/-- Below the capacity a new element moves no other, and the new reference is right. -/
theorem emplace_stays (h : s.packBuf.cells.length < s.packBuf.capacity) {i : ℕ}
    (hi : i < s.refs.length + 1) (hs : i < s.refs.length → s.Stays i) :
    (s.emplace s.refs.length).Stays i := by
  rcases Nat.lt_succ_iff_lt_or_eq.mp hi with hlt | rfl
  · obtain ⟨r, hr, hget⟩ := Option.bind_eq_some_iff.mp (hs hlt)
    refine Option.bind_eq_some_iff.mpr ⟨r, ?_, Vec.get_emplaceBack h hget⟩
    exact (List.getElem?_append_left hlt).trans hr
  · exact Option.bind_eq_some_iff.mpr ⟨_, List.getElem?_concat_length, Vec.get_back h⟩

/-- **Within the capacity** nothing moves. -/
theorem emplaces_stays (n : ℕ) : ∀ s : Buffers Task,
    s.packBuf.cells.length + n ≤ s.packBuf.capacity →
    (s.emplaces n).packBuf.capacity = s.packBuf.capacity ∧
      ∀ i < s.refs.length + n, (i < s.refs.length → s.Stays i) → (s.emplaces n).Stays i := by
  induction n with
  | zero => exact fun s _ => ⟨rfl, fun i hi hs => hs hi⟩
  | succ n ih =>
    intro s hn
    have hlt : s.packBuf.cells.length < s.packBuf.capacity := by omega
    have hcap : (s.emplace s.refs.length).packBuf.capacity = s.packBuf.capacity := by
      simp only [emplace, Vec.emplaceBack_of_lt hlt]
    have hlen : (s.emplace s.refs.length).packBuf.cells.length = s.packBuf.cells.length + 1 := by
      simp [emplace, Vec.cells_emplaceBack]
    have hrefs : (s.emplace s.refs.length).refs.length = s.refs.length + 1 := by simp [emplace]
    obtain ⟨hcap', hstays⟩ := ih (s.emplace s.refs.length) (by omega)
    refine ⟨hcap'.trans hcap, fun i hi hs => hstays i (by omega) fun hi' => ?_⟩
    exact emplace_stays hlt (by omega) hs

theorem sound_emplaces (hI : Sound s) (hm : p.maxNum = s.pool.maxNum)
    (hl : p.threads.length = s.pool.threads.length + n)
    (h : s.packBuf.cells.length + n ≤ s.packBuf.capacity) :
    Sound ({ s with pool := p }.emplaces n) := by
  obtain ⟨hpool, -, hpass, hrefs, hcells, -⟩ := emplaces_shape n { s with pool := p }
  refine ⟨?_, ?_, ?_, ?_, by rw [hpass]; exact hI.pass⟩
  · rw [hcells]
    refine List.Nodup.append hI.nodup List.nodup_range' fun i hi hj => ?_
    exact absurd (hI.lt i hi) (Nat.not_lt.mpr (List.mem_range'_1.mp hj).1)
  · intro i hi
    rw [hcells, List.mem_append] at hi
    rw [hrefs]
    rcases hi with hi | hi
    · exact (hI.lt i hi).trans_le (Nat.le_add_right _ _)
    · exact (List.mem_range'_1.mp hi).2
  · rw [hrefs, hpool]
    show s.refs.length + n = p.threads.length
    rw [hI.refs, hl]
  · rw [(emplaces_stays n { s with pool := p } h).1, hpool]
    show s.packBuf.capacity = p.maxNum.toNat
    rw [hI.capacity, hm]

/-- **Where `n` threads are started**, everything stays exactly if there is room. -/
theorem steady_emplaces (hI : Sound s) (hP : Steady s) (hm : p.maxNum = s.pool.maxNum)
    (hl : p.threads.length = s.pool.threads.length + n) :
    (Steady ({ s with pool := p }.emplaces n) ↔
      (s.packBuf.cells.length : ℤ) + n ≤ s.pool.maxNum) ∧
    (Steady ({ s with pool := p }.emplaces n) → Sound ({ s with pool := p }.emplaces n)) := by
  obtain ⟨hpool, hready, -, -, hcells, hbuf⟩ := emplaces_shape n { s with pool := p }
  have hlen : ({ s with pool := p }.emplaces n).packBuf.cells.length =
      s.packBuf.cells.length + n := by
    rw [hcells, List.length_append, List.length_range']
  have hmax : ({ s with pool := p }.emplaces n).pool.maxNum = s.pool.maxNum := by
    rw [hpool, ← hm]
  have hiff : Steady ({ s with pool := p }.emplaces n) ↔
      (s.packBuf.cells.length : ℤ) + n ≤ s.pool.maxNum := by
    constructor
    · intro h
      have := h.reserved
      rwa [hlen, hmax, Nat.cast_add] at this
    · intro h
      obtain ⟨-, hstays⟩ := emplaces_stays n { s with pool := p } (by
        show s.packBuf.cells.length + n ≤ s.packBuf.capacity
        rw [hI.capacity]
        omega)
      refine ⟨?_, ?_, fun i hi hni => hstays i ?_ fun hlt => ?_⟩
      · rw [hcells, hbuf, hP.matching]
      · rwa [hlen, hmax, Nat.cast_add]
      · rw [hpool] at hi
        show i < s.refs.length + n
        rw [hI.refs, ← hl]
        exact hi
      · rw [hready] at hni
        exact hP.stays i (hI.refs ▸ hlt) hni
  refine ⟨hiff, fun h => sound_emplaces hI hm hl ?_⟩
  have := hiff.mp h
  rw [hI.capacity]
  omega

/-! ## One step -/

theorem threads_of_moves {e : PoolStep Task} (h : ThreadPool.Moves s.pool e p o) :
    p.maxNum = s.pool.maxNum ∧ s.pool.threads.length ≤ p.threads.length ∧
      ((s.packBuf.cells.length : ℤ) ≤ s.pool.maxNum → (s.Orderly (.pool e) ↔
        (s.packBuf.cells.length : ℤ) + (p.threads.length - s.pool.threads.length : ℕ) ≤
          s.pool.maxNum)) := by
  have same : ∀ ts : List (Place Task), ts.length = s.pool.threads.length →
      s.pool.threads.length ≤ ts.length ∧ ((s.packBuf.cells.length : ℤ) ≤ s.pool.maxNum →
        (s.packBuf.cells.length : ℤ) + (ts.length - s.pool.threads.length : ℕ) ≤
          s.pool.maxNum) := by
    intro ts hts
    rw [hts, Nat.sub_self]
    exact ⟨le_rfl, fun h => by simpa using h⟩
  have set_len : ∀ (i : ℕ) (q : Place Task),
      (s.pool.threads.set i q).length = s.pool.threads.length := fun _ _ => List.length_set
  have map_len : ∀ ts : List (Place Task), ts.map (fun _ => ()) =
      s.pool.threads.map (fun _ => ()) → ts.length = s.pool.threads.length := fun ts h => by
    simpa using congrArg List.length h
  cases h with
  | addTask hw =>
    obtain ⟨h1, h2⟩ := same _ (map_len _ (ThreadPool.map_notifyOne hw rfl))
    exact ⟨rfl, h1, fun h => iff_of_true trivial (h2 h)⟩
  | @grow busy live tasknum ws hm hg hl =>
    have hpos := (ThreadPool.growth_le hg).1
    have hlen : (s.pool.createThreads (s.pool.growth live)).threads.length =
        s.pool.threads.length + (s.pool.growth live).toNat := by
      simp [ThreadPool.createThreads]
    refine ⟨rfl, by dsimp only; omega, fun _ => ?_⟩
    have horderly : s.Orderly (.pool (.adjust ws)) ↔
        (s.packBuf.cells.length : ℤ) + s.pool.growth live ≤ s.pool.maxNum := by
      simp only [Orderly, hm, hg, forall_const]
    rw [horderly]
    dsimp only
    omega
  | shrink hm hg hr hl hn hw =>
    obtain ⟨h1, h2⟩ := same _ (map_len _ (ThreadPool.map_notifyEach hw rfl))
    refine ⟨rfl, h1, fun h => iff_of_true ?_ (h2 h)⟩
    simp only [Orderly, hm]
    exact fun hgrow => absurd hgrow hg
  | rest hm hg hr =>
    obtain ⟨h1, h2⟩ := same s.pool.threads rfl
    refine ⟨rfl, h1, fun h => iff_of_true ?_ (h2 h)⟩
    simp only [Orderly, hm]
    exact fun hgrow => absurd hgrow hg
  | retire | sample =>
    obtain ⟨h1, h2⟩ := same s.pool.threads rfl
    exact ⟨rfl, h1, fun h => iff_of_true trivial (h2 h)⟩
  | _ =>
    obtain ⟨h1, h2⟩ := same _ (set_len _ _)
    exact ⟨rfl, h1, fun h => iff_of_true trivial (h2 h)⟩

/-- An erase moves the elements that stand behind it, and no other. -/
theorem stays_erase_iff {pit i : ℕ} (hI : Sound s) (hi : s.Stays i) :
    s.refs[i]?.bind (s.packBuf.erase pit).get = some i ↔ i ∉ s.packBuf.cells.drop pit := by
  obtain ⟨r, hr, hget⟩ := Option.bind_eq_some_iff.mp hi
  rw [hr, Option.bind_some]
  exact Vec.get_erase_iff_notMem hI.nodup hget

/-- **A pass keeps everything in its place** exactly if nothing but finished workers stands behind
the one it erases. -/
theorem steady_recycleThread {pit tit : ℕ} (hI : Sound s) (hP : Steady s)
    (hpass : s.pass = some (pit, tit)) (hs : s.recycleThread pit tit = some s') :
    (Steady s' ↔ s.Orderly .examine) ∧ Sound s' := by
  obtain rfl : pit = tit := hI.pass _ hpass
  have horderly : s.Orderly .examine ↔ ((∀ i ∈ s.threadBuf[pit]?, i ∈ s.ready) →
      ∀ j ∈ s.threadBuf.drop pit, j ∈ s.ready) := by
    simp only [Orderly, hpass]
  rw [horderly]
  unfold recycleThread at hs
  cases hi : s.threadBuf[pit]? with
  | none => rw [hi] at hs; cases hs
  | some i =>
    simp only [hi] at hs
    split_ifs at hs with hready hlt
    · cases hs
      have hfinished : ∀ k ∈ some i, k ∈ s.ready := by
        rintro k ⟨⟩
        exact hready
      have hmoved : (s.pool.moved i .recycled).threads.length = s.pool.threads.length :=
        List.length_set
      constructor
      · constructor
        · intro hsteady _ j hj
          by_contra hnj
          rw [← hP.matching] at hj
          have hjlt : j < s.pool.threads.length := hI.refs ▸ hI.lt j (List.mem_of_mem_drop hj)
          have hstays := hsteady.stays j (hmoved.symm ▸ hjlt) hnj
          exact (stays_erase_iff hI (hP.stays j hjlt hnj)).mp hstays hj
        · intro hall
          refine ⟨?_, ?_, fun j hj hnj => ?_⟩
          · show s.packBuf.cells.eraseIdx pit = s.threadBuf.eraseIdx pit
            rw [hP.matching]
          · have := hP.reserved
            show ((s.packBuf.cells.eraseIdx pit).length : ℤ) ≤ s.pool.maxNum
            rw [List.length_eraseIdx_of_lt hlt]
            omega
          · refine (stays_erase_iff hI (hP.stays j (hmoved ▸ hj) hnj)).mpr fun hmem => ?_
            rw [hP.matching] at hmem
            exact hnj (hall hfinished j hmem)
      · exact ⟨List.Nodup.eraseIdx pit hI.nodup,
          fun j hj => hI.lt j (List.mem_of_mem_eraseIdx hj), hI.refs.trans hmoved.symm,
          hI.capacity, hI.pass⟩
    · cases hs
      refine ⟨iff_of_true ⟨hP.1, hP.2, hP.3⟩ fun h => absurd (h i rfl) hready, ?_⟩
      exact ⟨hI.nodup, hI.lt, hI.refs, hI.capacity, by rintro c ⟨⟩; rfl⟩

/-- **One step.** Everything stays in place exactly under the guard. -/
theorem steady_step {e : BufStep Task} (hI : Sound s) (hP : Steady s)
    (hs : s.step e = some (s', o)) : (Steady s' ↔ s.Orderly e) ∧ (Steady s' → Sound s') := by
  cases e with
  | pool e =>
    have hpool : s.poolStep e = some (s', o) := by
      cases e with
      | recycle i => cases hs
      | _ => exact (Option.ite_none_left_eq_some.mp hs).2
    obtain ⟨⟨p, o⟩, hp, h⟩ := Option.map_eq_some_iff.mp hpool
    cases h
    obtain ⟨hm, hle, horderly⟩ := threads_of_moves (ThreadPool.moves_of_step hp)
    obtain ⟨hiff, hsound⟩ := steady_emplaces (n := p.threads.length - s.pool.threads.length)
      hI hP hm (by omega)
    exact ⟨hiff.trans (horderly hP.reserved).symm, hsound⟩
  | ready i =>
    simp only [step] at hs
    split at hs
    · obtain ⟨hni, hs⟩ := Option.ite_none_left_eq_some.mp hs
      cases hs
      refine ⟨iff_of_true ⟨hP.1, hP.2, fun j hj hnj => hP.stays j hj ?_⟩ trivial, fun _ => ?_⟩
      · exact fun hmem => hnj (List.mem_cons_of_mem _ hmem)
      · exact ⟨hI.1, hI.2, hI.3, hI.4, hI.5⟩
    · cases hs
  | lock =>
    obtain ⟨-, hs⟩ := Option.ite_none_right_eq_some.mp hs
    cases hs
    exact ⟨iff_of_true ⟨hP.1, hP.2, hP.3⟩ trivial,
      fun _ => ⟨hI.1, hI.2, hI.3, hI.4, by rintro c ⟨⟩; rfl⟩⟩
  | unlock =>
    simp only [step] at hs
    split at hs
    · obtain ⟨-, hs⟩ := Option.ite_none_right_eq_some.mp hs
      cases hs
      exact ⟨iff_of_true ⟨hP.1, hP.2, hP.3⟩ trivial, fun _ => ⟨hI.1, hI.2, hI.3, hI.4, nofun⟩⟩
    · cases hs
  | examine =>
    simp only [step] at hs
    split at hs
    · next pit tit hpass =>
      obtain ⟨t, ht, h⟩ := Option.map_eq_some_iff.mp hs
      cases h
      obtain ⟨hiff, hsound⟩ := steady_recycleThread hI hP hpass ht
      exact ⟨hiff, fun _ => hsound⟩
    · cases hs

/-! ## Every run -/

variable (Task) in
theorem steady_construct {Tmin Tmax : ℤ} (h : Tmin < Tmax) :
    (Steady (construct Task Tmin Tmax) ↔ 0 ≤ Tmax) ∧
      (0 ≤ Tmax → Sound (construct Task Tmin Tmax)) := by
  -- the vectors before the loop, beside a pool without threads
  have hI : Sound (⟨{ ThreadPool.construct Task Tmin Tmax with threads := [] },
      .reserved Tmax.toNat, [], [], [], none⟩ : Buffers Task) :=
    ⟨List.nodup_nil, nofun, rfl, rfl, nofun⟩
  by_cases h0 : 0 ≤ Tmax
  · have hP : Steady (⟨{ ThreadPool.construct Task Tmin Tmax with threads := [] },
        .reserved Tmax.toNat, [], [], [], none⟩ : Buffers Task) :=
      ⟨rfl, h0, fun i hi => absurd hi (Nat.not_lt_zero i)⟩
    obtain ⟨hiff, hsound⟩ := steady_emplaces (p := ThreadPool.construct Task Tmin Tmax)
      (n := Tmin.toNat) hI hP rfl (by simp [ThreadPool.construct])
    have hroom : (([] : List ℕ).length : ℤ) + Tmin.toNat ≤ Tmax := by
      rw [List.length_nil]
      omega
    have hsteady : Steady (construct Task Tmin Tmax) := hiff.mpr hroom
    exact ⟨iff_of_true hsteady h0, fun _ => hsound hsteady⟩
  · refine ⟨iff_of_false (fun hs => ?_) h0, fun h => absurd h h0⟩
    have hlen : ((construct Task Tmin Tmax).packBuf.cells.length : ℤ) ≤
        (construct Task Tmin Tmax).pool.maxNum := hs.reserved
    rw [construct, (emplaces_shape _ _).1] at hlen
    have : (0 : ℤ) ≤ Tmax := (Int.natCast_nonneg _).trans hlen
    exact h0 this

/-- **The element of a running worker stays where it is, and when.** Along a run of the pool the
vectors match, keep to what was reserved, and move no element of a worker that has not finished,
exactly when `Tmax` is not negative and every step is orderly. -/
theorem steady_iff (Tmin Tmax : ℤ) (h : Tmin < Tmax) (es : List (BufStep Task))
    (hr : Run.Guarded step (Run.Defined step) (construct Task Tmin Tmax) es) :
    Run.Always step Steady (construct Task Tmin Tmax) es ↔
      0 ≤ Tmax ∧ Run.Guarded step Orderly (construct Task Tmin Tmax) es := by
  obtain ⟨hiff, hsound⟩ := steady_construct Task h
  by_cases h0 : 0 ≤ Tmax
  · rw [and_iff_right h0]
    refine Run.always_iff_guarded (I := Sound) ?_ (hsound h0) (hiff.mpr h0) hr
    intro s e hI hP hv
    obtain ⟨⟨s', o⟩, hs⟩ := Option.isSome_iff_exists.mp hv
    obtain ⟨hstep, hsound'⟩ := steady_step hI hP hs
    exact ⟨s', o, hs, hstep, hsound'⟩
  · exact iff_of_false (fun ha => h0 (hiff.mp ha.head)) fun ha => h0 ha.1

/-- Two workers are started, exit and are erased, behind one that stays. -/
theorem steady_iff_run : Run.Always step Steady (construct ℕ 1 3)
    ([.addTask 7 none, .sample, .adjust [], .check 0, .proceed 0, .finish 0, .check 1, .sleep 1,
      .sample, .adjust [some 1, none], .check 1, .proceed 1, .check 2, .proceed 2].map .pool ++
      [.ready 1, .ready 2, .lock, .examine, .examine, .examine, .unlock]) := by
  refine (steady_iff 1 3 (by decide) _ ?_).mpr ⟨by decide, ?_⟩
  · decide +kernel
  · decide +kernel

/-- **An element moves**: the first of three workers exits, and a pass shifts the two that run. -/
theorem not_steady : ¬ ∀ (Tmin Tmax : ℤ) (es : List (BufStep ℕ)), 0 ≤ Tmin → Tmin < Tmax →
    Run.Guarded step (Run.Defined step) (construct ℕ Tmin Tmax) es →
      Run.Always step Steady (construct ℕ Tmin Tmax) es := by
  intro hall
  have := hall 1 3 ([.addTask 7 none, .sample, .adjust [], .check 0, .proceed 0, .finish 0,
    .sample, .adjust [none, none], .check 0, .proceed 0].map .pool ++
      [.ready 0, .lock, .examine]) (by decide) (by decide) (by decide +kernel)
  exact absurd this (by decide +kernel)

end Buffers

end ServerNginx
