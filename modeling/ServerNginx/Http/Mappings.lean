import ServerNginx.Http.Announced
import ServerNginx.Http.Filed
import ServerNginx.Http.History
import ServerNginx.Lib.Ledger
import ServerNginx.Lib.Run

set_option autoImplicit false

/-!
# File mappings over the requests of an object

`do_request` maps a file and keeps its address in `m_file_ptr`; every call of `WriteData` reads what
`m_iov` shows and unmaps what `m_file_ptr` points to. No call resets `m_file_ptr`.

* `exchange`: the mappings made, read and unmapped for a request and the calls of `WriteData` behind
  it;
* `Paced`: one call of `WriteData` for every mapping `m_file_ptr` gets, and none for `MAP_FAILED`;
* **`mappings_settled_iff`**: every mapping is unmapped once and read before that exactly where the
  calls are `Paced` and each of them comes while `m_stat` and `m_iov` are those of the mapping.
-/

namespace ServerNginx

open CString Ledger

/-- The number of the mapping a pointer shows. -/
def FilePtr.id : FilePtr → Option ℕ
  | .mapped id _ => some id
  | _ => none

/-- The pages of `len` bytes. -/
def pages (page : ℕ) (len : ℤ) : ℤ := (len + page - 1) / page

namespace HttpServer

variable (page : ℕ) (h : HttpServer)

/-! ## `WriteData` -/

/-- What writing a segment reads of files. -/
def writeSegment (v : Iovec) : List (Op ℕ) :=
  match v.iovBase with
  | .file p _ => if v.iovLen = 0 then [] else [.use p.id]
  | _ => []

/-- The pointers into files that `m_iov` shows, each with a byte to read at least. -/
def shown : List FilePtr :=
  (h.mIov.take h.mIovCount).filterMap fun v =>
    match v.iovBase with
    | .file p _ => if v.iovLen = 0 then none else some p
    | _ => none

/-- `munmap(m_file_ptr, m_stat.st_size)`: the mapping it ends, if there is one of that many
pages. -/
def munmap : Option ℕ :=
  match h.mFilePtr with
  | .mapped id content =>
    if pages page h.mStat.stSize = pages page content.length then some id else none
  | _ => none

/-- `if(m_file_ptr != nullptr) munmap(...)`. -/
def unmapFile : List (Op ℕ) := if h.mFilePtr = .null then [] else [.drop (h.munmap page)]

/-- `HttpWriteData`: `writev` on `m_iov`. -/
def httpWriteData : List (Op ℕ) := h.shown.map (fun p => .use p.id) ++ h.unmapFile page

/-- `HttpsWriteData`: `Write` on one segment of `m_iov` after the other. -/
def httpsWriteData : List (Op ℕ) :=
  (h.mIov.take h.mIovCount).flatMap writeSegment ++ h.unmapFile page

/-- The class of the object. -/
inductive Scheme
  | http
  | https
  deriving DecidableEq

/-- `WriteData`. -/
def Scheme.writeData : Scheme → HttpServer → List (Op ℕ)
  | .http, h => h.httpWriteData page
  | .https, h => h.httpsWriteData page

/-- `mmap` in `do_request`, for the packet `h` has processed. -/
def opened : List (Op ℕ) := if h.mFilePtr.id = some h.pkt then [.create h.pkt] else []

/-! ## Runs -/

/-- The objects behind the requests of a connection, each with the calls of `WriteData` made before
the next one. -/
def exchanges : HttpServer → List (Req × ℕ) → Except Fault (List (HttpServer × ℕ))
  | _, [] => .ok []
  | h, (r, n) :: rs => do
    let p ← business r.env h r.pkgHeader r.body
    let us ← exchanges p.obj rs
    .ok ((p.obj, n) :: us)

/-- What a request and its calls of `WriteData` do to mappings. -/
def exchange (s : Scheme) (u : HttpServer × ℕ) : List (Op ℕ) :=
  u.1.opened ++ (List.replicate u.2 (s.writeData page u.1)).flatten

/-- The calls there are to be while `m_file_ptr` holds `p`. -/
def Served (p : FilePtr) (n : ℕ) : Prop :=
  match p with
  | .null => True
  | .mapFailed => n = 0
  | .mapped _ _ => n = 1

instance decidableServed : ∀ (p : FilePtr) (n : ℕ), Decidable (Served p n)
  | .null, _ => isTrue trivial
  | .mapFailed, n => inferInstanceAs (Decidable (n = 0))
  | .mapped _ _, n => inferInstanceAs (Decidable (n = 1))

/-- **Calls at the right pace**, where `n` have been made since `m_file_ptr` became `p`. -/
def Paced : FilePtr → ℕ → List (HttpServer × ℕ) → Prop
  | p, n, [] => Served p n
  | p, n, (h, m) :: us =>
    if h.mFilePtr = p then Paced p (n + m) us else Served p n ∧ Paced h.mFilePtr m us

instance decidablePaced : ∀ (p : FilePtr) (n : ℕ) (us : List (HttpServer × ℕ)),
    Decidable (Paced p n us)
  | p, n, [] => inferInstanceAs (Decidable (Served p n))
  | p, n, (h, m) :: us =>
    have := decidablePaced p (n + m) us
    have := decidablePaced h.mFilePtr m us
    inferInstanceAs (Decidable
      (if h.mFilePtr = p then Paced p (n + m) us else Served p n ∧ Paced h.mFilePtr m us))

/-- `m_stat` is that of the mapping, and `m_iov` shows no other. -/
structure Current (h : HttpServer) : Prop where
  size : h.mFilePtr.id ≠ none → h.munmap page ≠ none
  shown : ∀ p ∈ h.shown, p.id ≠ none ∧ p.id = h.mFilePtr.id

instance (h : HttpServer) : Decidable (Current page h) :=
  have := List.decidableBAll (fun p : FilePtr => p.id ≠ none ∧ p.id = h.mFilePtr.id) h.shown
  decidable_of_iff ((h.mFilePtr.id ≠ none → h.munmap page ≠ none) ∧
    ∀ p ∈ h.shown, p.id ≠ none ∧ p.id = h.mFilePtr.id)
    ⟨fun hc => ⟨hc.1, hc.2⟩, fun hc => ⟨hc.size, hc.shown⟩⟩

variable {page} {h} {g : HttpServer} {s : Scheme} {p : FilePtr} {n m : ℕ} {live : List ℕ}
  {ops : List (Op ℕ)} {us : List (HttpServer × ℕ)}

/-! ## Calls of `WriteData` -/

theorem httpsWriteData_eq : h.httpsWriteData page = h.httpWriteData page := by
  unfold httpsWriteData httpWriteData shown
  congr 1
  induction h.mIov.take h.mIovCount with
  | nil => rfl
  | cons v vs ih =>
    rw [List.flatMap_cons, List.filterMap_cons, ih]
    unfold writeSegment
    cases v.iovBase with
    | file p off =>
      dsimp only
      split_ifs <;> rfl
    | _ => rfl

theorem writeData_eq : s.writeData page h = h.httpWriteData page := by
  cases s with
  | http => rfl
  | https => exact httpsWriteData_eq

/-- The mappings there are after `n` calls of `WriteData` with `p` in `m_file_ptr`. -/
def Holds (p : FilePtr) (n : ℕ) (live : List ℕ) : Prop :=
  match p with
  | .null => live = []
  | .mapFailed => n = 0 ∧ live = []
  | .mapped id _ => n = 0 ∧ live = [id] ∨ n = 1 ∧ live = []

theorem Holds.unique {live' : List ℕ} (hl : Holds p n live) (hl' : Holds p n live') :
    live = live' := by
  cases p with
  | null => exact hl.trans hl'.symm
  | mapFailed => exact hl.2.trans hl'.2.symm
  | mapped id content =>
    rcases hl with ⟨h0, rfl⟩ | ⟨h0, rfl⟩ <;> rcases hl' with ⟨h1, rfl⟩ | ⟨h1, rfl⟩ <;>
      first | rfl | omega

theorem Holds.of_add (hl : Holds p (n + m) live) : ∃ live', Holds p n live' := by
  cases p with
  | null => exact ⟨[], rfl⟩
  | mapFailed => exact ⟨[], Nat.eq_zero_of_add_eq_zero_right hl.1, rfl⟩
  | mapped id content =>
    have hn : n = 0 ∨ n = 1 := by
      rcases hl with ⟨h0, -⟩ | ⟨h0, -⟩ <;> omega
    rcases hn with rfl | rfl
    · exact ⟨[id], Or.inl ⟨rfl, rfl⟩⟩
    · exact ⟨[], Or.inr ⟨rfl, rfl⟩⟩

theorem Holds.served_iff (hl : Holds p n live) : Served p n ↔ live = [] := by
  cases p with
  | null => exact iff_of_true trivial hl
  | mapFailed => exact iff_of_true hl.1 hl.2
  | mapped id content =>
    rcases hl with ⟨rfl, rfl⟩ | ⟨rfl, rfl⟩
    · exact iff_of_false Nat.zero_ne_one (List.cons_ne_nil _ _)
    · exact iff_of_true rfl rfl

theorem Holds.eq_singleton (hl : Holds p n live) (hne : live ≠ []) :
    ∃ id ∈ p.id, live = [id] := by
  cases p with
  | null => exact absurd hl hne
  | mapFailed => exact absurd hl.2 hne
  | mapped id content =>
    rcases hl with ⟨-, rfl⟩ | ⟨-, rfl⟩
    · exact ⟨id, rfl, rfl⟩
    · exact absurd rfl hne

theorem Served.holds (hs : Served p n) : ∃ live, Holds p n live := by
  cases p with
  | null => exact ⟨[], rfl⟩
  | mapFailed => exact ⟨[], hs, rfl⟩
  | mapped id content => exact ⟨[], Or.inr ⟨hs, rfl⟩⟩

/-- **One call of `WriteData`.** -/
theorem settled_writeData (hl : Holds g.mFilePtr n live) :
    Settled live (s.writeData page g ++ ops) ↔ Current page g ∧
      ∃ live', Holds g.mFilePtr (n + 1) live' ∧ Settled live' ops := by
  have huses : (g.shown.map fun p => Op.use p.id) = (g.shown.map FilePtr.id).map .use := by
    rw [List.map_map]
    rfl
  rw [writeData_eq, httpWriteData, List.append_assoc, huses, settled_uses, List.forall_mem_map]
  unfold unmapFile
  cases hp : g.mFilePtr with
  | null =>
    rw [hp] at hl
    obtain rfl : live = [] := hl
    rw [if_pos rfl, List.nil_append]
    constructor
    · rintro ⟨hu, hs⟩
      refine ⟨⟨fun hid => absurd (by rw [hp]; rfl) hid, fun p hpm => ?_⟩, [], rfl, hs⟩
      obtain ⟨b, -, hb⟩ := hu p hpm
      cases hb
    · rintro ⟨hc, live', rfl, hs⟩
      refine ⟨fun p hpm => ?_, hs⟩
      obtain ⟨hne, hid⟩ := hc.shown p hpm
      rw [hp] at hid
      exact absurd hid hne
  | mapFailed =>
    have hnone : g.munmap page = none := by
      unfold munmap
      rw [hp]
    rw [if_neg (by simp), hnone, List.singleton_append]
    refine iff_of_false (fun h => settled_drop_none h.2) ?_
    rintro ⟨-, live', ⟨h0, -⟩, -⟩
    cases h0
  | mapped id content =>
    rw [hp] at hl
    have hid : g.mFilePtr.id = some id := by rw [hp]; rfl
    rw [if_neg (by simp), List.singleton_append]
    have hdrop : g.munmap page = some id ∨ g.munmap page = none := by
      unfold munmap
      rw [hp]
      dsimp only
      split_ifs
      · exact Or.inl rfl
      · exact Or.inr rfl
    rcases hl with ⟨rfl, rfl⟩ | ⟨rfl, rfl⟩
    · rcases hdrop with hd | hd
      · rw [hd, settled_drop_some, List.erase_cons_head]
        constructor
        · rintro ⟨hu, -, hs⟩
          refine ⟨⟨fun _ => by simp [hd], fun p hpm => ?_⟩, [], Or.inr ⟨rfl, rfl⟩, hs⟩
          obtain ⟨b, hb, hmem⟩ := hu p hpm
          rw [List.mem_singleton.mp hmem] at hb
          rw [hid, show p.id = some id from hb]
          simp
        · rintro ⟨hc, live', hl', hs⟩
          obtain ⟨h0, -⟩ | ⟨-, rfl⟩ := hl'
          · cases h0
          · refine ⟨fun p hpm => ⟨id, ?_, List.mem_singleton_self id⟩,
              List.mem_singleton_self id, hs⟩
            exact (hc.shown p hpm).2.trans hid
      · rw [hd]
        refine iff_of_false (fun h => settled_drop_none h.2) fun h => ?_
        exact h.1.size (by simp [hid]) hd
    · refine iff_of_false (fun h => ?_) ?_
      · obtain ⟨b, -, hb, -⟩ := h.2
        cases hb
      · rintro ⟨-, live', ⟨h0, -⟩ | ⟨h0, -⟩, -⟩ <;> cases h0

/-- **Any number of calls of `WriteData`.** -/
theorem settled_calls (m : ℕ) : ∀ {n : ℕ} {live : List ℕ}, Holds g.mFilePtr n live →
    (Settled live ((List.replicate m (s.writeData page g)).flatten ++ ops) ↔
      (m ≠ 0 → Current page g) ∧ ∃ live', Holds g.mFilePtr (n + m) live' ∧ Settled live' ops) := by
  induction m with
  | zero =>
    intro n live hl
    constructor
    · exact fun hs => ⟨fun h0 => absurd rfl h0, live, hl, hs⟩
    · rintro ⟨-, live', hl', hs⟩
      rw [hl.unique hl']
      exact hs
  | succ m ih =>
    intro n live hl
    rw [List.replicate_succ, List.flatten_cons, List.append_assoc, settled_writeData hl]
    constructor
    · rintro ⟨hc, live₁, hl₁, hs⟩
      obtain ⟨-, live₂, hl₂, hs⟩ := (ih hl₁).mp hs
      exact ⟨fun _ => hc, live₂, by rwa [Nat.add_assoc, Nat.add_comm 1] at hl₂, hs⟩
    · rintro ⟨hc, live₂, hl₂, hs⟩
      have hl₂ : Holds g.mFilePtr (n + 1 + m) live₂ := by rwa [Nat.add_assoc, Nat.add_comm 1]
      obtain ⟨live₁, hl₁⟩ := hl₂.of_add
      exact ⟨hc (Nat.succ_ne_zero m), live₁, hl₁,
        (ih hl₁).mpr ⟨fun _ => hc (Nat.succ_ne_zero m), live₂, hl₂, hs⟩⟩

/-! ## From request to request -/

/-- What a request does to `m_file_ptr`. -/
structure Next (h g : HttpServer) : Prop where
  pkt : g.pkt = h.pkt + 1
  ptr : g.mFilePtr = h.mFilePtr ∨ g.mFilePtr = .mapFailed ∨
    ∃ content, g.mFilePtr = .mapped g.pkt content

/-- `m_file_ptr` shows no mapping of a packet to come. -/
def Aged (h : HttpServer) : Prop := ∀ id ∈ h.mFilePtr.id, id ≤ h.pkt

theorem Next.aged (hn : Next h g) (ha : Aged h) : Aged g := by
  intro id hid
  have hpkt := hn.pkt
  rcases hn.ptr with hp | hp | ⟨content, hp⟩
  · rw [hp] at hid
    have := ha id hid
    omega
  · rw [hp] at hid
    cases hid
  · rw [hp] at hid
    cases hid
    exact le_rfl

/-- **One request** makes the next object of a run. -/
theorem business_next {env : Env} {pkgHeader body : List UInt8} (hs : Stage h)
    (hb : body.length < 2 ^ 16) : Post (business env h pkgHeader body) (fun _ => True)
      fun r => Next h r.obj := by
  unfold business
  refine (processRead_filed env (hs.sound.receive hb)).bind fun q hq => ?_
  obtain ⟨code, k⟩ := q
  dsimp only
  cases hr : reply env pkgHeader code k with
  | error e => exact trivial
  | ok r =>
    obtain ⟨g, len, hg, -, -, -, bytes, hobj⟩ := reply_eq_ok hr
    have hbeside := ((processWrite_post code).of_ok hg).1
    have hpkt : r.obj.pkt = k.pkt := (congrArg HttpServer.pkt hobj :).trans
      (congrArg HttpServer.pkt hbeside :)
    have hptr : r.obj.mFilePtr = k.mFilePtr := (congrArg mFilePtr hobj :).trans
      (congrArg mFilePtr hbeside :)
    refine ⟨hpkt.trans hq.pkt, ?_⟩
    rw [hptr, hpkt]
    by_cases hsends : SendsFile k code
    · obtain ⟨path, content, hf, -, -⟩ := hq.sends hsends
      exact Or.inr (Or.inr ⟨content, hf⟩)
    · rcases hq.keeps hsends with hf | hf
      · exact Or.inl hf
      · exact Or.inr (Or.inl hf)

theorem Next.id_ne (hn : Next h g) (hp : g.mFilePtr ≠ h.mFilePtr) {id : ℕ} (hle : id ≤ h.pkt) :
    g.mFilePtr.id ≠ some id := by
  have hpkt := hn.pkt
  rcases hn.ptr with hp' | hp' | ⟨content, hp'⟩
  · exact absurd hp' hp
  · rw [hp']
    simp [FilePtr.id]
  · rw [hp']
    intro hid
    cases hid
    omega

/-- Each object is the next one after the one before. -/
def Chained : HttpServer → List (HttpServer × ℕ) → Prop
  | _, [] => True
  | h, (g, _) :: us => Next h g ∧ Chained g us

theorem exchanges_chained (rs : List (Req × ℕ)) : ∀ {h : HttpServer}, Stage h →
    (∀ r ∈ rs, r.1.Valid) → Post (exchanges h rs) (fun _ => True) (Chained h) := by
  induction rs with
  | nil => exact fun _ _ => trivial
  | cons r rs ih =>
    intro h hs hv
    obtain ⟨r, n⟩ := r
    rw [List.forall_mem_cons] at hv
    have hnext : Post (business r.env h r.pkgHeader r.body) (fun _ => True) fun p => Next h p.obj :=
      business_next hs hv.1
    rw [exchanges]
    cases hb : business r.env h r.pkgHeader r.body with
    | error e => exact trivial
    | ok p =>
      refine (ih ((business_post hs hv.1).of_ok hb).stage hv.2).bind fun us hus => ?_
      exact ⟨hnext.of_ok hb, hus⟩

theorem id_of_munmap {id : ℕ} (hm : h.munmap page = some id) : h.mFilePtr.id = some id := by
  unfold munmap at hm
  split at hm
  · rename_i hp
    split_ifs at hm
    cases hm
    rw [hp]
    rfl
  · cases hm

/-- Only what is in `m_file_ptr` is unmapped. -/
theorem id_of_drop {u : HttpServer × ℕ} {id : ℕ} (hd : .drop (some id) ∈ exchange page s u) :
    u.1.mFilePtr.id = some id := by
  rcases List.mem_append.mp hd with hd | hd
  · unfold opened at hd
    split_ifs at hd <;> simp at hd
  · obtain ⟨ops, hops, hd⟩ := List.mem_flatten.mp hd
    rw [List.eq_of_mem_replicate hops, writeData_eq] at hd
    rcases List.mem_append.mp hd with hd | hd
    · simp at hd
    · unfold unmapFile at hd
      split_ifs at hd
      · cases hd
      · rw [List.mem_singleton, Op.drop.injEq] at hd
        exact id_of_munmap hd.symm

/-- A mapping that has left `m_file_ptr` does not come back. -/
theorem not_drop_of_chained (us : List (HttpServer × ℕ)) : ∀ {g : HttpServer} {id : ℕ},
    Chained g us → g.mFilePtr.id ≠ some id → id ≤ g.pkt →
      .drop (some id) ∉ us.flatMap (exchange page s) := by
  induction us with
  | nil => exact fun _ _ _ => List.not_mem_nil
  | cons u us ih =>
    intro g id hc hne hle hd
    obtain ⟨k, n⟩ := u
    obtain ⟨hnext, hc⟩ := hc
    have hpkt := hnext.pkt
    have hk : k.mFilePtr.id ≠ some id := by
      by_cases hp : k.mFilePtr = g.mFilePtr
      · rwa [hp]
      · exact hnext.id_ne hp hle
    rcases List.mem_append.mp (List.flatMap_cons ▸ hd) with hd | hd
    · exact hk (id_of_drop hd)
    · exact ih hc hk (by omega) hd

theorem Paced.holds (us : List (HttpServer × ℕ)) : ∀ {p : FilePtr} {n : ℕ}, Paced p n us →
    ∃ live, Holds p n live := by
  induction us with
  | nil => exact fun hp => Served.holds hp
  | cons u us ih =>
    intro p n hp
    obtain ⟨g, m⟩ := u
    rw [Paced] at hp
    split_ifs at hp
    · obtain ⟨live, hl⟩ := ih hp
      exact hl.of_add
    · exact hp.1.holds

theorem settled_opened (hn : Next h g) (hne : g.mFilePtr ≠ h.mFilePtr) :
    ∃ live, Holds g.mFilePtr 0 live ∧ ∀ ops : List (Op ℕ),
      Settled [] (g.opened ++ ops) ↔ Settled live ops := by
  rcases hn.ptr with hp | hp | ⟨content, hp⟩
  · exact absurd hp hne
  · refine ⟨[], by rw [hp]; exact ⟨rfl, rfl⟩, fun ops => ?_⟩
    rw [opened, hp, if_neg (by simp [FilePtr.id]), List.nil_append]
  · refine ⟨[g.pkt], by rw [hp]; exact Or.inl ⟨rfl, rfl⟩, fun ops => ?_⟩
    rw [opened, hp, if_pos (by rfl)]
    rfl

/-- **From any point of a run on**, the mappings are settled exactly where the calls keep their pace
and come in time. -/
theorem settled_iff_of_holds (us : List (HttpServer × ℕ)) : ∀ {h : HttpServer} {n : ℕ}
    {live : List ℕ}, Chained h us → Aged h → Holds h.mFilePtr n live →
      (Settled live (us.flatMap (exchange page s)) ↔ Paced h.mFilePtr n us ∧
        ∀ u ∈ us, u.2 ≠ 0 → Current page u.1) := by
  induction us with
  | nil =>
    intro h n live _ _ hl
    rw [List.flatMap_nil, settled_nil, Paced, hl.served_iff]
    exact (and_iff_left fun u hu => absurd hu List.not_mem_nil).symm
  | cons u us ih =>
    intro h n live hc ha hl
    obtain ⟨g, m⟩ := u
    obtain ⟨hnext, hc⟩ := hc
    have hga := hnext.aged ha
    rw [List.flatMap_cons, Paced, List.forall_mem_cons, exchange, List.append_assoc]
    -- the calls behind this request, and then the rest of the run
    have hcalls : ∀ {n : ℕ} {live : List ℕ}, Holds g.mFilePtr n live →
        (Settled live ((List.replicate m (s.writeData page g)).flatten ++
          us.flatMap (exchange page s)) ↔
            Paced g.mFilePtr (n + m) us ∧ (m ≠ 0 → Current page g) ∧
              ∀ u ∈ us, u.2 ≠ 0 → Current page u.1) := by
      intro n live hl
      rw [settled_calls m hl]
      constructor
      · rintro ⟨hcur, live', hl', hs⟩
        obtain ⟨hp, hall⟩ := (ih hc hga hl').mp hs
        exact ⟨hp, hcur, hall⟩
      · rintro ⟨hp, hcur, hall⟩
        obtain ⟨live', hl'⟩ := hp.holds
        exact ⟨hcur, live', hl', (ih hc hga hl').mpr ⟨hp, hall⟩⟩
    by_cases hp : g.mFilePtr = h.mFilePtr
    · have hopened : g.opened = [] := by
        refine if_neg fun hid => ?_
        rw [hp] at hid
        have hle := ha _ hid
        have hpkt := hnext.pkt
        omega
      rw [hopened, List.nil_append, if_pos hp, ← hp]
      rw [← hp] at hl
      exact hcalls hl
    · rw [if_neg hp]
      by_cases hlive : live = []
      · subst hlive
        obtain ⟨live, hl₀, hs⟩ := settled_opened hnext hp
        rw [hs, hcalls hl₀, Nat.zero_add, hl.served_iff]
        tauto
      · -- the mapping is replaced while it is there
        refine iff_of_false ?_ fun hr => hlive (hl.served_iff.mp hr.1.1)
        obtain ⟨id, hid, rfl⟩ := hl.eq_singleton hlive
        have hle := ha id hid
        have hpkt := hnext.pkt
        have hne := hnext.id_ne hp hle
        rw [← List.append_assoc]
        refine not_settled_of_mem (List.mem_singleton_self id) fun hd => ?_
        rcases List.mem_append.mp hd with hd | hd
        · exact hne (@id_of_drop page s (g, m) id hd)
        · exact not_drop_of_chained us hc hne (by omega) hd

/-- **The mappings of a run are settled** exactly where `WriteData` is called once for every mapping
and never for `MAP_FAILED`, while `m_stat` and `m_iov` are those of the mapping. -/
theorem mappings_settled_iff (page : ℕ) (s : Scheme) (u : Uninit) (rs : List (Req × ℕ))
    (us : List (HttpServer × ℕ)) (hv : ∀ r ∈ rs, r.1.Valid) (hrun : exchanges (new u) rs = .ok us) :
    Settled [] (us.flatMap (exchange page s)) ↔
      Paced .null 0 us ∧ ∀ v ∈ us, v.2 ≠ 0 → Current page v.1 := by
  have hchained : Chained (new u) us := (exchanges_chained rs (stage_new u) hv).of_ok hrun
  have haged : Aged (new u) := fun id hid => by cases hid
  exact settled_iff_of_holds us hchained haged rfl

/-! ## Once each -/

theorem writeData_ne_create {id : ℕ} : .create id ∉ s.writeData page g := by
  rw [writeData_eq]
  intro hc
  rcases List.mem_append.mp hc with hc | hc
  · simp at hc
  · unfold unmapFile at hc
    split_ifs at hc <;> simp at hc

theorem count_create_exchange {u : HttpServer × ℕ} {id : ℕ} :
    (exchange page s u).count (.create id) =
      if u.1.pkt = id ∧ u.1.mFilePtr.id = some id then 1 else 0 := by
  have hcalls : ((List.replicate u.2 (s.writeData page u.1)).flatten).count (.create id) = 0 := by
    refine List.count_eq_zero.mpr fun hc => ?_
    obtain ⟨ops, hops, hc⟩ := List.mem_flatten.mp hc
    rw [List.eq_of_mem_replicate hops] at hc
    exact writeData_ne_create hc
  rw [exchange, List.count_append, hcalls, Nat.add_zero, opened]
  by_cases hpkt : u.1.pkt = id
  · subst hpkt
    by_cases hid : u.1.mFilePtr.id = some u.1.pkt <;> simp [hid]
  · have hnot : ¬ (u.1.pkt = id ∧ u.1.mFilePtr.id = some id) := fun h => hpkt h.1
    rw [if_neg hnot]
    split_ifs
    · exact List.count_eq_zero.mpr fun hc => hpkt (Op.create.inj (List.mem_singleton.mp hc)).symm
    · rfl

theorem count_create_le (us : List (HttpServer × ℕ)) : ∀ {h : HttpServer} {id : ℕ},
    Chained h us →
      (us.flatMap (exchange page s)).count (.create id) ≤ if id ≤ h.pkt then 0 else 1 := by
  induction us with
  | nil => exact fun _ => Nat.zero_le _
  | cons u us ih =>
    intro h id hc
    obtain ⟨g, n⟩ := u
    obtain ⟨hnext, hc⟩ := hc
    have hpkt := hnext.pkt
    have hrest := @ih g id hc
    rw [List.flatMap_cons, List.count_append, count_create_exchange]
    dsimp only
    split_ifs at hrest ⊢ <;> omega

/-- **In a settled run** a mapping that a request makes is unmapped once. -/
theorem count_munmap {u : Uninit} {rs : List (Req × ℕ)} (hv : ∀ r ∈ rs, r.1.Valid)
    (hrun : exchanges (new u) rs = .ok us) (hs : Settled [] (us.flatMap (exchange page s)))
    {v : HttpServer × ℕ} (hmem : v ∈ us) (hid : v.1.mFilePtr.id = some v.1.pkt) :
    (us.flatMap (exchange page s)).count (.drop (some v.1.pkt)) = 1 := by
  have hchained : Chained (new u) us := (exchanges_chained rs (stage_new u) hv).of_ok hrun
  have hle := @count_create_le page s us _ v.1.pkt hchained
  have hone : (exchange page s v).count (.create v.1.pkt) = 1 := by
    rw [count_create_exchange, if_pos ⟨rfl, hid⟩]
  have hpos : .create v.1.pkt ∈ us.flatMap (exchange page s) :=
    List.mem_flatMap.mpr ⟨v, hmem, List.count_pos_iff.mp (by omega)⟩
  have hcount := List.count_pos_iff.mpr hpos
  rw [hs.count_drop, List.count_nil]
  split_ifs at hle <;> omega

/-- A request for a file of ten bytes. -/
def fileRequest : Req :=
  ⟨.tenBytes, List.replicate 8 0, ascii "GET http://h/x HTTP/1.1\r\n\r\n"⟩

theorem fileRequest_valid : fileRequest.Valid := by
  unfold Req.Valid
  decide

/-- A response that is sent by one call of `WriteData`. -/
theorem mappings_settled_once : ∃ us, exchanges (new .zero) [(fileRequest, 1)] = .ok us ∧
    Settled [] (us.flatMap (exchange 4096 .http)) := by
  obtain ⟨us, hrun, hcheck⟩ := Run.exists_of_any
    (show ((exchanges (new .zero) [(fileRequest, 1)]).toOption.any fun us =>
      decide (Paced .null 0 us ∧ ∀ v ∈ us, v.2 ≠ 0 → Current 4096 v.1)) = true by decide +kernel)
  have hrun := eq_ok_of_toOption hrun
  have hv : ∀ r ∈ [(fileRequest, 1)], r.1.Valid := by simp [fileRequest_valid]
  exact ⟨us, hrun, (mappings_settled_iff 4096 .http .zero _ us hv hrun).mpr
    (of_decide_eq_true hcheck)⟩

/-- A response that takes two calls of `WriteData`: the second unmaps the file again. -/
theorem mappings_not_settled : ¬ ∀ (page : ℕ) (s : Scheme) (u : Uninit) (rs : List (Req × ℕ))
    (us : List (HttpServer × ℕ)), (∀ r ∈ rs, r.1.Valid) → exchanges (new u) rs = .ok us →
      Settled [] (us.flatMap (exchange page s)) := by
  intro hall
  obtain ⟨us, hrun, hcheck⟩ := Run.exists_of_any
    (show ((exchanges (new .zero) [(fileRequest, 2)]).toOption.any fun us =>
      decide (¬ Settled [] (us.flatMap (exchange 4096 .http)))) = true by decide +kernel)
  exact of_decide_eq_true hcheck (hall 4096 .http .zero _ us (by simp [fileRequest_valid])
    (eq_ok_of_toOption hrun))

end HttpServer

end ServerNginx
