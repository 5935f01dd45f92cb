import ServerNginx.Net.Receive

set_option autoImplicit false

/-!
# Framing does not depend on fragmentation

`Aligned c s`: the receiver holds exactly the bytes `s` that the reference framer has not consumed.
A read keeps the receiver aligned (`aligned_step`) unless it is a partial read in `_PKG_BD_RECVING`
that does not take exactly half of `irecvlen`: there the count is set to `ret` instead of being
lowered by it.

* **`framesLike_of_halfRead`**: a run whose reads all meet `HalfRead` hands on the packets of the
  reference framer;
* **`not_framesLike`**: a body that arrives in three pieces is handed on too early.
-/

namespace ServerNginx

/-- The bytes a run of reads takes from the socket. -/
def stream (rds : List Read) : List UInt8 := rds.flatMap Read.data

/-- The packets passed to `threadRecvProcFunc`. -/
def handed (evs : List RecvEv) : List (List Cell) :=
  evs.filterMap fun
    | .msg m => some m.pkg
    | .kick => none

/-- A successful `recv` returns between one byte and what was asked for. -/
def ValidRead (c : Connection) (rd : Read) : Prop :=
  0 < rd.data.length ∧ rd.data.length ≤ c.irecvlen

instance (c : Connection) (rd : Read) : Decidable (ValidRead c rd) :=
  inferInstanceAs (Decidable (_ ∧ _))

/-- If the read calls `TestFlood`, it returns false. -/
def NoFlood (cfg : Conf) (self : Addr) (c : Connection) (rd : Read) : Prop :=
  ∀ p ∈ ngxReadRequestHandler cfg self c rd, RecvEv.kick ∉ p.2

instance (cfg : Conf) (self : Addr) (c : Connection) (rd : Read) :
    Decidable (NoFlood cfg self c rd) := by
  unfold NoFlood
  cases ngxReadRequestHandler cfg self c rd with
  | none => exact isTrue (by simp)
  | some p => exact decidable_of_iff (RecvEv.kick ∉ p.2) (by simp)

/-- A read that leaves a body incomplete in `_PKG_BD_RECVING` takes half of `irecvlen`. -/
def HalfRead (c : Connection) (rd : Read) : Prop :=
  c.curStat = .pkgBdRecving → rd.data.length ≠ c.irecvlen → 2 * rd.data.length = c.irecvlen

instance (c : Connection) (rd : Read) : Decidable (HalfRead c rd) :=
  inferInstanceAs (Decidable (_ → _ → _))

/-- The reads hand on exactly the packets of the reference framer. -/
def FramesLike (cfg : Conf) (self : Addr) (c : Connection) (rds : List Read) : Prop :=
  ∃ c' evs, Run.run (ngxReadRequestHandler cfg self) c rds = some (c', evs) ∧
    handed evs = (pkgFramer.frames (stream rds)).map (List.map some)

/-- **The receiver holds the bytes `s` of an unfinished packet.** -/
inductive Aligned (c : Connection) (s : List UInt8) : Prop
  | head (h : InHead c s.length) (held : c.dataHeadInfo.cells.take s.length = s)
  | body (m : Msg) (h : InBody c m s.length) (ok : PkgLenOk (pkgLen s))
      (size : m.pkg.length = pkgLen s) (held : m.pkg.take s.length = s.map some)
      (hd : iLenPkgHeader ≤ s.length) (pos : 0 < c.irecvlen)
      (len : s.length + c.irecvlen = pkgLen s)

variable {cfg : Conf} {self : Addr}

theorem aligned_of_inHead {c : Connection} (h : InHead c 0) : Aligned c [] :=
  .head h rfl

theorem Aligned.next_eq_none {c : Connection} {s : List UInt8} (h : Aligned c s) :
    nextPkg s = none := by
  cases h with
  | head h held =>
    have := h.len
    have := h.pos
    exact nextPkg_short (by omega)
  | body m h ok size held hd pos len => exact nextPkg_partial ok (by omega)

theorem pkgLen_of_take {b : Block UInt8 dataBufSize} {hd : List UInt8}
    (h : b.cells.take iLenPkgHeader = hd) : pkgLen b.cells = pkgLen hd := by
  rw [← h, pkgLen_take (by decide)]

theorem newMsg_pkg (self : Addr) {c : Connection} {hd : List UInt8} {n : ℕ}
    (h : c.dataHeadInfo.cells.take iLenPkgHeader = hd) (hlen : hd.length = iLenPkgHeader)
    (hn : iLenPkgHeader ≤ n) :
    (c.newMsg self n).pkg.length = n ∧ (c.newMsg self n).pkg.take hd.length = hd.map some := by
  have hm : ((c.dataHeadInfo.cells.take iLenPkgHeader).map some : List Cell) = hd.map some := by
    rw [h]
  constructor
  · simp only [Connection.newMsg, hm, List.length_append, List.length_map, List.length_replicate]
    omega
  · rw [Connection.newMsg, hm, List.take_left' (by simp)]

theorem aligned_header {c : Connection} {hd : List UInt8} (now : UInt64)
    (h : c.dataHeadInfo.cells.take iLenPkgHeader = hd) (hlen : hd.length = iLenPkgHeader)
    (hflood : (ngxWaitRequestHandlerProcP1 cfg self now c).2.2 = false) :
    let r := ngxWaitRequestHandlerProcP1 cfg self now c
    handed r.2.1 = (pkgFramer.frames hd).map (List.map some) ∧ Aligned r.1 (pkgFramer.rest hd) := by
  intro r
  have hpkg := pkgLen_of_take h
  rcases procP1_cases cfg self now c with
    ⟨hbad, hr⟩ | ⟨-, hr⟩ | ⟨heq, c', hc', -, -, hr⟩ | ⟨hok, hgt, hr⟩
  · have hnext : pkgFramer.next hd = some (none, []) := nextPkg_drop hlen (by rwa [← hpkg])
    rw [Framer.frames_of_some hnext, Framer.rest_of_some hnext,
      Framer.frames_of_none Framer.next_nil, Framer.rest_of_none Framer.next_nil]
    simp only [r, hr]
    exact ⟨rfl, aligned_of_inHead (inHead_resetHead c)⟩
  · rw [hr] at hflood
    cases hflood
  · have hn : pkgLen hd = iLenPkgHeader := by rw [← hpkg, heq]
    have hnext : pkgFramer.next hd = some (some hd, []) :=
      nextPkg_full (by rw [hn]; decide) (by omega)
    rw [Framer.frames_of_some hnext, Framer.rest_of_some hnext,
      Framer.frames_of_none Framer.next_nil, Framer.rest_of_none Framer.next_nil]
    obtain ⟨hsize, htake⟩ := newMsg_pkg self (n := pkgLen c.dataHeadInfo.cells) h hlen
      (by omega)
    have hpkgs : (c.newMsg self (pkgLen c.dataHeadInfo.cells)).pkg = hd.map some := by
      rw [← htake, List.take_of_length_le (by omega)]
    simp only [r, hr]
    exact ⟨by simp [handed, hpkgs], aligned_of_inHead hc'⟩
  · have hnext : pkgFramer.next hd = none :=
      nextPkg_partial (by rwa [← hpkg]) (by omega)
    rw [Framer.frames_of_none hnext, Framer.rest_of_none hnext]
    obtain ⟨hsize, htake⟩ := newMsg_pkg self (n := pkgLen c.dataHeadInfo.cells) h hlen
      (by omega)
    simp only [r, hr]
    refine ⟨rfl, .body (c.newMsg self (pkgLen c.dataHeadInfo.cells)) ⟨Or.inl rfl, rfl, ?_⟩
      (by rwa [← hpkg]) (by rw [hsize, hpkg]) htake hlen.ge ?_ ?_⟩
    · rw [hlen]
    · dsimp only
      omega
    · dsimp only
      omega

theorem take_splice_map {m : Msg} {s d : List UInt8} (hle : s.length ≤ m.pkg.length)
    (held : m.pkg.take s.length = s.map some) :
    (Block.splice m.pkg s.length (d.map some)).take (s ++ d).length = (s ++ d).map some := by
  have := Block.take_splice (d.map some) hle
  rw [List.length_map] at this
  rw [List.length_append, this, held, List.map_append]

/-- **A read keeps the receiver aligned**, and hands on what the framer emits. -/
theorem aligned_step {c : Connection} {s : List UInt8} {rd : Read} (h : Aligned c s)
    (hv : ValidRead c rd) (hflood : NoFlood cfg self c rd) (hhalf : HalfRead c rd) :
    ∃ c' evs, ngxReadRequestHandler cfg self c rd = some (c', evs) ∧
      handed evs = (pkgFramer.frames (s ++ rd.data)).map (List.map some) ∧
      Aligned c' (pkgFramer.rest (s ++ rd.data)) := by
  obtain ⟨hpos, hle⟩ := hv
  cases h with
  | head h held =>
    have hlen := h.len
    rcases Nat.lt_or_eq_of_le hle with hlt | heq
    · obtain ⟨b, hb, hr⟩ := handler_head_partial cfg self h hlt
      have hnext : pkgFramer.next (s ++ rd.data) = none :=
        nextPkg_short (by rw [List.length_append]; omega)
      rw [Framer.frames_of_none hnext, Framer.rest_of_none hnext]
      refine ⟨_, _, hr, rfl, .head ⟨Or.inr ⟨rfl, ?_⟩, ?_, ?_, ?_⟩ ?_⟩
      · rw [List.length_append]; omega
      · rw [List.length_append]
      · rw [List.length_append]; dsimp only; omega
      · dsimp only; omega
      · rw [List.length_append]; exact hb.trans (by rw [held])
    · obtain ⟨b, hb, hr⟩ := handler_head_full cfg self h heq
      rw [held] at hb
      have hfl : (ngxWaitRequestHandlerProcP1 cfg self rd.now
          { c with dataHeadInfo := b }).2.2 = false := by
        by_contra hc
        rw [Bool.not_eq_false] at hc
        have := hflood _ (hr.trans (by simp only [hc]; rfl))
        simp at this
      obtain ⟨hev, hal⟩ := aligned_header rd.now
        (c := { c with dataHeadInfo := b }) hb (by rw [List.length_append]; omega) hfl
      simp only [hfl, Bool.false_eq_true, if_false] at hr
      exact ⟨_, _, hr, hev, hal⟩
  | body m h ok size held hd pos len =>
    have hfit : s.length + rd.data.length ≤ m.pkg.length := by omega
    have hp : pkgLen (s ++ rd.data) = pkgLen s :=
      pkgLen_append (by simp only [iLenPkgHeader] at hd; omega) _
    have htake := take_splice_map (m := m) (d := rd.data) (by omega) held
    have hsize : (Block.splice m.pkg s.length (rd.data.map some)).length = pkgLen s := by
      rw [Block.length_splice (by rwa [List.length_map]), size]
    obtain ⟨c', evs, hr, ⟨-, -, rfl⟩ | ⟨heq, hc', -, rfl⟩ | ⟨hne, hc', -, hst, rfl, hrl⟩⟩ :=
      handler_body cfg self h rd hfit
    · exact absurd (List.mem_singleton.mpr rfl) (hflood _ hr)
    · have hfull : (s ++ rd.data).length = pkgLen (s ++ rd.data) := by
        rw [List.length_append, hp]; omega
      have hnext : pkgFramer.next (s ++ rd.data) = some (some (s ++ rd.data), []) :=
        nextPkg_full (by rwa [hp]) hfull
      rw [Framer.frames_of_some hnext, Framer.rest_of_some hnext,
        Framer.frames_of_none Framer.next_nil, Framer.rest_of_none Framer.next_nil]
      rw [List.take_of_length_le (by omega)] at htake
      exact ⟨c', _, hr, by simp [handed, htake], aligned_of_inHead hc'⟩
    · have hnext : pkgFramer.next (s ++ rd.data) = none :=
        nextPkg_partial (by rwa [hp]) (by rw [List.length_append, hp]; omega)
      -- the one place where the count can go wrong
      have hcount : c'.irecvlen = c.irecvlen - rd.data.length := by
        rw [hrl]
        rcases h.stat with hs | hs
        · rw [if_pos hs]
        · have := hhalf hs (by omega)
          rw [if_neg (by rw [hs]; decide)]
          omega
      rw [Framer.frames_of_none hnext, Framer.rest_of_none hnext]
      refine ⟨c', _, hr, rfl, .body _ (by rwa [List.length_append]) (by rwa [hp])
        (by rw [hp]; exact hsize) htake (by rw [List.length_append]; omega) (by omega) ?_⟩
      rw [List.length_append, hp]
      omega

theorem aligned_run {c : Connection} {s : List UInt8} {rds : List Read} (h : Aligned c s)
    (hv : Run.Guarded (ngxReadRequestHandler cfg self) ValidRead c rds)
    (hflood : Run.Guarded (ngxReadRequestHandler cfg self) (NoFlood cfg self) c rds)
    (hhalf : Run.Guarded (ngxReadRequestHandler cfg self) HalfRead c rds) :
    ∃ c' evs, Run.run (ngxReadRequestHandler cfg self) c rds = some (c', evs) ∧
      handed evs = (pkgFramer.frames (s ++ stream rds)).map (List.map some) := by
  induction rds generalizing c s with
  | nil =>
    refine ⟨c, [], rfl, ?_⟩
    rw [stream, List.flatMap_nil, List.append_nil, Framer.frames_of_none h.next_eq_none]
    rfl
  | cons rd rds ih =>
    obtain ⟨c₁, evs₁, hstep, hev, hal⟩ := aligned_step h hv.1 hflood.1 hhalf.1
    obtain ⟨c₂, evs₂, hrun, hev₂⟩ :=
      ih hal (hv.2 _ _ hstep) (hflood.2 _ _ hstep) (hhalf.2 _ _ hstep)
    refine ⟨c₂, evs₁ ++ evs₂, Run.run_cons_eq_some.mpr ⟨_, _, _, hstep, hrun, rfl⟩, ?_⟩
    have hs : s ++ stream (rd :: rds) = (s ++ rd.data) ++ stream rds := by
      rw [stream, List.flatMap_cons, List.append_assoc]
      rfl
    rw [handed, List.filterMap_append, ← handed, ← handed, hev, hev₂, hs,
      Framer.frames_append (s ++ rd.data), List.map_append]

/-- **Framing.** If no partial read in `_PKG_BD_RECVING` takes other than half of `irecvlen`, every
fragmentation hands on the packets of the reference framer, in order and byte for byte. -/
theorem framesLike_of_halfRead (cfg : Conf) (self : Addr) (fd : ℤ) (seq : UInt64) (obj : ℕ)
    (rds : List Read)
    (hv : Run.Guarded (ngxReadRequestHandler cfg self) ValidRead
      (Connection.accepted fd seq obj) rds)
    (hflood : Run.Guarded (ngxReadRequestHandler cfg self) (NoFlood cfg self)
      (Connection.accepted fd seq obj) rds)
    (hhalf : Run.Guarded (ngxReadRequestHandler cfg self) HalfRead
      (Connection.accepted fd seq obj) rds) :
    FramesLike cfg self (Connection.accepted fd seq obj) rds := by
  obtain ⟨c', evs, hrun, hev⟩ :=
    aligned_run (aligned_of_inHead (inHead_initRecv _)) hv hflood hhalf
  exact ⟨c', evs, hrun, by simpa using hev⟩

/-- A body of five bytes read in pieces of one, two and two. -/
theorem framesLike_one_two_two :
    FramesLike ⟨1, .etClose, 0, 100, 10⟩ ⟨0, 0⟩ (Connection.accepted 5 1 0)
      [⟨0, [13, 0, 1, 0, 0, 0, 0, 0]⟩, ⟨0, [104]⟩, ⟨0, [105, 106]⟩, ⟨0, [107, 108]⟩] :=
  framesLike_of_halfRead _ _ _ _ _ _ (by decide +kernel) (by decide +kernel)
    (by decide +kernel)

/-- A body of four bytes that arrives in three pieces: header, one byte, one byte, one byte. -/
def threePieces : List Read :=
  [⟨0, [12, 0, 1, 0, 0, 0, 0, 0]⟩, ⟨0, [104]⟩, ⟨0, [105]⟩, ⟨0, [106]⟩]

/-- **Framing depends on fragmentation**: after the second piece of the body the receiver asks for
one byte instead of two, and hands on a packet whose last byte has not arrived. -/
theorem not_framesLike :
    ¬ ∀ (cfg : Conf) (self : Addr) (fd : ℤ) (seq : UInt64) (obj : ℕ) (rds : List Read),
      Run.Guarded (ngxReadRequestHandler cfg self) ValidRead (Connection.accepted fd seq obj) rds →
      Run.Guarded (ngxReadRequestHandler cfg self) (NoFlood cfg self)
        (Connection.accepted fd seq obj) rds →
      FramesLike cfg self (Connection.accepted fd seq obj) rds := by
  intro h
  obtain ⟨c', evs, hrun, hev⟩ := h ⟨1, .etClose, 0, 100, 10⟩ ⟨0, 0⟩ 5 1 0 threePieces
    (by decide +kernel) (by decide +kernel)
  have hgot : (Run.run (ngxReadRequestHandler ⟨1, .etClose, 0, 100, 10⟩ ⟨0, 0⟩)
      (Connection.accepted 5 1 0) threePieces).map (fun p => (handed p.2).length) = some 1 := by
    decide +kernel
  have hwant : (pkgFramer.frames (stream threePieces)).length = 0 := by decide +kernel
  rw [hrun, Option.map_some, hev, List.length_map, hwant] at hgot
  cases hgot

/-- Where the guard fails, a further read brings the difference to light: the next time `recv`
fills what is asked for, a packet is handed on too early or the block is overrun. -/
theorem not_framesLike_of_not_halfRead {c c' : Connection} {s : List UInt8} {rd : Read}
    {evs : List RecvEv} (h : Aligned c s) (hv : ValidRead c rd) (hhalf : ¬ HalfRead c rd)
    (hstep : ngxReadRequestHandler cfg self c rd = some (c', evs)) (next : Read)
    (hnext : next.data.length = c'.irecvlen) :
    evs = [] ∧ ∀ c'' evs', ngxReadRequestHandler cfg self c' next = some (c'', evs') →
      handed evs' ≠ (pkgFramer.frames (s ++ rd.data ++ next.data)).map (List.map some) := by
  unfold HalfRead at hhalf
  push Not at hhalf
  obtain ⟨hs, hne, hhalf⟩ := hhalf
  obtain ⟨hpos, hle⟩ := hv
  cases h with
  | head h held => rcases h.stat with ⟨hs', -⟩ | ⟨hs', -⟩ <;> rw [hs] at hs' <;> cases hs'
  | body m h ok size held hd pos len =>
    have hfit : s.length + rd.data.length ≤ m.pkg.length := by omega
    obtain ⟨d, evs₁, hr, ⟨hs', -⟩ | ⟨heq, -⟩ | ⟨-, hd', -, hst, rfl, hrl⟩⟩ :=
      handler_body cfg self h rd hfit
    · rw [hs] at hs'
      cases hs'
    · exact absurd heq.symm hne
    · rw [hstep, Option.some.injEq, Prod.mk.injEq] at hr
      obtain ⟨rfl, rfl⟩ := hr
      rw [if_neg (by rw [hs]; decide)] at hrl
      refine ⟨rfl, fun c'' evs' hr' => ?_⟩
      have hsize : (Block.splice m.pkg s.length (rd.data.map some)).length = pkgLen s := by
        rw [Block.length_splice (by rwa [List.length_map]), size]
      by_cases hroom : s.length + rd.data.length + next.data.length ≤ pkgLen s
      · -- too early: the framer still waits for the rest of the body
        have hp : pkgLen (s ++ rd.data ++ next.data) = pkgLen s := by
          rw [List.append_assoc]
          exact pkgLen_append (by simp only [iLenPkgHeader] at hd; omega) _
        have hwait : pkgFramer.next (s ++ rd.data ++ next.data) = none :=
          nextPkg_partial (by rwa [hp]) (by
            rw [List.length_append, List.length_append, hp]; omega)
        rw [Framer.frames_of_none hwait]
        obtain ⟨e, evs₂, he, ⟨hs', -⟩ | ⟨-, -, -, rfl⟩ | ⟨hne', -⟩⟩ :=
          handler_body cfg self hd' next (hsize ▸ hroom)
        · rw [hst] at hs'
          cases hs'
        · rw [hr', Option.some.injEq, Prod.mk.injEq] at he
          obtain ⟨-, rfl⟩ := he
          simp [handed]
        · exact absurd hnext.symm hne'
      · -- past the end of the block
        have hw : Block.writeAt (Block.splice m.pkg s.length (rd.data.map some))
            (s.length + rd.data.length) (next.data.map some) = none := by
          rw [Block.writeAt, if_neg (by rw [List.length_map, hsize]; omega)]
        simp [ngxReadRequestHandler, Connection.fill, hd'.buf, hd'.mem, hw] at hr'

end ServerNginx
