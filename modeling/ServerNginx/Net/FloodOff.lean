import ServerNginx.Net.Agree
import ServerNginx.Net.ReadsOnly

set_option autoImplicit false

/-!
# Flood detection switched off

`ReadConf` reads `Flood_flag` into `m_floodAkEnable`, and `TestFlood` does not look at it: the
other two settings alone decide whether a connection is closed.

* `TimingIrrelevant cfg`: no receiver closes a connection as a flood, and what it hands on does not
  depend on the clock;
* `Quiet cfg`: no gap is short, and the count `TestFlood` looks for is not 0;
* `readsLT_untimed`: with quiet settings a run is the run at clock 0, up to the flood counters;
* **`timingIrrelevant_iff`**: with `Flood_flag` 0, timing is irrelevant exactly for quiet settings.
-/

namespace ServerNginx

/-- `FLOODCLOSE` -/
def floodClose : ℤ := 0

/-- What a run of a receiver shows: messages and kicks, and whether the socket is still open. -/
def shown (p : Connection × List RecvEv × List Read) : List RecvEv × ℤ := (p.2.1, p.1.fd)

/-- For every stream and fragmentation, a receiver hands on the same messages at any two
assignments of clock readings, and closes no connection as a flood. -/
def TimingIrrelevant (cfg : Conf) : Prop :=
  ∀ receive ∈ [readsLT, readsET], ∀ (self : Addr) (fd : ℤ) (seq : UInt64) (obj : ℕ)
    (rds rds' : List Read), rds.map Read.data = rds'.map Read.data →
    (receive cfg self (.accepted fd seq obj) rds).map shown =
      (receive cfg self (.accepted fd seq obj) rds').map shown ∧
    ∀ p, receive cfg self (.accepted fd seq obj) rds = some p → .kick ∉ p.2.1 ∧ p.1.fd = fd

/-- The settings at which `TestFlood` is never true. A negative kick count is not enough: the
`int` counter comes to it when it wraps around. -/
def Quiet (cfg : Conf) : Prop :=
  cfg.mFloodKickCount ≠ 0 ∧ UInt64.ofInt cfg.mFloodTimeInterval = 0

variable {cfg : Conf} (self : Addr) {c : Connection}

/-! ## Quiet settings -/

/-- A connection with other flood counters. -/
def Connection.timed (c : Connection) (t : UInt64) (n : Int32) : Connection :=
  { c with floodkickLastTime := t, floodAttackCount := n }

theorem testFlood_quiet (h : Quiet cfg) (now : UInt64) :
    testFlood cfg now c = (c.timed now 0, false) := by
  have hlong : ¬ now - c.floodkickLastTime < UInt64.ofInt cfg.mFloodTimeInterval := by
    rw [h.2]
    simp
  unfold testFlood
  rw [if_neg hlong]
  exact Prod.ext rfl (decide_eq_false (Ne.symm h.1))

/-- Two results that differ in the flood counters alone. -/
def Alike (c d : Connection) : Prop := ∃ t n, d = c.timed t n

theorem testFlood_alike (h : Quiet cfg) {d : Connection} (hcd : Alike c d) (now now' : UInt64) :
    ∃ c' d', testFlood cfg now c = (c', false) ∧ testFlood cfg now' d = (d', false) ∧
      Alike c' d' := by
  obtain ⟨t, n, rfl⟩ := hcd
  exact ⟨_, _, testFlood_quiet h now, testFlood_quiet h now', now', 0, rfl⟩

theorem procP1ET_alike (h : Quiet cfg) {d : Connection} (hcd : Alike c d) (now now' : UInt64) :
    ∃ c' d' evs flag, ngxWaitRequestHandlerProcP1ET cfg self now c = (c', evs, flag, false) ∧
      ngxWaitRequestHandlerProcP1ET cfg self now' d = (d', evs, flag, false) ∧ Alike c' d' := by
  obtain ⟨t, n, rfl⟩ := hcd
  unfold ngxWaitRequestHandlerProcP1ET
  have hbuf : (c.timed t n).dataHeadInfo = c.dataHeadInfo := rfl
  dsimp only
  rw [hbuf]
  by_cases h1 : pkgMaxLength - 1000 < pkgLen c.dataHeadInfo.cells
  · rw [if_pos h1, if_pos h1]
    exact ⟨_, _, _, _, rfl, rfl, t, n, rfl⟩
  rw [if_neg h1, if_neg h1]
  by_cases h2 : pkgLen c.dataHeadInfo.cells < iLenPkgHeader
  · rw [if_pos h2, if_pos h2]
    exact ⟨_, _, _, _, rfl, rfl, t, n, rfl⟩
  rw [if_neg h2, if_neg h2]
  by_cases h3 : pkgLen c.dataHeadInfo.cells = iLenPkgHeader
  · rw [if_pos h3, if_pos h3]
    have hm : Alike (c.attach (c.newMsg self (pkgLen c.dataHeadInfo.cells)))
        ((c.timed t n).attach ((c.timed t n).newMsg self (pkgLen c.dataHeadInfo.cells))) :=
      ⟨t, n, rfl⟩
    obtain ⟨c', d', e₁, e₂, t', n', rfl⟩ := testFlood_alike h hm now now'
    rw [e₁, e₂]
    exact ⟨_, _, _, _, rfl, rfl, t', n', rfl⟩
  · rw [if_neg h3, if_neg h3]
    exact ⟨_, _, _, _, rfl, rfl, t, n, rfl⟩

/-- Two results of an iteration that differ in the flood counters alone, and are no kicks. -/
def IterAlike (r q : ETIter) : Prop :=
  Alike r.conn q.conn ∧ r.evs = q.evs ∧ r.stop = q.stop ∧ r.floodflag = false ∧
    q.floodflag = false

theorem fill_timed (c : Connection) (t : UInt64) (n : Int32) (data : List UInt8) :
    (c.timed t n).fill data = (c.fill data).map fun d => d.timed t n := by
  unfold Connection.fill
  have hbuf : (c.timed t n).precvbuf = c.precvbuf := rfl
  have hmem : (c.timed t n).precvMemPointer = c.precvMemPointer := rfl
  rw [hbuf, hmem]
  cases c.precvbuf with
  | null => rfl
  | dataHeadInfo off =>
    rw [Option.map_map]
    rfl
  | mem off =>
    cases c.precvMemPointer with
    | none => rfl
    | some m =>
      dsimp only
      split_ifs
      · rfl
      · rw [Option.map_map]
        rfl

/-- **One read** at two clock readings. -/
theorem iter_alike (h : Quiet cfg) {d : Connection} (hcd : Alike c d) {rd rd' : Read}
    (hdata : rd.data = rd'.data) :
    Option.Rel IterAlike (recvprocETIter cfg self c rd) (recvprocETIter cfg self d rd') := by
  obtain ⟨t, n, rfl⟩ := hcd
  unfold recvprocETIter
  rw [fill_timed, ← hdata]
  cases hf : c.fill rd.data with
  | none => exact .none
  | some c =>
    refine .some ?_
    have hcd : Alike c (c.timed t n) := ⟨t, n, rfl⟩
    obtain ⟨c₁, d₁, evs, flag, e₁, e₂, hp⟩ :=
      procP1ET_alike self h hcd rd.now rd'.now
    obtain ⟨c₂, d₂, e₃, e₄, hq⟩ := testFlood_alike h hcd rd.now rd'.now
    have hstat : (c.timed t n).curStat = c.curStat := rfl
    have hlen : (c.timed t n).irecvlen = c.irecvlen := rfl
    dsimp only
    rw [hstat, hlen, e₁, e₂, e₃, e₄]
    cases c.curStat with
    | pkgHdInit =>
      dsimp only
      split_ifs
      · exact ⟨hp, rfl, rfl, rfl, rfl⟩
      · exact ⟨⟨t, n, rfl⟩, rfl, rfl, rfl, rfl⟩
    | pkgHdRecving =>
      dsimp only
      split_ifs
      · exact ⟨hp, rfl, rfl, rfl, rfl⟩
      · exact ⟨⟨t, n, rfl⟩, rfl, rfl, rfl, rfl⟩
    | pkgBdInit =>
      obtain ⟨t', n', rfl⟩ := hq
      have hlen : (c₂.timed t' n').irecvlen = c₂.irecvlen := rfl
      simp only [Bool.false_eq_true, if_false, hlen]
      split_ifs
      · exact ⟨⟨t', n', rfl⟩, rfl, rfl, rfl, rfl⟩
      · exact ⟨⟨t', n', rfl⟩, rfl, rfl, rfl, rfl⟩
    | pkgBdRecving =>
      dsimp only
      split_ifs
      · exact ⟨⟨t, n, rfl⟩, rfl, rfl, rfl, rfl⟩
      · exact ⟨⟨t, n, rfl⟩, rfl, rfl, rfl, rfl⟩

/-- **All the reads** at two assignments of clock readings. -/
theorem readsLT_alike (h : Quiet cfg) {rds rds' : List Read}
    (hdata : rds.map Read.data = rds'.map Read.data) {c d : Connection} (hcd : Alike c d) :
    (readsLT cfg self c rds).map shown = (readsLT cfg self d rds').map shown ∧
      ∀ p, readsLT cfg self c rds = some p → .kick ∉ p.2.1 ∧ p.1.fd = c.fd := by
  induction rds generalizing rds' c d with
  | nil =>
    obtain rfl : rds' = [] := List.map_eq_nil_iff.mp hdata.symm
    obtain ⟨t, n, rfl⟩ := hcd
    refine ⟨rfl, fun p hp => ?_⟩
    cases hp
    exact ⟨List.not_mem_nil, rfl⟩
  | cons rd rds ih =>
    obtain ⟨rd', rest, rfl⟩ : ∃ rd' rest, rds' = rd' :: rest := by
      cases rds' with
      | nil => simp at hdata
      | cons rd' rest => exact ⟨rd', rest, rfl⟩
    simp only [List.map_cons, List.cons.injEq] at hdata
    have hi := iter_alike self h hcd hdata.1
    rw [readsLT_cons, readsLT_cons]
    cases hr : recvprocETIter cfg self c rd with
    | none =>
      rw [hr] at hi
      cases hq : recvprocETIter cfg self d rd' with
      | none => exact ⟨rfl, fun p hp => by cases hp⟩
      | some q =>
        rw [hq] at hi
        cases hi
    | some r =>
      rw [hr] at hi
      cases hq : recvprocETIter cfg self d rd' with
      | none =>
        rw [hq] at hi
        cases hi
      | some q =>
        rw [hq] at hi
        cases hi with
        | some hi =>
          obtain ⟨hconn, hevs, -, hf, hg⟩ := hi
          obtain ⟨hsame, hkick⟩ := ih hdata.2 hconn
          simp only [Option.bind_some, hf, hg, Bool.false_eq_true, if_false, ← hevs]
          constructor
          · have := congrArg (Option.map fun o => (r.evs ++ o.1, o.2)) hsame
            simpa only [Option.map_map, Function.comp_def, shown] using this
          · intro p hp
            obtain ⟨p', hp', rfl⟩ := Option.map_eq_some_iff.mp hp
            obtain ⟨hk, hfd⟩ := hkick p' hp'
            refine ⟨fun hm => ?_, hfd.trans (ReadsOnly.etIter hr).fd⟩
            exact (List.mem_append.mp hm).elim (kick_notMem_iter hr) hk

theorem timingIrrelevant_of_quiet (h : Quiet cfg) : TimingIrrelevant cfg := by
  intro receive hr self fd seq obj rds rds' hdata
  have hcd : Alike (.accepted fd seq obj) (.accepted fd seq obj) :=
    ⟨0, 0, rfl⟩
  have key := readsLT_alike self h hdata hcd
  obtain rfl | rfl : receive = readsLT ∨ receive = readsET := by simpa using hr
  · exact key
  · rw [readsET_eq, readsET_eq]
    exact key

/-! ## Other settings -/

/-- A packet that is a header only. -/
def ping : List UInt8 := [8, 0, 0, 0, 0, 0, 0, 0]

/-- The count `TestFlood` compares. -/
def floodCount (cfg : Conf) (now : UInt64) (c : Connection) : Int32 :=
  if now - c.floodkickLastTime < UInt64.ofInt cfg.mFloodTimeInterval then
    c.floodAttackCount + 1
  else 0

theorem testFlood_eq (now : UInt64) (c : Connection) : testFlood cfg now c =
    (c.timed now (floodCount cfg now c), decide (floodCount cfg now c = cfg.mFloodKickCount)) := by
  unfold testFlood floodCount
  split_ifs <;> rfl

theorem handler_ping (cfg : Conf) (h : InHead c 0) (now : UInt64) :
    ∃ r, ngxReadRequestHandler cfg self c ⟨now, ping⟩ = some r ∧
      if floodCount cfg now c = cfg.mFloodKickCount then .kick ∈ r.2
      else .kick ∉ r.2 ∧ InHead r.1 0 ∧ r.1.floodkickLastTime = now ∧
        r.1.floodAttackCount = floodCount cfg now c := by
  have hlen : (⟨now, ping⟩ : Read).data.length = c.irecvlen := by
    have := h.len
    simp only [iLenPkgHeader] at this
    simp only [ping, List.length_cons, List.length_nil]
    omega
  obtain ⟨b, hb, hr⟩ := handler_head_full cfg self h hlen
  have hpkg : pkgLen b.cells = iLenPkgHeader := by
    have h2 : 2 ≤ iLenPkgHeader := by simp [iLenPkgHeader]
    rw [← pkgLen_take h2, hb]
    rfl
  refine ⟨_, hr, ?_⟩
  set d : Connection := { c with dataHeadInfo := b }
  have hbig : ¬ pkgMaxLength - 1000 < iLenPkgHeader := by simp [pkgMaxLength, iLenPkgHeader]
  have hd : pkgLen d.dataHeadInfo.cells = iLenPkgHeader := hpkg
  have hcount : floodCount cfg now (d.attach (d.newMsg self iLenPkgHeader)) =
      floodCount cfg now c := rfl
  unfold ngxWaitRequestHandlerProcP1
  dsimp only
  rw [hd, if_neg hbig, if_neg (lt_irrefl _), if_pos rfl, testFlood_eq, hcount]
  dsimp only
  by_cases hk : floodCount cfg now c = cfg.mFloodKickCount
  · simp [hk]
  · simp only [decide_eq_true_eq, hk, if_false, Bool.false_eq_true]
    refine ⟨?_, inHead_plast _, rfl, rfl⟩
    simp [ngxWaitRequestHandlerProcPlast]

theorem exists_ofNat_succ (k : Int32) : ∃ n : ℕ, Int32.ofNat (n + 1) = k := by
  refine ⟨(k.toInt + (2 ^ 32 - 1)).toNat, Int32.toInt_inj.mp ?_⟩
  have hlo := k.le_toInt
  have hhi := k.toInt_lt
  rw [Int32.toInt_ofNat', Int32.size, Int.bmod_def]
  omega

theorem readsLT_ping (cfg : Conf) (h : InHead c 0) {now : UInt64}
    (hmet : floodCount cfg now c = cfg.mFloodKickCount) :
    ∃ p, readsLT cfg self c [⟨now, ping⟩] = some p ∧ .kick ∈ p.2.1 := by
  obtain ⟨r, hr, hk⟩ := handler_ping self cfg h now
  rw [if_pos hmet] at hk
  refine ⟨(r.1, r.2, []), ?_, hk⟩
  rw [readsLT, hr, Option.bind_some, if_pos hk]

/-- Pings at clock 0 add up to a kick, also where the counter has to wrap around first. -/
theorem readsLT_pings (cfg : Conf) (hi : UInt64.ofInt cfg.mFloodTimeInterval ≠ 0) (n : ℕ) :
    ∀ {c : Connection}, InHead c 0 → c.floodkickLastTime = 0 →
      c.floodAttackCount + .ofNat (n + 1) = cfg.mFloodKickCount →
      ∃ rds p, readsLT cfg self c rds = some p ∧ .kick ∈ p.2.1 := by
  have hlt : (0 : UInt64) < UInt64.ofInt cfg.mFloodTimeInterval := by
    rw [UInt64.lt_iff_toNat_lt]
    refine Nat.pos_of_ne_zero fun h0 => hi ?_
    exact UInt64.toNat_inj.mp h0
  have hcount : ∀ {c : Connection}, c.floodkickLastTime = 0 →
      floodCount cfg 0 c = c.floodAttackCount + 1 := by
    intro c hl
    rw [floodCount, hl, if_pos (by simpa using hlt)]
  induction n with
  | zero =>
    intro c h hl hn
    exact ⟨_, readsLT_ping self cfg h ((hcount hl).trans hn)⟩
  | succ n ih =>
    intro c h hl hn
    by_cases hmet : floodCount cfg 0 c = cfg.mFloodKickCount
    · exact ⟨_, readsLT_ping self cfg h hmet⟩
    · obtain ⟨r, hr, hk⟩ := handler_ping self cfg h 0
      rw [if_neg hmet] at hk
      obtain ⟨hnot, hin, hlast, hatt⟩ := hk
      have hnext : r.1.floodAttackCount + .ofNat (n + 1) = cfg.mFloodKickCount := by
        rw [hatt, hcount hl, ← hn, Int32.ofNat_add (n + 1) 1, Int32.add_assoc, Int32.add_comm 1]
        rfl
      obtain ⟨rds, p, hp, hkick⟩ := ih hin hlast hnext
      refine ⟨⟨0, ping⟩ :: rds, (p.1, r.2 ++ p.2.1, p.2.2), ?_, List.mem_append_right r.2 hkick⟩
      rw [readsLT, hr, Option.bind_some, if_neg hnot, hp]
      rfl

/-- **Timing is irrelevant, and when.** With flood detection switched off, no connection is closed
as a flood and the clock makes no difference exactly when the kick count is not 0 and the interval
is 0. -/
theorem timingIrrelevant_iff (cfg : Conf) :
    TimingIrrelevant { cfg with mFloodAkEnable := floodClose } ↔
      cfg.mFloodKickCount ≠ 0 ∧ UInt64.ofInt cfg.mFloodTimeInterval = 0 := by
  set cfg' : Conf := { cfg with mFloodAkEnable := floodClose }
  refine ⟨fun h => ?_, fun h => show TimingIrrelevant cfg' from timingIrrelevant_of_quiet h⟩
  by_contra hq
  push Not at hq
  have hin : InHead (.accepted 5 0 0) 0 := inHead_initRecv _
  have no := fun rds p hp =>
    ((h readsLT (by simp) ⟨0, 0⟩ 5 0 0 rds rds rfl).2 p hp).1
  by_cases hk : cfg.mFloodKickCount = 0
  · -- a long gap leaves the count at 0
    have hcount : floodCount cfg' (UInt64.ofInt cfg.mFloodTimeInterval) (.accepted 5 0 0) = 0 :=
      if_neg (by simp [Connection.accepted, Connection.initRecv, Connection.zero, cfg'])
    obtain ⟨p, hp, hkick⟩ := readsLT_ping ⟨0, 0⟩ cfg' hin (hcount.trans hk.symm)
    exact no _ p hp hkick
  · -- a count that is not 0 is some number of pings away, a negative one behind the wrap
    obtain ⟨n, hn⟩ : ∃ n : ℕ, Int32.ofNat (n + 1) = cfg.mFloodKickCount := exists_ofNat_succ _
    obtain ⟨rds, p, hp, hkick⟩ := readsLT_pings ⟨0, 0⟩ cfg' (hq hk) n hin rfl
      (by show 0 + _ = _; rw [Int32.zero_add]; exact hn)
    exact no rds p hp hkick

/-- Two pings within a second are a flood at kick count 2, whatever `Flood_flag` says. -/
theorem kicked_while_off : ¬ TimingIrrelevant ⟨4, .etClose, floodClose, 1000, 2⟩ := by
  intro h
  obtain ⟨p, hp, hk⟩ := Run.exists_of_any
    (x := readsLT ⟨4, .etClose, floodClose, 1000, 2⟩ ⟨0, 0⟩ (.accepted 5 0 0)
      [⟨0, ping⟩, ⟨400, ping⟩])
    (f := fun p => decide (.kick ∈ p.2.1)) (by decide +kernel)
  exact ((h readsLT (by simp) _ _ _ _ _ _ rfl).2 p hp).1 (of_decide_eq_true hk)

end ServerNginx
