import ServerNginx.Net.Request

set_option autoImplicit false

/-!
# What one read does

* `recvprocETStep_eq`: an iteration of the ET loop is a call of the LT handler;
* `recvprocET_run`: the ET loop makes the steps of `recvprocETStep` one after the other;
* `InHead`, `InBody`: the receiver waits for header bytes, or for body bytes of a message;
* `handler_head_partial` to `handler_body_full`: the outcome of a read in each case.
-/

namespace ServerNginx

variable (cfg : Conf) (self : Addr)

/-! ## LT and ET -/

theorem procP1ET_eq (now : UInt64) (c : Connection) :
    ∃ flag, ngxWaitRequestHandlerProcP1ET cfg self now c =
      ((ngxWaitRequestHandlerProcP1 cfg self now c).1,
        (ngxWaitRequestHandlerProcP1 cfg self now c).2.1, flag,
        (ngxWaitRequestHandlerProcP1 cfg self now c).2.2) := by
  unfold ngxWaitRequestHandlerProcP1ET ngxWaitRequestHandlerProcP1
  dsimp only
  split_ifs <;> exact ⟨_, rfl⟩

/-- **An iteration of the ET loop is a call of the LT handler.** -/
theorem recvprocETStep_eq (c : Connection) (rd : Read) :
    recvprocETStep cfg self c rd = ngxReadRequestHandler cfg self c rd := by
  unfold recvprocETStep recvprocETIter ngxReadRequestHandler
  rw [Option.map_map]
  congr 1
  funext c
  dsimp only [Function.comp_apply]
  obtain ⟨flag, hp⟩ := procP1ET_eq cfg self rd.now c
  cases c.curStat with
  | pkgHdInit | pkgHdRecving =>
    dsimp only
    split_ifs with h₁ h₂
    · simp [hp, ETIter.finish, h₂]
    · simp [hp, ETIter.finish, h₂]
    · rfl
  | pkgBdInit =>
    dsimp only
    split_ifs with h₁ h₂
    · rfl
    · rfl
    · rfl
  | pkgBdRecving =>
    dsimp only
    split_ifs
    · rfl
    · rfl

/-- **The ET loop makes the steps of `recvprocETStep`** on the reads it uses up. -/
theorem recvprocET_run {c c' : Connection} {rds rest : List Read} {evs : List RecvEv}
    (h : recvprocET cfg self c rds = some (c', evs, rest)) :
    ∃ used, rds = used ++ rest ∧
      Run.run (recvprocETStep cfg self) c used = some (c', evs) := by
  induction rds generalizing c evs with
  | nil => cases h; exact ⟨[], rfl, rfl⟩
  | cons rd rds ih =>
    obtain ⟨r, hr, h⟩ := Option.bind_eq_some_iff.mp h
    have hstep : recvprocETStep cfg self c rd = some r.finish := by
      rw [recvprocETStep, hr]; rfl
    by_cases hstop : (r.stop || r.floodflag) = true
    · rw [if_pos hstop] at h
      cases h
      exact ⟨[rd], rfl, Run.run_cons_eq_some.mpr ⟨_, _, [], hstep, rfl, (List.append_nil _).symm⟩⟩
    · rw [if_neg hstop] at h
      obtain ⟨⟨d, evs', rest'⟩, hd, h⟩ := Option.map_eq_some_iff.mp h
      cases h
      obtain ⟨used, rfl, hrun⟩ := ih hd
      have hfin : r.finish = (r.conn, r.evs) := by
        simp only [Bool.or_eq_true, not_or, Bool.not_eq_true] at hstop
        simp [ETIter.finish, hstop.2]
      exact ⟨rd :: used, rfl, Run.run_cons_eq_some.mpr ⟨_, _, evs', hstep.trans (by rw [hfin]),
        hrun, rfl⟩⟩

/-! ## The state between reads -/

/-- The receiver waits for header bytes and has `k` of them. -/
structure InHead (c : Connection) (k : ℕ) : Prop where
  stat : c.curStat = .pkgHdInit ∧ k = 0 ∨ c.curStat = .pkgHdRecving ∧ 0 < k
  buf : c.precvbuf = .dataHeadInfo k
  len : c.irecvlen + k = iLenPkgHeader
  pos : 0 < c.irecvlen

/-- The receiver waits for body bytes of `m` and has filled `n` bytes of its packet. -/
structure InBody (c : Connection) (m : Msg) (n : ℕ) : Prop where
  stat : c.curStat = .pkgBdInit ∨ c.curStat = .pkgBdRecving
  mem : c.precvMemPointer = some m
  buf : c.precvbuf = .mem (iLenMsgHeader + n)

theorem inHead_initRecv (c : Connection) : InHead c.initRecv 0 :=
  ⟨Or.inl ⟨rfl, rfl⟩, rfl, rfl, Nat.zero_lt_succ _⟩

theorem inHead_resetHead (c : Connection) : InHead c.resetHead 0 :=
  ⟨Or.inl ⟨rfl, rfl⟩, rfl, rfl, Nat.zero_lt_succ _⟩

theorem inHead_plast (c : Connection) : InHead (ngxWaitRequestHandlerProcPlast c).1 0 :=
  ⟨Or.inl ⟨rfl, rfl⟩, rfl, rfl, Nat.zero_lt_succ _⟩

theorem fill_head {c : Connection} {k : ℕ} (h : InHead c k) {data : List UInt8}
    (hlen : data.length ≤ c.irecvlen) :
    ∃ b, c.fill data = some { c with dataHeadInfo := b } ∧
      b.cells.take (k + data.length) = c.dataHeadInfo.cells.take k ++ data := by
  have hk : k + data.length ≤ dataBufSize := by
    have := h.len
    simp only [iLenPkgHeader, dataBufSize] at *
    omega
  obtain ⟨b, hb, hcells⟩ := Block.write_of_le (b := c.dataHeadInfo) hk
  refine ⟨b, ?_, ?_⟩
  · simp [Connection.fill, h.buf, hb]
  · rw [hcells]
    exact Block.take_splice _ (by rw [c.dataHeadInfo.length_cells]; omega)

theorem fill_body {c : Connection} {m : Msg} {n : ℕ} (h : InBody c m n) {data : List UInt8}
    (hfit : n + data.length ≤ m.pkg.length) :
    c.fill data = some { c with
      precvMemPointer := some { m with pkg := Block.splice m.pkg n (data.map some) } } := by
  have hw : Block.writeAt m.pkg n (data.map some) =
      some (Block.splice m.pkg n (data.map some)) :=
    Block.writeAt_of_le (by rwa [List.length_map])
  simp [Connection.fill, h.buf, h.mem, hw]

/-! ## The outcome of a read -/

theorem handler_head_partial {c : Connection} {k : ℕ} (h : InHead c k) {rd : Read}
    (hlen : rd.data.length < c.irecvlen) :
    ∃ b, b.cells.take (k + rd.data.length) = c.dataHeadInfo.cells.take k ++ rd.data ∧
      ngxReadRequestHandler cfg self c rd = some ({ c with
        dataHeadInfo := b
        curStat := .pkgHdRecving
        precvbuf := .dataHeadInfo (k + rd.data.length)
        irecvlen := c.irecvlen - rd.data.length }, []) := by
  obtain ⟨b, hb, htake⟩ := fill_head h hlen.le
  refine ⟨b, htake, ?_⟩
  have hne : c.irecvlen ≠ rd.data.length := by omega
  have h8 : rd.data.length ≠ iLenPkgHeader := by have := h.len; omega
  rcases h.stat with ⟨hs, -⟩ | ⟨hs, -⟩ <;>
    simp [ngxReadRequestHandler, hb, hs, hne, h8, h.buf, RecvPtr.advance]

theorem handler_head_full {c : Connection} {k : ℕ} (h : InHead c k) {rd : Read}
    (hlen : rd.data.length = c.irecvlen) :
    ∃ b, b.cells.take iLenPkgHeader = c.dataHeadInfo.cells.take k ++ rd.data ∧
      ngxReadRequestHandler cfg self c rd =
        let r := ngxWaitRequestHandlerProcP1 cfg self rd.now { c with dataHeadInfo := b }
        some (if r.2.2 then (r.1.kicked, r.2.1 ++ [.kick]) else (r.1, r.2.1)) := by
  obtain ⟨b, hb, htake⟩ := fill_head h hlen.le
  have h8 : k + rd.data.length = iLenPkgHeader := by have := h.len; omega
  refine ⟨b, by rwa [h8] at htake, ?_⟩
  rcases h.stat with ⟨hs, hk⟩ | ⟨hs, -⟩
  · have hd : rd.data.length = iLenPkgHeader := by omega
    simp [ngxReadRequestHandler, hb, hs, hd]
  · simp [ngxReadRequestHandler, hb, hs, hlen]

/-- **A complete header**: dropped, kicked, handed on at once, or followed by a body. -/
theorem procP1_cases (now : UInt64) (c : Connection) :
    let n := pkgLen c.dataHeadInfo.cells
    (¬ PkgLenOk n ∧ ngxWaitRequestHandlerProcP1 cfg self now c = (c.resetHead, [], false)) ∨
    (n = iLenPkgHeader ∧ (ngxWaitRequestHandlerProcP1 cfg self now c).2 = ([], true)) ∨
    (n = iLenPkgHeader ∧ ∃ c', InHead c' 0 ∧ c'.fd = c.fd ∧ c'.iCurrsequence = c.iCurrsequence ∧
      ngxWaitRequestHandlerProcP1 cfg self now c = (c', [.msg (c.newMsg self n)], false)) ∨
    (PkgLenOk n ∧ iLenPkgHeader < n ∧ ngxWaitRequestHandlerProcP1 cfg self now c =
      ({ c with
        precvMemPointer := some (c.newMsg self n)
        curStat := .pkgBdInit
        precvbuf := .mem (iLenMsgHeader + iLenPkgHeader)
        irecvlen := n - iLenPkgHeader }, [], false)) := by
  intro n
  unfold ngxWaitRequestHandlerProcP1
  dsimp only
  by_cases hbig : pkgMaxLength - 1000 < n
  · exact Or.inl ⟨fun h => absurd h.2 (by omega), if_pos hbig⟩
  by_cases hsmall : n < iLenPkgHeader
  · exact Or.inl ⟨fun h => absurd h.1 (by omega), by rw [if_neg hbig, if_pos hsmall]⟩
  rw [if_neg hbig, if_neg hsmall]
  by_cases heq : n = iLenPkgHeader
  · rw [if_pos heq]
    by_cases hf : (testFlood cfg now (c.attach (c.newMsg self n))).2 = true
    · exact Or.inr (Or.inl ⟨heq, by rw [if_pos hf]⟩)
    · rw [if_neg hf]
      refine Or.inr (Or.inr (Or.inl ⟨heq, _,
        inHead_plast (testFlood cfg now (c.attach (c.newMsg self n))).1,
        testFlood_fd .., testFlood_iCurrsequence .., ?_⟩))
      simp [ngxWaitRequestHandlerProcPlast, Connection.attach, n]
  · rw [if_neg heq]
    exact Or.inr (Or.inr (Or.inr ⟨⟨by omega, by omega⟩, by omega, rfl⟩))

/-- **A read of body bytes** that fits: kicked, handed on, or still incomplete. -/
theorem handler_body {c : Connection} {m : Msg} {n : ℕ} (h : InBody c m n) (rd : Read)
    (hfit : n + rd.data.length ≤ m.pkg.length) :
    let m' : Msg := { m with pkg := Block.splice m.pkg n (rd.data.map some) }
    ∃ c' evs, ngxReadRequestHandler cfg self c rd = some (c', evs) ∧
      ((c.curStat = .pkgBdInit ∧ c'.fd = -1 ∧ evs = [.kick]) ∨
      (c.irecvlen = rd.data.length ∧ InHead c' 0 ∧ c'.fd = c.fd ∧ evs = [.msg m']) ∨
      (c.irecvlen ≠ rd.data.length ∧ InBody c' m' (n + rd.data.length) ∧ c'.fd = c.fd ∧
        c'.curStat = .pkgBdRecving ∧ evs = [] ∧ c'.irecvlen =
          if c.curStat = .pkgBdInit then c.irecvlen - rd.data.length else rd.data.length)) := by
  intro m'
  have hfill := fill_body h hfit
  simp only [ngxReadRequestHandler, hfill, Option.map_some, Option.some.injEq]
  rcases h.stat with hs | hs
  · simp only [hs]
    split_ifs with hf hlen
    · exact ⟨_, _, rfl, Or.inl ⟨trivial, rfl, rfl⟩⟩
    · refine ⟨_, _, rfl, Or.inr (Or.inl ⟨by simpa using hlen, inHead_plast _, ?_, ?_⟩)⟩
      · exact testFlood_fd ..
      · simp [m']
    · refine ⟨_, _, rfl, Or.inr (Or.inr ⟨by simpa using hlen, ⟨Or.inr rfl, ?_, ?_⟩, ?_⟩)⟩
      · simp [m']
      · simp [h.buf, RecvPtr.advance, Nat.add_assoc]
      · simp
  · simp only [hs, reduceCtorEq, if_false]
    by_cases hlen : c.irecvlen = rd.data.length
    · rw [if_pos hlen]
      exact ⟨_, _, rfl, Or.inr (Or.inl ⟨hlen, inHead_plast _, rfl, rfl⟩)⟩
    · rw [if_neg hlen]
      refine ⟨_, _, rfl, Or.inr (Or.inr ⟨hlen, ⟨Or.inr rfl, rfl, ?_⟩, rfl, rfl, rfl, rfl⟩)⟩
      simp [h.buf, RecvPtr.advance, Nat.add_assoc]

end ServerNginx
