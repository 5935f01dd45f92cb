import ServerNginx.Net.Framing

set_option autoImplicit false

/-!
# Receive buffers are not overrun

`WindowOk c`: the bytes `[precvbuf, precvbuf + irecvlen)` that the next `recv` may fill lie inside
the first 8 bytes of `dataHeadInfo`, or inside the block allocated for the packet.

A partial read in `_PKG_BD_RECVING` sets `irecvlen` to what it took, so it may not take more than
half of what is left of the block (`FitsTwice`). **`window_iff_fitsTwice`**: a run of either
receiver keeps the window inside exactly when all its reads meet that bound; `not_window` is a run
that does not.
-/

namespace ServerNginx

/-- What a readable event does in the mode of the configuration. -/
def recvStep (cfg : Conf) (self : Addr) (c : Connection) (rd : Read) :
    Option (Connection × List RecvEv) :=
  match cfg.mETflag with
  | .etClose => ngxReadRequestHandler cfg self c rd
  | .etOpen => recvprocETStep cfg self c rd

theorem recvStep_eq (cfg : Conf) (self : Addr) :
    recvStep cfg self = ngxReadRequestHandler cfg self := by
  funext c rd
  unfold recvStep
  cases cfg.mETflag with
  | etClose => rfl
  | etOpen => exact recvprocETStep_eq cfg self c rd

/-- The next `recv` stays inside its buffer. -/
def WindowOk (c : Connection) : Prop :=
  match c.curStat, c.precvbuf, c.precvMemPointer with
  | .pkgHdInit, .dataHeadInfo k, _ => k + c.irecvlen ≤ iLenPkgHeader
  | .pkgHdRecving, .dataHeadInfo k, _ => k + c.irecvlen ≤ iLenPkgHeader
  | .pkgBdInit, .mem off, some m => off + c.irecvlen ≤ m.size
  | .pkgBdRecving, .mem off, some m => off + c.irecvlen ≤ m.size
  | _, _, _ => False

instance (c : Connection) : Decidable (WindowOk c) := by
  unfold WindowOk
  split <;> infer_instance

/-- A connection that is still open has its window inside its buffer. -/
def OpenWindow (c : Connection) : Prop := c.fd ≠ -1 → WindowOk c

instance (c : Connection) : Decidable (OpenWindow c) := inferInstanceAs (Decidable (_ → _))

/-- A successful `recv` on a connection that is still open. -/
def OpenRead (c : Connection) (rd : Read) : Prop := c.fd ≠ -1 ∧ ValidRead c rd

instance (c : Connection) (rd : Read) : Decidable (OpenRead c rd) :=
  inferInstanceAs (Decidable (_ ∧ _))

/-- The bytes of the block from `precvbuf` on. -/
def Connection.room (c : Connection) : ℕ :=
  match c.precvbuf, c.precvMemPointer with
  | .mem off, some m => m.size - off
  | _, _ => 0

/-- A read that leaves a body incomplete in `_PKG_BD_RECVING` takes at most half of the room. -/
def FitsTwice (c : Connection) (rd : Read) : Prop :=
  c.curStat = .pkgBdRecving → rd.data.length ≠ c.irecvlen → 2 * rd.data.length ≤ c.room

instance (c : Connection) (rd : Read) : Decidable (FitsTwice c rd) :=
  inferInstanceAs (Decidable (_ → _ → _))

/-- The receive state of an open connection. -/
def RecvShape (c : Connection) : Prop :=
  c.fd ≠ -1 → (∃ k, InHead c k) ∨ ∃ m n, InBody c m n

variable {cfg : Conf} {self : Addr} {c : Connection} {rd : Read}

theorem windowOk_of_inHead {k : ℕ} (h : InHead c k) : WindowOk c := by
  have := h.len
  unfold WindowOk
  rcases h.stat with ⟨hs, -⟩ | ⟨hs, -⟩ <;> simp only [hs, h.buf] <;> omega

theorem windowOk_iff_of_inBody {m : Msg} {n : ℕ} (h : InBody c m n) :
    WindowOk c ↔ n + c.irecvlen ≤ m.pkg.length := by
  unfold WindowOk
  rcases h.stat with hs | hs <;> simp only [hs, h.buf, h.mem, Msg.size] <;> omega

theorem room_of_inBody {m : Msg} {n : ℕ} (h : InBody c m n) : c.room = m.pkg.length - n := by
  simp only [Connection.room, h.buf, h.mem, Msg.size]
  omega

theorem fitsTwice_of_ne (h : c.curStat ≠ .pkgBdRecving) : FitsTwice c rd :=
  fun hs => absurd hs h

theorem procP1_window (now : UInt64) (c : Connection) :
    let r := ngxWaitRequestHandlerProcP1 cfg self now c
    r.2.2 = false → ((∃ k, InHead r.1 k) ∨ ∃ m n, InBody r.1 m n) ∧ WindowOk r.1 := by
  intro r hflood
  rcases procP1_cases cfg self now c with ⟨-, hr⟩ | ⟨-, hr⟩ | ⟨-, c', hc', -, -, hr⟩ | ⟨-, -, hr⟩
  · simp only [r, hr]
    exact ⟨Or.inl ⟨0, inHead_resetHead c⟩, windowOk_of_inHead (inHead_resetHead c)⟩
  · rw [show r.2 = ([], true) from hr] at hflood
    cases hflood
  · simp only [r, hr]
    exact ⟨Or.inl ⟨0, hc'⟩, windowOk_of_inHead hc'⟩
  · have hb : InBody r.1 (c.newMsg self (pkgLen c.dataHeadInfo.cells)) iLenPkgHeader := by
      simp only [r, hr]
      exact ⟨Or.inl rfl, rfl, rfl⟩
    refine ⟨Or.inr ⟨_, _, hb⟩, (windowOk_iff_of_inBody hb).mpr ?_⟩
    simp only [r, hr, Connection.newMsg, List.length_append, List.length_map, List.length_take,
      List.length_replicate, c.dataHeadInfo.length_cells]
    simp only [iLenPkgHeader, dataBufSize]
    omega

/-- **A read on an open connection keeps the window inside exactly when it fits twice.** -/
theorem window_step (hi : RecvShape c) (hw : OpenWindow c) (hv : OpenRead c rd) :
    ∃ c' evs, ngxReadRequestHandler cfg self c rd = some (c', evs) ∧
      (OpenWindow c' ↔ FitsTwice c rd) ∧ (OpenWindow c' → RecvShape c') := by
  obtain ⟨hfd, hpos, hle⟩ := hv
  rcases hi hfd with ⟨k, h⟩ | ⟨m, n, h⟩
  · have hfit : FitsTwice c rd := fitsTwice_of_ne (by
      rcases h.stat with ⟨hs, -⟩ | ⟨hs, -⟩ <;> rw [hs] <;> decide)
    rcases Nat.lt_or_eq_of_le hle with hlt | heq
    · obtain ⟨b, -, hr⟩ := handler_head_partial cfg self h hlt
      have h' : InHead { c with
          dataHeadInfo := b
          curStat := .pkgHdRecving
          precvbuf := .dataHeadInfo (k + rd.data.length)
          irecvlen := c.irecvlen - rd.data.length } (k + rd.data.length) := by
        have := h.len
        exact ⟨Or.inr ⟨rfl, by omega⟩, rfl, by dsimp only; omega, by dsimp only; omega⟩
      exact ⟨_, _, hr, iff_of_true (fun _ => windowOk_of_inHead h') hfit,
        fun _ _ => Or.inl ⟨_, h'⟩⟩
    · obtain ⟨b, -, hr⟩ := handler_head_full cfg self h heq
      cases hf : (ngxWaitRequestHandlerProcP1 cfg self rd.now { c with dataHeadInfo := b }).2.2 with
      | true =>
        simp only [hf, if_true] at hr
        exact ⟨_, _, hr, iff_of_true (fun hc => absurd rfl hc) hfit, fun _ hc => absurd rfl hc⟩
      | false =>
        simp only [hf, Bool.false_eq_true, if_false] at hr
        obtain ⟨hsh, hwin⟩ := procP1_window rd.now { c with dataHeadInfo := b } hf
        exact ⟨_, _, hr, iff_of_true (fun _ => hwin) hfit, fun _ _ => hsh⟩
  · have hin := (windowOk_iff_of_inBody h).mp (hw hfd)
    obtain ⟨c', evs, hr, ⟨hs, hcl, -⟩ | ⟨heq, hc', -, -⟩ | ⟨hne, hc', hfd', -, -, hrl⟩⟩ :=
      handler_body cfg self h rd (by omega)
    · exact ⟨c', evs, hr, iff_of_true (fun hc => absurd hcl hc)
        (fitsTwice_of_ne (by rw [hs]; decide)), fun _ hc => absurd hcl hc⟩
    · exact ⟨c', evs, hr, iff_of_true (fun _ => windowOk_of_inHead hc')
        (fun _ hne => absurd heq.symm hne), fun _ _ => Or.inl ⟨0, hc'⟩⟩
    · refine ⟨c', evs, hr, ?_, fun _ _ => Or.inr ⟨_, _, hc'⟩⟩
      have hwin : OpenWindow c' ↔ n + rd.data.length + c'.irecvlen ≤ m.pkg.length := by
        rw [OpenWindow, windowOk_iff_of_inBody hc', Block.length_splice (by
          rw [List.length_map]; omega), hfd']
        exact ⟨fun h => h hfd, fun h _ => h⟩
      rw [hwin, hrl, FitsTwice, room_of_inBody h]
      rcases h.stat with hs | hs
      · rw [if_pos hs, hs]
        exact iff_of_true (by omega) (fun h => nomatch h)
      · rw [if_neg (by rw [hs]; decide)]
        constructor
        · intro _ _ _; omega
        · intro hfit; have := hfit hs hne.symm; omega

/-- **Receive-buffer bounds.** In either mode, from the freshly accepted state, the window of every
open receive state lies inside its buffer if and only if no partial read in `_PKG_BD_RECVING` takes
more than half of what is left of the packet's block. -/
theorem window_iff_fitsTwice (cfg : Conf) (self : Addr) (fd : ℤ) (seq : UInt64) (obj : ℕ)
    (rds : List Read)
    (hv : Run.Guarded (recvStep cfg self) OpenRead (Connection.accepted fd seq obj) rds) :
    Run.Always (recvStep cfg self) OpenWindow (Connection.accepted fd seq obj) rds ↔
      Run.Guarded (recvStep cfg self) FitsTwice (Connection.accepted fd seq obj) rds := by
  rw [recvStep_eq] at hv ⊢
  have h₀ : InHead (Connection.accepted fd seq obj) 0 := inHead_initRecv _
  exact Run.always_iff_guarded (I := RecvShape) (fun _ _ hi hp hv => window_step hi hp hv)
    (fun _ => Or.inl ⟨0, h₀⟩) (fun _ => windowOk_of_inHead h₀) hv

/-- A body of five bytes in pieces of one, two and two keeps to its block. -/
theorem window_one_two_two :
    Run.Always (recvStep ⟨1, .etOpen, 0, 100, 10⟩ ⟨0, 0⟩) OpenWindow (Connection.accepted 5 1 0)
      [⟨0, [13, 0, 1, 0, 0, 0, 0, 0]⟩, ⟨0, [104]⟩, ⟨0, [105, 106]⟩, ⟨0, [107, 108]⟩] :=
  (window_iff_fitsTwice _ _ _ _ _ _ (by decide +kernel)).mpr (by decide +kernel)

/-- **A receive buffer is overrun**: of a body of four bytes, one and then two arrive; the receiver
now asks for two more where one byte is left of the block. -/
theorem not_window :
    ¬ ∀ (cfg : Conf) (self : Addr) (fd : ℤ) (seq : UInt64) (obj : ℕ) (rds : List Read),
      Run.Guarded (recvStep cfg self) OpenRead (Connection.accepted fd seq obj) rds →
      Run.Always (recvStep cfg self) OpenWindow (Connection.accepted fd seq obj) rds := by
  intro h
  have := h ⟨1, .etClose, 0, 100, 10⟩ ⟨0, 0⟩ 5 1 0
    [⟨0, [12, 0, 1, 0, 0, 0, 0, 0]⟩, ⟨0, [104]⟩, ⟨0, [105, 106]⟩] (by decide +kernel)
  exact absurd this (by decide +kernel)

end ServerNginx
