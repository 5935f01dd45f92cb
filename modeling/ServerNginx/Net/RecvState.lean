import ServerNginx.Net.Window

set_option autoImplicit false

/-!
# The receive state

The four fields `curStat`, `irecvlen`, `precvbuf` and `precvMemPointer` between two reads.

A read may run past the end of the packet's block. `recvOver` is a read with the memory behind the
block at hand, so that no fragmentation is left out: what falls there is not the connection's.

* `RecvOk`: what holds of the four fields;
* `recvOver_of_some`: a read that stays inside its block is a `recvStep`;
* **`recvOk_always`**: it holds in every state of an open connection, in either mode.
-/

namespace ServerNginx

variable (cfg : Conf) (self : Addr)

/-- The packet's block, continued as far as a read of `n` bytes goes. -/
def Connection.extended (c : Connection) (n : ℕ) : Connection :=
  match c.precvbuf, c.precvMemPointer with
  | .mem off, some m =>
    { c with precvMemPointer := some { m with
      pkg := m.pkg ++ List.replicate (off - iLenMsgHeader + n - m.pkg.length) none } }
  | _, _ => c

/-- A read in the mode of the configuration, wherever its bytes go. -/
def recvOver (c : Connection) (rd : Read) : Option (Connection × List RecvEv) :=
  recvStep cfg self (c.extended rd.data.length) rd

/-- The receiver waits for bytes of a packet header. -/
def CurStat.isHead (s : CurStat) : Prop := s = .pkgHdInit ∨ s = .pkgHdRecving

instance (s : CurStat) : Decidable s.isHead := inferInstanceAs (Decidable (_ ∨ _))

theorem not_isHead_bdInit : ¬ CurStat.isHead .pkgBdInit := by decide

theorem not_isHead_bdRecving : ¬ CurStat.isHead .pkgBdRecving := by decide

/-- **The receive state asks for bytes**, and the header states are those without a block, which
ask for the rest of a header. -/
structure RecvOk (c : Connection) : Prop where
  len : 1 ≤ c.irecvlen
  mem : c.curStat.isHead ↔ c.precvMemPointer = none
  window : c.curStat.isHead → ∃ k, c.precvbuf = .dataHeadInfo k ∧ k + c.irecvlen = iLenPkgHeader
  init : c.curStat.isHead → (c.irecvlen = iLenPkgHeader ↔ c.curStat = .pkgHdInit)

/-- The receive state, with what the reads count on. -/
inductive Receiving (c : Connection) : Prop
  | head (k : ℕ) (h : InHead c k) (mem : c.precvMemPointer = none)
  | body (m : Msg) (n : ℕ) (h : InBody c m n) (len : 1 ≤ c.irecvlen)

variable {cfg self} {c c' : Connection} {rd : Read} {evs : List RecvEv}

theorem Receiving.recvOk (h : Receiving c) : RecvOk c := by
  cases h with
  | head k h mem =>
    have hpos := h.pos
    have hlen := h.len
    have hhead : c.curStat.isHead := h.stat.imp And.left And.left
    refine ⟨hpos, iff_of_true hhead mem, fun _ => ⟨k, h.buf, by omega⟩, fun _ => ?_⟩
    rcases h.stat with ⟨hs, hk⟩ | ⟨hs, hk⟩
    · exact iff_of_true (by omega) hs
    · exact iff_of_false (by omega) (by rw [hs]; decide)
  | body m n h len =>
    have hbody : ¬ c.curStat.isHead := by
      rcases h.stat with hs | hs <;> rw [hs] <;> decide
    exact ⟨len, iff_of_false hbody (by rw [h.mem]; exact nofun), fun hh => absurd hh hbody,
      fun hh => absurd hh hbody⟩

/-! ## Blocks without an end -/

theorem extended_of_head {k : ℕ} (h : InHead c k) (n : ℕ) : c.extended n = c := by
  rw [Connection.extended, h.buf]

theorem extended_body {m : Msg} {n : ℕ} (h : InBody c m n) (l : ℕ) :
    c.extended l = { c with precvMemPointer := some { m with
      pkg := m.pkg ++ List.replicate (n + l - m.pkg.length) none } } := by
  simp only [Connection.extended, h.buf, h.mem, Nat.add_sub_cancel_left]

theorem extended_of_fill {data : List UInt8} (h : c.fill data = some c') :
    c.extended data.length = c := by
  cases hb : c.precvbuf with
  | null => rw [Connection.extended, hb]
  | dataHeadInfo off => rw [Connection.extended, hb]
  | mem off =>
    cases hm : c.precvMemPointer with
    | none => rw [Connection.extended, hb, hm]
    | some m =>
      simp only [Connection.fill, hb, hm, Option.ite_none_left_eq_some, Option.map_eq_some_iff,
        Block.writeAt, Option.ite_none_right_eq_some] at h
      obtain ⟨-, p, ⟨hle, -⟩, -⟩ := h
      rw [List.length_map] at hle
      have hnone : off - iLenMsgHeader + data.length - m.pkg.length = 0 := by omega
      simp only [Connection.extended, hb, hm, hnone, List.replicate_zero, List.append_nil]
      rw [← hb, ← hm]

/-- **A read that stays inside its block** is one of the receiver. -/
theorem recvOver_of_some (h : recvStep cfg self c rd = some (c', evs)) :
    recvOver cfg self c rd = some (c', evs) := by
  have hfill : ∃ d, c.fill rd.data = some d := by
    rw [recvStep_eq] at h
    obtain ⟨d, hd, -⟩ := Option.map_eq_some_iff.mp h
    exact ⟨d, hd⟩
  obtain ⟨d, hd⟩ := hfill
  rw [recvOver, extended_of_fill hd]
  exact h

/-! ## One read -/

theorem fill_fields {data : List UInt8} {d : Connection} (h : c.fill data = some d) :
    d.curStat = c.curStat ∧ (c.precvMemPointer = none → d.precvMemPointer = none) := by
  unfold Connection.fill at h
  split at h
  · obtain ⟨b, -, rfl⟩ := Option.map_eq_some_iff.mp h
    exact ⟨rfl, id⟩
  · next hm =>
    split_ifs at h
    obtain ⟨p, -, rfl⟩ := Option.map_eq_some_iff.mp h
    exact ⟨rfl, fun hn => by rw [hm] at hn; cases hn⟩
  · cases h
  · cases h

theorem procP1_mem {now : UInt64} (hmem : c.precvMemPointer = none)
    (hflood : (ngxWaitRequestHandlerProcP1 cfg self now c).2.2 = false)
    (hs : (ngxWaitRequestHandlerProcP1 cfg self now c).1.curStat.isHead) :
    (ngxWaitRequestHandlerProcP1 cfg self now c).1.precvMemPointer = none := by
  unfold ngxWaitRequestHandlerProcP1 at hflood hs ⊢
  dsimp only at hflood hs ⊢
  split_ifs at hflood hs ⊢
  · exact hmem
  · exact hmem
  · rfl
  · exact absurd hs not_isHead_bdInit

theorem handler_mem (h : c.curStat.isHead → c.precvMemPointer = none)
    (hr : ngxReadRequestHandler cfg self c rd = some (c', evs)) (hfd : c'.fd ≠ -1)
    (hs : c'.curStat.isHead) : c'.precvMemPointer = none := by
  obtain ⟨d, hd, hr⟩ := Option.map_eq_some_iff.mp hr
  obtain ⟨hstat, hmem⟩ := fill_fields hd
  have header : c.curStat.isHead →
      (let r := ngxWaitRequestHandlerProcP1 cfg self rd.now d
        if r.2.2 then (r.1.kicked, r.2.1 ++ [RecvEv.kick]) else (r.1, r.2.1)) = (c', evs) →
      c'.precvMemPointer = none := by
    intro hh hp
    dsimp only at hp
    split_ifs at hp with hflood
    · cases hp
      exact absurd rfl hfd
    · cases hp
      exact procP1_mem (hmem (h hh)) (by simpa using hflood) hs
  cases hc : c.curStat with
  | pkgHdInit =>
    have hh : c.curStat.isHead := Or.inl hc
    rw [hstat, hc] at hr
    dsimp only at hr
    split_ifs at hr with h8
    · exact header hh (by rw [if_pos ‹_›]; exact hr)
    · exact header hh (by rw [if_neg ‹_›]; exact hr)
    · cases hr
      exact hmem (h hh)
  | pkgHdRecving =>
    have hh : c.curStat.isHead := Or.inr hc
    rw [hstat, hc] at hr
    dsimp only at hr
    split_ifs at hr with hlen
    · exact header hh (by rw [if_pos ‹_›]; exact hr)
    · exact header hh (by rw [if_neg ‹_›]; exact hr)
    · cases hr
      exact hmem (h hh)
  | pkgBdInit =>
    rw [hstat, hc] at hr
    dsimp only at hr
    split_ifs at hr
    · cases hr
      exact absurd rfl hfd
    · cases hr
      rfl
    · cases hr
      exact absurd hs not_isHead_bdRecving
  | pkgBdRecving =>
    rw [hstat, hc] at hr
    dsimp only at hr
    split_ifs at hr
    · cases hr
      rfl
    · cases hr
      exact absurd hs not_isHead_bdRecving

theorem procP1_receiving {now : UInt64} (hmem : c.precvMemPointer = none)
    (hflood : (ngxWaitRequestHandlerProcP1 cfg self now c).2.2 = false) :
    Receiving (ngxWaitRequestHandlerProcP1 cfg self now c).1 := by
  rcases procP1_cases cfg self now c with
    ⟨-, hr⟩ | ⟨-, hr⟩ | ⟨-, c', hc', -, -, hr⟩ | ⟨-, hgt, hr⟩
  · rw [hr]
    exact .head 0 (inHead_resetHead c) hmem
  · rw [hr] at hflood
    cases hflood
  · have := procP1_mem hmem hflood (by rw [hr]; exact hc'.stat.imp And.left And.left)
    rw [hr] at this ⊢
    exact .head 0 hc' this
  · rw [hr]
    exact .body _ iLenPkgHeader ⟨Or.inl rfl, rfl, rfl⟩ (Nat.sub_pos_of_lt hgt)

/-- **A read on an open connection** is defined, and keeps the receive state in order. -/
theorem receiving_step (h : Receiving c) (hv : ValidRead c rd) :
    ∃ c' evs, recvOver cfg self c rd = some (c', evs) ∧ (c'.fd ≠ -1 → Receiving c') := by
  obtain ⟨hpos, hle⟩ := hv
  rw [recvOver, recvStep_eq]
  cases h with
  | head k h mem =>
    rw [extended_of_head h]
    rcases Nat.lt_or_eq_of_le hle with hlt | heq
    · obtain ⟨b, -, hr⟩ := handler_head_partial cfg self h hlt
      have hlen := h.len
      refine ⟨_, _, hr, fun _ => .head (k + rd.data.length)
        ⟨Or.inr ⟨rfl, by omega⟩, rfl, ?_, ?_⟩ mem⟩
      · show c.irecvlen - rd.data.length + (k + rd.data.length) = iLenPkgHeader
        omega
      · exact Nat.sub_pos_of_lt hlt
    · obtain ⟨b, -, hr⟩ := handler_head_full cfg self h heq
      cases hf : (ngxWaitRequestHandlerProcP1 cfg self rd.now { c with dataHeadInfo := b }).2.2 with
      | true =>
        simp only [hf, if_true] at hr
        exact ⟨_, _, hr, fun hc => absurd rfl hc⟩
      | false =>
        simp only [hf, Bool.false_eq_true, if_false] at hr
        exact ⟨_, _, hr, fun _ => procP1_receiving (c := { c with dataHeadInfo := b }) mem hf⟩
  | body m n h len =>
    have hext := extended_body h rd.data.length
    have hb : InBody (c.extended rd.data.length) { m with
        pkg := m.pkg ++ List.replicate (n + rd.data.length - m.pkg.length) none } n := by
      rw [hext]
      exact ⟨h.stat, rfl, h.buf⟩
    have hlen : (c.extended rd.data.length).irecvlen = c.irecvlen := by rw [hext]
    have hbody : ¬ (c.extended rd.data.length).curStat.isHead := by
      rcases hb.stat with hs | hs <;> rw [hs]
      · exact not_isHead_bdInit
      · exact not_isHead_bdRecving
    obtain ⟨c', evs, hr, ⟨-, hfd, -⟩ | ⟨-, hc', -, -⟩ | ⟨hne, hc', -, -, -, hrl⟩⟩ :=
      handler_body cfg self hb rd (by rw [List.length_append, List.length_replicate]; omega)
    · exact ⟨c', evs, hr, fun hopen => absurd hfd hopen⟩
    · exact ⟨c', evs, hr, fun hopen => .head 0 hc' (handler_mem (fun hh => absurd hh hbody) hr hopen
        (hc'.stat.imp And.left And.left))⟩
    · refine ⟨c', evs, hr, fun _ => .body _ _ hc' ?_⟩
      rw [hrl, hlen]
      rw [hlen] at hne
      split_ifs <;> omega

/-! ## Every run -/

/-- **The receive state never asks for zero bytes.** In either mode, from the freshly accepted state
and for every stream and fragmentation, the receive state of a connection that is still open is in
order in every state reached, and every read has a result; it is the receiver's own wherever that
stays inside the packet's block. -/
theorem recvOk_always (cfg : Conf) (self : Addr) (fd : ℤ) (seq : UInt64) (obj : ℕ)
    (rds : List Read)
    (hv : Run.Guarded (recvOver cfg self) OpenRead (Connection.accepted fd seq obj) rds) :
    Run.Always (recvOver cfg self) (fun c => c.fd ≠ -1 → RecvOk c)
        (Connection.accepted fd seq obj) rds ∧
      (∃ r, Run.run (recvOver cfg self) (Connection.accepted fd seq obj) rds = some r) ∧
      ∀ c rd r, recvStep cfg self c rd = some r → recvOver cfg self c rd = some r := by
  have start : (Connection.accepted fd seq obj).fd ≠ -1 →
      Receiving (Connection.accepted fd seq obj) :=
    fun _ => .head 0 (inHead_initRecv _) rfl
  have step : ∀ c rd, (c.fd ≠ -1 → Receiving c) → OpenRead c rd →
      ∃ c' evs, recvOver cfg self c rd = some (c', evs) ∧ (c'.fd ≠ -1 → Receiving c') :=
    fun c rd hc hv => receiving_step (hc hv.1) hv.2
  have always : Run.Always (recvOver cfg self) (fun c => c.fd ≠ -1 → Receiving c)
      (Connection.accepted fd seq obj) rds := by
    refine Run.always_of_guarded (fun c rd c' evs hc hv hs => ?_) start hv
    obtain ⟨c'', evs'', hs', hc''⟩ := step c rd hc hv
    cases hs.symm.trans hs'
    exact hc''
  refine ⟨always.imp fun c h hfd => (h hfd).recvOk, ?_, fun c rd r h => recvOver_of_some h⟩
  obtain ⟨c', evs, hr, -⟩ := Run.exists_run step start hv
  exact ⟨_, hr⟩

/-- A body of five bytes in pieces of one, two and two. -/
theorem recvOk_one_two_two :
    Run.Always (recvOver ⟨1, .etOpen, 0, 100, 10⟩ ⟨0, 0⟩) (fun c => c.fd ≠ -1 → RecvOk c)
      (Connection.accepted 5 1 0)
      [⟨0, [13, 0, 1, 0, 0, 0, 0, 0]⟩, ⟨0, [104]⟩, ⟨0, [105, 106]⟩, ⟨0, [107, 108]⟩] :=
  (recvOk_always _ _ _ _ _ _ (by decide +kernel)).1

end ServerNginx
