import ServerNginx.Lib.Loop
import ServerNginx.Net.Send

set_option autoImplicit false

/-!
# The send loops stop

`sendMsg` and `sendRemainMsg` call `WriteFunc` until it returns something they act on. `isendlen` is
the `pkgLen` of a packet, so that the comparisons of the signed result with it are those of numbers.

* `WriteRet.Settles`: the results that `sendMsg` acts on; with any other it calls again at once;
* `unsent`: what is left behind some results, where those larger than what was left do not count;
* **`sendLoopsStop_iff`**: exactly when the loops stop.
-/

namespace ServerNginx

/-! ## The loops -/

/-- A send loop on the results of `WriteFunc`; beside the connection, the calls made so far. -/
def sendLoop (iter : SendSide → WriteRet → Option SendIter) (w : ℕ → WriteRet)
    (s : SendSide × ℕ) : Loop.Next (SendSide × ℕ) (Option SendIter) :=
  match iter s.1 (w s.2) with
  | none => .stop none
  | some it => if it.next = .loop then .again (it.conn, s.2 + 1) else .stop (some it)

/-- `sendMsg` makes finitely many calls. -/
def SendMsgStops (c : SendSide) (arg : ℕ) (w : ℕ → WriteRet) : Prop :=
  ∀ it ∈ sendMsg c arg, it.next = .loop →
    ∃ r, Loop.Ends (sendLoop sendMsgIter w) (it.conn, 0) r

/-- `sendRemainMsg` returns. -/
def SendRemainMsgReturns (c : SendSide) (w : ℕ → WriteRet) : Prop :=
  ∃ it ∈ sendRemainMsg c, it.next = .loop →
    ∃ r, Loop.Ends (sendLoop sendRemainIter w) (it.conn, 0) (some r)

/-- Nothing is sent, and the call was not interrupted. -/
def WriteRet.Idle : WriteRet → Prop
  | .ret k => k = 0
  | .err e => e ≠ .eintr

/-- **The send loops stop**: `sendMsg` unless `EINTR` is all that comes from some call on,
`sendRemainMsg` where from some call on nothing is sent. -/
def SendLoopsStop (c : SendSide) (arg : ℕ) (w : ℕ → WriteRet) : Prop :=
  ((∀ n, ∃ i ≥ n, w i ≠ .err .eintr) → SendMsgStops c arg w) ∧
    ((∃ n, ∀ i ≥ n, (w i).Idle) → SendRemainMsgReturns c w)

/-! ## What they stop on -/

/-- A count of at most `isendlen`, no room, or the peer gone. -/
def WriteRet.Settles (isendlen : ℕ) : WriteRet → Prop
  | .ret k => k ≤ isendlen
  | .err .eagain | .err .epipe | .err .econnreset => True
  | .err .eintr | .err .other => False

/-- What is left of `n` bytes behind a result. -/
def WriteRet.left (n : ℕ) : WriteRet → ℕ
  | .ret k => if k ≤ n then n - k else n
  | .err _ => n

/-- What is left behind the first results. -/
def unsent (isendlen : ℕ) (w : ℕ → WriteRet) : ℕ → ℕ
  | 0 => isendlen
  | n + 1 => (w n).left (unsent isendlen w n)

variable {c : SendSide} {w : ℕ → WriteRet} {r : WriteRet} {n : ℕ}

theorem sendMsgIter_of_settles (h : r.Settles c.isendlen) :
    ∀ it ∈ sendMsgIter c r, it.next ≠ .loop := by
  intro it hit
  rcases sendMsgIter_cases hit with ⟨hs, hp, hne, -⟩ | ⟨-, k, -, rfl⟩ | ⟨-, c', -, rfl⟩ |
    ⟨-, c', -, rfl⟩
  · cases r with
    | ret k =>
      have hle : k ≤ c.isendlen := h
      have hk : k ≠ c.isendlen := fun he => hne (congrArg WriteRet.ret he)
      simp only [WriteRet.Short, decide_eq_false_iff_not] at hs
      omega
    | err e =>
      cases e with
      | eagain => cases hs
      | epipe | econnreset => cases hp
      | eintr | other => exact h.elim
  all_goals simp

theorem sendMsgIter_of_not_settles (h : ¬ r.Settles c.isendlen) :
    sendMsgIter c r = some ⟨c, [], .loop⟩ := by
  cases r with
  | ret k =>
    have hgt : ¬ k ≤ c.isendlen := h
    rw [sendMsgIter, if_neg (by omega), if_neg (by omega)]
  | err e =>
    cases e with
    | eagain | epipe | econnreset => exact absurd trivial h
    | eintr | other => rfl

/-- **`sendMsg` stops** at the first result it acts on. -/
theorem ends_sendMsg_iff : (∃ r, Loop.Ends (sendLoop sendMsgIter w) (c, 0) r) ↔
    ∃ i, (w i).Settles c.isendlen := by
  constructor
  · rintro ⟨r, hr⟩
    by_contra hnone
    refine Loop.not_ends (I := fun s => s.1 = c) ?_ rfl hr
    rintro ⟨d, i⟩ rfl
    refine ⟨(d, i + 1), ?_, rfl⟩
    simp only [sendLoop, sendMsgIter_of_not_settles fun h => hnone ⟨i, h⟩, if_true]
  · rintro ⟨j, hj⟩
    let I : SendSide × ℕ → Prop := fun s => s.1 = c ∧ s.2 ≤ j
    have hstep : ∀ s, I s → (sendLoop sendMsgIter w s).Sat
        (fun t => I t ∧ j - t.2 < j - s.2) (fun _ => True) := by
      rintro ⟨d, i⟩ ⟨rfl, hi⟩
      dsimp only at hi
      by_cases hs : (w i).Settles d.isendlen
      · have hstop := sendMsgIter_of_settles hs
        rw [sendLoop]
        cases hit : sendMsgIter d (w i) with
        | none => exact trivial
        | some it =>
          simp only [if_neg (hstop it hit)]
          exact trivial
      · have hne : i ≠ j := fun he => hs (he ▸ hj)
        simp only [sendLoop, sendMsgIter_of_not_settles hs, if_true]
        exact ⟨⟨rfl, by dsimp only; omega⟩, by dsimp only; omega⟩
    obtain ⟨r, hr, -⟩ := Loop.exists_ends (fun s => j - s.2) hstep
      (show I (c, 0) from ⟨rfl, Nat.zero_le j⟩)
    exact ⟨r, hr⟩

/-! ## The rest of a response -/

theorem sendRemainIter_goes (hp : r.PeerGone = false) (hleft : r.left c.isendlen ≠ 0) :
    ∃ c', sendRemainIter c r = some ⟨c', [], .loop⟩ ∧ c'.isendlen = r.left c.isendlen ∧
      (c.Owned → c'.Owned) := by
  cases r with
  | ret k =>
    rw [WriteRet.left] at hleft ⊢
    rcases lt_trichotomy k c.isendlen with hlt | heq | hgt
    · rw [if_pos hlt.le] at hleft ⊢
      refine ⟨c.advance k, ?_, rfl, id⟩
      rw [sendRemainIter, if_pos hlt, SendSide.remainNext]
      exact congrArg some (congrArg (SendIter.mk _ _) (if_pos hleft))
    · rw [if_pos heq.le] at hleft
      exact absurd (by omega) hleft
    · rw [if_neg (by omega)] at hleft ⊢
      refine ⟨c, ?_, rfl, id⟩
      rw [sendRemainIter, if_neg (by omega), if_neg (by omega), SendSide.remainNext, if_pos hleft]
  | err e =>
    have hlen : c.isendlen ≠ 0 := hleft
    cases e with
    | epipe => cases hp
    | econnreset => cases hp
    | eagain | eintr | other =>
      refine ⟨c, ?_, rfl, id⟩
      rw [sendRemainIter, SendSide.remainNext, if_pos hlen]

theorem sendRemainIter_stops (ho : c.Owned) (hlen : c.isendlen ≠ 0)
    (h : r.PeerGone = true ∨ r.left c.isendlen = 0) :
    ∃ it, sendRemainIter c r = some it ∧ it.next ≠ .loop := by
  obtain ⟨c', hc', -⟩ := ho.drop
  have ho' : (c.oprEvent .readEvent).Owned := ho
  obtain ⟨d, hd, hdrop⟩ := ho'.drop
  rcases h with hp | hleft
  · cases r with
    | ret k => cases hp
    | err e =>
      cases e with
      | eagain | eintr | other => cases hp
      | epipe | econnreset =>
        exact ⟨_, by rw [sendRemainIter, hc', Option.map_some], by simp⟩
  · cases r with
    | ret k =>
      rw [WriteRet.left] at hleft
      split_ifs at hleft with hle
      · obtain rfl : k = c.isendlen := by omega
        refine ⟨_, by rw [sendRemainIter, if_neg (lt_irrefl _), if_pos rfl, hd, Option.map_some],
          ?_⟩
        simp [SendSide.remainNext, hdrop.isendlen]
      · exact absurd hleft hlen
    | err e => exact absurd hleft hlen

/-- **`sendRemainMsg` returns** when everything is sent, or the peer is gone. -/
theorem ends_sendRemain_iff (ho : c.Owned) (hlen : c.isendlen ≠ 0) :
    (∃ r, Loop.Ends (sendLoop sendRemainIter w) (c, 0) (some r)) ↔
      ∃ i, (w i).PeerGone = true ∨ unsent c.isendlen w i = 0 := by
  constructor
  · rintro ⟨r, hr⟩
    by_contra hnone
    have hpeer : ∀ i, (w i).PeerGone = false := fun i =>
      Bool.eq_false_iff.mpr fun h => hnone ⟨i, Or.inl h⟩
    have hleft : ∀ i, unsent c.isendlen w i ≠ 0 := fun i h => hnone ⟨i, Or.inr h⟩
    refine Loop.not_ends (I := fun s => s.1.isendlen = unsent c.isendlen w s.2) ?_ rfl hr
    rintro ⟨d, i⟩ hd
    have hd : d.isendlen = unsent c.isendlen w i := hd
    obtain ⟨c', hc', hlen', -⟩ := sendRemainIter_goes (c := d) (hpeer i) (hd ▸ hleft (i + 1))
    refine ⟨(c', i + 1), ?_, hlen'.trans (by rw [hd]; rfl)⟩
    simp only [sendLoop, hc', if_true]
  · rintro ⟨j, hj⟩
    let I : SendSide × ℕ → Prop := fun s =>
      s.1.isendlen = unsent c.isendlen w s.2 ∧ s.1.isendlen ≠ 0 ∧ s.1.Owned ∧ s.2 ≤ j
    have hstep : ∀ s, I s → (sendLoop sendRemainIter w s).Sat
        (fun t => I t ∧ j - t.2 < j - s.2) (fun r => r.isSome = true) := by
      rintro ⟨d, i⟩ ⟨hd, hpos, hown, hi⟩
      dsimp only at hd hpos hown hi
      by_cases hstop : (w i).PeerGone = true ∨ (w i).left d.isendlen = 0
      · obtain ⟨it, hit, hnext⟩ := sendRemainIter_stops hown hpos hstop
        simp only [sendLoop, hit, if_neg hnext]
        exact rfl
      · obtain ⟨hp, hleft⟩ := not_or.mp hstop
        obtain ⟨c', hc', hlen', ho'⟩ := sendRemainIter_goes (Bool.eq_false_iff.mpr hp) hleft
        have hne : i ≠ j := by
          rintro rfl
          exact hj.elim hp (hd ▸ hpos)
        simp only [sendLoop, hc', if_true]
        refine ⟨⟨?_, hlen' ▸ hleft, ho' hown, ?_⟩, ?_⟩
        · rw [unsent, ← hd]
          exact hlen'
        · dsimp only
          omega
        · dsimp only
          omega
    obtain ⟨r, hr, hsome⟩ := Loop.exists_ends (fun s => j - s.2) hstep
      (show I (c, 0) from ⟨rfl, hlen, ho, Nat.zero_le j⟩)
    obtain ⟨it, rfl⟩ := Option.isSome_iff_exists.mp hsome
    exact ⟨it, hr⟩

/-! ## Both loops -/

theorem sendMsgStops_iff {arg : ℕ} : SendMsgStops c arg w ↔
    (c.memory arg = some c.iCurrsequence → ∃ i, (w i).Settles c.isendlen) := by
  unfold SendMsgStops sendMsg
  cases hq : c.memory arg with
  | none => simp
  | some q =>
    rw [Option.bind_some]
    by_cases hc : q = c.iCurrsequence
    · rw [if_neg (not_not.mpr hc), ← ends_sendMsg_iff]
      simp [hc]
    · rw [if_pos hc]
      refine iff_of_true (fun it hit hnext => ?_) fun he => absurd (Option.some.inj he) hc
      obtain ⟨c', -, rfl⟩ := Option.map_eq_some_iff.mp hit
      cases hnext

theorem sendRemainMsgReturns_iff : SendRemainMsgReturns c w ↔
    ∃ a q, c.psendMemPointer = some a ∧ c.memory a = some q ∧ (q = c.iCurrsequence →
      ∃ i, (w i).PeerGone = true ∨ unsent c.isendlen w i = 0) := by
  constructor
  · rintro ⟨it, hit, hends⟩
    obtain ⟨q, hq, hcheck⟩ := Option.bind_eq_some_iff.mp hit
    obtain ⟨a, ha, hmem⟩ := Option.bind_eq_some_iff.mp hq
    have ho : c.Owned := fun b hb => by
      rw [Option.mem_def, ha] at hb
      cases hb
      rw [hmem]
      rfl
    refine ⟨a, q, ha, hmem, fun hc => ?_⟩
    rw [if_neg (not_not.mpr hc)] at hcheck
    cases hcheck
    by_cases hlen : c.isendlen = 0
    · exact ⟨0, Or.inr hlen⟩
    · exact (ends_sendRemain_iff ho hlen).mp (hends (if_pos hlen))
  · rintro ⟨a, q, ha, hmem, hstop⟩
    have ho : c.Owned := fun b hb => by
      rw [Option.mem_def, ha] at hb
      cases hb
      rw [hmem]
      rfl
    unfold SendRemainMsgReturns sendRemainMsg
    rw [ha, Option.bind_some, hmem, Option.bind_some]
    by_cases hc : q = c.iCurrsequence
    · refine ⟨⟨c, [], c.remainNext⟩, if_neg (not_not.mpr hc), fun hnext => ?_⟩
      have hlen : c.isendlen ≠ 0 := by
        intro hz
        simp [SendSide.remainNext, hz] at hnext
      exact (ends_sendRemain_iff ho hlen).mpr (hstop hc)
    · obtain ⟨c', hc', -⟩ := ho.drop
      refine ⟨⟨c'.unlock, [.unlock], .ret⟩, ?_, fun hnext => by cases hnext⟩
      rw [if_pos hc, hc']
      rfl

/-- **Exactly when the send loops stop**: `sendMsg`, on a current header, gets a result it acts on;
`sendRemainMsg` finds its header, and if that is current, everything is sent or the peer is gone. -/
theorem sendLoopsStop_iff (c : SendSide) (arg : ℕ) (w : ℕ → WriteRet) :
    SendLoopsStop c arg w ↔
      ((∀ n, ∃ i ≥ n, w i ≠ .err .eintr) → c.memory arg = some c.iCurrsequence →
        ∃ i, (w i).Settles c.isendlen) ∧
      ((∃ n, ∀ i ≥ n, (w i).Idle) → ∃ a q, c.psendMemPointer = some a ∧ c.memory a = some q ∧
        (q = c.iCurrsequence → ∃ i, (w i).PeerGone = true ∨ unsent c.isendlen w i = 0)) := by
  rw [SendLoopsStop, sendMsgStops_iff, sendRemainMsgReturns_iff]

/-- **A socket without room**: `sendRemainMsg` calls again and again. -/
theorem not_sendLoopsStop : ¬ ∀ (c : SendSide) (arg : ℕ) (w : ℕ → WriteRet), 0 < c.isendlen →
    SendLoopsStop c arg w := by
  intro h
  let c : SendSide := ⟨1, true, some 0, some ⟨0, iLenMsgHeader⟩, 8, true, .writeEvent,
    Function.update (fun _ => none) 0 (some 1)⟩
  obtain ⟨-, hremain⟩ := h c 0 (fun _ => .err .eagain) (by decide)
  obtain ⟨a, q, ha, hq, hstop⟩ :=
    sendRemainMsgReturns_iff.mp (hremain ⟨0, fun i _ => by simp [WriteRet.Idle]⟩)
  cases ha
  cases hq
  obtain ⟨i, hi⟩ := hstop rfl
  have hunsent : ∀ n, unsent 8 (fun _ => .err .eagain) n = 8 := by
    intro n
    induction n with
    | zero => rfl
    | succ n ih => exact ih
  rcases hi with hi | hi
  · cases hi
  · cases (hunsent i).symm.trans hi

end ServerNginx
