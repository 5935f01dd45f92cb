import Mathlib.Logic.Function.Basic
import ServerNginx.Net.Connection

set_option autoImplicit false

/-!
# Sending a response

The send side of a connection and the two loops that write to its socket. `sendMsgIter` and
`sendRemainIter` handle what one call of `WriteFunc` returned; `none` is an access to memory that
is not there: a header behind a null or a freed `psendMemPointer`, or a block freed twice.

* `SendSide.drop`: what every branch that is done with a response does;
* `sendMsg_cases`, `sendMsgIter_cases`, `sendRemainMsg_cases`, `sendRemainIter_cases`: all that a
  step of `sendMsg` and of `sendRemainMsg` can do.
-/

namespace ServerNginx

/-- The values of `errno` the send loops tell apart. -/
inductive Errno
  | eagain
  | eintr
  | epipe
  | econnreset
  | other
  deriving DecidableEq, Repr

/-- What `WriteFunc` returns: a count, or `-1` with `errno`. -/
inductive WriteRet
  | ret (k : ℕ)
  | err (errno : Errno)
  deriving DecidableEq, Repr

/-- `errno == EPIPE || errno == ECONNRESET`. -/
def WriteRet.PeerGone : WriteRet → Bool
  | .err .epipe | .err .econnreset => true
  | _ => false

/-- The socket has not taken all `isendlen` bytes and has no room for more. -/
def WriteRet.Short (isendlen : ℕ) : WriteRet → Bool
  | .ret k => k < isendlen
  | .err .eagain => true
  | _ => false

/-- The event `ngx_epoll_opr_event` asks for: `READEVENT` or `WRITEEVENT`. -/
inductive OprEvent
  | readEvent
  | writeEvent
  deriving DecidableEq, Repr

/-- A place in a block of `AllocMemory`. -/
structure MemPtr where
  block : ℕ
  off : ℕ
  deriving DecidableEq, Repr

/-- The send side of `ngx_connection_s`, with what its functions reach: the lock, the event asked
for, and for each block of `AllocMemory` in use the sequence number in its message header. -/
structure SendSide where
  iCurrsequence : UInt64
  deleteFlag : Bool
  psendMemPointer : Option ℕ
  psendbuf : Option MemPtr
  isendlen : ℕ
  logicPorcMutex : Bool
  event : OprEvent
  memory : ℕ → Option UInt64

/-- A byte of a response: at an offset of the packet `psendbuf` points to, or of `m_iov[i]`. -/
inductive RespByte
  | psendbuf (off : ℕ)
  | iov (i off : ℕ)
  deriving DecidableEq, Repr

/-- What the processing of a packet shows of itself. -/
inductive SendEv
  | lock
  | unlock
  /-- the socket accepts bytes -/
  | accepted (bytes : List RespByte)
  /-- `ret == isendlen`: the response is reported as sent -/
  | sent
  deriving DecidableEq, Repr

/-- Where a send function goes on: it calls `WriteFunc`, or it has returned, waiting for
`EPOLLOUT` or for nothing. -/
inductive SendNext
  | loop
  | wait
  | ret
  deriving DecidableEq, Repr

/-- How a step of a send function leaves it. -/
structure SendIter where
  conn : SendSide
  evs : List SendEv
  next : SendNext

namespace SendSide

variable (c : SendSide)

/-- Block `a` is not in use any more. -/
def freed (a : ℕ) : SendSide := { c with memory := Function.update c.memory a none }

/-- `FreeMemory`. -/
def freeMemory : Option ℕ → Option SendSide
  | none => some c
  | some a => if (c.memory a).isSome then some (c.freed a) else none

/-- Free the response if it has a block of its own, and forget it. -/
def drop : Option SendSide :=
  (if c.deleteFlag then c.freeMemory c.psendMemPointer else some c).map fun c =>
    { c with psendMemPointer := none, psendbuf := none, isendlen := 0 }

/-- `logicPorcMutex.unlock()`. -/
def unlock : SendSide := { c with logicPorcMutex := false }

/-- `psendbuf += ret`, `isendlen -= ret`. -/
def advance (ret : ℕ) : SendSide :=
  { c with
    psendbuf := c.psendbuf.map fun p => { p with off := p.off + ret }
    isendlen := c.isendlen - ret }

/-- `ngx_epoll_opr_event(c, event, 0, EPOLL_CTL_MOD)`. -/
def oprEvent (event : OprEvent) : SendSide := { c with event := event }

end SendSide

/-- `sendMsg` up to its loop, on the message header in block `arg`. -/
def sendMsg (c : SendSide) (arg : ℕ) : Option SendIter :=
  (c.memory arg).bind fun iCurrsequence =>
    if iCurrsequence ≠ c.iCurrsequence then c.drop.map fun c => ⟨c.unlock, [.unlock], .ret⟩
    else some ⟨c, [], .loop⟩

/-- The loop of `sendMsg`, for a `WriteFunc` that returned `r`. -/
def sendMsgIter (c : SendSide) : WriteRet → Option SendIter
  | .ret ret =>
    if ret < c.isendlen then some ⟨(c.advance ret).oprEvent .writeEvent, [], .wait⟩
    else if ret = c.isendlen then c.drop.map fun c => ⟨c.unlock, [.unlock, .sent], .ret⟩
    else some ⟨c, [], .loop⟩
  | .err .eagain => some ⟨c.oprEvent .writeEvent, [], .wait⟩
  -- the lock stays with a response that is given up
  | .err .epipe | .err .econnreset => c.drop.map fun c => ⟨c, [], .ret⟩
  | .err .eintr | .err .other => some ⟨c, [], .loop⟩

/-- `while(pConn ->isendlen != 0)`. -/
def SendSide.remainNext (c : SendSide) : SendNext := if c.isendlen ≠ 0 then .loop else .ret

/-- `sendRemainMsg` up to its loop. -/
def sendRemainMsg (c : SendSide) : Option SendIter :=
  (c.psendMemPointer.bind c.memory).bind fun iCurrsequence =>
    if iCurrsequence ≠ c.iCurrsequence then c.drop.map fun c => ⟨c.unlock, [.unlock], .ret⟩
    else some ⟨c, [], c.remainNext⟩

/-- The loop of `sendRemainMsg`, for a `WriteFunc` that returned `r`. -/
def sendRemainIter (c : SendSide) : WriteRet → Option SendIter
  | .ret ret =>
    if ret < c.isendlen then some ⟨c.advance ret, [], (c.advance ret).remainNext⟩
    else if ret = c.isendlen then
      (c.oprEvent .readEvent).drop.map fun c => ⟨c.unlock, [.unlock, .sent], c.remainNext⟩
    else some ⟨c, [], c.remainNext⟩
  | .err .epipe | .err .econnreset => c.drop.map fun c => ⟨c.unlock, [.unlock], .ret⟩
  | .err .eagain | .err .eintr | .err .other => some ⟨c, [], c.remainNext⟩

/-! ## What a step can do -/

variable {c c' : SendSide} {r : WriteRet} {it : SendIter}

/-- The block of the response is in use. -/
def SendSide.Owned (c : SendSide) : Prop := ∀ a ∈ c.psendMemPointer, (c.memory a).isSome

/-- `c'` is `c` without its response. -/
structure SendSide.Dropped (c c' : SendSide) : Prop where
  psendMemPointer : c'.psendMemPointer = none
  isendlen : c'.isendlen = 0
  logicPorcMutex : c'.logicPorcMutex = c.logicPorcMutex
  event : c'.event = c.event
  memory : ∀ b, c.psendMemPointer ≠ some b → c'.memory b = c.memory b

theorem SendSide.dropped_of_drop (h : c.drop = some c') : c.Dropped c' := by
  obtain ⟨d, hd, rfl⟩ := Option.map_eq_some_iff.mp h
  have hfree : ∀ p, c.freeMemory p = some d → d.logicPorcMutex = c.logicPorcMutex ∧
      d.event = c.event ∧ ∀ b, p ≠ some b → d.memory b = c.memory b := by
    intro p hp
    cases p with
    | none =>
      cases hp
      exact ⟨rfl, rfl, fun _ _ => rfl⟩
    | some a =>
      rw [freeMemory] at hp
      split_ifs at hp
      cases hp
      exact ⟨rfl, rfl, fun b hb => Function.update_of_ne (fun he => hb (congrArg some he.symm)) _ _⟩
  split_ifs at hd with hflag
  · exact ⟨rfl, rfl, (hfree _ hd).1, (hfree _ hd).2.1, (hfree _ hd).2.2⟩
  · cases hd
    exact ⟨rfl, rfl, rfl, rfl, fun _ _ => rfl⟩

theorem SendSide.Owned.drop (h : c.Owned) : ∃ c', c.drop = some c' ∧ c.Dropped c' := by
  have hsome : c.drop.isSome := by
    rw [SendSide.drop, Option.isSome_map]
    split_ifs
    · cases hp : c.psendMemPointer with
      | none => rfl
      | some a => rw [SendSide.freeMemory, if_pos (h a hp)]; rfl
    · rfl
  obtain ⟨c', hc'⟩ := Option.isSome_iff_exists.mp hsome
  exact ⟨c', hc', dropped_of_drop hc'⟩

/-- **`sendMsg`** gives up a stale response, or comes to its loop. -/
theorem sendMsg_cases {arg : ℕ} (h : sendMsg c arg = some it) :
    (it = ⟨c, [], .loop⟩) ∨ ∃ c', c.drop = some c' ∧ it = ⟨c'.unlock, [.unlock], .ret⟩ := by
  obtain ⟨q, -, h⟩ := Option.bind_eq_some_iff.mp h
  split_ifs at h with hq
  · obtain ⟨c', hc', rfl⟩ := Option.map_eq_some_iff.mp h
    exact Or.inr ⟨c', hc', rfl⟩
  · exact Or.inl (Option.some.inj h).symm

theorem SendSide.advance_zero : c.advance 0 = c := by
  simp [SendSide.advance]

/-- **The loop of `sendMsg`** goes on, leaves the rest to `EPOLLOUT`, is done with the response, or
gives it up without the lock. -/
theorem sendMsgIter_cases (h : sendMsgIter c r = some it) :
    (r.Short c.isendlen = false ∧ r.PeerGone = false ∧ r ≠ .ret c.isendlen ∧
      it = ⟨c, [], .loop⟩) ∨
    (r.Short c.isendlen = true ∧ ∃ k, (r = .ret k ∧ k < c.isendlen ∨ r = .err .eagain ∧ k = 0) ∧
      it = ⟨(c.advance k).oprEvent .writeEvent, [], .wait⟩) ∨
    (r = .ret c.isendlen ∧ ∃ c', c.drop = some c' ∧ it = ⟨c'.unlock, [.unlock, .sent], .ret⟩) ∨
    (r.PeerGone = true ∧ ∃ c', c.drop = some c' ∧ it = ⟨c', [], .ret⟩) := by
  unfold sendMsgIter at h
  split at h
  case h_1 ret =>
    split_ifs at h with hlt heq
    · cases h
      exact Or.inr (Or.inl ⟨by simp [WriteRet.Short, hlt], ret, Or.inl ⟨rfl, hlt⟩, rfl⟩)
    · obtain ⟨c', hc', rfl⟩ := Option.map_eq_some_iff.mp h
      exact Or.inr (Or.inr (Or.inl ⟨by rw [heq], c', hc', rfl⟩))
    · cases h
      exact Or.inl ⟨by simp [WriteRet.Short, hlt], rfl, by simpa using heq, rfl⟩
  case h_2 =>
    cases h
    exact Or.inr (Or.inl ⟨rfl, 0, Or.inr ⟨rfl, rfl⟩, by rw [SendSide.advance_zero]⟩)
  case h_3 | h_4 =>
    obtain ⟨c', hc', rfl⟩ := Option.map_eq_some_iff.mp h
    exact Or.inr (Or.inr (Or.inr ⟨rfl, c', hc', rfl⟩))
  case h_5 | h_6 =>
    cases h
    exact Or.inl ⟨rfl, rfl, nofun, rfl⟩

/-- **`sendRemainMsg`** finds the header of the response; it gives up a stale response, or comes
to its loop. -/
theorem sendRemainMsg_cases (h : sendRemainMsg c = some it) :
    (∃ a ∈ c.psendMemPointer, (c.memory a).isSome) ∧
    ((it = ⟨c, [], c.remainNext⟩) ∨
      ∃ c', c.drop = some c' ∧ it = ⟨c'.unlock, [.unlock], .ret⟩) := by
  obtain ⟨q, hq, h⟩ := Option.bind_eq_some_iff.mp h
  obtain ⟨a, ha, hq⟩ := Option.bind_eq_some_iff.mp hq
  refine ⟨⟨a, ha, by rw [hq]; rfl⟩, ?_⟩
  split_ifs at h with hne
  · obtain ⟨c', hc', rfl⟩ := Option.map_eq_some_iff.mp h
    exact Or.inr ⟨c', hc', rfl⟩
  · exact Or.inl (Option.some.inj h).symm

/-- **The loop of `sendRemainMsg`** goes on with fewer bytes or as many, or gives back the lock. -/
theorem sendRemainIter_cases (h : sendRemainIter c r = some it) :
    (∃ k, (r = .ret k ∧ k < c.isendlen ∨ r.PeerGone = false ∧ r ≠ .ret c.isendlen ∧ k = 0) ∧
      it = ⟨c.advance k, [], (c.advance k).remainNext⟩) ∨
    (r = .ret c.isendlen ∧ ∃ c', (c.oprEvent .readEvent).drop = some c' ∧
      it = ⟨c'.unlock, [.unlock, .sent], .ret⟩) ∨
    (r.PeerGone = true ∧ ∃ c', c.drop = some c' ∧ it = ⟨c'.unlock, [.unlock], .ret⟩) := by
  unfold sendRemainIter at h
  split at h
  case h_1 ret =>
    split_ifs at h with hlt heq
    · cases h
      exact Or.inl ⟨ret, Or.inl ⟨rfl, hlt⟩, rfl⟩
    · obtain ⟨c', hc', rfl⟩ := Option.map_eq_some_iff.mp h
      have hnext : c'.remainNext = .ret := by
        rw [SendSide.remainNext, (SendSide.dropped_of_drop hc').isendlen, if_neg (not_not.mpr rfl)]
      exact Or.inr (Or.inl ⟨by rw [heq], c', hc', by rw [← hnext]⟩)
    · cases h
      exact Or.inl ⟨0, Or.inr ⟨rfl, by simpa using heq, rfl⟩, by rw [SendSide.advance_zero]⟩
  case h_2 | h_3 =>
    obtain ⟨c', hc', rfl⟩ := Option.map_eq_some_iff.mp h
    exact Or.inr (Or.inr ⟨rfl, c', hc', rfl⟩)
  case h_4 | h_5 | h_6 =>
    cases h
    exact Or.inl ⟨0, Or.inr ⟨rfl, nofun, rfl⟩, by rw [SendSide.advance_zero]⟩

end ServerNginx
