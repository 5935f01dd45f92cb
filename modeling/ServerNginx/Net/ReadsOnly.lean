import ServerNginx.Net.Receive
import ServerNginx.Net.Release

set_option autoImplicit false

/-!
# What reading leaves alone

`ReadsOnly c c'`: the connection objects differ in the receive state and the flood counters at
most. Reading by either receiver keeps to that: `ReadsOnly.etTask`, `ReadsOnly.ltCall`.
-/

namespace ServerNginx

/-- Only the receive state and the flood counters have changed. -/
def ReadsOnly (c c' : Connection) : Prop :=
  c' = { c with
    curStat := c'.curStat
    dataHeadInfo := c'.dataHeadInfo
    precvbuf := c'.precvbuf
    irecvlen := c'.irecvlen
    precvMemPointer := c'.precvMemPointer
    floodkickLastTime := c'.floodkickLastTime
    floodAttackCount := c'.floodAttackCount }

namespace ReadsOnly

variable {cfg : Conf} {self : Addr} {c c' c'' : Connection}

theorem refl (c : Connection) : ReadsOnly c c := rfl

theorem trans (h : ReadsOnly c c') (h' : ReadsOnly c' c'') : ReadsOnly c c'' := by
  rw [ReadsOnly] at *
  rw [h] at h'
  exact h'

theorem fd (h : ReadsOnly c c') : c'.fd = c.fd := (congrArg Connection.fd h :)

theorem next (h : ReadsOnly c c') : c'.next = c.next := (congrArg Connection.next h :)

theorem logicObj (h : ReadsOnly c c') : c'.logicObj = c.logicObj :=
  (congrArg Connection.logicObj h :)

theorem iCurrsequence (h : ReadsOnly c c') : c'.iCurrsequence = c.iCurrsequence :=
  (congrArg Connection.iCurrsequence h :)

theorem lastPingTime (h : ReadsOnly c c') : c'.lastPingTime = c.lastPingTime :=
  (congrArg Connection.lastPingTime h :)

theorem storePingTime (h : ReadsOnly c c') : c'.storePingTime = c.storePingTime :=
  (congrArg Connection.storePingTime h :)

theorem testFlood (cfg : Conf) (now : UInt64) (c : Connection) :
    ReadsOnly c (testFlood cfg now c).1 := by
  unfold ServerNginx.testFlood
  split_ifs <;> rfl

theorem fill {data : List UInt8} (h : c.fill data = some c') : ReadsOnly c c' := by
  unfold Connection.fill at h
  split at h
  · obtain ⟨b, -, rfl⟩ := Option.map_eq_some_iff.mp h
    rfl
  · split_ifs at h
    obtain ⟨b, -, rfl⟩ := Option.map_eq_some_iff.mp h
    rfl
  · cases h
  · cases h

theorem plastET (c : Connection) : ReadsOnly c (ngxWaitRequestHandlerProcPlastET c).1 := rfl

theorem procP1ET (now : UInt64) (c : Connection) :
    ReadsOnly c (ngxWaitRequestHandlerProcP1ET cfg self now c).1 := by
  unfold ngxWaitRequestHandlerProcP1ET
  dsimp only
  have hattach : ∀ m, ReadsOnly c (c.attach m) := fun m => rfl
  split_ifs
  · rfl
  · rfl
  · exact (hattach _).trans (testFlood cfg now _)
  · exact ((hattach _).trans (testFlood cfg now _)).trans (plastET _)
  · rfl

theorem etIter {rd : Read} {r : ETIter} (h : recvprocETIter cfg self c rd = some r) :
    ReadsOnly c r.conn := by
  obtain ⟨d, hd, rfl⟩ := Option.map_eq_some_iff.mp h
  apply (fill hd).trans
  dsimp only
  split
  · split_ifs
    · exact procP1ET rd.now d
    · rfl
  · split_ifs
    · exact procP1ET rd.now d
    · rfl
  · split_ifs
    · exact testFlood cfg rd.now d
    · exact (testFlood cfg rd.now d).trans (plastET _)
    · exact (testFlood cfg rd.now d).trans rfl
  · split_ifs
    · exact plastET d
    · rfl

theorem etTask {rets : List RecvRet} {r : Connection × Ending}
    (h : CSocket.recvprocETTask cfg self c rets = some r) : ReadsOnly c r.1 := by
  induction rets generalizing c with
  | nil => cases h
  | cons ret rets ih =>
    cases ret with
    | data rd =>
      obtain ⟨q, hq, h⟩ := Option.bind_eq_some_iff.mp h
      have hs := etIter hq
      split_ifs at h
      · cases h
        exact hs
      · cases h
        exact hs
      · exact hs.trans (ih h)
    | zero | again | reset | error =>
      cases h
      exact refl c

theorem ltCall {ret : RecvRet} {r : Connection × Ending}
    (h : CSocket.ngxReadRequestHandlerCall cfg self c ret = some r) : ReadsOnly c r.1 := by
  cases ret with
  | data rd =>
    obtain ⟨q, hq, rfl⟩ := Option.map_eq_some_iff.mp h
    rw [← recvprocETStep_eq] at hq
    obtain ⟨it, hit, rfl⟩ := Option.map_eq_some_iff.mp hq
    have hs := etIter hit
    by_cases hk : RecvEv.kick ∈ it.finish.2
    · rw [if_pos hk]
      -- the descriptor is put back
      have hfin : ReadsOnly c { it.finish.1 with fd := c.fd } := by
        unfold ETIter.finish
        split_ifs
        · rw [← hs.fd]
          exact hs
        · rw [← hs.fd]
          exact hs
      exact hfin
    · rw [if_neg hk]
      have hflood : it.floodflag = false := by
        by_contra hf
        apply hk
        rw [ETIter.finish, if_pos (by simpa using hf)]
        simp
      have hfin : it.finish.1 = it.conn := by
        rw [ETIter.finish, if_neg (by simp [hflood])]
      rw [hfin]
      exact hs
  | zero | again | reset | error =>
    cases h
    exact refl c

end ReadsOnly

end ServerNginx
