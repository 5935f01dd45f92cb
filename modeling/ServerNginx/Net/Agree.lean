import ServerNginx.Net.Receive

set_option autoImplicit false

/-!
# The two receivers are one machine

`readsLT` runs the LT handler once for every read; `readsET` enters the ET loop again whenever it
has ended behind a complete packet. Both stop at a flood kick, as the socket is closed then, and
return the connection, the messages and kicks in order, and the reads that were not made.

* `recvprocET_tasks`: a task and those behind it make the steps of the LT handler;
* **`readsET_eq`**: both receivers return the same, from every state of the connection.
-/

namespace ServerNginx

variable (cfg : Conf) (self : Addr)

/-- The LT handler on one readable event after the other. -/
def readsLT : Connection → List Read → Option (Connection × List RecvEv × List Read)
  | c, [] => some (c, [], [])
  | c, rd :: rds => (ngxReadRequestHandler cfg self c rd).bind fun r =>
    if RecvEv.kick ∈ r.2 then some (r.1, r.2, rds)
    else (readsLT r.1 rds).map fun p => (p.1, r.2 ++ p.2.1, p.2.2)

/-- At most `n` tasks of `recvproc_ET`, one after the other. -/
def recvprocETTasks : ℕ → Connection → List Read → Option (Connection × List RecvEv × List Read)
  | 0, c, rds => some (c, [], rds)
  | _ + 1, c, [] => some (c, [], [])
  | n + 1, c, rd :: rds => (recvprocET cfg self c (rd :: rds)).bind fun p =>
    if RecvEv.kick ∈ p.2.1 then some p
    else (recvprocETTasks n p.1 p.2.2).map fun q => (q.1, p.2.1 ++ q.2.1, q.2.2)

/-- `recvproc_ET`, entered again until the reads are used up; every task makes one at least. -/
def readsET (c : Connection) (rds : List Read) : Option (Connection × List RecvEv × List Read) :=
  recvprocETTasks cfg self rds.length c rds

variable {cfg self} {c : Connection} {rd : Read}

theorem kick_notMem_plastET (c : Connection) :
    RecvEv.kick ∉ (ngxWaitRequestHandlerProcPlastET c).2 := by
  simp [ngxWaitRequestHandlerProcPlastET]

theorem kick_notMem_procP1ET (now : UInt64) (c : Connection) :
    RecvEv.kick ∉ (ngxWaitRequestHandlerProcP1ET cfg self now c).2.1 := by
  unfold ngxWaitRequestHandlerProcP1ET
  dsimp only
  split_ifs
  · exact List.not_mem_nil
  · exact List.not_mem_nil
  · exact List.not_mem_nil
  · exact kick_notMem_plastET _
  · exact List.not_mem_nil

theorem kick_notMem_iter {r : ETIter} (h : recvprocETIter cfg self c rd = some r) :
    RecvEv.kick ∉ r.evs := by
  obtain ⟨d, -, rfl⟩ := Option.map_eq_some_iff.mp h
  cases d.curStat with
  | pkgHdInit | pkgHdRecving =>
    dsimp only
    split_ifs
    · exact kick_notMem_procP1ET _ _
    · exact List.not_mem_nil
  | pkgBdInit =>
    dsimp only
    split_ifs
    · exact List.not_mem_nil
    · exact kick_notMem_plastET _
    · exact List.not_mem_nil
  | pkgBdRecving =>
    dsimp only
    split_ifs
    · exact kick_notMem_plastET _
    · exact List.not_mem_nil

theorem kick_mem_finish {r : ETIter} (h : recvprocETIter cfg self c rd = some r) :
    RecvEv.kick ∈ r.finish.2 ↔ r.floodflag = true := by
  have hk := kick_notMem_iter h
  unfold ETIter.finish
  by_cases hf : r.floodflag = true
  · simp [hf]
  · simp [hf, hk]

theorem readsLT_cons (c : Connection) (rd : Read) (rds : List Read) :
    readsLT cfg self c (rd :: rds) = (recvprocETIter cfg self c rd).bind fun r =>
      if r.floodflag then some (r.finish.1, r.finish.2, rds)
      else (readsLT cfg self r.conn rds).map fun p => (p.1, r.evs ++ p.2.1, p.2.2) := by
  rw [readsLT, ← recvprocETStep_eq, recvprocETStep]
  cases hr : recvprocETIter cfg self c rd with
  | none => rfl
  | some r =>
    simp only [Option.map_some, Option.bind_some, kick_mem_finish hr]
    by_cases hf : r.floodflag = true
    · simp only [hf, if_true]
    · simp only [hf, if_false, ETIter.finish, Bool.false_eq_true]

/-- **A task and those behind it** make the steps of the LT handler, if those behind it do. -/
theorem recvprocET_tasks {n : ℕ}
    (ih : ∀ {c : Connection} {rds : List Read}, rds.length ≤ n →
      recvprocETTasks cfg self n c rds = readsLT cfg self c rds)
    (rds : List Read) : ∀ {c : Connection}, rds.length ≤ n + 1 →
      ((recvprocET cfg self c rds).bind fun p =>
        if RecvEv.kick ∈ p.2.1 then some p
        else (recvprocETTasks cfg self n p.1 p.2.2).map fun q => (q.1, p.2.1 ++ q.2.1, q.2.2)) =
      readsLT cfg self c rds := by
  induction rds with
  | nil =>
    intro c _
    have hnil := @ih c [] (Nat.zero_le n)
    simp [recvprocET, hnil, readsLT]
  | cons rd rds ihr =>
    intro c hn
    rw [List.length_cons, Nat.add_le_add_iff_right] at hn
    rw [recvprocET, readsLT_cons]
    cases hr : recvprocETIter cfg self c rd with
    | none => rfl
    | some r =>
      have hkick := kick_mem_finish hr
      have hevs := kick_notMem_iter hr
      simp only [Option.bind_some]
      by_cases hf : r.floodflag = true
      · simp [hf, hkick]
      · have hfin : r.finish = (r.conn, r.evs) := by simp [ETIter.finish, hf]
        by_cases hstop : r.stop = true
        · simp [hstop, hf, hfin, hevs, ih hn]
        · rw [← ihr (hn.trans (Nat.le_succ n))]
          simp only [hstop, hf, Bool.or_self, Bool.false_eq_true, if_false]
          cases recvprocET cfg self r.conn rds with
          | none => rfl
          | some p =>
            simp only [Option.map_some, Option.bind_some, List.mem_append, hevs, false_or]
            by_cases hk : RecvEv.kick ∈ p.2.1
            · simp only [hk, if_true, Option.map_some]
            · simp only [hk, if_false, Option.map_map]
              congr 1
              funext q
              simp

theorem recvprocETTasks_eq (n : ℕ) : ∀ {c : Connection} {rds : List Read}, rds.length ≤ n →
    recvprocETTasks cfg self n c rds = readsLT cfg self c rds := by
  induction n with
  | zero =>
    intro c rds hn
    obtain rfl := List.length_eq_zero_iff.mp (Nat.le_zero.mp hn)
    rfl
  | succ n ih =>
    intro c rds hn
    cases rds with
    | nil => rfl
    | cons rd rds => exact recvprocET_tasks ih (rd :: rds) hn

/-- **LT and ET agree.** From every state of a connection and for every list of reads, the two
receivers hand on the same messages, kick at the same read and end in the same state. -/
theorem readsET_eq (cfg : Conf) (self : Addr) (c : Connection) (rds : List Read) :
    readsET cfg self c rds = readsLT cfg self c rds :=
  recvprocETTasks_eq rds.length le_rfl

end ServerNginx
