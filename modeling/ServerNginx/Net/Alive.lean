import ServerNginx.Net.Balance

set_option autoImplicit false

/-!
# What a pending write needs

A connection over all its packets: the packets are processed one after the other, and every
`EPOLLOUT` event queues a `sendRemainMsg` task, which may run at any time, beside the next packet
and beside another of its kind. `Traffic.step` runs the processing of `Job.step` and these tasks.

* `Traffic.Live`: the header `sendRemainMsg` looks at and the buffers `WriteFunc` reads exist;
* `Traffic.Calm`: responses of `Business` go out at once, pings are left to `EPOLLOUT` only by
  objects with nothing in `m_iov`, and what is left gets one event;
* **`live_of_calm`**: in a run of calm steps, every queued `sendRemainMsg` finds all it needs.
-/

namespace ServerNginx

/-- A connection with the thread that processes its latest packet and its `sendRemainMsg` tasks. -/
structure Traffic where
  proc : Processing
  job : Job
  /-- the block `m_iov[0].iov_base` points into -/
  iovArg : Option ℕ
  /-- the mappings `WriteData` has ended -/
  unmapped : List ℕ
  /-- `sendMsg` has left the rest of a response, and no `sendRemainMsg` has started on it -/
  left : Bool
  /-- `sendRemainMsg` tasks in the queue -/
  queued : ℕ
  /-- threads in the loop of `sendRemainMsg` -/
  looping : ℕ

/-- What happens on a connection. -/
inductive TrafficStep
  /-- a packet is complete -/
  | packet (j : Job)
  /-- a step of its processing -/
  | job (i : JobStep)
  /-- `ngx_write_request_handler` -/
  | epollOut
  /-- a thread takes a `sendRemainMsg` task -/
  | remain
  /-- `WriteFunc` returns to `sendRemainMsg` -/
  | remainWrite (r : WriteRet)

namespace Traffic

variable (t : Traffic)

/-- The mappings ended after one more call of `WriteData`: it ends that of `m_file_ptr`. -/
def unmap : List ℕ :=
  match t.proc.obj.mFilePtr with
  | .mapped id _ => id :: t.unmapped
  | _ => t.unmapped

/-- A step of the thread that processes a packet. It returns where `sendMsg` leaves the rest to
`EPOLLOUT`. -/
def jobStep (i : JobStep) : Option Traffic :=
  (t.job.step t.proc i).map fun q =>
    { t with
      proc := if q.1.phase = .waiting then q.1.finish else q.1
      left := t.left || decide (q.1.phase = .waiting)
      iovArg := if t.proc.phase = .locked .handleBusiness ∧ i = .run then some t.job.arg
        else t.iovArg
      unmapped := match i with
        | .write _ => t.unmap
        | _ => t.unmapped }

/-- **One step of a connection**; `none` is an access to memory that is not there, or a step that
cannot be taken. -/
def step : TrafficStep → Option (Traffic × List Unit)
  | .packet j =>
    if t.proc.phase = .done ∧ j.mETflag = t.job.mETflag ∧ t.proc.conn.memory j.arg = none then
      some ({ t with
        job := j
        proc := { t.proc with
          conn := { t.proc.conn with
            memory := Function.update t.proc.conn.memory j.arg (some t.proc.conn.iCurrsequence) }
          phase := .start } }, [])
    else none
  | .job i => (t.jobStep i).map fun t => (t, [])
  | .epollOut => some ({ t with queued := t.queued + 1 }, [])
  | .remain =>
    if t.queued = 0 then none
    else (sendRemainMsg t.proc.conn).map fun it =>
      ({ t with
        proc := { t.proc with conn := it.conn }
        left := false
        queued := t.queued - 1
        looping := if it.next = .loop then t.looping + 1 else t.looping }, [])
  | .remainWrite r =>
    if t.looping = 0 then none
    else (sendRemainIter t.proc.conn r).map fun it =>
      ({ t with
        proc := { t.proc with conn := it.conn }
        unmapped := t.unmap
        looping := if it.next = .loop then t.looping else t.looping - 1 }, [])

/-- The bytes of an `m_iov` entry are there. -/
def BaseLive (v : Iovec) : Prop :=
  match v.iovBase with
  | .pkgHeader _ => ∃ b ∈ t.iovArg, (t.proc.conn.memory b).isSome
  | .writeBuffer => True
  | .file (.mapped id _) _ => id ∉ t.unmapped
  | .unset | .file .null _ | .file .mapFailed _ => v.iovLen = 0

/-- **What `sendRemainMsg` needs**: the header behind `psendMemPointer` and all `WriteFunc` reads,
which is `m_iov`. -/
structure Live : Prop where
  header : ∃ a ∈ t.proc.conn.psendMemPointer, (t.proc.conn.memory a).isSome
  iov : ∀ v ∈ t.proc.obj.mIov.take t.proc.obj.mIovCount, t.BaseLive v

/-- **A calm step.** -/
def Calm : TrafficStep → Prop
  | .job (.write r) =>
    match t.proc.phase with
    | .sending .handleBusiness => r.Short t.proc.conn.isendlen = false
    | .sending .handlePing =>
      r.Short t.proc.conn.isendlen = true → t.proc.obj.mIovCount = 0
    | _ => True
  | .epollOut => t.left = true ∧ t.queued = 0
  | _ => True

/-- A connection on which nothing is going on. -/
structure Quiet : Prop where
  phase : t.proc.phase = .done
  psendMemPointer : t.proc.conn.psendMemPointer = none
  left : t.left = false
  queued : t.queued = 0
  looping : t.looping = 0

/-! ## Two kinds of states -/

/-- The processing of a packet has not got to the lock. -/
def BeforeLock : Prop :=
  t.proc.phase = .done ∨ t.proc.phase = .start ∨
    t.job.mETflag = .etClose ∧ (t.proc.phase = .received ∨ ∃ h, t.proc.phase = .called h)

/-- A ping is left to one `sendRemainMsg`. -/
structure Left : Prop where
  lock : t.proc.conn.logicPorcMutex = true
  block : ∃ a, t.proc.conn.psendMemPointer = some a ∧ (t.proc.conn.memory a).isSome ∧ a ≠ t.job.arg
  isendlen : t.proc.conn.isendlen ≠ 0
  count : t.proc.obj.mIovCount = 0
  before : t.BeforeLock
  once : t.left = true ∧ t.looping = 0 ∧ t.queued ≤ 1 ∨
    t.left = false ∧ t.queued = 0 ∧ t.looping = 1

/-- What a prepared response rests on. -/
def Prepared (j : Job) (h : Handler) (c : SendSide) : Prop :=
  c.logicPorcMutex = true ∧ c.psendMemPointer = j.block h ∧
    (h = .handlePing → (c.memory j.tptr).isSome ∧ c.isendlen ≠ 0 ∧ j.tptr ≠ j.arg)

/-- What the processing of a packet rests on while nothing is left. -/
def Rests (j : Job) (p : Processing) : Prop :=
  match p.phase with
  | .done | .start => p.conn.psendMemPointer = none
  | .received | .called _ => p.conn.psendMemPointer = none ∧
    (j.mETflag = .etOpen → p.conn.logicPorcMutex = true)
  | .locked _ => p.conn.psendMemPointer = none ∧ p.conn.logicPorcMutex = true
  | .prepared h | .sending h => Prepared j h p.conn
  | .waiting | .remaining => False

/-- Nothing is left; a response may be on its way. -/
structure Clear : Prop where
  left : t.left = false
  queued : t.queued = 0
  looping : t.looping = 0
  rests : Rests t.job t.proc

variable {t t' : Traffic} {j : Job} {p q : Processing} {i : JobStep} {os : List SendEv}

/-! ## The steps before the lock -/

/-- What the steps before the lock leave alone. -/
structure SameResponse (j : Job) (p q : Processing) : Prop where
  obj : q.obj = p.obj
  psendMemPointer : q.conn.psendMemPointer = p.conn.psendMemPointer
  isendlen : q.conn.isendlen = p.conn.isendlen
  memory : ∀ a, a ≠ j.arg → q.conn.memory a = p.conn.memory a

theorem run_start (hp : p.phase = .start) (hs : j.run p = some (q, os)) :
    SameResponse j p q ∧ q.phase = .received ∧
      (j.mETflag = .etClose ∧ q.conn.logicPorcMutex = p.conn.logicPorcMutex ∨
        j.mETflag = .etOpen ∧ p.conn.logicPorcMutex = false ∧ q.conn.logicPorcMutex = true) := by
  rcases Job.run_start_cases hp hs with ⟨het, -, rfl⟩ | ⟨het, hlock, -, rfl⟩
  · exact ⟨⟨rfl, rfl, rfl, fun _ _ => rfl⟩, rfl, Or.inl ⟨het, rfl⟩⟩
  · exact ⟨⟨rfl, rfl, rfl, fun _ _ => rfl⟩, rfl, Or.inr ⟨het, hlock, rfl⟩⟩

theorem run_received (hp : p.phase = .received) (hs : j.run p = some (q, os)) :
    SameResponse j p q ∧ (q.phase = .done ∧
        (j.mETflag = .etClose → q.conn.logicPorcMutex = p.conn.logicPorcMutex) ∨
      (∃ h, q.phase = .called h) ∧ q.conn.logicPorcMutex = p.conn.logicPorcMutex) := by
  rcases Job.run_received_cases hp hs with ⟨-, ⟨het, -, rfl⟩ | ⟨het, -, rfl⟩⟩ |
    ⟨-, -, n, -, ⟨-, rfl⟩ | ⟨k, -, rfl⟩⟩
  · exact ⟨⟨rfl, rfl, rfl, fun _ _ => rfl⟩, Or.inl ⟨rfl, fun _ => rfl⟩⟩
  · refine ⟨⟨rfl, rfl, rfl, fun _ _ => rfl⟩, Or.inl ⟨rfl, fun h => ?_⟩⟩
    rw [het] at h
    cases h
  · exact ⟨⟨rfl, rfl, rfl, fun _ _ => rfl⟩, Or.inl ⟨rfl, fun _ => rfl⟩⟩
  · exact ⟨⟨rfl, rfl, rfl, fun _ _ => rfl⟩, Or.inr ⟨⟨k, rfl⟩, rfl⟩⟩

theorem run_called {h : Handler} (hp : p.phase = .called h) (hs : j.run p = some (q, os)) :
    SameResponse j p q ∧ (q.phase = .done ∧ q.conn.logicPorcMutex = p.conn.logicPorcMutex ∨
      q.phase = .locked h ∧ (j.mETflag = .etClose ∧ p.conn.logicPorcMutex = false ∧
          q.conn.logicPorcMutex = true ∨
        j.mETflag = .etOpen ∧ q.conn.logicPorcMutex = p.conn.logicPorcMutex)) := by
  rcases Job.run_called_cases hp hs with ⟨-, -, -, rfl⟩ | ⟨-, hlock⟩
  · exact ⟨⟨rfl, rfl, rfl, fun a ha => Function.update_of_ne ha _ _⟩, Or.inl ⟨rfl, rfl⟩⟩
  · rcases Job.lockLT_cases hlock with ⟨het, hfree, -, rfl⟩ | ⟨het, -, rfl⟩
    · exact ⟨⟨rfl, rfl, rfl, fun _ _ => rfl⟩, Or.inr ⟨rfl, Or.inl ⟨het, hfree, rfl⟩⟩⟩
    · exact ⟨⟨rfl, rfl, rfl, fun _ _ => rfl⟩, Or.inr ⟨rfl, Or.inr ⟨het, rfl⟩⟩⟩

/-! ## The steps behind the lock -/

theorem run_locked {h : Handler} (hp : p.phase = .locked h) (hn : p.conn.psendMemPointer = none)
    (hs : j.run p = some (q, os)) : q.phase = .prepared h ∧
      q.conn.logicPorcMutex = p.conn.logicPorcMutex ∧ q.conn.psendMemPointer = j.block h ∧
      (h = .handlePing → (q.conn.memory j.tptr).isSome ∧ q.conn.isendlen ≠ 0 ∧ j.tptr ≠ j.arg) := by
  obtain ⟨-, hprep⟩ := Job.run_locked_cases hp hs
  rcases Job.prepare_cases hprep with ⟨rfl, n, harg, hfresh, rfl⟩ | ⟨rfl, reply, -, rfl⟩
  · refine ⟨rfl, rfl, rfl, fun _ => ⟨?_, Nat.succ_ne_zero 7, fun he => ?_⟩⟩
    · simp [handlePing]
    · rw [he, harg] at hfresh
      cases hfresh
  · exact ⟨rfl, rfl, hn, fun h => by cases h⟩

theorem run_prepared {h : Handler} (hp : p.phase = .prepared h) (hr : Prepared j h p.conn)
    (hs : j.run p = some (q, os)) : q.phase = .sending h ∧ Prepared j h q.conn ∨
      q.phase = .done ∧ q.conn.psendMemPointer = none := by
  obtain ⟨it, hit, hs⟩ := Job.run_prepared_cases hp hs
  obtain ⟨-, -, hph, hlen, hblock, hlock, hmem⟩ := Job.sent_cases hs
  rcases sendMsg_cases hit with rfl | ⟨c', hc', rfl⟩
  · refine Or.inl ⟨hph, hlock.trans hr.1, hblock.trans hr.2.1, fun hk => ?_⟩
    obtain ⟨h₁, h₂, h₃⟩ := hr.2.2 hk
    exact ⟨by rw [hmem _ h₃]; exact h₁, by rw [hlen]; exact h₂, h₃⟩
  · exact Or.inr ⟨hph, hblock.trans (SendSide.dropped_of_drop hc').psendMemPointer⟩

theorem write_sending {h : Handler} {r : WriteRet} (hp : p.phase = .sending h)
    (hr : Prepared j h p.conn) (hs : j.write p r = some (q, os)) : q.obj = p.obj ∧
      (q.phase = .sending h ∧ Prepared j h q.conn ∨
        r.Short p.conn.isendlen = true ∧ q.phase = .waiting ∧ Prepared j h q.conn ∨
        q.phase = .done ∧ q.conn.psendMemPointer = none) := by
  obtain ⟨it, o, hit, hq⟩ : ∃ it o, sendMsgIter p.conn r = some it ∧
      j.sent p h it = some (q, o) := by
    rcases Job.write_cases hs with ⟨k, it, o, hk, hit, hq, -⟩ | ⟨it, hrem, -⟩
    · cases hp.symm.trans hk
      exact ⟨it, o, hit, hq⟩
    · cases hp.symm.trans hrem
  obtain ⟨-, hobj, hph, hlen, hblock, hlock, hmem⟩ := Job.sent_cases hq
  have hprep : it.conn.isendlen ≠ 0 ∨ h = .handleBusiness → it.conn.memory = p.conn.memory →
      it.conn.psendMemPointer = p.conn.psendMemPointer →
      it.conn.logicPorcMutex = p.conn.logicPorcMutex → Prepared j h q.conn := by
    intro hne hm hb hl
    refine ⟨(hlock.trans hl).trans hr.1, (hblock.trans hb).trans hr.2.1, fun hk => ?_⟩
    obtain ⟨h₁, -, h₃⟩ := hr.2.2 hk
    refine ⟨?_, ?_, h₃⟩
    · rw [hmem _ h₃, hm]
      exact h₁
    · rw [hlen]
      exact hne.resolve_right (by simp [hk])
  have hne : p.conn.isendlen ≠ 0 ∨ h = .handleBusiness := by
    cases h with
    | handlePing => exact Or.inl (hr.2.2 rfl).2.1
    | handleBusiness => exact Or.inr rfl
  refine ⟨hobj, ?_⟩
  rcases sendMsgIter_cases hit with ⟨-, -, -, rfl⟩ | ⟨hshort, n, hn, rfl⟩ | ⟨-, c', hc', rfl⟩ |
    ⟨-, c', hc', rfl⟩
  · exact Or.inl ⟨hph, hprep hne rfl rfl rfl⟩
  · refine Or.inr (Or.inl ⟨hshort, hph, hprep (hne.imp_left fun hne => ?_) rfl rfl rfl⟩)
    simp only [SendSide.oprEvent, SendSide.advance]
    omega
  · exact Or.inr (Or.inr ⟨hph, hblock.trans (SendSide.dropped_of_drop hc').psendMemPointer⟩)
  · exact Or.inr (Or.inr ⟨hph, hblock.trans (SendSide.dropped_of_drop hc').psendMemPointer⟩)

/-! ## Every step -/

theorem jobStep_cases (hs : t.jobStep i = some t') : ∃ q os, t.job.step t.proc i = some (q, os) ∧
    t'.job = t.job ∧ t'.queued = t.queued ∧ t'.looping = t.looping ∧
    (q.phase ≠ .waiting ∧ t'.proc = q ∧ t'.left = t.left ∨
      q.phase = .waiting ∧ t'.proc = q.finish ∧ t'.left = true) := by
  obtain ⟨⟨q, os⟩, hq, rfl⟩ := Option.map_eq_some_iff.mp hs
  refine ⟨q, os, hq, rfl, rfl, rfl, ?_⟩
  by_cases hw : q.phase = .waiting
  · exact Or.inr ⟨hw, by simp [hw], by simp [hw]⟩
  · exact Or.inl ⟨hw, by simp [hw], by simp [hw]⟩

theorem rests_run (h : Rests j p) (hs : j.run p = some (q, os)) :
    q.phase ≠ .waiting ∧ Rests j q := by
  unfold Rests at h
  cases hp : p.phase with
  | start =>
    simp only [hp] at h
    obtain ⟨hsame, hph, hlock⟩ := run_start hp hs
    refine ⟨by simp [hph], ?_⟩
    simp only [Rests, hph]
    refine ⟨hsame.psendMemPointer.trans h, fun het => ?_⟩
    rcases hlock with ⟨hl, -⟩ | ⟨-, -, hl⟩
    · rw [hl] at het
      cases het
    · exact hl
  | received =>
    simp only [hp] at h
    obtain ⟨hsame, ⟨hph, -⟩ | ⟨⟨k, hph⟩, hlock⟩⟩ := run_received hp hs
    · refine ⟨by simp [hph], ?_⟩
      simp only [Rests, hph]
      exact hsame.psendMemPointer.trans h.1
    · refine ⟨by simp [hph], ?_⟩
      simp only [Rests, hph]
      exact ⟨hsame.psendMemPointer.trans h.1, fun het => hlock.trans (h.2 het)⟩
  | called k =>
    simp only [hp] at h
    obtain ⟨hsame, ⟨hph, -⟩ | ⟨hph, hlock⟩⟩ := run_called hp hs
    · refine ⟨by simp [hph], ?_⟩
      simp only [Rests, hph]
      exact hsame.psendMemPointer.trans h.1
    · refine ⟨by simp [hph], ?_⟩
      simp only [Rests, hph]
      refine ⟨hsame.psendMemPointer.trans h.1, ?_⟩
      rcases hlock with ⟨-, -, hl⟩ | ⟨het, hl⟩
      · exact hl
      · exact hl.trans (h.2 het)
  | locked k =>
    simp only [hp] at h
    obtain ⟨hph, hlock, hblock, hping⟩ := run_locked hp h.1 hs
    refine ⟨by simp [hph], ?_⟩
    simp only [Rests, hph]
    exact ⟨hlock.trans h.2, hblock, hping⟩
  | prepared k =>
    simp only [hp] at h
    rcases run_prepared hp h hs with ⟨hph, hr⟩ | ⟨hph, hr⟩
    · exact ⟨by simp [hph], by simpa only [Rests, hph] using hr⟩
    · exact ⟨by simp [hph], by simpa only [Rests, hph] using hr⟩
  | sending k | done =>
    simp only [Job.run, hp] at hs
    cases hs
  | waiting | remaining => simp only [hp] at h

theorem Clear.jobStep (hc : t.Clear) (hg : t.Calm (.job i)) (hs : t.jobStep i = some t') :
    t'.Left ∨ t'.Clear := by
  obtain ⟨q, os, hq, hjob, hqueued, hlooping, hproc⟩ := jobStep_cases hs
  have hclear : q.phase ≠ .waiting → Rests t.job q → t'.Clear := fun hne hr => by
    obtain ⟨-, hproc, hleft⟩ := hproc.resolve_right fun h => hne h.1
    exact ⟨hleft.trans hc.left, hqueued.trans hc.queued, hlooping.trans hc.looping,
      by rw [hjob, hproc]; exact hr⟩
  have hrest := hc.rests
  cases i with
  | run =>
    obtain ⟨hne, hr⟩ := rests_run hrest hq
    exact Or.inr (hclear hne hr)
  | freeConnection =>
    cases hq
    refine Or.inr (hclear (fun hw => ?_) ?_)
    · replace hw : t.proc.phase = .waiting := hw
      simp only [Rests, hw] at hrest
    · exact hrest
  | write r =>
    replace hq : t.job.write t.proc r = some (q, os) := hq
    cases hp : t.proc.phase with
    | sending h =>
      simp only [Rests, hp] at hrest
      obtain ⟨hobj, ⟨hph, hr⟩ | ⟨hshort, hph, hr⟩ | ⟨hph, hr⟩⟩ := write_sending hp hrest hq
      · exact Or.inr (hclear (by simp [hph]) (by simpa only [Rests, hph] using hr))
      · obtain ⟨-, hproc, hleft⟩ := hproc.resolve_left fun h => h.1 hph
        cases h with
        | handleBusiness =>
          simp only [Calm, hp, hshort] at hg
          cases hg
        | handlePing =>
          simp only [Calm, hp] at hg
          obtain ⟨hlive, hlen, hne⟩ := hr.2.2 rfl
          refine Or.inl ⟨?_, ⟨t.job.tptr, ?_, ?_, ?_⟩, ?_, ?_, Or.inl ?_, Or.inl ⟨hleft, ?_, ?_⟩⟩
          · rw [hproc]
            exact hr.1
          · rw [hproc]
            exact hr.2.1
          · rw [hproc]
            exact hlive
          · rw [hjob]
            exact hne
          · rw [hproc]
            exact hlen
          · rw [hproc]
            exact (congrArg HttpServer.mIovCount hobj).trans (hg hshort)
          · rw [hproc]
            rfl
          · rw [hlooping, hc.looping]
          · rw [hqueued, hc.queued]
            exact Nat.zero_le 1
      · exact Or.inr (hclear (by simp [hph]) (by simpa only [Rests, hph] using hr))
    | remaining => simp only [Rests, hp] at hrest
    | start | received | called h | locked h | prepared h | waiting | done =>
      simp only [Job.write, hp] at hq
      cases hq

theorem Left.jobStep (hl : t.Left) (hs : t.jobStep i = some t') : t'.Left := by
  obtain ⟨q, os, hq, hjob, hqueued, hlooping, hproc⟩ := jobStep_cases hs
  obtain ⟨a, hblock, hlive, hne⟩ := hl.block
  have hkeep : SameResponse t.job t.proc q → q.conn.logicPorcMutex = true →
      (q.phase = .done ∨ q.phase = .start ∨
        t.job.mETflag = .etClose ∧ (q.phase = .received ∨ ∃ h, q.phase = .called h)) →
      t'.Left := fun hsame hlock hph => by
    have hw : q.phase ≠ .waiting := by
      rcases hph with hph | hph | ⟨-, hph | ⟨h, hph⟩⟩ <;> simp [hph]
    obtain ⟨-, hproc, hleft⟩ := hproc.resolve_right fun h => hw h.1
    refine ⟨by rw [hproc]; exact hlock, ⟨a, ?_, ?_, by rw [hjob]; exact hne⟩, ?_, ?_, ?_, ?_⟩
    · rw [hproc]
      exact hsame.psendMemPointer.trans hblock
    · rw [hproc, hsame.memory a hne]
      exact hlive
    · rw [hproc, hsame.isendlen]
      exact hl.isendlen
    · rw [hproc, hsame.obj]
      exact hl.count
    · rw [BeforeLock, hproc, hjob]
      exact hph
    · rw [hleft, hqueued, hlooping]
      exact hl.once
  cases i with
  | freeConnection =>
    cases hq
    exact hkeep ⟨rfl, rfl, rfl, fun _ _ => rfl⟩ hl.lock hl.before
  | write r =>
    replace hq : t.job.write t.proc r = some (q, os) := hq
    rcases hl.before with hp | hp | ⟨-, hp | ⟨h, hp⟩⟩ <;>
      · simp only [Job.write, hp] at hq
        cases hq
  | run =>
    replace hq : t.job.run t.proc = some (q, os) := hq
    rcases hl.before with hp | hp | ⟨het, hp | ⟨h, hp⟩⟩
    · simp only [Job.run, hp] at hq
      cases hq
    · obtain ⟨hsame, hph, ⟨het, hlock⟩ | ⟨-, hfree, -⟩⟩ := run_start hp hq
      · exact hkeep hsame (hlock.trans hl.lock) (Or.inr (Or.inr ⟨het, Or.inl hph⟩))
      · rw [hl.lock] at hfree
        cases hfree
    · obtain ⟨hsame, ⟨hph, hlock⟩ | ⟨hph, hlock⟩⟩ := run_received hp hq
      · exact hkeep hsame ((hlock het).trans hl.lock) (Or.inl hph)
      · exact hkeep hsame (hlock.trans hl.lock) (Or.inr (Or.inr ⟨het, Or.inr hph⟩))
    · obtain ⟨hsame, ⟨hph, hlock⟩ | ⟨-, ⟨-, hfree, -⟩ | ⟨het', -⟩⟩⟩ := run_called hp hq
      · exact hkeep hsame (hlock.trans hl.lock) (Or.inl hph)
      · rw [hl.lock] at hfree
        cases hfree
      · rw [het] at het'
        cases het'

theorem Left.clear {c : SendSide} (hl : t.Left) (hp : t'.proc = { t.proc with conn := c })
    (hc : c.psendMemPointer = none) (hjob : t'.job = t.job) (hleft : t'.left = false)
    (hqueued : t'.queued = 0) (hlooping : t'.looping = 0) : t'.Clear := by
  refine ⟨hleft, hqueued, hlooping, ?_⟩
  rw [hp, hjob]
  rcases hl.before with hph | hph | ⟨het, hph | ⟨h, hph⟩⟩ <;> simp only [Rests, hph]
  · exact hc
  · exact hc
  · exact ⟨hc, fun h => by rw [het] at h; cases h⟩
  · exact ⟨hc, fun h => by rw [het] at h; cases h⟩

theorem step_packet {o : List Unit} (ht : t.Left ∨ t.Clear)
    (hs : t.step (.packet j) = some (t', o)) : t'.Left ∨ t'.Clear := by
  simp only [step] at hs
  split_ifs at hs with hj
  cases hs
  obtain ⟨hp, -, hfresh⟩ := hj
  rcases ht with hl | hc
  · obtain ⟨a, hblock, hlive, -⟩ := hl.block
    have hne : a ≠ j.arg := by
      rintro rfl
      rw [hfresh] at hlive
      cases hlive
    refine Or.inl ⟨hl.lock, ⟨a, hblock, ?_, hne⟩, hl.isendlen, hl.count, Or.inr (Or.inl rfl),
      hl.once⟩
    simpa only [Function.update_of_ne hne] using hlive
  · have hrest := hc.rests
    simp only [Rests, hp] at hrest
    exact Or.inr ⟨hc.left, hc.queued, hc.looping, hrest⟩

theorem step_remain {o : List Unit} (ht : t.Left ∨ t.Clear)
    (hs : t.step .remain = some (t', o)) : t'.Left ∨ t'.Clear := by
  simp only [step] at hs
  split_ifs at hs with hq
  obtain ⟨it, hit, he⟩ := Option.map_eq_some_iff.mp hs
  cases he
  rcases ht with hl | hc
  · obtain ⟨-, hlooping, hqueued⟩ := hl.once.resolve_right fun h => hq h.2.1
    rcases (sendRemainMsg_cases hit).2 with rfl | ⟨c', hc', rfl⟩
    · have hnext : t.proc.conn.remainNext = .loop := if_pos hl.isendlen
      refine Or.inl ⟨hl.lock, hl.block, hl.isendlen, hl.count, hl.before, Or.inr ⟨rfl, ?_, ?_⟩⟩
      · simp only
        omega
      · simp only [hnext, if_true, hlooping]
    · refine Or.inr (hl.clear rfl (SendSide.dropped_of_drop hc').psendMemPointer rfl rfl ?_ ?_)
      · simp only
        omega
      · simpa using hlooping
  · exact absurd hc.queued hq

theorem step_remainWrite {r : WriteRet} {o : List Unit} (ht : t.Left ∨ t.Clear)
    (hs : t.step (.remainWrite r) = some (t', o)) : t'.Left ∨ t'.Clear := by
  simp only [step] at hs
  split_ifs at hs with hq
  obtain ⟨it, hit, he⟩ := Option.map_eq_some_iff.mp hs
  cases he
  rcases ht with hl | hc
  · obtain ⟨hleft, hqueued, hlooping⟩ := hl.once.resolve_left fun h => hq h.2.1
    rcases sendRemainIter_cases hit with ⟨n, hn, rfl⟩ | ⟨-, c', hc', rfl⟩ | ⟨-, c', hc', rfl⟩
    · have hlen : (t.proc.conn.advance n).isendlen ≠ 0 := by
        have := hl.isendlen
        simp only [SendSide.advance]
        omega
      have hnext : (t.proc.conn.advance n).remainNext = .loop := if_pos hlen
      refine Or.inl ⟨hl.lock, hl.block, hlen, hl.count, hl.before, Or.inr ⟨hleft, hqueued, ?_⟩⟩
      simp only [hnext, if_true, hlooping]
    · exact Or.inr (hl.clear rfl (SendSide.dropped_of_drop hc').psendMemPointer rfl hleft hqueued
        (by simp [hlooping]))
    · exact Or.inr (hl.clear rfl (SendSide.dropped_of_drop hc').psendMemPointer rfl hleft hqueued
        (by simp [hlooping]))
  · exact absurd hc.looping hq

/-- **One calm step.** -/
theorem step_calm {i : TrafficStep} {o : List Unit} (ht : t.Left ∨ t.Clear) (hg : t.Calm i)
    (hs : t.step i = some (t', o)) : t'.Left ∨ t'.Clear := by
  cases i with
  | packet j => exact step_packet ht hs
  | remain => exact step_remain ht hs
  | remainWrite r => exact step_remainWrite ht hs
  | job i =>
    obtain ⟨u, hu, he⟩ := Option.map_eq_some_iff.mp hs
    cases he
    rcases ht with hl | hc
    · exact Or.inl (hl.jobStep hu)
    · exact hc.jobStep hg hu
  | epollOut =>
    cases hs
    rcases ht with hl | hc
    · obtain ⟨hleft, hlooping, -⟩ := hl.once.resolve_right fun h => by
        rw [hg.1] at h
        cases h.1
      refine Or.inl ⟨hl.lock, hl.block, hl.isendlen, hl.count, hl.before,
        Or.inl ⟨hleft, hlooping, ?_⟩⟩
      simp only [hg.2]
      exact le_rfl
    · have := hg.1
      rw [hc.left] at this
      cases this

theorem Left.live (hl : t.Left) : t.Live where
  header := by
    obtain ⟨a, hblock, hlive, -⟩ := hl.block
    exact ⟨a, hblock, hlive⟩
  iov v hv := by
    rw [hl.count, List.take_zero] at hv
    cases hv

theorem Quiet.clear (hq : t.Quiet) : t.Clear where
  left := hq.left
  queued := hq.queued
  looping := hq.looping
  rests := by
    simp only [Rests, hq.phase]
    exact hq.psendMemPointer

/-- **Queued `sendRemainMsg` tasks find all they need** in every state of a run of calm steps. -/
theorem live_of_calm (hq : t.Quiet) {is : List TrafficStep} (hg : Run.Guarded step Calm t is) :
    Run.Always step (fun t => 0 < t.queued → t.Live) t is := by
  refine (Run.always_of_guarded (p := fun t => t.Left ∨ t.Clear)
    (fun t i t' o ht hi hs => step_calm ht hi hs) (Or.inr hq.clear) hg).imp fun t ht hpos => ?_
  rcases ht with hl | hc
  · exact hl.live
  · exact absurd hc.queued hpos.ne'

/-! ## Two packets that are left to `EPOLLOUT` -/

/-- A packet in LT mode, in block 0. -/
def jobLT (pkg : List UInt8) : Job := ⟨.noFiles, .etClose, pkg, 0, 1, false⟩

/-- A fresh connection in LT mode. -/
def fresh : Traffic where
  proc := ⟨⟨0, false, none, none, 0, false, .readEvent, fun _ => none⟩, .new .zero, .done⟩
  job := jobLT []
  iovArg := none
  unmapped := []
  left := false
  queued := 0
  looping := 0

theorem quiet_fresh : fresh.Quiet := ⟨rfl, rfl, rfl, rfl, rfl⟩

/-- A packet up to the first call of `WriteFunc`. -/
def upToWrite (pkg : List UInt8) : List TrafficStep :=
  .packet (jobLT pkg) :: List.replicate 5 (.job .run)

/-- A ping that is left to `EPOLLOUT`. -/
theorem live_ping : Run.Always step (fun t => 0 < t.queued → t.Live) fresh
    (upToWrite [8, 0, 0, 0, 0, 0, 0, 0] ++ [.job (.write (.ret 0)), .epollOut, .remain]) := by
  refine live_of_calm quiet_fresh ⟨trivial, ?_⟩
  rintro _ _ ⟨⟩
  refine ⟨trivial, ?_⟩
  rintro _ _ ⟨⟩
  refine ⟨trivial, ?_⟩
  rintro _ _ ⟨⟩
  refine ⟨trivial, ?_⟩
  rintro _ _ ⟨⟩
  refine ⟨trivial, ?_⟩
  rintro _ _ ⟨⟩
  refine ⟨trivial, ?_⟩
  rintro _ _ ⟨⟩
  refine ⟨fun _ => rfl, ?_⟩
  rintro _ _ ⟨⟩
  refine ⟨⟨rfl, rfl⟩, ?_⟩
  rintro _ _ ⟨⟩
  exact ⟨trivial, fun _ _ _ => trivial⟩

/-- A response of `Business` that is left to `EPOLLOUT` has no `psendMemPointer`. -/
theorem not_always_live : ¬ ∀ (t : Traffic) (is : List TrafficStep), t.Quiet →
    Run.Always step (fun t => 0 < t.queued → t.Live) t is := by
  intro h
  have ha := h fresh (upToWrite ([10, 0, 1, 0, 0, 0, 0, 0] ++ CString.ascii "x\n") ++
    [.job (.write (.err .eagain)), .epollOut]) quiet_fresh
  have hcheck : ((Run.run step fresh (upToWrite ([10, 0, 1, 0, 0, 0, 0, 0] ++
      CString.ascii "x\n") ++ [.job (.write (.err .eagain)), .epollOut])).any fun r =>
        decide (0 < r.1.queued ∧ r.1.proc.conn.psendMemPointer = none)) = true := by
    decide +kernel
  obtain ⟨⟨t, os⟩, hr, hcheck⟩ := Run.exists_of_any hcheck
  obtain ⟨hpos, hnone⟩ := of_decide_eq_true hcheck
  obtain ⟨a, ha, -⟩ := (ha.last hr hpos).header
  rw [hnone] at ha
  cases ha

end Traffic

end ServerNginx
