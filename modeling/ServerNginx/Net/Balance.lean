import ServerNginx.Net.Response

set_option autoImplicit false

/-!
# The lock of a connection over one packet

`Balanced` after some steps of the processing of a packet: the lock has been taken at most once and
given back at most once, never while it was free; where it is held, the processing is not over and
has a way of giving it back.

* `Stuck`: from there the lock is not given back;
* `Sound`: the steps that keep the balance;
* **`balanced_iff`**: the balance holds all along exactly when every step is sound;
* `idle_of_guarded`: a sound processing leaves the connection as the next one needs it.
-/

namespace ServerNginx

namespace Job

variable (j : Job)

/-- The lock events of a log. -/
def locks (log : List SendEv) : List SendEv := log.filter fun e => e = .lock ∨ e = .unlock

/-- Some steps of the processing give back the lock. -/
def CanRelease (p : Processing) : Prop :=
  ∃ is p' os, JobStep.freeConnection ∉ is ∧ Run.run j.step p is = some (p', os) ∧
    SendEv.unlock ∈ os

/-- **The lock is balanced** after the log `t.2`. -/
structure Balanced (t : Processing × List SendEv) : Prop where
  once : locks t.2 <+: [.lock, .unlock]
  released : locks t.2 = [.lock] → t.1.phase ≠ .done ∧ j.CanRelease t.1

/-- A connection between two responses: its lock is free, and nothing is left to be sent. -/
structure Idle (c : SendSide) : Prop where
  logicPorcMutex : c.logicPorcMutex = false
  psendMemPointer : c.psendMemPointer = none

/-- The processing of a packet begins: the packet is in its block, and `AllocMemory` has not given
out `tptr`. -/
structure Starts (p : Processing) : Prop where
  phase : p.phase = .start
  idle : Idle p.conn
  arg : (p.conn.memory j.arg).isSome
  tptr : p.conn.memory j.tptr = none

/-- The handler goes on to `sendMsg`: a ping has no body, and `Business` returns. -/
def Reaches (obj : HttpServer) : Handler → Prop
  | .handlePing => iBodyLength j.pkg = 0
  | .handleBusiness => ∃ reply, HttpServer.business j.env obj (j.pkg.take iLenPkgHeader)
      (j.pkg.drop iLenPkgHeader) = .ok reply

instance (obj : HttpServer) : ∀ h, Decidable (j.Reaches obj h)
  | .handlePing => inferInstanceAs (Decidable (_ = 0))
  | .handleBusiness =>
    match h : HttpServer.business j.env obj (j.pkg.take iLenPkgHeader)
      (j.pkg.drop iLenPkgHeader) with
    | .ok reply => isTrue ⟨reply, h⟩
    | .error _ => isFalse fun ⟨reply, hr⟩ => by rw [h] at hr; cases hr

/-- `threadRecvProcFunc` calls a handler, which goes on to `sendMsg`. -/
def Answers (p : Processing) : Prop :=
  ∃ iCurrsequence h, p.conn.memory j.arg = some iCurrsequence ∧
    threadRecvProcFunc p.conn iCurrsequence j.pkg = some h ∧ j.Reaches p.obj h

/-- **A step that keeps the balance.** In ET mode the lock is taken for packets that get an answer
or a kick, and these stay current up to the handler. `Business` returns where it is called with
the lock. `sendMsg` does not lose the peer, and a response of `Business` goes out at once. -/
def Sound (p : Processing) : JobStep → Prop
  | .run =>
    match p.phase with
    | .start => j.mETflag = .etOpen → j.floodflag = true ∨ j.Answers p
    | .called .handleBusiness => j.Reaches p.obj .handleBusiness
    | _ => True
  | .write r =>
    match p.phase with
    | .sending .handlePing => r.PeerGone = false
    | .sending .handleBusiness => r.PeerGone = false ∧ r.Short p.conn.isendlen = false
    | _ => True
  | .freeConnection => p.phase = .received → j.mETflag = .etOpen → j.floodflag = true

/-! ## No way back -/

/-- Nothing gives back the lock any more. -/
def Stuck (p : Processing) : Prop :=
  match p.phase with
  | .received => j.floodflag = false ∧ ¬ j.Answers p
  | .called h => ¬ j.Reaches p.obj h
  | .locked .handleBusiness => ¬ j.Reaches p.obj .handleBusiness
  | .waiting => p.conn.psendMemPointer = none
  | .done => True
  | _ => False

variable {j : Job} {p p' : Processing} {i : JobStep} {os log : List SendEv}

theorem Stuck.step (h : j.Stuck p) (hi : i ≠ .freeConnection) (hs : j.step p i = some (p', os)) :
    j.Stuck p' ∧ SendEv.unlock ∉ os := by
  unfold Stuck at h
  cases i with
  | freeConnection => exact absurd rfl hi
  | write r =>
    rcases write_cases hs with ⟨k, it, o, hp, -⟩ | ⟨it, hp, -⟩ <;>
    · simp only [hp] at h
  | run =>
    replace hs : j.run p = some (p', os) := hs
    split at h
    case h_1 hp =>
      rcases run_received_cases hp hs with ⟨hflood, -⟩ | ⟨-, rfl, n, hn, ⟨-, rfl⟩ | ⟨k, hk, rfl⟩⟩
      · rw [h.1] at hflood
        cases hflood
      · exact ⟨trivial, nofun⟩
      · exact ⟨fun hr => h.2 ⟨n, k, hn, hk, hr⟩, nofun⟩
    case h_2 k hp =>
      rcases run_called_cases hp hs with ⟨-, -, rfl, rfl⟩ | ⟨hbody, hlock⟩
      · exact ⟨trivial, nofun⟩
      · have hk : k = .handleBusiness := by
          cases k with
          | handlePing => exact absurd (hbody rfl) h
          | handleBusiness => rfl
        subst hk
        rcases lockLT_cases hlock with ⟨-, -, rfl, rfl⟩ | ⟨-, rfl, rfl⟩
        · exact ⟨h, by simp⟩
        · exact ⟨h, nofun⟩
    case h_3 hp =>
      rcases prepare_cases (run_locked_cases hp hs).2 with ⟨hk, -⟩ | ⟨-, reply, hr, -⟩
      · cases hk
      · exact absurd ⟨reply, hr⟩ h
    case h_4 hp =>
      simp only [Job.run, hp] at hs
      obtain ⟨it, hit, -⟩ := Option.map_eq_some_iff.mp hs
      obtain ⟨⟨a, ha, -⟩, -⟩ := sendRemainMsg_cases hit
      rw [h] at ha
      cases ha
    case h_5 hp =>
      simp only [Job.run, hp] at hs
      cases hs
    case h_6 => exact h.elim

theorem Stuck.not_canRelease (h : j.Stuck p) : ¬ j.CanRelease p := by
  rintro ⟨is, p', os, hfree, hr, hmem⟩
  induction is generalizing p os with
  | nil =>
    cases hr
    cases hmem
  | cons i is ih =>
    obtain ⟨q, o, o', hs, hr', rfl⟩ := Run.run_cons_eq_some.mp hr
    obtain ⟨hi, his⟩ := not_or.mp (List.mem_cons.not.mp hfree)
    obtain ⟨hq, ho⟩ := h.step (Ne.symm hi) hs
    exact ih hq o' his hr' ((List.mem_append.mp hmem).resolve_left ho)

/-! ## The way back -/

variable (j) in
/-- A connection whose packet waits for a handler. -/
structure Fresh (c : SendSide) : Prop where
  psendMemPointer : c.psendMemPointer = none
  arg : (c.memory j.arg).isSome
  tptr : c.memory j.tptr = none

variable (j) in
/-- The block of a response. -/
def block : Handler → Option ℕ
  | .handlePing => some j.tptr
  | .handleBusiness => none

variable (j) in
/-- A connection with a prepared response. -/
structure Ready (h : Handler) (c : SendSide) : Prop where
  block : c.psendMemPointer = j.block h
  tptr : h = .handlePing → (c.memory j.tptr).isSome ∧ c.isendlen ≠ 0
  arg : (c.memory j.arg).isSome
  ne : j.arg ≠ j.tptr

variable (j) in
/-- A connection with the rest of a response. -/
structure Pending (c : SendSide) : Prop where
  block : c.psendMemPointer = some j.tptr
  tptr : (c.memory j.tptr).isSome
  isendlen : c.isendlen ≠ 0

theorem Ready.owned {h : Handler} {c : SendSide} (hr : j.Ready h c) : c.Owned := by
  intro a ha
  rw [hr.block] at ha
  cases h with
  | handlePing =>
    cases ha
    exact (hr.tptr rfl).1
  | handleBusiness => cases ha

theorem Pending.owned {c : SendSide} (hp : j.Pending c) : c.Owned := by
  intro a ha
  rw [hp.block] at ha
  cases ha
  exact hp.tptr

theorem Ready.arg_of_dropped {h : Handler} {c c' : SendSide} (hr : j.Ready h c)
    (hd : c.Dropped c') : (c'.memory j.arg).isSome := by
  have hne : c.psendMemPointer ≠ some j.arg := by
    rw [hr.block]
    cases h with
    | handlePing => exact fun he => hr.ne (Option.some.inj he).symm
    | handleBusiness => exact nofun
  rw [hd.memory _ hne]
  exact hr.arg

theorem freeMsg_eq (h : (p.conn.memory j.arg).isSome) :
    j.freeMsg p = some { p with conn := p.conn.freed j.arg } := by
  rw [freeMsg, SendSide.freeMemory, if_pos h, Option.map_some]

theorem sent_ret {h : Handler} {c : SendSide} {evs : List SendEv}
    (harg : (c.memory j.arg).isSome) : j.sent p h ⟨c, evs, .ret⟩ =
      some ({ p with conn := c.freed j.arg, phase := .done }, evs) := by
  rw [sent, freeMsg_eq (p := { p with conn := c, phase := .done }) harg, Option.map_some]

theorem sent_wait {h : Handler} {c : SendSide} {evs : List SendEv}
    (harg : (c.memory j.arg).isSome) : j.sent p h ⟨c, evs, .wait⟩ =
      some ({ p with conn := c.freed j.arg, phase := .waiting }, evs) := by
  rw [sent, freeMsg_eq (p := { p with conn := c, phase := .waiting }) harg, Option.map_some]

theorem canRelease_of_step (hs : j.step p i = some (p', os)) (hi : i ≠ .freeConnection)
    (h : SendEv.unlock ∈ os ∨ j.CanRelease p') : j.CanRelease p := by
  rcases h with h | ⟨is, q, o, hfree, hr, hmem⟩
  · refine ⟨[i], p', os, by simpa using hi.symm, ?_, h⟩
    exact Run.run_cons_eq_some.mpr ⟨p', os, [], hs, rfl, (List.append_nil os).symm⟩
  · refine ⟨i :: is, q, os ++ o, by simp [hi.symm, hfree], ?_, List.mem_append_right _ hmem⟩
    exact Run.run_cons_eq_some.mpr ⟨p', os, o, hs, hr, rfl⟩

theorem canRelease_sending {h : Handler} (hp : p.phase = .sending h) (hr : j.Ready h p.conn) :
    j.CanRelease p := by
  obtain ⟨c', hc', hd⟩ := hr.owned.drop
  have harg := hr.arg_of_dropped hd
  have hs : j.step p (.write (.ret p.conn.isendlen)) = some
      ({ p with conn := c'.unlock.freed j.arg, phase := .done },
        [.accepted (p.obj.writeData (.ret p.conn.isendlen)), .unlock, .sent]) := by
    simp only [Job.step, write, hp, sendMsgIter, lt_irrefl, if_false, if_true, hc', Option.map_some,
      Option.bind_some, sent_ret (c := c'.unlock) harg]
  exact canRelease_of_step hs (by simp) (Or.inl (by simp))

theorem canRelease_prepared {h : Handler} (hp : p.phase = .prepared h) (hr : j.Ready h p.conn) :
    j.CanRelease p := by
  have hlive : (p.conn.memory (j.sendArg h)).isSome := by
    cases h with
    | handlePing => exact (hr.tptr rfl).1
    | handleBusiness => exact hr.arg
  obtain ⟨q, hq⟩ := Option.isSome_iff_exists.mp hlive
  obtain ⟨c', hc', hd⟩ := hr.owned.drop
  have harg := hr.arg_of_dropped hd
  by_cases hne : q ≠ p.conn.iCurrsequence
  · have hs : j.step p .run = some
        ({ p with conn := c'.unlock.freed j.arg, phase := .done }, [.unlock]) := by
      simp only [Job.step, Job.run, hp, sendMsg, hq, Option.bind_some, if_pos hne, hc',
        Option.map_some, sent_ret (c := c'.unlock) harg]
    exact canRelease_of_step hs (by simp) (Or.inl (by simp))
  · have hs : j.step p .run = some ({ p with phase := .sending h }, []) := by
      simp only [Job.step, Job.run, hp, sendMsg, hq, Option.bind_some, if_neg hne, sent]
    exact canRelease_of_step hs (by simp) (Or.inr (canRelease_sending rfl hr))

theorem canRelease_remaining (hp : p.phase = .remaining) (hr : j.Pending p.conn) :
    j.CanRelease p := by
  obtain ⟨c', hc', hd⟩ := (show (p.conn.oprEvent .readEvent).Owned from hr.owned).drop
  have hnext : c'.remainNext = .ret := by
    rw [SendSide.remainNext, hd.isendlen, if_neg (not_not.mpr rfl)]
  have hs : j.step p (.write (.ret p.conn.isendlen)) = some
      ({ p with conn := c'.unlock, phase := .done },
        [.accepted (p.obj.writeData (.ret p.conn.isendlen)), .unlock, .sent]) := by
    simp only [Job.step, write, hp, sendRemainIter, lt_irrefl, if_false, if_true, hc',
      Option.map_some, sentRemain, hnext]
  exact canRelease_of_step hs (by simp) (Or.inl (by simp))

theorem canRelease_waiting (hp : p.phase = .waiting) (hr : j.Pending p.conn) :
    j.CanRelease p := by
  obtain ⟨q, hq⟩ := Option.isSome_iff_exists.mp hr.tptr
  obtain ⟨c', hc', hd⟩ := hr.owned.drop
  by_cases hne : q ≠ p.conn.iCurrsequence
  · have hs : j.step p .run = some ({ p with conn := c'.unlock, phase := .done }, [.unlock]) := by
      simp only [Job.step, Job.run, hp, sendRemainMsg, hr.block, Option.bind_some, hq, if_pos hne,
        hc', Option.map_some, sentRemain]
    exact canRelease_of_step hs (by simp) (Or.inl (by simp))
  · have hnext : p.conn.remainNext = .loop := if_pos hr.isendlen
    have hs : j.step p .run = some ({ p with phase := .remaining }, []) := by
      simp only [Job.step, Job.run, hp, sendRemainMsg, hr.block, Option.bind_some, hq, if_neg hne,
        Option.map_some, sentRemain, hnext]
    exact canRelease_of_step hs (by simp) (Or.inr (canRelease_remaining rfl hr))

theorem prepare_eq {h : Handler} (hf : j.Fresh p.conn) (hr : j.Reaches p.obj h) :
    ∃ q, j.prepare p h = some q ∧ q.phase = .prepared h ∧ j.Ready h q.conn ∧
      q.conn.logicPorcMutex = p.conn.logicPorcMutex := by
  have hne : j.arg ≠ j.tptr := by
    intro he
    have := hf.arg
    rw [he, hf.tptr] at this
    cases this
  cases h with
  | handlePing =>
    obtain ⟨s, hs⟩ := Option.isSome_iff_exists.mp hf.arg
    refine ⟨{ p with
      conn := handlePing p.conn s j.tptr
      phase := .prepared .handlePing }, ?_, rfl,
      ⟨rfl, fun _ => ⟨?_, Nat.succ_ne_zero 7⟩, ?_, hne⟩, rfl⟩
    · simp [prepare, hs, hf.tptr]
    · simp [handlePing]
    · simpa [handlePing, Function.update_of_ne hne] using hf.arg
  | handleBusiness =>
    obtain ⟨reply, hreply⟩ := hr
    refine ⟨⟨handleBusiness p.conn reply.pkgLen, reply.obj, .prepared .handleBusiness⟩, ?_, rfl,
      ⟨hf.psendMemPointer, by simp, hf.arg, hne⟩, rfl⟩
    simp only [prepare, hreply]

theorem canRelease_locked {h : Handler} (hp : p.phase = .locked h) (hf : j.Fresh p.conn)
    (hr : j.Reaches p.obj h) : j.CanRelease p := by
  obtain ⟨q, hq, hph, hready, -⟩ := prepare_eq hf hr
  have hs : j.step p .run = some (q, []) := by
    simp only [Job.step, Job.run, hp, hq, Option.map_some]
  exact canRelease_of_step hs (by simp) (Or.inr (canRelease_prepared hph hready))

theorem canRelease_called {h : Handler} (het : j.mETflag = .etOpen) (hp : p.phase = .called h)
    (hf : j.Fresh p.conn) (hr : j.Reaches p.obj h) : j.CanRelease p := by
  have hs : j.step p .run = some ({ p with phase := .locked h }, []) := by
    cases h with
    | handlePing =>
      have hbody : ¬ iBodyLength j.pkg ≠ 0 := not_not.mpr hr
      simp only [Job.step, Job.run, hp, call, if_neg hbody, lockLT, het]
    | handleBusiness => simp only [Job.step, Job.run, hp, call, lockLT, het]
  refine canRelease_of_step hs (by simp) (Or.inr (canRelease_locked rfl hf hr))

theorem canRelease_received (het : j.mETflag = .etOpen) (hp : p.phase = .received)
    (hf : j.Fresh p.conn) (hr : j.floodflag = true ∨ j.Answers p) : j.CanRelease p := by
  by_cases hflood : j.floodflag = true
  · have hs : j.step p .run =
        some ({ p with conn := p.conn.unlock, phase := .done }, [.unlock]) := by
      simp only [Job.step, Job.run, hp, if_pos hflood, het]
    exact canRelease_of_step hs (by simp) (Or.inl (by simp))
  · obtain ⟨s, h, hs, hh, hreach⟩ := hr.resolve_left hflood
    have hstep : j.step p .run = some ({ p with phase := .called h }, []) := by
      simp only [Job.step, Job.run, hp, if_neg hflood, hs, Option.map_some, hh]
    refine canRelease_of_step hstep (by simp) (Or.inr (canRelease_called het rfl hf hreach))

/-! ## What the steps keep -/

@[simp] theorem locks_append (l o : List SendEv) : locks (l ++ o) = locks l ++ locks o :=
  List.filter_append ..

/-- The lock has not been taken. -/
def NotTaken (t : Processing × List SendEv) : Prop :=
  t.1.conn.logicPorcMutex = false ∧ locks t.2 = []

/-- The lock has been taken. -/
def Held (t : Processing × List SendEv) : Prop :=
  t.1.conn.logicPorcMutex = true ∧ locks t.2 = [.lock]

/-- The lock has been taken and given back. -/
def GivenBack (t : Processing × List SendEv) : Prop :=
  t.1.conn.logicPorcMutex = false ∧ locks t.2 = [.lock, .unlock]

variable (j) in
/-- **The invariant** of a balanced processing. -/
def Inv (t : Processing × List SendEv) : Prop :=
  match t.1.phase with
  | .start => j.Fresh t.1.conn ∧ NotTaken t
  | .received => j.Fresh t.1.conn ∧
    match j.mETflag with
    | .etClose => NotTaken t
    | .etOpen => Held t ∧ (j.floodflag = true ∨ j.Answers t.1)
  | .called h => j.Fresh t.1.conn ∧
    match j.mETflag with
    | .etClose => NotTaken t
    | .etOpen => Held t ∧ j.Reaches t.1.obj h
  | .locked h => j.Fresh t.1.conn ∧ Held t ∧ j.Reaches t.1.obj h
  | .prepared h | .sending h => j.Ready h t.1.conn ∧ Held t
  | .waiting | .remaining => j.Pending t.1.conn ∧ Held t
  | .done => t.1.conn.psendMemPointer = none ∧ (NotTaken t ∨ GivenBack t)

theorem NotTaken.keep {t : Processing × List SendEv} (h : NotTaken t)
    (hm : p'.conn.logicPorcMutex = t.1.conn.logicPorcMutex) (ho : locks os = []) :
    NotTaken (p', t.2 ++ os) :=
  ⟨hm.trans h.1, by rw [locks_append, h.2, ho]; rfl⟩

theorem Held.keep {t : Processing × List SendEv} (h : Held t)
    (hm : p'.conn.logicPorcMutex = t.1.conn.logicPorcMutex) (ho : locks os = []) :
    Held (p', t.2 ++ os) :=
  ⟨hm.trans h.1, by rw [locks_append, h.2, ho]; rfl⟩

theorem NotTaken.take {t : Processing × List SendEv} (h : NotTaken t)
    (hm : p'.conn.logicPorcMutex = true) (ho : locks os = [.lock]) : Held (p', t.2 ++ os) :=
  ⟨hm, by rw [locks_append, h.2, ho]; rfl⟩

theorem Held.giveBack {t : Processing × List SendEv} (h : Held t)
    (hm : p'.conn.logicPorcMutex = false) (ho : locks os = [.unlock]) :
    GivenBack (p', t.2 ++ os) :=
  ⟨hm, by rw [locks_append, h.2, ho]; rfl⟩

theorem NotTaken.balanced {t : Processing × List SendEv} (h : NotTaken t) : j.Balanced t where
  once := by
    rw [h.2]
    exact List.nil_prefix
  released hl := by
    rw [h.2] at hl
    cases hl

theorem GivenBack.balanced {t : Processing × List SendEv} (h : GivenBack t) : j.Balanced t where
  once := by rw [h.2]
  released hl := by
    rw [h.2] at hl
    cases hl

theorem Held.balanced {t : Processing × List SendEv} (h : Held t) (hd : t.1.phase ≠ .done)
    (hc : j.CanRelease t.1) : j.Balanced t where
  once := by
    rw [h.2]
    exact ⟨[.unlock], rfl⟩
  released _ := ⟨hd, hc⟩

theorem Stuck.not_balanced (h : j.Stuck p) (hl : locks log = [.lock]) : ¬ j.Balanced (p, log) :=
  fun hb => h.not_canRelease (hb.released hl).2

theorem Inv.balanced {t : Processing × List SendEv} (h : j.Inv t) : j.Balanced t := by
  unfold Inv at h
  split at h
  case h_1 => exact h.2.balanced
  case h_2 hp =>
    obtain ⟨hf, h⟩ := h
    split at h
    case h_1 => exact h.balanced
    case h_2 het => exact h.1.balanced (by simp [hp]) (canRelease_received het hp hf h.2)
  case h_3 k hp =>
    obtain ⟨hf, h⟩ := h
    split at h
    case h_1 => exact h.balanced
    case h_2 het => exact h.1.balanced (by simp [hp]) (canRelease_called het hp hf h.2)
  case h_4 hp => exact h.2.1.balanced (by simp [hp]) (canRelease_locked hp h.1 h.2.2)
  case h_5 hp => exact h.2.balanced (by simp [hp]) (canRelease_prepared hp h.1)
  case h_6 hp => exact h.2.balanced (by simp [hp]) (canRelease_sending hp h.1)
  case h_7 hp => exact h.2.balanced (by simp [hp]) (canRelease_waiting hp h.1)
  case h_8 hp => exact h.2.balanced (by simp [hp]) (canRelease_remaining hp h.1)
  case h_9 => exact h.2.elim NotTaken.balanced GivenBack.balanced

theorem inv_write {r : WriteRet} (h : j.Inv (p, log)) (hg : j.Sound p (.write r))
    (hs : j.write p r = some (p', os)) : j.Inv (p', log ++ os) := by
  rcases write_cases hs with ⟨k, it, o, hp, hit, hq, rfl⟩ | ⟨it, hp, hit, rfl, rfl⟩
  · simp only [Inv, hp] at h
    obtain ⟨hr, hheld⟩ := h
    rcases sendMsgIter_cases hit with ⟨-, -, -, rfl⟩ | ⟨hshort, n, hn, rfl⟩ | ⟨-, c', hc', rfl⟩ |
      ⟨hgone, -⟩
    · cases hq
      exact ⟨hr, hheld.keep rfl rfl⟩
    · cases k with
      | handleBusiness =>
        simp only [Sound, hp] at hg
        rw [hg.2] at hshort
        cases hshort
      | handlePing =>
        rw [sent_wait (c := (p.conn.advance n).oprEvent .writeEvent) hr.arg] at hq
        cases hq
        have hlen := (hr.tptr rfl).2
        refine ⟨⟨hr.block, ?_, ?_⟩, hheld.keep rfl rfl⟩
        · simpa [SendSide.freed, SendSide.oprEvent, SendSide.advance,
            Function.update_of_ne hr.ne.symm] using (hr.tptr rfl).1
        · simp only [SendSide.freed, SendSide.oprEvent, SendSide.advance]
          omega
    · have hd := SendSide.dropped_of_drop hc'
      have harg := hr.arg_of_dropped hd
      rw [sent_ret (c := c'.unlock) harg] at hq
      cases hq
      exact ⟨hd.psendMemPointer, Or.inr (hheld.giveBack rfl rfl)⟩
    · cases k <;> simp [Sound, hp, hgone] at hg
  · simp only [Inv, hp] at h
    obtain ⟨hr, hheld⟩ := h
    rcases sendRemainIter_cases hit with ⟨n, hn, rfl⟩ | ⟨-, c', hc', rfl⟩ | ⟨-, c', hc', rfl⟩
    · have hlen : (p.conn.advance n).isendlen ≠ 0 := by
        have := hr.isendlen
        simp only [SendSide.advance]
        omega
      have hnext : (p.conn.advance n).remainNext = .loop := if_pos hlen
      rw [hnext]
      exact ⟨⟨hr.block, hr.tptr, hlen⟩, hheld.keep rfl rfl⟩
    · exact ⟨(SendSide.dropped_of_drop hc').psendMemPointer,
        Or.inr (hheld.giveBack rfl rfl)⟩
    · exact ⟨(SendSide.dropped_of_drop hc').psendMemPointer,
        Or.inr (hheld.giveBack rfl rfl)⟩

theorem inv_start (hp : p.phase = .start) (h : j.Inv (p, log)) (hg : j.Sound p .run)
    (hs : j.run p = some (p', os)) : j.Inv (p', log ++ os) := by
  simp only [Inv, hp] at h
  simp only [Sound, hp] at hg
  obtain ⟨hf, hn⟩ := h
  rcases run_start_cases hp hs with ⟨het, rfl, rfl⟩ | ⟨het, -, rfl, rfl⟩ <;> simp only [Inv, het]
  · exact ⟨hf, hn.keep rfl rfl⟩
  · exact ⟨⟨hf.psendMemPointer, hf.arg, hf.tptr⟩, hn.take rfl rfl, hg het⟩

theorem Answers.of_eq {n : UInt64} {k : Handler} (h : j.Answers p)
    (hn : p.conn.memory j.arg = some n) (hk : threadRecvProcFunc p.conn n j.pkg = some k) :
    j.Reaches p.obj k := by
  obtain ⟨m, l, hm, hl, hreach⟩ := h
  rw [hn] at hm
  cases hm
  rw [hk] at hl
  cases hl
  exact hreach

theorem Answers.ne_none {n : UInt64} (h : j.Answers p) (hn : p.conn.memory j.arg = some n) :
    threadRecvProcFunc p.conn n j.pkg ≠ none := by
  obtain ⟨m, l, hm, hl, -⟩ := h
  rw [hn] at hm
  cases hm
  rw [hl]
  exact Option.some_ne_none l

theorem inv_received (hp : p.phase = .received) (h : j.Inv (p, log))
    (hs : j.run p = some (p', os)) : j.Inv (p', log ++ os) := by
  simp only [Inv, hp] at h
  obtain ⟨hf, h⟩ := h
  rcases run_received_cases hp hs with ⟨-, ⟨het, rfl, rfl⟩ | ⟨het, rfl, rfl⟩⟩ |
    ⟨hflood, rfl, n, hn, ⟨hk, rfl⟩ | ⟨k, hk, rfl⟩⟩
  · simp only [het] at h
    exact ⟨hf.psendMemPointer, Or.inl (h.keep rfl rfl)⟩
  · simp only [het] at h
    exact ⟨hf.psendMemPointer, Or.inr (h.1.giveBack rfl rfl)⟩
  · cases het : j.mETflag with
    | etClose =>
      simp only [het] at h
      exact ⟨hf.psendMemPointer, Or.inl (h.keep rfl rfl)⟩
    | etOpen =>
      simp only [het] at h
      exact absurd hk ((h.2.resolve_left (by simp [hflood])).ne_none hn)
  · refine ⟨hf, ?_⟩
    cases het : j.mETflag with
    | etClose =>
      simp only [het] at h ⊢
      exact h.keep rfl rfl
    | etOpen =>
      simp only [het] at h ⊢
      exact ⟨h.1.keep rfl rfl, (h.2.resolve_left (by simp [hflood])).of_eq hn hk⟩

theorem inv_lockLT {k : Handler} (hf : j.Fresh p.conn) (hr : j.Reaches p.obj k)
    (h : match j.mETflag with
      | .etClose => NotTaken (p, log)
      | .etOpen => Held (p, log) ∧ j.Reaches p.obj k)
    (hs : j.lockLT p k = some (p', os)) : j.Inv (p', log ++ os) := by
  rcases lockLT_cases hs with ⟨het, -, rfl, rfl⟩ | ⟨het, rfl, rfl⟩ <;> simp only [het] at h
  · exact ⟨⟨hf.psendMemPointer, hf.arg, hf.tptr⟩, h.take rfl rfl, hr⟩
  · exact ⟨hf, h.1.keep rfl rfl, hr⟩

theorem inv_called {k : Handler} (hp : p.phase = .called k) (h : j.Inv (p, log))
    (hg : j.Sound p .run) (hs : j.run p = some (p', os)) : j.Inv (p', log ++ os) := by
  simp only [Inv, hp] at h
  obtain ⟨hf, h⟩ := h
  rcases run_called_cases hp hs with ⟨rfl, hbody, rfl, rfl⟩ | ⟨hbody, hlock⟩
  · cases het : j.mETflag with
    | etClose =>
      simp only [het] at h
      exact ⟨hf.psendMemPointer, Or.inl (h.keep rfl rfl)⟩
    | etOpen =>
      simp only [het] at h
      exact absurd h.2 hbody
  · refine inv_lockLT hf ?_ h hlock
    cases k with
    | handlePing => exact hbody rfl
    | handleBusiness => simpa only [Sound, hp] using hg

theorem inv_prepared {k : Handler} (hp : p.phase = .prepared k) (h : j.Inv (p, log))
    (hs : j.run p = some (p', os)) : j.Inv (p', log ++ os) := by
  simp only [Inv, hp] at h
  obtain ⟨hr, hheld⟩ := h
  obtain ⟨it, hit, hs⟩ := run_prepared_cases hp hs
  rcases sendMsg_cases hit with rfl | ⟨c', hc', rfl⟩
  · cases hs
    exact ⟨hr, hheld.keep rfl rfl⟩
  · have hd := SendSide.dropped_of_drop hc'
    have harg := hr.arg_of_dropped hd
    rw [sent_ret (c := c'.unlock) harg] at hs
    cases hs
    exact ⟨hd.psendMemPointer, Or.inr (hheld.giveBack rfl rfl)⟩

theorem inv_waiting (hp : p.phase = .waiting) (h : j.Inv (p, log))
    (hs : j.run p = some (p', os)) : j.Inv (p', log ++ os) := by
  simp only [Inv, hp] at h
  simp only [Job.run, hp] at hs
  obtain ⟨hr, hheld⟩ := h
  obtain ⟨it, hit, hs⟩ := Option.map_eq_some_iff.mp hs
  rcases (sendRemainMsg_cases hit).2 with rfl | ⟨c', hc', rfl⟩
  · have hnext : p.conn.remainNext = .loop := if_pos hr.isendlen
    simp only [sentRemain, hnext] at hs
    cases hs
    exact ⟨hr, hheld.keep rfl rfl⟩
  · cases hs
    exact ⟨(SendSide.dropped_of_drop hc').psendMemPointer, Or.inr (hheld.giveBack rfl rfl)⟩

theorem inv_run (h : j.Inv (p, log)) (hg : j.Sound p .run) (hs : j.run p = some (p', os)) :
    j.Inv (p', log ++ os) := by
  cases hp : p.phase with
  | start => exact inv_start hp h hg hs
  | received => exact inv_received hp h hs
  | called k => exact inv_called hp h hg hs
  | locked k =>
    simp only [Inv, hp] at h
    obtain ⟨rfl, hprep⟩ := run_locked_cases hp hs
    obtain ⟨q, hq, hph, hready, hmutex⟩ := prepare_eq h.1 h.2.2
    rw [hq] at hprep
    cases hprep
    simp only [Inv, hph]
    exact ⟨hready, h.2.1.keep hmutex rfl⟩
  | prepared k => exact inv_prepared hp h hs
  | waiting => exact inv_waiting hp h hs
  | sending k | remaining | done =>
    simp only [Job.run, hp] at hs
    cases hs

/-- A connection freed meanwhile makes a packet stale that has no handler yet. -/
theorem inv_freeConnection (h : j.Inv (p, log)) (hg : j.Sound p .freeConnection)
    (hs : j.step p .freeConnection = some (p', os)) : j.Inv (p', log ++ os) := by
  cases hs
  unfold Inv at h ⊢
  rw [List.append_nil]
  cases hp : p.phase with
  | received =>
    simp only [hp] at h ⊢
    refine ⟨⟨h.1.psendMemPointer, h.1.arg, h.1.tptr⟩, ?_⟩
    cases het : j.mETflag with
    | etClose =>
      simp only [het] at h
      exact h.2
    | etOpen =>
      simp only [het] at h
      exact ⟨h.2.1, Or.inl (hg hp het)⟩
  | start | called k | locked k =>
    simp only [hp] at h ⊢
    exact ⟨⟨h.1.psendMemPointer, h.1.arg, h.1.tptr⟩, h.2⟩
  | prepared k | sending k =>
    simp only [hp] at h ⊢
    exact ⟨⟨h.1.block, h.1.tptr, h.1.arg, h.1.ne⟩, h.2⟩
  | waiting | remaining =>
    simp only [hp] at h ⊢
    exact ⟨⟨h.1.block, h.1.tptr, h.1.isendlen⟩, h.2⟩
  | done =>
    simp only [hp] at h ⊢
    exact h

/-- A packet that gets a handler is current. -/
theorem eq_of_threadRecvProcFunc {c : SendSide} {q : UInt64} {k : Handler}
    (h : threadRecvProcFunc c q j.pkg = some k) : q = c.iCurrsequence := by
  unfold threadRecvProcFunc at h
  split_ifs at h with _ hne
  exact not_not.mp hne

theorem not_balanced_of_write {r : WriteRet} (h : j.Inv (p, log)) (hg : ¬ j.Sound p (.write r))
    (hs : j.write p r = some (p', os)) : ¬ j.Balanced (p', log ++ os) := by
  rcases write_cases hs with ⟨k, it, o, hp, hit, hq, rfl⟩ | ⟨it, hp, -⟩
  · simp only [Inv, hp] at h
    obtain ⟨hr, hheld⟩ := h
    have hbad : r.PeerGone = true ∨ k = .handleBusiness ∧ r.Short p.conn.isendlen = true := by
      cases k <;> simp only [Sound, hp, not_and_or, Bool.not_eq_false] at hg
      · exact Or.inl hg
      · exact hg.imp_right fun hshort => ⟨rfl, hshort⟩
    rcases sendMsgIter_cases hit with ⟨hshort, hgone, -⟩ | ⟨hshort, n, -, rfl⟩ | ⟨rfl, -⟩ |
      ⟨-, c', hc', rfl⟩
    · rw [hshort, hgone] at hbad
      simp at hbad
    · rw [sent_wait (c := (p.conn.advance n).oprEvent .writeEvent) hr.arg] at hq
      cases hq
      have hk : k = .handleBusiness := by
        refine (hbad.resolve_left fun hgone => ?_).1
        cases r with
        | ret n => cases hgone
        | err e => cases e <;> simp [WriteRet.PeerGone, WriteRet.Short] at hgone hshort
      subst hk
      exact Stuck.not_balanced hr.block (hheld.keep (show p.conn.logicPorcMutex = _ from rfl) rfl).2
    · simp [WriteRet.PeerGone, WriteRet.Short] at hbad
    · have harg := hr.arg_of_dropped (SendSide.dropped_of_drop hc')
      rw [sent_ret harg] at hq
      cases hq
      exact Stuck.not_balanced trivial (hheld.keep (show p.conn.logicPorcMutex = _ from rfl) rfl).2
  · exact absurd (by simp only [Sound, hp]) hg

theorem not_balanced_of_run (h : j.Inv (p, log)) (hg : ¬ j.Sound p .run)
    (hs : j.run p = some (p', os)) : ¬ j.Balanced (p', log ++ os) := by
  cases hp : p.phase with
  | start =>
    simp only [Inv, hp] at h
    simp only [Sound, hp, Classical.not_imp, not_or, Bool.not_eq_true] at hg
    rcases run_start_cases hp hs with ⟨het, -⟩ | ⟨-, -, rfl, rfl⟩
    · rw [hg.1] at het
      cases het
    exact Stuck.not_balanced hg.2 (by rw [locks_append, h.2.2]; rfl)
  | called k =>
    cases k with
    | handlePing => exact absurd (by simp only [Sound, hp]) hg
    | handleBusiness =>
      simp only [Inv, hp] at h
      simp only [Sound, hp] at hg
      rcases run_called_cases hp hs with ⟨hk, -⟩ | ⟨-, hlock⟩
      · cases hk
      rcases lockLT_cases hlock with ⟨het, -, rfl, rfl⟩ | ⟨het, -⟩ <;> simp only [het] at h
      · exact Stuck.not_balanced hg (by rw [locks_append, h.2.2]; rfl)
      · exact absurd h.2.2 hg
  | received | locked k | prepared k | sending k | waiting | remaining | done =>
    exact absurd (by simp only [Sound, hp]) hg

theorem not_balanced_of_not_sound (h : j.Inv (p, log)) (hg : ¬ j.Sound p i)
    (hs : j.step p i = some (p', os)) : ¬ j.Balanced (p', log ++ os) := by
  cases i with
  | run => exact not_balanced_of_run h hg hs
  | write r => exact not_balanced_of_write h hg hs
  | freeConnection =>
    simp only [Sound, Classical.not_imp, Bool.not_eq_true] at hg
    obtain ⟨hp, het, hflood⟩ := hg
    simp only [Inv, hp, het] at h
    cases hs
    refine Stuck.not_balanced ?_ (h.2.1.keep (show p.conn.logicPorcMutex = _ from rfl) rfl).2
    simp only [Stuck, hp]
    refine ⟨hflood, fun ⟨q, k, hq, hk, _⟩ => ?_⟩
    obtain ⟨q', k', hq', hk', -⟩ := h.2.2.resolve_left (by simp [hflood])
    have he : p.conn.iCurrsequence = p.conn.iCurrsequence + 1 :=
      ((eq_of_threadRecvProcFunc hk').symm.trans (Option.some.inj (hq'.symm.trans hq))).trans
        (eq_of_threadRecvProcFunc hk)
    exact absurd he (by simp)

theorem inv_step (h : j.Inv (p, log)) (hg : j.Sound p i) (hs : j.step p i = some (p', os)) :
    j.Inv (p', log ++ os) := by
  cases i with
  | run => exact inv_run h hg hs
  | write r => exact inv_write h hg hs
  | freeConnection => exact inv_freeConnection h hg hs

theorem Starts.inv (hp : j.Starts p) : j.Inv (p, []) := by
  simp only [Inv, hp.phase]
  exact ⟨⟨hp.idle.psendMemPointer, hp.arg, hp.tptr⟩, hp.idle.logicPorcMutex, rfl⟩

/-- **The lock of a packet.** It is balanced all along a processing exactly when every step is
sound. -/
theorem balanced_iff (hp : j.Starts p) {is : List JobStep}
    (hv : Run.Guarded (Run.logged j.step) (Run.Defined (Run.logged j.step)) (p, []) is) :
    Run.Always (Run.logged j.step) j.Balanced (p, []) is ↔
      Run.Guarded (Run.logged j.step) (fun t i => j.Sound t.1 i) (p, []) is := by
  refine Run.always_iff_guarded (fun t i ht _ hd => ?_) hp.inv hp.inv.balanced hv
  obtain ⟨⟨u, o⟩, hu⟩ := Option.isSome_iff_exists.mp hd
  obtain ⟨p', hs, rfl⟩ := Run.logged_eq_some.mp hu
  have hback : j.Balanced (p', t.2 ++ o) → j.Sound t.1 i := fun hb =>
    by_contra fun hg => not_balanced_of_not_sound ht hg hs hb
  exact ⟨_, o, hu, ⟨hback, fun hg => (inv_step ht hg hs).balanced⟩,
    fun hb => inv_step ht (hback hb) hs⟩

theorem idle_of_guarded (hp : j.Starts p) {is : List JobStep} {q : Processing}
    (hg : Run.Guarded (Run.logged j.step) (fun t i => j.Sound t.1 i) (p, []) is)
    (hr : Run.run (Run.logged j.step) (p, []) is = some ((q, log), os)) (hd : q.phase = .done) :
    Idle q.conn := by
  have ha : Run.Always (Run.logged j.step) j.Inv (p, []) is :=
    Run.always_of_guarded (fun t i u o ht hi hu => by
      obtain ⟨p', hs, rfl⟩ := Run.logged_eq_some.mp hu
      exact inv_step ht hi hs) hp.inv hg
  have hq := ha.last hr
  simp only [Inv, hd] at hq
  exact ⟨hq.2.elim And.left And.left, hq.1⟩

/-! ## A ping in ET mode -/

/-- A processing in ET mode, `pkg` in block 0 and the next block free. -/
def jobET (pkg : List UInt8) : Job := ⟨.noFiles, .etOpen, pkg, 0, 1, false⟩

/-- A connection with `pkg` in block 0. -/
def startET : Processing where
  conn := ⟨0, false, none, none, 0, false, .readEvent, fun a => if a = 0 then some 0 else none⟩
  obj := .new .zero
  phase := .start

theorem starts_startET (pkg : List UInt8) : (jobET pkg).Starts startET :=
  ⟨rfl, ⟨rfl, rfl⟩, rfl, rfl⟩

/-- The steps of a ping that is answered at once. -/
def pingSteps : List JobStep := [.run, .run, .run, .run, .run, .write (.ret 8)]

theorem balanced_ping : Run.Always (Run.logged (jobET [8, 0, 0, 0, 0, 0, 0, 0]).step)
    (jobET [8, 0, 0, 0, 0, 0, 0, 0]).Balanced (startET, []) pingSteps := by
  refine (balanced_iff (starts_startET _) (by decide)).mpr ?_
  refine ⟨fun _ => Or.inr ⟨0, .handlePing, rfl, rfl, rfl⟩, ?_⟩
  rintro _ _ ⟨⟩
  refine ⟨trivial, ?_⟩
  rintro _ _ ⟨⟩
  refine ⟨trivial, ?_⟩
  rintro _ _ ⟨⟩
  refine ⟨trivial, ?_⟩
  rintro _ _ ⟨⟩
  refine ⟨trivial, ?_⟩
  rintro _ _ ⟨⟩
  refine ⟨rfl, ?_⟩
  rintro _ _ ⟨⟩
  exact trivial

/-- A header alone with `msgCode` 1: `recvproc_ET` takes the lock and nothing gives it back. -/
theorem not_always_balanced : ¬ ∀ (j : Job) (p : Processing) (is : List JobStep), j.Starts p →
    Run.Guarded (Run.logged j.step) (Run.Defined (Run.logged j.step)) (p, []) is →
      Run.Always (Run.logged j.step) j.Balanced (p, []) is := by
  intro h
  have ha := h (jobET [8, 0, 1, 0, 0, 0, 0, 0]) startET [.run] (starts_startET _) (by decide)
  refine Stuck.not_balanced ?_ rfl (ha.2 _ _ rfl)
  refine ⟨rfl, ?_⟩
  rintro ⟨q, k, -, hk, -⟩
  cases hk

end Job

end ServerNginx
