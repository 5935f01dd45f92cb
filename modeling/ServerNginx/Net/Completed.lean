import ServerNginx.Net.Exchange

set_option autoImplicit false

/-!
# Exchanges that complete

From the acceptance of a connection, a request that arrives in any pieces can be answered, if the
socket takes the response in one piece, behind any number of writes that are interrupted.

* `Stamped`: a message names the connection it came from;
* `run_to_sending`, `write_whole`: the thread that answers, up to its write and behind it;
* `run_reads`, `run_serving`: the two halves of the exchange;
* **`completed`**: the message names the connection, the client gets all of the response, and the
  thread leaves nothing of it behind.
-/

namespace ServerNginx

/-! ## The header of a message -/

/-- The message that is received names the connection at `pConn` and its sequence number, and so do
those handed on. -/
structure Stamped (pConn : Addr) (seq : UInt64) (c : Connection) (evs : List RecvEv) : Prop where
  current : c.iCurrsequence = seq
  held : ∀ m ∈ c.precvMemPointer, m.header = ⟨pConn, seq⟩
  handedOn : ∀ m ∈ queued evs, m.header = ⟨pConn, seq⟩

section Stamped

variable {cfg : Conf} {self : Addr} {seq : UInt64} {c c' : Connection} {evs : List RecvEv}

theorem Stamped.fill (h : Stamped self seq c []) {data : List UInt8}
    (hf : c.fill data = some c') : Stamped self seq c' [] := by
  unfold Connection.fill at hf
  split at hf
  · obtain ⟨b, -, rfl⟩ := Option.map_eq_some_iff.mp hf
    exact ⟨h.current, h.held, h.handedOn⟩
  · next m hbuf hmem =>
    split_ifs at hf
    obtain ⟨p, -, rfl⟩ := Option.map_eq_some_iff.mp hf
    refine ⟨h.current, ?_, h.handedOn⟩
    rintro m' ⟨⟩
    exact h.held m hmem
  · cases hf
  · cases hf

variable (cfg) in
theorem Stamped.flood (h : Stamped self seq c []) (now : UInt64) :
    Stamped self seq (testFlood cfg now c).1 [] :=
  ⟨by rw [testFlood_iCurrsequence, h.current], by rw [testFlood_precvMemPointer]; exact h.held,
    h.handedOn⟩

theorem Stamped.plast (h : Stamped self seq c []) :
    Stamped self seq (ngxWaitRequestHandlerProcPlast c).1 (ngxWaitRequestHandlerProcPlast c).2 := by
  refine ⟨h.current, nofun, fun m hm => ?_⟩
  rw [ngxWaitRequestHandlerProcPlast] at hm
  cases hc : c.precvMemPointer with
  | none =>
    rw [hc] at hm
    cases hm
  | some m' =>
    rw [hc] at hm
    obtain rfl : m = m' := List.mem_singleton.mp hm
    exact h.held m hc

variable (cfg) in
theorem Stamped.procP1 (h : Stamped self seq c []) (now : UInt64) :
    let r := ngxWaitRequestHandlerProcP1 cfg self now c
    Stamped self seq r.1 r.2.1 := by
  have hnew : Stamped self seq (c.attach (c.newMsg self (pkgLen c.dataHeadInfo.cells))) [] := by
    refine ⟨h.current, ?_, h.handedOn⟩
    rintro m ⟨⟩
    exact congrArg _ h.current
  unfold ngxWaitRequestHandlerProcP1
  dsimp only
  split_ifs
  · exact ⟨h.current, h.held, h.handedOn⟩
  · exact ⟨h.current, h.held, h.handedOn⟩
  · exact hnew.flood cfg now
  · exact (hnew.flood cfg now).plast
  · exact ⟨hnew.current, hnew.held, hnew.handedOn⟩

/-- **A read** hands on messages that name the connection. -/
theorem Stamped.read (h : Stamped self seq c []) {rd : Read}
    (hr : ngxReadRequestHandler cfg self c rd = some (c', evs)) : Stamped self seq c' evs := by
  obtain ⟨d, hd, hr⟩ := Option.map_eq_some_iff.mp hr
  have hfill := h.fill hd
  have header : (if (ngxWaitRequestHandlerProcP1 cfg self rd.now d).2.2 then
        ((ngxWaitRequestHandlerProcP1 cfg self rd.now d).1.kicked,
          (ngxWaitRequestHandlerProcP1 cfg self rd.now d).2.1 ++ [RecvEv.kick])
      else ((ngxWaitRequestHandlerProcP1 cfg self rd.now d).1,
        (ngxWaitRequestHandlerProcP1 cfg self rd.now d).2.1)) = (c', evs) →
      Stamped self seq c' evs := by
    intro hp
    have hstamped := hfill.procP1 cfg rd.now
    split_ifs at hp
    · cases hp
      refine ⟨hstamped.current, hstamped.held, ?_⟩
      rw [queued_append]
      exact (List.append_nil (queued _)).symm ▸ hstamped.handedOn
    · cases hp
      exact hstamped
  have fewer : ∀ {k : Connection}, k.iCurrsequence = d.iCurrsequence →
      k.precvMemPointer = d.precvMemPointer → Stamped self seq k [] :=
    fun hk hm => ⟨hk.trans hfill.current, hm.symm ▸ hfill.held, nofun⟩
  dsimp only at hr
  split at hr
  · split_ifs at hr with h₁ h₂
    · exact header (by rw [if_pos h₂]; exact hr)
    · exact header (by rw [if_neg h₂]; exact hr)
    · cases hr
      exact fewer rfl rfl
  · split_ifs at hr with h₁ h₂
    · exact header (by rw [if_pos h₂]; exact hr)
    · exact header (by rw [if_neg h₂]; exact hr)
    · cases hr
      exact fewer rfl rfl
  · have hflood := hfill.flood cfg rd.now
    split_ifs at hr
    · cases hr
      exact ⟨hflood.current, hflood.held, nofun⟩
    · cases hr
      exact hflood.plast
    · cases hr
      exact ⟨hflood.current, hflood.held, nofun⟩
  · split_ifs at hr
    · cases hr
      exact hfill.plast
    · cases hr
      exact fewer rfl rfl

end Stamped

/-! ## A response that goes out in one piece -/

namespace Job

variable {j : Job} {u : Uninit} {p : Processing} {c : SendSide} {r : HttpServer.Reply}

theorem threadRecvProcFunc_business {n : UInt64} {pkg : List UInt8} (hn : n = c.iCurrsequence)
    (hcode : msgCode pkg = cmdBusiness) (hbody : iLenPkgHeader < pkgLen pkg) :
    threadRecvProcFunc c n pkg = some .handleBusiness := by
  rw [threadRecvProcFunc, if_neg fun h => by omega, if_neg (not_not.mpr hn), hcode,
    if_neg (by decide)]
  rfl

/-- The connection behind the handler's call of `Business`. -/
def answering (c : SendSide) (r : HttpServer.Reply) : SendSide :=
  handleBusiness { c with logicPorcMutex := true } r.pkgLen

/-- **Five stretches of the thread** lead to the loop of `sendMsg`. -/
theorem run_to_sending (het : j.mETflag = .etClose) (hflood : j.floodflag = false)
    (hlock : c.logicPorcMutex = false) (hmem : c.memory j.arg = some c.iCurrsequence)
    (hcode : msgCode j.pkg = cmdBusiness) (hbody : iLenPkgHeader < pkgLen j.pkg)
    (hr : (HttpServer.new u).business j.env (j.pkg.take iLenPkgHeader)
      (j.pkg.drop iLenPkgHeader) = .ok r) :
    Run.run j.step ⟨c, .new u, .start⟩ (List.replicate 5 .run) =
      some (⟨answering c r, r.obj, .sending .handleBusiness⟩, [.lock]) := by
  have hreceived : j.step ⟨c, .new u, .start⟩ .run = some (⟨c, .new u, .received⟩, []) := by
    simp [step, Job.run, het]
  have hcalled : j.step ⟨c, .new u, .received⟩ .run =
      some (⟨c, .new u, .called .handleBusiness⟩, []) := by
    simp [step, Job.run, hflood, hmem, threadRecvProcFunc_business rfl hcode hbody]
  have hlocked : j.step ⟨c, .new u, .called .handleBusiness⟩ .run =
      some (⟨{ c with logicPorcMutex := true }, .new u, .locked .handleBusiness⟩, [.lock]) := by
    simp [step, Job.run, call, lockLT, het, hlock]
  have hprepared : j.step ⟨{ c with logicPorcMutex := true }, .new u, .locked .handleBusiness⟩
      .run = some (⟨answering c r, r.obj, .prepared .handleBusiness⟩, []) := by
    simp [step, Job.run, prepare, hr, answering]
  have hsending : j.step ⟨answering c r, r.obj, .prepared .handleBusiness⟩ .run =
      some (⟨answering c r, r.obj, .sending .handleBusiness⟩, []) := by
    simp [step, Job.run, sendMsg, sendArg, answering, handleBusiness, hmem, Job.sent]
  simp [List.replicate, Run.run, hreceived, hcalled, hlocked, hprepared, hsending]

theorem write_interrupted {k : Handler} (hp : p.phase = .sending k) {e : Errno}
    (he : e = .eintr ∨ e = .other) :
    j.step p (.write (.err e)) = some (p, [.accepted []]) := by
  obtain ⟨c, obj, phase⟩ := p
  obtain rfl : phase = .sending k := hp
  rcases he with rfl | rfl <;> simp [step, write, sendMsgIter, Job.sent, HttpServer.writeData]

theorem run_interrupted {k : Handler} (hp : p.phase = .sending k) :
    ∀ {errs : List Errno}, (∀ e ∈ errs, e = .eintr ∨ e = .other) →
      Run.run j.step p (errs.map fun e => .write (.err e)) =
        some (p, errs.map fun _ => .accepted [])
  | [], _ => rfl
  | e :: errs, he => by
    obtain ⟨h, hs⟩ := List.forall_mem_cons.mp he
    rw [List.map_cons, Run.run, write_interrupted hp h, Option.bind_some, run_interrupted hp hs]
    rfl

theorem write_whole (hmem : c.memory j.arg = some c.iCurrsequence) : ∃ q,
    j.step ⟨answering c r, r.obj, .sending .handleBusiness⟩ (.write (.ret r.pkgLen)) =
      some (q, [.accepted (r.obj.iovBytes.take r.pkgLen), .unlock, .sent]) ∧ q.obj = r.obj ∧
      q.phase = .done ∧ q.conn.logicPorcMutex = false ∧ q.conn.isendlen = 0 ∧
      q.conn.memory = Function.update c.memory j.arg none := by
  refine ⟨⟨{ answering c r with
    psendMemPointer := none
    psendbuf := none
    isendlen := 0
    logicPorcMutex := false
    memory := Function.update c.memory j.arg none }, r.obj, .done⟩, ?_, rfl, rfl, rfl, rfl, rfl⟩
  simp [step, write, sendMsgIter, answering, handleBusiness, SendSide.drop, Job.sent, freeMsg,
    SendSide.freeMemory, SendSide.unlock, SendSide.freed, HttpServer.writeData, hmem]

end Job

/-! ## The exchange -/

namespace Exchange

variable {cfg : Conf} {self : Addr} {env : Env} {u : Uninit}

theorem arrived_reads (rds : List Read) : arrived (rds.map .read) = stream rds := by
  rw [arrived, stream, List.flatMap_map]

/-- **Reads** queue messages that name the connection. -/
theorem run_reads {seq : UInt64} {rds : List Read} : ∀ {s : Exchange} {t : List UInt8},
    Aligned s.recv t → Stamped self seq s.recv [] → (∀ m ∈ s.msgs, m.header = ⟨self, seq⟩) →
    Run.Guarded (step cfg self env) (Reads cfg self) s (rds.map .read) →
    ∃ c ms, Run.run (step cfg self env) s (rds.map .read) =
      some ({ s with recv := c, msgs := ms }, []) ∧ ∀ m ∈ ms, m.header = ⟨self, seq⟩ := by
  induction rds with
  | nil => exact fun _ _ hms _ => ⟨_, _, rfl, hms⟩
  | cons rd rds ih =>
    intro s t hal hst hms hg
    obtain ⟨c, evs, hread, -, hal'⟩ := aligned_step hal hg.1.1 hg.1.2.1 hg.1.2.2
    have hstep : step cfg self env s (.read rd) =
        some ({ s with recv := c, msgs := s.msgs ++ queued evs }, []) := by
      rw [step, hread]
      rfl
    have hst' := hst.read hread
    obtain ⟨c', ms, hrun, hms'⟩ := ih (s := { s with recv := c, msgs := s.msgs ++ queued evs }) hal'
      ⟨hst'.current, hst'.held, nofun⟩
      (List.forall_mem_append.mpr ⟨hms, hst'.handedOn⟩) (hg.2 _ _ hstep)
    exact ⟨c', ms, Run.run_cons_eq_some.mpr ⟨_, _, _, hstep, hrun, rfl⟩, hms'⟩

/-- A step of the thread, as a step of the exchange. -/
def ofJobStep : JobStep → ExchangeStep
  | .run => .run
  | .write r => .write r
  | .freeConnection => .freeConnection

theorem run_jobSteps {j : Job} {js : List JobStep} (hjs : .freeConnection ∉ js) :
    ∀ {s : Exchange} {q : Processing} {os : List SendEv}, s.job = some j →
      Run.run j.step s.proc js = some (q, os) →
      Run.run (step cfg self env) s (js.map ofJobStep) = some ({ s with proc := q }, os) := by
  induction js with
  | nil =>
    intro s q os _ hr
    cases hr
    rfl
  | cons i js ih =>
    intro s q os hj hr
    obtain ⟨hi, hjs⟩ := not_or.mp (mt List.mem_cons.mpr hjs)
    obtain ⟨p, o, o', hs, hr', rfl⟩ := Run.run_cons_eq_some.mp hr
    have hstep : step cfg self env s (ofJobStep i) = some ({ s with proc := p }, o) := by
      have hjob : s.jobStep i = some ({ s with proc := p }, o) := by
        rw [jobStep, hj, Option.bind_some, hs]
        rfl
      cases i with
      | run | write r => exact hjob
      | freeConnection => exact absurd rfl hi
    exact Run.run_cons_eq_some.mpr ⟨_, _, _, hstep, ih hjs (s := { s with proc := p }) hj hr',
      rfl⟩

/-- What the thread does with the first message, where the socket takes the response in one
piece behind some writes that are interrupted. -/
def serving (errs : List Errno) (n : ℕ) : List JobStep :=
  List.replicate 5 .run ++ (errs.map fun e => .write (.err e)) ++ [.write (.ret n)]

/-- **The processing of a business packet** from beginning to end. -/
theorem run_serving {j : Job} {c : SendSide} {r : HttpServer.Reply} {bytes : List UInt8}
    {errs : List Errno} (het : j.mETflag = .etClose) (hflood : j.floodflag = false)
    (hlock : c.logicPorcMutex = false) (hmem : c.memory j.arg = some c.iCurrsequence)
    (hcode : msgCode j.pkg = cmdBusiness) (hbody : iLenPkgHeader < pkgLen j.pkg)
    (hr : (HttpServer.new u).business j.env (j.pkg.take iLenPkgHeader)
      (j.pkg.drop iLenPkgHeader) = .ok r) (hsends : HttpServer.Sends r bytes)
    (herrs : ∀ e ∈ errs, e = .eintr ∨ e = .other) :
    ∃ q os, Run.run j.step ⟨c, .new u, .start⟩ (serving errs bytes.length) = some (q, os) ∧
      SendEv.sent ∈ os ∧ (Job.accepted os).map q.obj.byteAt = bytes.map some ∧
      q.phase = .done ∧ q.conn.logicPorcMutex = false ∧ q.conn.isendlen = 0 ∧
      q.conn.memory = Function.update c.memory j.arg none := by
  have hfive := Job.run_to_sending het hflood hlock hmem hcode hbody hr
  have herr := Job.run_interrupted (j := j)
    (p := ⟨Job.answering c r, r.obj, .sending .handleBusiness⟩) rfl herrs
  obtain ⟨q, hq, hobj, hphase, hfree, hlen, hmemory⟩ := Job.write_whole (r := r) hmem
  rw [hsends.pkgLen] at hq
  obtain ⟨segs, hsegs, hflat⟩ := hsends.segments
  refine ⟨q, _, Run.run_append_eq_some.mpr ⟨_, _, _, Run.run_append_eq_some.mpr
    ⟨_, _, _, hfive, herr, rfl⟩, Run.run_cons_eq_some.mpr ⟨_, _, _, hq, rfl, rfl⟩,
    rfl⟩, by simp, ?_, hphase, hfree, hlen, hmemory⟩
  have hnone : ∀ errs : List Errno,
      Job.accepted (errs.map fun _ => SendEv.accepted []) = [] := fun errs => by
    simp [Job.accepted]
  have hgot : Job.accepted ([SendEv.lock] ++ (errs.map fun _ => SendEv.accepted []) ++
      ([.accepted (r.obj.iovBytes.take bytes.length), .unlock, .sent] ++ [])) =
        r.obj.iovBytes.take bytes.length := by
    rw [Job.accepted_append, Job.accepted_append, hnone]
    simp [Job.accepted]
  rw [hgot, hobj, List.map_take, HttpServer.iovBytes_byteAt hsegs, hflat]
  exact List.take_of_length_le (List.length_map _).le

/-- **An exchange completes** if the socket takes the response in one piece, however the request has
arrived and however often the write has been interrupted: it is queued in a message that names the
connection, the client gets all of the response, and the thread leaves the lock free and none of the
blocks it has taken in use. -/
theorem completed (cfg : Conf) (self : Addr) (env : Env) (u : Uninit) (fd : ℤ) (seq : UInt64)
    (rds : List Read) (pkg : List UInt8) (code : HttpCode) (a : Asked) (arg tptr : ℕ)
    (errs : List Errno) (hs : env.Sizes)
    (hg : Run.Guarded (step cfg self env) (Reads cfg self) (start fd seq u) (rds.map .read))
    (hpkg : (pkgFramer.frames (stream rds)).head? = some pkg) (hcode : msgCode pkg = cmdBusiness)
    (hbody : iLenPkgHeader < pkgLen pkg)
    (ho : outcome env u (pkg.drop iLenPkgHeader) = some (code, a)) (hframed : a.Framed env code)
    (hsized : a.Sized env code) (herrs : ∀ e ∈ errs, e = .eintr ∨ e = .other) :
    let reply := replyTo env a code pkg
    (∃ t m ms, Run.run (step cfg self env) (start fd seq u) (rds.map .read) = some (t, []) ∧
      t.msgs = m :: ms ∧ m.header = ⟨self, seq⟩ ∧ m.bytes = pkg) ∧
    ∃ s os, Run.run (step cfg self env) (start fd seq u)
        (rds.map .read ++ .take arg tptr :: (serving errs reply.length).map ofJobStep) =
          some (s, os) ∧
      SendEv.sent ∈ os ∧ (Job.accepted os).map s.proc.obj.byteAt = reply.map some ∧
      s.proc.phase = .done ∧ s.proc.conn.logicPorcMutex = false ∧ s.proc.conn.isendlen = 0 ∧
      ∀ b, s.proc.conn.memory b = none := by
  intro reply
  obtain ⟨hhdr, hroom⟩ := first_packet hpkg
  obtain ⟨r, hbusiness, hsends, -⟩ := HttpServer.business_packet hs hhdr hroom ho hframed hsized
  -- the reads
  obtain ⟨c, ms, hreads, hms⟩ := run_reads (s := start fd seq u)
    (aligned_of_inHead (inHead_initRecv _)) ⟨rfl, nofun, nofun⟩ nofun hg
  have hinv := exchanging_run hg hreads
  obtain ⟨pkgs, hframes⟩ := List.head?_eq_some_iff.mp hpkg
  have hmsgs := hinv.msgs
  rw [arrived_reads, hframes, List.map_cons] at hmsgs
  obtain ⟨m, ms', rfl, hm, -⟩ := List.map_eq_cons_iff.mp hmsgs
  -- the message
  have hbytes : m.bytes = pkg := bytes_of_pkg hm
  have hheader : m.header.iCurrsequence = seq := congrArg _ (hms m List.mem_cons_self)
  obtain ⟨q, os, hserve, hsent, hgot, hphase, hfree, hlen, hmemory⟩ :=
    run_serving (j := jobOf env m arg tptr) (u := u)
      (c := ⟨seq, false, none, none, 0, false, .readEvent,
        Function.update (fun _ => none) arg (some m.header.iCurrsequence)⟩) rfl rfl rfl
      (by simp [jobOf, hheader]) (by rw [jobOf, hbytes]; exact hcode)
      (by rw [jobOf, hbytes]; exact hbody) (by rw [jobOf, hbytes]; exact hbusiness) hsends herrs
  have hjs : JobStep.freeConnection ∉ serving errs reply.length := by simp [serving]
  refine ⟨⟨_, m, ms', hreads, rfl, hms m List.mem_cons_self, hbytes⟩, ?_⟩
  refine ⟨_, _, Run.run_append_eq_some.mpr ⟨_, _, _, hreads, Run.run_cons_eq_some.mpr
    ⟨_, _, _, rfl, run_jobSteps hjs rfl hserve, rfl⟩, rfl⟩, hsent, hgot, hphase, hfree, hlen, ?_⟩
  intro b
  have hidem : Function.update (Function.update (fun _ : ℕ => (none : Option UInt64)) arg
      (some m.header.iCurrsequence)) arg none b = none := by
    rw [Function.update_idem]
    exact congrFun (Function.update_eq_self arg fun _ : ℕ => (none : Option UInt64)) b
  exact (congrFun hmemory b).trans hidem

/-- The GET in four pieces, with a write that is interrupted. -/
theorem completed_getPacket : ∃ n s os,
    Run.run (step ⟨9, .etClose, 0, 100, 10⟩ ⟨0, 0⟩ .tenBytes) (start 5 1 .zero)
      (fourPieces.map .read ++ .take 0 1 :: (serving [.eintr] n).map ofJobStep) = some (s, os) ∧
    SendEv.sent ∈ os ∧ s.proc.conn.logicPorcMutex = false := by
  obtain ⟨code, a, ho, hframed, hsized⟩ := outcome_getPacket
  obtain ⟨-, s, os, hr, hsent, -, -, hfree, -⟩ := completed ⟨9, .etClose, 0, 100, 10⟩ ⟨0, 0⟩ .tenBytes
    .zero 5 1 fourPieces getPacket code a 0 1 [.eintr] HttpServer.sizes_tenBytes
    (by decide +kernel) (by decide +kernel) (by decide +kernel) (by decide +kernel) ho hframed
    hsized (by decide)
  exact ⟨_, s, os, hr, hsent, hfree⟩

end Exchange

end ServerNginx
