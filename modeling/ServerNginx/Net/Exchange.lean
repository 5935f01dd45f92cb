import ServerNginx.Http.Answer
import ServerNginx.Net.Accepted
import ServerNginx.Net.Blocks
import ServerNginx.Net.Framing

set_option autoImplicit false

/-!
# From the bytes of a request to the bytes of its response

A connection in LT mode that serves an `HttpServer` object, from its acceptance on. What the client
sends arrives in pieces of any size; `ngx_read_request_handler` puts the packets together and queues
them, a thread takes the first one and processes it, and the response goes out as the socket takes
it. Reads, the thread and the freeing of the connection take turns in any order, up to the time a
thread takes a second packet.

* `iovBytes_byteAt`: the bytes of `m_iov` as the segments show them;
* `Stage`: the processing of the first packet, up to its response and behind it;
* `Exchanging`: the invariant of a run;
* **`exchanged`**: the client gets the packet of the text of the response to what it has sent.
-/

namespace ServerNginx

open Takes

/-! ## The bytes of a response -/

namespace HttpServer

/-- The byte at a place of a response, where there is one. -/
def byteAt (h : HttpServer) : RespByte → Option UInt8
  | .psendbuf _ => none
  | .iov i off => (h.mIov[i]?.bind h.segment).bind fun seg => seg[off]?

variable {h : HttpServer}

theorem flatMap_range {α β : Type} (vs : List α) (f : α → List β) (n : ℕ) :
    ((List.range n).flatMap fun i => (vs[i]?.map f).getD []) = (vs.take n).flatMap f := by
  induction n with
  | zero => rfl
  | succ n ih =>
    rw [List.range_succ, List.flatMap_append, ih, List.take_add_one, List.flatMap_append,
      List.flatMap_singleton]
    cases vs[n]? <;> simp

theorem map_range_getElem? (seg : List UInt8) :
    ((List.range seg.length).map fun off => seg[off]?) = seg.map some := by
  refine List.ext_getElem (by simp) fun i hi hi' => ?_
  simp at hi hi' ⊢

/-- **The bytes of `m_iov`** are those of its segments. -/
theorem iovBytes_byteAt {segs : List (List UInt8)}
    (hs : (h.mIov.take h.mIovCount).map h.segment = segs.map some) :
    h.iovBytes.map h.byteAt = segs.flatten.map some := by
  have hbytes : ∀ {vs : List Iovec} {segs : List (List UInt8)},
      vs.map h.segment = segs.map some → (vs.flatMap fun v => (List.range v.iovLen).map fun off =>
        (h.segment v).bind fun seg => seg[off]?) = segs.flatten.map some := by
    intro vs
    induction vs with
    | nil =>
      intro segs hs
      rw [List.map_eq_nil_iff.mp hs.symm]
      rfl
    | cons v vs ih =>
      intro segs hs
      cases segs with
      | nil => cases hs
      | cons seg segs =>
        obtain ⟨hv, hvs⟩ := List.cons_eq_cons.mp hs
        rw [List.flatMap_cons, ih hvs, List.flatten_cons, List.map_append, hv,
          ← length_segment hv]
        exact congrArg (· ++ _) (map_range_getElem? seg)
  rw [← hbytes hs, ← flatMap_range, iovBytes, List.map_flatMap]
  refine List.flatMap_congr fun i _ => ?_
  cases hv : h.mIov[i]? with
  | none => rfl
  | some v => simp [byteAt, hv]

end HttpServer

/-! ## The machine -/

/-- A connection and the processing of the first packet it receives. -/
structure Exchange where
  /-- the receive side -/
  recv : Connection
  /-- the messages that have been queued -/
  msgs : List Msg
  /-- the first of them, once a thread has taken it -/
  job : Option Job
  proc : Processing

/-- What happens next. -/
inductive ExchangeStep
  /-- `recvproc` has read -/
  | read (rd : Read)
  /-- a thread takes the first message, in block `arg`; `tptr` is the block for an answer to a
  ping -/
  | take (arg tptr : ℕ)
  /-- the thread goes on -/
  | run
  /-- `WriteFunc` returns -/
  | write (r : WriteRet)
  /-- `ngx_free_connection`, by another thread -/
  | freeConnection
  deriving DecidableEq, Repr

/-- The messages a read hands on. -/
def queued (evs : List RecvEv) : List Msg :=
  evs.filterMap fun
    | .msg m => some m
    | .kick => none

namespace Exchange

variable (cfg : Conf) (self : Addr) (env : Env) (s : Exchange)

/-- A connection that has been accepted. -/
def start (fd : ℤ) (seq : UInt64) (u : Uninit) : Exchange where
  recv := .accepted fd seq 0
  msgs := []
  job := none
  proc := ⟨⟨seq, false, none, none, 0, false, .readEvent, fun _ => none⟩, .new u, .done⟩

/-- The processing of message `m`. -/
def jobOf (m : Msg) (arg tptr : ℕ) : Job := ⟨env, .etClose, m.bytes, arg, tptr, false⟩

/-- A thread takes the first message. -/
def takeFirst (arg tptr : ℕ) : Option Exchange :=
  match s.job, s.msgs with
  | none, m :: _ => some { s with
      job := some (jobOf env m arg tptr)
      proc := { s.proc with
        conn := { s.proc.conn with
          memory := Function.update s.proc.conn.memory arg (some m.header.iCurrsequence) }
        phase := .start } }
  | _, _ => none

/-- A step of the thread that has the message. -/
def jobStep (i : JobStep) : Option (Exchange × List SendEv) :=
  s.job.bind fun j => (j.step s.proc i).map fun p => ({ s with proc := p.1 }, p.2)

/-- **One step of the exchange.** -/
def step (s : Exchange) : ExchangeStep → Option (Exchange × List SendEv)
  | .read rd => (ngxReadRequestHandler cfg self s.recv rd).map fun p =>
      ({ s with recv := p.1, msgs := s.msgs ++ queued p.2 }, [])
  | .take arg tptr => (s.takeFirst env arg tptr).map fun s => (s, [])
  | .run => s.jobStep .run
  | .write r => s.jobStep (.write r)
  | .freeConnection => some ({ s with
      recv := { s.recv with iCurrsequence := s.recv.iCurrsequence + 1 }
      proc := { s.proc with
        conn := { s.proc.conn with iCurrsequence := s.proc.conn.iCurrsequence + 1 } } }, [])

/-- The reads are those of a socket, no flood is found, and a partial read of a body is not behind
another one, unless it takes half of what is missing. -/
def Reads (s : Exchange) : ExchangeStep → Prop
  | .read rd => ValidRead s.recv rd ∧ NoFlood cfg self s.recv rd ∧ HalfRead s.recv rd
  | _ => True

instance (s : Exchange) : ∀ i, Decidable (Reads cfg self s i)
  | .read _ => inferInstanceAs (Decidable (_ ∧ _))
  | .take _ _ | .run | .write _ | .freeConnection => isTrue trivial

end Exchange

/-- The bytes the client has sent. -/
def arrived (is : List ExchangeStep) : List UInt8 :=
  is.flatMap fun
    | .read rd => rd.data
    | _ => []

/-- The steps of the thread. -/
def jobSteps (is : List ExchangeStep) : List JobStep :=
  is.filterMap fun
    | .run => some .run
    | .write r => some (.write r)
    | .freeConnection => some .freeConnection
    | _ => none

@[simp] theorem arrived_append (is js : List ExchangeStep) :
    arrived (is ++ js) = arrived is ++ arrived js := List.flatMap_append

@[simp] theorem jobSteps_append (is js : List ExchangeStep) :
    jobSteps (is ++ js) = jobSteps is ++ jobSteps js := List.filterMap_append

theorem arrived_snoc {e : ExchangeStep} (is : List ExchangeStep) (he : arrived [e] = []) :
    arrived (is ++ [e]) = arrived is := by
  rw [arrived_append, he, List.append_nil]

theorem jobSteps_snoc {e : ExchangeStep} (is : List ExchangeStep) (he : jobSteps [e] = []) :
    jobSteps (is ++ [e]) = jobSteps is := by
  rw [jobSteps_append, he, List.append_nil]

theorem queued_append (evs evs' : List RecvEv) :
    queued (evs ++ evs') = queued evs ++ queued evs' := List.filterMap_append

theorem map_queued (evs : List RecvEv) : (queued evs).map Msg.pkg = handed evs := by
  rw [queued, handed, List.map_filterMap]
  congr 1
  funext ev
  cases ev <;> rfl

theorem bytes_of_pkg {m : Msg} {pkg : List UInt8} (h : m.pkg = pkg.map some) : m.bytes = pkg := by
  rw [Msg.bytes, h, List.map_map]
  exact List.map_id pkg

theorem forall_mem_pkgFramer (s : List UInt8) :
    ∀ pkg ∈ pkgFramer.frames s, PkgLenOk (pkgLen pkg) ∧ pkg.length = pkgLen pkg := by
  refine Framer.forall_mem_frames ?_ s
  intro s pkg r h
  replace h : nextPkg s = some (some pkg, r) := h
  unfold nextPkg at h
  split_ifs at h with h₁ h₂ h₃
  · cases h
    have h8 := h₂.1
    simp only [iLenPkgHeader] at h₁ h8
    rw [pkgLen_take (by omega), List.length_take]
    exact ⟨h₂, by omega⟩
  · cases h

/-! ## The processing of the first packet -/

namespace Job

/-- The processing of a business packet has not come to its response, or ends without one. -/
def Early : Phase → Prop
  | .start | .received | .called .handleBusiness | .locked .handleBusiness | .done => True
  | _ => False

/-- **Where the processing stands**: before a response, or on the way with one. -/
inductive Stage (j : Job) (u : Uninit) (is : List JobStep) (os : List SendEv) (p : Processing) :
    Prop
  | before (obj : p.obj = .new u) (phase : Early p.phase) (counts : counts is = [])
      (bytes : accepted os = []) (sent : SendEv.sent ∉ os)
  | behind (r : HttpServer.Reply) (hr : (HttpServer.new u).business j.env
      (j.pkg.take iLenPkgHeader) (j.pkg.drop iLenPkgHeader) = .ok r)
      (met : Met r.obj r.pkgLen is os p)

variable {j : Job} {u : Uninit} {is : List JobStep} {os o : List SendEv} {p q : Processing}

theorem handler_of_business {c : SendSide} {n : UInt64} {pkg : List UInt8} {k : Handler}
    (hcode : msgCode pkg = cmdBusiness) (hk : threadRecvProcFunc c n pkg = some k) :
    k = .handleBusiness := by
  unfold threadRecvProcFunc at hk
  rw [hcode] at hk
  split_ifs at hk
  cases hk
  rfl

theorem Stage.run_before (hcode : msgCode j.pkg = cmdBusiness) (hobj : p.obj = .new u)
    (hphase : Early p.phase) (hcounts : counts is = []) (hbytes : accepted os = [])
    (hsent : SendEv.sent ∉ os) (hs : j.run p = some (q, o)) :
    Stage j u (is ++ [.run]) (os ++ o) q := by
  have hc : counts (is ++ [.run]) = [] := by rw [counts_append, hcounts]; rfl
  have early : ∀ {q : Processing} {o : List SendEv}, q.obj = .new u → Early q.phase →
      o = [] ∨ o = [.lock] ∨ o = [.unlock] → Stage j u (is ++ [.run]) (os ++ o) q := by
    intro q o hobj hphase ho
    refine .before hobj hphase hc ?_ ?_
    · rw [accepted_append, hbytes]
      rcases ho with rfl | rfl | rfl <;> rfl
    · rw [List.mem_append, not_or]
      exact ⟨hsent, by rcases ho with rfl | rfl | rfl <;> simp⟩
  cases hp : p.phase with
  | start =>
    rcases run_start_cases hp hs with ⟨-, rfl, rfl⟩ | ⟨-, -, rfl, rfl⟩
    · exact early hobj trivial (Or.inl rfl)
    · exact early hobj trivial (Or.inr (Or.inl rfl))
  | received =>
    rcases run_received_cases hp hs with ⟨-, ⟨-, rfl, rfl⟩ | ⟨-, rfl, rfl⟩⟩ |
      ⟨-, rfl, n, -, ⟨-, rfl⟩ | ⟨k, hk, rfl⟩⟩
    · exact early hobj trivial (Or.inl rfl)
    · exact early hobj trivial (Or.inr (Or.inr rfl))
    · exact early hobj trivial (Or.inl rfl)
    · rw [handler_of_business hcode hk]
      exact early hobj trivial (Or.inl rfl)
  | called k =>
    rw [hp] at hphase
    cases k with
    | handlePing => exact hphase.elim
    | handleBusiness =>
      rcases run_called_cases hp hs with ⟨hk, -⟩ | ⟨-, hlock⟩
      · cases hk
      · rcases lockLT_cases hlock with ⟨-, -, rfl, rfl⟩ | ⟨-, rfl, rfl⟩
        · exact early hobj trivial (Or.inr (Or.inl rfl))
        · exact early hobj trivial (Or.inl rfl)
  | locked k =>
    rw [hp] at hphase
    cases k with
    | handlePing => exact hphase.elim
    | handleBusiness =>
      obtain ⟨rfl, hprep⟩ := run_locked_cases hp hs
      rcases prepare_cases hprep with ⟨hk, -⟩ | ⟨-, r, hr, rfl⟩
      · cases hk
      · rw [hobj] at hr
        refine .behind r hr ⟨rfl, ?_, ?_⟩
        · rw [List.append_nil, hbytes, hc]
          rfl
        · rw [List.append_nil]
          exact ⟨hsent, by rw [hc]; exact List.not_mem_nil, rfl⟩
  | prepared _ | sending _ | waiting | remaining =>
    rw [hp] at hphase
    exact hphase.elim
  | done =>
    simp only [Job.run, hp] at hs
    cases hs

/-- **A step keeps the stage.** -/
theorem Stage.step (hcode : msgCode j.pkg = cmdBusiness) (hst : Stage j u is os p) {i : JobStep}
    (hs : j.step p i = some (q, o)) : Stage j u (is ++ [i]) (os ++ o) q := by
  cases hst with
  | behind r hr met => exact .behind r hr (met.step hs)
  | before hobj hphase hcounts hbytes hsent =>
    cases i with
    | run => exact .run_before hcode hobj hphase hcounts hbytes hsent hs
    | write r =>
      -- nothing is written in front of a response
      rcases write_cases hs with ⟨k, it, o', hp, -⟩ | ⟨it, hp, -⟩ <;> rw [hp] at hphase <;>
        exact hphase.elim
    | freeConnection =>
      cases hs
      refine .before hobj hphase ?_ ?_ ?_
      · rw [counts_append, hcounts]
        rfl
      · rw [List.append_nil, hbytes]
      · rw [List.append_nil]
        exact hsent

/-- **What the socket has accepted**, as long as one write at most accepts anything: nothing that is
not in front of `bytes`, and all of them once the response is reported as sent. -/
theorem Stage.accepts (hst : Stage j u is os p) (hw : writes (counts is) ≤ 1)
    {r : HttpServer.Reply} {bytes : List UInt8} (hr : (HttpServer.new u).business j.env
      (j.pkg.take iLenPkgHeader) (j.pkg.drop iLenPkgHeader) = .ok r)
    (hsends : HttpServer.Sends r bytes) (hne : bytes ≠ []) :
    (accepted os).map p.obj.byteAt <+: bytes.map some ∧
      (SendEv.sent ∈ os → (accepted os).map p.obj.byteAt = bytes.map some) := by
  cases hst with
  | before hobj hphase hcounts hbytes hsent =>
    rw [hbytes]
    refine ⟨?_, fun h => absurd h hsent⟩
    exact List.nil_prefix
  | behind r' hr' met =>
    cases hr'.symm.trans hr
    obtain ⟨segs, hsegs, hflat⟩ := hsends.segments
    obtain ⟨n, hn, hcounts⟩ := exists_take (l := r.obj.iovBytes) hw
    have hgot : (accepted os).map p.obj.byteAt = (bytes.map some).take n := by
      rw [met.bytes, hn, met.obj, List.map_take, HttpServer.iovBytes_byteAt hsegs, hflat]
    rw [hgot]
    have hpre : (bytes.map some).take n <+: bytes.map some := List.take_prefix _ _
    refine ⟨hpre, fun h => List.take_of_length_le ?_⟩
    have hpos : 0 < bytes.length := List.length_pos_of_ne_nil hne
    have hlen := hsends.pkgLen
    have hmem := hcounts _ ((met.sent_iff hw).mp h)
    rw [List.length_map]
    omega

end Job

/-! ## A run -/

/-- **Between two steps**: the receiver and the queue are those of the framer, and the packet a
thread has taken is the first one. -/
structure Exchanging (env : Env) (u : Uninit) (is : List ExchangeStep) (os : List SendEv)
    (s : Exchange) : Prop where
  recv : Aligned s.recv (pkgFramer.rest (arrived is))
  msgs : s.msgs.map Msg.pkg = (pkgFramer.frames (arrived is)).map (List.map some)
  idle : s.job = none → s.proc.obj = .new u ∧ Job.counts (jobSteps is) = [] ∧
    Job.accepted os = [] ∧ SendEv.sent ∉ os
  busy : ∀ j ∈ s.job, j.env = env ∧ (pkgFramer.frames (arrived is)).head? = some j.pkg ∧
    (msgCode j.pkg = cmdBusiness → Job.Stage j u (jobSteps is) os s.proc)

namespace Exchange

variable {cfg : Conf} {self : Addr} {env : Env} {u : Uninit} {s s' : Exchange}
  {is : List ExchangeStep} {os o : List SendEv}

theorem aligned_reseq {c : Connection} {t : List UInt8} (h : Aligned c t) (n : UInt64) :
    Aligned { c with iCurrsequence := n } t := by
  cases h with
  | head h held => exact .head ⟨h.stat, h.buf, h.len, h.pos⟩ held
  | body m h ok size held hd pos len =>
    exact .body m ⟨h.stat, h.mem, h.buf⟩ ok size held hd pos len

theorem exchanging_read (h : Exchanging env u is os s) {rd : Read}
    (hg : Reads cfg self s (.read rd)) (hs : step cfg self env s (.read rd) = some (s', o)) :
    Exchanging env u (is ++ [.read rd]) (os ++ o) s' := by
  obtain ⟨c, evs, hread, hev, hal⟩ := aligned_step h.recv hg.1 hg.2.1 hg.2.2
  obtain ⟨p, hp, he⟩ := Option.map_eq_some_iff.mp hs
  rw [hread] at hp
  cases hp
  cases he
  have harrived : arrived (is ++ [.read rd]) = arrived is ++ rd.data := by
    rw [arrived_append]
    exact congrArg _ (List.append_nil _)
  have hsteps : jobSteps (is ++ [.read rd]) = jobSteps is := jobSteps_snoc is rfl
  refine ⟨?_, ?_, ?_, ?_⟩
  · rw [harrived, Framer.rest_append]
    exact hal
  · rw [harrived, Framer.frames_append, List.map_append, List.map_append, map_queued, hev, h.msgs]
  · rw [hsteps, List.append_nil]
    exact h.idle
  · rw [hsteps, List.append_nil, harrived, Framer.frames_append]
    intro j hj
    obtain ⟨henv, hhead, hst⟩ := h.busy j hj
    exact ⟨henv, by rw [List.head?_append, hhead]; rfl, hst⟩

theorem exchanging_take (h : Exchanging env u is os s) {arg tptr : ℕ}
    (hs : step cfg self env s (.take arg tptr) = some (s', o)) :
    Exchanging env u (is ++ [.take arg tptr]) (os ++ o) s' := by
  obtain ⟨t, ht, he⟩ := Option.map_eq_some_iff.mp hs
  cases he
  have harrived : arrived (is ++ [.take arg tptr]) = arrived is := arrived_snoc is rfl
  have hsteps : jobSteps (is ++ [.take arg tptr]) = jobSteps is := jobSteps_snoc is rfl
  unfold takeFirst at ht
  split at ht
  case h_2 => cases ht
  case h_1 m ms hjob hmsgs =>
    cases ht
    obtain ⟨hobj, hcounts, hbytes, hsent⟩ := h.idle hjob
    have hfirst := h.msgs
    rw [hmsgs, List.map_cons] at hfirst
    obtain ⟨pkg, pkgs, hframes, hpkg, -⟩ := List.map_eq_cons_iff.mp hfirst.symm
    refine ⟨?_, ?_, nofun, ?_⟩
    · rw [harrived]
      exact h.recv
    · rw [harrived]
      exact h.msgs
    · rw [harrived, hsteps, List.append_nil]
      rintro j ⟨⟩
      refine ⟨rfl, ?_, fun _ => .before hobj trivial hcounts hbytes hsent⟩
      rw [hframes, jobOf, bytes_of_pkg hpkg.symm]
      rfl

theorem exchanging_jobStep (h : Exchanging env u is os s) {i : JobStep} {e : ExchangeStep}
    (he : jobSteps [e] = [i]) (hnone : arrived [e] = []) (hs : s.jobStep i = some (s', o)) :
    Exchanging env u (is ++ [e]) (os ++ o) s' := by
  obtain ⟨j, hj, hs⟩ := Option.bind_eq_some_iff.mp hs
  obtain ⟨⟨q, o'⟩, hq, heq⟩ := Option.map_eq_some_iff.mp hs
  cases heq
  have harrived : arrived (is ++ [e]) = arrived is := arrived_snoc is hnone
  refine ⟨?_, ?_, fun hn => ?_, ?_⟩
  · rw [harrived]
    exact h.recv
  · rw [harrived]
    exact h.msgs
  · rw [hj] at hn
    cases hn
  · rw [harrived, jobSteps_append, he]
    intro k hk
    obtain rfl := Option.some.inj (hj.symm.trans hk)
    obtain ⟨henv, hhead, hst⟩ := h.busy j hj
    exact ⟨henv, hhead, fun hcode => (hst hcode).step hcode hq⟩

theorem exchanging_free (h : Exchanging env u is os s)
    (hs : step cfg self env s .freeConnection = some (s', o)) :
    Exchanging env u (is ++ [.freeConnection]) (os ++ o) s' := by
  cases hs
  have harrived : arrived (is ++ [.freeConnection]) = arrived is := arrived_snoc is rfl
  refine ⟨?_, ?_, fun hn => ?_, ?_⟩
  · rw [harrived]
    exact aligned_reseq h.recv _
  · rw [harrived]
    exact h.msgs
  · obtain ⟨hobj, hcounts, hbytes, hsent⟩ := h.idle hn
    rw [List.append_nil, jobSteps_append, Job.counts_append, hcounts]
    exact ⟨hobj, rfl, hbytes, hsent⟩
  · rw [harrived, jobSteps_append]
    intro j hj
    obtain ⟨henv, hhead, hst⟩ := h.busy j hj
    exact ⟨henv, hhead, fun hcode => (hst hcode).step hcode rfl⟩

/-- **A step keeps the invariant.** -/
theorem exchanging_step (h : Exchanging env u is os s) {i : ExchangeStep}
    (hg : Reads cfg self s i) (hs : step cfg self env s i = some (s', o)) :
    Exchanging env u (is ++ [i]) (os ++ o) s' := by
  cases i with
  | read rd => exact exchanging_read h hg hs
  | take arg tptr => exact exchanging_take h hs
  | run => exact exchanging_jobStep h rfl rfl hs
  | write r => exact exchanging_jobStep h rfl rfl hs
  | freeConnection => exact exchanging_free h hs

theorem exchanging_start (fd : ℤ) (seq : UInt64) :
    Exchanging env u [] [] (start fd seq u) where
  recv := aligned_of_inHead (inHead_initRecv _)
  msgs := rfl
  idle := fun _ => ⟨rfl, rfl, rfl, List.not_mem_nil⟩
  busy := nofun

/-- **A run keeps it.** -/
theorem exchanging_run {fd : ℤ} {seq : UInt64}
    (hg : Run.Guarded (step cfg self env) (Reads cfg self) (start fd seq u) is)
    (hr : Run.run (step cfg self env) (start fd seq u) is = some (s, os)) :
    Exchanging env u is os s := by
  have hstep : ∀ is os s i s' o, Exchanging env u is os s → Reads cfg self s i →
      step cfg self env s i = some (s', o) → Exchanging env u (is ++ [i]) (os ++ o) s' :=
    fun _ _ _ _ _ _ h hg hs => exchanging_step h hg hs
  exact Run.run_induct hstep (exchanging_start fd seq) hg hr

/-- The packet of the response to `pkg`, which asks for `a`. -/
def replyTo (env : Env) (a : Asked) (code : HttpCode) (pkg : List UInt8) : List UInt8 :=
  packet (pkg.take iLenPkgHeader) (a.text env (named env (pkg.drop iLenPkgHeader)) code)

section replyTo

variable {pkg : List UInt8} {code : HttpCode} {a : Asked}

theorem first_packet {t : List UInt8} (hpkg : (pkgFramer.frames t).head? = some pkg) :
    (pkg.take iLenPkgHeader).length = iLenPkgHeader ∧
      (pkg.drop iLenPkgHeader).length < 2 ^ 16 := by
  obtain ⟨⟨hge, hle⟩, hlen⟩ := forall_mem_pkgFramer t pkg (List.mem_of_mem_head? hpkg)
  rw [List.length_take, List.length_drop]
  simp only [iLenPkgHeader, pkgMaxLength] at hge hle ⊢
  omega

theorem replyTo_ne_nil (pkg : List UInt8) : replyTo env a code pkg ≠ [] := List.cons_ne_nil _ _

theorem replyTo_header {t : List UInt8} (hs : env.Sizes)
    (hpkg : (pkgFramer.frames t).head? = some pkg)
    (ho : outcome env u (pkg.drop iLenPkgHeader) = some (code, a)) (hframed : a.Framed env code)
    (hsized : a.Sized env code) :
    pkgLen (replyTo env a code pkg) = (replyTo env a code pkg).length ∧
      msgCode (replyTo env a code pkg) = msgCode pkg := by
  obtain ⟨hhdr, hroom⟩ := first_packet hpkg
  obtain ⟨r, -, -, hlt⟩ := HttpServer.business_packet hs hhdr hroom ho hframed hsized
  refine ⟨pkgLen_packet hhdr hlt, (msgCode_packet hhdr).trans ?_⟩
  match pkg, hhdr with
  | _ :: _ :: _ :: _ :: _, _ => rfl

end replyTo

/-- **The exchange.** At any time of any run in which one write at most accepts anything, the client
has got a beginning of the packet of the response to the first packet it has sent, and all of it
once it is reported as sent. That packet says how long it is, and its text is a message. It depends
on that packet, the file system and the clock, and for HEAD of a missing file on what `m_stat` has
been left with. -/
theorem exchanged (cfg : Conf) (self : Addr) (env : Env) (u : Uninit) (fd : ℤ) (seq : UInt64)
    (is : List ExchangeStep) (os : List SendEv) (s : Exchange) (pkg : List UInt8)
    (code : HttpCode) (a : Asked) (ht : env.PlainTimes) (hs : env.Sizes)
    (hg : Run.Guarded (step cfg self env) (Reads cfg self) (start fd seq u) is)
    (hr : Run.run (step cfg self env) (start fd seq u) is = some (s, os))
    (hpkg : (pkgFramer.frames (arrived is)).head? = some pkg) (hcode : msgCode pkg = cmdBusiness)
    (ho : outcome env u (pkg.drop iLenPkgHeader) = some (code, a)) (hframed : a.Framed env code)
    (hsized : a.Sized env code) (hw : writes (Job.counts (jobSteps is)) ≤ 1) :
    let reply := replyTo env a code pkg
    let got := (Job.accepted os).map s.proc.obj.byteAt
    got <+: reply.map some ∧ (SendEv.sent ∈ os → got = reply.map some) ∧
      pkgLen reply = reply.length ∧ msgCode reply = cmdBusiness ∧
      if a.method = .head then HeadOnly (reply.drop iLenPkgHeader)
      else WellFormed (reply.drop iLenPkgHeader) := by
  intro reply got
  obtain ⟨hhdr, hroom⟩ := first_packet hpkg
  obtain ⟨hlen, hmsg⟩ := replyTo_header hs hpkg ho hframed hsized
  have hmessage := HttpServer.outcome_wellFormed ht hs hroom ho hframed hsized
  have hdrop : reply.drop iLenPkgHeader = a.text env (named env (pkg.drop iLenPkgHeader)) code :=
    drop_packet hhdr
  have hinv := exchanging_run hg hr
  have hgot : got <+: reply.map some ∧ (SendEv.sent ∈ os → got = reply.map some) := by
    cases hjob : s.job with
    | none =>
      obtain ⟨-, -, hbytes, hsent⟩ := hinv.idle hjob
      simp only [got, hbytes, List.map_nil]
      refine ⟨?_, fun h => absurd h hsent⟩
      exact List.nil_prefix
    | some j =>
      obtain ⟨rfl, hhead, hst⟩ := hinv.busy j hjob
      obtain rfl : j.pkg = pkg := Option.some.inj (hhead.symm.trans hpkg)
      obtain ⟨r, hbusiness, hsends, -⟩ :=
        HttpServer.business_packet hs hhdr hroom ho hframed hsized
      exact (hst hcode).accepts hw hbusiness hsends (replyTo_ne_nil _)
  exact ⟨hgot.1, hgot.2, hlen, hmsg.trans hcode, by rw [hdrop]; exact hmessage⟩

/-- A GET that arrives in four pieces. -/
def fourPieces : List Read :=
  [⟨0, [35, 0, 1]⟩, ⟨0, [0, 0, 0, 0, 0]⟩, ⟨0, CString.ascii "GET http"⟩,
    ⟨0, CString.ascii "://h/x HTTP/1.1\r\n\r\n"⟩]

/-- The packet of the GET. -/
def getPacket : List UInt8 :=
  [35, 0, 1, 0, 0, 0, 0, 0] ++ CString.ascii "GET http://h/x HTTP/1.1\r\n\r\n"

theorem outcome_getPacket : ∃ code a,
    outcome .tenBytes .zero (getPacket.drop iLenPkgHeader) = some (code, a) ∧
      a.Framed .tenBytes code ∧ a.Sized .tenBytes code := by
  obtain ⟨⟨code, a⟩, ho, hq⟩ := Run.exists_of_any
    (show ((outcome .tenBytes .zero (getPacket.drop iLenPkgHeader)).any fun q =>
      decide (q.2.Framed .tenBytes q.1 ∧ q.2.Sized .tenBytes q.1)) = true by decide +kernel)
  exact ⟨code, a, ho, of_decide_eq_true hq⟩

/-- The GET is answered, with a write that is interrupted, while the next packet begins. -/
def getSteps : List ExchangeStep :=
  fourPieces.map .read ++ [.take 0 1, .run, .run, .read ⟨0, [8]⟩, .run, .run, .run,
    .write (.err .eintr), .write (.ret 130)]

/-- The client gets all of the response. -/
theorem exchanged_getPacket : ∃ s os code a,
    Run.run (step ⟨8, .etClose, 0, 100, 10⟩ ⟨0, 0⟩ .tenBytes) (start 5 1 .zero) getSteps =
      some (s, os) ∧
    (Job.accepted os).map s.proc.obj.byteAt = (replyTo .tenBytes a code getPacket).map some := by
  obtain ⟨code, a, ho, hframed, hsized⟩ := outcome_getPacket
  obtain ⟨⟨s, os⟩, hr, hsent⟩ := Run.exists_of_any
    (show ((Run.run (step ⟨8, .etClose, 0, 100, 10⟩ ⟨0, 0⟩ .tenBytes) (start 5 1 .zero)
      getSteps).any fun r => decide (SendEv.sent ∈ r.2)) = true by decide +kernel)
  have hexchanged := exchanged ⟨8, .etClose, 0, 100, 10⟩ ⟨0, 0⟩ .tenBytes .zero 5 1 getSteps os s
    getPacket code a HttpServer.plainTimes_tenBytes HttpServer.sizes_tenBytes
    (by decide +kernel) hr (by decide +kernel) (by decide +kernel) ho hframed hsized
    (by decide +kernel)
  exact ⟨s, os, code, a, hr, hexchanged.2.1 (of_decide_eq_true hsent)⟩

end Exchange

end ServerNginx
