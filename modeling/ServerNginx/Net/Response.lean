import ServerNginx.Lib.Run
import ServerNginx.Net.Send
import ServerNginx.Http.Respond

set_option autoImplicit false

/-!
# From a packet to its response

The processing of one complete packet on a connection that serves an `HttpServer` object, step by
step: `threadRecvProcFunc` chooses a handler, the handler takes the lock (LT mode; in ET mode
`recvproc_ET` has taken it), prepares the response and calls `sendMsg`; what `sendMsg` leaves is
sent by `sendRemainMsg`. A step is a stretch of a thread up to the next call of `WriteFunc`, a
call of `WriteFunc`, or the connection being freed meanwhile.

* `threadRecvProcFunc`: which handler a packet gets;
* `Job.step`: one step of the processing;
* `lockLT_cases` to `sent_cases`: all that a step can do in each phase.
-/

namespace ServerNginx

/-- `_CMD_PING`. -/
def cmdPing : ℕ := 0

/-- `_CMD_BUSINESS`. -/
def cmdBusiness : ℕ := 1

/-- The functions in `FuncBuf`. -/
inductive Handler
  | handlePing
  | handleBusiness
  deriving DecidableEq, Repr

/-- `FuncBuf`. -/
def funcBuf : List (ℕ × Handler) := [(cmdPing, .handlePing), (cmdBusiness, .handleBusiness)]

/-- `HandleNum`. -/
def handleNum : ℕ := funcBuf.length

/-- `iBodyLength`, an `unsigned short`. -/
def iBodyLength (pkg : List UInt8) : ℕ := (pkgLen pkg + 2 ^ 16 - iLenPkgHeader) % 2 ^ 16

/-- `threadRecvProcFunc` up to the call of the handler, on a packet that came when the connection
had the sequence number `iCurrsequence`; `none` where it returns without one. -/
def threadRecvProcFunc (c : SendSide) (iCurrsequence : UInt64) (pkg : List UInt8) :
    Option Handler :=
  if pkgLen pkg = iLenPkgHeader ∧ msgCode pkg ≠ cmdPing then none
  else if iCurrsequence ≠ c.iCurrsequence then none
  else if handleNum ≤ msgCode pkg then none
  else (funcBuf.find? fun p => p.1 = msgCode pkg).map Prod.snd

/-- The part of `_HandlePing` behind the lock, up to `sendMsg`: the answer is a packet in a block
`tptr` of its own, with a copy of the message header. -/
def handlePing (c : SendSide) (iCurrsequence : UInt64) (tptr : ℕ) : SendSide :=
  { c with
    memory := Function.update c.memory tptr (some iCurrsequence)
    psendMemPointer := some tptr
    psendbuf := some ⟨tptr, iLenMsgHeader⟩
    isendlen := iLenPkgHeader
    deleteFlag := true }

/-- What `Business` does to the connection: the response is in `m_iov`, and has no block. -/
def handleBusiness (c : SendSide) (pkgLen : ℕ) : SendSide :=
  { c with deleteFlag := false, isendlen := pkgLen }

namespace HttpServer

/-- The bytes of `m_iov[0..m_iov_count)`. -/
def iovBytes (h : HttpServer) : List RespByte :=
  (List.range h.mIovCount).flatMap fun i =>
    (List.range ((h.mIov[i]?.map Iovec.iovLen).getD 0)).map (RespByte.iov i)

/-- `WriteData` does not look at `psendbuf`: what a call that returns `r` has accepted. -/
def writeData (h : HttpServer) : WriteRet → List RespByte
  | .ret k => h.iovBytes.take k
  | .err _ => []

end HttpServer

/-- A packet and what its processing finds: the block `arg` it is in, the block `tptr` that
`AllocMemory` gives `_HandlePing`, and the verdict of `TestFlood` on it. -/
structure Job where
  env : Env
  mETflag : ETFlag
  pkg : List UInt8
  arg : ℕ
  tptr : ℕ
  floodflag : Bool

/-- Where the processing of a packet stands. -/
inductive Phase
  /-- before `recvproc_ET` takes the lock, or before the packet is complete -/
  | start
  /-- the packet is complete -/
  | received
  /-- a handler is called -/
  | called (h : Handler)
  /-- the handler has the lock -/
  | locked (h : Handler)
  /-- the response is prepared -/
  | prepared (h : Handler)
  /-- `sendMsg` calls `WriteFunc` -/
  | sending (h : Handler)
  /-- `EPOLLOUT` is to come -/
  | waiting
  /-- `sendRemainMsg` calls `WriteFunc` -/
  | remaining
  | done
  deriving DecidableEq, Repr

/-- The processing of a packet. -/
structure Processing where
  conn : SendSide
  obj : HttpServer
  phase : Phase

/-- What happens next. -/
inductive JobStep
  /-- the thread the processing is in goes on -/
  | run
  /-- `WriteFunc` returns -/
  | write (r : WriteRet)
  /-- `ngx_free_connection` of the connection, by another thread -/
  | freeConnection
  deriving DecidableEq, Repr

/-- The packet is not processed any further. -/
def Processing.finish (p : Processing) : Processing := { p with phase := .done }

namespace Job

variable (j : Job) (p : Processing)

/-- The lock a handler takes in LT mode; `none` while another thread has it. -/
def lockLT (h : Handler) : Option (Processing × List SendEv) :=
  match j.mETflag with
  | .etClose =>
    if p.conn.logicPorcMutex then none
    else some ({ p with conn := { p.conn with logicPorcMutex := true }, phase := .locked h },
      [.lock])
  | .etOpen => some ({ p with phase := .locked h }, [])

/-- Behind the handler, `threadRecvProcFunc` frees the message. -/
def freeMsg : Option Processing :=
  (p.conn.freeMemory (some j.arg)).map fun c => { p with conn := c }

/-- A handler up to the lock. -/
def call (h : Handler) : Option (Processing × List SendEv) :=
  match h with
  | .handlePing =>
    if iBodyLength j.pkg ≠ 0 then (j.freeMsg p).map fun p => (p.finish, [])
    else j.lockLT p .handlePing
  | .handleBusiness => j.lockLT p .handleBusiness

/-- A handler up to `sendMsg`. -/
def prepare (h : Handler) : Option Processing :=
  match h with
  | .handlePing => (p.conn.memory j.arg).bind fun iCurrsequence =>
    -- `AllocMemory` returns a block that is not in use
    if (p.conn.memory j.tptr).isSome then none
    else some { p with
      conn := handlePing p.conn iCurrsequence j.tptr
      phase := .prepared .handlePing }
  | .handleBusiness =>
    match HttpServer.business j.env p.obj (j.pkg.take iLenPkgHeader)
      (j.pkg.drop iLenPkgHeader) with
    | .error _ => none
    | .ok reply => some ⟨handleBusiness p.conn reply.pkgLen, reply.obj, .prepared .handleBusiness⟩

/-- The header `sendMsg` is called on. -/
def sendArg : Handler → ℕ
  | .handlePing => j.tptr
  | .handleBusiness => j.arg

/-- `sendMsg` has come to its loop or returned; the handler returns with it. -/
def sent (h : Handler) (it : SendIter) : Option (Processing × List SendEv) :=
  match it.next with
  | .loop => some ({ p with conn := it.conn, phase := .sending h }, it.evs)
  | .wait => (j.freeMsg { p with conn := it.conn, phase := .waiting }).map fun p => (p, it.evs)
  | .ret => (j.freeMsg { p with conn := it.conn, phase := .done }).map fun p => (p, it.evs)

/-- `sendRemainMsg` has come to its loop or returned. -/
def sentRemain (it : SendIter) : Processing × List SendEv :=
  match it.next with
  | .loop | .wait => ({ p with conn := it.conn, phase := .remaining }, it.evs)
  | .ret => ({ p with conn := it.conn, phase := .done }, it.evs)

/-- The thread the processing is in goes on. -/
def run : Option (Processing × List SendEv) :=
  match p.phase with
  | .start =>
    match j.mETflag with
    | .etClose => some ({ p with phase := .received }, [])
    | .etOpen =>
      if p.conn.logicPorcMutex then none
      else some ({ p with conn := { p.conn with logicPorcMutex := true }, phase := .received },
        [.lock])
  | .received =>
    if j.floodflag then
      match j.mETflag with
      | .etClose => some (p.finish, [])
      | .etOpen => some ({ p with conn := p.conn.unlock, phase := .done }, [.unlock])
    else (p.conn.memory j.arg).map fun iCurrsequence =>
      match threadRecvProcFunc p.conn iCurrsequence j.pkg with
      | none => (p.finish, [])
      | some h => ({ p with phase := .called h }, [])
  | .called h => j.call p h
  | .locked h => (j.prepare p h).map fun p => (p, [])
  | .prepared h => (sendMsg p.conn (j.sendArg h)).bind (j.sent p h)
  | .waiting => (sendRemainMsg p.conn).map (sentRemain p)
  | .sending _ | .remaining | .done => none

/-- `WriteFunc` returns. -/
def write (r : WriteRet) : Option (Processing × List SendEv) :=
  let accepting (q : Processing × List SendEv) := (q.1, .accepted (p.obj.writeData r) :: q.2)
  match p.phase with
  | .sending h => ((sendMsgIter p.conn r).bind (j.sent p h)).map accepting
  | .remaining => ((sendRemainIter p.conn r).map (sentRemain p)).map accepting
  | _ => none

/-- **One step of the processing of a packet.** -/
def step : JobStep → Option (Processing × List SendEv)
  | .run => j.run p
  | .write r => j.write p r
  | .freeConnection =>
    some ({ p with conn := { p.conn with iCurrsequence := p.conn.iCurrsequence + 1 } }, [])

/-! ## What a step can do -/

variable {j : Job} {p q : Processing} {os : List SendEv} {k : Handler}

theorem lockLT_cases (h : j.lockLT p k = some (q, os)) :
    (j.mETflag = .etClose ∧ p.conn.logicPorcMutex = false ∧ os = [.lock] ∧
      q = { p with conn := { p.conn with logicPorcMutex := true }, phase := .locked k }) ∨
    (j.mETflag = .etOpen ∧ os = [] ∧ q = { p with phase := .locked k }) := by
  unfold lockLT at h
  cases het : j.mETflag with
  | etClose =>
    simp only [het] at h
    split_ifs at h with hlock
    cases h
    exact Or.inl ⟨rfl, Bool.eq_false_iff.mpr hlock, rfl, rfl⟩
  | etOpen =>
    simp only [het] at h
    cases h
    exact Or.inr ⟨rfl, rfl, rfl⟩

theorem run_start_cases (hp : p.phase = .start) (h : j.run p = some (q, os)) :
    (j.mETflag = .etClose ∧ os = [] ∧ q = { p with phase := .received }) ∨
    (j.mETflag = .etOpen ∧ p.conn.logicPorcMutex = false ∧ os = [.lock] ∧
      q = { p with conn := { p.conn with logicPorcMutex := true }, phase := .received }) := by
  simp only [run, hp] at h
  cases het : j.mETflag with
  | etClose =>
    simp only [het] at h
    cases h
    exact Or.inl ⟨rfl, rfl, rfl⟩
  | etOpen =>
    simp only [het] at h
    split_ifs at h with hlock
    cases h
    exact Or.inr ⟨rfl, Bool.eq_false_iff.mpr hlock, rfl, rfl⟩

theorem run_received_cases (hp : p.phase = .received) (h : j.run p = some (q, os)) :
    (j.floodflag = true ∧ (j.mETflag = .etClose ∧ os = [] ∧ q = p.finish ∨
      j.mETflag = .etOpen ∧ os = [.unlock] ∧
        q = { p with conn := p.conn.unlock, phase := .done })) ∨
    (j.floodflag = false ∧ os = [] ∧ ∃ n, p.conn.memory j.arg = some n ∧
      (threadRecvProcFunc p.conn n j.pkg = none ∧ q = p.finish ∨
        ∃ k, threadRecvProcFunc p.conn n j.pkg = some k ∧ q = { p with phase := .called k })) := by
  simp only [run, hp] at h
  split_ifs at h with hflood
  · refine Or.inl ⟨hflood, ?_⟩
    cases het : j.mETflag with
    | etClose =>
      simp only [het] at h
      cases h
      exact Or.inl ⟨rfl, rfl, rfl⟩
    | etOpen =>
      simp only [het] at h
      cases h
      exact Or.inr ⟨rfl, rfl, rfl⟩
  · obtain ⟨n, hn, h⟩ := Option.map_eq_some_iff.mp h
    cases hk : threadRecvProcFunc p.conn n j.pkg with
    | none =>
      simp only [hk] at h
      cases h
      exact Or.inr ⟨Bool.eq_false_iff.mpr hflood, rfl, n, hn, Or.inl ⟨hk, rfl⟩⟩
    | some k =>
      simp only [hk] at h
      cases h
      exact Or.inr ⟨Bool.eq_false_iff.mpr hflood, rfl, n, hn, Or.inr ⟨k, hk, rfl⟩⟩

theorem run_called_cases (hp : p.phase = .called k) (h : j.run p = some (q, os)) :
    (k = .handlePing ∧ iBodyLength j.pkg ≠ 0 ∧ os = [] ∧
      q = { p with conn := p.conn.freed j.arg, phase := .done }) ∨
    ((k = .handlePing → iBodyLength j.pkg = 0) ∧ j.lockLT p k = some (q, os)) := by
  simp only [run, hp] at h
  cases k with
  | handleBusiness => exact Or.inr ⟨nofun, h⟩
  | handlePing =>
    simp only [call] at h
    split_ifs at h with hbody
    · obtain ⟨p', hp', he⟩ := Option.map_eq_some_iff.mp h
      cases he
      obtain ⟨c, hc, rfl⟩ := Option.map_eq_some_iff.mp hp'
      rw [SendSide.freeMemory] at hc
      split_ifs at hc
      cases hc
      exact Or.inl ⟨rfl, hbody, rfl, rfl⟩
    · exact Or.inr ⟨fun _ => not_not.mp hbody, h⟩

theorem prepare_cases (h : j.prepare p k = some q) :
    (k = .handlePing ∧ ∃ n, p.conn.memory j.arg = some n ∧ p.conn.memory j.tptr = none ∧
      q = { p with conn := handlePing p.conn n j.tptr, phase := .prepared k }) ∨
    (k = .handleBusiness ∧ ∃ reply, HttpServer.business j.env p.obj (j.pkg.take iLenPkgHeader)
        (j.pkg.drop iLenPkgHeader) = .ok reply ∧
      q = ⟨handleBusiness p.conn reply.pkgLen, reply.obj, .prepared k⟩) := by
  cases k with
  | handlePing =>
    obtain ⟨n, hn, h⟩ := Option.bind_eq_some_iff.mp h
    split_ifs at h with hfresh
    cases h
    exact Or.inl ⟨rfl, n, hn, Option.not_isSome_iff_eq_none.mp hfresh, rfl⟩
  | handleBusiness =>
    simp only [prepare] at h
    split at h
    case h_1 => cases h
    case h_2 reply hr =>
      cases h
      exact Or.inr ⟨rfl, reply, hr, rfl⟩

theorem run_locked_cases (hp : p.phase = .locked k) (h : j.run p = some (q, os)) :
    os = [] ∧ j.prepare p k = some q := by
  simp only [run, hp] at h
  obtain ⟨p', hp', he⟩ := Option.map_eq_some_iff.mp h
  cases he
  exact ⟨rfl, hp'⟩

theorem run_prepared_cases (hp : p.phase = .prepared k) (h : j.run p = some (q, os)) :
    ∃ it, sendMsg p.conn (j.sendArg k) = some it ∧ j.sent p k it = some (q, os) := by
  simp only [run, hp] at h
  exact Option.bind_eq_some_iff.mp h

theorem write_cases {r : WriteRet} (h : j.write p r = some (q, os)) :
    (∃ k it o, p.phase = .sending k ∧ sendMsgIter p.conn r = some it ∧
      j.sent p k it = some (q, o) ∧ os = .accepted (p.obj.writeData r) :: o) ∨
    (∃ it, p.phase = .remaining ∧ sendRemainIter p.conn r = some it ∧
      q = (sentRemain p it).1 ∧ os = .accepted (p.obj.writeData r) :: it.evs) := by
  cases hp : p.phase with
  | sending k =>
    simp only [write, hp] at h
    obtain ⟨⟨q', o⟩, hq, he⟩ := Option.map_eq_some_iff.mp h
    cases he
    obtain ⟨it, hit, hq⟩ := Option.bind_eq_some_iff.mp hq
    exact Or.inl ⟨k, it, o, rfl, hit, hq, rfl⟩
  | remaining =>
    simp only [write, hp] at h
    obtain ⟨⟨q', o⟩, hq, he⟩ := Option.map_eq_some_iff.mp h
    cases he
    obtain ⟨it, hit, hq⟩ := Option.map_eq_some_iff.mp hq
    refine Or.inr ⟨it, rfl, hit, (congrArg Prod.fst hq).symm, ?_⟩
    rw [← hq, sentRemain]
    cases it.next <;> rfl
  | start | received | called k | locked k | prepared k | waiting | done =>
    simp only [write, hp] at h
    cases h

/-- The phase `sendMsg` leaves. -/
def sentPhase (k : Handler) : SendNext → Phase
  | .loop => .sending k
  | .wait => .waiting
  | .ret => .done

/-- Behind a step of `sendMsg`, the connection is as it left it, but for the message. -/
theorem sent_cases {it : SendIter} (h : j.sent p k it = some (q, os)) :
    os = it.evs ∧ q.obj = p.obj ∧ q.phase = sentPhase k it.next ∧
      q.conn.isendlen = it.conn.isendlen ∧
      q.conn.psendMemPointer = it.conn.psendMemPointer ∧
      q.conn.logicPorcMutex = it.conn.logicPorcMutex ∧
      ∀ a, a ≠ j.arg → q.conn.memory a = it.conn.memory a := by
  unfold sent at h
  split at h
  case h_1 hn =>
    cases h
    exact ⟨rfl, rfl, by rw [hn]; rfl, rfl, rfl, rfl, fun _ _ => rfl⟩
  case h_2 hn | h_3 hn =>
    obtain ⟨q', hq, he⟩ := Option.map_eq_some_iff.mp h
    cases he
    obtain ⟨c, hc, rfl⟩ := Option.map_eq_some_iff.mp hq
    rw [SendSide.freeMemory] at hc
    split_ifs at hc
    cases hc
    exact ⟨rfl, rfl, by rw [hn]; rfl, rfl, rfl, rfl, fun a ha => Function.update_of_ne ha _ _⟩

end Job

end ServerNginx
