import ServerNginx.Net.Heartbeat

set_option autoImplicit false

/-!
# Events in hand

`ngx_epoll_process_events` handles the events of one `epoll_wait` one after the other, and looks
at nothing but `data.ptr` and `events`: the checks for stale events are commented out.

* `handlers`: which handlers an event calls; `handlers_length`: one, whatever the connection has
  asked for;
* `Batch.step`: the loop over the events in hand, between the steps of the other threads;
* `run_sock`: its runs are runs of the process;
* `Batch.NoStale`: an event in hand is for the connection it was reported for;
* **`noStale_iff`**: so it is along a run exactly when no task and no sweep of the run closes a
  connection with an event in hand, and then every connection is released once.
-/

namespace ServerNginx

/-! ## The handlers of an event -/

def epollin : UInt32 := 0x1
def epollout : UInt32 := 0x4
def epollerr : UInt32 := 0x8
def epollhup : UInt32 := 0x10
def epollet : UInt32 := 0x80000000

/-- The pointers to handlers in a connection object. -/
inductive EventHandler
  | phandler
  | rhandler
  | whandler
  deriving DecidableEq, Repr

/-- What `ngx_epoll_opr_event` asks for, with `otherflag` 0: `EPOLLIN` for `READEVENT`. -/
def interest (cfg : Conf) (read : Bool) : UInt32 :=
  let events := if read then epollin else epollout ||| epollet
  if cfg.mETflag = .etOpen then events ||| epollet else events

/-- The handlers `ngx_epoll_process_events` calls for an event. -/
def handlers (revents : UInt32) : List EventHandler :=
  (if revents &&& (epollerr ||| epollhup) ≠ 0 then [.phandler] else []) ++
    if revents = epollin then [.rhandler]
    else if revents = epollout then [.whandler]
    else []

/-- The kernel reports what was asked for, errors and hang-ups, and no flags. -/
def Reportable (cfg : Conf) (read : Bool) (revents : UInt32) : Prop :=
  revents ≠ 0 ∧ revents &&& ~~~((interest cfg read ||| epollerr ||| epollhup) &&& ~~~epollet) = 0

instance (cfg : Conf) (read : Bool) (revents : UInt32) : Decidable (Reportable cfg read revents) :=
  inferInstanceAs (Decidable (_ ∧ _))

theorem le_of_and_not {x m : UInt32} (h : x &&& ~~~m = 0) : x.toNat ≤ m.toNat := by
  have hb : x.toBitVec &&& ~~~m.toBitVec = 0 := congrArg UInt32.toBitVec h
  have hand : x.toBitVec &&& m.toBitVec = x.toBitVec := by
    ext i hi
    have hi' := congrArg (fun y : BitVec 32 => y[i]) hb
    simp only [BitVec.getElem_and, BitVec.getElem_not] at hi' ⊢
    revert hi'
    cases x.toBitVec[i] <;> cases m.toBitVec[i] <;> simp
  have hle : (x.toBitVec &&& m.toBitVec).toNat ≤ m.toBitVec.toNat := by
    rw [BitVec.toNat_and]
    exact Nat.and_le_right
  rw [hand] at hle
  exact hle

/-- **One handler for each event.** -/
theorem handlers_length {cfg : Conf} {read : Bool} {revents : UInt32}
    (h : Reportable cfg read revents) : (handlers revents).length = 1 := by
  obtain ⟨h0, hmask⟩ := h
  have hall : ∀ n : Fin 0x1D, ∀ b : Bool, UInt32.ofNat n ≠ 0 →
      UInt32.ofNat n &&& ~~~(if b then 0x19 else 0x1C) = 0 →
      (handlers (UInt32.ofNat n)).length = 1 := by decide +kernel
  have hint : (interest cfg read ||| epollerr ||| epollhup) &&& ~~~epollet =
      if read then 0x19 else 0x1C := by
    unfold interest
    cases read <;> dsimp only <;> split_ifs <;> decide
  rw [hint] at hmask
  have hle := le_of_and_not hmask
  have hlt : revents.toNat < 0x1D := by
    cases read
    · exact Nat.lt_succ_of_le hle
    · exact lt_of_le_of_lt hle (by decide)
  have := hall ⟨revents.toNat, hlt⟩ read
  rw [UInt32.ofNat_toNat] at this
  exact this h0 hmask

/-! ## The loop over the events -/

/-- An event of `m_events`; `seq` is the sequence number of the connection when `epoll_wait`
returned, which the code does not keep. -/
structure Event where
  c : Addr
  seq : UInt64
  revents : UInt32

/-- A worker in `ngx_epoll_process_events`, with what is known of the events in `sock.mEvents`. -/
structure Batch where
  sock : CSocket
  hand : List Event

/-- What happens while a worker handles events. -/
inductive BatchStep
  /-- `epoll_wait` returns events of connections -/
  | wait (evs : List (Addr × Bool × UInt32))
  /-- the next event; an LT handler gets `ret` from `recv` -/
  | next (ret : RecvRet)
  /-- an event of a listening socket, or a step of another thread -/
  | other (i : CSocket.Step)
  deriving DecidableEq

namespace Batch

variable (cfg : Conf) (b : Batch)

/-- A handler called on connection `a`, whatever has become of it. -/
def handle (s : CSocket) (a : Addr) (ret : RecvRet) :
    EventHandler → Option (CSocket × List PoolEv)
  | .phandler => s.ngxEvhupHandler a
  | .rhandler =>
    if cfg.mETflag = .etOpen then some ({ s with taskBuf := s.taskBuf ++ [a] }, [])
    else (CSocket.ngxReadRequestHandlerCall cfg a (s.conn a) ret).bind (s.afterRead a)
  -- `AddTask(sendRemainMsg)`
  | .whandler => some (s, [])

/-- The handlers of one event. -/
def handleAll (a : Addr) (ret : RecvRet) : CSocket → List EventHandler →
    Option (CSocket × List PoolEv)
  | s, [] => some (s, [])
  | s, h :: hs => (handle cfg s a ret h).bind fun q =>
    (handleAll a ret q.1 hs).map fun r => (r.1, q.2 ++ r.2)

/-- The kernel reports registered connections, each once. -/
def Reported (evs : List (Addr × Bool × UInt32)) : Prop :=
  (evs.map Prod.fst).Nodup ∧ ∀ e ∈ evs, b.sock.Registered e.1 ∧ Reportable cfg e.2.1 e.2.2

instance (evs : List (Addr × Bool × UInt32)) : Decidable (b.Reported cfg evs) :=
  inferInstanceAs (Decidable (_ ∧ _))

/-- The step is one of the loop itself. -/
def ofLoop : CSocket.Step → Bool
  | .wait _ => true
  | .edge _ => true
  | .read .. => true
  | .hup _ => true
  | .write _ => true
  | _ => false

def step : BatchStep → Option (Batch × List PoolEv)
  | .wait evs =>
    if b.hand = [] ∧ b.Reported cfg evs then
      some (⟨{ b.sock with mEvents := evs.map Prod.fst },
        evs.map fun e => ⟨e.1, (b.sock.conn e.1).iCurrsequence, e.2.2⟩⟩, [])
    else none
  | .next ret =>
    match b.hand with
    | [] => none
    | e :: rest => (handleAll cfg e.c ret b.sock.takeEvent (handlers e.revents)).map fun q =>
      (⟨q.1, rest⟩, q.2)
  | .other i =>
    if ofLoop i then none else (b.sock.step cfg i).map fun q => (⟨q.1, b.hand⟩, q.2)

/-- Every event in hand is for the connection that it was reported for. -/
def NoStale : Prop :=
  ∀ e ∈ b.hand, b.sock.Registered e.c ∧ (b.sock.conn e.c).iCurrsequence = e.seq

instance : Decidable b.NoStale := inferInstanceAs (Decidable (∀ _ ∈ _, _))

/-- The connection that a step closes. -/
def closing (s : CSocket) : CSocket.Step → Option Addr
  | .task a rets =>
    if (CSocket.recvprocETTask cfg a (s.conn a) rets).any (·.2.closes) = true then some a else none
  | .read a ret =>
    if (CSocket.ngxReadRequestHandlerCall cfg a (s.conn a) ret).any (·.2.closes) = true then some a
    else none
  | .hup a => some a
  | .visit e now => if s.Kicks e now then some e.2.pConn else none
  | _ => none

/-- The step of another thread closes no connection with an event in hand. -/
def Spares : BatchStep → Prop
  | .other i => ∀ e ∈ b.hand, closing cfg b.sock i ≠ some e.c
  | _ => True

instance : ∀ i, Decidable (b.Spares cfg i)
  | .other _ => inferInstanceAs (Decidable (∀ _ ∈ _, _))
  | .wait _ | .next _ => isTrue trivial

/-- The step of another thread that closes a connection finds it registered. -/
def ClosesRegistered : BatchStep → Prop
  | .other i => b.sock.ClosesRegistered cfg i
  | _ => True

instance : ∀ i, Decidable (b.ClosesRegistered cfg i)
  | .other i => inferInstanceAs (Decidable (b.sock.ClosesRegistered cfg i))
  | .wait _ | .next _ => isTrue trivial

variable {cfg} {b b' : Batch} {s t : CSocket} {log os : List PoolEv} {a c : Addr}

/-! ## What becomes of a registered connection -/

/-- The connection stays what it was. -/
def Stays (s t : CSocket) (c : Addr) : Prop :=
  t.Registered c ∧ (t.conn c).iCurrsequence = (s.conn c).iCurrsequence

theorem stays_of_quiet (h : CSocket.Quiet s t) (hc : s.Registered c) : Stays s t c := by
  refine ⟨?_, (h.ping c hc).2⟩
  rwa [CSocket.Registered, h.epoll]

/-- A read that closes ends the registration of its connection, and of no other. -/
theorem stays_of_ended {e : Ending} (h : CSocket.Ended s a t e) (hc : s.Registered c) :
    (¬ (e.closes = true ∧ c = a) → Stays s t c) ∧
      (e.closes = true → c = a → ¬ t.Registered c) := by
  have hshut : CSocket.Shut s a t → (¬ (True ∧ c = a) → Stays s t c) ∧
      (True → c = a → ¬ t.Registered c) := by
    intro hs
    constructor
    · intro hne
      have hca : c ≠ a := fun h => hne ⟨trivial, h⟩
      exact ⟨hs.registered_iff.mpr ⟨hc, hca⟩, (hs.ping c hc hca).2⟩
    · intro _ hca hreg
      exact (hs.registered_iff.mp hreg).2 hca
  cases e with
  | done => exact ⟨fun _ => stays_of_quiet h hc, fun h => by cases h⟩
  | flood => simpa [Ending.closes] using hshut h.1
  | ret ret =>
    cases ret with
    | data rd | again => exact ⟨fun _ => stays_of_quiet h hc, fun h => by cases h⟩
    | zero | reset | error => simpa [Ending.closes] using hshut h.1

theorem stays_of_accepted {fd now : ℤ} {added : Bool}
    (he : CSocket.Accepted cfg s fd now added t) (hc : s.Registered c) : Stays s t c := by
  unfold CSocket.Accepted at he
  split_ifs at he
  · exact stays_of_quiet he hc
  · obtain ⟨a, hopen⟩ := he
    refine ⟨?_, (hopen.ping c hc).2⟩
    rw [CSocket.Registered, hopen.epoll]
    exact List.mem_cons_of_mem _ hc
  · refine ⟨?_, (he.2.2.2 c hc).2⟩
    rwa [CSocket.Registered, he.1]

theorem stays_of_visited {e : ℤ × StrucMsgHeader} {now : ℤ} (he : CSocket.Visited s e now t)
    (hk : ¬ s.Kicks e now) (hc : s.Registered c) : Stays s t c := by
  unfold CSocket.Visited at he
  dsimp only at he
  rw [if_neg hk] at he
  split_ifs at he
  · rw [he]
    exact ⟨hc, rfl⟩
  · rw [he]
    refine ⟨hc, ?_⟩
    change ((s.setConn e.2.pConn _).conn c).iCurrsequence = _
    by_cases hca : c = e.2.pConn
    · subst hca
      rw [CSocket.conn_setConn_self]
    · rw [CSocket.conn_setConn_of_ne _ _ hca]
  · rw [he]
    exact ⟨hc, rfl⟩

/-- **A registered connection stays what it was**, unless the step closes it. -/
theorem stays_iff {i : CSocket.Step} (hi : s.Inv log) (hg : s.ClosesRegistered cfg i)
    (h : s.step cfg i = some (t, os)) (hc : s.Registered c) :
    (closing cfg s i ≠ some c → Stays s t c) ∧ (closing cfg s i = some c → ¬ t.Registered c) := by
  have he := CSocket.step_effect hi hg h
  have hquiet : CSocket.Quiet s t → closing cfg s i = none →
      (closing cfg s i ≠ some c → Stays s t c) ∧
        (closing cfg s i = some c → ¬ t.Registered c) := by
    intro hq hn
    rw [hn]
    exact ⟨fun _ => stays_of_quiet hq hc, fun h => by cases h⟩
  have hread : ∀ {a : Addr} {o : Option (Connection × Ending)} {r : Connection × Ending},
      o = some r → CSocket.Ended s a t r.2 →
      closing cfg s i = (if o.any (·.2.closes) = true then some a else none) →
      (closing cfg s i ≠ some c → Stays s t c) ∧
        (closing cfg s i = some c → ¬ t.Registered c) := by
    rintro a o r rfl hend hcl
    obtain ⟨h1, h2⟩ := stays_of_ended hend hc
    rw [hcl, Option.any_some]
    split_ifs with hcloses
    · exact ⟨fun hne => h1 fun hca => hne (by rw [hca.2]),
        fun heq => h2 hcloses (Option.some.inj heq).symm⟩
    · exact ⟨fun _ => h1 fun hca => hcloses hca.1, fun h => by cases h⟩
  cases i with
  | accept fd now added => exact ⟨fun _ => stays_of_accepted he hc, fun h => by cases h⟩
  | task a rets =>
    obtain ⟨r, hr, hend⟩ := he
    exact hread hr hend rfl
  | read a ret =>
    obtain ⟨r, hr, hend⟩ := he
    exact hread hr hend rfl
  | hup a =>
    obtain ⟨h1, h2⟩ := stays_of_ended (e := .ret .zero) he hc
    exact ⟨fun hne => h1 fun hca => hne (by rw [hca.2]; rfl),
      fun heq => h2 rfl (Option.some.inj heq).symm⟩
  | visit e now =>
    have he : CSocket.Visited s e now t := he
    by_cases hk : s.Kicks e now
    · have hcl : closing cfg s (.visit e now) = some e.2.pConn := if_pos hk
      unfold CSocket.Visited at he
      dsimp only at he
      rw [if_neg (not_not.mpr hk.1), if_pos hk] at he
      obtain ⟨h1, h2⟩ := stays_of_ended (e := .flood) he hc
      rw [hcl]
      exact ⟨fun hne => h1 fun hca => hne (by rw [hca.2]),
        fun heq => h2 rfl (Option.some.inj heq).symm⟩
    · have hcl : closing cfg s (.visit e now) = none := if_neg hk
      rw [hcl]
      exact ⟨fun _ => stays_of_visited he hk hc, fun h => by cases h⟩
  | wait | edge | write | ping | expire | timerFree => exact hquiet he rfl

/-! ## One step -/

theorem handlers_cases (revents : UInt32) :
    handlers revents = [] ∨ ∃ h, handlers revents = [h] := by
  unfold handlers
  split_ifs with h1 h2 h3
  · subst h2
    exact absurd (by decide) h1
  · subst h3
    exact absurd (by decide) h1
  · exact .inr ⟨_, rfl⟩
  · exact .inr ⟨_, rfl⟩
  · exact .inr ⟨_, rfl⟩
  · exact .inl rfl

/-- **A handler called on a connection** is a step of the process, whatever has become of the
connection; it closes no other. -/
theorem handle_step (ret : RecvRet) (h : EventHandler) (hn : s.NextEvent a)
    (hs : handle cfg s.takeEvent a ret h = some (t, os)) :
    ∃ i, s.step cfg i = some (t, os) ∧ (s.Registered a → s.ClosesRegistered cfg i) ∧
      ∀ c, c ≠ a → closing cfg s i ≠ some c := by
  have hne : ∀ {p : Prop} [Decidable p] {c : Addr}, c ≠ a →
      (if p then some a else none) ≠ some c := by
    intro p _ c hca
    split_ifs
    · exact fun h => hca (Option.some.inj h).symm
    · exact fun h => by cases h
  cases h with
  | phandler =>
    refine ⟨.hup a, ?_, id, fun c hca h => hca (Option.some.inj h).symm⟩
    rw [CSocket.step, if_pos hn]
    exact hs
  | rhandler =>
    simp only [handle] at hs
    by_cases het : cfg.mETflag = .etOpen
    · rw [if_pos het] at hs
      refine ⟨.edge a, ?_, fun _ => trivial, fun c _ h => by cases h⟩
      rw [CSocket.step, if_pos ⟨het, hn⟩]
      exact hs
    · rw [if_neg het] at hs
      have hlt : cfg.mETflag = .etClose := by
        cases hf : cfg.mETflag with
        | etOpen => exact absurd hf het
        | etClose => rfl
      refine ⟨.read a ret, ?_, fun hr _ => hr, fun c hca => hne hca⟩
      rw [CSocket.step, if_pos ⟨hlt, hn⟩]
      exact hs
  | whandler =>
    cases hs
    refine ⟨.write a, ?_, fun _ => trivial, fun c _ h => by cases h⟩
    rw [CSocket.step, if_pos hn]

/-- **The next event** is a step of the process. -/
theorem handleAll_step {e : Event} {ret : RecvRet} (hn : s.NextEvent e.c)
    (h : handleAll cfg e.c ret s.takeEvent (handlers e.revents) = some (t, os)) :
    ∃ i, s.step cfg i = some (t, os) ∧ (s.Registered e.c → s.ClosesRegistered cfg i) ∧
      ∀ c, c ≠ e.c → closing cfg s i ≠ some c := by
  rcases handlers_cases e.revents with hnil | ⟨hd, hone⟩
  · -- no handler is called, as by `whandler` nothing happens to the connection
    rw [hnil] at h
    exact handle_step ret .whandler hn h
  · rw [hone] at h
    obtain ⟨⟨u, o⟩, hu, h⟩ := Option.bind_eq_some_iff.mp h
    simp only [handleAll, Option.map_some, List.append_nil] at h
    cases h
    exact handle_step ret hd hn hu

/-! ## The events of the process -/

theorem erasePing_mEvents {key : ℤ} (h : s.erasePing key = some t) : t.mEvents = s.mEvents := by
  obtain rfl := CSocket.eq_of_erasePing h
  rfl

theorem ngxCloseConnection_mEvents : (s.ngxCloseConnection a).1.mEvents = s.mEvents := by
  unfold CSocket.ngxCloseConnection
  dsimp only
  split_ifs <;> rfl

theorem ngxFreeConSelf_mEvents (h : s.ngxFreeConSelf a = some (t, os)) :
    t.mEvents = s.mEvents := by
  obtain ⟨u, hu, he⟩ := Option.map_eq_some_iff.mp h
  cases he
  rw [erasePing_mEvents hu]
  split_ifs <;> rfl

theorem afterRead_mEvents {r : Connection × Ending} (h : s.afterRead a r = some (t, os)) :
    t.mEvents = s.mEvents := by
  obtain ⟨c, e⟩ := r
  cases e with
  | done =>
    cases h
    rfl
  | flood =>
    have hfree := ngxFreeConSelf_mEvents (s := s.setConn a c) h
    exact hfree
  | ret ret =>
    cases ret with
    | data rd | again =>
      cases h
      rfl
    | zero | reset =>
      obtain ⟨u, hu, he⟩ := Option.map_eq_some_iff.mp h
      cases he
      have herase := erasePing_mEvents hu
      exact herase
    | error =>
      cases h
      exact ngxCloseConnection_mEvents

/-- **The other threads** leave the events alone. -/
theorem step_mEvents {i : CSocket.Step} (hl : ofLoop i = false)
    (h : s.step cfg i = some (t, os)) : t.mEvents = s.mEvents := by
  cases i with
  | accept fd now added =>
    obtain ⟨-, ⟨-, rfl, -⟩ | ⟨a, pool, -, -, ⟨-, -, rfl⟩ | ⟨-, -, rfl⟩⟩⟩ :=
      CSocket.ngxEventAccept_cases h
    · rfl
    · rfl
    · exact ngxCloseConnection_mEvents
  | wait | edge | read | hup | write => cases hl
  | task a rets =>
    simp only [CSocket.step] at h
    split_ifs at h
    obtain ⟨r, -, h⟩ := Option.bind_eq_some_iff.mp h
    have hread := afterRead_mEvents h
    exact hread
  | ping m now =>
    simp only [CSocket.step] at h
    split_ifs at h
    · cases h
      rfl
    · cases h
      rfl
  | visit e now =>
    simp only [CSocket.step] at h
    split_ifs at h
    unfold CSocket.ngxTimeCheckVisit at h
    dsimp only at h
    split_ifs at h
    · cases h
      rfl
    · exact ngxFreeConSelf_mEvents h
    · cases h
      rfl
    · cases h
      rfl
  | expire a =>
    simp only [CSocket.step] at h
    split_ifs at h
    cases h
    rfl
  | timerFree =>
    simp only [CSocket.step, CSocket.ngxTimerFreeConnection] at h
    split at h
    · cases h
    · cases h
      exact ngxCloseConnection_mEvents

theorem handleAll_mEvents {ret : RecvRet} {hs : List EventHandler}
    (h : handleAll cfg a ret s hs = some (t, os)) : t.mEvents = s.mEvents := by
  induction hs generalizing s os with
  | nil =>
    cases h
    rfl
  | cons hd hs ih =>
    obtain ⟨⟨u, o⟩, hu, h⟩ := Option.bind_eq_some_iff.mp h
    obtain ⟨⟨v, o'⟩, hv, he⟩ := Option.map_eq_some_iff.mp h
    cases he
    rw [ih hv]
    cases hd with
    | phandler =>
      obtain ⟨w, hw, he⟩ := Option.map_eq_some_iff.mp hu
      cases he
      have herase := erasePing_mEvents hw
      exact herase
    | rhandler =>
      simp only [handle] at hu
      split_ifs at hu
      · cases hu
        rfl
      · obtain ⟨r, -, hu⟩ := Option.bind_eq_some_iff.mp hu
        exact afterRead_mEvents hu
    | whandler =>
      cases hu
      rfl

/-- The events in hand are those of the process. -/
def InHand (b : Batch) : Prop := b.sock.mEvents = b.hand.map Event.c

theorem InHand.next {e : Event} {rest : List Event} (h : b.InHand) (hh : b.hand = e :: rest) :
    b.sock.NextEvent e.c ∧ b.sock.takeEvent.mEvents = rest.map Event.c := by
  rw [InHand, hh, List.map_cons] at h
  rw [CSocket.NextEvent, CSocket.takeEvent, h]
  exact ⟨rfl, rfl⟩

theorem step_sock {i : BatchStep} (hb : b.InHand) (h : b.step cfg i = some (b', os)) :
    b'.InHand ∧ ∃ j, b.sock.step cfg j = some (b'.sock, os) := by
  cases i with
  | wait evs =>
    simp only [step] at h
    split_ifs at h with hc
    cases h
    have hnil : b.sock.mEvents = [] := by rw [hb, hc.1, List.map_nil]
    have hreg : ∀ a ∈ evs.map Prod.fst, b.sock.Registered a := fun a ha => by
      obtain ⟨e, he, rfl⟩ := List.mem_map.mp ha
      exact (hc.2.2 e he).1
    refine ⟨?_, .wait (evs.map Prod.fst), ?_⟩
    · rw [InHand, List.map_map]
      rfl
    · rw [CSocket.step, if_pos ⟨hnil, hc.2.1, hreg⟩]
  | next ret =>
    simp only [step] at h
    cases hh : b.hand with
    | nil =>
      rw [hh] at h
      cases h
    | cons e rest =>
      rw [hh] at h
      obtain ⟨⟨t, o⟩, ht, he⟩ := Option.map_eq_some_iff.mp h
      cases he
      obtain ⟨hn, hrest⟩ := hb.next hh
      obtain ⟨j, hj, -⟩ := handleAll_step hn ht
      exact ⟨(handleAll_mEvents ht).trans hrest, j, hj⟩
  | other j =>
    simp only [step] at h
    split_ifs at h with hl
    obtain ⟨⟨t, o⟩, ht, he⟩ := Option.map_eq_some_iff.mp h
    cases he
    exact ⟨(step_mEvents (by simpa using hl) ht).trans hb, j, ht⟩

/-- **A run of the loop is a run of the process**, with the same events. -/
theorem run_sock {is : List BatchStep} (hb : b.InHand)
    (h : Run.run (step cfg) b is = some (b', os)) :
    ∃ js, Run.run (CSocket.step cfg) b.sock js = some (b'.sock, os) := by
  induction is generalizing b os with
  | nil =>
    cases h
    exact ⟨[], rfl⟩
  | cons i is ih =>
    obtain ⟨d, o, o', hs, hr, rfl⟩ := Run.run_cons_eq_some.mp h
    obtain ⟨hd, j, hj⟩ := step_sock hb hs
    obtain ⟨js, hjs⟩ := ih hd hr
    exact ⟨j :: js, Run.run_cons_eq_some.mpr ⟨d.sock, o, o', hj, hjs, rfl⟩⟩

/-! ## Events that are not stale -/

/-- The state between two steps: the books, and no connection twice in hand. -/
structure Sound (b : Batch) (log : List PoolEv) : Prop where
  inv : b.sock.Inv log
  same : b.InHand
  nodup : (b.hand.map Event.c).Nodup

/-- **One step.** An event in hand goes stale exactly where another thread closes its
connection. -/
theorem noStale_step {i : BatchStep} (hi : b.Sound log) (hst : b.NoStale)
    (hg : b.ClosesRegistered cfg i) (h : b.step cfg i = some (b', os)) :
    b'.Sound (log ++ os) ∧ (b'.NoStale ↔ b.Spares cfg i) := by
  obtain ⟨hinv, hsame, hnd⟩ := hi
  obtain ⟨hsame', -⟩ := step_sock hsame h
  cases i with
  | wait evs =>
    simp only [step] at h
    split_ifs at h with hc
    cases h
    rw [List.append_nil]
    refine ⟨⟨?_, hsame', ?_⟩, iff_of_true (fun e he => ?_) trivial⟩
    · refine Books.lists hinv rfl rfl rfl hinv.task (fun a ha => ?_) hinv.ping
      obtain ⟨e, he, rfl⟩ := List.mem_map.mp ha
      exact Books.get_of_registered hinv (hc.2.2 e he).1
    · rw [List.map_map]
      exact hc.2.1
    · obtain ⟨x, hx, rfl⟩ := List.mem_map.mp he
      exact ⟨(hc.2.2 x hx).1, rfl⟩
  | next ret =>
    simp only [step] at h
    cases hh : b.hand with
    | nil =>
      rw [hh] at h
      cases h
    | cons e rest =>
      rw [hh] at h
      obtain ⟨⟨t, o⟩, ht, he⟩ := Option.map_eq_some_iff.mp h
      cases he
      rw [hh, List.map_cons] at hnd
      obtain ⟨hnot, hnd⟩ := List.nodup_cons.mp hnd
      have hreg : b.sock.Registered e.c := (hst e (hh ▸ List.mem_cons_self)).1
      have hrest : ∀ x ∈ rest, b.sock.Registered x.c ∧
          (b.sock.conn x.c).iCurrsequence = x.seq ∧ x.c ≠ e.c := fun x hx =>
        ⟨(hst x (hh ▸ List.mem_cons_of_mem _ hx)).1, (hst x (hh ▸ List.mem_cons_of_mem _ hx)).2,
          fun heq => hnot (heq ▸ List.mem_map_of_mem hx)⟩
      obtain ⟨j, hj, hgj, hcl⟩ := handleAll_step (hsame.next hh).1 ht
      refine ⟨⟨CSocket.step_inv hinv (hgj hreg) hj, hsame', hnd⟩,
        iff_of_true (fun x hx => ?_) trivial⟩
      obtain ⟨hxr, hxs, hne⟩ := hrest x hx
      have hstay := (stays_iff hinv (hgj hreg) hj hxr).1 (hcl x.c hne)
      exact ⟨hstay.1, hstay.2.trans hxs⟩
  | other j =>
    simp only [step] at h
    split_ifs at h
    obtain ⟨⟨t, o⟩, ht, he⟩ := Option.map_eq_some_iff.mp h
    cases he
    refine ⟨⟨CSocket.step_inv hinv hg ht, hsame', hnd⟩, ?_, ?_⟩
    · intro hst' e he hcl
      exact (stays_iff hinv hg ht (hst e he).1).2 hcl (hst' e he).1
    · intro hsp e he
      have hstay := (stays_iff hinv hg ht (hst e he).1).1 (hsp e he)
      exact ⟨hstay.1, hstay.2.trans (hst e he).2⟩

/-! ## Whole runs -/

/-- **No event in hand goes stale.** In a run of the loop over the events of one `epoll_wait` after
the other, between the steps of the other threads, whose closes find their connection registered:
every event in hand is for a connection still registered, under the sequence number it was reported
with, if and only if no task and no sweep closes a connection that has an event in hand; and then
every accepted connection is released once. -/
theorem noStale_iff (cfg : Conf) (heap : Addr → Connection) (listen : List ℤ) (s : CSocket)
    (is : List BatchStep) (hs : CSocket.ngxEpollInit cfg heap listen = some s)
    (hv : Run.Guarded (Run.logged (step cfg)) (Run.Defined (Run.logged (step cfg)))
      (⟨s, []⟩, []) is)
    (hg : Run.Guarded (Run.logged (step cfg)) (fun t i => t.1.ClosesRegistered cfg i)
      (⟨s, []⟩, []) is) :
    (Run.Always (Run.logged (step cfg)) (fun t => t.1.NoStale) (⟨s, []⟩, []) is ↔
      Run.Guarded (Run.logged (step cfg)) (fun t i => t.1.Spares cfg i) (⟨s, []⟩, []) is) ∧
    (Run.Guarded (Run.logged (step cfg)) (fun t i => t.1.Spares cfg i) (⟨s, []⟩, []) is →
      Run.Always (Run.logged (step cfg)) (fun t => SingleRelease (t.1.sock, t.2))
        (⟨s, []⟩, []) is) := by
  have hempty : InHand ⟨s, []⟩ := by
    obtain ⟨p, -, rfl⟩ := Option.map_eq_some_iff.mp hs
    rfl
  have hsound : Sound ⟨s, []⟩ [] := ⟨CSocket.inv_ngxEpollInit hs, hempty, List.nodup_nil⟩
  have hfresh : NoStale ⟨s, []⟩ := fun e he => by cases he
  constructor
  · refine Run.always_iff_guarded (I := fun t => t.1.Sound t.2) ?_ hsound hfresh (hv.and hg)
    rintro ⟨t, log⟩ i hi hst ⟨hd, hcr⟩
    obtain ⟨⟨u, os⟩, hu⟩ := Option.isSome_iff_exists.mp hd
    obtain ⟨t', ht, rfl⟩ := Run.logged_eq_some.mp hu
    obtain ⟨hi', hiff⟩ := noStale_step hi hst hcr ht
    exact ⟨_, _, hu, hiff, fun _ => hi'⟩
  · intro hsp
    refine Run.Always.imp (p := fun t => t.1.Sound t.2 ∧ t.1.NoStale)
      (fun t ht => ht.1.inv.singleRelease) ?_
    refine Run.always_of_guarded ?_ ⟨hsound, hfresh⟩ (hg.and hsp)
    rintro ⟨t, log⟩ i ⟨t', log'⟩ o ⟨hi, hst⟩ ⟨hcr, hsp⟩ hu
    obtain ⟨t', ht, he⟩ := Run.logged_eq_some.mp hu
    cases he
    obtain ⟨hi', hiff⟩ := noStale_step hi hst hcr ht
    exact ⟨hi', hiff.mpr hsp⟩

/-- Two events in hand, and a task that reads what there is between them. -/
theorem noStale_two_events :
    let cfg : Conf := ⟨8, .etOpen, 0, 100, 10⟩
    let s := (CSocket.ngxEpollInit cfg (fun _ => .zero) [3]).get (by decide +kernel)
    Run.Always (Run.logged (step cfg)) (fun t => t.1.NoStale) (⟨s, []⟩, [])
      [.other (.accept 5 0 true), .other (.accept 6 0 true),
        .wait [(⟨0, 1⟩, true, 0x1), (⟨0, 2⟩, true, 0x10)], .next .again,
        .other (.task ⟨0, 1⟩ [.data ⟨0, [13, 0, 1]⟩, .again]), .next .again] :=
  (noStale_iff ⟨8, .etOpen, 0, 100, 10⟩ (fun _ => .zero) [3] _ _ (Option.some_get _).symm
    (by decide +kernel) (by decide +kernel)).1.mpr (by decide +kernel)

/-- A task reads the end of the stream while the hang-up of its connection is in hand: the handler
of the hang-up releases it again, with the heartbeat entry of another connection. -/
example :
    let cfg : Conf := ⟨8, .etOpen, 0, 100, 10⟩
    let s := (CSocket.ngxEpollInit cfg (fun _ => .zero) [3]).get (by decide +kernel)
    (Run.run (step cfg) ⟨s, []⟩
      [.other (.accept 5 0 true), .other (.accept 6 0 true), .wait [(⟨0, 1⟩, true, 0x1)],
        .next .again, .wait [(⟨0, 1⟩, true, 0x11)], .other (.task ⟨0, 1⟩ [.zero]),
        .next .again]).any (fun r => released ⟨0, 1⟩ r.2 = 2) = true := by decide +kernel

end Batch

end ServerNginx
