import ServerNginx.App.Config
import ServerNginx.Lib.CNumber
import ServerNginx.Lib.Post

set_option autoImplicit false

/-!
# Starting the server

`main` behind the call of `Load`, up to `ngx_master_process_cycle`: the log file, `ngx_daemon`,
`ReadConf`, `ngx_open_listening_sockets` on the results of the system calls, and the items they
read.

* `openListening_spec`: the open sockets are those in `m_ListenSocketList`, the first ones for which
  everything has gone right;
* **`launched`**: what the master starts with, from the text of the configuration. `main` assigns
  the result of `GetNum` to `daemoncode`, over the number it has read: the server becomes a daemon
  where there is an item `Daemon`, whatever its value. It starts without sockets where there are
  none, and not at all where the log file cannot be opened.
-/

namespace ServerNginx

open CString CNumber

/-- `GetNum<int>`: whether there is an item, and `def` with the number in it. -/
def CConfig.getNum (cc : CConfig) (itemname : List UInt8) (dflt : ℤ) :
    Except ConvError (Bool × ℤ) :=
  match cc.getString itemname with
  | none => .ok (false, dflt)
  | some str => do
    let n ← stoi str
    .ok (true, n)

/-! ## The daemon -/

/-- What `fork` returns to whom. -/
inductive ForkRet
  | failed
  | parent
  | child
  deriving DecidableEq

/-- What the calls of `ngx_daemon` return: a descriptor for `/dev/null`, or whether they have
succeeded. -/
structure DaemonCalls where
  fork : ForkRet
  setsid : Bool
  fd : ℤ
  dup2In : Bool
  dup2Out : Bool
  close : Bool

/-- `ngx_daemon`. `return false` is 0. -/
def ngxDaemon (c : DaemonCalls) : ℤ :=
  match c.fork with
  | .failed => -1
  | .parent => 1
  | .child =>
    if !c.setsid then 0
    else if !c.dup2In then -1
    else if !c.dup2Out then -1
    else if 2 < c.fd ∧ c.close = false then -1
    else 0

/-! ## Settings -/

/-- The members of `CSocket` that `ReadConf` sets. All are `int`s: the sum for the last one is taken
to wrap around, where C++ leaves its overflow undefined. -/
structure Settings where
  mListenPortCount : ℤ
  mWorkerConnections : ℤ
  mETflag : ℤ
  mFloodAkEnable : ℤ
  mFloodTimeInterval : ℤ
  mFloodKickCount : ℤ
  mConnectionNMax : ℤ

/-- The members as the constructor leaves them; it does not set the last three. -/
def Settings.new (u : Settings) : Settings :=
  { u with mListenPortCount := 1, mWorkerConnections := 1, mETflag := 0, mFloodAkEnable := 0 }

/-- `ReadConf`. -/
def Settings.readConf (s : Settings) (cc : CConfig) : Except ConvError (Bool × Settings) := do
  let (found, n) ← cc.getNum (ascii "ListenPortCount") s.mListenPortCount
  let s := { s with mListenPortCount := n }
  if !found then return (false, s)
  let (found, n) ← cc.getNum (ascii "worker_connections") s.mWorkerConnections
  let s := { s with mWorkerConnections := n }
  if !found then return (false, s)
  let (_, etflag) ← cc.getNum (ascii "ET_flag") s.mETflag
  let (_, enable) ← cc.getNum (ascii "Flood_flag") s.mFloodAkEnable
  let (_, interval) ← cc.getNum (ascii "FloodTimeInterval") s.mFloodTimeInterval
  let (_, count) ← cc.getNum (ascii "FloodKickCount") s.mFloodKickCount
  return (true, { s with
    mETflag := etflag
    mFloodAkEnable := enable
    mFloodTimeInterval := interval
    mFloodKickCount := count
    mConnectionNMax := int32 (s.mWorkerConnections + s.mWorkerConnections.tdiv 2) })

/-! ## Listening sockets -/

/-- `ngx_listening_t`. -/
structure Listening where
  fd : ℤ
  port : ℤ
  deriving DecidableEq

/-- What the calls for one socket return: a descriptor, and whether the others have succeeded. -/
structure SocketCalls where
  socket : Option ℤ
  setsockopt : Bool
  setnonblocking : Bool
  bind : Bool
  listen : Bool

/-- The descriptors of the process, and `m_ListenSocketList`. -/
structure Opening where
  fds : List ℤ
  mListenSocketList : List Listening

/-- How `ngx_open_listening_sockets` ends. -/
inductive OpenEnd
  | returned (ok : Bool)
  | thrown (e : ConvError)
  deriving DecidableEq

/-- The name of the item with port number `i`. -/
def portname (i : ℕ) : List UInt8 := ascii "ListenPort" ++ stdToString i

def Opening.close (s : Opening) (fd : ℤ) : Opening := { s with fds := s.fds.erase fd }

/-- `ngx_open_listening_sockets` from round `i` on, with `n` rounds to go. -/
def openListening (cc : CConfig) (calls : ℕ → SocketCalls) : ℕ → ℕ → Opening → Opening × OpenEnd
  | 0, _, s => (s, .returned true)
  | n + 1, i, s =>
    let c := calls i
    match c.socket with
    | none => (s, .returned false)
    | some isock =>
      let s := { s with fds := isock :: s.fds }
      match cc.getNum (portname i) 0 with
      | .error e => (s, .thrown e)
      | .ok (found, port) =>
        if !found then (s.close isock, .returned false)
        else if !c.setsockopt then (s.close isock, .returned false)
        else if !c.setnonblocking then (s.close isock, .returned false)
        else if !c.bind then (s.close isock, .returned false)
        else if !c.listen then (s.close isock, .returned false)
        else
          openListening cc calls n (i + 1)
            { s with mListenSocketList := s.mListenSocketList ++ [⟨isock, port⟩] }

/-! ## The start -/

/-- What the system calls return; `logOpens`: whether a log file can be opened for appending. -/
structure System where
  logOpens : List UInt8 → Bool
  daemon : DaemonCalls
  sockets : ℕ → SocketCalls

/-- What `ngx_master_process_cycle` starts with. -/
structure Launch where
  daemonized : Bool
  settings : Settings
  opening : Opening
  /-- `workernum`, where it is set -/
  workernum : Option ℤ

/-- What nothing catches in `main`. -/
inductive Uncaught
  /-- the `std::logic_error` of `Log::Log` -/
  | logicError
  | conv (e : ConvError)
  deriving DecidableEq

/-- How the start ends. -/
inductive Main
  | exits (code : ℤ)
  /-- nothing catches an exception -/
  | terminates (e : Uncaught)
  | master (m : Launch)

/-- `NGX_ERROR_LOG_PATH` -/
def ngxErrorLogPath : List UInt8 := ascii "logs/error1.log"

/-- `ngx_sys_init` behind a call of `Load` that has returned `loaded`, and left its items. -/
def ngxSysInit (loaded : Bool) (cc : CConfig) (sys : System) : Except Uncaught Bool :=
  if !loaded then .ok false
  else if sys.logOpens ((cc.getString (ascii "LogAddr")).getD ngxErrorLogPath) then .ok true
  else .error .logicError

/-- `CSocket::Initialize`: an exception, or the members and sockets it leaves; `main` goes on in any
case. -/
def socketInitialize (cc : CConfig) (u : Settings) (sys : System) :
    Except ConvError (Settings × Opening) :=
  match (Settings.new u).readConf cc with
  | .error e => .error e
  | .ok (found, s) =>
    if !found then .ok (s, ⟨[], []⟩)
    else
      match openListening cc sys.sockets s.mListenPortCount.toNat 0 ⟨[], []⟩ with
      | (_, .thrown e) => .error e
      | (o, .returned _) => .ok (s, o)

/-- `main` behind `ngx_sys_init`. -/
def mainBehindInit (cc : CConfig) (u : Settings) (sys : System) : Main :=
  match cc.getNum (ascii "Daemon") 0 with
  | .error e => .terminates (.conv e)
  | .ok (found, _) =>
    -- `daemoncode = cc -> GetNum<int>("Daemon", daemoncode)`
    let daemoncode : ℤ := if found then 1 else 0
    let ret := if daemoncode = 1 then some (ngxDaemon sys.daemon) else none
    if ret = some (-1) then .exits (-1)
    else if ret = some 1 then .exits 0
    else
      match socketInitialize cc u sys with
      | .error e => .terminates (.conv e)
      | .ok (s, o) =>
        match cc.getNum (ascii "WorkerProcesses") 0 with
        | .error e => .terminates (.conv e)
        | .ok (found, n) => .master ⟨ret.isSome, s, o, if found then some n else none⟩

/-- `main`, on what `Load` has returned and left. -/
def nginxMain (loaded : Bool × CConfig) (u : Settings) (sys : System) : Main :=
  match ngxSysInit loaded.1 loaded.2 sys with
  | .error e => .terminates e
  | .ok false => .exits (-1)
  | .ok true => mainBehindInit loaded.2 u sys

/-! ## The sockets that are opened -/

/-- The first values there are, of `n` from `i` on. -/
def leading {α : Type} (f : ℕ → Option α) : ℕ → ℕ → List α
  | 0, _ => []
  | n + 1, i =>
    match f i with
    | some a => a :: leading f n (i + 1)
    | none => []

/-- The number that a text is converted to. -/
def number (v : Option (List UInt8)) : Option ℤ := v.bind fun v => (stoi v).toOption

/-- The socket of round `i`, where everything goes right. -/
def opened (get : List UInt8 → Option (List UInt8)) (calls : ℕ → SocketCalls) (i : ℕ) :
    Option Listening :=
  let c := calls i
  if c.setsockopt ∧ c.setnonblocking ∧ c.bind ∧ c.listen then
    c.socket.bind fun isock => (number (get (portname i))).map fun port => ⟨isock, port⟩
  else none

variable {cc : CConfig} {calls : ℕ → SocketCalls} {u : Settings} {sys : System} {m : Launch}

/-- An exception is that of a value which is not a number. -/
def BadNumber (get : List UInt8 → Option (List UInt8)) (e : ConvError) : Prop :=
  ∃ k v, get k = some v ∧ stoi v = .error e

/-- What `GetNum` reads. -/
structure Got (get : List UInt8 → Option (List UInt8)) (k : List UInt8) (d : ℤ) (q : Bool × ℤ) :
    Prop where
  found : q.1 = (get k).isSome
  value : q.2 = (number (get k)).getD d
  some : q.1 = true → number (get k) = some q.2

theorem getNum_post (cc : CConfig) (k : List UInt8) (d : ℤ) :
    Post (cc.getNum k d) (BadNumber cc.getString) (Got cc.getString k d) := by
  unfold CConfig.getNum
  cases hs : cc.getString k with
  | none =>
    have hgot : Got cc.getString k d (false, d) := ⟨by rw [hs]; rfl, by rw [hs]; rfl, nofun⟩
    exact hgot
  | some v =>
    cases hv : stoi v with
    | error e =>
      have hbad : BadNumber cc.getString e := ⟨k, v, hs, hv⟩
      simp only [hv]
      exact hbad
    | ok n =>
      have hn : number (cc.getString k) = some n := by
        rw [hs]
        simp [number, hv, Except.toOption]
      have hgot : Got cc.getString k d (true, n) :=
        ⟨by rw [hs]; rfl, by rw [hn]; rfl, fun _ => hn⟩
      simp only [hv]
      exact hgot

/-- **One round**: an exception, the end, or one more socket. -/
theorem openListening_succ (cc : CConfig) (calls : ℕ → SocketCalls) (n i : ℕ) (s : Opening) :
    (∃ t e, openListening cc calls (n + 1) i s = (t, .thrown e) ∧ BadNumber cc.getString e) ∨
    (openListening cc calls (n + 1) i s = (s, .returned false) ∧
      opened cc.getString calls i = none) ∨
    ∃ l, opened cc.getString calls i = some l ∧ openListening cc calls (n + 1) i s =
      openListening cc calls n (i + 1) ⟨l.fd :: s.fds, s.mListenSocketList ++ [l]⟩ := by
  have hclose : ∀ isock, ({ s with fds := isock :: s.fds } : Opening).close isock = s := by
    intro isock
    simp [Opening.close]
  simp only [openListening]
  cases hsock : (calls i).socket with
  | none => exact .inr (.inl ⟨rfl, by simp [opened, hsock]⟩)
  | some isock =>
    cases hnum : cc.getNum (portname i) 0 with
    | error e => exact .inl ⟨_, e, rfl, (getNum_post cc _ _).of_error hnum⟩
    | ok q =>
      obtain ⟨found, port⟩ := q
      obtain ⟨hfound, -, hport⟩ := (getNum_post cc _ _).of_ok hnum
      simp only [hclose]
      split_ifs with h₁ h₂ h₃ h₄ h₅
      · have hget : cc.getString (portname i) = none := by
          rw [← Option.not_isSome_iff_eq_none, ← hfound]
          simpa using h₁
        exact .inr (.inl ⟨rfl, by simp [opened, hget, number]⟩)
      · exact .inr (.inl ⟨rfl, by simp_all [opened]⟩)
      · exact .inr (.inl ⟨rfl, by simp_all [opened]⟩)
      · exact .inr (.inl ⟨rfl, by simp_all [opened]⟩)
      · exact .inr (.inl ⟨rfl, by simp_all [opened]⟩)
      · have hp := hport (by simpa using h₁)
        exact .inr (.inr ⟨⟨isock, port⟩, by simp_all [opened], rfl⟩)

/-- **The sockets**: those in the list have been opened in turn, up to the first for which something
has gone wrong, and no other one is open unless an exception has been thrown. -/
theorem openListening_spec (n : ℕ) : ∀ (i : ℕ) (s t : Opening) (ok : Bool),
    openListening cc calls n i s = (t, .returned ok) →
      t.mListenSocketList = s.mListenSocketList ++ leading (opened cc.getString calls) n i ∧
      t.fds = ((leading (opened cc.getString calls) n i).map Listening.fd).reverse ++ s.fds ∧
      (ok = true ↔ (leading (opened cc.getString calls) n i).length = n) := by
  induction n with
  | zero =>
    intro i s t ok h
    cases h
    exact ⟨(List.append_nil _).symm, rfl, iff_of_true rfl rfl⟩
  | succ n ih =>
    intro i s t ok h
    rcases openListening_succ cc calls n i s with ⟨u, e, ht, -⟩ | ⟨ht, ho⟩ | ⟨l, ho, ht⟩
    · cases ht.symm.trans h
    · cases ht.symm.trans h
      simp [leading, ho]
    · obtain ⟨hlist, hfds, hok⟩ := ih _ _ _ _ (ht.symm.trans h)
      refine ⟨?_, ?_, ?_⟩
      · rw [hlist, leading, ho, List.append_assoc]
        rfl
      · rw [hfds, leading, ho]
        simp
      · rw [hok, leading, ho]
        simp

theorem openListening_thrown (n : ℕ) : ∀ (i : ℕ) (s t : Opening) (e : ConvError),
    openListening cc calls n i s = (t, .thrown e) → BadNumber cc.getString e := by
  induction n with
  | zero =>
    intro i s t e h
    cases h
  | succ n ih =>
    intro i s t e h
    rcases openListening_succ cc calls n i s with ⟨u, e', ht, hbad⟩ | ⟨ht, -⟩ | ⟨l, -, ht⟩
    · cases ht.symm.trans h
      exact hbad
    · cases ht.symm.trans h
    · exact ih _ _ _ _ (ht.symm.trans h)

/-! ## The settings -/

/-- **The settings that a configuration stands for**: an item that is missing leaves the value of
the constructor, and where one of the first two is missing the others are not read. -/
structure Reads (get : List UInt8 → Option (List UInt8)) (u s : Settings) : Prop where
  ports : s.mListenPortCount = (number (get (ascii "ListenPortCount"))).getD 1
  connections : (get (ascii "ListenPortCount")).isSome →
    s.mWorkerConnections = (number (get (ascii "worker_connections"))).getD 1
  etflag : (get (ascii "ListenPortCount")).isSome → (get (ascii "worker_connections")).isSome →
    s.mETflag = (number (get (ascii "ET_flag"))).getD 0
  enable : (get (ascii "ListenPortCount")).isSome → (get (ascii "worker_connections")).isSome →
    s.mFloodAkEnable = (number (get (ascii "Flood_flag"))).getD 0
  interval : (get (ascii "ListenPortCount")).isSome → (get (ascii "worker_connections")).isSome →
    s.mFloodTimeInterval = (number (get (ascii "FloodTimeInterval"))).getD u.mFloodTimeInterval
  kicks : (get (ascii "ListenPortCount")).isSome → (get (ascii "worker_connections")).isSome →
    s.mFloodKickCount = (number (get (ascii "FloodKickCount"))).getD u.mFloodKickCount
  connectionMax : (get (ascii "ListenPortCount")).isSome →
    (get (ascii "worker_connections")).isSome →
    s.mConnectionNMax = int32 (s.mWorkerConnections + s.mWorkerConnections.tdiv 2)

theorem readConf_post (cc : CConfig) (u : Settings) : Post ((Settings.new u).readConf cc)
    (BadNumber cc.getString) fun q => Reads cc.getString u q.2 ∧
      q.1 = ((cc.getString (ascii "ListenPortCount")).isSome &&
        (cc.getString (ascii "worker_connections")).isSome) := by
  unfold Settings.readConf
  refine (getNum_post cc _ _).bind fun q₁ h₁ => ?_
  obtain ⟨found₁, n₁⟩ := q₁
  cases found₁ with
  | false =>
    have hnone : ¬ (cc.getString (ascii "ListenPortCount")).isSome = true := by
      rw [← h₁.found]
      exact Bool.false_ne_true
    refine Post.ok_iff.mpr ⟨⟨h₁.value, fun h => absurd h hnone, fun h => absurd h hnone,
      fun h => absurd h hnone, fun h => absurd h hnone, fun h => absurd h hnone,
      fun h => absurd h hnone⟩, ?_⟩
    rw [Bool.not_eq_true] at hnone
    rw [hnone]
    rfl
  | true =>
    refine (getNum_post cc _ _).bind fun q₂ h₂ => ?_
    obtain ⟨found₂, n₂⟩ := q₂
    cases found₂ with
    | false =>
      have hnone : ¬ (cc.getString (ascii "worker_connections")).isSome = true := by
        rw [← h₂.found]
        exact Bool.false_ne_true
      refine Post.ok_iff.mpr ⟨⟨h₁.value, fun _ => h₂.value, fun _ h => absurd h hnone,
        fun _ h => absurd h hnone, fun _ h => absurd h hnone, fun _ h => absurd h hnone,
        fun _ h => absurd h hnone⟩, ?_⟩
      rw [Bool.not_eq_true] at hnone
      rw [hnone, Bool.and_false]
    | true =>
      refine (getNum_post cc _ _).bind fun q₃ h₃ => ?_
      refine (getNum_post cc _ _).bind fun q₄ h₄ => ?_
      refine (getNum_post cc _ _).bind fun q₅ h₅ => ?_
      refine (getNum_post cc _ _).bind fun q₆ h₆ => ?_
      refine Post.ok_iff.mpr ⟨⟨h₁.value, fun _ => h₂.value, fun _ _ => h₃.value,
        fun _ _ => h₄.value, fun _ _ => h₅.value, fun _ _ => h₆.value, fun _ _ => rfl⟩, ?_⟩
      rw [← h₁.found, ← h₂.found]
      rfl

/-! ## What the master starts with -/

/-- The number of sockets that are to be opened. -/
def ports (get : List UInt8 → Option (List UInt8)) : ℕ :=
  if (get (ascii "ListenPortCount")).isSome ∧ (get (ascii "worker_connections")).isSome then
    ((number (get (ascii "ListenPortCount"))).getD 1).toNat
  else 0

/-- **What a configuration starts**, on the results of the system calls. -/
structure Starts (get : List UInt8 → Option (List UInt8)) (u : Settings) (sys : System)
    (m : Launch) : Prop where
  daemonized : m.daemonized = (get (ascii "Daemon")).isSome
  /-- the master is the child -/
  child : m.daemonized = true → ngxDaemon sys.daemon = 0
  settings : Reads get u m.settings
  sockets : m.opening.mListenSocketList = leading (opened get sys.sockets) (ports get) 0
  fds : m.opening.fds = (m.opening.mListenSocketList.map Listening.fd).reverse
  workernum : m.workernum = number (get (ascii "WorkerProcesses"))

/-- The log file that a configuration names, or the default one, can be opened. -/
def LogOpens (get : List UInt8 → Option (List UInt8)) (sys : System) : Prop :=
  sys.logOpens ((get (ascii "LogAddr")).getD ngxErrorLogPath) = true

instance (get : List UInt8 → Option (List UInt8)) (sys : System) : Decidable (LogOpens get sys) :=
  inferInstanceAs (Decidable (_ = _))

/-- How the start ends. Behind the log file, `main` returns where the daemon has been asked for, and
is not this process. -/
def StartEnds (get : List UInt8 → Option (List UInt8)) (u : Settings) (sys : System) :
    Main → Prop
  | .exits code => LogOpens get sys ∧ (get (ascii "Daemon")).isSome = true ∧
      (code = 0 ∧ ngxDaemon sys.daemon = 1 ∨ code = -1 ∧ ngxDaemon sys.daemon = -1)
  | .terminates .logicError => ¬ LogOpens get sys
  | .terminates (.conv e) => LogOpens get sys ∧ BadNumber get e
  | .master m => LogOpens get sys ∧ Starts get u sys m

theorem socketInitialize_post (cc : CConfig) (u : Settings) (sys : System) :
    Post (socketInitialize cc u sys) (BadNumber cc.getString) fun q =>
      Reads cc.getString u q.1 ∧
      q.2.mListenSocketList = leading (opened cc.getString sys.sockets) (ports cc.getString) 0 ∧
      q.2.fds = (q.2.mListenSocketList.map Listening.fd).reverse := by
  have hread := readConf_post cc u
  unfold socketInitialize
  cases hconf : (Settings.new u).readConf cc with
  | error e => exact hread.of_error hconf
  | ok q =>
    obtain ⟨found, s⟩ := q
    obtain ⟨hs, hfound⟩ := hread.of_ok hconf
    dsimp only at hs hfound
    cases found with
    | false =>
      have hports : ports cc.getString = 0 := by
        refine if_neg fun h => ?_
        rw [h.1, h.2] at hfound
        cases hfound
      have hnone : leading (opened cc.getString sys.sockets) (ports cc.getString) 0 = [] := by
        rw [hports]
        rfl
      have hpost : Reads cc.getString u s ∧
          ([] : List Listening) = leading (opened cc.getString sys.sockets) (ports cc.getString) 0 ∧
          ([] : List ℤ) = [] := ⟨hs, hnone.symm, rfl⟩
      exact hpost
    | true =>
      have hports : s.mListenPortCount.toNat = ports cc.getString := by
        rw [Bool.and_comm, eq_comm, Bool.and_eq_true] at hfound
        rw [hs.ports, ports, if_pos hfound.symm]
      cases hopen : openListening cc sys.sockets s.mListenPortCount.toNat 0 ⟨[], []⟩ with
      | mk o r =>
        cases r with
        | thrown e =>
          have hbad := openListening_thrown _ _ _ _ _ hopen
          simp only [hopen]
          exact hbad
        | returned ok =>
          obtain ⟨hlist, hfds, -⟩ := openListening_spec _ _ _ _ _ hopen
          rw [hports, List.nil_append] at hlist
          rw [hports, List.append_nil, ← hlist] at hfds
          have hpost : Reads cc.getString u s ∧
            o.mListenSocketList = leading (opened cc.getString sys.sockets) (ports cc.getString) 0 ∧
            o.fds = (o.mListenSocketList.map Listening.fd).reverse := ⟨hs, hlist, hfds⟩
          simp only [hopen]
          exact hpost

theorem ngxDaemon_cases (c : DaemonCalls) :
    ngxDaemon c = -1 ∨ ngxDaemon c = 0 ∨ ngxDaemon c = 1 := by
  unfold ngxDaemon
  cases c.fork with
  | failed => exact Or.inl rfl
  | parent => exact Or.inr (Or.inr rfl)
  | child =>
    split_ifs
    · exact Or.inr (Or.inl rfl)
    · exact Or.inl rfl
    · exact Or.inl rfl
    · exact Or.inl rfl
    · exact Or.inr (Or.inl rfl)

theorem startEnds_master (cc : CConfig) (u : Settings) (sys : System) {d : Bool}
    (hlog : LogOpens cc.getString sys) (hd : d = (cc.getString (ascii "Daemon")).isSome)
    (hchild : d = true → ngxDaemon sys.daemon = 0) : StartEnds cc.getString u sys
      (match socketInitialize cc u sys with
      | .error e => .terminates (.conv e)
      | .ok (s, o) =>
        match cc.getNum (ascii "WorkerProcesses") 0 with
        | .error e => .terminates (.conv e)
        | .ok (found, n) => .master ⟨d, s, o, if found then some n else none⟩) := by
  have hsock := socketInitialize_post cc u sys
  have hnum := getNum_post cc (ascii "WorkerProcesses") 0
  cases hi : socketInitialize cc u sys with
  | error e => exact ⟨hlog, hsock.of_error hi⟩
  | ok q =>
    obtain ⟨s, o⟩ := q
    obtain ⟨hs, hlist, hfds⟩ := hsock.of_ok hi
    cases hw : cc.getNum (ascii "WorkerProcesses") 0 with
    | error e => exact ⟨hlog, hnum.of_error hw⟩
    | ok q =>
      obtain ⟨found, n⟩ := q
      have hgot := hnum.of_ok hw
      have hn : (if found then some n else none) =
          number (cc.getString (ascii "WorkerProcesses")) := by
        cases found with
        | true => exact (hgot.some rfl).symm
        | false =>
          have hnone : cc.getString (ascii "WorkerProcesses") = none := by
            rw [← Option.not_isSome_iff_eq_none, ← hgot.found]
            exact Bool.false_ne_true
          rw [hnone]
          rfl
      exact ⟨hlog, hd, hchild, hs, hlist, hfds, hn⟩

theorem mainBehindInit_ends (cc : CConfig) (u : Settings) (sys : System)
    (hlog : LogOpens cc.getString sys) :
    StartEnds cc.getString u sys (mainBehindInit cc u sys) := by
  have hnum := getNum_post cc (ascii "Daemon") 0
  unfold mainBehindInit
  cases hq : cc.getNum (ascii "Daemon") 0 with
  | error e => exact ⟨hlog, hnum.of_error hq⟩
  | ok q =>
    obtain ⟨found, n⟩ := q
    have hfound := (hnum.of_ok hq).found
    dsimp only at hfound ⊢
    cases found with
    | false => exact startEnds_master cc u sys hlog hfound (fun h => by cases h)
    | true =>
      rw [if_pos rfl, if_pos rfl]
      rcases ngxDaemon_cases sys.daemon with h | h | h
      · rw [h]
        exact ⟨hlog, hfound.symm, Or.inr ⟨rfl, h⟩⟩
      · rw [h, if_neg (by decide), if_neg (by decide)]
        exact startEnds_master cc u sys hlog hfound fun _ => h
      · rw [h, if_neg (by decide)]
        exact ⟨hlog, hfound.symm, Or.inl ⟨rfl, h⟩⟩

theorem ngxSysInit_post (cc : CConfig) (sys : System) : Post (ngxSysInit true cc sys)
    (fun e => e = .logicError ∧ ¬ LogOpens cc.getString sys)
    (fun ok => ok = true ∧ LogOpens cc.getString sys) := by
  unfold ngxSysInit
  rw [if_neg (by decide)]
  by_cases hlog : LogOpens cc.getString sys
  · rw [if_pos (show sys.logOpens _ = true from hlog)]
    exact Post.ok_iff.mpr ⟨rfl, hlog⟩
  · rw [if_neg (show ¬ sys.logOpens _ = true from hlog)]
    exact ⟨rfl, hlog⟩

theorem nginxMain_ends (cc : CConfig) (u : Settings) (sys : System) :
    StartEnds cc.getString u sys (nginxMain (true, cc) u sys) := by
  have hinit := ngxSysInit_post cc sys
  unfold nginxMain
  cases hs : ngxSysInit true cc sys with
  | error e =>
    obtain ⟨rfl, hlog⟩ := hinit.of_error hs
    exact hlog
  | ok ok =>
    obtain ⟨rfl, hlog⟩ := hinit.of_ok hs
    exact mainBehindInit_ends cc u sys hlog

theorem loads_confText {ls : List ConfLine} (h : ∀ l ∈ ls, l.WellFormed) (newline : Bool) :
    ∃ cc, CConfig.Loads ⟨[]⟩ (some (confText ls newline)) (true, cc) ∧
      cc.getString = fun k => ls.findSome? (ConfLine.valueOf k) := by
  obtain ⟨hlen, hitems⟩ := splitOn_confText h newline
  refine ⟨_, loads_lines hlen, funext fun k => ?_⟩
  rw [List.nil_append, hitems]
  exact getString_confItems ls k

/-- **The start**: from the text of a configuration `main` comes to the master with the settings and
the sockets that the lines stand for, on whatever the system calls return, or ends because of the
daemon, of a value that is not a number or of a log file that cannot be opened. -/
theorem launched (ls : List ConfLine) (h : ∀ l ∈ ls, l.WellFormed) (newline : Bool) (u : Settings)
    (sys : System) : ∃ cc, CConfig.Loads ⟨[]⟩ (some (confText ls newline)) (true, cc) ∧
      StartEnds (fun k => ls.findSome? (ConfLine.valueOf k)) u sys
        (nginxMain (true, cc) u sys) := by
  obtain ⟨cc, hcc, hget⟩ := loads_confText h newline
  have hends := nginxMain_ends cc u sys
  rw [hget] at hends
  exact ⟨cc, hcc, hends⟩

/-- `Daemon` is 0, and the port of the second socket is taken: the master is a daemon, and listens
with the first one. -/
theorem launched_daemon : ∃ cc m,
    CConfig.Loads ⟨[]⟩ (some (ascii ("Daemon = 0;\nListenPortCount = 2;\n" ++
      "worker_connections = 9;\nListenPort0 = 80;\nListenPort1 = 81;\n"))) (true, cc) ∧
    nginxMain (true, cc) ⟨0, 0, 0, 0, 0, 0, 0⟩ ⟨fun path => path = ngxErrorLogPath,
      ⟨.child, true, 3, true, true, true⟩, fun i => ⟨some (4 + i), true, true, i ≠ 1, true⟩⟩ = .master m ∧
    m.daemonized = true ∧ m.settings.mConnectionNMax = 13 ∧
    m.opening.mListenSocketList = [⟨4, 80⟩] ∧ m.opening.fds = [4] ∧ m.workernum = none := by
  obtain ⟨cc, hcc, hends⟩ := launched
    [.item (ascii "Daemon") 1 1 (ascii "0") [], .item (ascii "ListenPortCount") 1 1 (ascii "2") [],
      .item (ascii "worker_connections") 1 1 (ascii "9") [],
      .item (ascii "ListenPort0") 1 1 (ascii "80") [],
      .item (ascii "ListenPort1") 1 1 (ascii "81") []]
    (by
      simp only [List.forall_mem_cons]
      exact ⟨⟨by decide, by decide +kernel, by decide +kernel⟩,
        ⟨by decide, by decide +kernel, by decide +kernel⟩,
        ⟨by decide, by decide +kernel, by decide +kernel⟩,
        ⟨by decide, by decide +kernel, by decide +kernel⟩,
        ⟨by decide, by decide +kernel, by decide +kernel⟩, nofun⟩)
    true ⟨0, 0, 0, 0, 0, 0, 0⟩ ⟨fun path => path = ngxErrorLogPath,
      ⟨.child, true, 3, true, true, true⟩, fun i => ⟨some (4 + i), true, true, i ≠ 1, true⟩⟩
  generalize hm : nginxMain (true, cc) _ _ = r at hends
  cases r with
  | exits code =>
    obtain ⟨-, -, h | h⟩ := hends
    · exact absurd h.2 (by decide)
    · exact absurd h.2 (by decide)
  | terminates e =>
    cases e with
    | logicError => exact absurd (show LogOpens _ _ from by decide +kernel) hends
    | conv e =>
      obtain ⟨-, k, v, hv, he⟩ := hends
      obtain ⟨l, hl, hval⟩ := List.exists_of_findSome?_eq_some hv
      have hnum : ∀ l' : ConfLine, l' = l → ∀ name n, l' = .item name 1 1 n [] →
          (∃ i, stoi n = .ok i) → False := by
        rintro _ rfl name n rfl ⟨i, hi⟩
        obtain ⟨-, hv⟩ := Option.ite_none_right_eq_some.mp hval
        cases hv
        rw [he] at hi
        cases hi
      simp only [List.mem_cons, List.not_mem_nil, or_false] at hl
      rcases hl with rfl | rfl | rfl | rfl | rfl
      · exact (hnum _ rfl _ _ rfl ⟨0, rfl⟩).elim
      · exact (hnum _ rfl _ _ rfl ⟨2, rfl⟩).elim
      · exact (hnum _ rfl _ _ rfl ⟨9, rfl⟩).elim
      · exact (hnum _ rfl _ _ rfl ⟨80, rfl⟩).elim
      · exact (hnum _ rfl _ _ rfl ⟨81, rfl⟩).elim
  | master m =>
    obtain ⟨-, hends⟩ := hends
    have hlist : m.opening.mListenSocketList = [⟨4, 80⟩] := hends.sockets
    have hconn : m.settings.mWorkerConnections = 9 := hends.settings.connections rfl
    refine ⟨cc, m, hcc, hm, hends.daemonized, ?_, hlist, ?_, hends.workernum⟩
    · rw [hends.settings.connectionMax rfl rfl, hconn]
      rfl
    · rw [hends.fds, hlist]
      rfl

end ServerNginx
