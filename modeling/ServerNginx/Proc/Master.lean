import Mathlib.Data.Int.Notation
import Mathlib.Data.List.Perm.Basic
import ServerNginx.Lib.Run

set_option autoImplicit false

/-!
# The master process and its workers

`ngx_master_process_cycle` blocks SIGCHLD, forks the workers, and from then on sleeps in
`sigsuspend`, which lets the signals in, or in `sleep(1)`, which does not. SIGCHLD is not queued:
one that comes while another is pending is lost. Its handler, `ngx_process_get_status`, leaves its
loop after the first child that `waitpid` returns.

* `Master.step`: the master, its children and the kernel between them;
* `Master.Moves`: what a step can do;
* `Master.Accounts`: where the workers are, and what became of every SIGCHLD;
* **`zombies_run`**: every SIGCHLD that is lost leaves a zombie for good, and no worker is started
  again.
-/

namespace ServerNginx

/-- What a child ends with. -/
inductive Status
  | signaled (signo : ℕ)
  | exited (code : ℕ)
  deriving DecidableEq

/-- Where the master process is. The handlers of other signals only write to the log; SIGCHLD gets
through to them where `sigsuspend` let them in. -/
inductive MasterPlace
  /-- in `ngx_start_worker_processes`, before `ngx_spawn_process(i, ..)` -/
  | starting (i : ℕ)
  /-- in `sigsuspend`, under so many handlers of other signals -/
  | suspended (depth : ℕ)
  /-- in the handler of SIGCHLD -/
  | handling (depth : ℕ)
  /-- in `sleep(1)` -/
  | sleeping
  deriving DecidableEq

/-- The master process, `workernum` being the number it read, and its children. -/
structure Master where
  workernum : ℤ
  place : MasterPlace
  running : List ℕ
  zombies : List (ℕ × Status)
  /-- a SIGCHLD is pending -/
  pending : Bool
  deriving DecidableEq

/-- What `waitpid(-1, &status, WNOHANG)` returns: a child that has ended, 0, or -1 with `errno`. -/
inductive Waitpid
  | pid (p : ℕ)
  | zero
  | eintr
  | echild

inductive MasterStep
  /-- `fork()`, with the number of the child, or -1 -/
  | fork (pid : Option ℕ)
  /-- the loop over the workers is over -/
  | started
  | terminate (pid : ℕ) (status : Status)
  /-- a SIGCHLD for another reason: a child is stopped or continued, or somebody calls `kill` -/
  | sigchld
  | enterHandler
  | leaveHandler
  /-- the pending SIGCHLD is delivered -/
  | deliver
  | waitpid (r : Waitpid)
  /-- `sleep(1)` is over -/
  | awake

inductive MasterOut
  | forked (pid : ℕ)
  /-- `"frok failed"` -/
  | forkFailed
  | ended (pid : ℕ)
  /-- a SIGCHLD that no child's end is the reason of -/
  | nudged
  /-- the SIGCHLD finds another one pending -/
  | lost
  | reaped (pid : ℕ) (status : Status)
  /-- the handler finds nothing to reap -/
  | idle
  deriving DecidableEq

namespace Master

/-- `GetNum` leaves the variable as it is where it fails, so `workernum` is any `int`. -/
def start (workernum : ℤ) : Master := ⟨workernum, .starting 0, [], [], false⟩

variable (m : Master)

def raise : Master := { m with pending := true }

/-- What becomes of a SIGCHLD that is raised now. -/
def fate : List MasterOut := if m.pending then [.lost] else []

/-- The handler returns, to where it came in. -/
def leave (depth : ℕ) : MasterPlace := if depth = 0 then .sleeping else .suspended depth

/-- `ngx_process_get_status`, from one call of `waitpid` to the next or to its end. -/
def getStatus (depth : ℕ) : Waitpid → Option (Master × List MasterOut)
  | .eintr => some (m, [])
  | .zero =>
    if m.zombies = [] ∧ m.running ≠ [] then some ({ m with place := leave depth }, [.idle])
    else none
  | .echild =>
    if m.zombies = [] ∧ m.running = [] then some ({ m with place := leave depth }, [.idle])
    else none
  | .pid p =>
    (m.zombies.find? (·.1 = p)).map fun z =>
      ({ m with place := leave depth, zombies := m.zombies.erase z }, [.reaped z.1 z.2])

/-- `ngx_spawn_process(i, ..)` in the master. The kernel gives no number twice. -/
def spawn (i : ℕ) : Option ℕ → Option (Master × List MasterOut)
  | none => some ({ m with place := .starting (i + 1) }, [.forkFailed])
  | some p =>
    if p ∈ m.running ++ m.zombies.map Prod.fst then none
    else some ({ m with place := .starting (i + 1), running := m.running ++ [p] }, [.forked p])

def step : MasterStep → Option (Master × List MasterOut)
  | .fork pid =>
    match m.place with
    | .starting i => if i < m.workernum then m.spawn i pid else none
    | _ => none
  | .started =>
    match m.place with
    | .starting i =>
      if i < m.workernum then none else some ({ m with place := .suspended 0 }, [])
    | _ => none
  | .terminate p status =>
    if p ∈ m.running then
      some ({ m.raise with running := m.running.erase p, zombies := m.zombies ++ [(p, status)] },
        .ended p :: m.fate)
    else none
  | .sigchld => some (m.raise, .nudged :: m.fate)
  | .enterHandler =>
    match m.place with
    | .suspended depth => some ({ m with place := .suspended (depth + 1) }, [])
    | _ => none
  | .leaveHandler =>
    match m.place with
    | .suspended (depth + 1) => some ({ m with place := leave depth }, [])
    | _ => none
  | .deliver =>
    match m.place with
    | .suspended depth =>
      if m.pending then some ({ m with place := .handling depth, pending := false }, []) else none
    | _ => none
  | .waitpid r =>
    match m.place with
    | .handling depth => m.getStatus depth r
    | _ => none
  | .awake =>
    match m.place with
    | .sleeping => some ({ m with place := .suspended 0 }, [])
    | _ => none

/-- The master is in the handler of SIGCHLD. -/
def isHandling : Bool :=
  match m.place with
  | .handling _ => true
  | _ => false

/-- How many calls of `fork` are behind the master. -/
def attempts : ℕ :=
  match m.place with
  | .starting i => i
  | _ => m.workernum.toNat

def forked? : MasterOut → Option ℕ
  | .forked p => some p
  | _ => none

def ended? : MasterOut → Option ℕ
  | .ended p => some p
  | _ => none

def reaped? : MasterOut → Option ℕ
  | .reaped p _ => some p
  | _ => none

/-- What a step does. -/
inductive Moves (m : Master) : Master → List MasterOut → Prop
  | fork {i p : ℕ} (hi : m.place = .starting i) (hlt : (i : ℤ) < m.workernum)
      (hp : p ∉ m.running ++ m.zombies.map Prod.fst) :
      Moves m { m with place := .starting (i + 1), running := m.running ++ [p] } [.forked p]
  | forkFailed {i : ℕ} (hi : m.place = .starting i) (hlt : (i : ℤ) < m.workernum) :
      Moves m { m with place := .starting (i + 1) } [.forkFailed]
  | started {i : ℕ} (hi : m.place = .starting i) (hle : m.workernum ≤ i) :
      Moves m { m with place := .suspended 0 } []
  | terminate {p : ℕ} {status : Status} (hp : p ∈ m.running) :
      Moves m { m.raise with
        running := m.running.erase p, zombies := m.zombies ++ [(p, status)] } (.ended p :: m.fate)
  | sigchld : Moves m m.raise (.nudged :: m.fate)
  | enterHandler {depth : ℕ} (hi : m.place = .suspended depth) :
      Moves m { m with place := .suspended (depth + 1) } []
  | leaveHandler {depth : ℕ} (hi : m.place = .suspended (depth + 1)) :
      Moves m { m with place := leave depth } []
  | deliver {depth : ℕ} (hi : m.place = .suspended depth) (hp : m.pending = true) :
      Moves m { m with place := .handling depth, pending := false } []
  | eintr {depth : ℕ} (hi : m.place = .handling depth) : Moves m m []
  | idle {depth : ℕ} (hi : m.place = .handling depth) (hz : m.zombies = []) :
      Moves m { m with place := leave depth } [.idle]
  | reap {depth : ℕ} {z : ℕ × Status} (hi : m.place = .handling depth) (hz : z ∈ m.zombies) :
      Moves m { m with place := leave depth, zombies := m.zombies.erase z } [.reaped z.1 z.2]
  | awake (hi : m.place = .sleeping) : Moves m { m with place := .suspended 0 } []

variable {m} {m' : Master} {e : MasterStep} {os o : List MasterOut} {n : ℤ}

theorem moves_of_spawn {i : ℕ} {pid : Option ℕ} (hi : m.place = .starting i)
    (hlt : (i : ℤ) < m.workernum) (h : m.spawn i pid = some (m', o)) : m.Moves m' o := by
  cases pid with
  | none =>
    cases h
    exact .forkFailed hi hlt
  | some p =>
    obtain ⟨hp, h⟩ := Option.ite_none_left_eq_some.mp h
    cases h
    exact .fork hi hlt hp

theorem moves_of_getStatus {depth : ℕ} {r : Waitpid} (hi : m.place = .handling depth)
    (h : m.getStatus depth r = some (m', o)) : m.Moves m' o := by
  cases r with
  | eintr =>
    cases h
    exact .eintr hi
  | zero | echild =>
    obtain ⟨⟨hz, -⟩, h⟩ := Option.ite_none_right_eq_some.mp h
    cases h
    exact .idle hi hz
  | pid p =>
    obtain ⟨z, hz, h⟩ := Option.map_eq_some_iff.mp h
    cases h
    exact .reap hi (List.mem_of_find?_eq_some hz)

theorem moves_of_step (h : m.step e = some (m', o)) : m.Moves m' o := by
  cases e with
  | fork pid =>
    simp only [step] at h
    split at h
    · next i hi =>
      obtain ⟨hlt, h⟩ := Option.ite_none_right_eq_some.mp h
      exact moves_of_spawn hi hlt h
    · cases h
  | started =>
    simp only [step] at h
    split at h
    · next i hi =>
      obtain ⟨hle, h⟩ := Option.ite_none_left_eq_some.mp h
      cases h
      exact .started hi (Int.not_lt.mp hle)
    · cases h
  | terminate p status =>
    obtain ⟨hp, h⟩ := Option.ite_none_right_eq_some.mp h
    cases h
    exact .terminate hp
  | sigchld =>
    cases h
    exact .sigchld
  | enterHandler =>
    simp only [step] at h
    split at h
    · next depth hi =>
      cases h
      exact .enterHandler hi
    · cases h
  | leaveHandler =>
    simp only [step] at h
    split at h
    · next depth hi =>
      cases h
      exact .leaveHandler hi
    · cases h
  | deliver =>
    simp only [step] at h
    split at h
    · next depth hi =>
      obtain ⟨hp, h⟩ := Option.ite_none_right_eq_some.mp h
      cases h
      exact .deliver hi hp
    · cases h
  | waitpid r =>
    simp only [step] at h
    split at h
    · next depth hi => exact moves_of_getStatus hi h
    · cases h
  | awake =>
    simp only [step] at h
    split at h
    · next hi =>
      cases h
      exact .awake hi
    · cases h

/-! ## The accounts -/

/-- Where the workers are, and what became of every SIGCHLD. -/
structure Accounts (n : ℤ) (os : List MasterOut) (m : Master) : Prop where
  workernum : m.workernum = n
  forked : (os.filterMap forked?).Perm (m.running ++ os.filterMap ended?)
  ended : (os.filterMap ended?).Perm (m.zombies.map Prod.fst ++ os.filterMap reaped?)
  distinct : (os.filterMap forked?).Nodup
  attempts : (os.filterMap forked?).length + os.count .forkFailed = m.attempts
  starting : ∀ i, m.place = .starting i → i ≤ n.toNat ∧ os.filterMap reaped? = []
  signals : m.zombies.length + os.count .nudged =
    os.count .lost + os.count .idle + m.pending.toNat + m.isHandling.toNat
  idle : os.count .idle ≤ os.count .nudged

theorem accounts_start (n : ℤ) : Accounts n [] (start n) where
  workernum := rfl
  forked := .refl _
  ended := .refl _
  distinct := List.nodup_nil
  attempts := rfl
  starting i hi := by
    cases hi
    exact ⟨Nat.zero_le _, rfl⟩
  signals := rfl
  idle := Nat.le_refl _

theorem filterMap_fate {f : MasterOut → Option ℕ} (h : f .lost = none) :
    m.fate.filterMap f = [] := by
  unfold fate
  split <;> simp [h]

theorem filterMap_skip {f : MasterOut → Option ℕ} {x : MasterOut} {l : List MasterOut}
    (hx : f x = none) (hl : l.filterMap f = []) :
    (os ++ x :: l).filterMap f = os.filterMap f := by
  rw [List.filterMap_append, List.filterMap_cons_none hx, hl, List.append_nil]

theorem filterMap_hit {f : MasterOut → Option ℕ} {x : MasterOut} {l : List MasterOut} {p : ℕ}
    (hx : f x = some p) (hl : l.filterMap f = []) :
    (os ++ x :: l).filterMap f = os.filterMap f ++ [p] := by
  rw [List.filterMap_append, List.filterMap_cons_some hx, hl]

theorem count_fate {x : MasterOut} (h : x ≠ .lost) : m.fate.count x = 0 := by
  unfold fate
  split
  · exact List.count_eq_zero.mpr (by simpa using h)
  · rfl

theorem count_raised {x y : MasterOut} (hy : y ≠ .lost) :
    (os ++ x :: m.fate).count y = os.count y + if x = y then 1 else 0 := by
  rw [List.count_append, List.count_cons, count_fate hy]
  simp

theorem count_lost_fate : m.fate.count .lost = m.pending.toNat := by
  cases hp : m.pending <;> simp [fate, hp]

theorem leave_cases (depth : ℕ) : leave depth = .sleeping ∨ leave depth = .suspended depth := by
  unfold leave
  split
  · exact .inl rfl
  · exact .inr rfl

/-- The master is past the loop over the workers, and not in the handler of SIGCHLD. -/
def Quiet (q : MasterPlace) : Prop := q = .sleeping ∨ ∃ depth, q = .suspended depth

theorem quiet_leave (depth : ℕ) : Quiet (leave depth) :=
  (leave_cases depth).imp_right fun h => ⟨depth, h⟩

theorem Quiet.spec {q : MasterPlace} (h : Quiet q) (m : Master) :
    ({ m with place := q } : Master).isHandling = false ∧
      ({ m with place := q } : Master).attempts = m.workernum.toNat ∧ ∀ i, q ≠ .starting i := by
  rcases h with rfl | ⟨depth, rfl⟩
  · exact ⟨rfl, rfl, nofun⟩
  · exact ⟨rfl, rfl, nofun⟩

theorem Accounts.goto {q : MasterPlace} (h : Accounts n os m) (hq : Quiet q)
    (hm : m.isHandling = false) (ha : m.attempts = m.workernum.toNat) :
    Accounts n os { m with place := q } := by
  obtain ⟨hh, hat, hs⟩ := hq.spec m
  refine { h with attempts := ?_, starting := fun i hi => absurd hi (hs i), signals := ?_ }
  · rw [hat, ← ha]
    exact h.attempts
  · rw [hh, ← hm]
    exact h.signals

theorem signals_raise {k : ℕ} {x : MasterOut} (h : Accounts n os m)
    (hx : x = .nudged ∧ k = 0 ∨ (∃ p, x = .ended p) ∧ k = 1) :
    m.zombies.length + k + (os ++ x :: m.fate).count .nudged =
      (os ++ x :: m.fate).count .lost + (os ++ x :: m.fate).count .idle +
        m.raise.pending.toNat + m.raise.isHandling.toNat := by
  have hsig := h.signals
  have hh : m.raise.isHandling = m.isHandling := rfl
  have hp : m.raise.pending.toNat = 1 := rfl
  rw [hh, hp, count_raised (y := .nudged) nofun, count_raised (y := .idle) nofun,
    List.count_append, List.count_cons, count_lost_fate]
  rcases hx with ⟨rfl, rfl⟩ | ⟨⟨p, rfl⟩, rfl⟩
  · simp
    omega
  · simp
    omega

theorem Accounts.fresh {i p : ℕ} (h : Accounts n os m) (hi : m.place = .starting i)
    (hp : p ∉ m.running ++ m.zombies.map Prod.fst) : p ∉ os.filterMap forked? := by
  intro hf
  apply hp
  rcases List.mem_append.mp (h.forked.mem_iff.mp hf) with hr | he
  · exact List.mem_append_left _ hr
  · have hz := h.ended.mem_iff.mp he
    rw [(h.starting i hi).2, List.append_nil] at hz
    exact List.mem_append_right _ hz

theorem Accounts.tried {i : ℕ} (h : Accounts n os m) (hi : m.place = .starting i)
    (hlt : (i : ℤ) < m.workernum) :
    (os.filterMap forked?).length + os.count .forkFailed = i ∧ i + 1 ≤ n.toNat := by
  have ha := h.attempts
  have hn := h.workernum
  simp only [Master.attempts, hi] at ha
  exact ⟨ha, by omega⟩

theorem Accounts.fork {i p : ℕ} (h : Accounts n os m) (hi : m.place = .starting i)
    (hlt : (i : ℤ) < m.workernum) (hp : p ∉ m.running ++ m.zombies.map Prod.fst) :
    Accounts n (os ++ [.forked p])
      { m with place := .starting (i + 1), running := m.running ++ [p] } := by
  obtain ⟨ha, hle⟩ := h.tried hi hlt
  have hF : (os ++ [MasterOut.forked p]).filterMap forked? = os.filterMap forked? ++ [p] :=
    filterMap_hit rfl rfl
  have hE : (os ++ [MasterOut.forked p]).filterMap ended? = os.filterMap ended? :=
    filterMap_skip rfl rfl
  have hR : (os ++ [MasterOut.forked p]).filterMap reaped? = os.filterMap reaped? :=
    filterMap_skip rfl rfl
  have hs := h.signals
  simp only [isHandling, hi] at hs
  refine ⟨h.workernum, ?_, ?_, ?_, ?_, fun j hj => ?_, ?_, ?_⟩
  · rw [hF, hE, List.append_assoc]
    calc os.filterMap forked? ++ [p]
      _ |>.Perm ((m.running ++ os.filterMap ended?) ++ [p]) := h.forked.append_right _
      _ |>.Perm (m.running ++ ([p] ++ os.filterMap ended?)) := by
        rw [List.append_assoc]
        exact List.perm_append_comm.append_left _
  · rw [hE, hR]
    exact h.ended
  · rw [hF]
    exact List.nodup_append.mpr ⟨h.distinct, by simp, fun a ha b hb hab =>
      h.fresh hi hp (by simpa [← List.mem_singleton.mp hb, hab] using ha)⟩
  · rw [hF]
    simp only [Master.attempts, List.length_append, List.length_singleton, List.count_append]
    simp
    omega
  · cases hj
    rw [hR]
    exact ⟨hle, (h.starting i hi).2⟩
  · simpa [List.count_append, isHandling] using hs
  · simpa [List.count_append] using h.idle

theorem Accounts.forkFailed {i : ℕ} (h : Accounts n os m) (hi : m.place = .starting i)
    (hlt : (i : ℤ) < m.workernum) :
    Accounts n (os ++ [.forkFailed]) { m with place := .starting (i + 1) } := by
  obtain ⟨ha, hle⟩ := h.tried hi hlt
  have hs := h.signals
  simp only [isHandling, hi] at hs
  refine ⟨h.workernum, ?_, ?_, ?_, ?_, fun j hj => ?_, ?_, ?_⟩
  · rw [filterMap_skip rfl rfl, filterMap_skip rfl rfl]
    exact h.forked
  · rw [filterMap_skip rfl rfl, filterMap_skip rfl rfl]
    exact h.ended
  · rw [filterMap_skip rfl rfl]
    exact h.distinct
  · rw [filterMap_skip rfl rfl, List.count_append]
    simp [Master.attempts]
    omega
  · cases hj
    rw [filterMap_skip rfl rfl]
    exact ⟨hle, (h.starting i hi).2⟩
  · simpa [List.count_append, isHandling] using hs
  · simpa [List.count_append] using h.idle

theorem Accounts.terminate {p : ℕ} {status : Status} (h : Accounts n os m)
    (hp : p ∈ m.running) :
    Accounts n (os ++ .ended p :: m.fate) { m.raise with
      running := m.running.erase p, zombies := m.zombies ++ [(p, status)] } := by
  have hF : (os ++ .ended p :: m.fate).filterMap forked? = os.filterMap forked? :=
    filterMap_skip rfl (filterMap_fate rfl)
  have hE : (os ++ .ended p :: m.fate).filterMap ended? = os.filterMap ended? ++ [p] :=
    filterMap_hit rfl (filterMap_fate rfl)
  have hR : (os ++ .ended p :: m.fate).filterMap reaped? = os.filterMap reaped? :=
    filterMap_skip rfl (filterMap_fate rfl)
  refine ⟨h.workernum, ?_, ?_, ?_, ?_, fun j hj => ?_, ?_, ?_⟩
  · rw [hF, hE]
    calc os.filterMap forked?
      _ |>.Perm (m.running ++ os.filterMap ended?) := h.forked
      _ |>.Perm (p :: m.running.erase p ++ os.filterMap ended?) :=
        (List.perm_cons_erase hp).append_right _
      _ |>.Perm (m.running.erase p ++ (os.filterMap ended? ++ [p])) := by
        rw [← List.append_assoc]
        exact (List.perm_append_singleton p _).symm
  · rw [hE, hR, List.map_append, List.append_assoc]
    calc os.filterMap ended? ++ [p]
      _ |>.Perm ((m.zombies.map Prod.fst ++ os.filterMap reaped?) ++ [p]) :=
        h.ended.append_right _
      _ |>.Perm (m.zombies.map Prod.fst ++ ([p] ++ os.filterMap reaped?)) := by
        rw [List.append_assoc]
        exact List.perm_append_comm.append_left _
  · rw [hF]
    exact h.distinct
  · rw [hF, count_raised (y := .forkFailed) nofun]
    exact h.attempts
  · rw [hR]
    exact h.starting j hj
  · have := signals_raise (k := 1) h (.inr ⟨⟨p, rfl⟩, rfl⟩)
    simpa [isHandling] using this
  · rw [count_raised (y := .idle) nofun, count_raised (y := .nudged) nofun]
    simpa using h.idle

theorem Accounts.sigchld (h : Accounts n os m) :
    Accounts n (os ++ .nudged :: m.fate) m.raise := by
  have same {f : MasterOut → Option ℕ} (hn : f .nudged = none) (hl : f .lost = none) :
      (os ++ .nudged :: m.fate).filterMap f = os.filterMap f :=
    filterMap_skip hn (filterMap_fate hl)
  refine ⟨h.workernum, ?_, ?_, ?_, ?_, fun j hj => ?_, ?_, ?_⟩
  · rw [same rfl rfl, same rfl rfl]
    exact h.forked
  · rw [same rfl rfl, same rfl rfl]
    exact h.ended
  · rw [same rfl rfl]
    exact h.distinct
  · rw [same rfl rfl, count_raised (y := .forkFailed) nofun]
    exact h.attempts
  · rw [same rfl rfl]
    exact h.starting j hj
  · exact signals_raise (k := 0) h (.inl ⟨rfl, rfl⟩)
  · have := h.idle
    rw [count_raised (y := .idle) nofun, count_raised (y := .nudged) nofun]
    simp
    omega

theorem Accounts.deliver {depth : ℕ} (h : Accounts n os m) (hi : m.place = .suspended depth)
    (hp : m.pending = true) :
    Accounts n os { m with place := .handling depth, pending := false } := by
  refine { h with attempts := ?_, starting := nofun, signals := ?_ }
  · simpa [Master.attempts, hi] using h.attempts
  · simpa [isHandling, hi, hp] using h.signals

theorem Accounts.found {depth : ℕ} (h : Accounts n os m) (hi : m.place = .handling depth)
    (hz : m.zombies = []) : Accounts n (os ++ [.idle]) { m with place := leave depth } := by
  obtain ⟨hh, hat, hs⟩ := (quiet_leave depth).spec m
  have hsig := h.signals
  simp only [isHandling, hi, hz, List.length_nil, Bool.toNat_true] at hsig
  refine ⟨h.workernum, ?_, ?_, ?_, ?_, fun j hj => absurd hj (hs j), ?_, ?_⟩
  · rw [filterMap_skip rfl rfl, filterMap_skip rfl rfl]
    exact h.forked
  · rw [filterMap_skip rfl rfl, filterMap_skip rfl rfl]
    exact h.ended
  · rw [filterMap_skip rfl rfl]
    exact h.distinct
  · rw [hat, filterMap_skip rfl rfl]
    simpa [List.count_append, Master.attempts, hi] using h.attempts
  · rw [hh]
    simp [List.count_append, hz]
    omega
  · simp [List.count_append]
    omega

theorem Accounts.reap {depth : ℕ} {z : ℕ × Status} (h : Accounts n os m)
    (hi : m.place = .handling depth) (hz : z ∈ m.zombies) :
    Accounts n (os ++ [.reaped z.1 z.2])
      { m with place := leave depth, zombies := m.zombies.erase z } := by
  obtain ⟨hh, hat, hs⟩ := (quiet_leave depth).spec { m with zombies := m.zombies.erase z }
  have hsig := h.signals
  have hlen := List.length_erase_of_mem hz
  have hpos := List.length_pos_of_mem hz
  simp only [isHandling, hi, Bool.toNat_true] at hsig
  refine ⟨h.workernum, ?_, ?_, ?_, ?_, fun j hj => absurd hj (hs j), ?_, ?_⟩
  · rw [filterMap_skip rfl rfl, filterMap_skip rfl rfl]
    exact h.forked
  · rw [filterMap_skip rfl rfl, filterMap_hit rfl rfl]
    calc os.filterMap ended?
      _ |>.Perm (m.zombies.map Prod.fst ++ os.filterMap reaped?) := h.ended
      _ |>.Perm ((z :: m.zombies.erase z).map Prod.fst ++ os.filterMap reaped?) :=
        ((List.perm_cons_erase hz).map _).append_right _
      _ |>.Perm ((m.zombies.erase z).map Prod.fst ++ (os.filterMap reaped? ++ [z.1])) := by
        rw [← List.append_assoc]
        exact (List.perm_append_singleton z.1 _).symm
  · rw [filterMap_skip rfl rfl]
    exact h.distinct
  · rw [hat, filterMap_skip rfl rfl]
    simpa [List.count_append, Master.attempts, hi] using h.attempts
  · rw [hh]
    simp [List.count_append, hlen]
    omega
  · simpa [List.count_append] using h.idle

theorem Accounts.moves (h : Accounts n os m) (hm : m.Moves m' o) : Accounts n (os ++ o) m' := by
  cases hm with
  | fork hi hlt hp => exact h.fork hi hlt hp
  | forkFailed hi hlt => exact h.forkFailed hi hlt
  | @started i hi hle =>
    rw [List.append_nil]
    refine h.goto (.inr ⟨0, rfl⟩) (by simp [isHandling, hi]) ?_
    have := (h.starting i hi).1
    have hn := h.workernum
    simp only [Master.attempts, hi]
    omega
  | terminate hp => exact h.terminate hp
  | sigchld => exact h.sigchld
  | enterHandler hi =>
    rw [List.append_nil]
    exact h.goto (.inr ⟨_, rfl⟩) (by simp [isHandling, hi]) (by simp [Master.attempts, hi])
  | leaveHandler hi =>
    rw [List.append_nil]
    exact h.goto (quiet_leave _) (by simp [isHandling, hi]) (by simp [Master.attempts, hi])
  | deliver hi hp =>
    rw [List.append_nil]
    exact h.deliver hi hp
  | eintr =>
    rw [List.append_nil]
    exact h
  | idle hi hz => exact h.found hi hz
  | reap hi hz => exact h.reap hi hz
  | awake hi =>
    rw [List.append_nil]
    exact h.goto (.inr ⟨0, rfl⟩) (by simp [isHandling, hi]) (by simp [Master.attempts, hi])

theorem accounts_run {es : List MasterStep} (h : Run.run step (start n) es = some (m, os)) :
    Accounts n os m := by
  let R (_ : List MasterStep) (os : List MasterOut) (m : Master) : Prop := Accounts n os m
  have h₀ : R [] [] (start n) := accounts_start n
  have hR : R ([] ++ es) ([] ++ os) m := by
    refine Run.run_induct ?_ h₀ (Run.guarded_true _ es) h
    intro is os m e m' o hm _ hs
    exact hm.moves (moves_of_step hs)
  exact hR

/-- **Zombies.** In every run of the master: the workers it started are those that run and those
that ended, no two of them alike, and there are no more of them than calls of `fork`, of which it
makes `workernum` and never another one; those that ended are zombies or were reaped, each once.
Where no SIGCHLD comes but from the end of a worker, the zombies are as many as the SIGCHLDs that
were lost, with the one that is pending and the one that is being handled. -/
theorem zombies_run (n : ℤ) (es : List MasterStep) (m : Master) (os : List MasterOut)
    (h : Run.run step (start n) es = some (m, os)) :
    (os.filterMap forked?).Perm (m.running ++ os.filterMap ended?) ∧
    (os.filterMap forked?).Nodup ∧
    (os.filterMap ended?).Perm (m.zombies.map Prod.fst ++ os.filterMap reaped?) ∧
    (os.filterMap forked?).length + os.count .forkFailed = m.attempts ∧ m.attempts ≤ n.toNat ∧
    m.zombies.length + os.count .nudged =
      os.count .lost + os.count .idle + m.pending.toNat + m.isHandling.toNat ∧
    (os.count .nudged = 0 →
      m.zombies.length = os.count .lost + m.pending.toNat + m.isHandling.toNat) := by
  have ha := accounts_run h
  have hsig := ha.signals
  have hidle := ha.idle
  refine ⟨ha.forked, ha.distinct, ha.ended, ha.attempts, ?_, hsig, fun hn => by omega⟩
  unfold Master.attempts
  split
  · next i hi => exact (ha.starting i hi).1
  · exact Nat.le_of_eq (congrArg Int.toNat ha.workernum)

/-- Two of three workers end while the first one's SIGCHLD is pending: one stays a zombie, though
the handler has run and nothing is pending. -/
theorem zombies_two_end : ∃ (es : List MasterStep) (m : Master) (os : List MasterOut),
    Run.run step (start 3) es = some (m, os) ∧ m.place = .sleeping ∧ m.running = [12] ∧
    m.pending = false ∧ os.count .lost = 1 ∧ os.count .nudged = 0 ∧ m.zombies.length = 1 ∧
    m.zombies.length = os.count .lost + m.pending.toNat + m.isHandling.toNat := by
  let es : List MasterStep := [.fork (some 10), .fork (some 11), .fork (some 12), .started,
    .terminate 10 (.signaled 9), .terminate 11 (.exited 0), .deliver, .waitpid .eintr,
    .waitpid (.pid 10)]
  obtain ⟨⟨m, os⟩, hr, hf⟩ := Run.exists_of_any (x := Run.run step (start 3) es)
    (f := fun (r : Master × List MasterOut) => decide (r.1.place = .sleeping ∧
      r.1.running = [12] ∧ r.1.pending = false ∧ r.2.count .lost = 1 ∧ r.2.count .nudged = 0 ∧
      r.1.zombies.length = 1)) (by decide +kernel)
  obtain ⟨hp, hw, hpend, hl, hn, hz⟩ := of_decide_eq_true hf
  obtain ⟨-, -, -, -, -, -, h⟩ := zombies_run 3 es m os hr
  exact ⟨es, m, os, hr, hp, hw, hpend, hl, hn, hz, h hn⟩

end Master

end ServerNginx
