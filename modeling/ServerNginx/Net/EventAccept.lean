import ServerNginx.Net.Effect

set_option autoImplicit false

/-!
# The whole of `ngx_event_accept`

The call with its error paths: `accept4` may fail or not be there, the new descriptor may be one too
many or stay blocking, and what is served depends on the port. On port 443 the call waits for the
TLS handshake, `while(!SSL_accept(..)){}` on a non-blocking socket; on a port other than 80 and 443
it goes on with a `logicobj` that was never set.

* `acceptLoop`: the `do ... while` around `accept4` and `accept`; `acceptLoop_stream`: two calls
  at most;
* `eventAccept`: the call, on the results of the calls it makes;
* `eventAccept_refines`: a call that returns is a step of the process, or leaves it as it was;
* **`eventAccept_returns_iff`**: the call returns if and only if it admits nobody, serves port 80,
  or serves port 443 and the handshake succeeds at some time. Until then the worker does nothing
  else.
-/

namespace ServerNginx

/-- `errno` behind `accept4` and `accept`, as far as the code tells the values apart. -/
inductive AcceptErrno
  | eagain
  | econnaborted
  | emfile
  | enfile
  | enosys
  | other
  deriving DecidableEq

/-- The levels of the log line about a failed `accept4`. -/
inductive AcceptLevel
  | crit
  | err
  | alert
  deriving DecidableEq

/-- What `accept4` or `accept` returns. -/
inductive AcceptRet
  | fd (fd : ℤ)
  | err (e : AcceptErrno)
  deriving DecidableEq

/-- What the calls return that `ngx_event_accept` makes, in turn. -/
structure AcceptCalls where
  accept : List AcceptRet
  setnonblocking : Bool
  sslAccept : List Bool
  epollAdd : Bool
  now : ℤ

/-- The first `n` results of every call. -/
def AcceptCalls.first (n : ℕ) (accept : ℕ → AcceptRet) (setnonblocking : Bool)
    (sslAccept : ℕ → Bool) (epollAdd : Bool) (now : ℤ) : AcceptCalls :=
  ⟨(List.range n).map accept, setnonblocking, (List.range n).map sslAccept, epollAdd, now⟩

/-- What becomes of a call of `ngx_event_accept`. -/
inductive AcceptEnd
  | returned (s : CSocket) (os : List PoolEv)
  /-- the results are used up, and the call goes on -/
  | running
  /-- `logicobj` is read and was never set -/
  | undefined

/-- The level at which an error is logged. -/
def AcceptErrno.level : AcceptErrno → AcceptLevel
  | .econnaborted => .err
  | .emfile => .crit
  | .enfile => .crit
  | _ => .alert

/-- The loop around `accept4` (where `accept4_flag` is set) and `accept`: what is logged, and the
flag with the descriptor unless the call returns. -/
def acceptLoop : Bool → List AcceptRet → Option (List AcceptLevel × Option (Bool × ℤ))
  | _, [] => none
  | flag, .fd fd :: _ => some ([], some (flag, fd))
  | flag, .err e :: rets =>
    if e = .eagain then some ([], none)
    else if flag ∧ e = .enosys then
      (acceptLoop false rets).map fun r => (e.level :: r.1, r.2)
    else some ([e.level], none)

namespace CSocket

/-- `close` of a descriptor that was never in the epoll set. -/
def closeNew (s : CSocket) (fd : ℤ) : CSocket := { s with fds := s.fds.erase fd }

/-- `ngx_event_accept` for a listening socket on `port`. -/
def eventAccept (cfg : Conf) (port : ℤ) (s : CSocket) (c : AcceptCalls) : AcceptEnd :=
  match acceptLoop true c.accept with
  | none => .running
  | some (_, none) => .returned s []
  | some (_, some (flag, fd)) =>
    let s := { s with fds := fd :: s.fds }
    if cfg.mWorkerConnections < s.mOnlineUserCount then .returned (s.closeNew fd) []
    else if !flag && !c.setnonblocking then .returned (s.closeNew fd) []
    else
      match s.pool.ngxGetConnection cfg fd with
      | none => .returned (s.closeNew fd) []
      | some (a, pool) =>
        if port = 80 ∨ port = 443 ∧ true ∈ c.sslAccept then
          let newc := { (pool.mem a).initRecv with logicObj := some s.objs }
          let s := { s with
            pool := pool.set a newc
            mOnlineUserCount := s.mOnlineUserCount + 1
            objs := s.objs + 1 }
          if c.epollAdd then
            .returned ({ s with epoll := (fd, a) :: s.epoll }.ngxAddCheck a c.now) [.get a]
          else
            let (s, evs) := s.ngxCloseConnection a
            .returned s (.get a :: .release a :: evs)
        -- `while(!((HttpsServer*)logicobj) ->GetSSL() ->Accept()){}`
        else if port = 443 then .running
        else .undefined

variable {cfg : Conf} {port : ℤ} {s t : CSocket} {os : List PoolEv} {c : AcceptCalls}
  {flag : Bool} {fd : ℤ} {levels : List AcceptLevel}

@[simp] theorem closeNew_open (s : CSocket) (fd : ℤ) :
    ({ s with fds := fd :: s.fds } : CSocket).closeNew fd = s := by
  simp [closeNew]

theorem eventAccept_refused (hl : acceptLoop true c.accept = some (levels, some (flag, fd)))
    (hr : s.Refuses cfg ∨ flag = false ∧ c.setnonblocking = false) :
    s.eventAccept cfg port c = .returned s [] := by
  unfold eventAccept
  rw [hl]
  dsimp only
  rw [closeNew_open]
  by_cases hmax : cfg.mWorkerConnections < s.mOnlineUserCount
  · rw [if_pos hmax]
  rw [if_neg hmax]
  by_cases hb : flag = false ∧ c.setnonblocking = false
  · simp [hb]
  · have hnone : s.pool.ngxGetConnection cfg fd = none :=
      get_eq_none.mpr ((hr.resolve_right hb).resolve_left hmax)
    rw [hnone]
    split_ifs <;> rfl

variable (cfg port s) in
theorem eventAccept_admits (hl : acceptLoop true c.accept = some (levels, some (flag, fd)))
    (hr : ¬ s.Refuses cfg) (hb : flag = true ∨ c.setnonblocking = true) :
    (port = 80 ∨ port = 443 ∧ true ∈ c.sslAccept →
      ∃ t os, s.eventAccept cfg port c = .returned t os) ∧
    (¬ (port = 80 ∨ port = 443 ∧ true ∈ c.sslAccept) → s.eventAccept cfg port c =
      if port = 443 then .running else .undefined) := by
  have hmax : ¬ cfg.mWorkerConnections < s.mOnlineUserCount := fun h => hr (.inl h)
  have hblock : ¬ (!flag && !c.setnonblocking) = true := by
    rcases hb with h | h <;> simp [h]
  have hsome : s.pool.ngxGetConnection cfg fd ≠ none := fun h => hr (.inr (get_eq_none.mp h))
  obtain ⟨⟨a, pool⟩, hget⟩ := Option.ne_none_iff_exists'.mp hsome
  unfold eventAccept
  rw [hl]
  dsimp only
  rw [if_neg hmax, if_neg hblock, hget]
  constructor
  · intro hp
    dsimp only
    rw [if_pos hp]
    split_ifs
    · exact ⟨_, _, rfl⟩
    · exact ⟨_, _, rfl⟩
  · intro hp
    dsimp only
    rw [if_neg hp]

theorem mem_of_acceptLoop {rets : List AcceptRet} {b : Bool}
    (h : acceptLoop b rets = some (levels, some (flag, fd))) : .fd fd ∈ rets := by
  induction rets generalizing b levels with
  | nil => cases h
  | cons r rets ih =>
    cases r with
    | fd x =>
      cases h
      exact List.mem_cons_self
    | err e =>
      simp only [acceptLoop] at h
      split_ifs at h with h1 h2
      · cases h
      · obtain ⟨⟨ls, q⟩, hq, he⟩ := Option.map_eq_some_iff.mp h
        cases he
        exact List.mem_cons_of_mem _ (ih hq)
      · cases h

/-- **A call that returns** is a step of the process, or leaves it as it was. -/
theorem eventAccept_refines (hnew : ∀ fd, .fd fd ∈ c.accept → 0 ≤ fd ∧ fd ∉ s.fds)
    (h : s.eventAccept cfg port c = .returned t os) :
    (t = s ∧ os = []) ∨
      ∃ fd, .fd fd ∈ c.accept ∧ s.step cfg (.accept fd c.now c.epollAdd) = some (t, os) := by
  cases hl : acceptLoop true c.accept with
  | none =>
    rw [eventAccept, hl] at h
    cases h
  | some q =>
    obtain ⟨levels, r⟩ := q
    cases r with
    | none =>
      rw [eventAccept, hl] at h
      cases h
      exact .inl ⟨rfl, rfl⟩
    | some r =>
      obtain ⟨flag, fd⟩ := r
      by_cases hr : s.Refuses cfg ∨ flag = false ∧ c.setnonblocking = false
      · rw [eventAccept_refused hl hr] at h
        cases h
        exact .inl ⟨rfl, rfl⟩
      · have hmem := mem_of_acceptLoop hl
        obtain ⟨hpos, hnot⟩ := hnew fd hmem
        have hmax : ¬ cfg.mWorkerConnections < s.mOnlineUserCount := fun h => hr (.inl (.inl h))
        have hblock : ¬ (!flag && !c.setnonblocking) = true := by
          intro hb
          exact hr (.inr (by simpa using hb))
        have hfd : ¬ (fd < 0 ∨ fd ∈ s.fds) := by
          rintro (hlt | hin)
          · omega
          · exact hnot hin
        refine .inr ⟨fd, hmem, ?_⟩
        rw [eventAccept, hl] at h
        dsimp only at h
        rw [if_neg hmax, if_neg hblock] at h
        change s.ngxEventAccept cfg fd c.now c.epollAdd = some (t, os)
        rw [ngxEventAccept, if_neg hfd, if_neg hmax]
        cases hget : s.pool.ngxGetConnection cfg fd with
        | none => exact absurd (.inl (.inr (get_eq_none.mp hget))) hr
        | some q =>
          obtain ⟨a, pool⟩ := q
          rw [hget] at h
          dsimp only at h ⊢
          split_ifs at h ⊢ with hp hadd
          · cases h
            rfl
          · cases h
            rfl

/-! ## The calls that return -/

/-- The descriptor that `accept4`, or `accept` where there is no `accept4`, has returned. -/
def accepted (rets : ℕ → AcceptRet) : Option (Bool × ℤ) :=
  match rets 0 with
  | .fd fd => some (true, fd)
  | .err .enosys =>
    match rets 1 with
    | .fd fd => some (false, fd)
    | .err _ => none
  | .err _ => none

/-- **Two calls** of `accept4` and `accept` are enough for the loop. -/
theorem acceptLoop_stream (rets : ℕ → AcceptRet) {n : ℕ} (hn : 2 ≤ n) :
    ∃ levels, acceptLoop true ((List.range n).map rets) = some (levels, accepted rets) := by
  obtain ⟨k, rfl⟩ := Nat.exists_eq_add_of_le hn
  have hsplit : (List.range (2 + k)).map rets =
      rets 0 :: rets 1 :: ((List.range k).map fun i => rets (2 + i)) := by
    rw [List.range_add, List.map_append]
    simp [List.range_succ, Function.comp_def]
  rw [hsplit]
  unfold accepted
  cases h0 : rets 0 with
  | fd x => exact ⟨_, rfl⟩
  | err e =>
    cases e with
    | enosys =>
      cases h1 : rets 1 with
      | fd y => exact ⟨_, rfl⟩
      | err e => cases e <;> exact ⟨_, rfl⟩
    | _ => exact ⟨_, rfl⟩

theorem acceptLoop_append {rets : List AcceptRet} {b : Bool}
    {r : List AcceptLevel × Option (Bool × ℤ)} (h : acceptLoop b rets = some r)
    (more : List AcceptRet) : acceptLoop b (rets ++ more) = some r := by
  induction rets generalizing b r with
  | nil => cases h
  | cons x rets ih =>
    cases x with
    | fd y => exact h
    | err e =>
      simp only [List.cons_append, acceptLoop] at h ⊢
      split_ifs at h ⊢ with h1 h2
      · exact h
      · obtain ⟨q, hq, he⟩ := Option.map_eq_some_iff.mp h
        rw [ih hq]
        exact congrArg some he
      · exact h

/-- However many results a call took, it has accepted what the first two say. -/
theorem acceptLoop_accepted {rets : ℕ → AcceptRet} {n : ℕ}
    {r : List AcceptLevel × Option (Bool × ℤ)}
    (h : acceptLoop true ((List.range n).map rets) = some r) : r.2 = accepted rets := by
  obtain ⟨levels, hlev⟩ := acceptLoop_stream rets (n := n + 2) (by omega)
  have hmore := acceptLoop_append h ((List.range 2).map fun i => rets (n + i))
  rw [List.range_add, List.map_append, List.map_map] at hlev
  rw [Function.comp_def] at hlev
  rw [hmore] at hlev
  exact congrArg Prod.snd (Option.some.inj hlev)

/-- The call admits a connection: it has a descriptor, one that is not one too many, and not
blocking. -/
def Admits (cfg : Conf) (s : CSocket) (accept : ℕ → AcceptRet) (setnonblocking : Bool) : Prop :=
  ∃ flag fd, accepted accept = some (flag, fd) ∧ ¬ s.Refuses cfg ∧
    (flag = true ∨ setnonblocking = true)

section

variable {accept : ℕ → AcceptRet} {setnonblocking : Bool} {sslAccept : ℕ → Bool} {epollAdd : Bool}
  {now : ℤ}

theorem served_of_returned {n : ℕ} (hadm : s.Admits cfg accept setnonblocking)
    (h : s.eventAccept cfg port (.first n accept setnonblocking sslAccept epollAdd now) =
      .returned t os) : port = 80 ∨ port = 443 ∧ ∃ i, sslAccept i = true := by
  obtain ⟨flag, fd, hacc, hr, hb⟩ := hadm
  by_contra hport
  cases hl : acceptLoop true ((List.range n).map accept) with
  | none =>
    rw [eventAccept, AcceptCalls.first, hl] at h
    cases h
  | some r =>
    obtain ⟨levels, q⟩ := r
    obtain rfl : q = some (flag, fd) := (acceptLoop_accepted hl).trans hacc
    have hno : ¬ (port = 80 ∨ port = 443 ∧ true ∈ (List.range n).map sslAccept) := by
      rintro (hp | ⟨hp, hs⟩)
      · exact hport (.inl hp)
      · obtain ⟨i, -, hi⟩ := List.mem_map.mp hs
        exact hport (.inr ⟨hp, i, hi⟩)
    have hend := (eventAccept_admits cfg port s
      (c := .first n accept setnonblocking sslAccept epollAdd now) hl hr hb).2 hno
    rw [hend] at h
    split_ifs at h

theorem returned_of_served (hadm : s.Admits cfg accept setnonblocking)
    (h : port = 80 ∨ port = 443 ∧ ∃ i, sslAccept i = true) : ∃ n t os, s.eventAccept cfg port
      (.first n accept setnonblocking sslAccept epollAdd now) = .returned t os := by
  obtain ⟨flag, fd, hacc, hr, hb⟩ := hadm
  obtain ⟨m, hm⟩ : ∃ m, port = 80 ∨ port = 443 ∧ true ∈ (List.range (m + 2)).map sslAccept := by
    rcases h with hp | ⟨hp, i, hi⟩
    · exact ⟨0, .inl hp⟩
    · exact ⟨i, .inr ⟨hp, List.mem_map.mpr ⟨i, List.mem_range.mpr (by omega), hi⟩⟩⟩
  obtain ⟨levels, hl⟩ := acceptLoop_stream accept (n := m + 2) (by omega)
  rw [hacc] at hl
  obtain ⟨t, os, hret⟩ := (eventAccept_admits cfg port s
    (c := .first (m + 2) accept setnonblocking sslAccept epollAdd now) hl hr hb).1 hm
  exact ⟨m + 2, t, os, hret⟩

/-- A call that admits nobody returns, and leaves the process as it was. -/
theorem returned_of_not_admits (hadm : ¬ s.Admits cfg accept setnonblocking) :
    s.eventAccept cfg port (.first 2 accept setnonblocking sslAccept epollAdd now) =
      .returned s [] := by
  obtain ⟨levels, hl⟩ := acceptLoop_stream accept (n := 2) le_rfl
  cases hacc : accepted accept with
  | none =>
    rw [hacc] at hl
    rw [eventAccept, AcceptCalls.first, hl]
  | some r =>
    obtain ⟨flag, fd⟩ := r
    rw [hacc] at hl
    refine eventAccept_refused hl ?_
    by_contra hno
    rw [not_or] at hno
    refine hadm ⟨flag, fd, hacc, hno.1, ?_⟩
    by_contra hb
    rw [not_or] at hb
    exact hno.2 ⟨Bool.eq_false_iff.mpr hb.1, Bool.eq_false_iff.mpr hb.2⟩

end

/-- **When `ngx_event_accept` returns.** Whatever the calls it makes return, it returns if and only
if it admits nobody, serves port 80, or serves port 443 and one of the calls of `SSL_accept`
succeeds; and where it returns it has taken one step of the process or none. -/
theorem eventAccept_returns_iff (cfg : Conf) (port : ℤ) (s : CSocket) (accept : ℕ → AcceptRet)
    (setnonblocking : Bool) (sslAccept : ℕ → Bool) (epollAdd : Bool) (now : ℤ)
    (hnew : ∀ i fd, accept i = .fd fd → 0 ≤ fd ∧ fd ∉ s.fds) :
    ((∃ n t os, s.eventAccept cfg port
        (.first n accept setnonblocking sslAccept epollAdd now) = .returned t os) ↔
      (s.Admits cfg accept setnonblocking → port = 80 ∨ port = 443 ∧ ∃ i, sslAccept i = true)) ∧
    ∀ n t os, s.eventAccept cfg port
        (.first n accept setnonblocking sslAccept epollAdd now) = .returned t os →
      (t = s ∧ os = []) ∨
        ∃ i fd, accept i = .fd fd ∧ s.step cfg (.accept fd now epollAdd) = some (t, os) := by
  refine ⟨⟨?_, fun h => ?_⟩, fun n t os h => ?_⟩
  · rintro ⟨n, t, os, h⟩ hadm
    exact served_of_returned hadm h
  · by_cases hadm : s.Admits cfg accept setnonblocking
    · exact returned_of_served hadm (h hadm)
    · exact ⟨2, s, [], returned_of_not_admits hadm⟩
  · have hnew' : ∀ fd, .fd fd ∈ (List.range n).map accept → 0 ≤ fd ∧ fd ∉ s.fds := by
      intro fd hfd
      obtain ⟨i, -, hi⟩ := List.mem_map.mp hfd
      exact hnew i fd hi
    refine (eventAccept_refines hnew' h).imp_right ?_
    rintro ⟨fd, hfd, hstep⟩
    obtain ⟨i, -, hi⟩ := List.mem_map.mp hfd
    exact ⟨i, fd, hi, hstep⟩

/-- A client that never answers the handshake: the call does not return. -/
theorem eventAccept_silent_client :
    let cfg : Conf := ⟨5, .etOpen, 0, 100, 10⟩
    let s := (ngxEpollInit cfg (fun _ => .zero) [3]).get (by decide +kernel)
    ¬ ∃ n t os, s.eventAccept cfg 443
      (.first n (fun _ => .fd 5) true (fun _ => false) true 0) = .returned t os := by
  intro cfg s h
  have hret := (eventAccept_returns_iff cfg 443 s (fun _ => .fd 5) true (fun _ => false) true 0
    (fun i fd hfd => by cases hfd; decide +kernel)).1.mp h
  obtain hp | ⟨-, i, hi⟩ := hret ⟨true, 5, rfl, by decide +kernel, .inl rfl⟩
  · cases hp
  · cases hi

end CSocket

end ServerNginx
