import ServerNginx.Net.Effect

set_option autoImplicit false

/-!
# The count of users

`Online`: `m_onlineUserCount` is the number of accepted connections that have not been closed, so an
accept is refused for the number of users only where that many are online.

A reset, any other receive error and a failed registration with epoll end a connection without
counting it down (`CountsDown`). **`online_iff`**: a run whose closes find their connection open
keeps the count exact if and only if none of these happens; `not_online` is a run in which one does.
-/

namespace ServerNginx

/-- The end of a read counts a connection down if it closes it. -/
def Ending.counted : Ending → Bool
  | .ret .reset => false
  | .ret .error => false
  | _ => true

namespace CSocket

/-- The count of users is exact. -/
structure Online (cfg : Conf) (s : CSocket) : Prop where
  count : s.mOnlineUserCount = s.epoll.length
  refuses : cfg.mWorkerConnections < s.mOnlineUserCount → cfg.mWorkerConnections < s.epoll.length

/-- A connection that the step closes is counted down. -/
def CountsDown (cfg : Conf) (s : CSocket) : Step → Prop
  | .accept _ _ added => added = true ∨ s.Refuses cfg
  | .task a rets => (recvprocETTask cfg a (s.conn a) rets).all (·.2.counted) = true
  | .read a ret => (ngxReadRequestHandlerCall cfg a (s.conn a) ret).all (·.2.counted) = true
  | _ => True

instance (cfg : Conf) (s : CSocket) : ∀ i, Decidable (s.CountsDown cfg i)
  | .accept .. => inferInstanceAs (Decidable (_ ∨ _))
  | .task .. | .read .. => inferInstanceAs (Decidable (_ = true))
  | .wait _ | .edge _ | .hup _ | .write _ | .ping .. | .visit .. | .expire _ | .timerFree =>
    isTrue trivial

/-- A step that can be taken and closes no connection but an open one. -/
def ClosesOpen (cfg : Conf) (s : CSocket) (i : Step) : Prop :=
  Run.Defined (step cfg) s i ∧ s.ClosesRegistered cfg i

instance (cfg : Conf) (s : CSocket) (i : Step) : Decidable (s.ClosesOpen cfg i) :=
  inferInstanceAs (Decidable (_ ∧ _))

/-- Every open connection is in the epoll set once. -/
def OneEach (s : CSocket) : Prop := (s.epoll.map Prod.snd).Nodup

variable {cfg : Conf} {s t : CSocket} {a : Addr}

theorem online_of_count (h : s.mOnlineUserCount = s.epoll.length) : s.Online cfg :=
  ⟨h, fun hr => h ▸ hr⟩

theorem Shut.length (h : Shut s a t) (hs : s.OneEach) : t.epoll.length + 1 = s.epoll.length := by
  have hmem : a ∈ s.epoll.map Prod.snd := h.reg
  have herase : t.epoll.map Prod.snd = (s.epoll.map Prod.snd).erase a := by
    rw [hs.erase_eq_filter, h.epoll, List.filter_map]
    exact congrArg _ (List.filter_congr fun e _ => Bool.eq_iff_iff.mpr (by simp))
  have hlen := congrArg List.length herase
  rw [List.length_map, List.length_erase_of_mem hmem, List.length_map] at hlen
  have hpos := List.length_pos_of_mem hmem
  rw [List.length_map] at hpos
  omega

theorem Shut.oneEach (h : Shut s a t) (hs : s.OneEach) : t.OneEach := by
  rw [OneEach, h.epoll]
  exact hs.sublist (List.filter_sublist.map _)

theorem Ended.online {e : Ending} (h : Ended s a t e) (hs : s.OneEach)
    (hc : s.mOnlineUserCount = s.epoll.length) :
    t.OneEach ∧ (t.mOnlineUserCount = t.epoll.length ↔ e.counted = true) := by
  have hquiet : Quiet s t → t.OneEach ∧ t.mOnlineUserCount = t.epoll.length := fun h =>
    ⟨by rw [OneEach, h.epoll]; exact hs, by rw [h.count, h.epoll, hc]⟩
  cases e with
  | done =>
    obtain ⟨h₁, h₂⟩ := hquiet h
    exact ⟨h₁, iff_of_true h₂ rfl⟩
  | flood =>
    obtain ⟨hsh, hn, -⟩ := h
    have := hsh.length hs
    exact ⟨hsh.oneEach hs, iff_of_true (by omega) rfl⟩
  | ret ret =>
    cases ret with
    | data rd | again =>
      obtain ⟨h₁, h₂⟩ := hquiet h
      exact ⟨h₁, iff_of_true h₂ rfl⟩
    | zero =>
      obtain ⟨hsh, hn, -⟩ := h
      have := hsh.length hs
      exact ⟨hsh.oneEach hs, iff_of_true (by omega) rfl⟩
    | reset | error =>
      obtain ⟨hsh, hn, -⟩ := h
      have := hsh.length hs
      exact ⟨hsh.oneEach hs, iff_of_false (by omega) Bool.false_ne_true⟩

/-- **A step keeps the count exact** if and only if it counts down what it closes. -/
theorem Effect.online {i : Step} (h : Effect cfg s t i) (hs : s.OneEach)
    (hc : s.mOnlineUserCount = s.epoll.length) :
    t.OneEach ∧ (t.mOnlineUserCount = t.epoll.length ↔ s.CountsDown cfg i) := by
  have hquiet : Quiet s t → t.OneEach ∧ t.mOnlineUserCount = t.epoll.length := fun h =>
    ⟨by rw [OneEach, h.epoll]; exact hs, by rw [h.count, h.epoll, hc]⟩
  cases i with
  | accept fd now added =>
    simp only [Effect, Accepted] at h
    by_cases href : s.Refuses cfg
    · rw [if_pos href] at h
      obtain ⟨h₁, h₂⟩ := hquiet h
      exact ⟨h₁, iff_of_true h₂ (Or.inr href)⟩
    · rw [if_neg href] at h
      cases added with
      | true =>
        obtain ⟨a, ho⟩ := h
        refine ⟨?_, iff_of_true ?_ (Or.inl rfl)⟩
        · rw [OneEach, ho.epoll]
          exact List.nodup_cons.mpr ⟨ho.new, hs⟩
        · rw [ho.count, ho.epoll, hc, List.length_cons]
          rfl
      | false =>
        obtain ⟨he, -, hn, -⟩ := h
        refine ⟨by rw [OneEach, he]; exact hs, iff_of_false ?_ ?_⟩
        · rw [hn, he]
          omega
        · exact fun hd => hd.elim Bool.false_ne_true href
  | task a rets =>
    obtain ⟨r, hr, he⟩ := h
    obtain ⟨h₁, h₂⟩ := he.online hs hc
    exact ⟨h₁, by rw [h₂, CountsDown, hr]; rfl⟩
  | read a ret =>
    obtain ⟨r, hr, he⟩ := h
    obtain ⟨h₁, h₂⟩ := he.online hs hc
    exact ⟨h₁, by rw [h₂, CountsDown, hr]; rfl⟩
  | hup a =>
    have he : Ended s a t (.ret .zero) := h
    obtain ⟨h₁, h₂⟩ := he.online hs hc
    exact ⟨h₁, iff_of_true (h₂.mpr rfl) trivial⟩
  | visit e now =>
    simp only [Effect, Visited] at h
    split_ifs at h with hseq hk htime
    · rw [h]
      exact ⟨hs, iff_of_true hc trivial⟩
    · obtain ⟨h₁, h₂⟩ := Ended.online h hs hc
      exact ⟨h₁, iff_of_true (h₂.mpr rfl) trivial⟩
    · rw [h]
      exact ⟨hs, iff_of_true hc trivial⟩
    · rw [h]
      exact ⟨hs, iff_of_true hc trivial⟩
  | wait | edge | write | ping | expire | timerFree =>
    obtain ⟨h₁, h₂⟩ := hquiet h
    exact ⟨h₁, iff_of_true h₂ trivial⟩

/-- **The count of users is exact** in every state of a run from the initialisation of the process
on, whose closes find their connection open, if and only if every connection that is closed, and
every accepted one that epoll does not take, is counted down. -/
theorem online_iff (cfg : Conf) (heap : Addr → Connection) (listen : List ℤ) (s : CSocket)
    (is : List Step) (hs : ngxEpollInit cfg heap listen = some s)
    (hv : Run.Guarded (step cfg) (ClosesOpen cfg) s is) :
    Run.Always (step cfg) (Online cfg) s is ↔ Run.Guarded (step cfg) (CountsDown cfg) s is := by
  have h₀ := inv_ngxEpollInit hs
  have hempty : s.epoll = [] ∧ s.mOnlineUserCount = 0 := by
    obtain ⟨p, -, rfl⟩ := Option.map_eq_some_iff.mp hs
    exact ⟨rfl, rfl⟩
  refine Run.always_iff_guarded (I := fun t => t.OneEach ∧ ∃ log, t.Inv log) ?_
    ⟨by rw [OneEach, hempty.1]; exact List.nodup_nil, [], h₀⟩
    (online_of_count (by rw [hempty.1, hempty.2]; rfl)) hv
  rintro t i ⟨hone, log, hi⟩ hon ⟨hd, hg⟩
  obtain ⟨⟨u, os⟩, hu⟩ := Option.isSome_iff_exists.mp hd
  obtain ⟨hone', hiff⟩ := (step_effect hi hg hu).online hone hon.count
  refine ⟨u, os, hu, ⟨fun hp => hiff.mp hp.count, fun hc => online_of_count (hiff.mpr hc)⟩,
    fun _ => ?_⟩
  exact ⟨hone', _, step_inv hi hg hu⟩

/-- Two connections, one of which closes; a third is accepted. -/
theorem online_three :
    let cfg : Conf := ⟨4, .etOpen, 0, 100, 10⟩
    let s := (ngxEpollInit cfg (fun _ => .zero) [3]).get rfl
    Run.Always (step cfg) (Online cfg) s
      [.accept 5 0 true, .accept 6 1 true, .wait [⟨0, 1⟩], .edge ⟨0, 1⟩, .task ⟨0, 1⟩ [.zero],
        .accept 7 2 true] :=
  (online_iff ⟨4, .etOpen, 0, 100, 10⟩ (fun _ => .zero) [3] _ _ (Option.some_get _).symm
    (by decide +kernel)).mpr (by decide +kernel)

/-- **A reset is not counted**: the only connection is gone and one user is still online. -/
theorem not_online : ¬ ∀ (cfg : Conf) (heap : Addr → Connection) (listen : List ℤ) (s : CSocket)
    (is : List Step), ngxEpollInit cfg heap listen = some s →
    Run.Guarded (step cfg) (ClosesOpen cfg) s is → Run.Always (step cfg) (Online cfg) s is := by
  intro h
  have ha := h ⟨4, .etClose, 0, 100, 10⟩ (fun _ => .zero) [3]
    ((ngxEpollInit ⟨4, .etClose, 0, 100, 10⟩ (fun _ => .zero) [3]).get (by decide +kernel))
    [.accept 5 0 true, .wait [⟨0, 1⟩], .read ⟨0, 1⟩ .reset] (Option.some_get _).symm
    (by decide +kernel)
  have hlast := ha.last (Option.some_get (by decide +kernel)).symm
  exact absurd hlast.count (by decide +kernel)

end CSocket

end ServerNginx
