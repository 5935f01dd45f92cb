import Mathlib.Algebra.Ring.Nat
import Mathlib.Data.List.Basic
import Mathlib.Data.Nat.Notation

set_option autoImplicit false

/-!
# Sleepers on a condition variable

The threads that may wait on a condition variable, as a list of the places they have reached.
`notify_one` takes one sleeper out of the wait; which one is not fixed, so the choice is an
argument, and there is nothing to choose only where nobody sleeps.

* `notifyOne`, `notifyEach`: one call, and one call after the other;
* `notifyOne_cases`: what a call does;
* `countP_set`, `sum_set`: how many threads have a property before and after one of them moves;
* `map_notifyOne`: what sleepers and woken threads have alike stays as it is;
* `sleeping_notifyOne`: a call wakes a sleeper exactly where there is one.
-/

namespace CondVar

variable {φ : Type*}

/-- `notify_one` with the sleeper it wakes. -/
def notifyOne (asleep : φ → Bool) (woken : φ) (ts : List φ) : Option ℕ → Option (List φ)
  | none => if ts.countP asleep = 0 then some ts else none
  | some i => if ts[i]?.any asleep then some (ts.set i woken) else none

/-- One call of `notify_one` after the other. -/
def notifyEach (asleep : φ → Bool) (woken : φ) : List φ → List (Option ℕ) → Option (List φ)
  | ts, [] => some ts
  | ts, w :: ws => (notifyOne asleep woken ts w).bind fun ts' => notifyEach asleep woken ts' ws

/-! ## Counting threads -/

/-- **A thread moves.** -/
theorem countP_set {ts : List φ} {i : ℕ} {p : φ} (f : φ → Bool) (q : φ) (h : ts[i]? = some p) :
    (ts.set i q).countP f + (if f p then 1 else 0) =
      ts.countP f + (if f q then 1 else 0) := by
  induction ts generalizing i with
  | nil => simp at h
  | cons t ts ih =>
    cases i with
    | zero =>
      simp only [List.getElem?_cons_zero, Option.some.injEq] at h
      subst h
      simp only [List.set_cons_zero, List.countP_cons]
      omega
    | succ i =>
      simp only [List.getElem?_cons_succ] at h
      have := ih h
      simp only [List.set_cons_succ, List.countP_cons]
      omega

theorem sum_set {ts : List φ} {i : ℕ} {p : φ} (f : φ → ℕ) (q : φ) (h : ts[i]? = some p) :
    ((ts.set i q).map f).sum + f p = (ts.map f).sum + f q := by
  induction ts generalizing i with
  | nil => simp at h
  | cons t ts ih =>
    cases i with
    | zero =>
      simp only [List.getElem?_cons_zero, Option.some.injEq] at h
      subst h
      simp only [List.set_cons_zero, List.map_cons, List.sum_cons]
      omega
    | succ i =>
      simp only [List.getElem?_cons_succ] at h
      have := ih h
      simp only [List.set_cons_succ, List.map_cons, List.sum_cons]
      omega

theorem countP_pos {ts : List φ} {i : ℕ} {p : φ} (f : φ → Bool) (h : ts[i]? = some p)
    (hp : f p = true) : 0 < ts.countP f :=
  List.countP_pos_iff.mpr ⟨p, List.mem_of_getElem? h, hp⟩

/-! ## Waking -/

section Notify

variable {asleep : φ → Bool} {woken : φ} {ts ts' : List φ}

theorem notifyOne_cases {w : Option ℕ} (h : notifyOne asleep woken ts w = some ts') :
    (w = none ∧ ts.countP asleep = 0 ∧ ts' = ts) ∨
      ∃ i p, w = some i ∧ ts[i]? = some p ∧ asleep p = true ∧ ts' = ts.set i woken := by
  cases w with
  | none =>
    simp only [notifyOne, Option.ite_none_right_eq_some, Option.some.injEq] at h
    exact .inl ⟨rfl, h.1, h.2.symm⟩
  | some i =>
    simp only [notifyOne, Option.ite_none_right_eq_some, Option.some.injEq,
      Option.any_eq_true] at h
    obtain ⟨⟨p, hp, hs⟩, rfl⟩ := h
    exact .inr ⟨i, p, rfl, hp, hs, rfl⟩

/-- What sleepers and woken threads have alike stays as it is, thread by thread. -/
theorem map_notifyOne {β : Type*} {w : Option ℕ} {g : φ → β}
    (h : notifyOne asleep woken ts w = some ts') (hg : ∀ p, asleep p = true → g p = g woken) :
    ts'.map g = ts.map g := by
  obtain ⟨-, -, rfl⟩ | ⟨i, p, -, hp, hs, rfl⟩ := notifyOne_cases h
  · rfl
  · obtain ⟨hi, rfl⟩ := List.getElem?_eq_some_iff.mp hp
    rw [List.map_set, ← hg _ hs, ← List.getElem_map g (h := by simpa using hi)]
    exact List.set_getElem_self _

theorem countP_of_map {f : φ → Bool} (h : ts'.map f = ts.map f) : ts'.countP f = ts.countP f := by
  have := congrArg (List.countP id) h
  rwa [List.countP_map, List.countP_map] at this

/-- **A call wakes one sleeper if there is one.** -/
theorem sleeping_notifyOne {w : Option ℕ} (h : notifyOne asleep woken ts w = some ts')
    (hw : asleep woken = false) : ts'.countP asleep = ts.countP asleep - 1 := by
  obtain ⟨-, h0, rfl⟩ | ⟨i, p, -, hp, hs, rfl⟩ := notifyOne_cases h
  · omega
  · have := countP_set asleep woken hp
    simp only [hs, hw, if_true] at this
    simp only [Bool.false_eq_true, if_false] at this
    omega

theorem map_notifyEach {β : Type*} {ws : List (Option ℕ)} {g : φ → β}
    (h : notifyEach asleep woken ts ws = some ts') (hg : ∀ p, asleep p = true → g p = g woken) :
    ts'.map g = ts.map g := by
  induction ws generalizing ts with
  | nil =>
    cases h
    rfl
  | cons w ws ih =>
    obtain ⟨t, ht, h⟩ := Option.bind_eq_some_iff.mp h
    exact (ih h).trans (map_notifyOne ht hg)

theorem sleeping_notifyEach {ws : List (Option ℕ)}
    (h : notifyEach asleep woken ts ws = some ts') (hw : asleep woken = false) :
    ts'.countP asleep = ts.countP asleep - ws.length := by
  induction ws generalizing ts with
  | nil => simp_all [notifyEach]
  | cons w ws ih =>
    obtain ⟨t, ht, h⟩ := Option.bind_eq_some_iff.mp h
    have := ih h
    have := sleeping_notifyOne ht hw
    simp only [List.length_cons]
    omega

end Notify

end CondVar
