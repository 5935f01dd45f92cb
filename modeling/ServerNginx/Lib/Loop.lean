import Mathlib.Data.Nat.Notation
import Mathlib.Tactic.TypeStar

set_option autoImplicit false

/-!
# Loops

An iteration of a loop goes on from a new state or stops with a result. `Ends step s r`: from state
`s` the loop stops with the result `r`, after finitely many iterations.

* `Ends.unique`: there is one result at most;
* `Ends.sat`: what every iteration preserves holds of the result;
* **`exists_ends`**: a loop with an invariant and a measure that decreases ends;
* `not_ends`: a loop that can always go on does not.
-/

namespace Loop

/-- The end of an iteration. -/
inductive Next (σ ρ : Type*)
  | again (s : σ)
  | stop (r : ρ)

variable {σ ρ : Type*}

/-- The state it goes on with has `I`, or the result has `Q`. -/
def Next.Sat (I : σ → Prop) (Q : ρ → Prop) : Next σ ρ → Prop
  | .again s => I s
  | .stop r => Q r

/-- At most `n` iterations. -/
def run (step : σ → Next σ ρ) : ℕ → σ → Option ρ
  | 0, _ => none
  | n + 1, s =>
    match step s with
    | .again t => run step n t
    | .stop r => some r

/-- The loop ends with the result `r`. -/
def Ends (step : σ → Next σ ρ) (s : σ) (r : ρ) : Prop := ∃ n, run step n s = some r

variable {step : σ → Next σ ρ} {s t : σ} {r r' : ρ} {I : σ → Prop} {Q : ρ → Prop}

theorem ends_of_stop (h : step s = .stop r) : Ends step s r' ↔ r' = r := by
  constructor
  · rintro ⟨n, hn⟩
    cases n with
    | zero => cases hn
    | succ n =>
      rw [run, h] at hn
      exact (Option.some.inj hn).symm
  · rintro rfl
    exact ⟨1, by rw [run, h]⟩

theorem ends_of_again (h : step s = .again t) : Ends step s r ↔ Ends step t r := by
  constructor
  · rintro ⟨n, hn⟩
    cases n with
    | zero => cases hn
    | succ n =>
      rw [run, h] at hn
      exact ⟨n, hn⟩
  · rintro ⟨n, hn⟩
    exact ⟨n + 1, by rw [run, h]; exact hn⟩

/-- **Partial correctness.** -/
theorem Ends.sat (hstep : ∀ s, I s → (step s).Sat I Q) (hs : I s) (h : Ends step s r) : Q r := by
  obtain ⟨n, hn⟩ := h
  induction n generalizing s with
  | zero => cases hn
  | succ n ih =>
    have hnext := hstep s hs
    rw [run] at hn
    cases hst : step s with
    | again t =>
      rw [hst] at hn hnext
      exact ih hnext hn
    | stop r₀ =>
      rw [hst] at hn hnext
      cases hn
      exact hnext

theorem Ends.unique (h : Ends step s r) (h' : Ends step s r') : r = r' := by
  refine h.sat (I := fun s => Ends step s r') (Q := fun q => q = r') (fun s hs => ?_) h'
  cases hst : step s with
  | again t => exact (ends_of_again hst).mp hs
  | stop r₀ => exact ((ends_of_stop hst).mp hs).symm

/-- **Total correctness**: the measure `m` decreases while the loop goes on. -/
theorem exists_ends (m : σ → ℕ) (hstep : ∀ s, I s → (step s).Sat (fun t => I t ∧ m t < m s) Q)
    (hs : I s) : ∃ r, Ends step s r ∧ Q r := by
  induction hm : m s using Nat.strongRecOn generalizing s with
  | ind k ih =>
    have hnext := hstep s hs
    cases hst : step s with
    | again t =>
      rw [hst] at hnext
      obtain ⟨r, hr, hq⟩ := ih (m t) (hm ▸ hnext.2) hnext.1 rfl
      exact ⟨r, (ends_of_again hst).mpr hr, hq⟩
    | stop r =>
      rw [hst] at hnext
      exact ⟨r, (ends_of_stop hst).mpr rfl, hnext⟩

/-- **A loop that can always go on.** -/
theorem not_ends (hstep : ∀ s, I s → ∃ t, step s = .again t ∧ I t) (hs : I s) :
    ¬ Ends step s r := by
  refine fun h => h.sat (I := I) (Q := fun _ => False) (fun s hs => ?_) hs
  obtain ⟨t, ht, hi⟩ := hstep s hs
  rw [ht]
  exact hi

end Loop
