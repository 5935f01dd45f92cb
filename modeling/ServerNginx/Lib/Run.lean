import Mathlib.Data.List.Basic
import Mathlib.Data.Nat.Notation

set_option autoImplicit false

/-!
# Runs of a partial labelled transition function

`step s i` is the state after input `i` with the outputs it makes, `none` where the input has no
defined result. `run` feeds a list of inputs. The rules below carry a property along a run:

* `Guarded step g s is`: every step of the run meets the guard `g`;
* `Always step p s is`: every state of the run, the first and the last included, has `p`;
* `always_of_guarded`: what guarded steps preserve holds of every state;
* `always_iff_guarded`: where a step keeps `p` exactly under the guard, so does a run;
* `guarded_congr`: guards that agree wherever an invariant holds;
* `run_induct`: a relation between past inputs, past outputs and the state;
* `logged step`: the same runs, with the outputs so far kept beside the state.
-/

namespace Run

variable {σ ι ω : Type*}

/-- Feed a list of inputs, collecting the outputs. -/
def run (step : σ → ι → Option (σ × List ω)) : σ → List ι → Option (σ × List ω)
  | s, [] => some (s, [])
  | s, i :: is => (step s i).bind fun p => (run step p.1 is).map fun q => (q.1, p.2 ++ q.2)

/-- Every step of the run meets `g`. -/
def Guarded (step : σ → ι → Option (σ × List ω)) (g : σ → ι → Prop) : σ → List ι → Prop
  | _, [] => True
  | s, i :: is => g s i ∧ ∀ s' o, step s i = some (s', o) → Guarded step g s' is

/-- Every state of the run has `p`. -/
def Always (step : σ → ι → Option (σ × List ω)) (p : σ → Prop) : σ → List ι → Prop
  | s, [] => p s
  | s, i :: is => p s ∧ ∀ s' o, step s i = some (s', o) → Always step p s' is

/-- The transition function with the outputs so far beside the state. -/
def logged (step : σ → ι → Option (σ × List ω)) (s : σ × List ω) (i : ι) :
    Option ((σ × List ω) × List ω) :=
  (step s.1 i).map fun q => ((q.1, s.2 ++ q.2), q.2)

/-- The input has a defined result. -/
def Defined (step : σ → ι → Option (σ × List ω)) (s : σ) (i : ι) : Prop := (step s i).isSome

instance (step : σ → ι → Option (σ × List ω)) (s : σ) (i : ι) : Decidable (Defined step s i) :=
  inferInstanceAs (Decidable (_ = true))

variable {step : σ → ι → Option (σ × List ω)} {g v : σ → ι → Prop} {p : σ → Prop}

@[simp] theorem run_nil (s : σ) : run step s [] = some (s, []) := rfl

theorem run_cons_eq_some {s s'' : σ} {i : ι} {is : List ι} {os : List ω} :
    run step s (i :: is) = some (s'', os) ↔ ∃ s' o o', step s i = some (s', o) ∧
      run step s' is = some (s'', o') ∧ os = o ++ o' := by
  constructor
  · intro h
    obtain ⟨⟨s', o⟩, hs, h⟩ := Option.bind_eq_some_iff.mp h
    obtain ⟨⟨t, o'⟩, hr, h⟩ := Option.map_eq_some_iff.mp h
    cases h
    exact ⟨s', o, o', hs, hr, rfl⟩
  · rintro ⟨s', o, o', hs, hr, rfl⟩
    simp [run, hs, hr]

theorem run_append_eq_some {s s'' : σ} {is js : List ι} {os : List ω} :
    run step s (is ++ js) = some (s'', os) ↔ ∃ s' o o', run step s is = some (s', o) ∧
      run step s' js = some (s'', o') ∧ os = o ++ o' := by
  induction is generalizing s os with
  | nil => simp
  | cons i is ih =>
    simp only [List.cons_append, run_cons_eq_some, ih]
    constructor
    · rintro ⟨t, o, o', hs, ⟨u, o₁, o₂, hr, hr', rfl⟩, rfl⟩
      exact ⟨u, o ++ o₁, o₂, ⟨t, o, o₁, hs, hr, rfl⟩, hr', (List.append_assoc ..).symm⟩
    · rintro ⟨u, o, o₂, ⟨t, o₀, o₁, hs, hr, rfl⟩, hr', rfl⟩
      exact ⟨t, o₀, o₁ ++ o₂, hs, ⟨u, o₁, o₂, hr, hr', rfl⟩, List.append_assoc ..⟩

theorem logged_eq_some {s : σ × List ω} {i : ι} {t : σ × List ω} {o : List ω} :
    logged step s i = some (t, o) ↔ ∃ s', step s.1 i = some (s', o) ∧ t = (s', s.2 ++ o) := by
  constructor
  · intro h
    obtain ⟨⟨s', o'⟩, hs, h⟩ := Option.map_eq_some_iff.mp h
    cases h
    exact ⟨s', hs, rfl⟩
  · rintro ⟨s', hs, rfl⟩
    simp [logged, hs]

/-- Guards are checked by running. -/
instance decidableGuarded [∀ s i, Decidable (g s i)] :
    ∀ s is, Decidable (Guarded step g s is)
  | _, [] => isTrue trivial
  | s, i :: is =>
    match hs : step s i with
    | none => decidable_of_iff (g s i) (by simp [Guarded, hs])
    | some (s', o) =>
      have := decidableGuarded s' is
      decidable_of_iff (g s i ∧ Guarded step g s' is) (by simp [Guarded, hs])

instance decidableAlways [∀ s, Decidable (p s)] : ∀ s is, Decidable (Always step p s is)
  | s, [] => inferInstanceAs (Decidable (p s))
  | s, i :: is =>
    match hs : step s i with
    | none => decidable_of_iff (p s) (by simp [Always, hs])
    | some (s', o) =>
      have := decidableAlways s' is
      decidable_of_iff (p s ∧ Always step p s' is) (by simp [Always, hs])

theorem exists_of_any {α : Type*} {x : Option α} {f : α → Bool} (h : x.any f = true) :
    ∃ a, x = some a ∧ f a = true := by
  cases x with
  | none => cases h
  | some a => exact ⟨a, rfl, h⟩

theorem guarded_true : ∀ (s : σ) (is : List ι), Guarded step (fun _ _ => True) s is
  | _, [] => trivial
  | _, _ :: is => ⟨trivial, fun s' _ _ => guarded_true s' is⟩

theorem Guarded.imp (h : ∀ s i, g s i → v s i) :
    ∀ {s : σ} {is : List ι}, Guarded step g s is → Guarded step v s is
  | _, [], _ => trivial
  | _, _ :: _, hg => ⟨h _ _ hg.1, fun s' o hs => (hg.2 s' o hs).imp h⟩

theorem Guarded.and : ∀ {s : σ} {is : List ι}, Guarded step g s is → Guarded step v s is →
    Guarded step (fun s i => g s i ∧ v s i) s is
  | _, [], _, _ => trivial
  | _, _ :: _, hg, hv => ⟨⟨hg.1, hv.1⟩, fun s' o hs => (hg.2 s' o hs).and (hv.2 s' o hs)⟩

theorem Always.imp {q : σ → Prop} (h : ∀ s, p s → q s) :
    ∀ {s : σ} {is : List ι}, Always step p s is → Always step q s is
  | _, [], hp => h _ hp
  | _, _ :: _, hp => ⟨h _ hp.1, fun s' o hs => (hp.2 s' o hs).imp h⟩

theorem Always.head : ∀ {s : σ} {is : List ι}, Always step p s is → p s
  | _, [], hp => hp
  | _, _ :: _, hp => hp.1

theorem Always.last : ∀ {s t : σ} {is : List ι} {os : List ω}, Always step p s is →
    run step s is = some (t, os) → p t
  | s, t, [], _, hp, hr => by
    cases hr
    exact hp
  | s, t, i :: is, _, hp, hr => by
    obtain ⟨s', o, o', hs, hr', -⟩ := run_cons_eq_some.mp hr
    exact (hp.2 s' o hs).last hr'

/-- **Invariants along runs.** What guarded steps preserve holds of every state of a run. -/
theorem always_of_guarded
    (hstep : ∀ s i s' o, p s → g s i → step s i = some (s', o) → p s') :
    ∀ {s : σ} {is : List ι}, p s → Guarded step g s is → Always step p s is
  | _, [], hp, _ => hp
  | _, _ :: _, hp, hg => ⟨hp, fun s' o hs =>
      always_of_guarded hstep (hstep _ _ _ _ hp hg.1 hs) (hg.2 s' o hs)⟩

/-- **Exact guards.** Where every valid step from an invariant state with `p` is defined and keeps
`p` exactly under the guard, a valid run has `p` throughout exactly when all its steps meet the
guard. -/
theorem always_iff_guarded {I : σ → Prop}
    (hstep : ∀ s i, I s → p s → v s i →
      ∃ s' o, step s i = some (s', o) ∧ (p s' ↔ g s i) ∧ (p s' → I s')) :
    ∀ {s : σ} {is : List ι}, I s → p s → Guarded step v s is →
      (Always step p s is ↔ Guarded step g s is)
  | _, [], _, hp, _ => by simp [Always, Guarded, hp]
  | s, i :: is, hi, hp, hv => by
    obtain ⟨s', o, hs, hiff, hinv⟩ := hstep s i hi hp hv.1
    have next : ∀ t u, step s i = some (t, u) ↔ t = s' ∧ u = o := by
      simp [hs, eq_comm]
    have ih : p s' → (Always step p s' is ↔ Guarded step g s' is) := fun hp' =>
      always_iff_guarded hstep (hinv hp') hp' (hv.2 s' o hs)
    simp only [Always, Guarded, next, and_imp, forall_eq_apply_imp_iff, forall_eq, hp, true_and]
    constructor
    · intro ha
      have hp' := ha.head
      exact ⟨hiff.mp hp', (ih hp').mp ha⟩
    · rintro ⟨hg, hr⟩
      exact (ih (hiff.mpr hg)).mpr hr

/-- Guards that agree on the states of an invariant agree on runs from it. -/
theorem guarded_congr {I : σ → Prop} (hI : ∀ s i s' o, I s → step s i = some (s', o) → I s')
    (h : ∀ s i, I s → (g s i ↔ v s i)) :
    ∀ {s : σ} {is : List ι}, I s → (Guarded step g s is ↔ Guarded step v s is)
  | _, [], _ => Iff.rfl
  | s, i :: _, hs => and_congr (h s i hs) <| forall₃_congr fun s' o hstep =>
      guarded_congr hI h (hI s i s' o hs hstep)

/-- A guard that an invariant of the guarded steps gives. -/
theorem Guarded.of_inv {I : σ → Prop}
    (hI : ∀ s i s' o, I s → g s i → step s i = some (s', o) → I s') (h : ∀ s i, I s → v s i) :
    ∀ {s : σ} {is : List ι}, I s → Guarded step g s is → Guarded step v s is
  | _, [], _, _ => trivial
  | s, i :: _, hs, hg => ⟨h s i hs, fun s' o hstep =>
      (hg.2 s' o hstep).of_inv hI h (hI s i s' o hs hg.1 hstep)⟩

/-- **Histories.** A relation between the inputs so far, the outputs so far and the state that
guarded steps preserve holds at the end of every guarded run. -/
theorem run_induct {R : List ι → List ω → σ → Prop}
    (hstep : ∀ is os s i s' o, R is os s → g s i → step s i = some (s', o) →
      R (is ++ [i]) (os ++ o) s') :
    ∀ {is₀ : List ι} {os₀ : List ω} {s s' : σ} {is : List ι} {os : List ω}, R is₀ os₀ s →
      Guarded step g s is → run step s is = some (s', os) → R (is₀ ++ is) (os₀ ++ os) s'
  | is₀, os₀, s, s', [], os, hR, _, hr => by
    cases hr
    simpa using hR
  | is₀, os₀, s, s', i :: is, os, hR, hg, hr => by
    obtain ⟨t, o, o', hs, hr', rfl⟩ := run_cons_eq_some.mp hr
    have := run_induct hstep (hstep _ _ _ _ _ _ hR hg.1 hs) (hg.2 t o hs) hr'
    simpa using this

theorem exists_run (hdef : ∀ s i, p s → g s i → ∃ s' o, step s i = some (s', o) ∧ p s') :
    ∀ {s : σ} {is : List ι}, p s → Guarded step g s is →
      ∃ s' os, run step s is = some (s', os) ∧ p s'
  | s, [], hp, _ => ⟨s, [], rfl, hp⟩
  | s, i :: is, hp, hg => by
    obtain ⟨s', o, hs, hp'⟩ := hdef s i hp hg.1
    obtain ⟨s'', os, hr, hp''⟩ := exists_run hdef hp' (hg.2 s' o hs)
    exact ⟨s'', o ++ os, run_cons_eq_some.mpr ⟨s', o, os, hs, hr, rfl⟩, hp''⟩

end Run
