import Mathlib.Tactic.TypeStar

set_option autoImplicit false

/-!
# Postconditions of fallible computations

`Post r E P`: the computation `r` ends in a result with `P` or in an error with `E`. The rules
follow the way computations are put together.

`Both R r r'` is the same of two computations: they end in results related by `R`, or in one error.
-/

/-- The result has `P`, or the error has `E`. -/
def Post {ε α : Type*} (r : Except ε α) (E : ε → Prop) (P : α → Prop) : Prop :=
  match r with
  | .ok a => P a
  | .error e => E e

namespace Post

universe u

variable {ε : Type*} {α β : Type u} {r : Except ε α} {E : ε → Prop} {P Q : α → Prop}

theorem ok_iff {a : α} : Post (.ok a : Except ε α) E P ↔ P a := Iff.rfl

theorem of_ok (h : Post r E P) {a : α} (hr : r = .ok a) : P a := by
  rw [hr] at h
  exact h

theorem of_error (h : Post r E P) {e : ε} (hr : r = .error e) : E e := by
  rw [hr] at h
  exact h

theorem mono (h : Post r E P) (hPQ : ∀ a, P a → Q a) : Post r E Q := by
  cases r with
  | error e => exact h
  | ok a => exact hPQ a h

theorem weaken {F : ε → Prop} (h : Post r E P) (hEF : ∀ e, E e → F e) : Post r F P := by
  cases r with
  | error e => exact hEF e h
  | ok a => exact h

theorem bind {f : α → Except ε β} {R : β → Prop} (h : Post r E P)
    (hf : ∀ a, P a → Post (f a) E R) : Post (r >>= f) E R := by
  cases r with
  | error e => exact h
  | ok a => exact hf a h

end Post

/-! ## Two computations -/

/-- Both end in results with `R`, or in the same error. -/
def Both {ε α β : Type*} (R : α → β → Prop) : Except ε α → Except ε β → Prop
  | .ok a, .ok b => R a b
  | .error e, .error e' => e = e'
  | _, _ => False

namespace Both

universe u

variable {ε : Type*} {α β α' β' : Type u} {r : Except ε α} {s : Except ε β} {R S : α → β → Prop}

theorem ok_iff {a : α} {b : β} : Both R (.ok a : Except ε α) (.ok b) ↔ R a b := Iff.rfl

theorem refl (e : ε) : Both R (.error e) (.error e) := rfl

theorem mono (h : Both R r s) (hRS : ∀ a b, R a b → S a b) : Both S r s := by
  cases r with
  | error e =>
    cases s with
    | error e' => exact h
    | ok b => exact h
  | ok a =>
    cases s with
    | error e' => exact h
    | ok b => exact hRS a b h

theorem bind {T : α' → β' → Prop} {f : α → Except ε α'} {g : β → Except ε β'} (h : Both R r s)
    (hf : ∀ a b, R a b → Both T (f a) (g b)) : Both T (r >>= f) (s >>= g) := by
  cases r with
  | error e =>
    cases s with
    | error e' => exact h
    | ok b => exact h.elim
  | ok a =>
    cases s with
    | error e' => exact h.elim
    | ok b => exact hf a b h

theorem map_eq {γ : Type*} {f : α → γ} {g : β → γ} (h : Both (fun a b => f a = g b) r s) :
    r.map f = s.map g := by
  cases r with
  | error e =>
    cases s with
    | error e' => exact congrArg Except.error h
    | ok b => exact h.elim
  | ok a =>
    cases s with
    | error e' => exact h.elim
    | ok b => exact congrArg Except.ok h

end Both
