import Mathlib.Data.List.Induction
import Mathlib.Data.Nat.Notation

set_option autoImplicit false

/-!
# Lexical resolution of paths

A relative path is a list of components: nothing (`.` or an empty component), the parent (`..`) or
a name. `resolve` cancels a name against the parent behind it; `walk d` follows a path from depth
`d` below the start and fails where it climbs above.

**`head?_resolve_eq_name_iff`**: a path resolves into the directory `a` exactly when, after some
way back to the start, it enters `a` and never climbs out of it.
-/

namespace Path

variable {α : Type*}

/-- A component of a path. -/
inductive Comp (α : Type*)
  | here
  | up
  | name (a : α)
  deriving DecidableEq, Repr

/-- One more component on top of a resolved path, the last component first. -/
def push : List (Comp α) → Comp α → List (Comp α)
  | s, .here => s
  | .name _ :: s, .up => s
  | s, .up => .up :: s
  | s, .name a => .name a :: s

/-- The resolved path. -/
def resolve (cs : List (Comp α)) : List (Comp α) := (cs.foldl push []).reverse

/-- The depth at the end of a path that starts at depth `d` and never climbs above the start. -/
def walk : ℕ → List (Comp α) → Option ℕ
  | d, [] => some d
  | d, .here :: cs => walk d cs
  | 0, .up :: _ => none
  | d + 1, .up :: cs => walk d cs
  | d, .name _ :: cs => walk (d + 1) cs

/-- The path leads back to the start, then into `a`, and stays there. -/
def Enters (a : α) (cs : List (Comp α)) : Prop :=
  ∃ p q, cs = p ++ .name a :: q ∧ walk 0 p = some 0 ∧ (walk 0 q).isSome

variable {a : α} {c : Comp α} {s : List (Comp α)}

theorem walk_append (p q : List (Comp α)) : ∀ d : ℕ,
    walk d (p ++ q) = (walk d p).bind fun e => walk e q := by
  induction p with
  | nil => exact fun _ => rfl
  | cons c p ih =>
    intro d
    cases c with
    | here => exact ih d
    | name a => exact ih (d + 1)
    | up =>
      cases d with
      | zero => rfl
      | succ d => exact ih d

theorem foldl_push_of_walk (cs : List (Comp α)) : ∀ {d e : ℕ} (ns : List α), ns.length = d →
    walk d cs = some e → ∃ ns' : List α, ns'.length = e ∧
      cs.foldl push (ns.map .name ++ s) = ns'.map .name ++ s := by
  induction cs with
  | nil =>
    intro d e ns hd hw
    cases hw
    exact ⟨ns, hd, rfl⟩
  | cons c cs ih =>
    intro d e ns hd hw
    cases c with
    | here => exact ih ns hd hw
    | name a => exact ih (a :: ns) (by simpa using hd) hw
    | up =>
      cases ns with
      | nil =>
        cases hd
        cases hw
      | cons n ns =>
        cases hd
        exact ih ns rfl hw

theorem getLast?_push_of_up (hs : s.getLast? = some .up) : (push s c).getLast? = some .up := by
  cases s with
  | nil => cases hs
  | cons d s =>
    cases c with
    | here => exact hs
    | name a => cases d <;> exact List.getLast?_cons_cons.trans hs
    | up =>
      cases d with
      | here => exact List.getLast?_cons_cons.trans hs
      | up => exact List.getLast?_cons_cons.trans hs
      | name n =>
        cases s with
        | nil => cases hs
        | cons d s => exact List.getLast?_cons_cons.symm.trans hs

/-- A name at the bottom of the stack has been there since the stack was empty. -/
theorem getLast?_of_push (hs : s ≠ []) (h : (push s c).getLast? = some (.name a)) :
    s.getLast? = some (.name a) := by
  obtain ⟨d, s, rfl⟩ := List.exists_cons_of_ne_nil hs
  cases c with
  | here => exact h
  | name a => cases d <;> exact List.getLast?_cons_cons.symm.trans h
  | up =>
    cases d with
    | here => exact List.getLast?_cons_cons.symm.trans h
    | up => exact List.getLast?_cons_cons.symm.trans h
    | name n =>
      cases s with
      | nil => cases h
      | cons d s => exact List.getLast?_cons_cons.trans h

theorem getLast?_of_walk_eq_none (cs : List (Comp α)) (h : walk 0 cs = none) :
    (cs.foldl push []).getLast? = some .up := by
  induction cs using List.reverseRecOn with
  | nil => cases h
  | append_singleton cs c ih =>
    rw [List.foldl_append, List.foldl_cons, List.foldl_nil]
    rw [walk_append] at h
    cases hw : walk 0 cs with
    | none => exact getLast?_push_of_up (ih hw)
    | some e =>
      obtain ⟨ns, hlen, hs⟩ := foldl_push_of_walk (s := []) cs [] rfl hw
      rw [List.map_nil, List.append_nil, List.append_nil] at hs
      rw [hw, Option.bind_some] at h
      cases c with
      | here => cases h
      | name a => cases h
      | up =>
        cases e with
        | succ e => cases h
        | zero =>
          rw [hs, List.eq_nil_of_length_eq_zero hlen]
          rfl

theorem walk_of_foldl_push_eq_nil {cs : List (Comp α)} (h : cs.foldl push [] = []) :
    walk 0 cs = some 0 := by
  cases hw : walk 0 cs with
  | none =>
    have := getLast?_of_walk_eq_none cs hw
    rw [h] at this
    cases this
  | some e =>
    obtain ⟨ns, hlen, hs⟩ := foldl_push_of_walk (s := []) cs [] rfl hw
    rw [List.map_nil, List.append_nil, List.append_nil, h] at hs
    rw [← hlen, List.map_eq_nil_iff.mp hs.symm, List.length_nil]

theorem foldl_push_of_enters {p q : List (Comp α)} {e : ℕ} (hp : walk 0 p = some 0)
    (hq : walk 0 q = some e) :
    ∃ ns : List α, ns.length = e ∧
      (p ++ .name a :: q).foldl push [] = ns.map .name ++ [.name a] := by
  obtain ⟨ns, hlen, hs⟩ := foldl_push_of_walk (s := []) p [] rfl hp
  rw [List.eq_nil_of_length_eq_zero hlen, List.map_nil, List.append_nil] at hs
  obtain ⟨ns', hlen', hs'⟩ := foldl_push_of_walk (s := [.name a]) q [] rfl hq
  refine ⟨ns', hlen', ?_⟩
  rw [List.foldl_append, hs, List.foldl_cons]
  exact hs'

theorem enters_of_getLast? (cs : List (Comp α))
    (h : (cs.foldl push []).getLast? = some (.name a)) : Enters a cs := by
  induction cs using List.reverseRecOn with
  | nil => cases h
  | append_singleton cs c ih =>
    rw [List.foldl_append, List.foldl_cons, List.foldl_nil] at h
    by_cases hnil : cs.foldl push [] = []
    · rw [hnil] at h
      cases c with
      | here => cases h
      | up => cases h
      | name b =>
        cases h
        exact ⟨cs, [], by simp, walk_of_foldl_push_eq_nil hnil, rfl⟩
    · obtain ⟨p, q, rfl, hp, hq⟩ := ih (getLast?_of_push hnil h)
      obtain ⟨e, hq⟩ := Option.isSome_iff_exists.mp hq
      obtain ⟨ns, hlen, hs⟩ := foldl_push_of_enters (a := a) hp hq
      refine ⟨p, q ++ [c], by simp, hp, ?_⟩
      rw [walk_append, hq, Option.bind_some]
      cases c with
      | here => rfl
      | name b => rfl
      | up =>
        cases e with
        | succ e => rfl
        | zero =>
          rw [hs, List.eq_nil_of_length_eq_zero hlen] at h
          cases h

theorem enters_cons_here {cs : List (Comp α)} : Enters a (.here :: cs) ↔ Enters a cs := by
  constructor
  · rintro ⟨p, q, hcs, hp, hq⟩
    cases p with
    | nil => cases hcs
    | cons c p =>
      cases hcs
      exact ⟨p, q, rfl, hp, hq⟩
  · rintro ⟨p, q, rfl, hp, hq⟩
    exact ⟨.here :: p, q, rfl, hp, hq⟩

/-- A path that starts in `a` stays there, or goes back to the start exactly and enters `a`
again. -/
theorem enters_cons_name {cs : List (Comp α)} : Enters a (.name a :: cs) ↔
    (walk 0 cs).isSome ∨
      ∃ p q, cs = p ++ .name a :: q ∧ walk 1 p = some 0 ∧ (walk 0 q).isSome := by
  constructor
  · rintro ⟨p, q, hcs, hp, hq⟩
    cases p with
    | nil =>
      cases hcs
      exact Or.inl hq
    | cons c p =>
      cases hcs
      exact Or.inr ⟨p, q, rfl, hp, hq⟩
  · rintro (hq | ⟨p, q, rfl, hp, hq⟩)
    · exact ⟨[], cs, rfl, rfl, hq⟩
    · exact ⟨.name a :: p, q, rfl, hp, hq⟩

/-- **The directory a path resolves into.** -/
theorem head?_resolve_eq_name_iff (cs : List (Comp α)) :
    (resolve cs).head? = some (.name a) ↔ Enters a cs := by
  rw [resolve, List.head?_reverse]
  refine ⟨enters_of_getLast? cs, ?_⟩
  rintro ⟨p, q, rfl, hp, hq⟩
  obtain ⟨e, hq⟩ := Option.isSome_iff_exists.mp hq
  obtain ⟨ns, -, hs⟩ := foldl_push_of_enters (a := a) hp hq
  rw [hs, List.getLast?_concat]

end Path
