import Mathlib.Data.List.Nodup
import Mathlib.Data.List.Perm.Basic
import Mathlib.Logic.Function.Basic

set_option autoImplicit false

/-!
# Handles and their owners

A system hands out handles; the program keeps each in one owner, beside those of a fixed `base`.
`Covered f base opens`: the open handles are those that the owners show, one each, and those of
`base`. A handle that is open and shown by nobody can never be closed.

* `Covered.take`, `Covered.drop`: an owner without a handle gets one, and gives it back;
* `Covered.perm`: the owners determine what is open;
* `not_covered_overwrite`, `not_covered_clear`: an owner that loses its handle leaves it open.
-/

namespace Handles

variable {α β : Type*}

/-- The open handles are those shown by the owners and those of `base`. -/
def Covered (f : α → Option β) (base opens : List β) : Prop :=
  ∃ own : List α, own.Nodup ∧ (∀ a, a ∈ own ↔ (f a).isSome) ∧
    opens.Perm (own.filterMap f ++ base)

variable {f g : α → Option β} {base opens opens' : List β} {a : α} {x y : β}

theorem covered_base (base : List β) : Covered (fun _ : α => none) base base :=
  ⟨[], List.nodup_nil, fun _ => by simp, .refl _⟩

theorem Covered.perm (h : Covered f base opens) (h' : Covered f base opens') :
    opens.Perm opens' := by
  obtain ⟨own, hn, hm, hp⟩ := h
  obtain ⟨own', hn', hm', hp'⟩ := h'
  have hown : own.Perm own' :=
    (List.perm_ext_iff_of_nodup hn hn').mpr fun a => (hm a).trans (hm' a).symm
  exact hp.trans (((hown.filterMap f).append_right base).trans hp'.symm)

theorem Covered.mem (h : Covered f base opens) (ha : f a = some x) : x ∈ opens := by
  obtain ⟨own, -, hm, hp⟩ := h
  refine hp.mem_iff.mpr (List.mem_append_left _ (List.mem_filterMap.mpr ⟨a, ?_, ha⟩))
  exact (hm a).mpr (by simp [ha])

variable [DecidableEq α]

theorem filterMap_update {own : List α} (ha : a ∉ own) (v : Option β) :
    own.filterMap (Function.update f a v) = own.filterMap f := by
  apply List.filterMap_congr
  intro b hb
  have hne : b ≠ a := by
    rintro rfl
    exact ha hb
  exact Function.update_of_ne hne v f

theorem Covered.take (h : Covered f base opens) (ha : f a = none) (x : β) :
    Covered (Function.update f a (some x)) base (x :: opens) := by
  obtain ⟨own, hn, hm, hp⟩ := h
  have hown : a ∉ own := by
    intro hmem
    have := (hm a).mp hmem
    rw [ha] at this
    cases this
  refine ⟨a :: own, List.nodup_cons.mpr ⟨hown, hn⟩, fun b => ?_, ?_⟩
  · by_cases hb : b = a
    · subst hb
      simp
    · rw [Function.update_of_ne hb, ← hm b]
      simp [hb]
  · rw [List.filterMap_cons_some (Function.update_self ..), filterMap_update hown]
    exact hp.cons x

variable [DecidableEq β]

theorem Covered.drop (h : Covered f base opens) (ha : f a = some x) :
    Covered (Function.update f a none) base (opens.erase x) := by
  obtain ⟨own, hn, hm, hp⟩ := h
  have hmem : a ∈ own := (hm a).mpr (by simp [ha])
  have hnot : a ∉ own.erase a := fun h => (hn.mem_erase_iff.mp h).1 rfl
  refine ⟨own.erase a, hn.erase a, fun b => ?_, ?_⟩
  · rw [hn.mem_erase_iff, hm b]
    by_cases hb : b = a
    · subst hb
      simp
    · rw [Function.update_of_ne hb]
      simp [hb]
  · rw [filterMap_update hnot]
    have hopens : opens.Perm (x :: ((own.erase a).filterMap f ++ base)) := by
      have hcons := (List.perm_cons_erase hmem).filterMap f
      rw [List.filterMap_cons_some ha] at hcons
      exact hp.trans (hcons.append_right base)
    have := hopens.erase x
    rwa [List.erase_cons_head] at this

/-- An owner that forgets its handle leaves it open. -/
theorem not_covered_clear (h : Covered f base opens) (ha : f a = some x) :
    ¬ Covered (Function.update f a none) base opens := by
  intro hc
  have hlen := ((h.drop ha).perm hc).length_eq
  have := List.length_erase_of_mem (h.mem ha)
  have := List.length_pos_of_mem (h.mem ha)
  omega

/-- An owner that gets a handle over the one it has leaves that one open. -/
theorem not_covered_overwrite (h : Covered f base opens) (ha : f a = some x) :
    ¬ Covered (Function.update f a (some y)) base (y :: opens) := by
  intro hc
  have htake := (h.drop ha).take (Function.update_self ..) y
  rw [Function.update_idem] at htake
  have hlen := (htake.perm hc).length_eq
  have := List.length_erase_of_mem (h.mem ha)
  have := List.length_pos_of_mem (h.mem ha)
  simp only [List.length_cons] at hlen
  omega

end Handles
