import Mathlib.Data.List.Nodup
import Mathlib.Order.Lattice

set_option autoImplicit false

/-!
# Taking turns

Entries of an ascending list `l` are served one by one, `h` so far.

* **`concat_prefix_iff`**: with one more served, the order is still that of `l` exactly when it is
  the least that was not served.
-/

namespace Turns

variable {α : Type*} [LinearOrder α] {l h : List α} {a : α}

/-- **Whose turn it is.** -/
theorem concat_prefix_iff (hl : l.Pairwise (· < ·)) (hh : h <+: l) (ha : a ∈ l) (hn : a ∉ h) :
    h ++ [a] <+: l ↔ ∀ b ∈ l, b ∉ h → a ≤ b := by
  obtain ⟨t, rfl⟩ := hh
  have hat : a ∈ t := (List.mem_append.mp ha).resolve_left hn
  obtain ⟨b, t, rfl⟩ := List.exists_cons_of_ne_nil (List.ne_nil_of_mem hat)
  obtain ⟨-, ht, hlt⟩ := List.pairwise_append.mp hl
  have hle : ∀ c ∈ b :: t, b ≤ c := by
    intro c hc
    rcases List.mem_cons.mp hc with rfl | hc
    · exact le_rfl
    · exact le_of_lt (List.rel_of_pairwise_cons ht hc)
  have hb : b ∉ h := fun hmem => lt_irrefl b (hlt b hmem b List.mem_cons_self)
  rw [List.prefix_append_right_inj, List.cons_prefix_cons]
  constructor
  · rintro ⟨rfl, -⟩ c hc hnc
    exact hle c ((List.mem_append.mp hc).resolve_left hnc)
  · intro hleast
    exact ⟨le_antisymm (hleast b (List.mem_append_right _ List.mem_cons_self) hb) (hle a hat),
      List.nil_prefix⟩

end Turns
