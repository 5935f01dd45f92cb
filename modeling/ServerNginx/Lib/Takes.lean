import Mathlib.Algebra.BigOperators.Group.List.Basic
import Mathlib.Algebra.GroupWithZero.Nat
import Mathlib.Data.List.Nodup

set_option autoImplicit false

/-!
# Writes that begin at the front

A writer that offers the same list `l` again and again, of which `ks` entries are accepted each
time, writes `takes l ks`.

* `length_takes`: how much that is;
* **`takes_prefix_iff`**: it is a prefix of a list without duplicates exactly when one write at
  most is not empty.
-/

namespace Takes

variable {α : Type*} {l : List α} {k : ℕ} {ks : List ℕ}

/-- What is accepted of `l`, write by write. -/
def takes (l : List α) (ks : List ℕ) : List α := ks.flatMap fun k => l.take k

/-- The number of writes that are not empty. -/
def writes (ks : List ℕ) : ℕ := ks.countP (0 < ·)

@[simp] theorem takes_nil : takes l [] = [] := rfl

@[simp] theorem takes_cons : takes l (k :: ks) = l.take k ++ takes l ks := List.flatMap_cons

@[simp] theorem takes_append (ks js : List ℕ) : takes l (ks ++ js) = takes l ks ++ takes l js :=
  List.flatMap_append

@[simp] theorem writes_nil : writes [] = 0 := rfl

@[simp] theorem writes_append (ks js : List ℕ) : writes (ks ++ js) = writes ks + writes js :=
  List.countP_append

theorem writes_cons : writes (k :: ks) = writes ks + if 0 < k then 1 else 0 := by
  simp [writes, List.countP_cons]

theorem writes_eq_zero_iff : writes ks = 0 ↔ ∀ k ∈ ks, k = 0 := by
  simp [writes, List.countP_eq_zero]

theorem length_takes (h : ∀ k ∈ ks, k ≤ l.length) : (takes l ks).length = ks.sum := by
  induction ks with
  | nil => rfl
  | cons k ks ih =>
    obtain ⟨hk, hks⟩ := List.forall_mem_cons.mp h
    rw [takes_cons, List.length_append, List.length_take, ih hks, List.sum_cons,
      Nat.min_eq_left hk]

theorem takes_eq_nil (h : writes ks = 0) : takes l ks = [] := by
  rw [writes_eq_zero_iff] at h
  rw [takes, List.flatMap_eq_nil_iff]
  intro k hk
  rw [h k hk, List.take_zero]

theorem head_mem_takes {a : α} (hw : writes ks ≠ 0) : a ∈ takes (a :: l) ks := by
  have hex : ∃ k ∈ ks, 0 < k := by
    by_contra hno
    refine hw (writes_eq_zero_iff.mpr fun k hk => ?_)
    by_contra hk0
    exact hno ⟨k, hk, Nat.pos_of_ne_zero hk0⟩
  obtain ⟨k, hk, hpos⟩ := hex
  refine List.mem_flatMap.mpr ⟨k, hk, ?_⟩
  obtain ⟨n, rfl⟩ := Nat.exists_eq_succ_of_ne_zero (Nat.pos_iff_ne_zero.mp hpos)
  exact List.mem_cons_self

theorem exists_take (hw : writes ks ≤ 1) :
    ∃ n, takes l ks = l.take n ∧ ∀ k ∈ ks, k = 0 ∨ k = n := by
  induction ks with
  | nil => exact ⟨0, List.take_zero.symm, nofun⟩
  | cons k ks ih =>
    rw [writes_cons] at hw
    cases k with
    | zero =>
      obtain ⟨n, hn, hks⟩ := ih (by simpa using hw)
      refine ⟨n, by rw [takes_cons, List.take_zero, hn, List.nil_append], ?_⟩
      exact List.forall_mem_cons.mpr ⟨Or.inl rfl, hks⟩
    | succ k =>
      have hzero : writes ks = 0 := by
        rw [if_pos (Nat.succ_pos k)] at hw
        omega
      refine ⟨k + 1, by rw [takes_cons, takes_eq_nil hzero, List.append_nil], ?_⟩
      exact List.forall_mem_cons.mpr
        ⟨Or.inr rfl, fun i hi => Or.inl (writes_eq_zero_iff.mp hzero i hi)⟩

/-- **One write at most.** -/
theorem takes_prefix_iff (hl : l.Nodup) (h : ∀ k ∈ ks, k ≤ l.length) :
    takes l ks <+: l ↔ writes ks ≤ 1 := by
  induction ks with
  | nil => simp
  | cons k ks ih =>
    obtain ⟨hk, hks⟩ := List.forall_mem_cons.mp h
    rw [takes_cons, writes_cons]
    cases k with
    | zero => simpa using ih hks
    | succ k =>
      rw [if_pos k.succ_pos]
      constructor
      · intro hpre
        obtain ⟨a, l, rfl⟩ := List.exists_cons_of_length_pos (Nat.lt_of_lt_of_le k.succ_pos hk)
        have hnd := hpre.sublist.nodup hl
        have hw : writes ks = 0 := by
          by_contra hw
          exact (List.nodup_append.mp hnd).2.2 a List.mem_cons_self a (head_mem_takes hw) rfl
        omega
      · intro hw
        rw [takes_eq_nil (by omega), List.append_nil]
        exact List.take_prefix _ _

theorem takes_eq_iff (hl : l.Nodup) (h : ∀ k ∈ ks, k ≤ l.length) :
    takes l ks = l ↔ writes ks ≤ 1 ∧ ks.sum = l.length := by
  rw [← takes_prefix_iff hl h, ← length_takes h]
  constructor
  · intro he
    exact ⟨he.symm ▸ List.prefix_rfl, congrArg List.length he⟩
  · rintro ⟨hpre, hlen⟩
    exact hpre.eq_of_length hlen

end Takes
