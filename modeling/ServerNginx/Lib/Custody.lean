import Mathlib.Tactic

set_option autoImplicit false

/-!
# Things in custody

Things are numbered as they are made. A new thing is shown by a slot; somebody takes it over and
gives it back in the end. Whoever has taken a thing over either goes on on his own, and the slot
shows it no longer, or the slot waits for him and shows it until he is back.

* `Settled`: nothing is given back twice, and what is not given back is with somebody;
* `Kept`: the invariant behind it;
* `Kept.clear` to `Kept.reset`: the operations keep it under their conditions;
* `not_settled_clear`, `not_settled_drop`: the conditions of the two that lose things are exact.
-/

/-- Things made so far, the slots that show one, the things taken over with the slots that wait for
them, the things given back, and the slots whose wait is over while they still show the thing. -/
structure Custody (σ : Type*) where
  made : ℕ
  shown : σ → Option ℕ
  carried : List (Option σ × ℕ)
  back : List ℕ
  stale : List σ

namespace Custody

variable {σ : Type*} (c : Custody σ)

/-- The things taken over. -/
def ids : List ℕ := c.carried.map Prod.snd

/-- The slots that wait, or have waited and not noticed. -/
def busy : List σ := c.carried.filterMap Prod.fst ++ c.stale

/-- **Settled**: no thing is given back twice, and every thing that has been neither given back nor
taken over is shown by a slot that has not yet been dealt with. -/
def Settled : Prop :=
  c.back.Nodup ∧
    ∀ id < c.made, id ∉ c.back → id ∈ c.ids ∨ ∃ a, c.shown a = some id ∧ a ∉ c.stale

/-- Every thing is in one place. -/
structure Kept : Prop where
  nodup : (c.back ++ c.ids).Nodup
  lt : ∀ id ∈ c.back ++ c.ids, id < c.made
  shown_lt : ∀ a id, c.shown a = some id → id < c.made
  inj : ∀ a b id, c.shown a = some id → c.shown b = some id → a = b
  place : ∀ id < c.made, id ∉ c.back → id ∈ c.ids ∨ ∃ a, c.shown a = some id ∧ a ∉ c.stale
  busy : c.busy.Nodup
  carried : ∀ a b id, c.shown a = some id → (b, id) ∈ c.carried → b = some a
  waits : ∀ a id id', (some a, id) ∈ c.carried → c.shown a = some id' → id' = id
  back : ∀ a id, c.shown a = some id → id ∈ c.back → a ∈ c.stale
  stale : ∀ a id, a ∈ c.stale → c.shown a = some id → id ∈ c.back

/-! ## Operations -/

section Operations

variable [DecidableEq σ]

/-- Slot `a` forgets what it shows. -/
def clear (a : σ) : Custody σ := { c with shown := Function.update c.shown a none }

/-- A new thing, shown by slot `a`. -/
def make (a : σ) : Custody σ :=
  { c with made := c.made + 1, shown := Function.update c.shown a (some c.made) }

/-- Thing `id` is taken over; `b` waits. -/
def carry (b : Option σ) (id : ℕ) : Custody σ := { c with carried := (b, id) :: c.carried }

/-- A thing that was taken over is given back. -/
def giveBack (p : Option σ × ℕ) : Custody σ :=
  { c with carried := c.carried.erase p, back := p.2 :: c.back, stale := p.1.toList ++ c.stale }

/-- A thing that was taken over is not given back. -/
def drop (p : Option σ × ℕ) : Custody σ :=
  { c with carried := c.carried.erase p, stale := p.1.toList ++ c.stale }

/-- Slot `a` notices that the thing it shows has been dealt with. -/
def reset (a : σ) : Custody σ :=
  { c with shown := Function.update c.shown a none, stale := c.stale.erase a }

end Operations

/-! ## What the operations keep -/

variable {c} {a b : σ} {id : ℕ} {p : Option σ × ℕ}

theorem kept_start : Kept (⟨0, fun _ => none, [], [], []⟩ : Custody σ) where
  nodup := List.nodup_nil
  lt := by simp [ids]
  shown_lt := by simp
  inj := by simp
  place := by simp
  busy := List.nodup_nil
  carried := by simp
  waits := by simp
  back := by simp
  stale := by simp

theorem mem_ids : id ∈ c.ids ↔ ∃ b, (b, id) ∈ c.carried := by
  simp [ids]

theorem mem_busy : a ∈ c.busy ↔ (∃ id, (some a, id) ∈ c.carried) ∨ a ∈ c.stale := by
  simp [busy]

theorem settled_perm {l : List (Option σ × ℕ)} (hl : l.Perm c.carried) :
    Settled { c with carried := l } ↔ c.Settled :=
  and_congr_right fun _ => forall₃_congr fun _ _ _ => or_congr_left (hl.map Prod.snd).mem_iff

theorem shown_clear [DecidableEq σ] {s : σ → Option ℕ} (h : Function.update s a none b = some id) :
    b ≠ a ∧ s b = some id := by
  by_cases hb : b = a
  · subst hb
    rw [Function.update_self] at h
    cases h
  · exact ⟨hb, by rwa [Function.update_of_ne hb] at h⟩

/-- Whoever gives back what he has taken over was waited for, or is on his own. -/
theorem busy_giveBack [DecidableEq σ] (hp : p ∈ c.carried) : (c.giveBack p).busy.Perm c.busy := by
  have hf := ((List.perm_cons_erase hp).filterMap Prod.fst).symm
  rw [busy, busy, giveBack, ← List.append_assoc]
  refine (List.perm_append_comm.trans ?_).append_right _
  obtain ⟨b, id⟩ := p
  cases b <;> exact hf

namespace Kept

theorem settled (h : c.Kept) : c.Settled := ⟨(List.nodup_append.mp h.nodup).1, h.place⟩

/-- What a slot shows that nobody deals with has been neither given back nor taken over. -/
theorem fresh (h : c.Kept) (hs : c.shown a = some id) (ha : a ∉ c.busy) : id ∉ c.back ++ c.ids := by
  rw [mem_busy, not_or, not_exists] at ha
  rw [List.mem_append, mem_ids]
  rintro (hb | ⟨b, hc⟩)
  · exact ha.2 (h.back a id hs hb)
  · obtain rfl := h.carried a b id hs hc
    exact ha.1 id hc

theorem perm {l : List (Option σ × ℕ)} (h : c.Kept) (hl : l.Perm c.carried) :
    Kept { c with carried := l } := by
  have hids : (l.map Prod.snd).Perm c.ids := hl.map _
  have hbusy : (l.filterMap Prod.fst ++ c.stale).Perm c.busy := (hl.filterMap _).append_right _
  exact {
    nodup := ((hids.append_left _).nodup_iff).mpr h.nodup
    lt := fun id hid => h.lt id ((hids.append_left _).mem_iff.mp hid)
    shown_lt := h.shown_lt
    inj := h.inj
    place := fun id hlt hb => (h.place id hlt hb).imp_left hids.mem_iff.mpr
    busy := hbusy.nodup_iff.mpr h.busy
    carried := fun a b id hs hc => h.carried a b id hs (hl.mem_iff.mp hc)
    waits := fun a id id' hc => h.waits a id id' (hl.mem_iff.mp hc)
    back := h.back
    stale := h.stale }

/-- **Taking over** what a slot shows, while the slot waits. -/
theorem carry (h : c.Kept) (hs : c.shown a = some id) (ha : a ∉ c.busy) :
    (c.carry (some a) id).Kept where
  nodup := (List.perm_middle.nodup_iff).mpr (List.nodup_cons.mpr ⟨h.fresh hs ha, h.nodup⟩)
  lt id' hid := by
    rcases List.mem_cons.mp (List.perm_middle.mem_iff.mp hid) with rfl | hid
    · exact h.shown_lt a _ hs
    · exact h.lt id' hid
  shown_lt := h.shown_lt
  inj := h.inj
  place id' hlt hb := (h.place id' hlt hb).imp_left (List.mem_cons_of_mem _)
  busy := List.nodup_cons.mpr ⟨ha, h.busy⟩
  carried b b' id' hb hc := by
    rcases List.mem_cons.mp hc with he | hc
    · cases he
      rw [h.inj b a id hb hs]
    · exact h.carried b b' id' hb hc
  waits b id₁ id₂ hc hb := by
    rcases List.mem_cons.mp hc with he | hc
    · cases he
      exact Option.some.inj (hb.symm.trans hs)
    · exact h.waits b id₁ id₂ hc hb
  back := h.back
  stale := h.stale

variable [DecidableEq σ]

/-- **Clearing a slot** whose thing, if it shows one, is with somebody or given back. -/
theorem clear (h : c.Kept) (ha : ∀ id, c.shown a = some id → id ∈ c.back ++ c.ids) :
    (c.clear a).Kept where
  nodup := h.nodup
  lt := h.lt
  shown_lt b id hs := h.shown_lt b id (shown_clear hs).2
  inj b b' id hs hs' := h.inj b b' id (shown_clear hs).2 (shown_clear hs').2
  place id hlt hb := by
    rcases h.place id hlt hb with hi | ⟨b, hs, hst⟩
    · exact Or.inl hi
    · by_cases hba : b = a
      · subst hba
        exact Or.inl ((List.mem_append.mp (ha id hs)).resolve_left hb)
      · exact Or.inr ⟨b, (Function.update_of_ne hba _ _).trans hs, hst⟩
  busy := h.busy
  carried b b' id hs := h.carried b b' id (shown_clear hs).2
  waits b id id' hc hs := h.waits b id id' hc (shown_clear hs).2
  back b id hs := h.back b id (shown_clear hs).2
  stale b id hb hs := h.stale b id hb (shown_clear hs).2

/-- **Making a thing** in a slot that shows none and waits for nobody. -/
theorem make (h : c.Kept) (hs : c.shown a = none) (ha : a ∉ c.busy) : (c.make a).Kept := by
  have hcases : ∀ {b id}, (c.make a).shown b = some id →
      b = a ∧ id = c.made ∨ b ≠ a ∧ c.shown b = some id := by
    intro b id hb
    by_cases hba : b = a
    · subst hba
      simp only [Custody.make, Function.update_self, Option.some.injEq] at hb
      exact Or.inl ⟨rfl, hb.symm⟩
    · simp only [Custody.make, Function.update_of_ne hba] at hb
      exact Or.inr ⟨hba, hb⟩
  have hnew : ∀ {id}, id ∈ c.back ++ c.ids → id ≠ c.made := fun hid => (h.lt _ hid).ne
  rw [mem_busy, not_or, not_exists] at ha
  constructor
  · exact h.nodup
  · exact fun id hid => (h.lt id hid).trans (Nat.lt_succ_self _)
  · intro b id hb
    rcases hcases hb with ⟨-, rfl⟩ | ⟨-, hb⟩
    · exact Nat.lt_succ_self _
    · exact (h.shown_lt b id hb).trans (Nat.lt_succ_self _)
  · intro b b' id hb hb'
    rcases hcases hb with ⟨hba, hid⟩ | ⟨-, hsb⟩
    · rcases hcases hb' with ⟨hba', -⟩ | ⟨-, hsb'⟩
      · rw [hba, hba']
      · exact absurd (h.shown_lt b' id hsb') (hid ▸ lt_irrefl _)
    · rcases hcases hb' with ⟨-, hid⟩ | ⟨-, hsb'⟩
      · exact absurd (h.shown_lt b id hsb) (hid ▸ lt_irrefl _)
      · exact h.inj b b' id hsb hsb'
  · intro id hlt hb
    rcases Nat.lt_succ_iff_lt_or_eq.mp hlt with hlt | rfl
    · rcases h.place id hlt hb with hi | ⟨b, hsb, hst⟩
      · exact Or.inl hi
      · have hba : b ≠ a := by
          rintro rfl
          rw [hs] at hsb
          cases hsb
        exact Or.inr ⟨b, (Function.update_of_ne hba _ _).trans hsb, hst⟩
    · exact Or.inr ⟨a, Function.update_self .., ha.2⟩
  · exact h.busy
  · intro b b' id hb hc
    rcases hcases hb with ⟨-, rfl⟩ | ⟨-, hb⟩
    · exact absurd rfl (hnew (List.mem_append_right _ (mem_ids.mpr ⟨b', hc⟩)))
    · exact h.carried b b' id hb hc
  · intro b id id' hc hb
    rcases hcases hb with ⟨rfl, -⟩ | ⟨-, hb⟩
    · exact absurd hc (ha.1 id)
    · exact h.waits b id id' hc hb
  · intro b id hb hid
    rcases hcases hb with ⟨-, rfl⟩ | ⟨-, hb⟩
    · exact absurd rfl (hnew (List.mem_append_left _ hid))
    · exact h.back b id hb hid
  · intro b id hst hb
    rcases hcases hb with ⟨rfl, -⟩ | ⟨-, hb⟩
    · exact absurd hst ha.2
    · exact h.stale b id hst hb

/-- **Taking over** what a slot shows, and the slot shows it no longer. -/
theorem hand (h : c.Kept) (hs : c.shown a = some id) (ha : a ∉ c.busy) :
    ((c.clear a).carry none id).Kept where
  nodup := (List.perm_middle.nodup_iff).mpr (List.nodup_cons.mpr ⟨h.fresh hs ha, h.nodup⟩)
  lt id' hid := by
    rcases List.mem_cons.mp (List.perm_middle.mem_iff.mp hid) with rfl | hid
    · exact h.shown_lt a _ hs
    · exact h.lt id' hid
  shown_lt b id' hb := h.shown_lt b id' (shown_clear hb).2
  inj b b' id' hb hb' := h.inj b b' id' (shown_clear hb).2 (shown_clear hb').2
  place id' hlt hb := by
    rcases h.place id' hlt hb with hi | ⟨b, hsb, hst⟩
    · exact Or.inl (List.mem_cons_of_mem _ hi)
    · by_cases hba : b = a
      · subst hba
        rw [hs] at hsb
        cases hsb
        exact Or.inl List.mem_cons_self
      · exact Or.inr ⟨b, (Function.update_of_ne hba _ _).trans hsb, hst⟩
  busy := h.busy
  carried b b' id' hb hc := by
    obtain ⟨hba, hb⟩ := shown_clear hb
    rcases List.mem_cons.mp hc with he | hc
    · cases he
      exact absurd (h.inj b a id hb hs) hba
    · exact h.carried b b' id' hb hc
  waits b id₁ id₂ hc hb := by
    rcases List.mem_cons.mp hc with he | hc
    · cases he
    · exact h.waits b id₁ id₂ hc (shown_clear hb).2
  back b id' hb := h.back b id' (shown_clear hb).2
  stale b id' hst hb := h.stale b id' hst (shown_clear hb).2

/-- **Giving back** what was taken over. -/
theorem giveBack (h : c.Kept) (hp : p ∈ c.carried) : (c.giveBack p).Kept := by
  have hids : (p.2 :: (c.carried.erase p).map Prod.snd).Perm c.ids :=
    ((List.perm_cons_erase hp).map Prod.snd).symm
  have hback : ((p.2 :: c.back) ++ (c.carried.erase p).map Prod.snd).Perm (c.back ++ c.ids) :=
    List.perm_middle.symm.trans (hids.append_left _)
  constructor
  · exact hback.nodup_iff.mpr h.nodup
  · exact fun id hid => h.lt id (hback.mem_iff.mp hid)
  · exact h.shown_lt
  · exact h.inj
  · intro id hlt hb
    have hne : id ≠ p.2 := fun he => hb (he ▸ List.mem_cons_self)
    rcases h.place id hlt fun hm => hb (List.mem_cons_of_mem _ hm) with hi | ⟨a, hs, hst⟩
    · exact Or.inl ((List.mem_cons.mp (hids.mem_iff.mpr hi)).resolve_left hne)
    · refine Or.inr ⟨a, hs, fun hm => ?_⟩
      rcases List.mem_append.mp hm with hm | hm
      · obtain ⟨b, id'⟩ := p
        obtain rfl : b = some a := Option.mem_toList.mp hm
        exact hne (h.waits a id' id hp hs)
      · exact hst hm
  · exact (busy_giveBack hp).nodup_iff.mpr h.busy
  · exact fun a b id hs hc => h.carried a b id hs (List.mem_of_mem_erase hc)
  · exact fun a id id' hc => h.waits a id id' (List.mem_of_mem_erase hc)
  · intro a id hs hb
    rcases List.mem_cons.mp hb with rfl | hb
    · obtain ⟨b, id⟩ := p
      obtain rfl := h.carried a b id hs hp
      exact List.mem_append_left _ (by simp)
    · exact List.mem_append_right _ (h.back a id hs hb)
  · intro a id hm hs
    rcases List.mem_append.mp hm with hm | hm
    · obtain ⟨b, id'⟩ := p
      obtain rfl : b = some a := Option.mem_toList.mp hm
      rw [h.waits a id' id hp hs]
      exact List.mem_cons_self
    · exact List.mem_cons_of_mem _ (h.stale a id hm hs)

/-- **A slot notices** that the wait is over. -/
theorem reset (h : c.Kept) (ha : a ∈ c.stale) : (c.reset a).Kept := by
  have hnd : c.stale.Nodup := (List.nodup_append.mp h.busy).2.1
  have hsub : (c.reset a).busy.Sublist c.busy := List.Sublist.append_left List.erase_sublist _
  constructor
  · exact h.nodup
  · exact h.lt
  · exact fun b id hs => h.shown_lt b id (shown_clear hs).2
  · exact fun b b' id hs hs' => h.inj b b' id (shown_clear hs).2 (shown_clear hs').2
  · intro id hlt hb
    rcases h.place id hlt hb with hi | ⟨b, hs, hst⟩
    · exact Or.inl hi
    · have hba : b ≠ a := fun he => hst (he ▸ ha)
      exact Or.inr ⟨b, (Function.update_of_ne hba _ _).trans hs,
        fun hm => hst (List.mem_of_mem_erase hm)⟩
  · exact h.busy.sublist hsub
  · exact fun b b' id hs => h.carried b b' id (shown_clear hs).2
  · exact fun b id id' hc hs => h.waits b id id' hc (shown_clear hs).2
  · intro b id hs hb
    obtain ⟨hba, hs⟩ := shown_clear hs
    exact (List.mem_erase_of_ne hba).mpr (h.back b id hs hb)
  · exact fun b id hm hs => h.stale b id (List.mem_of_mem_erase hm) (shown_clear hs).2

end Kept

/-! ## What loses things -/

variable [DecidableEq σ]

/-- A slot forgets a thing that nobody else has. -/
theorem not_settled_clear (h : c.Kept) (hs : c.shown a = some id) (hid : id ∉ c.back ++ c.ids) :
    ¬ (c.clear a).Settled := by
  intro hset
  rw [List.mem_append, not_or] at hid
  rcases hset.2 id (h.shown_lt a id hs) hid.1 with hi | ⟨b, hb, -⟩
  · exact hid.2 hi
  · obtain ⟨hba, hb⟩ := shown_clear hb
    exact hba (h.inj b a id hb hs)

/-- A thing that was taken over is not given back. -/
theorem not_settled_drop (h : c.Kept) (hp : p ∈ c.carried) : ¬ (c.drop p).Settled := by
  intro hset
  have hback : ((c.carried.erase p).map Prod.snd ++ p.2 :: c.back).Perm (c.back ++ c.ids) :=
    List.perm_append_comm.trans
      (List.perm_middle.symm.trans (((List.perm_cons_erase hp).map Prod.snd).symm.append_left _))
  have hnd := List.nodup_append.mp (hback.nodup_iff.mpr h.nodup)
  have hid : p.2 ∈ c.ids := List.mem_map_of_mem hp
  rcases hset.2 p.2 (h.lt _ (List.mem_append_right _ hid)) (List.nodup_cons.mp hnd.2.1).1 with
    hi | ⟨a, hs, hst⟩
  · exact hnd.2.2 _ hi _ List.mem_cons_self rfl
  · obtain ⟨b, id⟩ := p
    obtain rfl := h.carried a b id hs hp
    exact hst (List.mem_append_left _ (by simp))

end Custody
