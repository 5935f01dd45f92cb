import Mathlib.Data.List.Basic
import Mathlib.Data.Nat.Notation

set_option autoImplicit false

/-!
# Cutting a stream into frames

A framer looks at the bytes not yet consumed: `next s = none` asks for more of them,
`next s = some (o, r)` consumes a nonempty prefix, leaves `r`, and yields a frame or drops what it
consumed. It may not change its mind when more bytes arrive. Then the frames of a stream do not
depend on how it arrives: `feed_append` restarts the framer on what an earlier piece left over.
-/

/-- **A framer.** -/
structure Framer (α β : Type*) where
  next : List α → Option (Option β × List α)
  next_lt : ∀ {s o r}, next s = some (o, r) → r.length < s.length
  next_append : ∀ {s o r}, next s = some (o, r) → ∀ t, next (s ++ t) = some (o, r ++ t)

namespace Framer

variable {α β : Type*} (F : Framer α β)

/-- At most `n` steps of the framer: the frames and the bytes left over. -/
def steps : ℕ → List α → List β × List α
  | 0, s => ([], s)
  | n + 1, s =>
    match F.next s with
    | none => ([], s)
    | some (o, r) => (o.toList ++ (steps n r).1, (steps n r).2)

/-- The frames of a stream and the bytes left over. -/
def feed (s : List α) : List β × List α := F.steps s.length s

/-- The frames of a stream. -/
def frames (s : List α) : List β := (F.feed s).1

/-- The bytes of a stream that no frame has consumed. -/
def rest (s : List α) : List α := (F.feed s).2

variable {F}

theorem steps_of_none {s : List α} (h : F.next s = none) (n : ℕ) : F.steps n s = ([], s) := by
  cases n with
  | zero => rfl
  | succ n => simp [steps, h]

theorem steps_eq_feed : ∀ (n : ℕ) (s : List α), s.length ≤ n → F.steps n s = F.feed s := by
  intro n
  induction n using Nat.strongRecOn with
  | ind n ih =>
    intro s hs
    cases hnext : F.next s with
    | none => rw [feed, steps_of_none hnext, steps_of_none hnext]
    | some p =>
      obtain ⟨o, r⟩ := p
      have hr := F.next_lt hnext
      obtain ⟨m, rfl⟩ : ∃ m, n = m + 1 := ⟨n - 1, by omega⟩
      obtain ⟨l, hl⟩ : ∃ l, s.length = l + 1 := ⟨s.length - 1, by omega⟩
      have hm : F.steps m r = F.feed r := ih m (by omega) r (by omega)
      have hlr : F.steps l r = F.feed r := by
        rcases Nat.lt_or_ge l (m + 1) with h | h
        · exact ih l h r (by omega)
        · omega
      simp only [feed, hl, steps, hnext, hm, hlr]

theorem feed_of_none {s : List α} (h : F.next s = none) : F.feed s = ([], s) :=
  steps_of_none h _

theorem feed_of_some {s r : List α} {o : Option β} (h : F.next s = some (o, r)) :
    F.feed s = (o.toList ++ F.frames r, F.rest r) := by
  have hr := F.next_lt h
  rw [← steps_eq_feed (s.length + 1) s (by omega)]
  simp only [steps, h, steps_eq_feed s.length r (by omega), frames, rest]

/-- **Frames do not depend on the cut.** -/
theorem feed_append (s t : List α) :
    F.feed (s ++ t) = (F.frames s ++ F.frames (F.rest s ++ t), F.rest (F.rest s ++ t)) := by
  induction hn : s.length using Nat.strongRecOn generalizing s with
  | ind n ih =>
    cases hnext : F.next s with
    | none => simp [frames, rest, feed_of_none hnext]
    | some p =>
      obtain ⟨o, r⟩ := p
      have hr := F.next_lt hnext
      have key := ih r.length (by omega) r rfl
      rw [feed_of_some (F.next_append hnext t)]
      simp only [frames, rest, feed_of_some hnext, key, List.append_assoc]

theorem frames_append (s t : List α) :
    F.frames (s ++ t) = F.frames s ++ F.frames (F.rest s ++ t) := by
  rw [frames, feed_append]

theorem rest_append (s t : List α) : F.rest (s ++ t) = F.rest (F.rest s ++ t) := by
  rw [rest, feed_append]

theorem forall_mem_frames {P : β → Prop} (h : ∀ {s o r}, F.next s = some (some o, r) → P o)
    (s : List α) : ∀ b ∈ F.frames s, P b := by
  have hsteps : ∀ (n : ℕ) (s : List α), ∀ b ∈ (F.steps n s).1, P b := by
    intro n
    induction n with
    | zero => exact fun _ b hb => absurd hb List.not_mem_nil
    | succ n ih =>
      intro s b hb
      rw [steps] at hb
      cases hnext : F.next s with
      | none =>
        rw [hnext] at hb
        exact absurd hb List.not_mem_nil
      | some p =>
        obtain ⟨o, r⟩ := p
        rw [hnext] at hb
        rcases List.mem_append.mp hb with ho | hr
        · rw [Option.mem_toList] at ho
          cases ho
          exact h hnext
        · exact ih r b hr
  exact hsteps _ s

theorem frames_of_none {s : List α} (h : F.next s = none) : F.frames s = [] := by
  rw [frames, feed_of_none h]

theorem rest_of_none {s : List α} (h : F.next s = none) : F.rest s = s := by
  rw [rest, feed_of_none h]

theorem frames_of_some {s r : List α} {o : Option β} (h : F.next s = some (o, r)) :
    F.frames s = o.toList ++ F.frames r := by
  rw [frames, feed_of_some h]

theorem rest_of_some {s r : List α} {o : Option β} (h : F.next s = some (o, r)) :
    F.rest s = F.rest r := by
  rw [rest, feed_of_some h]

theorem next_nil : F.next [] = none := by
  cases h : F.next [] with
  | none => rfl
  | some p => exact absurd (F.next_lt (o := p.1) (r := p.2) h) (by simp)

end Framer
