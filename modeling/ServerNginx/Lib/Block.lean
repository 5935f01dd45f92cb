import Mathlib.Data.List.Basic
import Mathlib.Data.Nat.Notation

set_option autoImplicit false

/-!
# Blocks of memory with checked writes

A block is the list of its cells; `writeAt l off xs` overwrites the cells from `off` on and is
`none` where the write would leave the block. `Block α n` is a block whose size is fixed.
-/

namespace Block

variable {α : Type*}

/-- Overwrite the cells of `l` from `off` on by `xs`. -/
def splice (l : List α) (off : ℕ) (xs : List α) : List α :=
  l.take off ++ xs ++ l.drop (off + xs.length)

/-- A write that stays inside the block. -/
def writeAt (l : List α) (off : ℕ) (xs : List α) : Option (List α) :=
  if off + xs.length ≤ l.length then some (splice l off xs) else none

theorem writeAt_of_le {l xs : List α} {off : ℕ} (h : off + xs.length ≤ l.length) :
    writeAt l off xs = some (splice l off xs) := if_pos h

theorem writeAt_append {a b : List α} (xs : List α) (h : xs.length ≤ b.length) :
    writeAt (a ++ b) a.length xs = some (a ++ xs ++ b.drop xs.length) := by
  rw [writeAt_of_le (by rw [List.length_append]; omega), splice, List.take_left,
    ← List.drop_drop, List.drop_left]

theorem length_splice {l xs : List α} {off : ℕ} (h : off + xs.length ≤ l.length) :
    (splice l off xs).length = l.length := by
  simp only [splice, List.length_append, List.length_take, List.length_drop]
  omega

theorem take_splice {l : List α} (xs : List α) {off : ℕ} (h : off ≤ l.length) :
    (splice l off xs).take (off + xs.length) = l.take off ++ xs := by
  have hl : (l.take off ++ xs).length = off + xs.length := by simp; omega
  rw [splice, ← hl, List.take_left']
  rfl

end Block

/-- **A block of `n` cells.** -/
structure Block (α : Type*) (n : ℕ) where
  cells : List α
  length_cells : cells.length = n
  deriving DecidableEq

namespace Block

variable {α : Type*} {n : ℕ}

/-- The block whose cells all hold `a`. -/
def fill (n : ℕ) (a : α) : Block α n := ⟨List.replicate n a, List.length_replicate⟩

/-- A write into a block of fixed size. -/
def write (b : Block α n) (off : ℕ) (xs : List α) : Option (Block α n) :=
  if h : off + xs.length ≤ n then
    some ⟨splice b.cells off xs, by rw [length_splice (by rw [b.length_cells]; exact h),
      b.length_cells]⟩
  else none

theorem write_of_le {b : Block α n} {off : ℕ} {xs : List α} (h : off + xs.length ≤ n) :
    ∃ b', b.write off xs = some b' ∧ b'.cells = splice b.cells off xs := by
  simp [write, h]

theorem write_eq_none {b : Block α n} {off : ℕ} {xs : List α} :
    b.write off xs = none ↔ n < off + xs.length := by
  simp [write]

end Block
