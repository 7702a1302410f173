/-!
# Positions and spans

A position is a line number and a UTF-16 column, both counted from zero.
Positions are ordered by line, then by column.  A span includes both of its
ends.

Both numbers are unbounded, which is an idealisation: they are exchanged as
numbers of 32 bits, so that what is proved of positions is meant for texts of
fewer than 2³² lines, each of fewer than 2³² units.  That a greater number loses
its high bits is left out.
-/

namespace CompositorConf

structure Position where
  line : Nat
  column : Nat
  deriving DecidableEq, Repr, Inhabited

namespace Position

/-- Earlier lines come first; within a line, lesser columns. -/
instance : LE Position where
  le first second :=
    first.line < second.line ∨
      first.line = second.line ∧ first.column ≤ second.column

instance : LT Position where
  lt first second :=
    first.line < second.line ∨
      first.line = second.line ∧ first.column < second.column

instance (first second : Position) : Decidable (first ≤ second) :=
  inferInstanceAs (Decidable (_ ∨ _ ∧ _))

instance (first second : Position) : Decidable (first < second) :=
  inferInstanceAs (Decidable (_ ∨ _ ∧ _))

def later (first second : Position) : Position :=
  if first ≤ second then second else first

theorem le_iff {first second : Position} :
    first ≤ second ↔
      first.line < second.line ∨
        first.line = second.line ∧ first.column ≤ second.column :=
  Iff.rfl

theorem lt_iff {first second : Position} :
    first < second ↔
      first.line < second.line ∨
        first.line = second.line ∧ first.column < second.column :=
  Iff.rfl

section Order

variable {first second third : Position}

theorem le_refl (position : Position) : position ≤ position :=
  Or.inr ⟨rfl, Nat.le_refl _⟩

theorem le_of_lt (earlier : first < second) : first ≤ second := by
  rw [lt_iff] at earlier
  rw [le_iff]
  omega

theorem le_trans (lower : first ≤ second) (upper : second ≤ third) :
    first ≤ third := by
  rw [le_iff] at lower upper ⊢
  omega

theorem lt_of_le_of_lt (lower : first ≤ second) (upper : second < third) :
    first < third := by
  rw [le_iff] at lower
  rw [lt_iff] at upper ⊢
  omega

theorem lt_of_lt_of_le (lower : first < second) (upper : second ≤ third) :
    first < third := by
  rw [le_iff] at upper
  rw [lt_iff] at lower ⊢
  omega

theorem line_le_of_le (bound : first ≤ second) :
    first.line ≤ second.line := by
  rw [le_iff] at bound
  omega

theorem line_le_of_lt (earlier : first < second) :
    first.line ≤ second.line :=
  line_le_of_le (le_of_lt earlier)

theorem not_lt_of_le (bound : first ≤ second) : ¬ second < first := by
  rw [le_iff] at bound
  rw [lt_iff]
  omega

theorem origin_le (position : Position) : (⟨0, 0⟩ : Position) ≤ position := by
  rw [le_iff]
  dsimp only
  omega

theorem le_later_left (first second : Position) :
    first ≤ later first second := by
  unfold later
  split
  · assumption
  · exact le_refl first

end Order

end Position

structure Span where
  start : Position
  stop : Position
  deriving DecidableEq, Repr, Inhabited

namespace Span

def contains (span : Span) (position : Position) : Bool :=
  span.start ≤ position && position ≤ span.stop

def collapsed (position : Position) : Span :=
  ⟨position, position⟩

def ofColumns (line start stop : Nat) : Span :=
  ⟨⟨line, start⟩, ⟨line, stop⟩⟩

theorem contains_iff {span : Span} {position : Position} :
    span.contains position = true ↔
      span.start ≤ position ∧ position ≤ span.stop := by
  simp [contains]

end Span

end CompositorConf
