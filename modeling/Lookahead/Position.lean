/-!
Where things stand in a text. Everything that this library produces carries a line and a column,
and both come from one place: a `Cursor` that is moved over the text one character at a time.

A line feed and a carriage return each start a new line, and a carriage return directly followed
by a line feed counts once. The text arrives in pieces, and such a pair may be cut in two, so the
cursor also knows whether the character before it was a carriage return. That makes moving over a
piece after a piece the same as moving over both at once (`Cursor.advance_append`), wherever the
cut is.

Lines and columns are integers: the library counts from 1, but a token that comes from elsewhere
may stand anywhere.
-/

namespace Lookahead

/-- A line and a column, both counted from 1. -/
structure Position where
  line : Int
  column : Int
  deriving Repr, DecidableEq, Inhabited

namespace Position

/-- Earlier in the text: on an earlier line, or before it on the same line. -/
protected def Before (p q : Position) : Prop :=
  p.line < q.line ∨ p.line = q.line ∧ p.column < q.column

instance : LT Position := ⟨Position.Before⟩

instance : LE Position := ⟨fun p q => p < q ∨ p = q⟩

instance (p q : Position) : Decidable (p < q) :=
  inferInstanceAs (Decidable (p.line < q.line ∨ p.line = q.line ∧ p.column < q.column))

instance (p q : Position) : Decidable (p ≤ q) :=
  inferInstanceAs (Decidable (p < q ∨ p = q))

theorem lt_iff {p q : Position} :
    p < q ↔ p.line < q.line ∨ p.line = q.line ∧ p.column < q.column := Iff.rfl

theorem le_iff_lt_or_eq {p q : Position} : p ≤ q ↔ p < q ∨ p = q := Iff.rfl

protected theorem le_refl (p : Position) : p ≤ p := .inr rfl

protected theorem lt_trans {p q r : Position} (h : p < q) (h' : q < r) : p < r := by
  rw [lt_iff] at h h' ⊢
  omega

protected theorem le_trans {p q r : Position} (h : p ≤ q) (h' : q ≤ r) : p ≤ r := by
  rcases h with h | rfl
  · rcases h' with h' | rfl
    · exact .inl (Position.lt_trans h h')
    · exact .inl h
  · exact h'

def text (p : Position) : String := toString p.line ++ "/" ++ toString p.column

end Position

/-- The position of the next character of a text, and whether the last one was a carriage
return. -/
structure Cursor where
  line : Int := 1
  column : Int := 1
  afterReturn : Bool := false
  deriving Repr, DecidableEq, Inhabited

namespace Cursor

def position (c : Cursor) : Position := ⟨c.line, c.column⟩

/-- Moves over one character. The line feed of a split pair leaves the position alone. -/
def step (c : Cursor) (char : Char) : Cursor :=
  if char = '\n' then
    if c.afterReturn then { c with afterReturn := false } else ⟨c.line + 1, 1, false⟩
  else if char = '\r' then ⟨c.line + 1, 1, true⟩
  else ⟨c.line, c.column + 1, false⟩

def advance (c : Cursor) (text : List Char) : Cursor := text.foldl step c

@[simp] theorem advance_nil (c : Cursor) : c.advance [] = c := rfl

@[simp] theorem advance_cons (c : Cursor) (char : Char) (text : List Char) :
    c.advance (char :: text) = (c.step char).advance text := rfl

theorem advance_append (c : Cursor) (s t : List Char) :
    c.advance (s ++ t) = (c.advance s).advance t :=
  List.foldl_append

theorem position_le_step (c : Cursor) (char : Char) : c.position ≤ (c.step char).position := by
  rw [Position.le_iff_lt_or_eq, Position.lt_iff]
  unfold step
  split
  · split
    · exact .inr rfl
    · exact .inl (.inl (Int.lt_succ _))
  · split
    · exact .inl (.inl (Int.lt_succ _))
    · exact .inl (.inr ⟨rfl, Int.lt_succ _⟩)

/-- A cursor never moves back. -/
theorem position_le_advance (c : Cursor) (text : List Char) :
    c.position ≤ (c.advance text).position := by
  induction text generalizing c with
  | nil => exact Position.le_refl _
  | cons char rest ih => exact Position.le_trans (c.position_le_step char) (ih (c.step char))

end Cursor

end Lookahead
