import Lookahead.Pattern.Escape
import Lookahead.Pattern.Reading
import Lookahead.Text.Integer

/-!
Repetitions. A mark for the number of rounds stands behind the term that it repeats, so reading
one takes the last term off the current alternative and puts the repetition in its place. Braces
that do not hold bounds are no mark at all, and the opening one stands for itself.
-/

namespace Lookahead.Pattern

open Scan

def repetitionLimit : Nat := 4294967295

namespace Reading

def roundCount (digits : List Char) : Scan Nat :=
  if digits.length > Text.integerDigitLimit then refuse (.tooManyDigits digits.length)
  else
    let count := digitsValue 10 digits
    if count ≥ repetitionLimit then refuse .repetitionTooLarge else pure count

/-- Bounds in braces, of which the opening one has been taken: one number, or a lower and an upper
one, each of which may be missing. Anything else is no repetition, and the brace stands for
itself. -/
def braceBounds : Scan (Option (Nat × Option Nat)) := do
  let start ← Scan.offset
  -- the texts of both bounds, or nothing when the braces turn out not to hold bounds
  let digits : Scan (Option (List Char × List Char)) := do
    if (← peek) = some (.plain '}') then pure none
    else
      let lo ← takeWhile isAsciiDigit
      let hi ← if ← accept ',' then takeWhile isAsciiDigit else pure lo
      if ← accept '}' then pure (some (lo, hi)) else pure none
  match ← attempt digits with
  | none => pure none
  | some (lo, hi) =>
    let least ← if lo = [] then pure 0 else roundCount lo
    if hi = [] then pure (some (least, none))
    else
      let most ← roundCount hi
      if most < least then failAt .repeatBounds start else pure (some (least, some most))

/-- The bounds that a piece announces. Nothing, if it turns out to stand for itself. -/
def repeatBounds? : Char → Option (Scan (Option (Nat × Option Nat)))
  | '?' => some (pure (some (0, some 1)))
  | '*' => some (pure (some (0, none)))
  | '+' => some (pure (some (1, none)))
  | '{' => some braceBounds
  | _ => none

def repeatable (r : Reading) (offset : Nat) : Scan (Term × List Item) :=
  match r.frame.items with
  | [] => failAt .nothingToRepeat offset
  | .single (.place _) :: _ => failAt .nothingToRepeat offset
  | .single (.repeated _ _ _ _) :: _ => failAt .multipleRepeat offset
  | item :: rest => pure (.seq item.terms, rest)

def repeatGreed : Scan Greed := do
  if ← accept '?' then pure .lazy
  else if ← accept '+' then pure .possessive
  else pure .greedy

def repeatLast (r : Reading) (c : Char) (bounds : Scan (Option (Nat × Option Nat))) (offset : Nat) :
    Scan Reading := do
  match ← bounds with
  | none => pure (r.pushTerm (.literal false c.toNat))
  | some (least, most) =>
    let (body, rest) ← r.repeatable offset
    let greed ← repeatGreed
    pure { r with
      frame := { r.frame with items := .single (.repeated greed least most body) :: rest } }

end Reading

end Lookahead.Pattern
