import Lookahead.Pattern.Escape
import Lookahead.Pattern.Fault
import Lookahead.Pattern.Piece
import Lookahead.Text.Integer

/-!
Moving the group numbers of a pattern. When patterns are put together into one, the groups of each
come after those of the ones before, so a pattern has to refer to its groups by higher numbers.
Only the references change, in the text of the pattern, piece by piece: a backslash and a
number, and the number of a condition. Inside a set, or as three octal digits, a backslash and
digits are a character, and stay as they are.

A renumbered reference is put in parentheses of its own, so that a digit after it stays out of it.
Numbers above 99 cannot be written after a backslash.
-/

namespace Lookahead.Pattern

inductive RenumberFault where
  | tooManyGroups
  | tooManyDigits (count : Nat)
  | unwritable
  deriving Repr, DecidableEq

def lastReference : Int := 99

def startsReference (c : Char) : Bool := '1' ≤ c && c ≤ '9'

def leadingDigits (test : Char → Bool) : Nat → List Piece → List Char
  | 0, _ => []
  | n + 1, .plain c :: rest => if test c then c :: leadingDigits test n rest else []
  | _, _ => []

/-- The digits after the first one of a reference or an octal character: one more if there is one,
and a third one if that makes three octal digits. -/
def referenceTail (first : Char) (rest : List Piece) : List Char :=
  match leadingDigits isAsciiDigit 1 rest with
  | [second] =>
    if isOctalDigit first && isOctalDigit second then
      second :: leadingDigits isOctalDigit 1 (rest.drop 1)
    else [second]
  | _ => []

def writeReference (number : Int) : Except RenumberFault (List Char) :=
  if number > lastReference then .error .tooManyGroups
  else .ok ("(?:\\".toList ++ (toString number).toList ++ [')'])

def writeCondition (digits : List Char) (offset : Int) : Except RenumberFault (List Char) :=
  if digits.length > Text.integerDigitLimit then .error (.tooManyDigits digits.length)
  else
    let number := (toString (Int.ofNat (Text.decimalValue digits) + offset)).toList
    if (number.filter isAsciiDigit).length > Text.integerDigitLimit then .error .unwritable
    else .ok ("(?(".toList ++ number)

/-- An opening bracket, and a caret and a closing bracket that belong to it. -/
def setStart : List Piece → List Char
  | .plain '^' :: .plain ']' :: _ => ['[', '^', ']']
  | .plain '^' :: _ => ['[', '^']
  | .plain ']' :: _ => ['[', ']']
  | _ => ['[']

/-- Moves the numbers in the rest of a pattern. `inSet` says that it starts inside a set. -/
def renumberPieces (offset : Int) (inSet : Bool) (pieces : List Piece) :
    Except RenumberFault (List Char) :=
  match pieces with
  | [] => .ok []
  | .dangling :: rest => do
    pure ('\\' :: (← renumberPieces offset inSet rest))
  | .escaped c :: rest =>
    if inSet || !startsReference c then do
      pure ('\\' :: c :: (← renumberPieces offset inSet rest))
    else do
      let tail := referenceTail c rest
      let written ←
        if tail.length = 2 then pure ('\\' :: c :: tail)
        else writeReference (Int.ofNat (Text.decimalValue (c :: tail)) + offset)
      pure (written ++ (← renumberPieces offset false (rest.drop tail.length)))
  | .plain c :: rest =>
    if inSet then do
      pure (c :: (← renumberPieces offset (c != ']') rest))
    else if c = '[' then do
      let written := setStart rest
      pure (written ++ (← renumberPieces offset true (rest.drop (written.length - 1))))
    else if c = '(' ∧ rest.take 2 = [.plain '?', .plain '('] then do
      let rest := rest.drop 2
      let digits := leadingDigits isAsciiDigit rest.length rest
      let rest := rest.drop digits.length
      let written ←
        if digits ≠ [] ∧ rest.head? = some (.plain ')') then writeCondition digits offset
        else pure ("(?(".toList ++ digits)
      pure (written ++ (← renumberPieces offset false rest))
    else do
      pure (c :: (← renumberPieces offset false rest))
termination_by pieces.length
decreasing_by all_goals simp only [List.length_cons, List.length_drop]; omega

def renumber (pattern : String) (offset : Int) : Except RenumberFault String :=
  (renumberPieces offset false (Piece.cut pattern.toList)).map String.ofList

namespace RenumberFault

def message (name pattern : String) : RenumberFault → String
  | tooManyGroups =>
    "Too many groups before the backreference in " ++ name ++ ": " ++ Text.quoted pattern
  | tooManyDigits count => Text.tooManyDigitsMessage count
  | unwritable => Text.unwritableIntegerMessage

def limit? : RenumberFault → Option Fault
  | tooManyGroups => none
  | tooManyDigits count => some (.tooManyDigits count)
  | unwritable => some .unwritableNumber

end RenumberFault

end Lookahead.Pattern
