import Lookahead.Pattern.Escape
import Lookahead.Pattern.Reading

/-!
References to groups, and escapes outside of sets, some of which are references. A group can be
referred to once it is closed, and from inside a look behind only if it was closed before the look
behind started, since its width has to be known there.
-/

namespace Lookahead.Pattern

open Scan

namespace Reading

/-- Inside a look behind, a group has to be closed before the look behind starts. -/
def checkLookbehind (r : Reading) (number : Nat) : Scan Unit :=
  match r.groups.limit with
  | none => pure ()
  | some limit =>
    if (r.groups.widths.lookup number).isNone then failBack .openGroup 0
    else if limit ≤ number then failBack .lookbehindReference 0
    else pure ()

def reference (r : Reading) (number back : Nat) : Scan Term :=
  match r.groups.widths.lookup number with
  | none => failBack .openGroup back
  | some width => do
    r.checkLookbehind number
    pure (.backref number width)

def numberedReference (r : Reading) (digits : List Char) : Scan Term :=
  let number := digitsValue 10 digits
  if number < r.groups.next then r.reference number (digits.length + 1)
  else failBack (.invalidReference number) digits.length

/-- A digit other than zero after a backslash: a reference to a group, or a character by three
octal digits. -/
def digitEscape (r : Reading) (first : Char) : Scan Term := do
  match ← takeUpTo isAsciiDigit 1 with
  | [second] =>
    if isOctalDigit first && isOctalDigit second then
      match ← takeUpTo isOctalDigit 1 with
      | [third] =>
        let digits := [first, second, third]
        let code := digitsValue 8 digits
        if code > 0o377 then failEscape .octalRange digits else pure (.literal false code)
      | _ => r.numberedReference [first, second]
    else r.numberedReference [first, second]
  | _ => r.numberedReference [first]

/-- The places by their letters. -/
def place? : Char → Option Place
  | 'A' => some .textStart
  | 'Z' => some .textEnd
  | 'b' => some .boundary
  | 'B' => some .noBoundary
  | _ => none

def termEscape [Text.CharacterNames] (r : Reading) (c : Char) : Scan Term :=
  match place? c, kind? c, controlCode? c with
  | some place, _, _ => pure (.place place)
  | none, some member, _ => pure (.set false [member])
  | none, none, some code => pure (.literal false code)
  | none, none, none => do
    match ← announcedCode c with
    | some code => pure (.literal false code)
    | none =>
      if c = '0' then
        pure (.literal false (digitsValue 8 (c :: (← takeUpTo isOctalDigit 2))))
      else if isAsciiDigit c then r.digitEscape c
      else pure (.literal false (← selfEscape c))

end Reading

end Lookahead.Pattern
