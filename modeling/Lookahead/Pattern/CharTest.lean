import Lookahead.Pattern.Basic
import Lookahead.Text.Blank
import Lookahead.Text.Digit
import Lookahead.Text.Letter
import Lookahead.Text.LetterCase

/-!
Tests on single characters. Which characters a literal, a set or a kind of characters stands for
depends on the modes: the kinds may be confined to ASCII, and letter case may count or not.

When case does not count, a character is compared by its lower-case form. A set is first asked
whether it has anything to do with case. If not, it is taken as it stands; if so, it is asked
about the lower-case form of a character, and holds it when the set has any other case of it.
Beyond the basic plane a single code in a set stands for itself alone, and a range is asked for
the lower-case form and its upper case.
-/

namespace Lookahead.Pattern

inductive Folding where
  | ascii
  | unicode
  deriving Repr, DecidableEq

namespace Folding

def lower : Folding → Nat → Nat
  | ascii => Text.asciiLowerCode
  | unicode => Text.lowerCode

def hasCase : Folding → Nat → Bool
  | ascii => Text.asciiHasCase
  | unicode => Text.hasCase

def someHasCase : Folding → Nat → Nat → Bool
  | ascii, lo, hi => (lo ≤ 0x5A && 0x41 ≤ hi) || (lo ≤ 0x7A && 0x61 ≤ hi)
  | unicode, lo, hi => Text.someHasCase lo hi

/-- The other lower-case codes that are the same letter. -/
def kin : Folding → Nat → List Nat
  | ascii, _ => []
  | unicode, code => Text.kin code

def lowerSources : Folding → Nat → List Nat
  | ascii, code =>
    if 0x61 ≤ code ∧ code ≤ 0x7A then [code, code - 32]
    else if 0x41 ≤ code ∧ code ≤ 0x5A then []
    else [code]
  | unicode, code => Text.lowerSources code

def forms (f : Folding) (code : Nat) : List Nat := f.lower code :: f.kin (f.lower code)

def cases (f : Folding) (code : Nat) : List Nat := (code :: f.kin code).flatMap f.lowerSources

end Folding

def Modes.folding? (m : Modes) : Option Folding :=
  if m.ignoreCase then some (if m.ascii then .ascii else .unicode) else Option.none

def CharKind.holds (m : Modes) : CharKind → Nat → Bool
  | digit, code => if m.ascii then Text.isAsciiDigit code else Text.isDigit code
  | space, code => if m.ascii then Text.isAsciiBlank code else Text.isBlank code
  | word, code => if m.ascii then Text.isAsciiWord code else Text.isWord code

def basicPlaneEnd : Nat := 0xFFFF

namespace Member

def holds (m : Modes) : Member → Nat → Bool
  | code c, x => c == x
  | range lo hi, x => lo ≤ x && x ≤ hi
  | kind negated k, x => k.holds m x != negated

def hasCase (f : Folding) : Member → Bool
  | code c => basicPlaneEnd < c || f.hasCase c
  | range lo hi => basicPlaneEnd < hi || f.someHasCase lo hi
  | kind _ _ => false

def holdsFolded (f : Folding) (m : Modes) : Member → Nat → Bool
  | code c, x => if basicPlaneEnd < c then c == x else (f.forms c).contains x
  | range lo hi, x =>
    (f.cases x).any (fun y => lo ≤ y && y ≤ hi && y ≤ basicPlaneEnd) ||
      (basicPlaneEnd < hi &&
        ((lo ≤ x && x ≤ hi) || (lo ≤ Text.upperCode x && Text.upperCode x ≤ hi)))
  | kind negated k, x => k.holds m x != negated

end Member

def literalHolds (m : Modes) (c x : Nat) : Bool :=
  match m.folding? with
  | none => c == x
  | some f => if f.hasCase c then (f.forms c).contains (f.lower x) else c == x

def setHolds (m : Modes) (members : List Member) (x : Nat) : Bool :=
  match m.folding? with
  | none => members.any (·.holds m x)
  | some f =>
    if members.any (·.hasCase f) then members.any (·.holdsFolded f m (f.lower x))
    else members.any (·.holds m x)

def sameCode (m : Modes) (x y : Nat) : Bool :=
  match m.folding? with
  | none => x == y
  | some f => f.lower x == f.lower y

end Lookahead.Pattern
