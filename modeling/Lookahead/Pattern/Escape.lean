import Lookahead.Pattern.Basic
import Lookahead.Pattern.Scan
import Lookahead.Text.CharacterName

/-!
Escapes and sets of characters. What a backslash means depends on where it stands: inside a set it
names a character or a kind of characters, outside it may also name a place or refer to a group.
The parts that both have in common, characters given by their code, come first. References need to
know the groups of the pattern and are read elsewhere.
-/

namespace Lookahead.Pattern

open Scan

def isAsciiDigit (c : Char) : Bool := '0' ≤ c && c ≤ '9'

def isOctalDigit (c : Char) : Bool := '0' ≤ c && c ≤ '7'

def isHexDigit (c : Char) : Bool :=
  isAsciiDigit c || ('a' ≤ c && c ≤ 'f') || ('A' ≤ c && c ≤ 'F')

def isAsciiLetter (c : Char) : Bool := ('a' ≤ c && c ≤ 'z') || ('A' ≤ c && c ≤ 'Z')

def hexDigitValue (c : Char) : Nat :=
  if isAsciiDigit c then c.toNat - '0'.toNat
  else if 'a' ≤ c then c.toNat - 'a'.toNat + 10
  else c.toNat - 'A'.toNat + 10

def digitsValue (base : Nat) (digits : List Char) : Nat :=
  digits.foldl (fun n d => n * base + hexDigitValue d) 0

def escapeText (chars : List Char) : String := String.ofList ('\\' :: chars)

def failEscape {α : Type} (cause : String → Cause) (chars : List Char) : Scan α :=
  failBack (cause (escapeText chars)) (chars.length + 1)

def controlCode? : Char → Option Nat
  | 'a' => some 0x07
  | 'f' => some 0x0C
  | 'n' => some 0x0A
  | 'r' => some 0x0D
  | 't' => some 0x09
  | 'v' => some 0x0B
  | '\\' => some 0x5C
  | _ => none

/-- The kinds of characters by their letters; a capital stands for all others. -/
def kind? : Char → Option Member
  | 'd' => some (.kind false .digit)
  | 'D' => some (.kind true .digit)
  | 's' => some (.kind false .space)
  | 'S' => some (.kind true .space)
  | 'w' => some (.kind false .word)
  | 'W' => some (.kind true .word)
  | _ => none

def hexEscapeLength? : Char → Option Nat
  | 'x' => some 2
  | 'u' => some 4
  | 'U' => some 8
  | _ => none

/-- Codes are words of 31 bits before it is asked whether there is such a character. -/
def codeLimit : Nat := 2147483648

def lastCode : Nat := 0x10FFFF

def hexEscape (letter : Char) (count : Nat) : Scan Nat := do
  let digits ← takeUpTo isHexDigit count
  if digits.length ≠ count then failEscape .incompleteEscape (letter :: digits)
  else
    let code := digitsValue 16 digits
    if codeLimit ≤ code then refuse .codeTooLarge
    else if lastCode < code then failEscape .badEscape (letter :: digits)
    else pure code

/-- An escaped character that stands for itself, which a letter or a digit does not. -/
def selfEscape (c : Char) : Scan Nat :=
  if isAsciiLetter c || isAsciiDigit c then failEscape .badEscape [c] else pure c.toNat

/-- Up to three octal digits, the first of which has been taken. -/
def octalInSet (first : Char) : Scan Nat := do
  let digits ← takeUpTo isOctalDigit 2
  let code := digitsValue 8 (first :: digits)
  if code > 0o377 then failEscape .octalRange (first :: digits) else pure code

variable [Text.CharacterNames]

def namedEscape : Scan Nat := do
  if ← accept '{' then
    let name ← takeUntil '}' "character name"
    match Text.CharacterNames.find? name with
    | some c => pure c.toNat
    | none => failBack (.unknownCharacterName name) (name.length + 4)
  else failBack (.missing '{'.toString) 0

/-- A character by its code or its name, if the letter after the backslash announces one. -/
def announcedCode (letter : Char) : Scan (Option Nat) :=
  match hexEscapeLength? letter with
  | some count => do pure (some (← hexEscape letter count))
  | none => if letter = 'N' then do pure (some (← namedEscape)) else pure none

def setEscape (c : Char) : Scan Member :=
  if c = 'b' then pure (.code 0x08)
  else
    match controlCode? c, kind? c with
    | some code, _ => pure (.code code)
    | none, some member => pure member
    | none, none => do
      match ← announcedCode c with
      | some code => pure (.code code)
      | none =>
        if isOctalDigit c then pure (.code (← octalInSet c)) else pure (.code (← selfEscape c))

/-- One end of a range, or a member of its own. A lone backslash is never taken. -/
def setMember : Piece → Scan Member
  | .plain c => pure (.code c.toNat)
  | .escaped c => setEscape c
  | .dangling => pure (.code '\\'.toNat)

/-- What follows a member and a hyphen: the other end of a range, or the end of the set, before
which the hyphen stands for itself. -/
def rangeTail (start : Nat) (done : List Member) (this : Piece) (first : Member) :
    Scan (List Member ⊕ List Member) := do
  match ← take with
  | none => failAt .unterminatedSet start
  | some that =>
    if that = .plain ']' then pure (.inr (.code '-'.toNat :: first :: done))
    else
      let last ← setMember that
      match first, last with
      | .code lo, .code hi =>
        if hi < lo then failBack (.badRange this.text that.text) (this.width + 1 + that.width)
        else pure (.inl (.range lo hi :: done))
      | _, _ => failBack (.badRange this.text that.text) (this.width + 1 + that.width)

/-- The members of a set that starts at the given offset, up to the closing bracket. A closing
bracket in the first place is a member. -/
def setMembers (start : Nat) : Scan (List Member) :=
  loop
    (fun done this => do
      if this = .plain ']' ∧ done ≠ [] then pure (.inr done)
      else
        let member ← setMember this
        if ← accept '-' then rangeTail start done this member
        else pure (.inl (member :: done)))
    (fun _ => failAt .unterminatedSet start)
    []

/-- A set, after its opening bracket. A set of a single character is that character. -/
def readSet (start : Nat) : Scan Term := do
  let negated ← accept '^'
  let members := (← setMembers start).reverse.eraseDups
  match members with
  | [.code code] => pure (.literal negated code)
  | _ => pure (.set negated members)

end Lookahead.Pattern
