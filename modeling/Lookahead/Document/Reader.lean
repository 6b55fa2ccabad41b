import Lookahead.Document.Basic
import Lookahead.Text.Integer

/-!
Reading a document from its text. The text is read once, from the front; what is left of it is
passed from step to step, and a fault is put down by how much was left when it was found. Only
`read` turns that into a place in the text.

A value may be `NaN` or an infinity, an object may name a field twice (the last value counts, at
the place of the first), and a string may not hold a control character. A string may hold half of a
pair of code units on its own, but then it is not a text of characters, and no document here has it.
Such a string is read to its end, since there may be something else wrong behind it.
-/

namespace Lookahead.Document

inductive Cause where
  | value
  | fieldName
  | colon
  | comma
  | extra
  | unterminated
  | control
  | escape
  | codeEscape
  | byteOrderMark
  deriving Repr, DecidableEq

namespace Cause

def message : Cause → String
  | value => "Expecting value"
  | fieldName => "Expecting property name enclosed in double quotes"
  | colon => "Expecting ':' delimiter"
  | comma => "Expecting ',' delimiter"
  | extra => "Extra data"
  | unterminated => "Unterminated string starting at"
  | control => "Invalid control character at"
  | escape => "Invalid \\escape"
  | codeEscape => "Invalid \\uXXXX escape"
  | byteOrderMark => "Unexpected UTF-8 BOM (decode using utf-8-sig)"

end Cause

/-- A fault of a text: one of its shape, at an offset, an integer of too many digits, or a string
with half of a pair on its own. -/
inductive Fault where
  | malformed (cause : Cause) (line column offset : Nat)
  | tooManyDigits (count : Nat)
  | halfPair
  deriving Repr, DecidableEq

namespace Reader

/-- A fault while reading, with the number of characters that were left. -/
inductive Stop where
  | malformed (cause : Cause) (left : Nat)
  | tooManyDigits (count : Nat)

def isSpace (c : Char) : Bool := c == ' ' || c == '\t' || c == '\n' || c == '\r'

def skip (rest : List Char) : List Char := rest.dropWhile isSpace

def hexDigit? (c : Char) : Option Nat :=
  if '0' ≤ c ∧ c ≤ '9' then some (c.toNat - 48)
  else if 'a' ≤ c ∧ c ≤ 'f' then some (c.toNat - 87)
  else if 'A' ≤ c ∧ c ≤ 'F' then some (c.toNat - 55)
  else none

def hexCode? (a b c d : Char) : Option Nat := do
  let a ← hexDigit? a
  let b ← hexDigit? b
  let c ← hexDigit? c
  let d ← hexDigit? d
  pure (((a * 16 + b) * 16 + c) * 16 + d)

/-- The character of a code unit; half of a pair is none. -/
def charOfUnit? (code : Nat) : Option Char :=
  if 0xD800 ≤ code ∧ code ≤ 0xDFFF then none else some (Char.ofNat code)

/-- The character of two code units, if they are the two halves of a pair. -/
def charOfPair? (high low : Nat) : Option Char :=
  if 0xD800 ≤ high ∧ high ≤ 0xDBFF ∧ 0xDC00 ≤ low ∧ low ≤ 0xDFFF then
    some (Char.ofNat (0x10000 + (high - 0xD800) * 0x400 + (low - 0xDC00)))
  else none

/-- The letter escapes. -/
def escaped? (c : Char) : Option Char :=
  if c = '"' ∨ c = '\\' ∨ c = '/' then some c
  else if c = 'b' then some '\x08'
  else if c = 'f' then some '\x0C'
  else if c = 'n' then some '\n'
  else if c = 'r' then some '\r'
  else if c = 't' then some '\t'
  else none

inductive SecondHalf where
  | absent
  | unreadable
  | code (value : Nat)

/-- Looks for a second code escape, which has to be followed by something. -/
def secondHalf : List Char → SecondHalf
  | '\\' :: 'u' :: a :: b :: c :: d :: _ :: _ =>
    match hexCode? a b c d with
    | some value => .code value
    | none => .unreadable
  | _ => .absent

/-- The rest of a string after its opening quote, before which `opening` characters were left. It
has no text if one of the characters is missing. -/
def stringTail (opening : Nat) (done : List (Option Char)) (rest : List Char) :
    Except Stop (Option String × List Char) :=
  match rest with
  | [] => .error (.malformed .unterminated opening)
  | '"' :: rest => .ok ((done.reverse.mapM id).map String.ofList, rest)
  | ['\\'] => .error (.malformed .unterminated opening)
  | '\\' :: 'u' :: a :: b :: c :: d :: next :: rest =>
    match hexCode? a b c d with
    | none => .error (.malformed .codeEscape (rest.length + 6))
    | some high =>
      -- the first half of a pair: the second one is looked for, and taken only if it fits
      if 0xD800 ≤ high ∧ high ≤ 0xDBFF then
        match secondHalf (next :: rest) with
        | .absent => stringTail opening (charOfUnit? high :: done) (next :: rest)
        | .unreadable => .error (.malformed .codeEscape rest.length)
        | .code low =>
          match charOfPair? high low with
          | some c => stringTail opening (some c :: done) (rest.drop 5)
          | none => stringTail opening (charOfUnit? high :: done) (next :: rest)
      else stringTail opening (charOfUnit? high :: done) (next :: rest)
  | '\\' :: 'u' :: rest => .error (.malformed .codeEscape (rest.length + 1))
  | '\\' :: c :: rest =>
    match escaped? c with
    | some c => stringTail opening (some c :: done) rest
    | none => .error (.malformed .escape (rest.length + 2))
  | c :: rest =>
    if c.toNat ≤ 0x1F then .error (.malformed .control (rest.length + 1))
    else stringTail opening (some c :: done) rest
termination_by rest.length
decreasing_by all_goals simp_all; try omega

def isDigit (c : Char) : Bool := '0' ≤ c && c ≤ '9'

/-- The whole part of a number, which has no leading zeros. -/
def wholePart? : List Char → Option (List Char × List Char)
  | [] => none
  | c :: rest =>
    if c = '0' then some ([c], rest)
    else if isDigit c then some (c :: rest.takeWhile isDigit, rest.dropWhile isDigit)
    else none

def afterFraction? : List Char → Option (List Char)
  | '.' :: d :: rest => if isDigit d then some (rest.dropWhile isDigit) else none
  | _ => none

def afterExponent? : List Char → Option (List Char)
  | e :: rest =>
    if e = 'e' ∨ e = 'E' then
      let digits := match rest with
        | sign :: digits => if sign = '-' ∨ sign = '+' then digits else rest
        | [] => rest
      match digits with
      | d :: more => if isDigit d then some (more.dropWhile isDigit) else none
      | [] => none
    else none
  | [] => none

/-- A number; nothing when the text does not start with one. -/
def number? (text : List Char) : Option (Except Stop (Document × List Char)) := do
  let (negative, unsigned) := match text with
    | '-' :: rest => (true, rest)
    | _ => (false, text)
  let (whole, rest) ← wholePart? unsigned
  let real (rest : List Char) : Except Stop (Document × List Char) := .ok (.real, rest)
  match afterFraction? rest with
  | some rest => pure (real ((afterExponent? rest).getD rest))
  | none =>
    match afterExponent? rest with
    | some rest => pure (real rest)
    | none =>
      if whole.length > Text.integerDigitLimit then pure (.error (.tooManyDigits whole.length))
      else
        let value : Int := Text.decimalValue whole
        pure (.ok (.integer (if negative then -value else value), rest))

def words : List (List Char × Document) :=
  [("null".toList, .null), ("true".toList, .bool true), ("false".toList, .bool false),
    ("NaN".toList, .real), ("Infinity".toList, .real), ("-Infinity".toList, .real)]

def word? (text : List Char) : Option (Document × List Char) :=
  (words.find? fun w => w.1.isPrefixOf text).map fun w => (w.2, text.drop w.1.length)

/-- An object, if all its fields have a value. A value in whose place another one was put is not
asked about. -/
def object? (fields : Table (Option Document)) : Option Document :=
  (fields.mapM fun (entry : String × Option Document) => entry.2.map (entry.1, ·)).map .object

mutual

/-- A value at the very start of the text; nothing, if it holds a string without a text. The number
bounds how many values and separators are read. -/
def value : Nat → List Char → Except Stop (Option Document × List Char)
  | 0, text => .error (.malformed .value text.length)
  | n + 1, text =>
    match text with
    | '"' :: rest =>
      (stringTail text.length [] rest).map fun (s, rest) => (s.map Document.string, rest)
    | '{' :: rest =>
      match skip rest with
      | '}' :: rest => .ok (some (.object []), rest)
      | rest => fields n (some []) rest
    | '[' :: rest =>
      match skip rest with
      | ']' :: rest => .ok (some (.list []), rest)
      | rest => items n (some []) rest
    | _ => do
      let (document, rest) ←
        match word? text with
        | some found => .ok found
        | none => (number? text).getD (.error (.malformed .value text.length))
      pure (some document, rest)

def items : Nat → Option (List Document) → List Char →
    Except Stop (Option Document × List Char)
  | 0, _, text => .error (.malformed .value text.length)
  | n + 1, done, text => do
    let (item, rest) ← value n text
    let done := do pure ((← item) :: (← done))
    match skip rest with
    | ']' :: rest => .ok (done.map fun items => .list items.reverse, rest)
    | ',' :: rest => items n done (skip rest)
    | rest => .error (.malformed .comma rest.length)

def fields : Nat → Option (Table (Option Document)) → List Char →
    Except Stop (Option Document × List Char)
  | 0, _, text => .error (.malformed .value text.length)
  | n + 1, done, text =>
    match text with
    | '"' :: rest => do
      let (name, rest) ← stringTail text.length [] rest
      match skip rest with
      | ':' :: rest =>
        let (item, rest) ← value n (skip rest)
        let done := do pure (Table.put (← name) item (← done))
        match skip rest with
        | '}' :: rest => .ok (done.bind object?, rest)
        | ',' :: rest => fields n done (skip rest)
        | rest => .error (.malformed .comma rest.length)
      | rest => .error (.malformed .colon rest.length)
    | _ => .error (.malformed .fieldName text.length)

end

def whole (text : List Char) : Except Stop (Option Document) :=
  if text.head? = some '\uFEFF' then .error (.malformed .byteOrderMark text.length)
  else do
    let (document, rest) ← value (2 * text.length + 2) (skip text)
    match skip rest with
    | [] => .ok document
    | rest => .error (.malformed .extra rest.length)

/-- Line and column of an offset, both from 1; only line feeds count as line breaks. -/
def lineColumn (text : List Char) (offset : Nat) : Nat × Nat :=
  let before := text.take offset
  (before.count '\n' + 1, (before.reverse.takeWhile (· != '\n')).length + 1)

def Stop.fault (text : List Char) : Stop → Fault
  | malformed cause left =>
    let offset := text.length - left
    let (line, column) := lineColumn text offset
    .malformed cause line column offset
  | tooManyDigits count => .tooManyDigits count

end Reader

def read (text : String) : Except Fault Document := do
  match ← (Reader.whole text.toList).mapError (Reader.Stop.fault text.toList) with
  | some document => pure document
  | none => .error .halfPair

namespace Fault

def message : Fault → String
  | malformed cause line column offset =>
    cause.message ++ ": line " ++ toString line ++ " column " ++ toString column ++
      " (char " ++ toString offset ++ ")"
  | tooManyDigits count => Text.tooManyDigitsMessage count
  | halfPair => "Half of a pair of code units on its own"

end Fault

end Lookahead.Document
