import Lookahead.Text.Blank
import Lookahead.Text.Digit

/-!
Integers as people write them: with space around them, a sign in front, digits of any script, and
single underscores between the digits. A conditional in a pattern may give the number of its group
this way.

Text of nothing but ASCII characters may only have ASCII space around the number; in other text
any white space beyond ASCII counts as a space too.
-/

namespace Lookahead.Text

/-- Integers of more digits are not read or written. -/
def integerDigitLimit : Nat := 4300

def tooManyDigitsMessage (count : Nat) : String :=
  "Exceeds the limit (" ++ toString integerDigitLimit ++
    " digits) for integer string conversion: value has " ++ toString count ++
    " digits; use sys.set_int_max_str_digits() to increase the limit"

def unwritableIntegerMessage : String :=
  "Exceeds the limit (" ++ toString integerDigitLimit ++
    " digits) for integer string conversion; use sys.set_int_max_str_digits() to increase the limit"

def decimalValue (digits : List Char) : Nat :=
  digits.foldl (fun n d => n * 10 + (d.toNat - 0x30)) 0

/-- Replaces digits and white space beyond ASCII by those of ASCII, and every other character
beyond ASCII by one that no number has. -/
def toAsciiNumber (c : Char) : Char :=
  if c.toNat < 0x7F then c
  else if isBlank c.toNat then ' '
  else
    match digitValue? c.toNat with
    | some d => Char.ofNat (0x30 + d)
    | none => '?'

/-- Digits with single underscores between them, without the underscores. -/
def groupedDigits? : List Char → Option (List Char)
  | [] => none
  | [d] => if isAsciiDigit d.toNat then some [d] else none
  | d :: '_' :: rest => if isAsciiDigit d.toNat then (groupedDigits? rest).map (d :: ·) else none
  | d :: rest => if isAsciiDigit d.toNat then (groupedDigits? rest).map (d :: ·) else none

def readInteger? (text : List Char) : Option Int := do
  let text := if text.all (·.toNat < 0x80) then text else text.map toAsciiNumber
  let isSpace (c : Char) : Bool := isAsciiBlank c.toNat
  let text := ((text.dropWhile isSpace).reverse.dropWhile isSpace).reverse
  let (negative, text) := match text with
    | '-' :: rest => (true, rest)
    | '+' :: rest => (false, rest)
    | _ => (false, text)
  let digits ← groupedDigits? text
  if digits.length > integerDigitLimit then none
  else
    let value : Int := decimalValue digits
    some (if negative then -value else value)

end Lookahead.Text
