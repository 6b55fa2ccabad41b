import Lookahead.Text.CodeRange

/-!
White space of every script, in the sense of Unicode 14: the separators, the control characters
that separate lines and the four information separators U+001C to U+001F.
-/

namespace Lookahead.Text

def blankRanges : List (Nat × Nat) := [
  (0x9, 0xD), (0x1C, 0x20), (0x85, 0x85), (0xA0, 0xA0), (0x1680, 0x1680), (0x2000, 0x200A),
  (0x2028, 0x2029), (0x202F, 0x202F), (0x205F, 0x205F), (0x3000, 0x3000)]

def isBlank (code : Nat) : Bool := within blankRanges code

/-- The white space below U+0080 without the information separators: tab, line feed, vertical tab,
form feed, carriage return and space. -/
def isAsciiBlank (code : Nat) : Bool := code == 0x20 || (0x09 ≤ code && code ≤ 0x0D)

end Lookahead.Text
