/-!
Properties of characters as tables. A property is a list of ranges of code points, in ascending
order and without overlap, and `within` looks a code point up in it. Every table of this library
is read through this one function.
-/

namespace Lookahead.Text

/-- Looks a code point up in an ascending list of ranges, given by their first and last members.
-/
def within : List (Nat × Nat) → Nat → Bool
  | [], _ => false
  | (lo, hi) :: rest, code => if code < lo then false else code ≤ hi || within rest code

end Lookahead.Text
