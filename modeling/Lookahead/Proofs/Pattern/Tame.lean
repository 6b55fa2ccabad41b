import Lookahead.Proofs.Pattern.Range

/-!
Escapes, sets and bounds that are clear of numbers out of range. What is wrong with them is always
told as a fault of the pattern. Only two places need that the text is clear: where a character is
given by its code, and where a repetition has bounds.
-/

namespace Lookahead.Pattern

open Piece Scan

variable {letter : Char → Prop}

/-! ### Escapes and sets -/

end Lookahead.Pattern
