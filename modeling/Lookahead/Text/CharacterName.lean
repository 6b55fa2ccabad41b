/-!
Names of characters. Which characters have names is settled by tables that are published apart and
grow with every edition, so it is left open here: `CharacterNames` is any choice of names, and what
depends on one takes the one that is in force. All editions agree on what a name is made of, and
nothing else is asked of them.
-/

namespace Lookahead.Text

/-- Letters of ASCII, digits, the space and the hyphen. -/
def isNameChar (c : Char) : Bool := c.isAlphanum || c == ' ' || c == '-'

/-- The names in force. -/
class CharacterNames where
  find? : String → Option Char
  isNameChar_of_find? {name : String} {c : Char} (h : find? name = some c) :
    ∀ d ∈ name.toList, isNameChar d = true

end Lookahead.Text
