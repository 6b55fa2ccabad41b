import Lookahead.Text.CharacterName

/-!
The names of the printable characters of ASCII. They are in force where a program is run and no
others are given. Capital and small letters in a name are the same.
-/

namespace Lookahead.Text

def signNames : List (String × Char) := [
  ("SPACE", ' '), ("EXCLAMATION MARK", '!'), ("QUOTATION MARK", '"'), ("NUMBER SIGN", '#'),
  ("DOLLAR SIGN", '$'), ("PERCENT SIGN", '%'), ("AMPERSAND", '&'), ("APOSTROPHE", '\''),
  ("LEFT PARENTHESIS", '('), ("RIGHT PARENTHESIS", ')'), ("ASTERISK", '*'), ("PLUS SIGN", '+'),
  ("COMMA", ','), ("HYPHEN-MINUS", '-'), ("FULL STOP", '.'), ("SOLIDUS", '/'),
  ("DIGIT ZERO", '0'), ("DIGIT ONE", '1'), ("DIGIT TWO", '2'), ("DIGIT THREE", '3'),
  ("DIGIT FOUR", '4'), ("DIGIT FIVE", '5'), ("DIGIT SIX", '6'), ("DIGIT SEVEN", '7'),
  ("DIGIT EIGHT", '8'), ("DIGIT NINE", '9'), ("COLON", ':'), ("SEMICOLON", ';'),
  ("LESS-THAN SIGN", '<'), ("EQUALS SIGN", '='), ("GREATER-THAN SIGN", '>'),
  ("QUESTION MARK", '?'), ("COMMERCIAL AT", '@'), ("LEFT SQUARE BRACKET", '['),
  ("REVERSE SOLIDUS", '\\'), ("RIGHT SQUARE BRACKET", ']'), ("CIRCUMFLEX ACCENT", '^'),
  ("LOW LINE", '_'), ("GRAVE ACCENT", '\x60'), ("LEFT CURLY BRACKET", '{'),
  ("VERTICAL LINE", '|'), ("RIGHT CURLY BRACKET", '}'), ("TILDE", '~')]

def letterNames : List (String × Char) :=
  "ABCDEFGHIJKLMNOPQRSTUVWXYZ".toList.flatMap fun c =>
    [("LATIN CAPITAL LETTER " ++ c.toString, c), ("LATIN SMALL LETTER " ++ c.toString, c.toLower)]

def asciiNamed? (name : String) : Option Char :=
  if name.toList.all isNameChar then
    (signNames ++ letterNames).lookup (String.ofList (name.toList.map Char.toUpper))
  else none

instance asciiNames : CharacterNames where
  find? := asciiNamed?
  isNameChar_of_find? h := by
    unfold asciiNamed? at h
    split at h
    · exact List.all_eq_true.mp ‹_›
    · contradiction

end Lookahead.Text
