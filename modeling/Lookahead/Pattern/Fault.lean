import Lookahead.Text.Integer
import Lookahead.Text.Quoted

/-!
What can be wrong with a pattern. Most faults have a place, the offset of the character at which
the pattern stopped making sense. Those that only show once the whole pattern is known, such as a
look behind of no fixed width, have none.

A message that has a place ends in it, and gives line and column too when the pattern runs over
several lines.
-/

namespace Lookahead.Pattern

inductive Cause where
  | danglingEscape
  | missing (what : String)
  | unterminatedName (closer : Char)
  | badGroupName (name : String)
  | incompleteEscape (escape : String)
  | unknownCharacterName (name : String)
  | octalRange (escape : String)
  | badEscape (escape : String)
  | openGroup
  | invalidReference (number : Nat)
  | lookbehindReference
  | unterminatedSet
  | badRange (first last : String)
  | repeatBounds
  | nothingToRepeat
  | multipleRepeat
  | unexpectedEnd
  | unknownGroupName (name : String)
  | unknownExtension (text : String)
  | unterminatedComment
  | unterminatedGroup
  | badGroupNumber
  | thirdBranch
  | lateModes
  | redefinedName (name : String) (number earlier : Nat)
  | localeMode
  | mixedAlphabets
  | unknownMode
  | modeTurnedOn
  | modeTurnedOff
  | alphabetTurnedOff
  | turnedOnAndOff
  | unbalanced
  deriving Repr, DecidableEq

inductive RepeatName where
  | greedy
  | lazy
  | possessive
  deriving Repr, DecidableEq

inductive Fault where
  | malformed (cause : Cause) (offset : Nat)
  | wideLookbehind
  | looseLookbehind
  | repeatInTemplate (name : RepeatName)
  | repetitionTooLarge
  | codeTooLarge
  | tooManyDigits (count : Nat)
  | unwritableNumber
  | mixedGlobalAlphabets
  deriving Repr, DecidableEq

namespace Cause

def message : Cause → String
  | danglingEscape => "bad escape (end of pattern)"
  | missing what => "missing " ++ what
  | unterminatedName closer => "missing " ++ closer.toString ++ ", unterminated name"
  | badGroupName name => "bad character in group name " ++ Text.quoted name
  | incompleteEscape escape => "incomplete escape " ++ escape
  | unknownCharacterName name => "undefined character name " ++ Text.quoted name
  | octalRange escape => "octal escape value " ++ escape ++ " outside of range 0-0o377"
  | badEscape escape => "bad escape " ++ escape
  | openGroup => "cannot refer to an open group"
  | invalidReference number => "invalid group reference " ++ toString number
  | lookbehindReference => "cannot refer to group defined in the same lookbehind subpattern"
  | unterminatedSet => "unterminated character set"
  | badRange first last => "bad character range " ++ first ++ "-" ++ last
  | repeatBounds => "min repeat greater than max repeat"
  | nothingToRepeat => "nothing to repeat"
  | multipleRepeat => "multiple repeat"
  | unexpectedEnd => "unexpected end of pattern"
  | unknownGroupName name => "unknown group name " ++ Text.quoted name
  | unknownExtension text => "unknown extension " ++ text
  | unterminatedComment => "missing ), unterminated comment"
  | unterminatedGroup => "missing ), unterminated subpattern"
  | badGroupNumber => "bad group number"
  | thirdBranch => "conditional backref with more than two branches"
  | lateModes => "global flags not at the start of the expression"
  | redefinedName name number earlier =>
    "redefinition of group name " ++ Text.quoted name ++ " as group " ++ toString number ++
      "; was group " ++ toString earlier
  | localeMode => "bad inline flags: cannot use 'L' flag with a str pattern"
  | mixedAlphabets => "bad inline flags: flags 'a', 'u' and 'L' are incompatible"
  | unknownMode => "unknown flag"
  | modeTurnedOn => "bad inline flags: cannot turn on global flag"
  | modeTurnedOff => "bad inline flags: cannot turn off global flag"
  | alphabetTurnedOff => "bad inline flags: cannot turn off flags 'a', 'u' and 'L'"
  | turnedOnAndOff => "bad inline flags: flag turned on and off"
  | unbalanced => "unbalanced parenthesis"

end Cause

def RepeatName.text : RepeatName → String
  | greedy => "MAX_REPEAT"
  | lazy => "MIN_REPEAT"
  | possessive => "POSSESSIVE_REPEAT"

def placeText (pattern : List Char) (offset : Nat) : String :=
  let before := pattern.take offset
  " at position " ++ toString offset ++
    if '\n' ∈ pattern then
      " (line " ++ toString (before.count '\n' + 1) ++ ", column " ++
        toString ((before.reverse.takeWhile (· != '\n')).length + 1) ++ ")"
    else ""

def Fault.message (pattern : String) : Fault → String
  | malformed cause offset => cause.message ++ placeText pattern.toList offset
  | wideLookbehind => "looks too much behind"
  | looseLookbehind => "look-behind requires fixed-width pattern"
  | repeatInTemplate name => "internal: unsupported template operator " ++ name.text
  | repetitionTooLarge => "the repetition number is too large"
  | codeTooLarge => "Python int too large to convert to C int"
  | tooManyDigits count => Text.tooManyDigitsMessage count
  | unwritableNumber => Text.unwritableIntegerMessage
  | mixedGlobalAlphabets => "ASCII and UNICODE flags are incompatible"

end Lookahead.Pattern
