import Lookahead.Parser.Basic

/-!
A record of how a token is taken in: the two lists before every step, and what the step came to.
The record follows the same steps as `Parser.accept` and has no influence on them.
-/

namespace Lookahead

inductive Parser.Note where
  | accepting (token : Token)
  | state (expected : List String) (builders : List Builder)
  | mismatch (wanted : String)
  | expand (nonterminal : String) (body : Body)
  | stuck (nonterminal : String)
  | vanish (nonterminal : String)
  deriving Repr, DecidableEq

def Builder.text (b : Builder) : String :=
  "[" ++ b.kind ++ ", " ++ toString b.parts.length ++ "/" ++ toString b.size ++ "]"

namespace Parser

namespace Note

def message : Note → String
  | accepting token => "Accepting " ++ token.summary
  | state expected builders =>
    Text.padRight 40 (Text.quotedList expected) ++
      " [" ++ ", ".intercalate (builders.map (·.text)) ++ "]"
  | mismatch wanted => "Token mismatch: wanted " ++ wanted
  | expand nonterminal body => nonterminal ++ " -> " ++ Text.quotedTuple body
  | stuck nonterminal => "No expansion for " ++ nonterminal
  | vanish nonterminal => nonterminal ++ " -> <empty>"

end Note

def Note.ofMove? : Move → Option Note
  | .mismatch top => some (.mismatch top)
  | .expand top body _ => some (.expand top body)
  | .vanish top _ => some (.vanish top)
  | .stuck top => some (.stuck top)
  | .finish | .surplus | .consume _ => none

def trail (g : Grammar) (token : Token) : Nat → Parser → List Note
  | 0, _ => []
  | n + 1, p =>
    .state p.expected p.builders ::
      (Note.ofMove? (g.move token.kind p.expected)).toList ++
        match step g p.expected token p with
        | .done _ => []
        | .more p => trail g token n p

def trace (g : Grammar) (p : Parser) (token : Token) : List Note :=
  if p.closed then []
  else .accepting token :: trail g token (g.stepBound p.expected.length) p

end Parser

end Lookahead
