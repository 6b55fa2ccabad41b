import Lookahead.Language
import Lookahead.Parser.Trace

/-!
The log: what can be told about building and parsing, in the order in which it happens. A token is
reported when the lexer has matched it, and then what the parser does with everything that the
filter passes on because of it. Text that nothing matches and the end of the input are not
reported by the lexer, since no pattern was matched there.
-/

namespace Lookahead

inductive Record where
  | compiled (nonterminals withEmpty : Nat)
  | matched (token : Token)
  | parser (note : Parser.Note)
  deriving Repr, DecidableEq

namespace Record

def line : Record → String
  | compiled nonterminals withEmpty =>
    "llsyntax.grammar: Compiled " ++ toString nonterminals ++ " non-terminals (" ++
      toString withEmpty ++ " with empty alternatives)"
  | matched token =>
    "llsyntax.lexer: " ++ token.kind ++ " " ++ Text.quoted token.text ++ " at " ++ token.start.text
  | parser note => "llsyntax.parser: " ++ note.message

end Record

def Grammar.log (g : Grammar) : List Record :=
  [.compiled g.catalog.nonterminals.length g.empty.length]

def Lexicon.logOf (l : Lexicon) (token : Token) : List Record :=
  if token.kind = l.catalog.epsilon ∨ token.kind = l.catalog.unmatched then []
  else [.matched token]

def Lexicon.log (l : Lexicon) (tokens : List Token) : List Record := tokens.flatMap l.logOf

def Parser.log (g : Grammar) : Parser → List Token → List Record
  | _, [] => []
  | p, t :: rest => (p.trace g t).map .parser ++ log g (p.accept g t) rest

namespace Language

/-- What is told of tokens on their way through a filter to a parser. -/
def logFrom (l : Language) (filter : Filter) : filter.State → Parser → List Token → List Record
  | _, _, [] => []
  | s, p, t :: rest =>
    let (s, out) := filter.step s t
    l.lexicon.logOf t ++ p.log l.grammar out ++
      logFrom l filter s (p.acceptAll l.grammar out) rest

def log (l : Language) (root : String) (filter : Filter) (chunks : List (List Char)) :
    List Record :=
  match l.grammar.parser root with
  | .error _ => []
  | .ok p => l.logFrom filter filter.start p (l.lexicon.scanChunks chunks).tokens

end Language

end Lookahead
