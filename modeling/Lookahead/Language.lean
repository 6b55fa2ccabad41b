import Lookahead.Filter
import Lookahead.Grammar.Build
import Lookahead.Lexicon.Stream
import Lookahead.Parser.Basic

/-!
Languages: a lexicon and a grammar over one catalog, built together and ready to parse with.
Building goes from the catalog over the lexicon to the grammar, and the first fault ends it.

Parsing hands the tokens of a source through a filter to a parser for the root symbol. It always
gives the parser back, which knows the tree or the token that did not fit.
-/

namespace Lookahead

inductive BuildFault where
  | catalog (fault : CatalogFault)
  | lexicon (fault : LexiconFault)
  | grammar (fault : GrammarFault)
  deriving Repr, DecidableEq

namespace BuildFault

def message : BuildFault → String
  | catalog fault => fault.message
  | lexicon fault => fault.message
  | grammar fault => fault.message

def limit? : BuildFault → Option Pattern.Fault
  | lexicon fault => fault.limit?
  | catalog _ | grammar _ => none

end BuildFault

inductive ParseFault where
  | root (fault : UnknownRoot)
  | read (fault : Lexicon.ReadFault)
  deriving Repr, DecidableEq

def ParseFault.message : ParseFault → String
  | root fault => fault.message
  | read fault => fault.message

/-- A lexicon and a grammar over the same symbols. -/
structure Language where
  lexicon : Lexicon
  grammar : Grammar
  deriving Repr

namespace Language

def build [Text.CharacterNames] (terminals : List Terminal) (productions : Productions)
    (chunkSize : Int) : Except BuildFault Language := do
  let catalog ← (Catalog.build terminals productions.names).mapError .catalog
  let lexicon ← (Lexicon.build catalog chunkSize).mapError .lexicon
  let grammar ← (Grammar.build catalog productions).mapError .grammar
  pure { lexicon, grammar }

/-- A parser after the tokens of a source that delivers the given chunks. -/
def feed (l : Language) (filter : Filter) (chunks : List (List Char)) (p : Parser) : Parser :=
  p.acceptAll l.grammar (filter.run (l.lexicon.scanChunks chunks).tokens)

def parse (l : Language) (root : String) (filter : Filter) (chunks : List (List Char)) :
    Except UnknownRoot Parser :=
  (l.grammar.parser root).map (l.feed filter chunks)

def parseText (l : Language) (root : String) (filter : Filter) (text : String) :
    Except ParseFault Parser := do
  let parser ← (l.grammar.parser root).mapError .root
  let chunks ← (l.lexicon.chunksOf text).mapError .read
  pure (l.feed filter chunks parser)

end Language

end Lookahead
