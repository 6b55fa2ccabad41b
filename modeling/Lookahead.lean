import Lookahead.Main
import Lookahead.Slice
import Lookahead.Proofs.Lexicon.Chunking
import Lookahead.Proofs.Lexicon.Combination
import Lookahead.Proofs.Parser.Invariant
import Lookahead.Proofs.Parser.Termination
import Lookahead.Proofs.Grammar.LeftRecursion
import Lookahead.Proofs.Grammar.Validation
import Lookahead.Proofs.Parser.Prefixes
import Lookahead.Proofs.Parser.Spans
import Lookahead.Proofs.Parser.Tiling
import Lookahead.Proofs.Language
import Lookahead.Proofs.Parser.Descent
import Lookahead.Proofs.Parser.Simulation
import Lookahead.Proofs.Parser.Alternatives
import Lookahead.Proofs.Expression.Comments
import Lookahead.Proofs.Expression.BlockComments
import Lookahead.Proofs.Verdict
import Lookahead.Proofs.Expression.Arithmetic
import Lookahead.Proofs.Lexicon.Construction
import Lookahead.Proofs.Grammar.Ambiguities
import Lookahead.Proofs.Grammar.Cycles
import Lookahead.Proofs.Parser.Reordering
import Lookahead.Proofs.Expression.Ordering
import Lookahead.Proofs.Command
import Lookahead.Proofs.Parser.Kinds
import Lookahead.Proofs.Definition.RoundTrip
import Lookahead.Proofs.Tree.Printing
import Lookahead.Proofs.Position.LineBreaks
