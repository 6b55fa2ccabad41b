import Lookahead.Command.Run
import Lookahead.Proofs.Language
import Lookahead.Proofs.Lexicon.Range
import Lookahead.Proofs.Parser.Termination

/-!
Definitions that make no sense. Reading a document, building what it defines and running the command
on a file that holds it are chains of steps, each of which has faults of its own. All of these are
told as faults of the definition, and then the command says what is wrong and exits, with one
exception that the lexicon brings in: something in a pattern that is out of range
(`Lexicon.OutOfRange`) breaks everything off.
-/

namespace Lookahead

variable {files : Folder} {path : String} {d : Document}

/-! ### Building -/

namespace Definition

variable {definition : Definition} {chunkSize : Int} {fault : BuildFault}

end Definition

/-! ### Files -/

/-- The file that a path leads to is text, and reading the text as a document comes to this. -/
def Folder.Reads (files : Folder) (path : String) (result : Except Document.Fault Document) :
    Prop :=
  ∃ bytes text, files.open? path = .ok bytes ∧ Text.decodeUtf8 bytes = .ok text ∧
    Document.read (String.ofList (joinLineBreaks text.toList)) = result

/-- The file that a path leads to is text, and the text is a document. -/
def Folder.Holds (files : Folder) (path : String) (d : Document) : Prop := files.Reads path (.ok d)

namespace Command

variable {o : Options} {l : Language} {outcome : Outcome}

/-- The run comes to its end, with one of the three statuses. -/
def Outcome.Exits (outcome : Outcome) : Prop :=
  ∃ status, status ≤ 2 ∧ outcome.ending = .exit status

theorem Outcome.Exits.after (h : outcome.Exits) (output errors : List String) :
    (outcome.after output errors).Exits := h

end Command

end Lookahead
