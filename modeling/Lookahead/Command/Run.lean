import Lookahead.Command.Options
import Lookahead.Definition.Load
import Lookahead.Expression.Basic
import Lookahead.Log
import Lookahead.Parser.Acceptable
import Lookahead.Text.AsciiName

/-!
The command: parse a text with the built-in language or with one from a file, and print the tree.
Running it is a function from the arguments and the files at hand to what is printed and how it
ends, so it can be told apart what goes to the output and what to the errors, and nothing else can
happen.

It ends with status 0 for a tree, 1 for a text that is not in the language, and 2 for arguments, a
grammar or a root that make no sense. A text that cannot be read at all breaks it off, and so does
a grammar file that is not even text or whose strings are not.
-/

namespace Lookahead

def Parser.describeFault (g : Grammar) (p : Parser) (token : Token) : String :=
  let what :=
    if token.kind = g.catalog.epsilon then "end of input"
    else token.kind ++ " " ++ Text.quoted token.text
  token.start.text ++ ": unexpected " ++ what ++ "; expected one of " ++
    ", ".intercalate (p.acceptable g)

namespace Command

variable [Text.CharacterNames]

inductive Abort where
  | unopened (fault : OpenFault)
  | undecodable (fault : Text.Utf8Fault)
  | unreadable (fault : Document.Fault)
  | outOfRange (fault : Pattern.Fault)
  | read (fault : Lexicon.ReadFault)
  deriving Repr, DecidableEq

def Abort.message : Abort → String
  | unopened fault => fault.message
  | undecodable fault => fault.message
  | unreadable fault => fault.message
  | outOfRange fault => fault.message ""
  | read fault => fault.message

inductive Ending where
  | exit (status : Nat)
  | abort (reason : Abort)
  deriving Repr, DecidableEq

structure Outcome where
  output : List String := []
  errors : List String := []
  ending : Ending
  deriving Repr, DecidableEq

namespace Outcome

/-- Lines that come before everything else. -/
def after (output errors : List String) (o : Outcome) : Outcome :=
  { o with output := output ++ o.output, errors := errors ++ o.errors }

def exit (status : Nat) (output errors : List String) : Outcome :=
  { output, errors, ending := .exit status }

def abort (reason : Abort) : Outcome := { ending := .abort reason }

def refuse (fault : OptionFault) : Outcome :=
  exit 2 [] (usage ++ ["llsyntax: error: " ++ fault.message])

def invalidGrammar (message : String) : Outcome := exit 2 [] ["Invalid grammar: " ++ message]

end Outcome

def printed (lines : List String) : String := String.join (lines.map (· ++ "\n"))

def loadFailure (fault : LoadFault) : Outcome :=
  match fault with
  | .unopened .unnameable => .abort (.unopened .unnameable)
  | .undecodable fault => .abort (.undecodable fault)
  | .unreadable _ (.tooManyDigits count) => .abort (.unreadable (.tooManyDigits count))
  | .unreadable _ .halfPair => .abort (.unreadable .halfPair)
  | fault => .invalidGrammar fault.message

def buildFailure (fault : BuildFault) : Outcome :=
  match fault.limit? with
  | some limit => .abort (.outOfRange limit)
  | none => .invalidGrammar fault.message

def definitionFor (files : Folder) (o : Options) : Except Outcome Definition :=
  match o.grammar with
  | none => .ok Expression.definition
  | some path => (Definition.load files path).mapError loadFailure

def languageFor (files : Folder) (o : Options) : Except Outcome Language := do
  let definition ← definitionFor files o
  (definition.build Lexicon.defaultChunkSize).mapError buildFailure

/-- The filter that is asked for: a loaded grammar has none. -/
def filterFor (o : Options) : Filter :=
  if o.grammar.isNone && !o.noFilter then Expression.comments else .all

def rootFor (o : Options) (l : Language) : Option String :=
  match o.root, o.grammar with
  | some root, _ => some root
  | none, none => some "EXPR"
  | none, some _ => l.grammar.catalog.nonterminals.head?

def sourceFor (files : Folder) (o : Options) : Except Abort String :=
  match o.input with
  | none => .ok (o.text.getD "")
  | some path => do
    let bytes ← (files.open? path).mapError .unopened
    (Text.decodeUtf8 bytes).mapError .undecodable

def logged (o : Options) (records : List Record) : List String :=
  if 2 ≤ o.verbosity then records.map (·.line) else []

def report (l : Language) (p : Parser) : Outcome :=
  match p.fault with
  | some fault => .exit 1 [] [p.describeFault l.grammar fault.token]
  | none =>
    match p.root? with
    | some tree => .exit 0 tree.lines []
    | none => .exit 1 [] ["Input ended before the parse was complete"]

def parseChunks (o : Options) (l : Language) (root : String) (chunks : List (List Char)) :
    Outcome :=
  let filter := filterFor o
  match l.parse root filter chunks with
  | .error fault => .exit 2 [] ["Invalid root: " ++ fault.message]
  | .ok p => (report l p).after [] (logged o (l.log root filter chunks))

/-- Prints the tokens, if that is asked for, and parses. -/
def parseSource (o : Options) (l : Language) (root text : String) : Outcome :=
  match l.lexicon.chunksOf text with
  | .error fault => .abort (.read fault)
  | .ok chunks =>
    let tokens := (l.lexicon.scanChunks chunks).tokens
    let outcome := parseChunks o l root chunks
    if o.tokens then
      outcome.after (tokens.map (·.summary) ++ [""]) (logged o (l.lexicon.log tokens))
    else outcome

/-- Prints the table, if that is asked for, and goes on to the text. -/
def runLanguage (files : Folder) (o : Options) (l : Language) : Outcome :=
  match rootFor o l with
  | none => .refuse .noRoot
  | some root =>
    let outcome :=
      match sourceFor files o with
      | .error reason => .abort reason
      | .ok text => parseSource o l root text
    if o.table then outcome.after [l.grammar.format, ""] [] else outcome

def runOptions (files : Folder) (o : Options) : Outcome :=
  if o.text.isNone = o.input.isNone then .refuse .oneSource
  else
    match languageFor files o with
    | .error outcome => outcome
    | .ok l => (runLanguage files o l).after [] (logged o l.grammar.log)

def run (files : Folder) (arguments : List String) : Outcome :=
  match readOptions arguments with
  | .error fault => .refuse fault
  | .ok .help => .exit 0 helpText []
  | .ok (.options o) => runOptions files o

end Command

end Lookahead
