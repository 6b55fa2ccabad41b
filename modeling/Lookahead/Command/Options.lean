import Lookahead.Text.Digit
import Lookahead.Text.Quoted

/-!
The options of the command line. Arguments are first told apart, each by itself: options, text,
and the `--` after which everything is text. Then they are taken from left to right. An option may
be written in any way that begins no other one, and its value may follow it or be attached with an
equals sign; options of a single letter may share a hyphen. An argument that only looks like an
option, because it is a negative number or contains a space, is text.

There is at most one text. Whatever has no place is kept, and refused together when all arguments
have been taken. Asking for help ends everything at once.
-/

namespace Lookahead.Command

inductive OptionName where
  | help
  | input
  | grammar
  | root
  | tokens
  | table
  | noFilter
  | verbose
  deriving Repr, DecidableEq

namespace OptionName

def spellings : List (String × OptionName) := [
  ("-h", help), ("--help", help), ("--input", input), ("--grammar", grammar), ("--root", root),
  ("--tokens", tokens), ("--table", table), ("--no-filter", noFilter), ("-v", verbose),
  ("--verbose", verbose)]

def text (name : OptionName) : String :=
  "/".intercalate ((spellings.filter fun s => s.2 = name).map Prod.fst)

def takesValue : OptionName → Bool
  | input | grammar | root => true
  | help | tokens | table | noFilter | verbose => false

end OptionName

structure Options where
  text : Option String := none
  input : Option String := none
  grammar : Option String := none
  root : Option String := none
  tokens : Bool := false
  table : Bool := false
  noFilter : Bool := false
  verbosity : Nat := 0
  deriving Repr, DecidableEq, Inhabited

inductive OptionFault where
  | ambiguous (argument : String) (spellings : List String)
  | valueMissing (name : OptionName)
  | valueIgnored (name : OptionName) (value : String)
  | unrecognized (arguments : List String)
  | oneSource
  | noRoot
  deriving Repr, DecidableEq

namespace OptionFault

def message : OptionFault → String
  | ambiguous argument spellings =>
    "ambiguous option: " ++ argument ++ " could match " ++ ", ".intercalate spellings
  | valueMissing name => "argument " ++ name.text ++ ": expected one argument"
  | valueIgnored name value =>
    "argument " ++ name.text ++ ": ignored explicit argument " ++ Text.quoted value
  | unrecognized arguments => "unrecognized arguments: " ++ " ".intercalate arguments
  | oneSource => "Give exactly one of TEXT or --input"
  | noRoot => "The grammar has no non-terminals; give --root"

end OptionFault

/-! ### Telling arguments apart -/

/-- What an argument is. A short option is one of a single letter, whose attached value may be
further letters. -/
inductive Argument where
  | text (value : String)
  | separator
  | option (name : OptionName) (short : Bool) (attached : Option String)
  | unknown (argument : String)
  deriving Repr, DecidableEq

def splitAtEquals (argument : String) : String × Option String :=
  let chars := argument.toList
  match chars.dropWhile (· != '=') with
  | [] => (argument, none)
  | _ :: value => (String.ofList (chars.takeWhile (· != '=')), some (String.ofList value))

/-- A hyphen and digits, or a hyphen, digits or none, a point and digits. A line feed may follow.
-/
def isNegativeNumber (argument : String) : Bool :=
  let isDigit (c : Char) : Bool := Text.isDigit c.toNat
  match argument.toList with
  | '-' :: rest =>
    let rest := if rest.getLast? = some '\n' then rest.dropLast else rest
    match rest.dropWhile isDigit with
    | [] => !rest.isEmpty
    | '.' :: fraction => !fraction.isEmpty && fraction.all isDigit
    | _ => false
  | _ => false

/-- The options that an argument with two hyphens may mean: those that begin with it. -/
def longCandidates (argument : String) : List (String × Argument) :=
  let (start, attached) := splitAtEquals argument
  (OptionName.spellings.filter fun s => s.1.startsWith start).map fun (spelling, name) =>
    (spelling, .option name false attached)

def shortCandidates (argument : String) : List (String × Argument) :=
  let letter := String.ofList (argument.toList.take 2)
  let attached := String.ofList (argument.toList.drop 2)
  OptionName.spellings.filterMap fun (spelling, name) =>
    if spelling = letter then some (spelling, .option name true (some attached))
    else if spelling.startsWith argument then some (spelling, .option name true none)
    else none

def candidates (argument : String) : List (String × Argument) :=
  if argument.startsWith "--" then longCandidates argument else shortCandidates argument

def isLong (spelling : String) : Bool := spelling.startsWith "--"

/-- An argument before any `--`. -/
def classify (argument : String) : Except OptionFault Argument :=
  if !argument.startsWith "-" then .ok (.text argument)
  else
    match OptionName.spellings.lookup argument with
    | some name => .ok (.option name (!isLong argument) none)
    | none =>
      if argument = "-" then .ok (.text argument)
      else
        match splitAtEquals argument with
        | (spelling, some value) =>
          match OptionName.spellings.lookup spelling with
          | some name => .ok (.option name (!isLong spelling) (some value))
          | none => choose argument
        | _ => choose argument
where
  /-- The only option that the argument may mean, or what it is if there is none. -/
  choose (argument : String) : Except OptionFault Argument :=
    match candidates argument with
    | [(_, found)] => .ok found
    | [] =>
      if isNegativeNumber argument || argument.contains ' ' then .ok (.text argument)
      else .ok (.unknown argument)
    | several => .error (.ambiguous argument (several.map Prod.fst))

def classifyAll : List String → Except OptionFault (List Argument)
  | [] => .ok []
  | argument :: rest =>
    if argument = "--" then .ok (.separator :: rest.map .text)
    else do
      let first ← classify argument
      let others ← classifyAll rest
      pure (first :: others)

/-! ### Taking arguments -/

structure Progress where
  options : Options := {}
  /-- The text may still come. -/
  textOpen : Bool := true
  /-- The last argument was taken as the text. -/
  textLast : Bool := false
  /-- What has no place. -/
  extras : List String := []
  deriving Repr, DecidableEq, Inhabited

inductive Request where
  | help
  | options (options : Options)
  deriving Repr, DecidableEq

/-- Turns on what an option without a value stands for; nothing for the one that asks for help. -/
def Options.turnOn? (o : Options) : OptionName → Option Options
  | .tokens => some { o with tokens := true }
  | .table => some { o with table := true }
  | .noFilter => some { o with noFilter := true }
  | .verbose => some { o with verbosity := o.verbosity + 1 }
  | .help => none
  | .input | .grammar | .root => some o

def Options.setValue (o : Options) (value : String) : OptionName → Options
  | .input => { o with input := some value }
  | .grammar => { o with grammar := some value }
  | .root => { o with root := some value }
  | _ => o

def letters (name : OptionName) (attached : List Char) : Except OptionFault (List OptionName) :=
  match attached with
  | [] => .ok [name]
  | c :: rest =>
    match OptionName.spellings.lookup (String.ofList ['-', c]) with
    | some other => (letters other rest).map (name :: ·)
    | none => .error (.valueIgnored name (String.ofList attached))

def flagsOf (name : OptionName) (short : Bool) :
    Option String → Except OptionFault (List OptionName)
  | none => .ok [name]
  | some attached =>
    if short && attached != "" then letters name attached.toList
    else .error (.valueIgnored name attached)

def turnOnAll (o : Options) : List OptionName → Option Options
  | [] => some o
  | name :: rest => (o.turnOn? name).bind (turnOnAll · rest)

def Progress.keep (p : Progress) (extra : String) : Progress :=
  { p with extras := p.extras ++ [extra], textLast := false }

def Progress.takeText (p : Progress) (value : String) : Progress :=
  if p.textOpen then
    { p with options := { p.options with text := some value }, textOpen := false, textLast := true }
  else p.keep value

def Progress.withValue (p : Progress) (name : OptionName) (value : String) : Progress :=
  { p with options := p.options.setValue value name, textLast := false }

def Progress.finish (p : Progress) : Except OptionFault Request :=
  if p.extras = [] then .ok (.options p.options) else .error (.unrecognized p.extras)

def takeAll (p : Progress) (arguments : List Argument) : Except OptionFault Request :=
  match arguments with
  | [] => p.finish
  | .text value :: rest => takeAll (p.takeText value) rest
  | .unknown argument :: rest => takeAll (p.keep argument) rest
  | .separator :: rest =>
    -- next to the place of the text it is part of it, elsewhere it has no place
    if p.textOpen || p.textLast then takeAll { p with textLast := false } rest
    else takeAll (p.keep "--") rest
  | .option name short attached :: rest =>
    if name.takesValue then
      match attached, rest with
      | some value, rest => takeAll (p.withValue name value) rest
      | none, .text value :: rest => takeAll (p.withValue name value) rest
      | none, _ => .error (.valueMissing name)
    else
      match flagsOf name short attached with
      | .error fault => .error fault
      | .ok names =>
        match turnOnAll p.options names with
        | none => .ok .help
        | some options => takeAll { p with options, textLast := false } rest
termination_by arguments.length

def readOptions (arguments : List String) : Except OptionFault Request := do
  takeAll {} (← classifyAll arguments)

/-! ### Texts -/

def usage : List String := [
  "usage: llsyntax [-h] [--input INPUT] [--grammar GRAMMAR] [--root ROOT]",
  "                [--tokens] [--table] [--no-filter] [-v]",
  "                [text]"]

def helpText : List String := usage ++ [
  "",
  "Tokenize and parse some text with an LL(1) grammar",
  "",
  "positional arguments:",
  "  text               The text to parse",
  "",
  "options:",
  "  -h, --help         show this help message and exit",
  "  --input INPUT      Path to a file to parse instead of TEXT",
  "  --grammar GRAMMAR  Path to a JSON grammar definition. The default is the",
  "                     built-in expression grammar.",
  "  --root ROOT        The symbol to parse. The default is EXPR for the built-in",
  "                     grammar, and the first non-terminal of a loaded one.",
  "  --tokens           Print the tokens as they are lexed",
  "  --table            Print the prediction table",
  "  --no-filter        Don't strip whitespace and comments before parsing",
  "                     (built-in grammar only)",
  "  -v, --verbose      Log more; repeat for even more"]

end Lookahead.Command
