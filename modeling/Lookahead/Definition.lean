import Lookahead.Document.Basic
import Lookahead.Language
import Lookahead.Parser.Acceptable

/-!
Language definitions: the terminals with their patterns and the alternatives of the non-terminals,
as plain data. A definition can be read from a document and written to one.

A document that is a definition is an object. Its `terminals` are a list of objects, each with a
`name` and perhaps a `pattern`, `patterns`, and the marks `epsilon` and `unmatched`; its
`productions`, if there are any, are an object that gives each non-terminal a list of
alternatives. A single pattern comes before the list of patterns. Reading checks this shape and
nothing else: whether the definition makes sense as a language is for `Definition.build` to say.
-/

namespace Lookahead

structure Definition where
  terminals : List Terminal
  productions : Productions
  deriving Repr, DecidableEq, Inhabited

inductive DefinitionFault where
  | notAnObject
  | terminalsNotAList
  | terminalNotAnObject (index : Nat)
  | unnamedTerminal (index : Nat)
  | patternsNotAList (name : String)
  | patternNotAString (name : String)
  | unknownKeys (name : String) (keys : List String)
  | markNotABool (name : String)
  | productionsNotAnObject
  | alternativesNotAList (nonterminal : String)
  | badAlternative (nonterminal : String)
  deriving Repr, DecidableEq

namespace DefinitionFault

def message : DefinitionFault → String
  | notAnObject => "A definition must be an object"
  | terminalsNotAList => "'terminals' must be a list"
  | terminalNotAnObject index => "terminals[" ++ toString index ++ "] must be an object"
  | unnamedTerminal index => "terminals[" ++ toString index ++ "] needs a name"
  | patternsNotAList name => name ++ ": 'patterns' must be a list"
  | patternNotAString name => name ++ ": patterns must be strings"
  | unknownKeys name keys => name ++ ": unknown keys " ++ ", ".intercalate keys
  | markNotABool name => name ++ ": 'epsilon' and 'unmatched' must be true or false"
  | productionsNotAnObject => "'productions' must be an object"
  | alternativesNotAList nonterminal => nonterminal ++ ": alternatives must be a list"
  | badAlternative nonterminal =>
    nonterminal ++ ": each alternative must be a list of symbol names"

end DefinitionFault

namespace Definition

def terminalKeys : List String := ["name", "pattern", "patterns", "epsilon", "unmatched"]

/-- A value that has to be there in one form, or a fault. -/
def require {α : Type} (fault : DefinitionFault) : Option α → Except DefinitionFault α
  | some a => .ok a
  | none => .error fault

def nameOf? (fields : Table Document) : Option String :=
  ((fields.get? "name").bind Document.asString?).filter (· != "")

/-- All patterns of a terminal as they are written, the single one first. -/
def writtenPatterns? (fields : Table Document) : Option (List Document) :=
  (((fields.get? "patterns").getD (.list [])).asList?).map
    ((fields.get? "pattern").toList ++ ·)

/-- A mark of a terminal, which is off unless it is given. -/
def markOf? (fields : Table Document) (key : String) : Option Bool :=
  ((fields.get? key).getD (.bool false)).asBool?

/-- The keys of a terminal that mean nothing, in ascending order. -/
def unknownKeysOf (fields : Table Document) : List String :=
  ascending (fields.names.filter fun key => key ∉ terminalKeys)

def readTerminal (index : Nat) (d : Document) : Except DefinitionFault Terminal := do
  let fields ← require (.terminalNotAnObject index) d.asObject?
  let name ← require (.unnamedTerminal index) (nameOf? fields)
  let written ← require (.patternsNotAList name) (writtenPatterns? fields)
  let patterns ← require (.patternNotAString name) (written.mapM Document.asString?)
  if unknownKeysOf fields ≠ [] then .error (.unknownKeys name (unknownKeysOf fields))
  else
    let epsilon ← require (.markNotABool name) (markOf? fields "epsilon")
    let unmatched ← require (.markNotABool name) (markOf? fields "unmatched")
    pure { name, patterns, epsilon, unmatched }

def readTerminals : Nat → List Document → Except DefinitionFault (List Terminal)
  | _, [] => pure []
  | index, d :: rest => do
    let terminal ← readTerminal index d
    let terminals ← readTerminals (index + 1) rest
    pure (terminal :: terminals)

def readAlternatives (nonterminal : String) (d : Document) :
    Except DefinitionFault (List Body) := do
  let alternatives ← require (.alternativesNotAList nonterminal) d.asList?
  require (.badAlternative nonterminal) (alternatives.mapM Document.asStrings?)

def readProductions (fields : Table Document) : Except DefinitionFault Productions :=
  fields.mapM fun (nonterminal, d) => do
    let bodies ← readAlternatives nonterminal d
    pure (nonterminal, bodies)

def ofDocument (d : Document) : Except DefinitionFault Definition := do
  let fields ← require .notAnObject d.asObject?
  let listed ← require .terminalsNotAList ((Table.get? fields "terminals").bind Document.asList?)
  let terminals ← readTerminals 0 listed
  let expanded ← require .productionsNotAnObject
    ((Table.get? fields "productions").getD (.object [])).asObject?
  let productions ← readProductions expanded
  pure { terminals, productions }

/-- A terminal as a document. Patterns and marks are left out when there are none. -/
def terminalDocument (t : Terminal) : Document :=
  .object (("name", .string t.name) ::
    (if t.patterns = [] then [] else [("patterns", .list (t.patterns.map .string))]) ++
    (if t.epsilon then [("epsilon", .bool true)] else []) ++
    (if t.unmatched then [("unmatched", .bool true)] else []))

def toDocument (d : Definition) : Document :=
  .object [
    ("terminals", .list (d.terminals.map terminalDocument)),
    ("productions", .object (d.productions.map fun (nonterminal, bodies) =>
      (nonterminal, .list (bodies.map fun body => .list (body.map .string)))))]

def build [Text.CharacterNames] (d : Definition) (chunkSize : Int) : Except BuildFault Language :=
  Language.build d.terminals d.productions chunkSize

end Definition

end Lookahead
