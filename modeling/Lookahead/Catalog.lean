import Lookahead.Text.Quoted

/-!
The vocabulary of a language. A catalog is the fixed set of symbols that the lexer and the grammar
share: terminals, each with the patterns that match it, and non-terminals, which are names alone.
The order of the terminals counts, since of two patterns that match at one place the one declared
first wins.

Two terminals have no patterns. The *epsilon* terminal stands for the end of the input, and the
*unmatched* terminal for stretches of input that no pattern matches. A catalog has one of each,
they differ, and no two symbols share a name: `Catalog.build` lets nothing else through.
-/

namespace Lookahead

/-- A kind of token, and the patterns that match it. -/
structure Terminal where
  name : String
  patterns : List String := []
  epsilon : Bool := false
  unmatched : Bool := false
  deriving Repr, DecidableEq, Inhabited

namespace Terminal

def text (t : Terminal) : String :=
  "Terminal(" ++ ", ".intercalate ((t.name :: t.patterns).map Text.quoted) ++
    (if t.epsilon then ", epsilon=True" else "") ++
    (if t.unmatched then ", unmatched=True" else "") ++ ")"

/-- The end of the input and unmatched input have marks of their own and no patterns. -/
def reserved (t : Terminal) : Bool := t.epsilon || t.unmatched

end Terminal

inductive CatalogFault where
  | duplicate (name : String)
  | noEpsilon
  | twoEpsilons (first second : String)
  | noUnmatched
  | twoUnmatched (first second : String)
  | sameReserved (name : String)
  | reservedPattern (name : String)
  deriving Repr, DecidableEq

namespace CatalogFault

def message : CatalogFault → String
  | duplicate name => "Found more than one symbol named " ++ name
  | noEpsilon => "No terminal is marked as epsilon"
  | twoEpsilons first second => "Two epsilon terminals: " ++ first ++ " and " ++ second
  | noUnmatched => "No terminal is marked as unmatched"
  | twoUnmatched first second => "Two unmatched terminals: " ++ first ++ " and " ++ second
  | sameReserved name => name ++ " cannot be both epsilon and unmatched"
  | reservedPattern name => "Reserved terminal " ++ name ++ " cannot have a pattern"

end CatalogFault

/-- The symbols of a language. -/
structure Catalog where
  terminals : List Terminal
  nonterminals : List String
  epsilon : String
  unmatched : String
  deriving Repr, DecidableEq, Inhabited

namespace Catalog

/-- The first name that occurs earlier in the list. -/
def firstRepeat? (seen : List String) : List String → Option String
  | [] => none
  | name :: rest => if name ∈ seen then some name else firstRepeat? (name :: seen) rest

/-- The only name of a list, or a fault for each of the two ways to be something else. -/
def only (none : CatalogFault) (two : String → String → CatalogFault) :
    List String → Except CatalogFault String
  | [] => .error none
  | [name] => .ok name
  | first :: second :: _ => .error (two first second)

/-- The catalog of the given symbols. -/
def build (terminals : List Terminal) (nonterminals : List String) :
    Except CatalogFault Catalog :=
  match firstRepeat? [] (terminals.map (·.name) ++ nonterminals) with
  | some name => .error (.duplicate name)
  | none => do
    let epsilon ← only .noEpsilon .twoEpsilons ((terminals.filter (·.epsilon)).map (·.name))
    let unmatched ←
      only .noUnmatched .twoUnmatched ((terminals.filter (·.unmatched)).map (·.name))
    if epsilon = unmatched then .error (.sameReserved epsilon)
    else
      match terminals.find? fun t => t.reserved && !t.patterns.isEmpty with
      | some t => .error (.reservedPattern t.name)
      | none => .ok { terminals, nonterminals, epsilon, unmatched }

def isTerminal (c : Catalog) (name : String) : Bool := c.terminals.any (·.name == name)

def isNonterminal (c : Catalog) (name : String) : Bool := c.nonterminals.contains name

def contains (c : Catalog) (name : String) : Bool := c.isTerminal name || c.isNonterminal name

/-- The patterns with the terminals that they stand for, in order of declaration. -/
def patterns (c : Catalog) : List (String × String) :=
  c.terminals.flatMap fun t => t.patterns.map fun pattern => (t.name, pattern)

end Catalog

end Lookahead
