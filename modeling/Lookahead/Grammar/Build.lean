import Lookahead.Grammar.Basic

/-!
From productions to a prediction table. Everything that could go wrong with a grammar is found
here, before any parse: unknown symbols first, then non-terminals without alternatives, then
alternatives that lookahead cannot tell apart, then left recursion.

Alternatives are filed one after another. The first one of its slot is kept, and each later one
for the same slot is an `Ambiguity` with the first, so all of them are reported together.

An alternative that begins with a non-terminal is expanded without a token being consumed. Sending
a non-terminal to the first symbol of that alternative is a partial function
(`Grammar.leftmost?`), and a parse could run in circles exactly along a cycle of it.
-/

namespace Lookahead

structure Ambiguity where
  slot : Slot
  first : Body
  second : Body
  deriving Repr, DecidableEq, Inhabited

namespace Lead

def name : Lead → String
  | terminal _ => "terminal"
  | nonterminal => "non-terminal"
  | empty => "empty"

def terminal? : Lead → Option String
  | terminal name => some name
  | _ => none

/-- What two alternatives of this lead have in common. -/
def shared : Lead → String
  | terminal name => "both begin with the terminal " ++ name
  | nonterminal => "both begin with a non-terminal"
  | empty => "are both empty"

end Lead

def Ambiguity.text (a : Ambiguity) : String :=
  a.slot.nonterminal ++ ": the alternatives `" ++ a.first.text ++ "` and `" ++ a.second.text ++
    "` " ++ a.slot.lead.shared

inductive GrammarFault where
  | terminalExpands (name : String)
  | unknownNonterminal (name : String)
  | unknownSymbol (nonterminal : String) (body : Body) (symbol : String)
  | noAlternatives (nonterminal : String)
  | ambiguous (ambiguities : List Ambiguity)
  | leftRecursion (cycle : List String)
  deriving Repr, DecidableEq

namespace GrammarFault

def message : GrammarFault → String
  | terminalExpands name => name ++ " is a terminal and cannot have productions"
  | unknownNonterminal name => "Productions given for unknown non-terminal " ++ name
  | unknownSymbol nonterminal body symbol =>
    nonterminal ++ ": the alternative `" ++ " ".intercalate body ++
      "` refers to unknown symbol " ++ symbol
  | noAlternatives nonterminal => "Non-terminal " ++ nonterminal ++ " has no productions"
  | ambiguous ambiguities =>
    toString ambiguities.length ++ " ambiguities:\n" ++
      "\n".intercalate (ambiguities.map fun a => "- " ++ a.text)
  | leftRecursion cycle => "Left recursion: " ++ " -> ".intercalate cycle

end GrammarFault

namespace Grammar

/-! ### Known symbols -/

def checkBody (c : Catalog) (nonterminal : String) (body : Body) : Except GrammarFault Unit :=
  match body.find? fun symbol => !c.contains symbol with
  | some symbol => .error (.unknownSymbol nonterminal body symbol)
  | none => .ok ()

def checkSide (c : Catalog) (name : String) : Except GrammarFault Unit :=
  if c.isNonterminal name then .ok ()
  else if c.isTerminal name then .error (.terminalExpands name)
  else .error (.unknownNonterminal name)

def checkedBodies (c : Catalog) (name : String) (bodies : List Body) :
    Except GrammarFault (List Body) := do
  checkSide c name
  bodies.mapM fun body => do
    checkBody c name body
    pure (c.stored body)

def checked (c : Catalog) (productions : Productions) : Except GrammarFault Productions :=
  productions.mapM fun (name, bodies) => do
    let bodies ← checkedBodies c name bodies
    pure (name, bodies)

/-- The first declared non-terminal without an alternative. -/
def bare? (c : Catalog) (productions : Productions) : Option String :=
  c.nonterminals.find? fun name => (productions.get? name).getD [] == []

/-! ### Filing -/

/-- Slots filled so far, and the alternatives that found their slot taken. -/
structure Filing where
  slots : List (Slot × Body) := []
  ambiguities : List Ambiguity := []
  deriving Repr, Inhabited

def Filing.add (f : Filing) (slot : Slot) (body : Body) : Filing :=
  match f.slots.lookup slot with
  | some first => { f with ambiguities := f.ambiguities ++ [⟨slot, first, body⟩] }
  | none => { f with slots := f.slots ++ [(slot, body)] }

def placed (c : Catalog) (productions : Productions) : List (Slot × Body) :=
  productions.flatMap fun (name, bodies) => bodies.map fun body => (⟨name, c.leadOf body⟩, body)

def file (placed : List (Slot × Body)) : Filing :=
  placed.foldl (fun f (slot, body) => f.add slot body) {}

/-! ### Left recursion -/

/-- The first symbol of the alternative that begins with a non-terminal. -/
def leftmost? (g : Grammar) (nonterminal : String) : Option String :=
  (g.alternative? nonterminal .nonterminal).bind List.head?

/-- Where a walk along `leftmost?` ended. -/
inductive Walk where
  | cycle (names : List String)
  | clear (path : List String)
  deriving Repr, DecidableEq

/-- Walks along `leftmost?` until there is no next symbol, a symbol known to be safe comes up, or
one of the path does. -/
def walk (g : Grammar) (safe : List String) : Nat → List String → String → Walk
  | 0, path, _ => .clear path
  | n + 1, path, current =>
    match g.leftmost? current with
    | none => .clear path
    | some next =>
      -- from here on an earlier walk has found no cycle
      if current ∈ safe then .clear path
      else if current ∈ path then .cycle (path.dropWhile (· != current) ++ [current])
      else walk g safe n (path ++ [current]) next

/-- The first cycle that is met from the given starts. A path without a cycle is safe from then
on. -/
def cycleFrom? (g : Grammar) : List String → List String → Option (List String)
  | _, [] => none
  | safe, start :: rest =>
    match walk g safe (g.nonterminalLeads.length + 1) [] start with
    | .cycle names => some names
    | .clear path => cycleFrom? g (safe ++ path) rest

def leftRecursion? (g : Grammar) : Option (List String) :=
  cycleFrom? g [] g.nonterminalLeads.names

/-! ### Building -/

def build (catalog : Catalog) (productions : Productions) : Except GrammarFault Grammar := do
  let productions ← checked catalog productions
  match bare? catalog productions with
  | some name => .error (.noAlternatives name)
  | none =>
    let filing := file (placed catalog productions)
    if filing.ambiguities ≠ [] then .error (.ambiguous filing.ambiguities)
    else
      let grammar : Grammar := { catalog, slots := filing.slots }
      match grammar.leftRecursion? with
      | some cycle => .error (.leftRecursion cycle)
      | none => .ok grammar

end Grammar

end Lookahead
