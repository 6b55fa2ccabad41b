import Lookahead.Catalog
import Lookahead.Table

/-!
Grammars that one token of lookahead decides, and the prediction table that they compile to.

The alternatives of a non-terminal are told apart by how they begin: with a certain terminal, with
some non-terminal, or not at all. That is the `Lead` of an alternative, and a `Slot` is a
non-terminal together with a lead. Each slot holds at most one alternative, so a lookahead selects
one by looking into the slot of its own kind, then into the one for non-terminals, then into the
one for the empty alternative. No sets of first or following symbols are computed.

An alternative that is the epsilon terminal alone is the empty one.
-/

namespace Lookahead

/-- An alternative: the symbols that a non-terminal expands to. -/
abbrev Body := List String

/-- The alternatives of each non-terminal, in order of declaration. -/
abbrev Productions := Table (List Body)

inductive Lead where
  | terminal (name : String)
  | nonterminal
  | empty
  deriving Repr, DecidableEq, Inhabited

structure Slot where
  nonterminal : String
  lead : Lead
  deriving Repr, DecidableEq, Inhabited

def Body.text (body : Body) : String :=
  if body.isEmpty then "<empty>" else " ".intercalate body

def Catalog.leadOf (c : Catalog) : Body → Lead
  | [] => .empty
  | first :: _ => if c.isNonterminal first then .nonterminal else .terminal first

/-- The alternative that is stored for a written one: the epsilon terminal alone counts as
nothing. -/
def Catalog.stored (c : Catalog) (body : Body) : Body := if body = [c.epsilon] then [] else body

/-- A prediction table over a catalog: what each slot holds, in the order in which the slots were
filled. -/
structure Grammar where
  catalog : Catalog
  slots : List (Slot × Body)
  deriving Repr, Inhabited

namespace Grammar

def isNonterminal (g : Grammar) (name : String) : Bool := g.catalog.isNonterminal name

def alternative? (g : Grammar) (nonterminal : String) (lead : Lead) : Option Body :=
  g.slots.lookup ⟨nonterminal, lead⟩

def hasEmpty (g : Grammar) (nonterminal : String) : Bool :=
  (g.alternative? nonterminal .empty).isSome

def empty (g : Grammar) : List String :=
  g.slots.filterMap fun (slot, _) =>
    if slot.lead = .empty then some slot.nonterminal else none

/-- The alternatives of a non-terminal that begin with a terminal, by that terminal. -/
def terminalLeads (g : Grammar) (nonterminal : String) : Table Body :=
  g.slots.filterMap fun (slot, body) =>
    match slot.lead with
    | .terminal name => if slot.nonterminal = nonterminal then some (name, body) else none
    | _ => none

/-- The alternatives that begin with a non-terminal, by what they are alternatives of. -/
def nonterminalLeads (g : Grammar) : Table Body :=
  g.slots.filterMap fun (slot, body) =>
    if slot.lead = .nonterminal then some (slot.nonterminal, body) else none

def owners (g : Grammar) : List String := (g.slots.map fun s => s.1.nonterminal).eraseDups

/-- The prediction table as it is printed: the non-terminals in order of declaration, and below
each of them the tokens that select an alternative. -/
def format (g : Grammar) : String :=
  "\n".intercalate (g.catalog.nonterminals.flatMap rows)
where
  /-- One row of the table. -/
  row (lookahead : String) (body : Body) : String :=
    "  " ++ Text.padRight 12 lookahead ++ " -> " ++ body.text
  rows (nonterminal : String) : List String :=
    (nonterminal ++ ":") ::
      (g.terminalLeads nonterminal).map (fun (name, body) => row name body) ++
      ((g.alternative? nonterminal .nonterminal).map (row "(otherwise)")).toList ++
      ((g.alternative? nonterminal .empty).map (row "(empty)")).toList

end Grammar

end Lookahead
