import Lookahead.Grammar.Basic
import Lookahead.Tree

/-!
The predictive parser, a machine that is driven by one token at a time.

It keeps two lists. `expected` holds the symbols still to be matched, next one first. `builders`
holds the nodes under construction, innermost one first; each knows how many children it needs. A
non-terminal in front is replaced by one of its alternatives, chosen by the kind of the token at
hand, and a builder is opened for it. A terminal in front has to be the kind of the token, which
then goes to the innermost builder; a builder with all its children becomes a node and goes to the
next one out, and the last one out is the tree.

What to do is decided from the expected symbols and the kind of the token alone (`Grammar.move`),
and `Parser.step` carries it out. A token may take many steps, since expansions come before the
match, but not endlessly many: unless a non-terminal can lead back to itself without a token being
consumed, their number is bounded in the size of the table (`Grammar.stepBound`).

A token that does not fit is no error of the parser: it is kept as the fault, and everything after
it is ignored.
-/

namespace Lookahead

/-- A node under construction: its kind, the number of children that it needs, and those that it
has. -/
structure Builder where
  kind : String
  size : Nat
  parts : List Node := []
  deriving Repr, DecidableEq, Inhabited

/-- The token that did not fit, and the symbols that were expected before it came. -/
structure Fault where
  token : Token
  expected : List String
  deriving Repr, DecidableEq, Inhabited

structure Parser where
  expected : List String
  builders : List Builder := []
  fault : Option Fault := none
  result : Option Node := none
  accepted : Bool := false
  deriving Repr, DecidableEq, Inhabited

inductive Move where
  /-- Nothing is expected, and the input ends. -/
  | finish
  /-- Nothing is expected, but there is a token. -/
  | surplus
  /-- The token is the expected one. -/
  | consume (rest : List String)
  /-- Another terminal is expected. -/
  | mismatch (top : String)
  /-- The non-terminal in front becomes one of its alternatives. -/
  | expand (top : String) (body : Body) (rest : List String)
  /-- The non-terminal in front becomes nothing. -/
  | vanish (top : String) (rest : List String)
  /-- No alternative of the non-terminal in front fits. -/
  | stuck (top : String)
  deriving Repr, DecidableEq

namespace Grammar

/-- The alternative for a lookahead: the one that begins with it, else the one that begins with a
non-terminal. -/
def select? (g : Grammar) (nonterminal kind : String) : Option Body :=
  (g.alternative? nonterminal (.terminal kind)).or (g.alternative? nonterminal .nonterminal)

def move (g : Grammar) (kind : String) : List String → Move
  | [] => if kind = g.catalog.epsilon then .finish else .surplus
  | top :: rest =>
    if top = kind then .consume rest
    else if !g.isNonterminal top then .mismatch top
    else
      match g.select? top kind with
      | some body => .expand top body rest
      | none => if g.hasEmpty top then .vanish top rest else .stuck top

def longest (g : Grammar) : Nat := (g.slots.map fun s => s.2.length).foldl max 0

/-- A bound on the number of steps that a token can take when so many symbols are expected. A
symbol is done with after at most `(longest + 2) ^ n` steps, if `n` non-terminals are left that
the expansions can lead to. -/
def stepBound (g : Grammar) (expected : Nat) : Nat :=
  (expected + 1) * Nat.pow (g.longest + 2) (g.catalog.nonterminals.length + 1)

end Grammar

namespace Parser

def start (root : String) : Parser := { expected := [root] }

/-- Hands a node to the innermost builder, and each builder that this completes to the next one
out. The node that is left over when there is no builder is the result. -/
def hand (place : Position) : List Builder → Node → List Builder × Option Node
  | [], node => ([], some node)
  | builder :: outer, node =>
    let parts := builder.parts ++ [node]
    if builder.size ≤ parts.length then
      hand place outer (Node.spanning builder.kind parts place)
    else ({ builder with parts } :: outer, none)

def receive (p : Parser) (node : Node) (place : Position) : Parser :=
  let (builders, result) := hand place p.builders node
  { p with builders, result := result.or p.result }

/-- One step: the parser goes on with the same token, or is done with it. -/
inductive Progress where
  | more (p : Parser)
  | done (p : Parser)
  deriving Repr, DecidableEq

def refuse (p : Parser) (token : Token) (before : List String) : Parser :=
  { p with fault := some { token, expected := before } }

/-- Carries out what the expected symbols and the token come to. `before` is what was expected
when the token came. -/
def step (g : Grammar) (before : List String) (token : Token) (p : Parser) : Progress :=
  match g.move token.kind p.expected with
  | .finish => .done { p with accepted := true }
  | .consume rest =>
    let accepted := decide (token.kind = g.catalog.epsilon ∧ rest = [])
    .done { receive { p with expected := rest } (.leaf token) token.start with accepted }
  | .expand top body rest =>
    .more { p with
      expected := body ++ rest
      builders := { kind := top, size := body.length } :: p.builders }
  | .vanish top rest =>
    .more (receive { p with expected := rest } (Node.spanning top [] token.start) token.start)
  | .surplus | .mismatch _ | .stuck _ => .done (p.refuse token before)

/-- Takes steps until the token is done with, but no more than the given number. -/
def drive (g : Grammar) (before : List String) (token : Token) : Nat → Parser → Option Parser
  | 0, _ => none
  | n + 1, p =>
    match step g before token p with
    | .done p => some p
    | .more p => drive g before token n p

/-- Takes no more tokens. -/
def closed (p : Parser) : Bool := p.fault.isSome || p.accepted

def accept (g : Grammar) (p : Parser) (token : Token) : Parser :=
  if p.closed then p
  else (drive g p.expected token (g.stepBound p.expected.length) p).getD p

def acceptAll (g : Grammar) (p : Parser) (tokens : List Token) : Parser :=
  tokens.foldl (accept g) p

def root? (p : Parser) : Option Node := if p.accepted then p.result else none

end Parser

structure UnknownRoot where
  name : String
  deriving Repr, DecidableEq

def UnknownRoot.message (fault : UnknownRoot) : String := "Unknown root symbol " ++ fault.name

def Grammar.parser (g : Grammar) (root : String) : Except UnknownRoot Parser :=
  if g.catalog.contains root then .ok (.start root) else .error ⟨root⟩

end Lookahead
