import Lookahead.Position
import Lookahead.Text.Quoted

/-!
Syntax trees: tokens at the leaves, named nodes everywhere else. Each carries a half-open span,
from the position of its first character to just past its last one, so a node without any text
starts and ends at the same place.

A node that stands for an empty alternative has no children and takes its place from outside
(`Node.spanning`). A token is never an empty alternative, not even one without text.
-/

namespace Lookahead

structure Token where
  kind : String
  start : Position
  stop : Position
  text : String
  deriving Repr, DecidableEq, Inhabited

/-- The written form, `KIND[start-stop:text]`. -/
def Token.summary (t : Token) : String :=
  t.kind ++ "[" ++ t.start.text ++ "-" ++ t.stop.text ++ ":" ++ t.text ++ "]"

/-- A leaf, or a named node over a list of nodes. -/
inductive Node where
  | leaf (token : Token)
  | branch (kind : String) (start stop : Position) (children : List Node)
  deriving Repr, Inhabited

namespace Node

def kind : Node → String
  | leaf token => token.kind
  | branch kind _ _ _ => kind

def start : Node → Position
  | leaf token => token.start
  | branch _ start _ _ => start

def stop : Node → Position
  | leaf token => token.stop
  | branch _ _ stop _ => stop

def children : Node → List Node
  | leaf _ => []
  | branch _ _ _ children => children

/-- Stands for an empty alternative. -/
def isEmpty : Node → Bool
  | leaf _ => false
  | branch _ _ _ children => children.isEmpty

/-- The node over the given children, from the start of the first to the stop of the last. Without
children it stands at `place`, without width. -/
def spanning (kind : String) (children : List Node) (place : Position) : Node :=
  match children.head?, children.getLast? with
  | some first, some last => branch kind first.start last.stop children
  | _, _ => branch kind place place []

@[simp] theorem kind_spanning (kind : String) (children : List Node) (place : Position) :
    (spanning kind children place).kind = kind := by
  unfold spanning
  split <;> rfl

mutual

def leaves : Node → List Token
  | leaf token => [token]
  | branch _ _ _ children => leavesOfAll children

def leavesOfAll : List Node → List Token
  | [] => []
  | node :: rest => leaves node ++ leavesOfAll rest

end

@[simp] theorem leavesOfAll_nil : leavesOfAll [] = [] := by simp [leavesOfAll]

@[simp] theorem leavesOfAll_cons (node : Node) (rest : List Node) :
    leavesOfAll (node :: rest) = node.leaves ++ leavesOfAll rest := by simp [leavesOfAll]

@[simp] theorem leaves_leaf (token : Token) : (leaf token).leaves = [token] := by simp [leaves]

@[simp] theorem leavesOfAll_append (first second : List Node) :
    leavesOfAll (first ++ second) = leavesOfAll first ++ leavesOfAll second := by
  induction first with
  | nil => simp
  | cons node rest ih => simp [ih]

theorem leavesOfAll_eq_flatMap (nodes : List Node) : leavesOfAll nodes = nodes.flatMap leaves := by
  induction nodes with
  | nil => rfl
  | cons node rest ih => simp [ih]

@[simp] theorem leaves_spanning (kind : String) (children : List Node) (place : Position) :
    (spanning kind children place).leaves = leavesOfAll children := by
  cases children with
  | nil => simp [spanning, leaves]
  | cons first rest => simp [spanning, List.getLast?_cons, leaves]

def text (node : Node) : String := String.join (node.leaves.map (·.text))

mutual

def decideEq : (a b : Node) → Decidable (a = b)
  | leaf s, leaf t => if h : s = t then isTrue (h ▸ rfl) else isFalse fun e => h (by injection e)
  | leaf _, branch _ _ _ _ => isFalse nofun
  | branch _ _ _ _, leaf _ => isFalse nofun
  | branch kind start stop children, branch kind' start' stop' children' =>
    match decideEqAll children children' with
    | isFalse h => isFalse fun e => h (by injection e)
    | isTrue h =>
      if h' : kind = kind' ∧ start = start' ∧ stop = stop' then
        isTrue (by obtain ⟨rfl, rfl, rfl⟩ := h'; subst h; rfl)
      else isFalse fun e => h' (by injection e with h₁ h₂ h₃; exact ⟨h₁, h₂, h₃⟩)

def decideEqAll : (as bs : List Node) → Decidable (as = bs)
  | [], [] => isTrue rfl
  | [], _ :: _ => isFalse nofun
  | _ :: _, [] => isFalse nofun
  | a :: as, b :: bs =>
    match decideEq a b, decideEqAll as bs with
    | isTrue h, isTrue h' => isTrue (h ▸ h' ▸ rfl)
    | isFalse h, _ => isFalse fun e => h (by injection e)
    | _, isFalse h => isFalse fun e => h (by injection e)

end

instance : DecidableEq Node := decideEq

mutual

def summary : Node → String
  | leaf token => token.summary
  | branch kind _ _ children => kind ++ "[" ++ ", ".intercalate (summaries children) ++ "]"

def summaries : List Node → List String
  | [] => []
  | node :: rest => summary node :: summaries rest

end

def spanText (start stop : Position) : String :=
  "[" ++ start.text ++ ", " ++ stop.text ++ ")"

def padding (indent : Nat) : String := String.ofList (List.replicate indent ' ')

mutual

/-- The printed tree below an indentation, one line for each node, parents first. -/
def linesFrom (indent : Nat) : Node → List String
  | leaf token =>
    [padding indent ++ token.kind ++ ":" ++ Text.quoted token.text ++ " " ++
      spanText token.start token.stop]
  | branch kind start stop children =>
    (padding indent ++ kind ++ " " ++ spanText start stop ++
      (if children.isEmpty then " (empty)" else "")) :: linesOfAll (indent + 2) children

def linesOfAll (indent : Nat) : List Node → List String
  | [] => []
  | node :: rest => linesFrom indent node ++ linesOfAll indent rest

end

/-- The printed tree, one line for each node; a child stands two columns to the right of its
parent. -/
def lines (node : Node) : List String := node.linesFrom 0

def format (node : Node) : String := "\n".intercalate node.lines

end Node

end Lookahead
