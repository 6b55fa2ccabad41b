import Lookahead.Pattern.Alternation
import Lookahead.Pattern.Basic
import Lookahead.Pattern.Width

/-!
A pattern that has been read in part. The constructs that are still open are a list of frames,
innermost one first. A frame holds the alternatives that are complete and the terms of the one
being read; a closing parenthesis turns the innermost frame into a term of the next one out
(`Reading.leave`), and at the end of the pattern only the outermost frame may be left.

What holds for the whole pattern is kept beside the frames: the groups with their names and
widths, the modes that option letters at the start turned on, and the groups that conditions ask
for. A group may be asked for before it is opened, so that is checked when the whole pattern is
known.
-/

namespace Lookahead.Pattern

/-- A term of a sequence. A parenthesised part without any mark is spliced into the sequence that
it stands in, unless a repetition takes it as a whole. -/
inductive Item where
  | single (term : Term)
  | spliced (terms : List Term)
  deriving Repr, DecidableEq

namespace Item

def terms : Item → List Term
  | single term => [term]
  | spliced terms => terms

end Item

inductive Opening where
  | whole
  | plain (on off : Modes)
  | capture (number : Nat)
  | atomic
  | ahead (negated : Bool)
  | behind (negated outermost : Bool)
  | present (number : Nat)
  | absent (number : Nat) (present : List Term)
  deriving Repr, DecidableEq

/-- An open construct: where it starts, whether spaces and comments are skipped in it, the
complete alternatives and the terms of the current one, both last first. -/
structure Frame where
  opening : Opening
  start : Nat
  verbose : Bool
  branches : List (List Term) := []
  items : List Item := []
  deriving Repr, DecidableEq

/-- The groups met so far: the number of the next one, the names, and the widths of the closed
ones. `limit` is set inside a look behind: groups from it on are part of what is looked at. -/
structure Groups where
  next : Nat := 1
  names : List (String × Nat) := []
  widths : List (Nat × Width) := []
  limit : Option Nat := none
  deriving Repr, DecidableEq

structure Reading where
  groups : Groups := {}
  modes : Modes
  asked : List (Nat × Nat) := []
  frame : Frame
  outer : List Frame := []
  deriving Repr, DecidableEq

namespace Frame

def terms (f : Frame) : List Term := f.items.reverse.flatMap Item.terms

def push (f : Frame) (item : Item) : Frame := { f with items := item :: f.items }

def nextBranch (f : Frame) : Frame := { f with branches := f.terms :: f.branches, items := [] }

def allTerms (f : Frame) : List Term := Term.alternation (f.terms :: f.branches).reverse

/-- Nothing has been read yet that option letters would come too late for. -/
def isFresh (f : Frame) : Bool := f.opening == .whole && f.branches.isEmpty && f.items.isEmpty

end Frame

namespace Reading

def push (r : Reading) (item : Item) : Reading := { r with frame := r.frame.push item }

def pushTerm (r : Reading) (term : Term) : Reading := r.push (.single term)

def enter (r : Reading) (opening : Opening) (start : Nat) (verbose : Bool) : Reading :=
  { r with frame := { opening, start, verbose }, outer := r.frame :: r.outer }

/-- Closes the innermost frame and gives it to the next one out. -/
def leave (r : Reading) : Reading :=
  match r.outer with
  | [] => r
  | next :: outer =>
    let terms := r.frame.allTerms
    let body := Term.seq terms
    let r' := { r with frame := next, outer }
    match r.frame.opening with
    | .whole => r
    | .plain on off =>
      if on = Modes.none ∧ off = Modes.none then r'.push (.spliced terms)
      else r'.pushTerm (.moded on off body)
    | .capture number =>
      let widths := (number, body.width) :: r.groups.widths
      { r' with groups := { r.groups with widths } }.pushTerm (.group number body)
    | .atomic => r'.pushTerm (.atomic body)
    | .ahead negated => r'.pushTerm (.ahead negated body)
    | .behind negated outermost =>
      let limit := if outermost then none else r.groups.limit
      { r' with groups := { r.groups with limit } }.pushTerm (.behind negated body.width body)
    | .present number => r'.pushTerm (.conditional number body .empty)
    | .absent number present => r'.pushTerm (.conditional number (.seq present) body)

def bar (r : Reading) : Reading :=
  match r.frame.opening with
  | .present number =>
    { r with frame := { r.frame with opening := .absent number r.frame.terms, items := [] } }
  | _ => { r with frame := r.frame.nextBranch }

end Reading

end Lookahead.Pattern
