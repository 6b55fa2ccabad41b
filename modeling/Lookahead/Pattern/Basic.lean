/-!
Patterns, as terms. A pattern describes stretches of text by example: characters and sets of them,
one after another, alternatives, repetitions, groups whose text can be referred to later, and
conditions on what stands before or after.

A term says nothing about how it was written. What the option letters in a pattern change is kept
apart as `Modes`: a part of a pattern may turn some of them on or off for itself, so the modes are
handed down while a term is matched.

Characters are given by their code, because a pattern may name codes that no text contains.
-/

namespace Lookahead.Pattern

structure Modes where
  ignoreCase : Bool := false
  multiLine : Bool := false
  dotAll : Bool := false
  verbose : Bool := false
  ascii : Bool := false
  unicode : Bool := false
  template : Bool := false
  deriving Repr, DecidableEq, Inhabited

namespace Modes

def union (a b : Modes) : Modes where
  ignoreCase := a.ignoreCase || b.ignoreCase
  multiLine := a.multiLine || b.multiLine
  dotAll := a.dotAll || b.dotAll
  verbose := a.verbose || b.verbose
  ascii := a.ascii || b.ascii
  unicode := a.unicode || b.unicode
  template := a.template || b.template

def inter (a b : Modes) : Modes where
  ignoreCase := a.ignoreCase && b.ignoreCase
  multiLine := a.multiLine && b.multiLine
  dotAll := a.dotAll && b.dotAll
  verbose := a.verbose && b.verbose
  ascii := a.ascii && b.ascii
  unicode := a.unicode && b.unicode
  template := a.template && b.template

def without (a b : Modes) : Modes where
  ignoreCase := a.ignoreCase && !b.ignoreCase
  multiLine := a.multiLine && !b.multiLine
  dotAll := a.dotAll && !b.dotAll
  verbose := a.verbose && !b.verbose
  ascii := a.ascii && !b.ascii
  unicode := a.unicode && !b.unicode
  template := a.template && !b.template

def none : Modes := {}

def ofLetter? : Char → Option Modes
  | 'i' => some { ignoreCase := true }
  | 'm' => some { multiLine := true }
  | 's' => some { dotAll := true }
  | 'x' => some { verbose := true }
  | 'a' => some { ascii := true }
  | 'u' => some { unicode := true }
  | 't' => some { template := true }
  | _ => Option.none

def choosesAlphabet (m : Modes) : Bool := m.ascii || m.unicode

/-- The modes inside a part that turns some on and some off. A choice of alphabet replaces the one
outside. -/
def within (m on off : Modes) : Modes :=
  let m := if on.choosesAlphabet then { m with ascii := false, unicode := false } else m
  (m.union on).without off

end Modes

inductive CharKind where
  | digit
  | space
  | word
  deriving Repr, DecidableEq, Inhabited

inductive Member where
  | code (code : Nat)
  | range (first last : Nat)
  | kind (negated : Bool) (kind : CharKind)
  deriving Repr, DecidableEq, Inhabited

inductive Place where
  | lineStart
  | lineEnd
  | textStart
  | textEnd
  | boundary
  | noBoundary
  deriving Repr, DecidableEq, Inhabited

/-- How a repetition chooses the number of its rounds: as many as possible first, as few as
possible first, or as many as possible for good. -/
inductive Greed where
  | greedy
  | lazy
  | possessive
  deriving Repr, DecidableEq, Inhabited

/-- How many characters a term can match, at least and at most. -/
structure Width where
  least : Nat
  most : Option Nat
  deriving Repr, DecidableEq, Inhabited

/-- What a pattern describes. A reference to a group, and a look behind, carry the width of what
they refer to or look at. -/
inductive Term where
  | empty
  | literal (negated : Bool) (code : Nat)
  | any
  | set (negated : Bool) (members : List Member)
  | place (place : Place)
  | cat (first second : Term)
  | either (first second : Term)
  | group (number : Nat) (body : Term)
  | moded (on off : Modes) (body : Term)
  | atomic (body : Term)
  | ahead (negated : Bool) (body : Term)
  | behind (negated : Bool) (width : Width) (body : Term)
  | backref (number : Nat) (width : Width)
  | conditional (number : Nat) (present absent : Term)
  | repeated (greed : Greed) (least : Nat) (most : Option Nat) (body : Term)
  deriving Repr, DecidableEq, Inhabited

namespace Term

def seq : List Term → Term
  | [] => empty
  | [t] => t
  | t :: rest => cat t (seq rest)

def choice : List Term → Term
  | [] => empty
  | [t] => t
  | t :: rest => either t (choice rest)

end Term

/-- A pattern that has been read: what it describes, the modes it is matched in, and the number of
its groups. -/
structure Compiled where
  term : Term
  modes : Modes
  groups : Nat
  deriving Repr, DecidableEq, Inhabited

end Lookahead.Pattern
