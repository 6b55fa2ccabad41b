import Lookahead.Pattern.CharTest

/-!
Matching a term against a text. A match is looked for by trying: the terms are followed from left
to right, every choice is made in its order of preference, and the last choice is taken back when
what follows fails. So a matcher is given what follows as a function (`Next`), and asks it at
every place where the term can end, until it says yes.

The state of a match is a place in the text and the groups passed so far. It is a value, so a
choice that is taken back takes its groups back with it.

A repetition goes round again after its least number of rounds only if the last round has moved
on. A round that matched nothing is the last one, which is why as many rounds are enough as there
are characters left, and one more.
-/

namespace Lookahead.Pattern

/-- A place in the text, and where groups were opened and closed, last first. -/
structure State where
  pos : Nat
  opened : List (Nat × Nat) := []
  closed : List (Nat × Nat) := []
  deriving Repr, DecidableEq, Inhabited

/-- What has to match after a term. -/
abbrev Next := State → Option State

/-- Matching a term from a state on, with something to follow. -/
abbrev Run := State → Next → Option State

namespace State

def moveTo (s : State) (pos : Nat) : State := { s with pos }

def openGroup (s : State) (number : Nat) : State :=
  { s with opened := (number, s.pos) :: s.opened }

def closeGroup (s : State) (number : Nat) : State :=
  { s with closed := (number, s.pos) :: s.closed }

def span? (s : State) (number : Nat) : Option (Nat × Nat) :=
  match s.opened.lookup number, s.closed.lookup number with
  | some a, some b => if a ≤ b then some (a, b) else none
  | _, _ => none

def lastGroup? (s : State) : Option Nat := s.closed.head?.map Prod.fst

end State

/-! ### Places -/

def codeAt? (text : Array Char) (pos : Nat) : Option Nat := text[pos]?.map Char.toNat

def isWordAt (text : Array Char) (m : Modes) (pos : Nat) : Bool :=
  (codeAt? text pos).any (CharKind.word.holds m)

def isBreakAt (text : Array Char) (pos : Nat) : Bool := text[pos]? == some '\n'

/-- A word character on one side only. -/
def isBoundary (text : Array Char) (m : Modes) (pos : Nat) : Bool :=
  (pos != 0 && isWordAt text m (pos - 1)) != isWordAt text m pos

def Place.holds (text : Array Char) (m : Modes) (pos : Nat) : Place → Bool
  | lineStart => pos == 0 || (m.multiLine && isBreakAt text (pos - 1))
  | lineEnd =>
    pos == text.size || (isBreakAt text pos && (m.multiLine || pos + 1 == text.size))
  | textStart => pos == 0
  | textEnd => pos == text.size
  | boundary => !text.isEmpty && isBoundary text m pos
  | noBoundary => !text.isEmpty && !isBoundary text m pos

/-! ### Repetitions -/

def exactly (body : Run) : Nat → Run
  | 0, s, next => next s
  | n + 1, s, next => body s fun s => exactly body n s next

def mostFirst (body : Run) : Nat → Run
  | 0, s, next => next s
  | n + 1, s, next =>
    -- a round that has not moved on is kept, but is the last one
    (body s fun t => if s.pos < t.pos then mostFirst body n t next else next t).or (next s)

def fewestFirst (body : Run) : Nat → Run
  | 0, s, next => next s
  | n + 1, s, next =>
    (next s).or
      (body s fun t => if s.pos < t.pos then fewestFirst body n t next else next t)

/-- The first way to match the body, for good. -/
def committed (body : Run) : Run := fun s next => (body s some).bind next

/-- Up to so many rounds, as many as possible, for good. -/
def asManyAs (body : Run) : Nat → Run
  | 0, s, next => next s
  | n + 1, s, next =>
    match body s some with
    | none => next s
    | some t => if s.pos < t.pos then asManyAs body n t next else next t

/-- The rounds that can be of use beyond the least number. -/
def extraRounds (text : Array Char) (least : Nat) (most : Option Nat) (pos : Nat) : Nat :=
  let useful := text.size - pos + 1
  match most with
  | some most => min (most - least) useful
  | none => useful

def repeatRun (text : Array Char) (greed : Greed) (least : Nat) (most : Option Nat)
    (body : Run) : Run := fun s next =>
  match greed with
  | .greedy =>
    exactly body least s fun s => mostFirst body (extraRounds text least most s.pos) s next
  | .lazy =>
    exactly body least s fun s => fewestFirst body (extraRounds text least most s.pos) s next
  | .possessive =>
    exactly (committed body) least s fun s =>
      asManyAs body (extraRounds text least most s.pos) s next

/-! ### Terms -/

def oneChar (text : Array Char) (test : Nat → Bool) : Run := fun s next =>
  match codeAt? text s.pos with
  | some code => if test code then next (s.moveTo (s.pos + 1)) else none
  | none => none

def sameText (text : Array Char) (m : Modes) (start length pos : Nat) : Bool :=
  pos + length ≤ text.size &&
    (List.range length).all fun i =>
      match codeAt? text (start + i), codeAt? text (pos + i) with
      | some x, some y => sameCode m x y
      | _, _ => false

def Term.run (text : Array Char) : Term → Modes → Run
  | empty, _, s, next => next s
  | literal negated code, m, s, next =>
    oneChar text (fun x => literalHolds m code x != negated) s next
  | any, m, s, next => oneChar text (fun x => m.dotAll || x != 0x0A) s next
  | set negated members, m, s, next =>
    oneChar text (fun x => setHolds m members x != negated) s next
  | place p, m, s, next => if p.holds text m s.pos then next s else none
  | cat first second, m, s, next => first.run text m s fun s => second.run text m s next
  | either first second, m, s, next => (first.run text m s next).or (second.run text m s next)
  | group number body, m, s, next =>
    body.run text m (s.openGroup number) fun s => next (s.closeGroup number)
  | moded on off body, m, s, next => body.run text (m.within on off) s next
  | atomic body, m, s, next => committed (body.run text m) s next
  | ahead negated body, m, s, next =>
    match body.run text m s some with
    | some t => if negated then none else next (t.moveTo s.pos)
    | none => if negated then next s else none
  | behind negated width body, m, s, next =>
    if s.pos < width.least then (if negated then next s else none)
    else
      match body.run text m (s.moveTo (s.pos - width.least)) some with
      | some t => if negated then none else next (t.moveTo s.pos)
      | none => if negated then next s else none
  | backref number _, m, s, next =>
    match s.span? number with
    | none => none
    | some (a, b) =>
      if sameText text m a (b - a) s.pos then next (s.moveTo (s.pos + (b - a))) else none
  | conditional number present absent, m, s, next =>
    if (s.span? number).isSome then present.run text m s next else absent.run text m s next
  | repeated greed least most body, m, s, next =>
    repeatRun text greed least most (body.run text m) s next

end Lookahead.Pattern
