import Lookahead.Pattern.Reading.Parenthesis
import Lookahead.Pattern.Reading.Repetition
import Lookahead.Text.Blank

/-!
Reading a pattern from its text, piece by piece. Bars and closing parentheses end an alternative
or a frame, and everything else adds to the current alternative. Each piece is taken once and the
rest gets shorter, so the end comes (`Reading.readAll`).

The order in which faults are found counts when there are several: a closing parenthesis without
an opening one is only told after the modes of the whole pattern have been found to agree.
-/

namespace Lookahead.Pattern

open Scan

variable [Text.CharacterNames]

namespace Reading

def isSpace (c : Char) : Bool := Text.isAsciiBlank c.toNat

def skipLine : Scan Unit :=
  loop (fun _ p => if p = .plain '\n' then pure (.inr ()) else pure (.inl ())) (fun _ => pure ()) ()

/-- A piece that is no bar and no closing parenthesis, after it has been taken at the given
offset. -/
def readPiece (r : Reading) (p : Piece) (offset : Nat) : Scan Reading :=
  match p with
  | .dangling => failAt .danglingEscape offset
  | .escaped c => do pure (r.pushTerm (← r.termEscape c))
  | .plain c =>
    if r.frame.verbose && isSpace c then pure r
    else if r.frame.verbose && c == '#' then do
      skipLine
      pure r
    else
      match repeatBounds? c with
      | some bounds => r.repeatLast c bounds offset
      | none =>
        match c with
        | '[' => do pure (r.pushTerm (← readSet offset))
        | '(' => r.readParenthesis offset
        | '.' => pure (r.pushTerm .any)
        | '^' => pure (r.pushTerm (.place .lineStart))
        | '$' => pure (r.pushTerm (.place .lineEnd))
        | _ => pure (r.pushTerm (.literal false c.toNat))

/-- The modes that a pattern is matched in. The two alphabets exclude each other. -/
def finalModes (r : Reading) : Except Fault Modes :=
  if r.modes.ascii && r.modes.unicode then .error .mixedGlobalAlphabets else .ok r.modes

/-- Refuses a bar or a closing parenthesis that has no place where it stands. It is not taken. -/
def checkCloser (r : Reading) (p : Piece) (offset : Nat) : Except Fault Unit :=
  if p = .plain ')' ∧ r.outer = [] then do
    -- modes that do not agree are told first
    let _ ← r.finalModes
    .error (.malformed .unbalanced offset)
  else
    match r.frame.opening with
    | .absent _ _ => if p = .plain '|' then .error (.malformed .thirdBranch offset) else .ok ()
    | _ => .ok ()

def next (r : Reading) (p : Piece) (offset : Nat) : Scan Reading :=
  if p = .plain '|' then pure r.bar
  else if p = .plain ')' then pure r.leave
  else r.readPiece p offset

def readAll (r : Reading) (s : Source) : Except Fault Reading :=
  match _hs : s.pieces with
  | [] =>
    match r.outer with
    | [] => .ok r
    | _ :: _ => .error (.malformed .unterminatedGroup r.frame.start)
  | p :: rest =>
    match r.checkCloser p s.offset with
    | .error e => .error e
    | .ok () =>
      match _ht : advance p rest s.offset with
      | .error e => .error e
      | .ok t =>
        match r.next p s.offset t with
        | .error e => .error e
        | .ok (r, ⟨u, _⟩) => readAll r u
termination_by s.pieces.length
decreasing_by
  rename_i hu
  have hle := hu.length_le
  rw [pieces_of_advance _ht] at hle
  simp only [_hs, List.length_cons]
  omega

def missingGroup? (r : Reading) : Option (Nat × Nat) := r.asked.find? fun a => r.groups.next ≤ a.1

/-- The modes that every pattern starts with: line ends count. -/
def initialModes : Modes := { multiLine := true }

def start : Reading :=
  { modes := initialModes, frame := { opening := .whole, start := 0, verbose := false } }

end Reading

/-- The term of a pattern, its modes and the number of its groups, before the checks that need the
whole term. -/
def parse (pattern : String) : Except Fault Compiled := do
  let pieces := Piece.cut pattern.toList
  if pieces.head? = some .dangling then .error (.malformed .danglingEscape 0)
  else
    let r ← Reading.start.readAll ⟨pieces, 0⟩
    let modes ← r.finalModes
    match r.missingGroup? with
    | some (number, offset) => .error (.malformed (.invalidReference number) offset)
    | none =>
      .ok { term := .seq r.frame.allTerms, modes, groups := r.groups.next - 1 }

end Lookahead.Pattern
