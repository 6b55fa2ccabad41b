import Lookahead.Pattern.Fault
import Lookahead.Pattern.Piece

/-!
Scanning pieces. A scanner takes pieces from the front of what is left of a pattern and gives a
value, or finds a fault. What is left afterwards is the end of what there was, and the result says
so, which is what lets a reader call scanners in a loop that ends.

A pattern that ends in a lone backslash is faulty whatever comes before it, and it is refused as
soon as the backslash comes next, that is, when the piece in front of it is taken.
-/

namespace Lookahead.Pattern

/-- What is left of a pattern, and the offset at which it starts. -/
structure Source where
  pieces : List Piece
  offset : Nat
  deriving Repr, DecidableEq, Inhabited

abbrev Scanned (α : Type) (s : Source) := α × { t : Source // t.pieces <:+ s.pieces }

def Scan (α : Type) := (s : Source) → Except Fault (Scanned α s)

namespace Scan

variable {α β : Type}

protected def pure (a : α) : Scan α := fun s => .ok (a, ⟨s, List.suffix_rfl⟩)

protected def bind (m : Scan α) (f : α → Scan β) : Scan β := fun s =>
  match m s with
  | .error e => .error e
  | .ok (a, ⟨t, h⟩) =>
    match f a t with
    | .error e => .error e
    | .ok (b, ⟨u, h'⟩) => .ok (b, ⟨u, h'.trans h⟩)

instance : Monad Scan where
  pure := Scan.pure
  bind := Scan.bind

def refuse (fault : Fault) : Scan α := fun _ => .error fault

def failAt (cause : Cause) (offset : Nat) : Scan α := fun _ => .error (.malformed cause offset)

/-- Refuses the pattern so many characters before what is left. -/
def failBack (cause : Cause) (back : Nat) : Scan α := fun s =>
  .error (.malformed cause (s.offset - back))

def offset : Scan Nat := fun s => .ok (s.offset, ⟨s, List.suffix_rfl⟩)

def peek : Scan (Option Piece) := fun s => .ok (s.pieces.head?, ⟨s, List.suffix_rfl⟩)

/-- Goes back to where it started when there is no result. -/
def attempt {α : Type} (m : Scan (Option α)) : Scan (Option α) := fun s =>
  (m s).map fun result => if result.1.isSome then result else (none, ⟨s, List.suffix_rfl⟩)

/-- Takes a piece off, unless a lone backslash comes next. -/
def advance (p : Piece) (rest : List Piece) (offset : Nat) : Except Fault Source :=
  match rest with
  | .dangling :: _ => .error (.malformed .danglingEscape (offset + p.width))
  | _ => .ok ⟨rest, offset + p.width⟩

theorem pieces_of_advance {p : Piece} {rest : List Piece} {offset : Nat} {s : Source}
    (h : advance p rest offset = .ok s) : s.pieces = rest := by
  unfold advance at h
  split at h <;> cases h
  rfl

def take : Scan (Option Piece) := fun s =>
  match hs : s.pieces with
  | [] => .ok (none, ⟨s, List.suffix_rfl⟩)
  | p :: rest =>
    match h : advance p rest s.offset with
    | .error e => .error e
    | .ok t => .ok (some p, ⟨t, by simp [pieces_of_advance h, hs]⟩)

def accept (c : Char) : Scan Bool := do
  if (← peek) = some (.plain c) then
    let _ ← take
    pure true
  else pure false

def peekPlain : Scan (Option Char) := do
  match ← peek with
  | some (.plain c) => pure (some c)
  | _ => pure none

def takeUpTo (test : Char → Bool) : Nat → Scan (List Char)
  | 0 => pure []
  | n + 1 => do
    match ← peekPlain with
    | some c =>
      if test c then
        let _ ← take
        let rest ← takeUpTo test n
        pure (c :: rest)
      else pure []
    | none => pure []

def takeWhile (test : Char → Bool) : Scan (List Char) := fun s =>
  takeUpTo test s.pieces.length s

/-- Takes pieces one after another, each with what the ones before came to, until the body gives
an end or there are no more. -/
def loop {σ : Type} (body : σ → Piece → Scan (σ ⊕ α)) (atEnd : σ → Scan α) (x : σ) : Scan α :=
  fun s =>
    match hs : s.pieces with
    | [] => atEnd x s
    | p :: rest =>
      match ht : advance p rest s.offset with
      | .error e => .error e
      | .ok t =>
        match body x p t with
        | .error e => .error e
        | .ok (.inr a, ⟨u, hu⟩) =>
          .ok (a, ⟨u, hs ▸ (pieces_of_advance ht ▸ hu).trans (List.suffix_cons p rest)⟩)
        | .ok (.inl y, ⟨u, hu⟩) =>
          have hleft := hs ▸ (pieces_of_advance ht ▸ hu).trans (List.suffix_cons p rest)
          match loop body atEnd y u with
          | .error e => .error e
          | .ok (a, ⟨v, hv⟩) => .ok (a, ⟨v, hv.trans hleft⟩)
termination_by s => s.pieces.length
decreasing_by
  have hle := hu.length_le
  rw [pieces_of_advance ht] at hle
  simp only [hs, List.length_cons]
  omega

/-- The text up to a closing character, which is taken too and has to be there. `what` is the text
meant. -/
def takeUntil (closer : Char) (what : String) : Scan String :=
  loop
    (fun taken p =>
      if p = .plain closer then
        if taken = "" then failBack (.missing what) 1 else pure (.inr taken)
      else pure (.inl (taken ++ p.text)))
    (fun taken =>
      if taken = "" then failBack (.missing what) 0
      else failBack (.unterminatedName closer) taken.length)
    ""

end Scan

end Lookahead.Pattern
