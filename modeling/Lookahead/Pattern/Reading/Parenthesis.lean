import Lookahead.Pattern.Reading.OptionLetters
import Lookahead.Pattern.Reading.Reference
import Lookahead.Text.Identifier

/-!
Opening parentheses. A question mark after one announces what it opens: a group with a name, a
part with its own modes, a look around, a condition, a part that is matched for good. Comments and
references by name are written in parentheses too, but open nothing. Without a question mark it is
a group with the next number.
-/

namespace Lookahead.Pattern

open Scan

def groupLimit : Nat := 1073741823

namespace Reading

def enterCapture (r : Reading) (start : Nat) : Reading :=
  let number := r.groups.next
  { r with groups := { r.groups with next := number + 1 } }.enter (.capture number) start
    r.frame.verbose

def enterNamed (r : Reading) (name : String) (start : Nat) : Scan Reading :=
  if !Text.isIdentifier name.toList then failBack (.badGroupName name) (name.length + 1)
  else
    match r.groups.names.lookup name with
    | some earlier => failBack (.redefinedName name r.groups.next earlier) (name.length + 1)
    | none =>
      let names := r.groups.names ++ [(name, r.groups.next)]
      pure ({ r with groups := { r.groups with names } }.enterCapture start)

def namedReference (r : Reading) (name : String) : Scan Term :=
  if !Text.isIdentifier name.toList then failBack (.badGroupName name) (name.length + 1)
  else
    match r.groups.names.lookup name with
    | none => failBack (.unknownGroupName name) (name.length + 1)
    | some number => r.reference number (name.length + 1)

def readNamed (r : Reading) (start : Nat) : Scan Reading := do
  if ← accept '<' then
    r.enterNamed (← takeUntil '>' "group name") start
  else if ← accept '=' then
    pure (r.pushTerm (← r.namedReference (← takeUntil ')' "group name")))
  else
    match ← take with
    | none => failBack .unexpectedEnd 0
    | some p => failBack (.unknownExtension ("?P" ++ p.text)) (p.width + 2)

/-- The group that a condition asks for, by the name or number in its parentheses. Those asked for
by number are remembered with the place. -/
def conditionGroup (r : Reading) (name : String) : Scan (Nat × Reading) :=
  let back := name.length + 1
  if Text.isIdentifier name.toList then
    match r.groups.names.lookup name with
    | none => failBack (.unknownGroupName name) back
    | some number => pure (number, r)
  else
    match Text.readInteger? name.toList with
    | none => failBack (.badGroupName name) back
    | some value =>
      if value < 0 then failBack (.badGroupName name) back
      else if value = 0 then failBack .badGroupNumber back
      else
        let number := value.toNat
        if groupLimit ≤ number then failBack (.invalidReference number) back
        else do
          let offset ← Scan.offset
          let asked :=
            if (r.asked.lookup number).isSome then r.asked
            else r.asked ++ [(number, offset - back)]
          pure (number, { r with asked })

/-- A condition, after its opening parentheses. -/
def readCondition (r : Reading) (start : Nat) : Scan Reading := do
  let name ← takeUntil ')' "group name"
  let (number, r) ← r.conditionGroup name
  r.checkLookbehind number
  pure (r.enter (.present number) start r.frame.verbose)

def skipComment (start : Nat) : Scan Unit :=
  loop (fun _ p => if p = .plain ')' then pure (.inr ()) else pure (.inl ()))
    (fun _ => failAt .unterminatedComment start) ()

/-- Opens a look behind. Groups that are opened from here on belong to it. -/
def enterBehind (r : Reading) (negated : Bool) (start : Nat) : Reading :=
  let limit := r.groups.limit.getD r.groups.next
  { r with groups := { r.groups with limit := some limit } }.enter
    (.behind negated r.groups.limit.isNone) start r.frame.verbose

def readBehind (r : Reading) (start : Nat) : Scan Reading := do
  match ← take with
  | none => failBack .unexpectedEnd 0
  | some (.plain '=') => pure (r.enterBehind false start)
  | some (.plain '!') => pure (r.enterBehind true start)
  | some p => failBack (.unknownExtension ("?<" ++ p.text)) (p.width + 2)

/-- Option letters: for the whole pattern, if nothing has been read yet, or for a part of it. -/
def readModed (r : Reading) (first : Char) (start : Nat) : Scan Reading := do
  match ← readModes first with
  | (on, none) =>
    if r.frame.isFresh then
      let modes := r.modes.union on
      pure { r with modes, frame := { r.frame with verbose := modes.verbose } }
    else failAt .lateModes start
  | (on, some off) =>
    pure (r.enter (.plain on off) start ((r.frame.verbose || on.verbose) && !off.verbose))

def readExtension (r : Reading) (start : Nat) : Scan Reading := do
  let verbose := r.frame.verbose
  match ← take with
  | none => failBack .unexpectedEnd 0
  | some (.plain 'P') => r.readNamed start
  | some (.plain ':') => pure (r.enter (.plain Modes.none Modes.none) start verbose)
  | some (.plain '#') =>
    skipComment start
    pure r
  | some (.plain '=') => pure (r.enter (.ahead false) start verbose)
  | some (.plain '!') => pure (r.enter (.ahead true) start verbose)
  | some (.plain '<') => r.readBehind start
  | some (.plain '(') => r.readCondition start
  | some (.plain '>') => pure (r.enter .atomic start verbose)
  | some p =>
    match p with
    | .plain c =>
      if startsModes c then r.readModed c start
      else failBack (.unknownExtension ("?" ++ p.text)) (p.width + 1)
    | _ => failBack (.unknownExtension ("?" ++ p.text)) (p.width + 1)

def readParenthesis (r : Reading) (start : Nat) : Scan Reading := do
  if ← accept '?' then r.readExtension start else pure (r.enterCapture start)

end Reading

end Lookahead.Pattern
