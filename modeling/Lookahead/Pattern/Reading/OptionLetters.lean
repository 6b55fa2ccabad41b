import Lookahead.Pattern.Basic
import Lookahead.Pattern.Scan
import Lookahead.Text.Letter

/-!
Option letters. They stand behind an opening parenthesis and a question mark, those to turn on
first, then a hyphen and those to turn off. A colon after them opens a part of the pattern that
they are meant for; a closing parenthesis means the whole pattern, where nothing can be turned
off.
-/

namespace Lookahead.Pattern

open Scan

namespace Reading

def failMode {α : Type} (p : Piece) (what : String) : Scan α :=
  match p with
  | .plain c =>
    failBack (if Text.isLetter c.toNat then .unknownMode else .missing what) p.width
  | _ => failBack (.missing what) p.width

def turnOn (on : Modes) (c : Char) (what : String) : Scan Modes :=
  if c = 'L' then failBack .localeMode 0
  else
    match Modes.ofLetter? c with
    | none => failMode (.plain c) what
    | some mode =>
      let on := on.union mode
      if mode.choosesAlphabet && on.ascii && on.unicode then failBack .mixedAlphabets 0 else pure on

/-- The letters of modes to turn on, the first of which has been taken, and the mark that ends
them. -/
def modesOn (first : Char) : Scan (Modes × Char) := do
  let what := "-, : or )"
  loop
    (fun on p =>
      match p with
      | .plain c =>
        if c = ')' ∨ c = '-' ∨ c = ':' then pure (.inr (on, c))
        else do pure (.inl (← turnOn on c what))
      | p => failMode p what)
    (fun _ => failBack (.missing what) 0)
    (← turnOn Modes.none first what)

/-- The letters of modes to turn off, at least one, up to the colon. -/
def modesOff : Scan Modes :=
  let what (first : Bool) : String := if first then "flag" else ":"
  loop
    (fun (first, off) p =>
      match p with
      | .plain c =>
        if !first && c = ':' then pure (.inr off)
        else if c = 'a' ∨ c = 'u' ∨ c = 'L' then failBack .alphabetTurnedOff 0
        else
          match Modes.ofLetter? c with
          | some mode => pure (.inl (false, off.union mode))
          | none => failMode p (what first)
      | p => failMode p (what first))
    (fun (first, _) => failBack (.missing (what first)) 0)
    (true, Modes.none)

/-- The modes that a part of the pattern turns on and off; nothing, if the letters are meant for
the whole pattern, together with those letters. The first character has been taken. -/
def readModes (first : Char) : Scan (Modes × Option Modes) := do
  let (on, mark) ←
    if first = '-' then pure (Modes.none, first)
    else modesOn first
  if mark = ')' then pure (on, none)
  else if on.template then failBack .modeTurnedOn 1
  else
    let off ← if mark = '-' then modesOff else pure Modes.none
    if off.template then failBack .modeTurnedOff 1
    else if on.inter off ≠ Modes.none then failBack .turnedOnAndOff 1
    else pure (on, some off)

def startsModes (c : Char) : Bool := c == '-' || c == 'L' || (Modes.ofLetter? c).isSome

end Reading

end Lookahead.Pattern
