import Lookahead.Pattern.Matcher

/-!
Looking for a pattern in a text. What is looked for is a match that is not empty: at the leftmost
place that has one, and there the first one in the order in which the pattern prefers its matches.
An empty match is no answer, but it does not end the search either; the pattern is asked for its
next choice at the same place, and then at the next place.
-/

namespace Lookahead.Pattern

/-- A match in a text: where it starts and stops, and the group that was closed last in it. -/
structure Found (text : Array Char) where
  start : Nat
  stop : Nat
  group : Option Nat
  start_lt_stop : start < stop
  stop_le_size : stop ≤ text.size
  deriving Repr

namespace Compiled

def matchAt? (p : Compiled) (text : Array Char) (start : Nat) : Option State :=
  p.term.run text p.modes { pos := start } fun s => if start < s.pos then some s else none

def foundAt? (p : Compiled) (text : Array Char) (start : Nat) : Option (Found text) :=
  match p.matchAt? text start with
  | none => none
  | some s =>
    if h : start < s.pos ∧ s.pos ≤ text.size then
      some ⟨start, s.pos, s.lastGroup?, h.1, h.2⟩
    else none

/-- The leftmost match that is not empty. -/
def search? (p : Compiled) (text : Array Char) : Option (Found text) :=
  (List.range (text.size + 1)).findSome? (p.foundAt? text)

def matchesEmpty (p : Compiled) : Bool :=
  (p.term.run #[] p.modes { pos := 0 } some).isSome

end Compiled

end Lookahead.Pattern
