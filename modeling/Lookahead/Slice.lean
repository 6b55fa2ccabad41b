/-!
Places in a list named by signed numbers: from 0 on counted from the front, below 0 counted from
the back, so -1 is the last member. A slice takes every `step`-th member between two places, in
either direction; its ends may lie anywhere and are brought back to the list, so only a step of
zero is refused.
-/

namespace Lookahead

/-- The member at a signed place. -/
def signedGet? {α : Type} (items : List α) (place : Int) : Option α :=
  let place := if place < 0 then place + items.length else place
  if 0 ≤ place then items[place.toNat]? else none

/-- A range of signed places. An end that is not given is the outermost one in the direction of
the step; a step that is not given is 1. -/
structure Slice where
  start : Option Int := none
  stop : Option Int := none
  step : Option Int := none
  deriving Repr, DecidableEq, Inhabited

namespace Slice

/-- An end of a slice, counted from the front and brought to between `lowest` and `highest`. -/
def bring (length : Nat) (lowest highest : Int) (place : Int) : Int :=
  let place := if place < 0 then place + length else place
  max lowest (min highest place)

/-- The places from `start` on by `step`, as many as are asked for. -/
def places (start step : Int) (count : Nat) : List Int :=
  (List.range count).map fun k : Nat => start + step * (k : Int)

/-- The places that a slice takes from a list of the given length; nothing for a step of zero. -/
def selected? (s : Slice) (length : Nat) : Option (List Int) :=
  let step := s.step.getD 1
  if step = 0 then none
  else if 0 < step then
    let start := (s.start.map (bring length 0 length)).getD 0
    let stop := (s.stop.map (bring length 0 length)).getD length
    some (places start step ((stop - start + step - 1) / step).toNat)
  else
    let start := (s.start.map (bring length (-1) (length - 1))).getD (length - 1)
    let stop := (s.stop.map (bring length (-1) (length - 1))).getD (-1)
    some (places start step ((start - stop - step - 1) / -step).toNat)

def of? {α : Type} (s : Slice) (items : List α) : Option (List α) :=
  (s.selected? items.length).map fun ps => ps.filterMap fun p => items[p.toNat]?

end Slice

inductive PlaceFault where
  | outside
  | unrepresentable
  deriving Repr, DecidableEq

namespace PlaceFault

def message : PlaceFault → String
  | outside => "tuple index out of range"
  | unrepresentable => "cannot fit 'int' into an index-sized integer"

end PlaceFault

/-- Places are signed words of 64 bits, so they stay below this. -/
def placeLimit : Int := 9223372036854775808

/-- The member at a signed place that has to exist. -/
def memberAt {α : Type} (items : List α) (place : Int) : Except PlaceFault α :=
  if place < -placeLimit ∨ placeLimit ≤ place then .error .unrepresentable
  else match signedGet? items place with
    | some item => .ok item
    | none => .error .outside

end Lookahead
