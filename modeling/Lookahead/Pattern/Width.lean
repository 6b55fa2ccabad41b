import Lookahead.Pattern.Basic

/-!
Widths of terms. A look behind has to know where to start, so what it looks at needs one fixed
width. The width of a term is the range of the numbers of characters that it can match, as far as
its shape tells; conditions on a place have none.
-/

namespace Lookahead.Pattern

namespace Width

def zero : Width := ⟨0, some 0⟩

def one : Width := ⟨1, some 1⟩

def add (a b : Width) : Width :=
  ⟨a.least + b.least, a.most.bind fun m => b.most.map (m + ·)⟩

def either (a b : Width) : Width :=
  ⟨min a.least b.least, a.most.bind fun m => b.most.map (max m)⟩

/-- Repeated between `least` and `most` times. Without a bound the width has none either, unless
nothing is repeated. -/
def times (w : Width) (least : Nat) (most : Option Nat) : Width :=
  ⟨w.least * least,
    match w.most, most with
    | some 0, _ => some 0
    | _, some 0 => some 0
    | some m, some n => some (m * n)
    | _, _ => none⟩

def fixed? (w : Width) : Option Nat := if w.most = some w.least then some w.least else none

end Width

def Term.width : Term → Width
  | empty | place _ | ahead _ _ | behind _ _ _ => .zero
  | literal _ _ | any | set _ _ => .one
  | cat first second => first.width.add second.width
  | either first second | conditional _ first second => first.width.either second.width
  | group _ body | moded _ _ body | atomic body => body.width
  | backref _ width => width
  | repeated _ least most body => body.width.times least most

end Lookahead.Pattern
