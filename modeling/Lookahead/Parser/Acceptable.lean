import Lookahead.Parser.Basic

/-!
What the next token could be. The terminals that the parser would not refuse are gathered from the
expected symbols, without a token at hand: the leads of the non-terminal in front are acceptable,
and what comes after it is only asked when it can become nothing.

After a fault the question is about the moment before the token that did not fit, so the answer is
what would have been acceptable in its place.
-/

namespace Lookahead

namespace Grammar

/-- The terminals that the expected symbols let in, in the order in which they are met, in at most
the given number of steps. -/
def gather (g : Grammar) : Nat → List String → Option (List String)
  | 0, _ => none
  | _ + 1, [] => some [g.catalog.epsilon]
  | n + 1, top :: rest =>
    if !g.isNonterminal top then some [top]
    else
      let leads := (g.terminalLeads top).names
      match g.alternative? top .nonterminal with
      | some body => (gather g n (body ++ rest)).map (leads ++ ·)
      | none =>
        if g.hasEmpty top then (gather g n rest).map (leads ++ ·) else some leads

end Grammar

def ascending (names : List String) : List String :=
  names.eraseDups.mergeSort fun a b => decide (a ≤ b)

def Parser.acceptable (g : Grammar) (p : Parser) : List String :=
  if p.accepted then []
  else
    let expected := (p.fault.map (·.expected)).getD p.expected
    ascending ((g.gather (g.stepBound expected.length) expected).getD [])

end Lookahead
