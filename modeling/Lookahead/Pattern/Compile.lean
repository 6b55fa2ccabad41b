import Lookahead.Pattern.Reader

/-!
From the text of a pattern to something that can be matched. Reading checks everything that has a
place in the text; what is left is to look through the whole term, in order, for look behinds that
cannot know where to start, and for repetitions where the modes allow none.
-/

namespace Lookahead.Pattern

def lookbehindLimit : Nat := 4294967296

def Greed.repeatName : Greed → RepeatName
  | greedy => .greedy
  | lazy => .lazy
  | possessive => .possessive

/-- A look behind needs one fixed width that is not too large. -/
def Width.checkLookbehind (w : Width) : Except Fault Unit :=
  if lookbehindLimit ≤ w.least then .error .wideLookbehind
  else if w.fixed?.isNone then .error .looseLookbehind
  else .ok ()

def Term.check (template : Bool) : Term → Except Fault Unit
  | empty | literal _ _ | any | set _ _ | place _ | backref _ _ => .ok ()
  | cat first second | either first second | conditional _ first second => do
    first.check template
    second.check template
  | group _ body | moded _ _ body | atomic body | ahead _ body => body.check template
  | behind _ width body => do
    width.checkLookbehind
    body.check template
  | repeated greed _ _ body =>
    if template then .error (.repeatInTemplate greed.repeatName) else body.check template

def compile [Text.CharacterNames] (pattern : String) : Except Fault Compiled := do
  let compiled ← parse pattern
  compiled.term.check compiled.modes.template
  pure compiled

end Lookahead.Pattern
