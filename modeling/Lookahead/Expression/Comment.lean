import Lookahead.Filter

/-!
Comments and white space in arithmetic expressions. A filter takes them out before parsing, so
that the grammar need not mention them:

- a comment that `//` opens runs to the end of the line and is dropped;
- one that `/*` opens runs to the next `*/` and is dropped;
- one that `/**` opens runs to the next `*/` and becomes one token with the text in between.

The token that opened a comment decides where it ends, whatever else is opened inside.

A number directly followed by a name or by another number is not two tokens but a mistake, which
no pattern can find. So a number is held back until the next token has come, and such a run is
passed on as one unmatched token. The end of the input is always passed on, even inside a comment.
-/

namespace Lookahead.Expression

/-- Where the filter is: outside of comments, or inside a comment of one of the three kinds. Of a
documentation comment it remembers where its text starts, and its texts so far, last first. -/
inductive Mode where
  | code
  | line
  | block
  | doc (start : Position) (texts : List String)
  deriving Repr, DecidableEq, Inhabited

/-- The state of the filter: where it is, and the number that it holds back. -/
structure Comments where
  mode : Mode := .code
  held : Option Token := none
  deriving Repr, DecidableEq, Inhabited

def Mode.name : Mode → String
  | code => "NORMAL"
  | line => "SHORT_COMMENT"
  | block => "LONG_COMMENT"
  | doc _ _ => "DOC_COMMENT"

/-- Two tokens as one that nothing matches. -/
def fuse (first second : Token) : Token :=
  ⟨"UNMATCHED", first.start, second.stop, first.text ++ second.text⟩

namespace Comments

def inCode (t : Token) : Comments × List Token :=
  if t.kind = "NUMBER" then ({ held := some t }, [])
  else if t.kind = "DOC_COMMENT_OPEN" then ({ mode := .doc t.stop [] }, [])
  else if t.kind = "COMMENT_OPEN" then ({ mode := .block }, [])
  else if t.kind = "COMMENT" then ({ mode := .line }, [])
  else if t.kind = "WHITESPACE" ∨ t.kind = "NEWLINE" then ({}, [])
  else ({}, [t])

def pass (mode : Mode) (t : Token) : Comments × List Token :=
  if t.kind = "EPSILON" then ({}, [t])
  else
    match mode with
    | .code => inCode t
    | .line => (if t.kind = "NEWLINE" then {} else { mode := .line }, [])
    | .block => (if t.kind = "COMMENT_CLOSE" then {} else { mode := .block }, [])
    | .doc start texts =>
      if t.kind = "COMMENT_CLOSE" then
        ({}, [⟨"DOC_COMMENT", start, t.start, String.join texts.reverse⟩])
      else ({ mode := .doc start (t.text :: texts) }, [])

def step (s : Comments) (t : Token) : Comments × List Token :=
  match s.held with
  | none => pass s.mode t
  | some held =>
    if t.kind = "IDENTIFIER" then ({ s with held := none }, [fuse held t])
    else if t.kind = "NUMBER" then ({ s with held := some (fuse held t) }, [])
    else
      let (s, out) := pass s.mode t
      (s, held :: out)

end Comments

def comments : Filter := ⟨Comments, {}, Comments.step⟩

end Lookahead.Expression
