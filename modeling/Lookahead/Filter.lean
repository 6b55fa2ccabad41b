import Lookahead.Tree

/-!
Token filters. A filter stands between a lexer and a parser: it is given tokens one at a time and
passes on any number of them, the same ones or others. Everything that it remembers is in its
state, so a run of a filter over a stream is a function of the stream (`Filter.run`).
-/

namespace Lookahead

/-- A machine that is given a token at a time and passes on tokens. -/
structure Filter where
  State : Type
  start : State
  step : State → Token → State × List Token

namespace Filter

/-- What is passed on of a stream, from a state on. -/
def runFrom (f : Filter) : f.State → List Token → List Token
  | _, [] => []
  | s, t :: rest => (f.step s t).2 ++ runFrom f (f.step s t).1 rest

def run (f : Filter) (tokens : List Token) : List Token := f.runFrom f.start tokens

def stateAfter (f : Filter) (s : f.State) (tokens : List Token) : f.State :=
  tokens.foldl (fun s t => (f.step s t).1) s

@[simp] theorem runFrom_nil (f : Filter) (s : f.State) : f.runFrom s [] = [] := rfl

@[simp] theorem runFrom_cons (f : Filter) (s : f.State) (t : Token) (rest : List Token) :
    f.runFrom s (t :: rest) = (f.step s t).2 ++ f.runFrom (f.step s t).1 rest := rfl

@[simp] theorem stateAfter_nil (f : Filter) (s : f.State) : f.stateAfter s [] = s := rfl

@[simp] theorem stateAfter_cons (f : Filter) (s : f.State) (t : Token) (rest : List Token) :
    f.stateAfter s (t :: rest) = f.stateAfter (f.step s t).1 rest := rfl

/-- What is passed on of two streams, one after the other: the second one is met in the state that
the first one leaves behind. -/
theorem runFrom_append (f : Filter) (s : f.State) (first second : List Token) :
    f.runFrom s (first ++ second) =
      f.runFrom s first ++ f.runFrom (f.stateAfter s first) second := by
  induction first generalizing s with
  | nil => rfl
  | cons t rest ih => simp [ih]

def all : Filter := ⟨Unit, (), fun _ t => ((), [t])⟩

def dropping (kinds : List String) : Filter :=
  ⟨Unit, (), fun _ t => ((), if t.kind ∈ kinds then [] else [t])⟩

theorem run_all (tokens : List Token) : all.run tokens = tokens := by
  show all.runFrom () tokens = tokens
  induction tokens with
  | nil => rfl
  | cons t rest ih => exact congrArg (t :: ·) ih

end Filter

end Lookahead
