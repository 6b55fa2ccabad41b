import Lookahead.Proofs.Expression.Grammar
import Lookahead.Parser.Acceptable
import Lookahead.Proofs.Parser.Run

/-!
Nothing but the kinds of tokens decides a parse. Texts and positions pass through the parser on
their way into the tree, and the position of a token is even given to nodes that it has no part in,
but no decision looks at them.

To see it they are taken out. What is left of a token, a node or a parser without texts and
positions is its `bare` form, and a parser that takes in a bare token does what it would have done
with the whole one, up to what is taken out (`bare_accept`). So a bare run is the run of every
stream with the same kinds, and two such streams are compared with it, never with each other.
-/

namespace Lookahead

/-! ### Without texts and positions -/

def nowhere : Position := ⟨0, 0⟩

def Token.bare (token : Token) : Token := ⟨token.kind, nowhere, nowhere, ""⟩

@[simp] theorem Token.kind_bare (token : Token) : token.bare.kind = token.kind := rfl

@[simp] theorem Token.start_bare (token : Token) : token.bare.start = nowhere := rfl

theorem Token.map_bare_congr {tokens others : List Token}
    (h : tokens.map (·.kind) = others.map (·.kind)) : tokens.map bare = others.map bare := by
  have hbare : bare = (fun kind => ⟨kind, nowhere, nowhere, ""⟩) ∘ Token.kind := rfl
  rw [hbare, ← List.map_map, ← List.map_map]
  exact congrArg _ h

namespace Node

mutual

/-- The tree with its kinds and its shape, and nothing else. -/
def bare : Node → Node
  | leaf token => leaf token.bare
  | branch kind _ _ children => branch kind nowhere nowhere (bareAll children)

def bareAll : List Node → List Node
  | [] => []
  | node :: rest => bare node :: bareAll rest

end

theorem bareAll_eq_map (nodes : List Node) : bareAll nodes = nodes.map bare := by
  induction nodes with
  | nil => rfl
  | cons node rest ih => rw [bareAll, ih, List.map_cons]

@[simp] theorem bare_leaf (token : Token) : (leaf token).bare = leaf token.bare := by rw [bare]

@[simp] theorem bare_branch (kind : String) (start stop : Position) (children : List Node) :
    (branch kind start stop children).bare =
      branch kind nowhere nowhere (children.map bare) := by
  rw [bare, bareAll_eq_map]

@[simp] theorem start_bare (node : Node) : node.bare.start = nowhere := by
  cases node <;> simp [start]

@[simp] theorem stop_bare (node : Node) : node.bare.stop = nowhere := by
  cases node <;> simp [stop, Token.bare]

theorem bare_spanning (kind : String) (children : List Node) (place : Position) :
    (spanning kind children place).bare = spanning kind (children.map bare) nowhere := by
  unfold spanning
  rw [List.head?_map, List.getLast?_map]
  cases children.head? with
  | none => simp
  | some first =>
      cases children.getLast? with
      | none => simp
      | some last => simp

end Node

def Builder.bare (builder : Builder) : Builder :=
  { builder with parts := builder.parts.map Node.bare }

def Fault.bare (fault : Fault) : Fault := { fault with token := fault.token.bare }

namespace Parser

variable (g : Grammar) (p : Parser) (token : Token)

/-- The parser without the texts and positions of the tokens that it has taken in. -/
def bare (p : Parser) : Parser :=
  { p with
    builders := p.builders.map Builder.bare
    fault := p.fault.map Fault.bare
    result := p.result.map Node.bare }

def Progress.bare : Progress → Progress
  | more p => more p.bare
  | done p => done p.bare

@[simp] theorem expected_bare : p.bare.expected = p.expected := rfl

@[simp] theorem accepted_bare : p.bare.accepted = p.accepted := rfl

@[simp] theorem fault_bare : p.bare.fault = p.fault.map Fault.bare := rfl

@[simp] theorem isSome_fault_bare : p.bare.fault.isSome = p.fault.isSome := Option.isSome_map

@[simp] theorem closed_bare : p.bare.closed = p.closed := by
  rw [closed, closed, isSome_fault_bare, accepted_bare]

/-! ### Bare runs -/

/-- Handing over a bare node completes the same builders. -/
theorem hand_bare (place : Position) (builders : List Builder) (node : Node) :
    hand nowhere (builders.map Builder.bare) node.bare =
      ((hand place builders node).1.map Builder.bare,
        (hand place builders node).2.map Node.bare) := by
  induction builders generalizing node with
  | nil => rfl
  | cons builder outer ih =>
      have hparts : builder.bare.parts ++ [node.bare] =
          (builder.parts ++ [node]).map Node.bare := by simp [Builder.bare]
      have hlength : (builder.bare.parts ++ [node.bare]).length =
          (builder.parts ++ [node]).length := by rw [hparts, List.length_map]
      rw [List.map_cons, hand, hand]
      by_cases hfull : builder.size ≤ (builder.parts ++ [node]).length
      · rw [if_pos hfull, if_pos (hlength ▸ hfull), hparts]
        rw [← ih, Node.bare_spanning]
        rfl
      · rw [if_neg hfull, if_neg (hlength ▸ hfull), hparts]
        rfl

theorem bare_receive (node : Node) (place : Position) :
    (p.receive node place).bare = p.bare.receive node.bare nowhere := by
  have hhand := hand_bare place p.builders node
  unfold receive
  rw [show p.bare.builders = p.builders.map Builder.bare from rfl, hhand]
  simp only [bare]
  cases (hand place p.builders node).2 <;> rfl

theorem bare_step (before : List String) :
    (step g before token p).bare = step g before token.bare p.bare := by
  unfold step
  rw [Token.kind_bare, expected_bare]
  cases g.move token.kind p.expected with
  | finish | surplus | mismatch | stuck | expand => rfl
  | consume rest =>
      have hreceive := bare_receive { p with expected := rest } (.leaf token) token.start
      rw [Node.bare_leaf] at hreceive
      exact congrArg (fun q : Parser => Progress.done { q with
        accepted := decide (token.kind = g.catalog.epsilon ∧ rest = []) }) hreceive
  | vanish top rest =>
      have hreceive := bare_receive { p with expected := rest } (Node.spanning top [] token.start)
        token.start
      rw [Node.bare_spanning] at hreceive
      exact congrArg Progress.more hreceive

theorem map_bare_drive (before : List String) (n : Nat) :
    (drive g before token n p).map bare = drive g before token.bare n p.bare := by
  induction n generalizing p with
  | zero => rfl
  | succ n ih =>
      rw [drive, drive, ← bare_step]
      cases step g before token p with
      | done q => rfl
      | more q => exact ih q

/-- A bare token does to a bare parser what the whole token does to the whole parser. -/
theorem bare_accept : (p.accept g token).bare = p.bare.accept g token.bare := by
  unfold accept
  rw [closed_bare, expected_bare, ← map_bare_drive]
  split
  · rfl
  · cases drive g p.expected token (g.stepBound p.expected.length) p <;> rfl

theorem bare_acceptAll (tokens : List Token) :
    (p.acceptAll g tokens).bare = p.bare.acceptAll g (tokens.map Token.bare) := by
  induction tokens generalizing p with
  | nil => rfl
  | cons token rest ih => rw [acceptAll_cons, ih, bare_accept, List.map_cons, acceptAll_cons]

/-! ### What can be seen of a bare parser -/

theorem acceptable_bare : p.bare.acceptable g = p.acceptable g := by
  have hexpected : (p.bare.fault.map (·.expected)).getD p.bare.expected =
      (p.fault.map (·.expected)).getD p.expected := by
    rw [fault_bare, expected_bare, Option.map_map]
    rfl
  rw [acceptable, acceptable, accepted_bare, hexpected]

theorem root?_bare : p.bare.root? = p.root?.map Node.bare := by
  rw [root?, root?, accepted_bare]
  split <;> rfl

/-- Two parsers that only differ in texts and positions, as far as can be seen from outside. -/
structure Alike (g : Grammar) (q r : Parser) : Prop where
  expected : q.expected = r.expected
  acceptable : q.acceptable g = r.acceptable g
  accepted : q.accepted = r.accepted
  fault : q.fault.map Fault.bare = r.fault.map Fault.bare
  root : q.root?.map Node.bare = r.root?.map Node.bare

theorem alike_of_bare_eq {q r : Parser} (h : q.bare = r.bare) : Alike g q r where
  expected := by rw [← expected_bare, h, expected_bare]
  acceptable := by rw [← acceptable_bare, h, acceptable_bare]
  accepted := by rw [← accepted_bare, h, accepted_bare]
  fault := by rw [← fault_bare, h, fault_bare]
  root := by rw [← root?_bare, h, root?_bare]

theorem Alike.isSome_fault {q r : Parser} (h : Alike g q r) :
    q.fault.isSome = r.fault.isSome := by
  have hsome := congrArg Option.isSome h.fault
  rwa [Option.isSome_map, Option.isSome_map] at hsome

/-- The first token that does not fit is the one at the given place of the stream. -/
def FaultyAt (g : Grammar) (p : Parser) (tokens : List Token) (i : Nat) : Prop :=
  (p.acceptAll g (tokens.take i)).fault.isSome = false ∧
    (p.acceptAll g (tokens.take (i + 1))).fault.isSome = true

variable {g p}

/-- **Parsing decisions depend on the kinds of the tokens only.** Two streams whose tokens have the
same kinds, one by one, are treated alike whatever their texts and positions are: after as many
tokens of each the same symbols are expected, the same kinds are acceptable, both are accepted or
neither is, both have a fault or neither has, and the trees are the same but for texts and
positions. If there is a fault, it is at the same place in both. -/
theorem alike_of_kinds {tokens others : List Token}
    (hkinds : tokens.map (·.kind) = others.map (·.kind)) :
    (∀ n, Alike g (p.acceptAll g (tokens.take n)) (p.acceptAll g (others.take n))) ∧
      ∀ i, FaultyAt g p tokens i ↔ FaultyAt g p others i := by
  have halike (n : Nat) :
      Alike g (p.acceptAll g (tokens.take n)) (p.acceptAll g (others.take n)) := by
    apply alike_of_bare_eq
    rw [bare_acceptAll, bare_acceptAll, List.map_take, List.map_take, Token.map_bare_congr hkinds]
  refine ⟨halike, fun i => ?_⟩
  rw [FaultyAt, FaultyAt, (halike i).isSome_fault, (halike (i + 1)).isSome_fault]

/-- Two sums in the built-in language, one of them spread over lines. Their trees are not the same,
but have the same shape. -/
theorem alike_of_kinds_sums :
    let tokens := [Token.mk "NUMBER" ⟨1, 1⟩ ⟨1, 2⟩ "1", Token.mk "PLUSMIN" ⟨1, 2⟩ ⟨1, 3⟩ "+",
      Token.mk "IDENTIFIER" ⟨1, 3⟩ ⟨1, 4⟩ "x", Token.mk "EPSILON" ⟨1, 4⟩ ⟨1, 4⟩ ""]
    let others := [Token.mk "NUMBER" ⟨1, 1⟩ ⟨1, 3⟩ "42", Token.mk "PLUSMIN" ⟨2, 5⟩ ⟨2, 6⟩ "-",
      Token.mk "IDENTIFIER" ⟨3, 1⟩ ⟨3, 6⟩ "delta", Token.mk "EPSILON" ⟨9, 1⟩ ⟨9, 1⟩ ""]
    let g := Expression.grammar
    let p := start "EXPR"
    tokens.map (·.kind) = others.map (·.kind) ∧
    (∀ n, Alike g (p.acceptAll g (tokens.take n)) (p.acceptAll g (others.take n))) ∧
    ∃ tree other, (p.acceptAll g tokens).root? = some tree ∧
      (p.acceptAll g others).root? = some other ∧ tree ≠ other ∧ tree.bare = other.bare := by
  intro tokens others g p
  have hkinds : tokens.map (·.kind) = others.map (·.kind) := rfl
  obtain ⟨halike, -⟩ := alike_of_kinds (g := g) (p := p) hkinds
  obtain ⟨tree, htree⟩ : ∃ tree, (p.acceptAll g tokens).root? = some tree :=
    Option.isSome_iff_exists.mp (by decide +kernel)
  obtain ⟨other, hother⟩ : ∃ other, (p.acceptAll g others).root? = some other :=
    Option.isSome_iff_exists.mp (by decide +kernel)
  have hne : (p.acceptAll g tokens).root? ≠ (p.acceptAll g others).root? := by decide +kernel
  have hroot : (p.acceptAll g tokens).root?.map Node.bare =
      (p.acceptAll g others).root?.map Node.bare := (halike 4).root
  rw [htree, hother] at hroot hne
  exact ⟨hkinds, halike, tree, other, htree, hother, fun h => hne (congrArg some h),
    Option.some.inj hroot⟩

end Parser

end Lookahead
