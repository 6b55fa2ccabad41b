import Lookahead.Proofs.Parser.Spans

/-!
Spans in order. A stream may have gaps, where a filter has taken something out, but its tokens stand
one after the other (`InOrder`). Then so do the nodes that a parser makes of them, however deep:
`Spacing.ordered` asks for no more than that a node does not stop before it starts, nor start before
the one before it stops, and a tree whose nodes are spaced like that is in order throughout
(`Node.Fits.ordered`).
-/

namespace Lookahead

/-- The tokens stand one after the other, and none of them stops before it starts. -/
structure InOrder (tokens : List Token) : Prop where
  span : ∀ token ∈ tokens, token.start ≤ token.stop
  isChain : tokens.IsChain fun one other => one.stop ≤ other.start

/-- Gaps of any size: a node starts where the one before it stops, or later. -/
def Spacing.ordered : Spacing where
  within start stop := start ≤ stop
  next stop start := stop ≤ start
  within_refl := Position.le_refl
  next_refl := Position.le_refl
  within_trans h hnext h' := Position.le_trans (Position.le_trans h hnext) h'

namespace Node

/-- In the node and in all that is inside of it, a node does not stop before it starts, its children
stand one after the other, and each of them lies within its span. -/
inductive Ordered : Node → Prop
  | leaf {token : Token} (hspan : token.start ≤ token.stop) : Ordered (.leaf token)
  | branch {kind : String} {start stop : Position} {children : List Node} (hspan : start ≤ stop)
      (hchain : children.IsChain fun one other => one.stop ≤ other.start)
      (hinside : ∀ child ∈ children, start ≤ child.start ∧ child.stop ≤ stop)
      (hall : ∀ child ∈ children, child.Ordered) : Ordered (.branch kind start stop children)

variable {node : Node} {nodes : List Node} {origin place : Position}

theorem Row.inside (h : Row .ordered origin nodes place)
    (hspan : ∀ node ∈ nodes, node.start ≤ node.stop) :
    ∀ node ∈ nodes, origin ≤ node.start ∧ node.stop ≤ place := by
  intro node hnode
  obtain ⟨left, right, rfl⟩ := List.append_of_mem hnode
  obtain ⟨hleft, hright⟩ := List.forall_mem_append.mp hspan
  obtain ⟨middle, hbefore, hnext, hafter⟩ := row_append.mp h
  exact ⟨Position.le_trans (hbefore.within hleft) hnext,
    hafter.within (List.forall_mem_cons.mp hright).2⟩

theorem Fits.ordered (h : node.Fits .ordered) : node.Ordered := by
  induction h with
  | leaf hspan => exact .leaf hspan
  | branch hrow hall ih =>
      have hspan := fun child hchild => (hall child hchild).within
      exact .branch (hrow.within hspan) hrow.isChain (hrow.inside hspan) ih

end Node

theorem Parser.ordered_of_inOrder {g : Grammar} {root : String} (hg : g.WellFormed)
    (hr : g.NoHiddenLeftRecursion) {tokens : List Token} (htokens : InOrder tokens) :
    ∀ node ∈ ((start root).acceptAll g tokens).held, node.Ordered := by
  have hexists : ∃ origin, ∀ first ∈ tokens.head?, origin ≤ first.start := by
    cases tokens with
    | nil => exact ⟨⟨1, 1⟩, by simp⟩
    | cons first rest => exact ⟨first.start, by simpa using Position.le_refl _⟩
  obtain ⟨origin, hfirst⟩ := hexists
  obtain ⟨place, hstanding⟩ := (standing_start .ordered origin root).acceptAll hg hr
    (tracks_start g root) hfirst htokens.span htokens.isChain
  exact fun node hnode => (hstanding.fits node hnode).ordered

end Lookahead
