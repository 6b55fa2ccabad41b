import Lookahead.Proofs.Lexicon.Stream
import Lookahead.Proofs.Parser.Spans

/-!
Trees over a text. The positions of tokens come from a cursor that is moved over the text, so a
token stands where the text before it ends (`Placed`). What the spans of the other nodes have to do
with the text is not in their tokens: an empty node has none, and a node that begins or ends with
empty nodes has its span from those. But without gaps there is only one place left for each of them,
the position that the text has reached by then. So a place in a tree is given by the leaves before
it and after it (`Node.Occurs`), and these alone say where the node stands and which slice of the
text is its own (`Node.Tiles`).
-/

namespace Lookahead

open Lexicon (textOfTokens textOfTokens_append)

def placeAfter (tokens : List Token) : Position :=
  (({} : Cursor).advance (textOfTokens tokens)).position

/-- The tokens stand where the text before them ends. -/
def Placed (tokens : List Token) : Prop :=
  ∀ before token after, tokens = before ++ token :: after →
    token.start = placeAfter before ∧ token.stop = placeAfter (before ++ [token])

namespace Placed

variable {tokens : List Token}

theorem start_le_stop (h : Placed tokens) : ∀ token ∈ tokens, token.start ≤ token.stop := by
  intro token htoken
  obtain ⟨before, after, heq⟩ := List.append_of_mem htoken
  obtain ⟨hstart, hstop⟩ := h before token after heq
  rw [hstart, hstop, placeAfter, placeAfter, textOfTokens_append, Cursor.advance_append]
  exact Cursor.position_le_advance _ _

theorem of_front {first : List Token} (h : Placed tokens) (hfront : first <+: tokens) :
    Placed first := by
  obtain ⟨rest, rfl⟩ := hfront
  intro before token after heq
  refine h before token (after ++ rest) ?_
  rw [heq, List.append_assoc, List.cons_append]

end Placed

namespace Node

/-- The node stands in a tree, between leaves of the tree before it and after it. -/
inductive Occurs (tree : Node) : List Token → Node → List Token → Prop
  | root : Occurs tree [] tree []
  | child {before after : List Token} {kind : String} {start stop : Position}
      {left right : List Node} {node : Node}
      (h : Occurs tree before (.branch kind start stop (left ++ node :: right)) after) :
      Occurs tree (before ++ leavesOfAll left) node (leavesOfAll right ++ after)

/-- There is nothing between the children of a node, or between them and its ends. -/
structure Seamless (start stop : Position) (children : List Node) : Prop where
  joined : children.IsChain fun one other => one.stop = other.start
  start_eq : ∀ first ∈ children.head?, start = first.start
  stop_eq : ∀ last ∈ children.getLast?, stop = last.stop
  /-- A node without children has no width. -/
  width : children = [] → start = stop

/-- The tree covers a text, without gaps, and so does each node in it with its slice of the text. -/
structure Tiles (tree : Node) (input : List Char) : Prop where
  text_eq : tree.text = String.ofList input
  start_eq : tree.start = ⟨1, 1⟩
  stop_eq : tree.stop = (({} : Cursor).advance input).position
  seamless : ∀ {before after kind start stop children},
    tree.Occurs before (.branch kind start stop children) after → Seamless start stop children
  ordered : ∀ {before after node}, tree.Occurs before node after → node.start ≤ node.stop
  /-- A node stands where its slice of the text stands. -/
  placed : ∀ {before after node}, tree.Occurs before node after →
    node.start = placeAfter before ∧ node.stop = placeAfter (before ++ node.leaves)
  /-- The slice goes from the end of the leaves before the node to the end of its own leaves. -/
  sliced : ∀ {before after node}, tree.Occurs before node after →
    node.text.toList = (input.take (textOfTokens (before ++ node.leaves)).length).drop
      (textOfTokens before).length

variable {tree node : Node} {tokens before after : List Token} {nodes : List Node}
variable {origin place : Position} {s : Spacing} {input : List Char}

/-! ### Text -/

theorem toList_text (node : Node) : node.text.toList = textOfTokens node.leaves := by
  rw [text, String.toList_join, textOfTokens, List.flatMap_def, List.map_map]
  rfl

/-- The leaves of a tree, taken apart around a node. -/
theorem Occurs.leaves_eq (h : tree.Occurs before node after) :
    tree.leaves = before ++ node.leaves ++ after := by
  induction h with
  | root => simp
  | child _ ih => simpa [leaves] using ih

theorem Occurs.slice_eq (h : tree.Occurs before node after)
    (htext : textOfTokens tree.leaves = input) :
    node.text.toList = (input.take (textOfTokens (before ++ node.leaves)).length).drop
      (textOfTokens before).length := by
  rw [toList_text, ← htext, h.leaves_eq, textOfTokens_append (before ++ node.leaves),
    List.take_left, textOfTokens_append, List.drop_left]

/-! ### Gaps -/

theorem Occurs.fits (h : tree.Occurs before node after) (hfits : tree.Fits s) : node.Fits s := by
  induction h with
  | root => exact hfits
  | child _ ih =>
      cases ih with
      | branch _ hall => exact hall _ (by simp)

theorem Row.seamless {start stop : Position} (h : Row .exact start nodes stop) :
    Seamless start stop nodes := by
  refine ⟨h.isChain, ?_, fun last hlast => (h.stop_eq last hlast).symm, ?_⟩
  · intro first hfirst
    obtain ⟨others, rfl⟩ := List.head?_eq_some_iff.mp hfirst
    exact h.1
  · rintro rfl
    exact h

/-! ### Places -/

/-- If a node starts where the text before it ends, it stops where its own text ends. -/
def Advances (tokens : List Token) (node : Node) : Prop :=
  ∀ before after, tokens = before ++ node.leaves ++ after → node.start = placeAfter before →
    node.stop = placeAfter (before ++ node.leaves)

theorem Row.place_eq (h : Row .exact origin nodes place)
    (hall : ∀ node ∈ nodes, node.Advances tokens)
    (htokens : tokens = before ++ leavesOfAll nodes ++ after)
    (horigin : origin = placeAfter before) : place = placeAfter (before ++ leavesOfAll nodes) := by
  induction nodes generalizing origin before with
  | nil =>
      obtain rfl : origin = place := h
      simpa using horigin
  | cons node rest ih =>
      obtain ⟨hnode, hrest⟩ := List.forall_mem_cons.mp hall
      obtain ⟨hstart, hrow⟩ := h
      rw [leavesOfAll_cons, ← List.append_assoc] at htokens ⊢
      have hstop : node.stop = placeAfter (before ++ node.leaves) := by
        refine hnode before (leavesOfAll rest ++ after) ?_ (hstart.symm.trans horigin)
        rw [htokens, List.append_assoc]
      exact ih hrow hrest htokens hstop

theorem Fits.advances (h : node.Fits .exact) (hplaced : Placed tokens) : node.Advances tokens := by
  induction h with
  | leaf =>
      intro before after htokens _
      rw [leaves_leaf, List.append_assoc] at htokens
      exact (hplaced before _ after htokens).2
  | branch hrow _ ih =>
      intro before after htokens hstart
      rw [leaves] at htokens ⊢
      exact hrow.place_eq ih htokens hstart

theorem Occurs.stop_eq (h : tree.Occurs before node after) (hfits : tree.Fits .exact)
    (hplaced : Placed tree.leaves) (hstart : node.start = placeAfter before) :
    node.stop = placeAfter (before ++ node.leaves) :=
  (h.fits hfits).advances hplaced _ _ h.leaves_eq hstart

/-- In a tree without gaps every node starts where the leaves before it stop. -/
theorem Occurs.start_eq (h : tree.Occurs before node after) (hfits : tree.Fits .exact)
    (hplaced : Placed tree.leaves) (hroot : tree.start = placeAfter []) :
    node.start = placeAfter before := by
  induction h with
  | root => exact hroot
  | @child before after kind start stop left right node hparent ih =>
      cases hparent.fits hfits with
      | branch hrow hall =>
          obtain ⟨middle, hleft, hnode, -⟩ := row_append.mp hrow
          have hleaves := hparent.leaves_eq
          rw [leaves, leavesOfAll_append, ← List.append_assoc, List.append_assoc] at hleaves
          have hmiddle : middle = placeAfter (before ++ leavesOfAll left) := by
            refine hleft.place_eq (fun other hother => ?_) hleaves ih
            exact (hall other (List.mem_append_left _ hother)).advances hplaced
          exact hnode.symm.trans hmiddle

/-- **A tree without gaps tiles its text.** -/
theorem Fits.tiles (hfits : tree.Fits .exact) (hplaced : Placed tree.leaves)
    (hstart : tree.start = placeAfter []) (htext : textOfTokens tree.leaves = input) :
    tree.Tiles input where
  text_eq := by rw [← String.toList_inj, toList_text, htext, String.toList_ofList]
  start_eq := hstart
  stop_eq := by
    rw [Occurs.root.stop_eq hfits hplaced hstart, List.nil_append, placeAfter, htext]
  seamless h := by
    cases h.fits hfits with
    | branch hrow _ => exact hrow.seamless
  ordered h := (h.fits hfits).within
  placed h :=
    have hnode := h.start_eq hfits hplaced hstart
    ⟨hnode, h.stop_eq hfits hplaced hnode⟩
  sliced h := h.slice_eq htext

end Node

end Lookahead
