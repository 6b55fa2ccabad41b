import Lookahead.Proofs.Parser.Tree
import Mathlib.Data.List.Chain

/-!
Where the nodes of a parser stand. A tree gets its spans in three ways: a leaf has the span of its
token, an empty node is put at the start of the token at hand, which is not consumed yet and may be
put behind many more empty nodes first, and a node with children reaches from the first of them to
the last.

All that a parser holds can be read as one row of nodes: the parts of the outermost builder, then
those of the builders inside of it, or the result alone (`Parser.held`). Completing builders only
replaces the end of that row by a node over it, so it is enough to know what the row is like at its
end, and there a node is added where the last one stopped or later.

How close together two positions have to be is left open (`Spacing`). If the tokens of a stream
leave no gaps, there are none in the row and none in the trees.
-/

namespace Lookahead

/-- How far it may be from the start of a node to its stop, and from there to the next node. -/
structure Spacing where
  within : Position → Position → Prop
  next : Position → Position → Prop
  within_refl : ∀ p, within p p
  next_refl : ∀ p, next p p
  within_trans : ∀ {start stop start' stop' : Position},
    within start stop → next stop start' → within start' stop' → within start stop'

/-- No gaps: a node starts where the one before it stops. -/
def Spacing.exact : Spacing where
  within start stop := start ≤ stop
  next := Eq
  within_refl := Position.le_refl
  next_refl _ := rfl
  within_trans h hnext h' := Position.le_trans h (hnext ▸ h')

namespace Node

variable {s : Spacing} {origin place : Position} {node : Node} {nodes first second : List Node}

/-- Nodes one after the other, the first one next to `origin`. The last one stops at `place`. -/
def Row (s : Spacing) (origin : Position) : List Node → Position → Prop
  | [], place => origin = place
  | node :: rest, place => s.next origin node.start ∧ Row s node.stop rest place

@[simp] theorem row_nil : Row s origin [] place ↔ origin = place := Iff.rfl

@[simp] theorem row_cons :
    Row s origin (node :: nodes) place ↔ s.next origin node.start ∧ Row s node.stop nodes place :=
  Iff.rfl

theorem row_append :
    Row s origin (first ++ second) place ↔
      ∃ middle, Row s origin first middle ∧ Row s middle second place := by
  induction first generalizing origin with
  | nil => simp
  | cons node rest ih => simp [ih, and_assoc]

theorem Row.concat (h : Row s origin nodes place) (hnext : s.next place node.start) :
    Row s origin (nodes ++ [node]) node.stop :=
  row_append.mpr ⟨place, h, hnext, rfl⟩

theorem Row.stop_eq (h : Row s origin nodes place) :
    ∀ last ∈ nodes.getLast?, last.stop = place := by
  intro last hlast
  obtain ⟨others, rfl⟩ := List.getLast?_eq_some_iff.mp hlast
  obtain ⟨middle, -, -, hstop⟩ := row_append.mp h
  exact hstop

/-- Each node of a row is next to the one before it. -/
theorem Row.isChain (h : Row s origin nodes place) :
    nodes.IsChain fun one other => s.next one.stop other.start := by
  induction nodes generalizing origin with
  | nil => exact .nil
  | cons node rest ih =>
      refine List.isChain_cons.mpr ⟨fun other hother => ?_, ih h.2⟩
      obtain ⟨others, rfl⟩ := List.head?_eq_some_iff.mp hother
      exact h.2.1

theorem exists_spanning_eq (h : Row s origin nodes place) (hne : nodes ≠ []) (kind : String)
    (otherwise : Position) :
    ∃ start, spanning kind nodes otherwise = .branch kind start place nodes ∧
      s.next origin start ∧ Row s start nodes place := by
  obtain ⟨child, others, rfl⟩ := List.exists_cons_of_ne_nil hne
  obtain ⟨last, hlast⟩ : ∃ last, (child :: others).getLast? = some last :=
    ⟨_, List.getLast?_eq_some_getLast hne⟩
  refine ⟨child.start, ?_, h.1, s.next_refl _, h.2⟩
  have hstop : last.stop = place := h.stop_eq last hlast
  simp [spanning, hlast, hstop]

/-- Everything in a node is spaced: it reaches over its children, or over a token. -/
inductive Fits (s : Spacing) : Node → Prop
  | leaf {token : Token} (h : s.within token.start token.stop) : Fits s (.leaf token)
  | branch {kind : String} {start stop : Position} {children : List Node}
      (hrow : Row s start children stop) (hall : ∀ child ∈ children, Fits s child) :
      Fits s (.branch kind start stop children)

theorem Row.within (h : Row s origin nodes place)
    (hall : ∀ node ∈ nodes, s.within node.start node.stop) : s.within origin place := by
  induction nodes generalizing origin with
  | nil => exact h ▸ s.within_refl _
  | cons node rest ih =>
      obtain ⟨hnode, hrest⟩ := List.forall_mem_cons.mp hall
      have hfirst : s.within origin node.stop := s.within_trans (s.within_refl _) h.1 hnode
      exact s.within_trans hfirst (s.next_refl _) (ih h.2 hrest)

theorem Fits.within (h : node.Fits s) : s.within node.start node.stop := by
  induction h with
  | leaf h => exact h
  | branch hrow _ ih => exact hrow.within ih

end Node

namespace Parser

variable {g : Grammar} {s : Spacing} {root : String} {consumed : List Token}
variable {before : List String} {token : Token} {origin place : Position} {p q : Parser}

def openParts : List Builder → List Node
  | [] => []
  | builder :: outer => openParts outer ++ builder.parts

def held (p : Parser) : List Node := openParts p.builders ++ p.result.toList

/-- The nodes of a parser stand in a row, and each of them is spaced. -/
structure Standing (s : Spacing) (origin : Position) (p : Parser) (place : Position) : Prop where
  row : Node.Row s origin p.held place
  fits : ∀ node ∈ p.held, node.Fits s

theorem standing_start (s : Spacing) (origin : Position) (root : String) :
    Standing s origin (start root) origin :=
  ⟨rfl, by simp [held, openParts, start]⟩

/-! ### Steps -/

/-- Completed builders replace the end of the row by a node over it. -/
theorem standing_hand {builders remaining : List Builder} {node : Node} {result : Option Node}
    {otherwise : Position} (hhand : hand otherwise builders node = (remaining, result))
    (hrow : Node.Row s origin (openParts builders ++ [node]) place)
    (hfits : ∀ part ∈ openParts builders ++ [node], part.Fits s) :
    Node.Row s origin (openParts remaining ++ result.toList) place ∧
      ∀ part ∈ openParts remaining ++ result.toList, part.Fits s := by
  induction builders generalizing node with
  | nil =>
      cases hhand
      exact ⟨hrow, hfits⟩
  | cons builder outer ih =>
      rw [openParts, List.append_assoc] at hrow hfits
      unfold hand at hhand
      dsimp only at hhand
      split at hhand
      · obtain ⟨middle, houter, hparts⟩ := Node.row_append.mp hrow
        obtain ⟨hfitsOuter, hfitsParts⟩ := List.forall_mem_append.mp hfits
        obtain ⟨start, hspanning, hnext, hinside⟩ :=
          Node.exists_spanning_eq hparts (by simp) builder.kind otherwise
        rw [hspanning] at hhand
        refine ih hhand (Node.row_append.mpr ⟨middle, houter, hnext, rfl⟩) ?_
        exact List.forall_mem_append.mpr
          ⟨hfitsOuter, List.forall_mem_singleton.mpr (.branch hinside hfitsParts)⟩
      · cases hhand
        simpa [openParts] using And.intro hrow hfits

theorem Standing.receive (h : Standing s origin p place) (hresult : p.result = none)
    (node : Node) (hnext : s.next place node.start) (hnode : node.Fits s) (otherwise : Position) :
    Standing s origin (p.receive node otherwise) node.stop := by
  obtain ⟨hrow, hfits⟩ := h
  rw [held, hresult, Option.toList_none, List.append_nil] at hrow hfits
  have hhand : hand otherwise p.builders node =
      ((hand otherwise p.builders node).1, (hand otherwise p.builders node).2) := rfl
  obtain ⟨hrow', hfits'⟩ := standing_hand hhand (hrow.concat hnext)
    (List.forall_mem_append.mpr ⟨hfits, List.forall_mem_singleton.mpr hnode⟩)
  refine ⟨?_, ?_⟩
  · simpa [held, Parser.receive, hresult] using hrow'
  · simpa [held, Parser.receive, hresult] using hfits'

/-- A step leaves the row as it is, or adds an empty node at the start of the token. -/
theorem Standing.step_more (htracks : Tracks g root consumed p) (h : Standing s origin p place)
    (hnext : s.next place token.start) (hstep : step g before token p = .more q) :
    ∃ place', Standing s origin q place' ∧ s.next place' token.start := by
  rcases step_eq_more_iff.mp hstep with ⟨top, body, rest, hmove, rfl⟩ | ⟨top, rest, hmove, rfl⟩
  · refine ⟨place, ⟨?_, ?_⟩, hnext⟩
    · simpa [held, openParts] using h.row
    · simpa [held, openParts] using h.fits
  · obtain ⟨hexpected, -⟩ := Grammar.move_eq_vanish_iff.mp hmove
    obtain ⟨hresult, -⟩ := htracks.open_of_cons hexpected
    have hempty : (Node.spanning top [] token.start).Fits s := .branch rfl (by simp)
    have hreceive := Standing.receive (p := { p with expected := rest }) ⟨h.row, h.fits⟩ hresult
      (Node.spanning top [] token.start) hnext hempty token.start
    exact ⟨token.start, hreceive, s.next_refl _⟩

theorem Standing.path (hg : g.WellFormed) (htracks : Tracks g root consumed p)
    (h : Standing s origin p place) (hnext : s.next place token.start)
    (hpath : Path g before token p q) :
    ∃ place', Standing s origin q place' ∧ s.next place' token.start := by
  induction hpath with
  | refl => exact ⟨place, h, hnext⟩
  | tail hpath hstep ih =>
      obtain ⟨place', hstanding, hnext'⟩ := ih
      exact hstanding.step_more (htracks.path hg hpath) hnext' hstep

/-- A token that is taken in is the new end of the row. -/
theorem Standing.accept (hg : g.WellFormed) (hr : g.NoHiddenLeftRecursion)
    (htracks : Tracks g root consumed p) (h : Standing s origin p place)
    (hclosed : p.closed = false) (hnext : s.next place token.start)
    (htoken : s.within token.start token.stop) :
    ∃ place', Standing s origin (p.accept g token) place' ∧
      ((p.accept g token).closed = false → place' = token.stop) := by
  obtain ⟨q, hpath, hdone⟩ := exists_path_accept hg hr hclosed token
  obtain ⟨place', hstanding, hnext'⟩ := h.path hg htracks hnext hpath
  rcases step_eq_done_iff.mp hdone with ⟨-, heq⟩ | ⟨rest, hmove, heq⟩ | ⟨-, heq⟩
  · rw [heq]
    exact ⟨place', ⟨hstanding.row, hstanding.fits⟩, by simp [closed]⟩
  · have hexpected := Grammar.move_eq_consume_iff.mp hmove
    obtain ⟨hresult, -⟩ := (htracks.path hg hpath).open_of_cons hexpected
    have hreceive := Standing.receive (p := { q with expected := rest })
      ⟨hstanding.row, hstanding.fits⟩ hresult (.leaf token) hnext' (.leaf htoken)
      token.start
    rw [heq]
    exact ⟨token.stop, ⟨hreceive.row, hreceive.fits⟩, fun _ => rfl⟩
  · rw [heq]
    exact ⟨place', ⟨hstanding.row, hstanding.fits⟩, by simp [closed, refuse]⟩

/-! ### Whole streams -/

/-- **Spacing is kept.** If a stream is spaced, then all that a parser holds after it is, in a row
that begins at the place where the first token could have begun. -/
theorem Standing.acceptAll (hg : g.WellFormed) (hr : g.NoHiddenLeftRecursion)
    (htracks : Tracks g root consumed p) (h : Standing s origin p place) {tokens : List Token}
    (hfirst : ∀ first ∈ tokens.head?, s.next place first.start)
    (hwithin : ∀ token ∈ tokens, s.within token.start token.stop)
    (hjoined : tokens.IsChain fun first second => s.next first.stop second.start) :
    ∃ place', Standing s origin (p.acceptAll g tokens) place' := by
  induction tokens generalizing p place consumed with
  | nil => exact ⟨place, h⟩
  | cons token rest ih =>
      cases hclosed : p.closed with
      | true =>
          rw [acceptAll_of_closed hclosed]
          exact ⟨place, h⟩
      | false =>
          obtain ⟨htoken, hrest⟩ := List.forall_mem_cons.mp hwithin
          obtain ⟨hsecond, hjoined⟩ := List.isChain_cons.mp hjoined
          obtain ⟨place', hstanding, hplace⟩ :=
            h.accept hg hr htracks hclosed (hfirst token rfl) htoken
          rw [acceptAll_cons]
          cases hstill : (p.accept g token).closed with
          | true =>
              rw [acceptAll_of_closed hstill]
              exact ⟨place', hstanding⟩
          | false =>
              -- the parser is still open, so the row stops with the token
              obtain rfl := hplace hstill
              obtain ⟨consumed', htracks'⟩ :
                  ∃ consumed', Tracks g root consumed' (p.accept g token) := by
                obtain ⟨hconsumes, hskips⟩ := tracks_accept hg hr htracks hclosed token
                by_cases hcons : Consumes g p token
                · exact ⟨_, hconsumes hcons⟩
                · exact ⟨_, hskips hcons⟩
              exact ih htracks' hstanding hsecond hrest hjoined

end Parser

end Lookahead
