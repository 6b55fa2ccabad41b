import Lookahead.Proofs.Expression.Grammar
import Lookahead.Proofs.Parser.Accept

/-!
What a parser builds. The expected symbols and the builders are two lists that change at different
moments: an expansion pushes to both, a token takes from one and gives to the other, and a node that
is complete may complete any number of builders around it. `Open` is what keeps them in step. It
says of a list of builders which kind of node the innermost one waits for and what is expected after
that, by taking the two apart together: each builder has a stored body, its parts are the beginning
of that body, the next symbol of the body is what is being built inside of it, and the remaining
symbols are expected once that is done.

`hand_of_open` is the one fact about completion, and the invariant of a parser, `Tracks`, follows
from it: either builders are open and nothing is finished, or all of it is finished and nothing is
expected. In both cases the leaves are the tokens that were consumed, in order. At the token that
ends a parse this is the shape of the whole tree.
-/

namespace Lookahead

/-- The node is built as the table says: a node with children by a stored body, and a node without
children by an empty alternative. -/
inductive Node.Follows (g : Grammar) : Node → Prop
  | leaf (token : Token) : Follows g (.leaf token)
  | empty {kind : String} (start stop : Position) (h : kind ∈ g.empty) :
      Follows g (.branch kind start stop [])
  | branch {kind : String} (start stop : Position) {children : List Node} (hne : children ≠ [])
      (hbody : g.Stores kind (children.map Node.kind))
      (hall : ∀ child ∈ children, Follows g child) : Follows g (.branch kind start stop children)

theorem Node.Follows.spanning {g : Grammar} {kind : String} {children : List Node}
    (hbody : g.Stores kind (children.map Node.kind)) (hne : children ≠ [])
    (hall : ∀ child ∈ children, child.Follows g) (place : Position) :
    (Node.spanning kind children place).Follows g := by
  cases children with
  | nil => exact absurd rfl hne
  | cons first rest =>
      simp only [Node.spanning, List.head?_cons, List.getLast?_cons]
      exact .branch _ _ hne hbody hall

namespace Parser

variable {g : Grammar} {root next : String} {rest : List String} {builders : List Builder}

/-! ### Open builders -/

/-- The builders are open for a root: the innermost one waits for a node of kind `next`, and after
it `rest` is what is still expected. -/
inductive Open (g : Grammar) (root : String) : List Builder → String → List String → Prop
  | outermost : Open g root [] root []
  | inside {outer : List Builder} {kind next : String} {rest later : List String}
      {parts : List Node} (houter : Open g root outer kind rest)
      (hbody : g.Stores kind (parts.map Node.kind ++ next :: later))
      (hparts : ∀ part ∈ parts, part.Follows g) :
      Open g root ({ kind, size := parts.length + (later.length + 1), parts } :: outer) next
        (later ++ rest)

/-- The leaves of everything under construction, in order: those of outer builders come first. -/
def openLeaves : List Builder → List Token
  | [] => []
  | builder :: outer => openLeaves outer ++ Node.leavesOfAll builder.parts

/-- A node that open builders wait for completes all of them, and then nothing else is expected, or
it leaves builders that wait for the next expected symbol. No leaf is lost or moved. -/
theorem hand_of_open (h : Open g root builders next rest) (place : Position) {node : Node}
    (hkind : node.kind = next) (hnode : node.Follows g) :
    (∃ result, hand place builders node = ([], some result) ∧ rest = [] ∧ result.kind = root ∧
      result.Follows g ∧ result.leaves = openLeaves builders ++ node.leaves) ∨
    ∃ remaining next' rest', hand place builders node = (remaining, none) ∧
      rest = next' :: rest' ∧ Open g root remaining next' rest' ∧
      openLeaves remaining = openLeaves builders ++ node.leaves := by
  induction h generalizing node with
  | outermost => exact .inl ⟨node, rfl, rfl, hkind, hnode, by simp [openLeaves]⟩
  | @inside outer kind next rest later parts houter hbody hparts ih =>
      have hkinds : parts.map Node.kind ++ next :: later =
          (parts ++ [node]).map Node.kind ++ later := by simp [hkind]
      have hall : ∀ part ∈ parts ++ [node], part.Follows g := by
        intro part hpart
        rcases List.mem_append.mp hpart with h | h
        · exact hparts part h
        · exact List.mem_singleton.mp h ▸ hnode
      unfold hand
      dsimp only
      cases later with
      | nil =>
          -- the last part: the node is complete and is handed on
          have hfull : parts.length + (([] : List String).length + 1) ≤
              (parts ++ [node]).length := by simp
          rw [if_pos hfull]
          rw [hkinds, List.append_nil] at hbody
          have hdone := ih (Node.kind_spanning kind (parts ++ [node]) place)
            (.spanning hbody (by simp) hall place)
          rw [Node.leaves_spanning, Node.leavesOfAll_append, Node.leavesOfAll_cons,
            Node.leavesOfAll_nil, List.append_nil, ← List.append_assoc] at hdone
          exact hdone
      | cons next' later =>
          have hopen : ¬ parts.length + ((next' :: later).length + 1) ≤
              (parts ++ [node]).length := by simp
          rw [if_neg hopen]
          rw [hkinds] at hbody
          have hinside := Open.inside houter hbody hall
          rw [show (parts ++ [node]).length + (later.length + 1) =
            parts.length + ((next' :: later).length + 1) by simp; omega] at hinside
          refine .inr ⟨_, next', later ++ rest, rfl, rfl, hinside, ?_⟩
          simp [openLeaves]

/-! ### The invariant -/

/-- A parser for a root that has consumed the given tokens: it is building, or it has the tree. -/
def Tracks (g : Grammar) (root : String) (consumed : List Token) (p : Parser) : Prop :=
  (∃ next rest, p.expected = next :: rest ∧ p.result = none ∧ Open g root p.builders next rest ∧
    openLeaves p.builders = consumed) ∨
  ∃ tree, p.expected = [] ∧ p.builders = [] ∧ p.result = some tree ∧ tree.kind = root ∧
    tree.Follows g ∧ tree.leaves = consumed

variable {consumed : List Token} {before : List String} {token : Token} {p q : Parser}

theorem tracks_start (g : Grammar) (root : String) : Tracks g root [] (start root) :=
  .inl ⟨root, [], rfl, rfl, .outermost, rfl⟩

theorem tracks_receive {node : Node} (hopen : Open g root p.builders node.kind p.expected)
    (hresult : p.result = none) (hnode : node.Follows g) (place : Position) :
    Tracks g root (openLeaves p.builders ++ node.leaves) (p.receive node place) := by
  rcases hand_of_open hopen place rfl hnode with
    ⟨tree, hhand, hrest, hkind, htree, hleaves⟩ | ⟨bs, next, rest, hhand, hrest, hopen', hleaves⟩
  · refine .inr ⟨tree, hrest, ?_, ?_, hkind, htree, hleaves⟩ <;> simp [receive, hhand]
  · refine .inl ⟨next, rest, hrest, ?_, ?_, ?_⟩ <;> simp [receive, hhand, hresult, hopen', hleaves]

/-- A parser that is building. With a symbol in front it cannot have the tree yet. -/
theorem Tracks.open_of_cons (h : Tracks g root consumed p) (hexp : p.expected = next :: rest) :
    p.result = none ∧ Open g root p.builders next rest ∧ openLeaves p.builders = consumed := by
  rcases h with ⟨next', rest', hexp', hresult, hopen, hleaves⟩ | ⟨tree, hexp', -⟩
  · rw [hexp, List.cons.injEq] at hexp'
    obtain ⟨rfl, rfl⟩ := hexp'
    exact ⟨hresult, hopen, hleaves⟩
  · simp [hexp] at hexp'

/-- A parser that expects nothing has the tree. -/
theorem Tracks.tree_of_nil (h : Tracks g root consumed p) (hexp : p.expected = []) :
    ∃ tree, p.result = some tree ∧ tree.kind = root ∧ tree.Follows g ∧ tree.leaves = consumed := by
  rcases h with ⟨next, rest, hexp', -⟩ | ⟨tree, -, -, h⟩
  · simp [hexp] at hexp'
  · exact ⟨tree, h⟩

/-- Steps consume nothing, and keep the invariant. -/
theorem Tracks.step_more (hg : g.WellFormed) (h : Tracks g root consumed p)
    (hstep : step g before token p = .more q) : Tracks g root consumed q := by
  rcases step_eq_more_iff.mp hstep with ⟨top, body, rest, hmove, rfl⟩ | ⟨top, rest, hmove, rfl⟩
  · obtain ⟨hexp, -, -, hselect⟩ := Grammar.move_eq_expand_iff.mp hmove
    obtain ⟨hresult, hopen, hleaves⟩ := h.open_of_cons hexp
    have hstores := hg.stores_of_select? hselect
    obtain ⟨first, others, rfl⟩ : ∃ first others, body = first :: others :=
      List.exists_cons_of_ne_nil (hg.stores_iff.mp hstores).1
    refine .inl ⟨first, others ++ rest, rfl, hresult, ?_, ?_⟩
    · have hinside : Open g root
          ({ kind := top, size := ([] : List Node).length + (others.length + 1) } :: p.builders)
          first (others ++ rest) := .inside hopen hstores (by simp)
      simpa using hinside
    · simpa [openLeaves] using hleaves
  · obtain ⟨hexp, -, -, -, hempty⟩ := Grammar.move_eq_vanish_iff.mp hmove
    obtain ⟨hresult, hopen, hleaves⟩ := h.open_of_cons hexp
    have hnode : (Node.spanning top [] token.start).Follows g :=
      .empty _ _ (hg.mem_empty_iff.mpr hempty)
    have htracks := tracks_receive (p := { p with expected := rest })
      (by rw [Node.kind_spanning]; exact hopen) hresult hnode token.start
    rw [Node.leaves_spanning, Node.leavesOfAll_nil, List.append_nil, hleaves] at htracks
    exact htracks

theorem Tracks.path (hg : g.WellFormed) (h : Tracks g root consumed p)
    (hpath : Path g before token p q) : Tracks g root consumed q := by
  induction hpath with
  | refl => exact h
  | tail _ hstep ih => exact ih.step_more hg hstep

/-! ### Taking in a token -/

/-- The token is matched against an expected symbol, one of a body or the root itself. -/
def Consumes (g : Grammar) (p : Parser) (token : Token) : Prop :=
  ∃ rest, g.Settles token.kind p.expected (token.kind :: rest)

/-- Whether a token is consumed shows at the end of its steps. -/
theorem consumes_iff_of_path {r : Parser} (hpath : Path g before token p q)
    (hdone : step g before token q = .done r) :
    Consumes g p token ↔ ∃ rest, g.move token.kind q.expected = .consume rest := by
  have hsettles : g.Settles token.kind p.expected q.expected :=
    ⟨hpath.rewrites, next?_eq_none_of_step_done hdone⟩
  simp only [Grammar.move_eq_consume_iff]
  constructor
  · rintro ⟨rest, h⟩
    exact ⟨rest, hsettles.unique h⟩
  · rintro ⟨rest, h⟩
    exact ⟨rest, h ▸ hsettles⟩

/-- A token that is consumed becomes a leaf, and nothing is built from any other. -/
theorem tracks_accept (hg : g.WellFormed) (hr : g.NoHiddenLeftRecursion)
    (htracks : Tracks g root consumed p) (hclosed : p.closed = false) (token : Token) :
    (Consumes g p token → Tracks g root (consumed ++ [token]) (p.accept g token)) ∧
      (¬ Consumes g p token → Tracks g root consumed (p.accept g token)) := by
  obtain ⟨q, hpath, hdone⟩ := exists_path_accept hg hr hclosed token
  have hq := htracks.path hg hpath
  rw [consumes_iff_of_path hpath hdone]
  rcases step_eq_done_iff.mp hdone with ⟨hmove, heq⟩ | ⟨rest, hmove, heq⟩ | ⟨hrefuses, heq⟩
  · rw [heq]
    exact ⟨by simp [hmove], fun _ => hq⟩
  · refine ⟨fun _ => ?_, fun h => absurd ⟨rest, hmove⟩ h⟩
    obtain ⟨hresult, hbuilders, hleaves⟩ := hq.open_of_cons (Grammar.move_eq_consume_iff.mp hmove)
    have hleaf : (Node.leaf token).Follows g := .leaf token
    have hreceive := tracks_receive (p := { q with expected := rest }) hbuilders hresult hleaf
      token.start
    rw [Node.leaves_leaf, hleaves] at hreceive
    rw [heq]
    exact hreceive
  · rw [heq]
    refine ⟨?_, fun _ => hq⟩
    rintro ⟨rest, hmove⟩
    simp [hmove, Move.refuses] at hrefuses

/-- A parser that accepts a stream does so at one of its tokens, which is the end of the input. -/
theorem tree_of_acceptAll (hg : g.WellFormed) (hr : g.NoHiddenLeftRecursion)
    (htracks : Tracks g root consumed p) (hclosed : p.closed = false) {tokens : List Token}
    (haccepted : (p.acceptAll g tokens).accepted = true) :
    ∃ before last after leaves tree, tokens = before ++ last :: after ∧
      (p.acceptAll g before).closed = false ∧
      (p.acceptAll g (before ++ [last])).accepted = true ∧
      (p.acceptAll g tokens).result = some tree ∧ tree.kind = root ∧ tree.Follows g ∧
      last.kind = g.catalog.epsilon ∧
      (Consumes g (p.acceptAll g before) last → leaves = before ++ [last]) ∧
      (¬ Consumes g (p.acceptAll g before) last → leaves = before) ∧
      tree.leaves = consumed ++ leaves := by
  induction tokens generalizing p consumed with
  | nil => simp [closed, show p.accepted = true from haccepted] at hclosed
  | cons token rest ih =>
      rw [acceptAll_cons] at haccepted ⊢
      obtain ⟨hconsumes, hskips⟩ := tracks_accept hg hr htracks hclosed token
      have houtcome := outcome_accept hg hr hclosed token
      by_cases hstill : (p.accept g token).closed = false
      · -- a parser that stays open has consumed the token
        obtain ⟨hnone, hopen⟩ := closed_eq_false_iff.mp hstill
        have hcons : Consumes g p token := by
          cases houtcome with
          | finished _ _ _ _ h => simp [hopen] at h
          | consumed hsettles => exact ⟨_, hsettles⟩
          | refused _ _ _ h => simp [hnone] at h
        obtain ⟨before, last, after, leaves, tree, rfl, hbefore, hlast, hresult, hkind, htree,
          hepsilon, hleaf, hnot, hleaves⟩ := ih (hconsumes hcons) hstill haccepted
        refine ⟨token :: before, last, after, token :: leaves, tree, rfl, hbefore, hlast, hresult,
          hkind, htree, hepsilon, fun h => ?_, fun h => ?_, ?_⟩
        · rw [hleaf h, List.cons_append]
        · rw [hnot h]
        · rw [hleaves, List.append_assoc, List.singleton_append]
      · rw [Bool.not_eq_false] at hstill
        rw [acceptAll_of_closed hstill] at haccepted ⊢
        cases houtcome with
        | finished hsettles hkind hexpected =>
            have hnot : ¬ Consumes g p token := by
              rintro ⟨rest, h⟩
              cases hsettles.unique h
            obtain ⟨tree, hresult, hroot, htree, hleaves⟩ := (hskips hnot).tree_of_nil hexpected
            exact ⟨[], token, rest, [], tree, rfl, hclosed, haccepted, hresult, hroot, htree,
              hkind, fun h => absurd h hnot, fun _ => rfl, by simpa using hleaves⟩
        | consumed hsettles hexpected _ h =>
            rw [haccepted, eq_comm, decide_eq_true_eq] at h
            have hcons : Consumes g p token := ⟨_, hsettles⟩
            obtain ⟨tree, hresult, hroot, htree, hleaves⟩ :=
              (hconsumes hcons).tree_of_nil (hexpected.trans h.2)
            exact ⟨[], token, rest, [token], tree, rfl, hclosed, haccepted, hresult, hroot, htree,
              h.1, fun _ => rfl, fun h => absurd hcons h, hleaves⟩
        | refused _ _ _ _ h =>
            rw [haccepted] at h
            contradiction

/-- **Soundness of parsing.** A stream that is accepted is accepted at one of its tokens, and the
tree has the kind of the root, is built as the table says, and has the tokens up to that one as its
leaves. Only the token for the end of the input may be missing among them, namely when no expected
symbol was matched with it. -/
theorem tree_of_accepted {terminals : List Terminal} {nonterminals : List String} {c : Catalog}
    {productions : Productions} {g : Grammar} {root : String} {p : Parser}
    (hc : Catalog.build terminals nonterminals = .ok c)
    (hg : Grammar.build c productions = .ok g) (hr : g.NoHiddenLeftRecursion)
    (hp : g.parser root = .ok p) (tokens : List Token)
    (haccepted : (p.acceptAll g tokens).accepted = true) :
    ∃ before last after consumed tree, tokens = before ++ last :: after ∧
      (p.acceptAll g before).accepted = false ∧
      (p.acceptAll g (before ++ [last])).accepted = true ∧
      (Consumes g (p.acceptAll g before) last → consumed = before ++ [last]) ∧
      (¬ Consumes g (p.acceptAll g before) last →
        last.kind = g.catalog.epsilon ∧ consumed = before) ∧
      (p.acceptAll g tokens).root? = some tree ∧ tree.kind = root ∧ tree.Follows g ∧
      tree.leaves = consumed ∧ tree.text = String.join (consumed.map (·.text)) := by
  have hwf := Grammar.wellFormed_of_build (Catalog.build_eq_ok_iff.mp hc).2.2 hg
  obtain rfl := Grammar.eq_start_of_parser hp
  obtain ⟨before, last, after, leaves, tree, heq, hbefore, hlast, hresult, hkind, htree, hepsilon,
    hcons, hnot, hleaves⟩ := tree_of_acceptAll hwf hr (tracks_start g root) rfl haccepted
  rw [List.nil_append] at hleaves
  have hopen : (acceptAll g (start root) before).accepted = false := by
    simpa [closed] using (Bool.or_eq_false_iff.mp hbefore).2
  refine ⟨before, last, after, leaves, tree, heq, hopen, hlast, hcons,
    fun h => ⟨hepsilon, hnot h⟩, ?_, hkind, htree, hleaves, by rw [Node.text, hleaves]⟩
  rw [root?, if_pos haccepted, hresult]

/-- A sum in the built-in language, with a token too many after the end. -/
theorem tree_of_accepted_sum :
    let token := fun kind text => Token.mk kind ⟨1, 1⟩ ⟨1, 2⟩ text
    let tokens := [token "NUMBER" "1", token "PLUSMIN" "+", token "IDENTIFIER" "x",
      token "EPSILON" "", token "NUMBER" "2"]
    let parser := start "EXPR"
    Expression.grammar.parser "EXPR" = .ok parser ∧
    (parser.acceptAll Expression.grammar tokens).accepted = true ∧
    ∃ before last after consumed tree, tokens = before ++ last :: after ∧
      (parser.acceptAll Expression.grammar before).accepted = false ∧
      (parser.acceptAll Expression.grammar (before ++ [last])).accepted = true ∧
      (Consumes Expression.grammar (parser.acceptAll Expression.grammar before) last →
        consumed = before ++ [last]) ∧
      (¬ Consumes Expression.grammar (parser.acceptAll Expression.grammar before) last →
        last.kind = "EPSILON" ∧ consumed = before) ∧
      (parser.acceptAll Expression.grammar tokens).root? = some tree ∧ tree.kind = "EXPR" ∧
      tree.Follows Expression.grammar ∧ tree.leaves = consumed ∧
      tree.text = String.join (consumed.map (·.text)) :=
  ⟨rfl, rfl, tree_of_accepted Expression.build_catalog Expression.build_grammar
    Expression.noHiddenLeftRecursion_grammar rfl _ rfl⟩

end Parser

end Lookahead
