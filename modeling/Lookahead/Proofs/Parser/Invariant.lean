import Lookahead.Proofs.Parser.Sentences
import Mathlib.Data.List.Chain

/-!
What holds of every parser that is ever reached. The invariant `Tracks` is made for the proof: it
follows the builders from the outside in and says what the innermost one waits for. Here the same
state is described from the inside out, and with nothing hidden in it. There is a list of bodies,
one for each builder, each a stored alternative of the kind that the builder is for; of each body
the beginning is built and the rest is not; and what is expected is put together from those rests
(`InStep`).

The tokens are accounted for as well. `matched` is the stream without the tokens that no expected
symbol was matched with, and those are the leaves of what is under construction, in order. So the
matched tokens with the expected symbols after them are what the root has become so far, a
sentential form of the grammar (`derives_of_open`).
-/

namespace Lookahead

def Builder.remaining (b : Builder) (body : Body) : List String := body.drop b.parts.length

/-- The builder is at work on a stored body: its parts are the beginning of that, and not all. -/
structure Builder.WorksOn (g : Grammar) (b : Builder) (body : Body) : Prop where
  stored : g.Stores b.kind body
  size_eq : b.size = body.length
  parts_prefix : b.parts.map Node.kind <+: body
  length_lt : b.parts.length < body.length

namespace Parser

/-- What is expected when builders are at work on their bodies, innermost one first. In all but the
innermost one the next symbol is under construction already. -/
def pending : List (Builder × Body) → List String
  | [] => []
  | (builder, body) :: outer =>
    builder.remaining body ++ outer.flatMap fun entry => (entry.1.remaining entry.2).tail

open Classical in
noncomputable def matched (g : Grammar) : Parser → List Token → List Token
  | _, [] => []
  | p, token :: rest =>
    if p.closed = false ∧ Consumes g p token then token :: matched g (p.accept g token) rest
    else matched g (p.accept g token) rest

/-- The two stacks of a parser and the tokens that it has matched are in step, by way of the bodies
that the builders are at work on. -/
structure InStep (g : Grammar) (root : String) (consumed : List Token) (p : Parser)
    (bodies : List Body) : Prop where
  works : List.Forall₂ (Builder.WorksOn g) p.builders bodies
  /-- The next symbol of a body is what is built inside of it. -/
  nested : (p.builders.zip bodies).IsChain fun inner outer =>
    (outer.1.remaining outer.2).head? = some inner.1.kind
  outermost : ∀ builder ∈ p.builders.getLast?, builder.kind = root
  expected_of_start : p.builders = [] → p.result = none → p.expected = [root]
  expected_of_builders : p.builders ≠ [] → p.expected = pending (p.builders.zip bodies)
  expected_eq_nil_iff : p.expected = [] ↔ p.builders = [] ∧ p.result.isSome = true
  leaves_of_builders : p.result = none → openLeaves p.builders = consumed
  leaves_of_result : ∀ tree, p.result = some tree → p.builders = [] ∧ tree.leaves = consumed

variable {g : Grammar} {root next : String} {rest : List String} {builders : List Builder}
variable {consumed : List Token} {p : Parser}

/-! ### From the inside out -/

/-- Open builders are at work on bodies. The innermost one has the symbol that is waited for next in
its body, and what is expected after that are the rests of all of them. -/
theorem exists_bodies_of_open (h : Open g root builders next rest) :
    ∃ bodies, List.Forall₂ (Builder.WorksOn g) builders bodies ∧
      ((builders.zip bodies).IsChain fun inner outer =>
        (outer.1.remaining outer.2).head? = some inner.1.kind) ∧
      (∀ builder ∈ builders.getLast?, builder.kind = root) ∧
      (builders = [] → next = root) ∧
      (∀ entry ∈ (builders.zip bodies).head?,
        (entry.1.remaining entry.2).head? = some next) ∧
      rest = (builders.zip bodies).flatMap fun entry => (entry.1.remaining entry.2).tail := by
  induction h with
  | outermost => exact ⟨[], .nil, .nil, by simp, fun _ => rfl, by simp, rfl⟩
  | @inside outer kind next rest later parts houter hbody hparts ih =>
      obtain ⟨bodies, hworks, hnested, hlast, hroot, hhead, hrest⟩ := ih
      let body : Body := parts.map Node.kind ++ next :: later
      let builder : Builder := { kind, size := parts.length + (later.length + 1), parts }
      have hremaining : builder.remaining body = next :: later := by
        simp [Builder.remaining, builder, body]
      have hworksOn : builder.WorksOn g body := by
        refine ⟨hbody, ?_, List.prefix_append _ _, ?_⟩
        · simp [builder, body]
        · simp [builder, body]
      refine ⟨body :: bodies, .cons hworksOn hworks, ?_, ?_, by simp, ?_, ?_⟩
      · rw [List.zip_cons_cons, List.isChain_cons]
        exact ⟨hhead, hnested⟩
      · intro last hmem
        cases outer with
        | nil =>
            -- the only builder is for what the builders inside of the root were opened for
            obtain rfl : builder = last := by simpa [builder] using hmem
            exact hroot rfl
        | cons inner others => exact hlast last (by simpa [List.getLast?_cons_cons] using hmem)
      · intro entry hentry
        obtain rfl : (builder, body) = entry := by simpa using hentry
        simp [hremaining]
      · rw [List.zip_cons_cons, List.flatMap_cons]
        change later ++ rest = (builder.remaining body).tail ++ _
        rw [hremaining, List.tail_cons, hrest]

theorem Tracks.exists_inStep (h : Tracks g root consumed p) :
    ∃ bodies, InStep g root consumed p bodies := by
  rcases h with ⟨next, rest, hexpected, hresult, hopen, hleaves⟩ |
    ⟨tree, hexpected, hbuilders, hresult, -, -, hleaves⟩
  · obtain ⟨bodies, hworks, hnested, hlast, hroot, hhead, hrest⟩ := exists_bodies_of_open hopen
    refine ⟨bodies, hworks, hnested, hlast, ?_, ?_, ?_, fun _ => hleaves, ?_⟩
    · intro hnil _
      rw [hexpected, hroot hnil, hrest, hnil, List.zip_nil_left, List.flatMap_nil]
    · intro hne
      obtain ⟨builder, outer, hbuilders⟩ := List.exists_cons_of_ne_nil hne
      rw [hbuilders] at hworks hhead hrest ⊢
      cases hworks with
      | @cons _ body _ others hbuilder houter =>
          have hnext := hhead (builder, body) (by simp)
          have hsplit : builder.remaining body = next :: (builder.remaining body).tail :=
            List.eq_cons_of_mem_head? hnext
          rw [hexpected, hrest, List.zip_cons_cons, List.flatMap_cons, pending, hsplit]
          simp
    · simp [hexpected, hresult]
    · simp [hresult]
  · refine ⟨[], ?_, ?_, ?_, ?_, ?_, ?_, ?_, ?_⟩
    all_goals simp [hbuilders, hresult, hexpected, hleaves]

/-! ### Matched tokens -/

theorem matched_of_closed (h : p.closed = true) (tokens : List Token) :
    p.matched g tokens = [] := by
  induction tokens with
  | nil => rfl
  | cons token rest ih =>
      rw [matched, if_neg (by simp [h]), accept_of_closed h]
      exact ih

/-- The invariant holds after any stream, with the matched tokens as the ones consumed. -/
theorem tracks_acceptAll (hg : g.WellFormed) (hr : g.NoHiddenLeftRecursion)
    (h : Tracks g root consumed p) (tokens : List Token) :
    Tracks g root (consumed ++ p.matched g tokens) (p.acceptAll g tokens) := by
  induction tokens generalizing p consumed with
  | nil => simpa [matched] using h
  | cons token rest ih =>
      cases hclosed : p.closed with
      | true =>
          rw [matched_of_closed hclosed, List.append_nil, acceptAll_of_closed hclosed]
          exact h
      | false =>
          obtain ⟨hconsumes, hskips⟩ := tracks_accept hg hr h hclosed token
          rw [acceptAll_cons, matched]
          by_cases htoken : Consumes g p token
          · rw [if_pos ⟨hclosed, htoken⟩, ← List.singleton_append, ← List.append_assoc]
            exact ih (hconsumes htoken)
          · rw [if_neg fun h => htoken h.2]
            exact ih (hskips htoken)

/-! ### Sentential forms -/

variable {c : Catalog} {productions : Productions}

theorem produces_of_alternative (hc : c.WellFormed) (hg : Grammar.build c productions = .ok g)
    {name : String} {body : Body} (halt : g.Alternative name body) :
    (c.contextFree productions root).Produces [c.symbol name] (body.map c.symbol) := by
  have hwf := Grammar.wellFormed_of_build hc hg
  have hname := hwf.isNonterminal_of_alternative halt
  rw [Grammar.isNonterminal, (Grammar.slots_of_build hg).1] at hname
  have hrule : ContextFreeRule.mk name (body.map c.symbol) ∈
      (c.contextFree productions root).rules := (Grammar.mem_rules_iff hc hg).mpr ⟨body, halt, rfl⟩
  have hrewrites := ContextFreeRule.Rewrites.head (r := ContextFreeRule.mk name (body.map c.symbol))
    ([] : List (Symbol String String))
  refine ⟨_, hrule, ?_⟩
  simpa [Catalog.symbol, hname] using hrewrites

theorem derives_of_forest {nodes : List Node}
    (h : ∀ node ∈ nodes, (c.contextFree productions root).Derives [c.symbol node.kind]
      ((node.leaves.map (·.kind)).map c.symbol)) :
    (c.contextFree productions root).Derives ((nodes.map Node.kind).map c.symbol)
      (((Node.leavesOfAll nodes).map (·.kind)).map c.symbol) := by
  induction nodes with
  | nil => exact Relation.ReflTransGen.refl
  | cons node others ih =>
      obtain ⟨hnode, hothers⟩ := List.forall_mem_cons.mp h
      rw [Node.leavesOfAll_cons, List.map_append, List.map_append, List.map_cons, List.map_cons,
        ← List.singleton_append]
      exact (hnode.append_right _).trans ((ih hothers).append_left _)

/-- The leaves of a node are what its kind becomes, also where a leaf has the name of a
non-terminal. -/
theorem derives_of_follows (hc : c.WellFormed) (hg : Grammar.build c productions = .ok g)
    {node : Node} (h : node.Follows g) :
    (c.contextFree productions root).Derives [c.symbol node.kind]
      ((node.leaves.map (·.kind)).map c.symbol) := by
  have hwf := Grammar.wellFormed_of_build hc hg
  induction h with
  | leaf token => exact Relation.ReflTransGen.refl
  | @empty kind start stop hempty =>
      have halt : g.Alternative kind [] := ⟨_, hwf.hasEmpty_iff.mp (hwf.mem_empty_iff.mp hempty)⟩
      exact (produces_of_alternative hc hg halt).single
  | @branch kind start stop children hne hbody hall ih =>
      have hexpand : (c.contextFree productions root).Produces _ _ :=
        produces_of_alternative hc hg (hwf.alternative_of_stores hbody)
      rw [Node.leaves]
      exact hexpand.trans_derives (derives_of_forest ih)

/-- What the root has become: the leaves under construction, and after them what is expected. -/
theorem derives_of_open (hc : c.WellFormed) (hg : Grammar.build c productions = .ok g)
    (h : Open g root builders next rest) :
    (c.contextFree productions root).Derives [c.symbol root]
      (((openLeaves builders).map (·.kind) ++ next :: rest).map c.symbol) := by
  have hwf := Grammar.wellFormed_of_build hc hg
  induction h with
  | outermost => exact Relation.ReflTransGen.refl
  | @inside outer kind next rest later parts houter hbody hparts ih =>
      have hexpand : (c.contextFree productions root).Produces _ _ :=
        produces_of_alternative hc hg (hwf.alternative_of_stores hbody)
      have hbuilt : (c.contextFree productions root).Derives ((parts.map Node.kind).map c.symbol)
          (((Node.leavesOfAll parts).map (·.kind)).map c.symbol) :=
        derives_of_forest fun part hpart => derives_of_follows hc hg (hparts part hpart)
      -- the symbol that the builder is for becomes its body, and the parts become their leaves
      have hkind : (c.contextFree productions root).Derives [c.symbol kind]
          (((Node.leavesOfAll parts).map (·.kind) ++ next :: later).map c.symbol) := by
        rw [List.map_append]
        rw [List.map_append] at hexpand
        exact hexpand.trans_derives (hbuilt.append_right _)
      have hinside := (hkind.append_left (((openLeaves outer).map (·.kind)).map c.symbol))
        |>.append_right (rest.map c.symbol)
      refine ih.trans ?_
      simpa [openLeaves] using hinside

/-- **The invariant of the parser.** Whatever tokens a parser has been given, and also after a
fault, its builders are at work on stored bodies that are nested in each other, what is expected is
what remains of those, and the tokens that were matched are the leaves of what has been built. So
the kinds of the matched tokens, and after them what is expected, are derived from the root. -/
theorem exists_inStep_acceptAll {terminals : List Terminal} {nonterminals : List String}
    (hc : Catalog.build terminals nonterminals = .ok c)
    (hg : Grammar.build c productions = .ok g) (hr : g.NoHiddenLeftRecursion)
    (hp : g.parser root = .ok p) (tokens : List Token) :
    (∃ bodies, InStep g root (p.matched g tokens) (p.acceptAll g tokens) bodies) ∧
      (c.contextFree productions root).Derives [c.symbol root]
        (((p.matched g tokens).map (·.kind) ++ (p.acceptAll g tokens).expected).map c.symbol) := by
  have hcatalog := (Catalog.build_eq_ok_iff.mp hc).2.2
  have hwf := Grammar.wellFormed_of_build hcatalog hg
  obtain rfl := Grammar.eq_start_of_parser hp
  have htracks := tracks_acceptAll hwf hr (tracks_start g root) tokens
  rw [List.nil_append] at htracks
  refine ⟨htracks.exists_inStep, ?_⟩
  rcases htracks with ⟨next, rest, hexpected, -, hopen, hleaves⟩ |
    ⟨tree, hexpected, -, -, hkind, htree, hleaves⟩
  · rw [hexpected, ← hleaves]
    exact derives_of_open hcatalog hg hopen
  · rw [hexpected, List.append_nil, ← hleaves, ← hkind]
    exact derives_of_follows hcatalog hg htree

/-- A parenthesis that is closed at once. The parser has opened builders down to the primary
expression when it gives up. -/
theorem exists_inStep_acceptAll_parenthesis :
    let token := fun kind text => Token.mk kind ⟨1, 1⟩ ⟨1, 2⟩ text
    let tokens := [token "NUMBER" "1", token "PLUSMIN" "+", token "OPEN" "(", token "CLOSE" ")"]
    let parser := start "EXPR"
    let g := Expression.grammar
    let stuck := parser.acceptAll g tokens
    g.parser "EXPR" = .ok parser ∧ stuck.fault = some ⟨token "CLOSE" ")", ["EXPR", "CLOSE",
      "MULT_EXPR_TAIL", "EXPR_TAIL"]⟩ ∧ stuck.builders.length = 8 ∧
    (∃ bodies, InStep g "EXPR" (parser.matched g tokens) stuck bodies) ∧
      (Expression.catalog.contextFree Expression.productions "EXPR").Derives
        [Expression.catalog.symbol "EXPR"]
        (((parser.matched g tokens).map (·.kind) ++ stuck.expected).map
          Expression.catalog.symbol) := by
  intro token tokens parser g stuck
  have hfault : stuck.fault = some ⟨token "CLOSE" ")", ["EXPR", "CLOSE", "MULT_EXPR_TAIL",
      "EXPR_TAIL"]⟩ := by decide +kernel
  have hbuilders : stuck.builders.length = 8 := by decide +kernel
  obtain ⟨hinStep, hderives⟩ := exists_inStep_acceptAll Expression.build_catalog
    Expression.build_grammar Expression.noHiddenLeftRecursion_grammar (rfl : g.parser "EXPR" = _)
    tokens
  exact ⟨rfl, hfault, hbuilders, hinStep, hderives⟩

end Parser

end Lookahead
