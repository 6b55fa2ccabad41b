import Lookahead.Proofs.Grammar.Predictive
import Lookahead.Proofs.Parser.Tree

/-!
What a parser accepts. A tree that is built as the table says is a derivation of its leaves, so
everything that is accepted is a sentence. The other way round is not true of every table: the
parser commits itself to an alternative when it sees one token, and never comes back to try
another.

On predictive tables it need not. `Predictive.next?_eq` compares the alternative that the parser
takes with the one that a word from the left was derived by, case by case: the parser finds a
terminal lead if and only if the derivation begins with it, because a lead that is found by
accident would be a first or a following symbol. What the parser still expects then yields the rest
of the word after each token, which is the invariant of `accepted_of_yields`.
-/

namespace Lookahead

namespace Grammar

variable {g : Grammar} {root name : String} {body : Body} {symbols rest word : List String}

/-! ### Leaves as sentences -/

theorem Yields.of_forest {nodes : List Node}
    (h : ∀ node ∈ nodes, g.Yields [node.kind] (node.leaves.map (·.kind))) :
    g.Yields (nodes.map Node.kind) ((Node.leavesOfAll nodes).map (·.kind)) := by
  induction nodes with
  | nil => exact .nil
  | cons node others ih =>
      obtain ⟨hnode, hothers⟩ := List.forall_mem_cons.mp h
      rw [Node.leavesOfAll_cons, List.map_append, List.map_cons]
      exact hnode.append (ih hothers)

theorem WellFormed.yields_of_follows (hg : g.WellFormed) {node : Node} (h : node.Follows g)
    (hleaves : ∀ leaf ∈ node.leaves, g.isNonterminal leaf.kind = false) :
    g.Yields [node.kind] (node.leaves.map (·.kind)) := by
  induction h with
  | leaf token => exact .terminal (hleaves token (by simp)) .nil
  | @empty kind start stop hempty =>
      have halt : g.Alternative kind [] := ⟨_, hg.hasEmpty_iff.mp (hg.mem_empty_iff.mp hempty)⟩
      exact .expand halt .nil
  | @branch kind start stop children hne hbody hall ih =>
      refine .expand (hg.alternative_of_stores hbody) ?_
      rw [List.append_nil]
      apply Yields.of_forest
      intro child hchild
      refine ih child hchild fun leaf hleaf => hleaves leaf ?_
      rw [Node.leaves, Node.leavesOfAll_eq_flatMap]
      exact List.mem_flatMap.mpr ⟨child, hchild, hleaf⟩

/-- When no alternative has the end of the input in it, it occurs in no word. -/
theorem EpsilonFree.not_mem_of_yields (hg : g.WellFormed) (hfree : g.EpsilonFree)
    (h : g.Yields symbols word) (hsymbols : g.catalog.epsilon ∉ symbols) :
    g.catalog.epsilon ∉ word := by
  induction h with
  | nil => exact hsymbols
  | terminal _ _ ih =>
      rw [List.mem_cons, not_or] at hsymbols ⊢
      exact ⟨hsymbols.1, ih hsymbols.2⟩
  | @expand name body rest word halt _ ih =>
      rw [List.mem_cons, not_or] at hsymbols
      apply ih
      rw [List.mem_append, not_or]
      refine ⟨fun hmem => ?_, hsymbols.2⟩
      exact hfree name body (hg.stores_iff.mpr ⟨List.ne_nil_of_mem hmem, halt⟩) hmem

/-! ### The choice of an alternative -/

/-- The kind of the token at hand when a word is still to come and then the end of the input. -/
def lookahead (g : Grammar) (word : List String) : String := word.headD g.catalog.epsilon

theorem WellFormed.isNonterminal_lookahead (hg : g.WellFormed) (h : g.Yields symbols word) :
    g.isNonterminal (g.lookahead word) = false := by
  cases word with
  | nil => exact hg.catalog.not_isNonterminal hg.catalog.isTerminal_epsilon
  | cons kind tail => exact h.isNonterminal_eq_false kind (by simp)

/-- A token that is found among the leads is not the end of the input. -/
theorem EpsilonFree.eq_cons_of_lead (hg : g.WellFormed) (hfree : g.EpsilonFree)
    (h : g.alternative? name (.terminal (g.lookahead word)) = some body) :
    ∃ tail, word = g.lookahead word :: tail := by
  cases word with
  | cons kind tail => exact ⟨tail, rfl⟩
  | nil =>
      obtain ⟨others, rfl, -⟩ := hg.eq_cons_of_terminal h
      have hmem := hfree name _ (hg.stores_iff.mpr ⟨by simp, _, h⟩)
      simp [lookahead] at hmem

/-- The token is not found among the leads when the word comes from the alternative that the
non-terminal falls back to: it would be a first symbol of that, or of what follows. -/
theorem Predictive.lead_eq_none_of_fallback (hg : g.WellFormed) (hfree : g.EpsilonFree)
    (hpred : g.Predictive root) (hstack : g.Anchored root (name :: rest))
    (hbody : g.alternative? name .nonterminal = some body)
    (hyields : g.Yields (body ++ rest) word) :
    g.alternative? name (.terminal (g.lookahead word)) = none := by
  rw [Option.eq_none_iff_forall_ne_some]
  intro found hfound
  have hmem := hg.mem_nonterminalLeads_iff.mpr hbody
  have hlead := hg.mem_names_terminalLeads_iff.mpr ⟨found, hfound⟩
  obtain ⟨tail, hword⟩ := hfree.eq_cons_of_lead hg hfound
  rw [hword] at hyields
  rcases hyields.first.of_append with hfirst | ⟨hnull, hfirst⟩
  · exact hpred.not_first name body _ hmem hlead hfirst
  · exact hpred.not_follow name body _ hmem hlead hnull (hstack.2.1 _ hfirst)

/-- Nor is it when the non-terminal becomes nothing. -/
theorem Predictive.select?_eq_none_of_empty (hg : g.WellFormed) (hfree : g.EpsilonFree)
    (hpred : g.Predictive root) (hstack : g.Anchored root (name :: rest))
    (hempty : g.hasEmpty name = true) (hyields : g.Yields rest word) :
    g.select? name (g.lookahead word) = none := by
  have hmem := hg.mem_empty_iff.mpr hempty
  rw [select?_eq_none_iff, Option.eq_none_iff_forall_ne_some, Option.eq_none_iff_forall_ne_some]
  refine ⟨fun found hfound => ?_, fun found hfound => ?_⟩
  · have hlead := hg.mem_names_terminalLeads_iff.mpr ⟨found, hfound⟩
    obtain ⟨tail, hword⟩ := hfree.eq_cons_of_lead hg hfound
    rw [hword] at hyields
    exact hpred.not_follow_empty name _ hmem hlead (hstack.2.1 _ hyields.first)
  · exact hpred.not_empty name found (hg.mem_nonterminalLeads_iff.mpr hfound) hmem

/-- On a predictive table the parser takes the alternative that the word is derived by. -/
theorem Predictive.next?_eq (hg : g.WellFormed) (hfree : g.EpsilonFree)
    (hpred : g.Predictive root) (hstack : g.Anchored root (name :: rest))
    (halt : g.Alternative name body) (hyields : g.Yields (body ++ rest) word) :
    g.next? (g.lookahead word) (name :: rest) = some (body ++ rest) := by
  have hname := hg.isNonterminal_of_alternative halt
  have hkind := hg.isNonterminal_lookahead hyields
  obtain ⟨lead, hbody⟩ := halt
  cases lead with
  | terminal terminal =>
      -- the word begins with the lead
      obtain ⟨others, rfl, hterminal⟩ := hg.eq_cons_of_terminal hbody
      have hlookahead : g.lookahead word = terminal := by
        cases hyields with
        | terminal => rfl
        | expand halt' => simp [hg.isNonterminal_of_alternative halt'] at hterminal
      rw [hlookahead]
      exact next?_cons_of_select hname hterminal (select?_eq_some_iff.mpr (.inl hbody)) rest
  | nonterminal =>
      have hnone := hpred.lead_eq_none_of_fallback hg hfree hstack hbody hyields
      have hselect := select?_eq_some_iff.mpr (.inr ⟨hnone, hbody⟩)
      exact next?_cons_of_select hname hkind hselect rest
  | empty =>
      obtain rfl := hg.eq_nil_of_empty hbody
      have hempty := hg.hasEmpty_iff.mpr hbody
      have hselect := hpred.select?_eq_none_of_empty hg hfree hstack hempty hyields
      exact next?_cons_of_empty hname hkind hselect hempty rest

/-- What the parser expects after its expansions is the first letter of the word, and then symbols
that yield the others; or nothing, when the word is empty. -/
theorem Predictive.exists_settles (hg : g.WellFormed) (hfree : g.EpsilonFree)
    (hpred : g.Predictive root) (hstack : g.Anchored root symbols)
    (hyields : g.Yields symbols word) :
    (word = [] ∧ g.Settles (g.lookahead word) symbols []) ∨
    ∃ kind tail rest, word = kind :: tail ∧ g.Settles kind symbols (kind :: rest) ∧
      g.Anchored root rest ∧ g.Yields rest tail := by
  induction hyields with
  | nil =>
      have hmove : g.move g.catalog.epsilon [] = .finish := move_eq_finish_iff.mpr ⟨rfl, rfl⟩
      exact .inl ⟨rfl, .refl, by rw [lookahead, List.headD_nil, next?, hmove, Move.next?]⟩
  | @terminal kind rest tail _ hrest _ =>
      have hmove : g.move kind (kind :: rest) = .consume rest := move_eq_consume_iff.mpr rfl
      exact .inr ⟨kind, tail, rest, rfl, ⟨.refl, by rw [next?, hmove, Move.next?]⟩,
        hstack.2.2, hrest⟩
  | expand halt hyields ih =>
      have hnext := hpred.next?_eq hg hfree hstack halt hyields
      rcases ih (hstack.expand halt) with ⟨rfl, hpath, hend⟩ | ⟨kind, tail, rest, rfl, h, hrest⟩
      · exact .inl ⟨rfl, .head hnext hpath, hend⟩
      · exact .inr ⟨kind, tail, rest, rfl, ⟨.head hnext h.1, h.2⟩, hrest⟩

end Grammar

namespace Parser

variable {g : Grammar} {root : String} {p : Parser} {last : Token} {tokens : List Token}

/-! ### Taking in a word -/

/-- On a predictive table, an open parser accepts every word that what it expects yields. -/
theorem accepted_of_yields (hg : g.WellFormed) (hr : g.NoHiddenLeftRecursion)
    (hfree : g.EpsilonFree) (hpred : g.Predictive root) (hclosed : p.closed = false)
    (hstack : g.Anchored root p.expected) (hlast : last.kind = g.catalog.epsilon)
    (htokens : ∀ token ∈ tokens, token.kind ≠ g.catalog.epsilon)
    (hyields : g.Yields p.expected (tokens.map (·.kind))) :
    (p.acceptAll g (tokens ++ [last])).accepted = true := by
  induction tokens generalizing p with
  | nil =>
      rcases hpred.exists_settles hg hfree hstack hyields with
        ⟨-, hsettles⟩ | ⟨kind, tail, rest, hword, -⟩
      · rw [Grammar.lookahead, List.map_nil, List.headD_nil, ← hlast] at hsettles
        cases outcome_accept hg hr hclosed last with
        | finished _ _ _ _ haccepted => exact haccepted
        | consumed hsettles' => cases hsettles.unique hsettles'
        | refused hsettles' hrefuses =>
            obtain rfl := hsettles.unique hsettles'
            rw [Grammar.move_eq_finish_iff.mpr ⟨rfl, hlast⟩] at hrefuses
            contradiction
      · simp at hword
  | cons token others ih =>
      obtain ⟨htoken, hothers⟩ := List.forall_mem_cons.mp htokens
      rcases hpred.exists_settles hg hfree hstack hyields with
        ⟨hword, -⟩ | ⟨kind, tail, rest, hword, hsettles, hrest, hyields'⟩
      · simp at hword
      · rw [List.map_cons, List.cons.injEq] at hword
        obtain ⟨rfl, rfl⟩ := hword
        rw [List.cons_append, acceptAll_cons]
        cases outcome_accept hg hr hclosed token with
        | finished _ hkind => exact absurd hkind htoken
        | consumed hsettles' hexpected hfault haccepted =>
            -- the invariant: what is expected now yields the rest of the word
            obtain rfl := (List.cons.inj (hsettles.unique hsettles')).2
            rw [← hexpected] at hrest hyields'
            refine ih ?_ hrest hothers hyields'
            simp [closed, hfault, haccepted, htoken]
        | refused hsettles' hrefuses =>
            obtain rfl := hsettles.unique hsettles'
            rw [Grammar.move_eq_consume_iff.mpr rfl] at hrefuses
            contradiction

theorem eq_of_append_eq {before after : List Token} {final : Token}
    (heq : tokens ++ [last] = before ++ final :: after) (hnot : final ∉ tokens) :
    tokens = before ∧ last = final := by
  rcases List.eq_nil_or_concat after with rfl | ⟨others, other, rfl⟩
  · obtain ⟨htokens, hlast⟩ := List.append_inj' heq rfl
    exact ⟨htokens, by simpa using hlast⟩
  · rw [List.concat_eq_append, ← List.cons_append, ← List.append_assoc] at heq
    rw [(List.append_inj' heq rfl).1] at hnot
    simp at hnot

/-- What is accepted is a sentence: the tree derives its leaves, and the end of the input, which is
in no sentence, is not among them. -/
theorem yields_of_accepted (hg : g.WellFormed) (hr : g.NoHiddenLeftRecursion)
    (hfree : g.EpsilonFree) (hroot : root ≠ g.catalog.epsilon)
    (hlast : last.kind = g.catalog.epsilon)
    (htokens : ∀ token ∈ tokens,
      g.isNonterminal token.kind = false ∧ token.kind ≠ g.catalog.epsilon)
    (haccepted : ((start root).acceptAll g (tokens ++ [last])).accepted = true) :
    g.Yields [root] (tokens.map (·.kind)) := by
  obtain ⟨before, final, after, leaves, tree, heq, -, -, -, rfl, htree, hfinal, hcons, hnot,
    hleaves⟩ := tree_of_acceptAll hg hr (tracks_start g root) rfl haccepted
  -- the token that ends the parse is the last one, since no other has its kind
  obtain ⟨rfl, rfl⟩ := eq_of_append_eq heq fun hmem => (htokens final hmem).2 hfinal
  rw [List.nil_append] at hleaves
  have hterminals : ∀ leaf ∈ tree.leaves, g.isNonterminal leaf.kind = false := by
    intro leaf hleaf
    have hmem : leaf ∈ tokens ∨ leaf = last := by
      rw [hleaves] at hleaf
      by_cases h : Consumes g ((start tree.kind).acceptAll g tokens) last
      · simpa [hcons h] using hleaf
      · exact .inl (by simpa [hnot h] using hleaf)
    rcases hmem with h | rfl
    · exact (htokens leaf h).1
    · rw [hlast]
      exact hg.catalog.not_isNonterminal hg.catalog.isTerminal_epsilon
  have hyields := hg.yields_of_follows htree hterminals
  have hfree' := hfree.not_mem_of_yields hg hyields (by simpa using hroot.symm)
  have hconsumes : ¬ Consumes g ((start tree.kind).acceptAll g tokens) last := by
    intro h
    rw [hleaves, hcons h, List.map_append, List.map_singleton, hlast] at hfree'
    simp at hfree'
  rwa [hleaves, hnot hconsumes] at hyields

/-- **Completeness of parsing.** On a predictive table the parser decides the language of the
grammar: it accepts a word with the end of the input after it if and only if the root derives the
word. -/
theorem accepted_iff_derives {terminals : List Terminal} {nonterminals : List String} {c : Catalog}
    {productions : Productions} (hc : Catalog.build terminals nonterminals = .ok c)
    (hg : Grammar.build c productions = .ok g) (hr : g.NoHiddenLeftRecursion)
    (hfree : g.EpsilonFree) (hp : g.parser root = .ok p) (hroot : root ≠ c.epsilon)
    (hpred : g.Predictive root) (tokens : List Token)
    (htokens : ∀ token ∈ tokens, c.isTerminal token.kind = true ∧ token.kind ≠ c.epsilon)
    (last : Token) (hlast : last.kind = c.epsilon) :
    (p.acceptAll g (tokens ++ [last])).accepted = true ↔
      (c.contextFree productions root).Derives [c.symbol root]
        ((tokens.map (·.kind)).map Symbol.terminal) := by
  have hcatalog := (Catalog.build_eq_ok_iff.mp hc).2.2
  have hwf := Grammar.wellFormed_of_build hcatalog hg
  obtain rfl := Grammar.eq_start_of_parser hp
  obtain ⟨rfl, -⟩ := Grammar.slots_of_build hg
  have hterminals : ∀ token ∈ tokens,
      g.isNonterminal token.kind = false ∧ token.kind ≠ g.catalog.epsilon :=
    fun token hmem => ⟨hcatalog.not_isNonterminal (htokens token hmem).1, (htokens token hmem).2⟩
  have hword : ∀ kind ∈ tokens.map (·.kind), g.isNonterminal kind = false := by
    intro kind hkind
    obtain ⟨token, hmem, rfl⟩ := List.mem_map.mp hkind
    exact (hterminals token hmem).1
  rw [← List.map_singleton, Grammar.derives_iff_yields hcatalog hg hword]
  constructor
  · exact yields_of_accepted hwf hr hfree hroot hlast hterminals
  · have hstack : g.Anchored root (start root).expected := Grammar.anchored_root g root
    exact accepted_of_yields hwf hr hfree hpred rfl hstack hlast
      fun token hmem => (hterminals token hmem).2

/-- The built-in language is predictive, and a sum is in it. -/
theorem accepted_iff_derives_sum :
    let token := fun kind text => Token.mk kind ⟨1, 1⟩ ⟨1, 2⟩ text
    let tokens := [token "NUMBER" "1", token "PLUSMIN" "+", token "IDENTIFIER" "x"]
    let last := token "EPSILON" ""
    Expression.grammar.EpsilonFree ∧ Expression.grammar.Predictive "EXPR" ∧
    (((start "EXPR").acceptAll Expression.grammar (tokens ++ [last])).accepted = true ↔
      (Expression.catalog.contextFree Expression.productions "EXPR").Derives
        [Expression.catalog.symbol "EXPR"] ((tokens.map (·.kind)).map Symbol.terminal)) ∧
    (Expression.catalog.contextFree Expression.productions "EXPR").Derives
      [Expression.catalog.symbol "EXPR"] ((tokens.map (·.kind)).map Symbol.terminal) := by
  intro token tokens last
  have hiff := accepted_iff_derives Expression.build_catalog Expression.build_grammar
    Expression.noHiddenLeftRecursion_grammar Expression.epsilonFree_grammar
    (rfl : Expression.grammar.parser "EXPR" = .ok (start "EXPR")) (by decide)
    Expression.predictive_grammar tokens (by decide) last rfl
  have haccepted : ((start "EXPR").acceptAll Expression.grammar (tokens ++ [last])).accepted =
      true := by decide +kernel
  exact ⟨Expression.epsilonFree_grammar, Expression.predictive_grammar, hiff, hiff.mp haccepted⟩

end Parser

end Lookahead
