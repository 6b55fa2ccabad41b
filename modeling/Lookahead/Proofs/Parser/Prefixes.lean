import Lookahead.Proofs.Parser.Acceptable
import Lookahead.Proofs.Parser.Sentences

/-!
A fault is found at the first token that could be one. The parser rewrites what it expects before it
knows whether the token fits, and still it consumes no token too many: on a predictive table whose
non-terminals all derive something, the tokens that are consumed without a fault are precisely the
beginnings of sentences.

One direction takes what is expected and completes it to a word (`exists_yields`), the other one
takes a word and follows the parser along it, as completeness does. Between them stands
`admits_iff_yields`: a token is admitted when what is expected yields a word that begins with it.
Consuming it then leaves symbols that yield precisely the rests of such words, so after any number
of tokens what is expected yields the rests of sentences (`Rests`), and the acceptable kinds are the
first letters of those.
-/

namespace Lookahead

def Catalog.Sentence (c : Catalog) (productions : Productions) (root : String)
    (word : List String) : Prop :=
  (∀ kind ∈ word, c.isTerminal kind = true) ∧
    (c.contextFree productions root).Derives [c.symbol root] (word.map Symbol.terminal)

namespace Grammar

variable {g : Grammar} {root kind : String} {symbols after rest word : List String}

/-- Every non-terminal becomes some word. -/
def Productive (g : Grammar) : Prop :=
  ∀ name, g.isNonterminal name = true → ∃ word, g.Yields [name] word

theorem Productive.exists_yields (h : g.Productive) (symbols : List String) :
    ∃ word, g.Yields symbols word := by
  induction symbols with
  | nil => exact ⟨[], .nil⟩
  | cons name others ih =>
      obtain ⟨tail, htail⟩ := ih
      cases hname : g.isNonterminal name with
      | false => exact ⟨name :: tail, .terminal hname htail⟩
      | true =>
          obtain ⟨front, hfront⟩ := h name hname
          exact ⟨front ++ tail, hfront.append htail⟩

theorem WellFormed.isTerminal_of_yields (hg : g.WellFormed) (h : g.Yields symbols word)
    (hknown : ∀ symbol ∈ symbols, g.catalog.contains symbol = true) :
    ∀ letter ∈ word, g.catalog.isTerminal letter = true := by
  induction h with
  | nil => simp
  | terminal hname _ ih =>
      obtain ⟨hfirst, hrest⟩ := List.forall_mem_cons.mp hknown
      exact List.forall_mem_cons.mpr ⟨isTerminal_of_contains hfirst hname, ih hrest⟩
  | expand halt _ ih =>
      obtain ⟨lead, hbody⟩ := halt
      refine ih (List.forall_mem_append.mpr ⟨fun symbol hsymbol => ?_, ?_⟩)
      · exact hg.contains_of_alternative? hbody hsymbol
      · exact (List.forall_mem_cons.mp hknown).2

theorem WellFormed.yields_of_rewrites (hg : g.WellFormed) (h : g.Rewrites kind symbols after)
    (hafter : g.Yields after word) : g.Yields symbols word := by
  induction h using Relation.ReflTransGen.head_induction_on with
  | refl => exact hafter
  | head hstep _ ih =>
      rcases next?_eq_some_iff.mp hstep with ⟨top, body, rest, hmove, rfl⟩ | ⟨top, rest, hmove, rfl⟩
      · obtain ⟨rfl, -, -, hselect⟩ := move_eq_expand_iff.mp hmove
        exact .expand (hg.alternative_of_stores (hg.stores_of_select? hselect)) ih
      · obtain ⟨rfl, -, -, -, hempty⟩ := move_eq_vanish_iff.mp hmove
        exact .expand ⟨_, hg.hasEmpty_iff.mp hempty⟩ ih

/-- A token is admitted when it begins a word of what is expected, or ends the input where nothing
need follow. -/
theorem Predictive.admits_iff_yields (hg : g.WellFormed) (hfree : g.EpsilonFree)
    (hpred : g.Predictive root) (hproductive : g.Productive) (hstack : g.Anchored root symbols)
    (hkind : g.isNonterminal kind = false) :
    g.Admits kind symbols ↔
      (∃ more, g.Yields symbols (kind :: more)) ∨
        kind = g.catalog.epsilon ∧ g.Yields symbols [] := by
  constructor
  · rintro ⟨settled, ⟨hpath, hend⟩, hmove⟩
    cases hdecision : g.move kind settled with
    | finish =>
        obtain ⟨rfl, rfl⟩ := move_eq_finish_iff.mp hdecision
        exact .inr ⟨rfl, hg.yields_of_rewrites hpath .nil⟩
    | consume rest =>
        obtain rfl := move_eq_consume_iff.mp hdecision
        obtain ⟨more, hmore⟩ := hproductive.exists_yields rest
        exact .inl ⟨more, hg.yields_of_rewrites hpath (.terminal hkind hmore)⟩
    | surplus => simp [hdecision, Move.refuses] at hmove
    | mismatch => simp [hdecision, Move.refuses] at hmove
    | stuck => simp [hdecision, Move.refuses] at hmove
    | expand => simp [next?, hdecision, Move.next?] at hend
    | vanish => simp [next?, hdecision, Move.next?] at hend
  · rintro (⟨more, hyields⟩ | ⟨rfl, hyields⟩)
    · rcases hpred.exists_settles hg hfree hstack hyields with
        ⟨hword, -⟩ | ⟨first, tail, rest, hword, h⟩
      · simp at hword
      · obtain ⟨rfl, rfl⟩ := List.cons.inj hword
        rw [admits_iff_of_settles h.1, move_eq_consume_iff.mpr rfl, Move.refuses]
    · rcases hpred.exists_settles hg hfree hstack hyields with
        ⟨-, h⟩ | ⟨first, tail, rest, hword, -⟩
      · have hmove : g.move g.catalog.epsilon [] = .finish := move_eq_finish_iff.mpr ⟨rfl, rfl⟩
        rw [lookahead, List.headD_nil] at h
        rw [admits_iff_of_settles h, hmove, Move.refuses]
      · simp at hword

/-- Once a token is consumed, the symbols after it become the rests of the words that it begins. -/
theorem Predictive.yields_cons_iff (hg : g.WellFormed) (hfree : g.EpsilonFree)
    (hpred : g.Predictive root) (hstack : g.Anchored root symbols)
    (hkind : g.isNonterminal kind = false) (h : g.Settles kind symbols (kind :: rest)) :
    g.Yields symbols (kind :: word) ↔ g.Yields rest word := by
  constructor
  · intro hyields
    rcases hpred.exists_settles hg hfree hstack hyields with
      ⟨hword, -⟩ | ⟨first, tail, rest', hword, hsettles, -, hrest⟩
    · simp at hword
    · obtain ⟨rfl, rfl⟩ := List.cons.inj hword
      obtain rfl := (List.cons.inj (h.unique hsettles)).2
      exact hrest
  · exact fun hyields => hg.yields_of_rewrites h.1 (.terminal hkind hyields)

theorem sentence_iff_yields {c : Catalog} {productions : Productions} (hc : c.WellFormed)
    (hg : build c productions = .ok g) (hroot : c.contains root = true) :
    c.Sentence productions root word ↔ g.Yields [root] word := by
  have hwf := wellFormed_of_build hc hg
  obtain ⟨rfl, -⟩ := slots_of_build hg
  constructor
  · rintro ⟨hterminals, hderives⟩
    rw [← List.map_singleton, derives_iff_yields hc hg] at hderives
    · exact hderives
    · exact fun kind hkind => hc.not_isNonterminal (hterminals kind hkind)
  · intro h
    refine ⟨hwf.isTerminal_of_yields h (by simpa using hroot), ?_⟩
    rw [← List.map_singleton]
    exact derives_of_yields hc hg h

end Grammar

namespace Parser

variable {g : Grammar} {root : String} {p : Parser} {word : List String} {token : Token}

/-- An open parser that has consumed a word: what it expects yields the rests of sentences. -/
structure Rests (g : Grammar) (root : String) (word : List String) (p : Parser) : Prop where
  closed : p.closed = false
  anchored : g.Anchored root p.expected
  yields_iff : ∀ more, g.Yields [root] (word ++ more) ↔ g.Yields p.expected more

theorem rests_start (g : Grammar) (root : String) : Rests g root [] (start root) :=
  ⟨rfl, g.anchored_root root, fun _ => Iff.rfl⟩

/-- A token that is not refused leaves the rests of the longer word. -/
theorem Rests.accept (hg : g.WellFormed) (hr : g.NoHiddenLeftRecursion) (hfree : g.EpsilonFree)
    (hpred : g.Predictive root) (hproductive : g.Productive) (h : Rests g root word p)
    (hkind : g.isNonterminal token.kind = false) (hne : token.kind ≠ g.catalog.epsilon) :
    ((p.accept g token).fault = none ↔
      ∃ more, g.Yields [root] (word ++ token.kind :: more)) ∧
    ((p.accept g token).fault = none → Rests g root (word ++ [token.kind]) (p.accept g token)) := by
  have hadmits := hpred.admits_iff_yields hg hfree hproductive h.anchored hkind
  simp only [hne, false_and, or_false, ← h.yields_iff] at hadmits
  rw [← hadmits]
  refine ⟨?_, fun hnone => ?_⟩
  · rcases fault_accept hg hr h.closed token with ⟨hyes, hfault⟩ | ⟨hno, hfault, -⟩
    · simp [hyes, hfault]
    · simp [hno, hfault]
  · cases outcome_accept hg hr h.closed token with
    | finished _ hend => exact absurd hend hne
    | refused _ _ _ hfault => simp [hnone] at hfault
    | @consumed rest hsettles hexpected hfault haccepted =>
        have hrest : ∀ more, g.Yields [root] (word ++ token.kind :: more) ↔ g.Yields rest more :=
          fun more => (h.yields_iff _).trans
            (hpred.yields_cons_iff hg hfree h.anchored hkind hsettles)
        refine ⟨by simp [Parser.closed, hfault, haccepted, hne], ?_, fun more => ?_⟩
        · -- some word goes on like this, and it shows what the rest is anchored to
          obtain ⟨more, hmore⟩ := hproductive.exists_yields rest
          rcases hpred.exists_settles hg hfree h.anchored
            ((h.yields_iff _).mp ((hrest more).mpr hmore)) with ⟨hnil, -⟩ |
              ⟨first, tail, rest', hcons, hsettles', hanchored, -⟩
          · simp at hnil
          · obtain ⟨rfl, rfl⟩ := List.cons.inj hcons
            obtain rfl := (List.cons.inj (hsettles.unique hsettles')).2
            rwa [hexpected]
        · rw [List.append_assoc, List.singleton_append, hrest, hexpected]

/-- A stream is consumed without a fault when its kinds are the beginning of a sentence. -/
theorem Rests.acceptAll (hg : g.WellFormed) (hr : g.NoHiddenLeftRecursion) (hfree : g.EpsilonFree)
    (hpred : g.Predictive root) (hproductive : g.Productive) (h : Rests g root word p)
    {tokens : List Token} (htokens : ∀ token ∈ tokens,
      g.isNonterminal token.kind = false ∧ token.kind ≠ g.catalog.epsilon) :
    ((p.acceptAll g tokens).fault = none ↔
      ∃ more, g.Yields [root] (word ++ tokens.map (·.kind) ++ more)) ∧
    ((p.acceptAll g tokens).fault = none →
      Rests g root (word ++ tokens.map (·.kind)) (p.acceptAll g tokens)) := by
  induction tokens generalizing p word with
  | nil =>
      obtain ⟨more, hmore⟩ := hproductive.exists_yields p.expected
      have hfault := (closed_eq_false_iff.mp h.closed).1
      simp only [acceptAll_nil, List.map_nil, List.append_nil]
      exact ⟨iff_of_true hfault ⟨more, (h.yields_iff more).mpr hmore⟩, fun _ => h⟩
  | cons token rest ih =>
      obtain ⟨⟨hkind, hne⟩, hrest⟩ := List.forall_mem_cons.mp htokens
      obtain ⟨hiff, hstays⟩ := h.accept hg hr hfree hpred hproductive hkind hne
      rw [acceptAll_cons, List.map_cons]
      cases hfault : (p.accept g token).fault with
      | none =>
          have hrests := ih (hstays hfault) hrest
          simpa only [List.append_assoc, List.singleton_append] using hrests
      | some fault =>
          -- a fault stays, and no sentence goes on with the token
          have hsame : (p.accept g token).acceptAll g rest = p.accept g token :=
            acceptAll_of_closed (by simp [Parser.closed, hfault]) rest
          rw [hsame, hfault]
          refine ⟨iff_of_false (by simp) ?_, fun hnone => by simp at hnone⟩
          rintro ⟨more, hmore⟩
          rw [List.append_assoc, List.cons_append] at hmore
          have hnone := hiff.mpr ⟨_, hmore⟩
          simp [hfault] at hnone

/-- What is acceptable after a word are the letters that sentences go on with, and the end of the
input where they need not. -/
theorem Rests.mem_acceptable_iff (hg : g.WellFormed) (hr : g.NoHiddenLeftRecursion)
    (hfree : g.EpsilonFree) (hpred : g.Predictive root) (hproductive : g.Productive)
    (h : Rests g root word p)
    (hknown : ∀ symbol ∈ p.expected, g.catalog.contains symbol = true) {kind : String}
    (hkind : g.isNonterminal kind = false) :
    kind ∈ p.acceptable g ↔
      (∃ more, g.Yields [root] (word ++ kind :: more)) ∨
        kind = g.catalog.epsilon ∧ g.Yields [root] word := by
  have hword := h.yields_iff []
  rw [List.append_nil] at hword
  rw [(gathers_acceptable hg hr h.closed hknown).mem_iff kind hkind,
    hpred.admits_iff_yields hg hfree hproductive h.anchored hkind, hword]
  simp only [h.yields_iff]

/-- **A fault is found as early as there is one.** On a predictive table whose non-terminals all
derive something, a parser is without a fault after just those words that some sentence begins with.
Then what is acceptable next are the letters that such a sentence goes on with, and the end of the
input if the word is a sentence itself. -/
theorem earliest_fault {terminals : List Terminal} {nonterminals : List String} {c : Catalog}
    {productions : Productions} (hc : Catalog.build terminals nonterminals = .ok c)
    (hg : Grammar.build c productions = .ok g) (hr : g.NoHiddenLeftRecursion)
    (hfree : g.EpsilonFree) (hp : g.parser root = .ok p) (hroot : root ≠ c.epsilon)
    (hproductive : ∀ name, c.isNonterminal name = true → ∃ word, c.Sentence productions name word)
    (hempty : ∀ name body, (name, body) ∈ g.nonterminalLeads → name ∉ g.empty)
    (hfirst : ∀ name body terminal, (name, body) ∈ g.nonterminalLeads →
      terminal ∈ (g.terminalLeads name).names → ¬ g.First body terminal)
    (hfollow : ∀ name terminal, g.Nullable name → terminal ∈ (g.terminalLeads name).names →
      ¬ g.Follow root name terminal)
    (tokens : List Token)
    (htokens : ∀ token ∈ tokens, c.isTerminal token.kind = true ∧ token.kind ≠ c.epsilon) :
    ((p.acceptAll g tokens).fault = none ↔
      ∃ more, c.Sentence productions root (tokens.map (·.kind) ++ more)) ∧
    ((p.acceptAll g tokens).fault = none →
      (∀ kind, kind ≠ c.epsilon → (kind ∈ (p.acceptAll g tokens).acceptable g ↔
        ∃ more, c.Sentence productions root (tokens.map (·.kind) ++ kind :: more))) ∧
      (c.epsilon ∈ (p.acceptAll g tokens).acceptable g ↔
        c.Sentence productions root (tokens.map (·.kind)))) := by
  have hcatalog := (Catalog.build_eq_ok_iff.mp hc).2.2
  have hwf := Grammar.wellFormed_of_build hcatalog hg
  have hcontains := Grammar.contains_of_parser hp
  obtain rfl := Grammar.eq_start_of_parser hp
  obtain ⟨rfl, -⟩ := Grammar.slots_of_build hg
  have hpred : g.Predictive root := hwf.predictive_iff.mpr ⟨hempty, hfirst, hfollow⟩
  have hyields : ∀ {word : List String},
      g.catalog.Sentence productions root word ↔ g.Yields [root] word :=
    Grammar.sentence_iff_yields hcatalog hg hcontains
  have hwords : g.Productive := by
    intro name hname
    obtain ⟨word, hword⟩ := hproductive name hname
    have hknown : g.catalog.contains name = true := by
      rw [Catalog.contains, show g.catalog.isNonterminal name = true from hname, Bool.or_true]
    exact ⟨word, (Grammar.sentence_iff_yields hcatalog hg hknown).mp hword⟩
  have hstart := rests_start g root
  obtain ⟨hiff, hrests⟩ := hstart.acceptAll hwf hr hfree hpred hwords fun token hmem =>
    ⟨hcatalog.not_isNonterminal (htokens token hmem).1, (htokens token hmem).2⟩
  simp only [List.nil_append] at hiff hrests
  simp only [hyields]
  refine ⟨hiff, fun hnone => ?_⟩
  have hknown : ∀ symbol ∈ ((start root).acceptAll g tokens).expected,
      g.catalog.contains symbol = true :=
    contains_acceptAll hwf hr (by simpa [start] using hcontains) tokens
  have hacceptable := fun {kind : String} (hkind : g.isNonterminal kind = false) =>
    (hrests hnone).mem_acceptable_iff hwf hr hfree hpred hwords hknown hkind
  refine ⟨fun kind hne => ?_, ?_⟩
  · have hterminal : ∀ {word more : List String}, g.Yields [root] (word ++ kind :: more) →
        g.isNonterminal kind = false := fun h => h.isNonterminal_eq_false kind (by simp)
    constructor
    · intro hmem
      have hkind := hcatalog.not_isNonterminal
        ((gathers_acceptable hwf hr (hrests hnone).closed hknown).isTerminal kind hmem)
      exact ((hacceptable hkind).mp hmem).resolve_right fun h => hne h.1
    · rintro ⟨more, hmore⟩
      exact (hacceptable (hterminal hmore)).mpr (.inl ⟨more, hmore⟩)
  · rw [hacceptable (hcatalog.not_isNonterminal hcatalog.isTerminal_epsilon)]
    constructor
    · rintro (⟨more, hmore⟩ | ⟨-, hword⟩)
      · -- the end of the input is in no sentence
        have hnot := hfree.not_mem_of_yields hwf hmore (by simpa using hroot.symm)
        simp at hnot
      · exact hword
    · exact fun hword => .inr ⟨rfl, hword⟩

/-- In the built-in language a number is a sentence of every non-terminal but the tails, and of
those nothing is one. -/
theorem exists_sentence_expression (name : String)
    (hname : Expression.catalog.isNonterminal name = true) :
    ∃ word, Expression.catalog.Sentence Expression.productions name word := by
  let shortest := fun name : String =>
    if name ∈ ["EXPR_TAIL", "MULT_EXPR_TAIL"] then []
    else [Token.mk "NUMBER" ⟨1, 1⟩ ⟨1, 2⟩ "1"]
  let last := Token.mk "EPSILON" ⟨1, 2⟩ ⟨1, 2⟩ ""
  have haccepted : ∀ name ∈ Expression.catalog.nonterminals,
      ((start name).acceptAll Expression.grammar (shortest name ++ [last])).accepted = true := by
    decide +kernel
  have hkinds : ∀ name ∈ Expression.catalog.nonterminals, name ≠ "EPSILON" ∧
      ∀ token ∈ shortest name, Expression.grammar.isNonterminal token.kind = false ∧
        token.kind ≠ "EPSILON" := by decide +kernel
  have hmem := Catalog.isNonterminal_iff.mp hname
  have hcontains : Expression.catalog.contains name = true := by
    rw [Catalog.contains, hname, Bool.or_true]
  refine ⟨(shortest name).map (·.kind), (Grammar.sentence_iff_yields
    Expression.wellFormed_grammar.catalog Expression.build_grammar hcontains).mpr ?_⟩
  exact yields_of_accepted Expression.wellFormed_grammar Expression.noHiddenLeftRecursion_grammar
    Expression.epsilonFree_grammar (hkinds name hmem).1 rfl (hkinds name hmem).2
    (haccepted name hmem)

/-- A sign after a number: not yet a sentence, and one that goes on with an operand. A second
operator is a fault, since no sentence begins like that. -/
theorem earliest_fault_sign :
    let token := fun kind text => Token.mk kind ⟨1, 1⟩ ⟨1, 2⟩ text
    let sign := [token "NUMBER" "1", token "PLUSMIN" "+"]
    let twice := [token "NUMBER" "1", token "MULTDIV" "*", token "MULTDIV" "*"]
    let parser := start "EXPR"
    let g := Expression.grammar
    let Sentence := Expression.catalog.Sentence Expression.productions "EXPR"
    g.parser "EXPR" = .ok parser ∧ g.EpsilonFree ∧ g.Predictive "EXPR" ∧
    (parser.acceptAll g sign).fault = none ∧
    (∃ more, Sentence (["NUMBER", "PLUSMIN"] ++ more)) ∧
    (∃ more, Sentence (["NUMBER", "PLUSMIN"] ++ "OPEN" :: more)) ∧
    ¬ Sentence ["NUMBER", "PLUSMIN"] ∧
    (parser.acceptAll g twice).fault.isSome = true ∧
    ¬ ∃ more, Sentence (["NUMBER", "MULTDIV", "MULTDIV"] ++ more) := by
  intro token sign twice parser g Sentence
  obtain ⟨hempty, hfirst, hfollow⟩ :=
    Expression.wellFormed_grammar.predictive_iff.mp Expression.predictive_grammar
  obtain ⟨hiff, hnext⟩ := earliest_fault Expression.build_catalog Expression.build_grammar
    Expression.noHiddenLeftRecursion_grammar Expression.epsilonFree_grammar
    (rfl : g.parser "EXPR" = .ok parser) (by decide) exists_sentence_expression hempty hfirst
    hfollow sign (by decide)
  obtain ⟨hiff', -⟩ := earliest_fault Expression.build_catalog Expression.build_grammar
    Expression.noHiddenLeftRecursion_grammar Expression.epsilonFree_grammar
    (rfl : g.parser "EXPR" = .ok parser) (by decide) exists_sentence_expression hempty hfirst
    hfollow twice (by decide)
  have hfault : (parser.acceptAll g sign).fault = none := by decide +kernel
  have hopen : "OPEN" ∈ (parser.acceptAll g sign).acceptable g := by
    rw [acceptable, if_neg (by decide +kernel), mem_ascending]
    decide +kernel
  have hend : "EPSILON" ∉ (parser.acceptAll g sign).acceptable g := by
    rw [acceptable, if_neg (by decide +kernel), mem_ascending]
    decide +kernel
  have hfault' : (parser.acceptAll g twice).fault.isSome = true := by decide +kernel
  obtain ⟨hletter, hsentence⟩ := hnext hfault
  refine ⟨rfl, Expression.epsilonFree_grammar, Expression.predictive_grammar, hfault,
    hiff.mp hfault, (hletter "OPEN" (by decide)).mp hopen, fun h => hend (hsentence.mpr h),
    hfault', fun h => ?_⟩
  rw [show (parser.acceptAll g twice).fault = none from hiff'.mpr h] at hfault'
  exact Bool.false_ne_true hfault'

end Parser

end Lookahead
