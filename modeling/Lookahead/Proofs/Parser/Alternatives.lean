import Lookahead.Proofs.Grammar.Validation
import Lookahead.Proofs.Parser.Prefixes

/-!
Which alternative a token selects, and which one it ought to. An alternative is predicted by a token
if it derives something that begins with the token, or derives nothing and the token can come next
(`Catalog.Predicts`); that is a matter of the written grammar, and takes first and following symbols
into account. The table does not: the parser looks for an alternative that begins with the token,
then takes the one that begins with a non-terminal, then the empty one (`Grammar.choice?`).

So a predicted alternative can be passed over for one that comes before it in this order. When is
said by `PassedOver`, in terms of how the alternatives begin, and it is the only reason for another
choice (`exists_choice?`). Where every non-terminal derives something, no alternative is passed over
just if one token never predicts two alternatives and the empty alternative is not predicted at all
next to one that begins with a non-terminal.
-/

namespace Lookahead

/-! ### Predictions -/

namespace Catalog

variable (c : Catalog) (productions : Productions) (root : String)

/-- The symbol occurs in something that the root derives. -/
def Reaches (name : String) : Prop :=
  ∃ front back, (c.contextFree productions root).Derives [c.symbol root]
    (front ++ c.symbol name :: back)

/-- The alternative can be the right one for a non-terminal when the token comes next. The epsilon
terminal stands for the end of the input. -/
inductive Predicts (name : String) (body : Body) (kind : String) : Prop
  | first {word : List String} (hword : ∀ letter ∈ word, c.isTerminal letter = true)
      (h : (c.contextFree productions root).Derives (body.map c.symbol)
        ((kind :: word).map Symbol.terminal))
  | next {front back : List (Symbol String String)}
      (hnothing : (c.contextFree productions root).Derives (body.map c.symbol) [])
      (h : (c.contextFree productions root).Derives [c.symbol root]
        (front ++ c.symbol name :: .terminal kind :: back))
  | last {front : List (Symbol String String)}
      (hnothing : (c.contextFree productions root).Derives (body.map c.symbol) [])
      (hkind : kind = c.epsilon)
      (h : (c.contextFree productions root).Derives [c.symbol root] (front ++ [c.symbol name]))

/-- No token predicts two alternatives of a non-terminal that the root leads to. -/
def TellsApart : Prop :=
  ∀ name one other kind, c.Reaches productions root name → c.isTerminal kind = true →
    (name, one) ∈ productions.alternatives c.epsilon →
    (name, other) ∈ productions.alternatives c.epsilon →
    c.Predicts productions root name one kind → c.Predicts productions root name other kind →
    one = other

/-- No token predicts the empty alternative of a non-terminal that has one that begins with a
non-terminal. -/
def FallsBackOnce : Prop :=
  ∀ name first kind, c.Reaches productions root name → c.isTerminal kind = true →
    Begins c.nonterminals (productions.alternatives c.epsilon) name first →
    (name, []) ∈ productions.alternatives c.epsilon →
    ¬ c.Predicts productions root name [] kind

end Catalog

/-- Another alternative comes before this one: it begins with the token, or it begins with a
non-terminal while this one is empty. -/
inductive PassedOver (nonterminals : List String) (alternatives : List (String × Body))
    (name : String) (body : Body) (kind : String) : Prop
  | lead {rest : List String} (hmem : (name, kind :: rest) ∈ alternatives)
      (hne : body ≠ kind :: rest)
  | fallback {first : String} (hbegins : Begins nonterminals alternatives name first)
      (hempty : body = [])

namespace Grammar

variable {g : Grammar} {productions : Productions} {c : Catalog}
variable {root name kind : String} {body other : Body}

/-! ### The choice of the parser -/

def choice? (g : Grammar) (name kind : String) : Option Body :=
  (g.select? name kind).or (g.alternative? name .empty)

theorem choice?_eq_of_lead (h : g.alternative? name (.terminal kind) = some body) :
    g.choice? name kind = some body := by
  rw [choice?, select?_eq_some_iff.mpr (.inl h), Option.some_or]

theorem choice?_eq_of_fallback (hlead : g.alternative? name (.terminal kind) = none)
    (h : g.alternative? name .nonterminal = some body) : g.choice? name kind = some body := by
  rw [choice?, select?_eq_some_iff.mpr (.inr ⟨hlead, h⟩), Option.some_or]

theorem choice?_eq_of_empty (hlead : g.alternative? name (.terminal kind) = none)
    (hfallback : g.alternative? name .nonterminal = none) :
    g.choice? name kind = g.alternative? name .empty := by
  rw [choice?, select?_eq_none_iff.mpr ⟨hlead, hfallback⟩, Option.none_or]

/-- An alternative that begins with a terminal is predicted by no other one. -/
theorem eq_of_predicts (hc : g.catalog.WellFormed)
    (hg : build g.catalog productions = .ok g) (hkind : g.catalog.isTerminal kind = true)
    (h : g.catalog.Predicts productions root name body kind) {first : String} {others : List String}
    (hbody : body = first :: others) (hfirst : g.isNonterminal first = false) : first = kind := by
  subst hbody
  -- what begins with a terminal becomes a word that does, and not nothing
  have hbegins : ∀ {word : List String}, g.Yields (first :: others) word →
      ∃ tail, word = first :: tail := by
    intro word hyields
    cases hyields with
    | terminal => exact ⟨_, rfl⟩
    | expand halt =>
        simp [(wellFormed_of_build hc hg).isNonterminal_of_alternative halt] at hfirst
  have hnothing : ¬ (g.catalog.contextFree productions root).Derives
      ((first :: others).map g.catalog.symbol) [] := by
    intro h
    have hyields : g.Yields (first :: others) [] := (derives_iff_yields hc hg (by simp)).mp h
    obtain ⟨tail, htail⟩ := hbegins hyields
    cases htail
  cases h with
  | first hword h =>
      have hletters : ∀ letter ∈ kind :: _, g.isNonterminal letter = false :=
        List.forall_mem_cons.mpr ⟨hc.not_isNonterminal hkind,
          fun letter hletter => hc.not_isNonterminal (hword letter hletter)⟩
      obtain ⟨tail, htail⟩ := hbegins ((derives_iff_yields hc hg hletters).mp h)
      exact (List.cons.inj htail).1.symm
  | next h => exact absurd h hnothing
  | last h => exact absurd h hnothing

/-- A predicted alternative is one of the three that the choice is made from. -/
theorem slot_of_predicts (hc : g.catalog.WellFormed) (hg : build g.catalog productions = .ok g)
    (hkind : g.catalog.isTerminal kind = true)
    (hmem : (name, body) ∈ productions.alternatives g.catalog.epsilon)
    (h : g.catalog.Predicts productions root name body kind) :
    g.alternative? name (.terminal kind) = some body ∨
      g.alternative? name .nonterminal = some body ∨
      g.alternative? name .empty = some body ∧ body = [] := by
  have hwf := wellFormed_of_build hc hg
  have hslot : g.alternative? name (g.catalog.leadOf body) = some body :=
    (alternative?_iff_mem_alternatives hwf (slots_of_build hg).2).mpr ⟨hmem, rfl⟩
  cases hlead : g.catalog.leadOf body with
  | terminal first =>
      rw [hlead] at hslot
      obtain ⟨others, hbody, hfirst⟩ := hwf.eq_cons_of_terminal hslot
      obtain rfl := eq_of_predicts hc hg hkind h hbody hfirst
      exact .inl hslot
  | nonterminal => exact .inr (.inl (hlead ▸ hslot))
  | empty =>
      rw [hlead] at hslot
      exact .inr (.inr ⟨hslot, hwf.eq_nil_of_empty hslot⟩)

/-- What comes before an alternative is found in the table. -/
theorem passedOver_iff (hc : g.catalog.WellFormed) (hg : build g.catalog productions = .ok g)
    (hkind : g.catalog.isTerminal kind = true) :
    PassedOver g.catalog.nonterminals (productions.alternatives g.catalog.epsilon) name body kind ↔
      (∃ lead, g.alternative? name (.terminal kind) = some lead ∧ body ≠ lead) ∨
        (∃ fallback, g.alternative? name .nonterminal = some fallback) ∧ body = [] := by
  have hwf := wellFormed_of_build hc hg
  have hiff {lead : Lead} {body : Body} : g.alternative? name lead = some body ↔
      (name, body) ∈ productions.alternatives g.catalog.epsilon ∧ lead = g.catalog.leadOf body :=
    alternative?_iff_mem_alternatives hwf (slots_of_build hg).2
  constructor
  · rintro (⟨hmem, hne⟩ | ⟨⟨hfirst, rest, hmem⟩, hempty⟩)
    · refine .inl ⟨_, hiff.mpr ⟨hmem, ?_⟩, hne⟩
      exact Catalog.terminal_eq_leadOf_iff.mpr ⟨_, rfl, hc.not_isNonterminal hkind⟩
    · refine .inr ⟨⟨_, hiff.mpr ⟨hmem, ?_⟩⟩, hempty⟩
      exact Catalog.nonterminal_eq_leadOf_iff.mpr
        ⟨_, rest, rfl, Catalog.isNonterminal_iff.mpr hfirst⟩
  · rintro (⟨lead, hlead, hne⟩ | ⟨⟨fallback, hfallback⟩, hempty⟩)
    · obtain ⟨others, rfl, -⟩ := hwf.eq_cons_of_terminal hlead
      exact .lead (hiff.mp hlead).1 hne
    · obtain ⟨first, rest, rfl, hfirst⟩ := hwf.eq_cons_of_nonterminal hfallback
      exact .fallback ⟨Catalog.isNonterminal_iff.mp hfirst, rest, (hiff.mp hfallback).1⟩ hempty

/-- A lookahead selects some alternative when it predicts one, and it is that one unless that one is
passed over. -/
theorem exists_choice? (hc : g.catalog.WellFormed) (hg : build g.catalog productions = .ok g)
    (hkind : g.catalog.isTerminal kind = true)
    (hmem : (name, body) ∈ productions.alternatives g.catalog.epsilon)
    (h : g.catalog.Predicts productions root name body kind) :
    ∃ other, (name, other) ∈ productions.alternatives g.catalog.epsilon ∧
      g.choice? name kind = some other ∧
      (other = body ↔ ¬ PassedOver g.catalog.nonterminals
        (productions.alternatives g.catalog.epsilon) name body kind) := by
  have hwf := wellFormed_of_build hc hg
  have hwritten {lead : Lead} {body : Body} (hslot : g.alternative? name lead = some body) :
      (name, body) ∈ productions.alternatives g.catalog.epsilon :=
    ((alternative?_iff_mem_alternatives hwf (slots_of_build hg).2).mp hslot).1
  have hslot := slot_of_predicts hc hg hkind hmem h
  simp only [passedOver_iff hc hg hkind]
  -- the three places in which the choice looks, in its order
  cases hlead : g.alternative? name (.terminal kind) with
  | some lead =>
      refine ⟨lead, hwritten hlead, choice?_eq_of_lead hlead, ?_⟩
      obtain ⟨others, rfl, -⟩ := hwf.eq_cons_of_terminal hlead
      by_cases hbody : body = kind :: others <;> simp [hbody, eq_comm]
  | none =>
      cases hfallback : g.alternative? name .nonterminal with
      | some fallback =>
          refine ⟨fallback, hwritten hfallback, choice?_eq_of_fallback hlead hfallback, ?_⟩
          obtain ⟨first, others, rfl, -⟩ := hwf.eq_cons_of_nonterminal hfallback
          rcases hslot with hslot | hslot | ⟨-, rfl⟩
          · simp [hlead] at hslot
          · simp [← Option.some.inj (hfallback.symm.trans hslot)]
          · simp
      | none =>
          simp only [hlead, hfallback, reduceCtorEq, false_or] at hslot
          refine ⟨body, hmem, (choice?_eq_of_empty hlead hfallback).trans hslot.1, ?_⟩
          simp

end Grammar

namespace Parser

variable {g : Grammar} {productions : Productions} {c : Catalog}
variable {root name kind : String} {body other : Body}
variable {p : Parser} {token : Token} {rest before : List String}

/-! ### The step -/

/-- The parser after an expansion. An empty alternative becomes a node at once. -/
def expanded (p : Parser) (name : String) (body : Body) (rest : List String) (place : Position) :
    Parser :=
  if body = [] then receive { p with expected := rest } (Node.spanning name [] place) place
  else { p with
    expected := body ++ rest
    builders := { kind := name, size := body.length } :: p.builders }

@[simp] theorem expected_expanded (p : Parser) (name : String) (body : Body) (rest : List String)
    (place : Position) : (p.expanded name body rest place).expected = body ++ rest := by
  unfold expanded
  split
  · rename_i hbody
    rw [hbody, List.nil_append]
    rfl
  · rfl

theorem eq_of_expanded {place : Position}
    (h : p.expanded name body rest place = p.expanded name other rest place) : body = other := by
  have hexpected := congrArg Parser.expected h
  rw [expected_expanded, expected_expanded] at hexpected
  exact List.append_cancel_right hexpected

theorem step_of_choice? (hg : g.WellFormed) (hname : g.isNonterminal name = true)
    (hkind : g.isNonterminal kind = false) (hchoice : g.choice? name kind = some body)
    (htoken : token.kind = kind) (hexpected : p.expected = name :: rest) :
    step g before token p = .more (p.expanded name body rest token.start) := by
  subst htoken
  have hne := Grammar.ne_of_isNonterminal hname hkind
  rw [step_eq_more_iff]
  rcases Option.or_eq_some_iff.mp hchoice with hselect | ⟨hselect, hempty⟩
  · have hbody : body ≠ [] := (hg.stores_iff.mp (hg.stores_of_select? hselect)).1
    refine .inl ⟨name, body, rest, ?_, by rw [expanded, if_neg hbody]⟩
    exact Grammar.move_eq_expand_iff.mpr ⟨hexpected, hne, hname, hselect⟩
  · obtain rfl := hg.eq_nil_of_empty hempty
    refine .inr ⟨name, rest, ?_, by rw [expanded, if_pos rfl]⟩
    exact Grammar.move_eq_vanish_iff.mpr
      ⟨hexpected, hne, hname, hselect, hg.hasEmpty_iff.mpr hempty⟩

/-- The next step of every parser with the non-terminal in front expands it by the alternative, when
the token at hand is of the kind. -/
def Expands (g : Grammar) (name : String) (body : Body) (kind : String) : Prop :=
  ∀ (p : Parser) (token : Token) (rest before : List String), token.kind = kind →
    p.expected = name :: rest →
    step g before token p = .more (p.expanded name body rest token.start)

theorem Expands.unique (h : Expands g name body kind) (h' : Expands g name other kind) :
    body = other := by
  let p : Parser := start name
  let token := Token.mk kind ⟨1, 1⟩ ⟨1, 1⟩ ""
  have hmore := h p token [] [] rfl rfl
  rw [h' p token [] [] rfl rfl] at hmore
  exact (eq_of_expanded (Progress.more.inj hmore)).symm

/-- A lookahead that predicts an alternative makes the parser expand, and by that alternative unless
it is passed over. -/
theorem exists_expands (hc : g.catalog.WellFormed)
    (hg : Grammar.build g.catalog productions = .ok g)
    (hkind : g.catalog.isTerminal kind = true)
    (hmem : (name, body) ∈ productions.alternatives g.catalog.epsilon)
    (h : g.catalog.Predicts productions root name body kind) :
    ∃ other, (name, other) ∈ productions.alternatives g.catalog.epsilon ∧
      Expands g name other kind ∧ (other = body ↔ ¬ PassedOver g.catalog.nonterminals
        (productions.alternatives g.catalog.epsilon) name body kind) := by
  have hwf := Grammar.wellFormed_of_build hc hg
  obtain ⟨other, hother, hchoice, hiff⟩ := Grammar.exists_choice? hc hg hkind hmem h
  have hname : g.isNonterminal name = true := hwf.isNonterminal_of_alternative?
    ((Grammar.alternative?_iff_mem_alternatives hwf (Grammar.slots_of_build hg).2).mpr ⟨hmem, rfl⟩)
  exact ⟨other, hother, fun p token rest before htoken hexpected =>
    step_of_choice? hwf hname (hc.not_isNonterminal hkind) hchoice htoken hexpected, hiff⟩

/-! ### Grammars that one token decides -/

theorem productive_of_sentences (hc : g.catalog.WellFormed)
    (hg : Grammar.build g.catalog productions = .ok g)
    (h : ∀ name, g.catalog.isNonterminal name = true →
      ∃ word, g.catalog.Sentence productions name word) : g.Productive := by
  intro name hname
  obtain ⟨word, hword⟩ := h name hname
  have hknown : g.catalog.contains name = true := by
    rw [Catalog.contains, show g.catalog.isNonterminal name = true from hname, Bool.or_true]
  exact ⟨word, (Grammar.sentence_iff_yields hc hg hknown).mp hword⟩

theorem predicts_lead (hc : g.catalog.WellFormed) (hg : Grammar.build g.catalog productions = .ok g)
    (hproductive : g.Productive) (hkind : g.catalog.isTerminal kind = true) {others : List String}
    (hmem : (name, kind :: others) ∈ productions.alternatives g.catalog.epsilon) :
    g.catalog.Predicts productions root name (kind :: others) kind := by
  have hwf := Grammar.wellFormed_of_build hc hg
  have hslot := (Grammar.alternative?_iff_mem_alternatives hwf (Grammar.slots_of_build hg).2).mpr
    ⟨hmem, rfl⟩
  obtain ⟨word, hword⟩ := hproductive.exists_yields others
  have hterminals := hwf.isTerminal_of_yields hword fun symbol hsymbol =>
    hwf.contains_of_alternative? hslot (List.mem_cons_of_mem _ hsymbol)
  exact .first hterminals
    (Grammar.derives_of_yields hc hg (.terminal (hc.not_isNonterminal hkind) hword))

/-- **Which alternatives are passed over.** For every grammar that can be built, a token that
predicts an alternative makes the parser expand by that alternative, unless another one comes
before it: one that begins with the token, or for the empty alternative one that begins with a
non-terminal. Then the parser expands by another one. If every non-terminal derives something,
nothing is passed over just if no token predicts two alternatives of a non-terminal that the root
leads to, nor the empty one where there is one that begins with a non-terminal. -/
theorem expands_of_predicts {terminals : List Terminal} {nonterminals : List String}
    (hc : Catalog.build terminals nonterminals = .ok c)
    (hg : Grammar.build c productions = .ok g) (root : String) :
    (∀ name body kind, (name, body) ∈ productions.alternatives c.epsilon →
      c.isTerminal kind = true → c.Predicts productions root name body kind →
      (¬ PassedOver c.nonterminals (productions.alternatives c.epsilon) name body kind →
        Expands g name body kind) ∧
      (PassedOver c.nonterminals (productions.alternatives c.epsilon) name body kind →
        ∃ other, other ≠ body ∧ (name, other) ∈ productions.alternatives c.epsilon ∧
          Expands g name other kind)) ∧
    ((∀ name, c.isNonterminal name = true → ∃ word, c.Sentence productions name word) →
      ((∀ name body kind, c.Reaches productions root name →
        (name, body) ∈ productions.alternatives c.epsilon → c.isTerminal kind = true →
        c.Predicts productions root name body kind → Expands g name body kind) ↔
      c.TellsApart productions root ∧ c.FallsBackOnce productions root)) := by
  have hcatalog := (Catalog.build_eq_ok_iff.mp hc).2.2
  obtain ⟨rfl, -⟩ := Grammar.slots_of_build hg
  refine ⟨?_, fun hsentences => ⟨fun hall => ⟨?_, ?_⟩, ?_⟩⟩
  · intro name body kind hmem hkind hpredicts
    obtain ⟨other, hother, hexpands, hiff⟩ := exists_expands hcatalog hg hkind hmem hpredicts
    exact ⟨fun hnot => hiff.mpr hnot ▸ hexpands,
      fun hover => ⟨other, fun heq => hiff.mp heq hover, hother, hexpands⟩⟩
  · intro name one other kind hreaches hkind hone hother hpredicts hpredicts'
    exact (hall name one kind hreaches hone hkind hpredicts).unique
      (hall name other kind hreaches hother hkind hpredicts')
  · intro name first kind hreaches hkind hbegins hempty hpredicts
    obtain ⟨other, -, hexpands, hiff⟩ := exists_expands hcatalog hg hkind hempty hpredicts
    have heq := hexpands.unique (hall name [] kind hreaches hempty hkind hpredicts)
    exact hiff.mp heq (.fallback hbegins rfl)
  · rintro ⟨hapart, honce⟩ name body kind hreaches hmem hkind hpredicts
    obtain ⟨other, -, hexpands, hiff⟩ := exists_expands hcatalog hg hkind hmem hpredicts
    refine hiff.mpr ?_ ▸ hexpands
    rintro (⟨hlead, hne⟩ | ⟨hbegins, rfl⟩)
    · -- the alternative that comes before is predicted by the same token
      have hproductive := productive_of_sentences hcatalog hg hsentences
      exact hne (hapart name body _ kind hreaches hkind hmem hlead hpredicts
        (predicts_lead hcatalog hg hproductive hkind hlead))
    · exact honce name _ kind hreaches hkind hbegins hmem hpredicts

/-! ### An optional part -/

/-- A part that may be missing, with an alternative that begins with a non-terminal. -/
def optionalProductions : Productions :=
  [("S", [["X", "c"]]), ("X", [["Y"], []]), ("Y", [["b"]])]

def optionalCatalog : Catalog :=
  { terminals := Grammar.letterTerminals, nonterminals := ["S", "X", "Y"]
    epsilon := "END", unmatched := "OTHER" }

def optionalGrammar : Grammar where
  catalog := optionalCatalog
  slots := [(⟨"S", .nonterminal⟩, ["X", "c"]), (⟨"X", .nonterminal⟩, ["Y"]), (⟨"X", .empty⟩, []),
    (⟨"Y", .terminal "b"⟩, ["b"])]

theorem build_optionalCatalog :
    Catalog.build Grammar.letterTerminals ["S", "X", "Y"] = .ok optionalCatalog := rfl

theorem build_optionalGrammar :
    Grammar.build optionalCatalog optionalProductions = .ok optionalGrammar := rfl

theorem wellFormed_optionalCatalog : optionalGrammar.catalog.WellFormed :=
  (Catalog.build_eq_ok_iff.mp build_optionalCatalog).2.2

theorem derives_of_mem (hc : g.catalog.WellFormed)
    (hg : Grammar.build g.catalog productions = .ok g)
    (hmem : (name, body) ∈ productions.alternatives g.catalog.epsilon) (root : String) :
    (g.catalog.contextFree productions root).Derives [g.catalog.symbol name]
      (body.map g.catalog.symbol) := by
  have hwf := Grammar.wellFormed_of_build hc hg
  have hslot := (Grammar.alternative?_iff_mem_alternatives hwf (Grammar.slots_of_build hg).2).mpr
    ⟨hmem, rfl⟩
  have hrule : ContextFreeRule.mk name (body.map g.catalog.symbol) ∈
      (g.catalog.contextFree productions root).rules :=
    (Grammar.mem_rules_iff hc hg).mpr ⟨body, ⟨_, hslot⟩, rfl⟩
  have hname : g.catalog.isNonterminal name = true := hwf.isNonterminal_of_alternative? hslot
  rw [Catalog.symbol, if_pos hname, ← List.append_nil (body.map _)]
  exact .single ⟨_, hrule, .head []⟩

/-- The part is missing from a sentence, before a letter that can only follow it. -/
theorem predicts_optional :
    optionalCatalog.Reaches optionalProductions "S" "X" ∧
      optionalCatalog.Predicts optionalProductions "S" "X" [] "c" := by
  have hderives : (optionalCatalog.contextFree optionalProductions "S").Derives
      [optionalCatalog.symbol "S"] (["X", "c"].map optionalCatalog.symbol) :=
    derives_of_mem wellFormed_optionalCatalog build_optionalGrammar (by decide) "S"
  have hnext : (optionalCatalog.contextFree optionalProductions "S").Derives
      [optionalCatalog.symbol "S"] ([] ++ optionalCatalog.symbol "X" :: [.terminal "c"]) := hderives
  exact ⟨⟨[], _, hderives⟩, .next (.refl _) hnext⟩

theorem exists_sentence_optional (name : String)
    (hname : optionalCatalog.isNonterminal name = true) :
    ∃ word, optionalCatalog.Sentence optionalProductions name word := by
  have hpart : optionalGrammar.Yields ["Y"] ["b"] :=
    .expand ⟨.terminal "b", rfl⟩ (.terminal rfl .nil)
  have hmissing : optionalGrammar.Yields ["X"] [] := .expand ⟨.empty, rfl⟩ .nil
  have hwhole : optionalGrammar.Yields ["S"] ["c"] :=
    .expand ⟨.nonterminal, rfl⟩ (hmissing.append (.terminal rfl .nil))
  have hcontains : optionalCatalog.contains name = true := by
    rw [Catalog.contains, hname, Bool.or_true]
  have hmem : name = "S" ∨ name = "X" ∨ name = "Y" := by
    simpa [optionalCatalog] using Catalog.isNonterminal_iff.mp hname
  have hyields : ∃ word, optionalGrammar.Yields [name] word := by
    rcases hmem with rfl | rfl | rfl
    · exact ⟨_, hwhole⟩
    · exact ⟨_, hmissing⟩
    · exact ⟨_, hpart⟩
  obtain ⟨word, hword⟩ := hyields
  exact ⟨word, (Grammar.sentence_iff_yields wellFormed_optionalCatalog build_optionalGrammar
    hcontains).mpr hword⟩

/-- The parser takes what begins with a non-terminal all the same. -/
theorem expands_optional : Expands optionalGrammar "X" ["Y"] "c" := by
  intro p token rest before htoken hexpected
  exact step_of_choice? (Grammar.wellFormed_of_build wellFormed_optionalCatalog
    build_optionalGrammar) rfl rfl rfl htoken hexpected

/-- The empty alternative is predicted and not taken, and a sentence is refused for that. -/
theorem not_expands_of_predicts :
    let token := fun kind text => Token.mk kind ⟨1, 1⟩ ⟨1, 2⟩ text
    Catalog.build Grammar.letterTerminals ["S", "X", "Y"] = .ok optionalCatalog ∧
    Grammar.build optionalCatalog optionalProductions = .ok optionalGrammar ∧
    optionalGrammar.NoHiddenLeftRecursion ∧
    optionalCatalog.Reaches optionalProductions "S" "X" ∧
    ("X", []) ∈ optionalProductions.alternatives optionalCatalog.epsilon ∧
    optionalCatalog.Predicts optionalProductions "S" "X" [] "c" ∧
    ¬ Expands optionalGrammar "X" [] "c" ∧
    optionalCatalog.Sentence optionalProductions "S" ["c"] ∧
    ((start "S").acceptAll optionalGrammar [token "c" "c", token "END" ""]).fault =
      some ⟨token "c" "c", ["S"]⟩ := by
  intro token
  have hr : optionalGrammar.NoHiddenLeftRecursion :=
    Grammar.noHiddenLeftRecursion_of_rank (["c", "Y", "X", "S"].idxOf) (by decide)
  obtain ⟨hreaches, hpredicts⟩ := predicts_optional
  have hsentence : optionalGrammar.Yields ["S"] ["c"] :=
    .expand ⟨.nonterminal, rfl⟩ (.expand ⟨.empty, rfl⟩ (.terminal rfl .nil))
  refine ⟨rfl, rfl, hr, hreaches, by decide, hpredicts, fun h => ?_, ?_, by decide +kernel⟩
  · exact absurd (h.unique expands_optional) (by decide)
  · exact (Grammar.sentence_iff_yields wellFormed_optionalCatalog build_optionalGrammar rfl).mpr
      hsentence

/-- The part is taken when its own letter comes, and passed over otherwise. No token predicts two
alternatives, so that is because of the empty one. -/
theorem expands_of_predicts_optional :
    Expands optionalGrammar "X" ["Y"] "b" ∧
    PassedOver ["S", "X", "Y"] (optionalProductions.alternatives "END") "X" [] "c" ∧
    (∃ other, other ≠ [] ∧ ("X", other) ∈ optionalProductions.alternatives "END" ∧
      Expands optionalGrammar "X" other "c") ∧
    ¬ (optionalCatalog.TellsApart optionalProductions "S" ∧
      optionalCatalog.FallsBackOnce optionalProductions "S") := by
  obtain ⟨hreaches, hpredicts⟩ := predicts_optional
  obtain ⟨hexpands, hiff⟩ := expands_of_predicts build_optionalCatalog build_optionalGrammar "S"
  have hbegins : Begins ["S", "X", "Y"] (optionalProductions.alternatives "END") "X" "Y" :=
    ⟨by decide, [], by decide⟩
  have hover : PassedOver ["S", "X", "Y"] (optionalProductions.alternatives "END") "X" [] "c" :=
    .fallback hbegins rfl
  have hderives : (optionalCatalog.contextFree optionalProductions "S").Derives
      [optionalCatalog.symbol "Y"] (["b"].map optionalCatalog.symbol) :=
    derives_of_mem wellFormed_optionalCatalog build_optionalGrammar (by decide) "S"
  have hlead : optionalCatalog.Predicts optionalProductions "S" "X" ["Y"] "b" :=
    .first (List.forall_mem_nil _) hderives
  have hfirst : ¬ PassedOver ["S", "X", "Y"] (optionalProductions.alternatives "END")
      "X" ["Y"] "b" := by
    rintro (⟨hmem, -⟩ | ⟨-, hempty⟩)
    · simp [optionalProductions, Productions.alternatives] at hmem
    · cases hempty
  refine ⟨(hexpands "X" ["Y"] "b" (by decide) rfl hlead).1 hfirst, hover,
    (hexpands "X" [] "c" (by decide) rfl hpredicts).2 hover, fun h => ?_⟩
  have hempty := (hiff exists_sentence_optional).mpr h "X" [] "c" hreaches (by decide) rfl hpredicts
  exact absurd (hempty.unique expands_optional) (by decide)

end Parser

end Lookahead
