import Lookahead.Proofs.Grammar.Slots
import Mathlib.Computability.ContextFreeGrammar

/-!
What a table is a table of. `Catalog.contextFree` is the grammar that productions write down, with
no table and no lookahead in it, and a word is a sentence if it can be derived from the root there.

A derivation may rewrite anywhere. A parser works from the left and has a list of symbols left to
do, so between the two stands `Yields`: the words that a list of symbols can become, by rewriting
the symbol in front or by taking it off as the next letter. `derives_iff_yields` says that nothing
is lost by that.
-/

namespace Lookahead

def Catalog.symbol (c : Catalog) (name : String) : Symbol String String :=
  if c.isNonterminal name then .nonterminal name else .terminal name

/-- The context-free grammar that productions write down. -/
abbrev Catalog.contextFree (c : Catalog) (productions : Productions) (root : String) :
    ContextFreeGrammar String where
  NT := String
  initial := root
  rules := (productions.flatMap fun written => written.2.map fun body =>
    ContextFreeRule.mk written.1 ((c.stored body).map c.symbol)).toFinset

namespace Grammar

/-- The body is an alternative of the non-terminal, possibly the empty one. -/
def Alternative (g : Grammar) (nonterminal : String) (body : Body) : Prop :=
  ∃ lead, g.alternative? nonterminal lead = some body

variable {g : Grammar} {name : String} {body : Body}

theorem WellFormed.alternative_iff (hg : g.WellFormed) :
    g.Alternative name body ↔ ∃ lead, (⟨name, lead⟩, body) ∈ g.slots := by
  simp only [Alternative, hg.alternative?_eq_some_iff]

theorem WellFormed.isNonterminal_of_alternative (hg : g.WellFormed)
    (h : g.Alternative name body) : g.isNonterminal name = true := by
  obtain ⟨lead, h⟩ := h
  exact hg.isNonterminal_of_alternative? h

theorem WellFormed.alternative_of_stores (hg : g.WellFormed) (h : g.Stores name body) :
    g.Alternative name body :=
  (hg.stores_iff.mp h).2

theorem mem_rules_iff {c : Catalog} {productions : Productions} (hc : c.WellFormed)
    (hg : build c productions = .ok g) {root : String} {rule : ContextFreeRule String String} :
    rule ∈ (c.contextFree productions root).rules ↔
      ∃ body, g.Alternative rule.input body ∧ rule.output = body.map c.symbol := by
  have hwf := wellFormed_of_build hc hg
  obtain ⟨-, hslots⟩ := slots_of_build hg
  simp only [hwf.alternative_iff, hslots, mem_placed_storedAll, List.mem_toFinset,
    List.mem_flatMap, List.mem_map]
  constructor
  · rintro ⟨written, hwritten, body, hbody, rfl⟩
    exact ⟨c.stored body, ⟨_, written, hwritten, body, hbody, rfl⟩, rfl⟩
  · rintro ⟨stored, ⟨lead, written, hwritten, body, hbody, heq⟩, houtput⟩
    obtain ⟨⟨hname, -⟩, rfl⟩ : (rule.input = written.1 ∧ lead = c.leadOf (c.stored body)) ∧
        stored = c.stored body := by simpa using heq
    refine ⟨written, hwritten, body, hbody, ?_⟩
    rw [← hname, ← houtput]

/-! ### Words from the left -/

/-- The symbols can become the word, from left to right. -/
inductive Yields (g : Grammar) : List String → List String → Prop
  | nil : Yields g [] []
  | terminal {name : String} {rest word : List String} (hname : g.isNonterminal name = false)
      (h : Yields g rest word) : Yields g (name :: rest) (name :: word)
  | expand {name : String} {body : Body} {rest word : List String}
      (halt : g.Alternative name body) (h : Yields g (body ++ rest) word) :
      Yields g (name :: rest) word

namespace Yields

variable {first second rest word : List String}

theorem append {other : List String} (h : g.Yields first word) (h' : g.Yields second other) :
    g.Yields (first ++ second) (word ++ other) := by
  induction h with
  | nil => exact h'
  | terminal hname _ ih => exact .terminal hname ih
  | expand halt _ ih =>
      rw [List.append_assoc] at ih
      exact .expand halt ih

theorem exists_of_append (h : g.Yields (first ++ second) word) :
    ∃ left right, word = left ++ right ∧ g.Yields first left ∧ g.Yields second right := by
  generalize hsymbols : first ++ second = symbols at h
  induction h generalizing first with
  | nil =>
      obtain ⟨rfl, rfl⟩ := List.append_eq_nil_iff.mp hsymbols
      exact ⟨[], [], rfl, .nil, .nil⟩
  | @terminal name rest word hname h ih =>
      cases first with
      | nil =>
          rw [List.nil_append] at hsymbols
          exact ⟨[], name :: word, rfl, .nil, hsymbols ▸ .terminal hname h⟩
      | cons top others =>
          rw [List.cons_append, List.cons.injEq] at hsymbols
          obtain ⟨rfl, hrest⟩ := hsymbols
          obtain ⟨left, right, rfl, hleft, hright⟩ := ih hrest
          exact ⟨top :: left, right, rfl, .terminal hname hleft, hright⟩
  | @expand name body rest word halt h ih =>
      cases first with
      | nil =>
          rw [List.nil_append] at hsymbols
          exact ⟨[], word, rfl, .nil, hsymbols ▸ .expand halt h⟩
      | cons top others =>
          rw [List.cons_append, List.cons.injEq] at hsymbols
          obtain ⟨rfl, hrest⟩ := hsymbols
          have hbody : (body ++ others) ++ second = body ++ rest := by
            rw [List.append_assoc, hrest]
          obtain ⟨left, right, rfl, hleft, hright⟩ := ih hbody
          exact ⟨left, right, rfl, .expand halt hleft, hright⟩

/-- A word is made of terminals. -/
theorem isNonterminal_eq_false (h : g.Yields first word) :
    ∀ kind ∈ word, g.isNonterminal kind = false := by
  induction h with
  | nil => simp
  | terminal hname _ ih => exact List.forall_mem_cons.mpr ⟨hname, ih⟩
  | expand _ _ ih => exact ih

theorem of_terminals (h : ∀ kind ∈ word, g.isNonterminal kind = false) : g.Yields word word := by
  induction word with
  | nil => exact .nil
  | cons kind rest ih =>
      obtain ⟨hkind, hrest⟩ := List.forall_mem_cons.mp h
      exact .terminal hkind (ih hrest)

end Yields

/-! ### Derivations -/

def symbolName : Symbol String String → String
  | .terminal name => name
  | .nonterminal name => name

@[simp] theorem symbolName_symbol (c : Catalog) (name : String) :
    symbolName (c.symbol name) = name := by
  unfold Catalog.symbol
  split <;> rfl

@[simp] theorem map_symbolName_symbol (c : Catalog) (names : List String) :
    (names.map c.symbol).map symbolName = names := by
  rw [List.map_map]
  exact (List.map_congr_left fun name _ => symbolName_symbol c name).trans (List.map_id names)

variable {c : Catalog} {productions : Productions} {root : String} {symbols word : List String}

/-- A rewrite anywhere is undone by taking the word apart at its place. -/
theorem yields_of_produces (hc : c.WellFormed) (hg : build c productions = .ok g)
    {before after : List (Symbol String String)}
    (hstep : (c.contextFree productions root).Produces before after)
    (h : g.Yields (after.map symbolName) word) : g.Yields (before.map symbolName) word := by
  obtain ⟨rule, hrule, hrewrites⟩ := hstep
  obtain ⟨body, halt, houtput⟩ := (mem_rules_iff hc hg).mp hrule
  obtain ⟨front, back, rfl, rfl⟩ := hrewrites.exists_parts
  simp only [houtput, List.map_append, map_symbolName_symbol, List.append_assoc] at h
  obtain ⟨left, right, rfl, hleft, hright⟩ := h.exists_of_append
  have hexpand : g.Yields (rule.input :: back.map symbolName) right := .expand halt hright
  simpa [symbolName] using hleft.append hexpand

theorem yields_of_derives (hc : c.WellFormed) (hg : build c productions = .ok g)
    {before after : List (Symbol String String)}
    (hderives : (c.contextFree productions root).Derives before after)
    (h : g.Yields (after.map symbolName) word) : g.Yields (before.map symbolName) word := by
  induction hderives using Relation.ReflTransGen.head_induction_on with
  | refl => exact h
  | head hstep _ ih => exact yields_of_produces hc hg hstep ih

theorem derives_of_yields (hc : c.WellFormed) (hg : build c productions = .ok g)
    (h : g.Yields symbols word) :
    (c.contextFree productions root).Derives (symbols.map c.symbol)
      (word.map Symbol.terminal) := by
  have hcatalog := (slots_of_build hg).1
  induction h with
  | nil => exact Relation.ReflTransGen.refl
  | @terminal name rest word hname _ ih =>
      have hsymbol : c.symbol name = .terminal name := by
        rw [isNonterminal, hcatalog] at hname
        simp [Catalog.symbol, hname]
      rw [List.map_cons, List.map_cons, hsymbol]
      exact ih.append_left [.terminal name]
  | @expand name body rest word halt _ ih =>
      have hname := (wellFormed_of_build hc hg).isNonterminal_of_alternative halt
      have hsymbol : c.symbol name = .nonterminal name := by
        rw [isNonterminal, hcatalog] at hname
        simp [Catalog.symbol, hname]
      have hrule : ContextFreeRule.mk name (body.map c.symbol) ∈
          (c.contextFree productions root).rules := (mem_rules_iff hc hg).mpr ⟨body, halt, rfl⟩
      rw [List.map_append] at ih
      rw [List.map_cons, hsymbol]
      exact .head ⟨_, hrule, .head (rest.map c.symbol)⟩ ih

/-- Deriving a word of terminals anywhere and becoming it from the left are the same. -/
theorem derives_iff_yields (hc : c.WellFormed) (hg : build c productions = .ok g)
    (hword : ∀ kind ∈ word, g.isNonterminal kind = false) :
    (c.contextFree productions root).Derives (symbols.map c.symbol) (word.map Symbol.terminal) ↔
      g.Yields symbols word := by
  constructor
  · intro h
    have hyields : g.Yields ((word.map Symbol.terminal).map symbolName) word := by
      simpa [symbolName, Function.comp_def] using Yields.of_terminals hword
    have hsymbols := yields_of_derives hc hg h hyields
    rwa [map_symbolName_symbol] at hsymbols
  · exact derives_of_yields hc hg

end Grammar

end Lookahead
