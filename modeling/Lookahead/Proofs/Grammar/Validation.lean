import Lookahead.Language
import Lookahead.Proofs.Grammar.LeftRecursion

/-!
What the builders let through. A catalog and a prediction table are built by a dozen checks in a
row, over slots that are filled one by one, and each check only runs when those before it have
passed. `Valid` says the same of the symbols and productions as they are written, without any
table and in no order.

Everything about the productions is said of their `alternatives`, which is what the table is filled
with. That two of them would need one slot is a clash, which `nodup_placed_iff` puts in terms of how
they begin; and the way along first symbols is the same in the table and in the alternatives
(`leftmost_eq`). A table that was built then `Holds` the alternatives: each is in one slot,
and there is nothing else in the slots.
-/

namespace Lookahead

/-- All alternatives with the non-terminals that they belong to, in the order in which they are
written. The epsilon terminal alone counts as nothing. -/
def Productions.alternatives (productions : Productions) (epsilon : String) :
    List (String × Body) :=
  productions.flatMap fun written => written.2.map fun body =>
    (written.1, if body = [epsilon] then [] else body)

/-- Two alternatives that one token cannot tell apart: both are empty, both begin with a
non-terminal, or both begin with the same terminal. -/
inductive Body.Clash (nonterminals : List String) : Body → Body → Prop
  | empty : Clash nonterminals [] []
  | nonterminal {first second : String} {rest others : List String}
      (hfirst : first ∈ nonterminals) (hsecond : second ∈ nonterminals) :
      Clash nonterminals (first :: rest) (second :: others)
  | terminal {first : String} {rest others : List String} (hfirst : first ∉ nonterminals) :
      Clash nonterminals (first :: rest) (first :: others)

/-- An alternative of the first name begins with the second one, and that is a non-terminal. -/
def Begins (nonterminals : List String) (alternatives : List (String × Body))
    (name first : String) : Prop :=
  first ∈ nonterminals ∧ ∃ rest, (name, first :: rest) ∈ alternatives

structure Valid (terminals : List Terminal) (nonterminals : List String)
    (productions : Productions) (epsilon unmatched : Terminal) : Prop where
  nodup : (terminals.map (·.name) ++ nonterminals).Nodup
  /-- One terminal stands for the end of the input, one for unmatched input. -/
  epsilons : terminals.filter (·.epsilon) = [epsilon]
  unmatcheds : terminals.filter (·.unmatched) = [unmatched]
  epsilon_ne_unmatched : epsilon ≠ unmatched
  patterns_epsilon : epsilon.patterns = []
  patterns_unmatched : unmatched.patterns = []
  declared : ∀ written ∈ productions, written.1 ∈ nonterminals
  known : ∀ written ∈ productions, ∀ body ∈ written.2, ∀ symbol ∈ body,
    symbol ∈ terminals.map (·.name) ∨ symbol ∈ nonterminals
  inhabited : ∀ name ∈ nonterminals, ∃ bodies, (name, bodies) ∈ productions ∧ bodies ≠ []
  apart : (productions.alternatives epsilon.name).Pairwise fun one other =>
    one.1 = other.1 → ¬ Body.Clash nonterminals one.2 other.2
  acyclic : ∀ name, ¬ Relation.TransGen
    (Begins nonterminals (productions.alternatives epsilon.name)) name name

namespace Grammar

variable {terminals : List Terminal} {nonterminals : List String} {productions : Productions}
variable {epsilon unmatched : Terminal} {c : Catalog} {g : Grammar}

/-! ### Symbols -/

def marked (terminals : List Terminal) (nonterminals : List String) (epsilon unmatched : Terminal) :
    Catalog :=
  { terminals, nonterminals, epsilon := epsilon.name, unmatched := unmatched.name }

theorem wellFormed_marked (h : Valid terminals nonterminals productions epsilon unmatched) :
    (marked terminals nonterminals epsilon unmatched).WellFormed where
  nodup := h.nodup
  epsilons := by simp [marked, h.epsilons]
  unmatcheds := by simp [marked, h.unmatcheds]
  epsilon_ne_unmatched := by
    have hepsilon : epsilon ∈ terminals.filter (·.epsilon) := by simp [h.epsilons]
    have hunmatched : unmatched ∈ terminals.filter (·.unmatched) := by simp [h.unmatcheds]
    intro hname
    exact h.epsilon_ne_unmatched (List.inj_on_of_nodup_map (List.nodup_append.mp h.nodup).1
      (List.mem_filter.mp hepsilon).1 (List.mem_filter.mp hunmatched).1 hname)
  patterns_of_reserved := by
    intro t ht hreserved
    have hmem : t ∈ terminals.filter (·.epsilon) ∨ t ∈ terminals.filter (·.unmatched) := by
      simpa [Terminal.reserved, show t ∈ terminals from ht] using hreserved
    rw [h.epsilons, h.unmatcheds, List.mem_singleton, List.mem_singleton] at hmem
    rcases hmem with rfl | rfl
    · exact h.patterns_epsilon
    · exact h.patterns_unmatched

/-- In a catalog the two marked terminals can be told. -/
theorem exists_eq_marked (hc : c.WellFormed) :
    ∃ epsilon unmatched, c = marked c.terminals c.nonterminals epsilon unmatched ∧
      c.terminals.filter (·.epsilon) = [epsilon] ∧
      c.terminals.filter (·.unmatched) = [unmatched] ∧ epsilon ≠ unmatched ∧
      epsilon.patterns = [] ∧ unmatched.patterns = [] := by
  obtain ⟨epsilon, hepsilon, hname⟩ := List.map_eq_singleton_iff.mp hc.epsilons
  obtain ⟨unmatched, hunmatched, hname'⟩ := List.map_eq_singleton_iff.mp hc.unmatcheds
  have hmem : epsilon ∈ c.terminals.filter (·.epsilon) := by simp [hepsilon]
  have hmem' : unmatched ∈ c.terminals.filter (·.unmatched) := by simp [hunmatched]
  rw [List.mem_filter] at hmem hmem'
  refine ⟨epsilon, unmatched, ?_, hepsilon, hunmatched, ?_, ?_, ?_⟩
  · rw [marked, hname, hname']
  · rintro rfl
    exact hc.epsilon_ne_unmatched (hname.symm.trans hname')
  · exact hc.patterns_of_reserved _ hmem.1 (by simp [Terminal.reserved, hmem.2])
  · exact hc.patterns_of_reserved _ hmem'.1 (by simp [Terminal.reserved, hmem'.2])

theorem knows_iff :
    c.Knows productions ↔ (∀ written ∈ productions, written.1 ∈ c.nonterminals) ∧
      ∀ written ∈ productions, ∀ body ∈ written.2, ∀ symbol ∈ body,
        symbol ∈ c.terminals.map (·.name) ∨ symbol ∈ c.nonterminals := by
  simp only [Catalog.Knows, Catalog.contains, Bool.or_eq_true, Catalog.isTerminal_iff,
    Catalog.isNonterminal_iff, List.mem_map, forall_and]

/-! ### Alternatives -/

theorem get?_storedAll (c : Catalog) (productions : Productions) (name : String) :
    (c.storedAll productions).get? name = (productions.get? name).map (List.map c.stored) := by
  induction productions with
  | nil => rfl
  | cons written rest ih =>
      rw [Catalog.storedAll, List.map_cons, ← Catalog.storedAll, Table.get?_cons,
        Table.get?_cons, ih]
      by_cases h : name = written.1 <;> simp [h]

theorem bare?_eq_none_iff (hnames : productions.names.Nodup) :
    bare? c (c.storedAll productions) = none ↔
      ∀ name ∈ c.nonterminals, ∃ bodies, (name, bodies) ∈ productions ∧ bodies ≠ [] := by
  rw [bare?, List.find?_eq_none]
  refine forall₂_congr fun name _ => ?_
  simp only [← Table.get?_eq_some_iff hnames, get?_storedAll]
  cases productions.get? name <;> simp

theorem placed_storedAll : placed c (c.storedAll productions) =
    (productions.alternatives c.epsilon).map fun entry =>
      (⟨entry.1, c.leadOf entry.2⟩, entry.2) := by
  simp only [placed, Catalog.storedAll, Productions.alternatives, List.flatMap_map,
    List.map_flatMap, List.map_map]
  rfl

theorem clash_iff {one other : Body} :
    Body.Clash c.nonterminals one other ↔ c.leadOf one = c.leadOf other := by
  constructor
  · intro h
    cases h with
    | empty => rfl
    | nonterminal hfirst hsecond => simp [Catalog.leadOf, Catalog.isNonterminal, hfirst, hsecond]
    | terminal => rfl
  · intro h
    cases hlead : c.leadOf one with
    | empty =>
        obtain rfl := Catalog.empty_eq_leadOf_iff.mp hlead.symm
        obtain rfl := Catalog.empty_eq_leadOf_iff.mp (hlead.symm.trans h)
        exact .empty
    | nonterminal =>
        obtain ⟨_, _, rfl, hfirst⟩ := Catalog.nonterminal_eq_leadOf_iff.mp hlead.symm
        obtain ⟨_, _, rfl, hsecond⟩ := Catalog.nonterminal_eq_leadOf_iff.mp (hlead.symm.trans h)
        exact .nonterminal (Catalog.isNonterminal_iff.mp hfirst)
          (Catalog.isNonterminal_iff.mp hsecond)
    | terminal first =>
        obtain ⟨_, rfl, hfirst⟩ := Catalog.terminal_eq_leadOf_iff.mp hlead.symm
        obtain ⟨_, rfl, -⟩ := Catalog.terminal_eq_leadOf_iff.mp (hlead.symm.trans h)
        exact .terminal fun hmem => by simp [Catalog.isNonterminal_iff.mpr hmem] at hfirst

/-- No two alternatives need one slot when none of them clash. -/
theorem nodup_placed_iff :
    ((placed c (c.storedAll productions)).map Prod.fst).Nodup ↔
      (productions.alternatives c.epsilon).Pairwise fun one other =>
        one.1 = other.1 → ¬ Body.Clash c.nonterminals one.2 other.2 := by
  rw [placed_storedAll, List.map_map, List.Nodup, List.pairwise_map]
  simp only [clash_iff, Function.comp_apply, ne_eq, Slot.mk.injEq, not_and]

theorem mem_placed_iff {name : String} {lead : Lead} {body : Body} :
    (⟨name, lead⟩, body) ∈ placed c (c.storedAll productions) ↔
      (name, body) ∈ productions.alternatives c.epsilon ∧ lead = c.leadOf body := by
  rw [placed_storedAll, List.mem_map]
  constructor
  · rintro ⟨⟨name', body'⟩, hmem, heq⟩
    obtain ⟨⟨rfl, rfl⟩, rfl⟩ : (name' = name ∧ c.leadOf body' = lead) ∧ body' = body := by
      simpa using heq
    exact ⟨hmem, rfl⟩
  · rintro ⟨hmem, rfl⟩
    exact ⟨(name, body), hmem, rfl⟩

variable (hg : g.WellFormed)
  (hslots : g.slots = placed g.catalog (g.catalog.storedAll productions))

include hg hslots

theorem alternative?_iff_mem_alternatives {name : String} {lead : Lead} {body : Body} :
    g.alternative? name lead = some body ↔
      (name, body) ∈ productions.alternatives g.catalog.epsilon ∧ lead = g.catalog.leadOf body := by
  rw [hg.alternative?_eq_some_iff, hslots, mem_placed_iff]

/-- The way along first symbols is the same in the table and in the alternatives. -/
theorem leftmost_eq : g.Leftmost =
    Begins g.catalog.nonterminals (productions.alternatives g.catalog.epsilon) := by
  ext name first
  rw [Leftmost, leftmost?, Option.bind_eq_some_iff]
  simp only [alternative?_iff_mem_alternatives hg hslots, Catalog.nonterminal_eq_leadOf_iff, Begins]
  constructor
  · rintro ⟨_, ⟨hmem, _, rest, rfl, hfirst⟩, hhead⟩
    cases hhead
    exact ⟨Catalog.isNonterminal_iff.mp hfirst, rest, hmem⟩
  · rintro ⟨hfirst, rest, hmem⟩
    exact ⟨_, ⟨hmem, first, rest, rfl, Catalog.isNonterminal_iff.mpr hfirst⟩, rfl⟩

theorem noLeftRecursion_iff :
    g.NoLeftRecursion ↔ ∀ name, ¬ Relation.TransGen
      (Begins g.catalog.nonterminals (productions.alternatives g.catalog.epsilon)) name name := by
  rw [NoLeftRecursion, leftmost_eq hg hslots]

omit hg hslots

/-! ### Slots -/

/-- The table holds the alternatives: each of them in one slot, and nothing else. -/
structure Holds (g : Grammar) (alternatives : List (String × Body)) : Prop where
  nodup : alternatives.Nodup
  mem_empty_iff : ∀ name, name ∈ g.empty ↔ (name, []) ∈ alternatives
  mem_terminalLeads_iff : ∀ name terminal body, (terminal, body) ∈ g.terminalLeads name ↔
    (name, body) ∈ alternatives ∧ body.head? = some terminal ∧ g.isNonterminal terminal = false
  mem_nonterminalLeads_iff : ∀ name body, (name, body) ∈ g.nonterminalLeads ↔
    (name, body) ∈ alternatives ∧ ∃ first, body.head? = some first ∧ g.isNonterminal first = true
  /-- No slot holds two alternatives. -/
  nodup_empty : g.empty.Nodup
  nodup_terminalLeads : ∀ name, (g.terminalLeads name).names.Nodup
  nodup_nonterminalLeads : g.nonterminalLeads.names.Nodup
  existsUnique_slot : ∀ name body, (name, body) ∈ alternatives →
    ∃! slot, slot.nonterminal = name ∧ (slot, body) ∈ g.slots
  ne_nil_of_stores : ∀ name body, g.Stores name body → body ≠ []

theorem holds_alternatives (hg : g.WellFormed)
    (hslots : g.slots = placed g.catalog (g.catalog.storedAll productions)) :
    g.Holds (productions.alternatives g.catalog.epsilon) where
  nodup := by
    have hnodup := hg.nodup
    rw [hslots, placed_storedAll, List.map_map] at hnodup
    exact hnodup.of_map
  mem_empty_iff name := by
    rw [hg.mem_empty_iff, hg.hasEmpty_iff, alternative?_iff_mem_alternatives hg hslots,
      Catalog.empty_eq_leadOf_iff, and_iff_left rfl]
  mem_terminalLeads_iff name terminal body := by
    rw [hg.mem_terminalLeads_iff, alternative?_iff_mem_alternatives hg hslots,
      Catalog.terminal_eq_leadOf_iff, exists_and_right, ← List.head?_eq_some_iff, isNonterminal]
  mem_nonterminalLeads_iff name body := by
    simp only [hg.mem_nonterminalLeads_iff, alternative?_iff_mem_alternatives hg hslots,
      Catalog.nonterminal_eq_leadOf_iff, exists_and_right, ← List.head?_eq_some_iff, isNonterminal]
  nodup_empty := hg.nodup_empty
  nodup_terminalLeads := hg.nodup_names_terminalLeads
  nodup_nonterminalLeads := hg.nodup_names_nonterminalLeads
  existsUnique_slot name body hmem := by
    refine ⟨⟨name, g.catalog.leadOf body⟩, ⟨rfl, ?_⟩, ?_⟩
    · rw [hslots, mem_placed_iff]
      exact ⟨hmem, rfl⟩
    · rintro ⟨owner, lead⟩ ⟨rfl, hslot⟩
      rw [hslots, mem_placed_iff] at hslot
      rw [hslot.2]
  ne_nil_of_stores name body h := (hg.stores_iff.mp h).1

/-! ### Building -/

/-- The catalog of the symbols, and the table of the productions over it. -/
def ofSymbols (terminals : List Terminal) (nonterminals : List String)
    (productions : Productions) : Except BuildFault Grammar := do
  let catalog ← (Catalog.build terminals nonterminals).mapError .catalog
  (build catalog productions).mapError .grammar

theorem ofSymbols_eq_ok_iff :
    ofSymbols terminals nonterminals productions = .ok g ↔
      ∃ c, Catalog.build terminals nonterminals = .ok c ∧ build c productions = .ok g := by
  simp only [ofSymbols, bind_eq_ok, mapError_eq_ok]

theorem valid_of_build (hnames : productions.names.Nodup)
    (hc : Catalog.build terminals nonterminals = .ok c) (hg : build c productions = .ok g) :
    ∃ epsilon unmatched, Valid terminals nonterminals productions epsilon unmatched := by
  obtain ⟨rfl, rfl, hwf⟩ := Catalog.build_eq_ok_iff.mp hc
  obtain ⟨hknows, hbare, hnodup, rfl, hcycle⟩ := build_eq_ok_iff.mp hg
  obtain ⟨epsilon, unmatched, heq, hepsilon, hunmatched, hne, hpatterns, hpatterns'⟩ :=
    exists_eq_marked hwf
  have hmark : c.epsilon = epsilon.name := congrArg Catalog.epsilon heq
  have hacyclic := (noLeftRecursion_iff (wellFormed_placed hwf hknows hbare hnodup) rfl).mp
    (leftRecursion?_eq_none_iff.mp hcycle)
  obtain ⟨hdeclared, hsymbols⟩ := knows_iff.mp hknows
  refine ⟨epsilon, unmatched, hwf.nodup, hepsilon, hunmatched, hne, hpatterns, hpatterns',
    hdeclared, hsymbols, (bare?_eq_none_iff hnames).mp hbare, ?_, ?_⟩
  · rw [← hmark]
    exact nodup_placed_iff.mp hnodup
  · rw [← hmark]
    exact hacyclic

theorem exists_build_of_valid (hnames : productions.names.Nodup)
    (h : Valid terminals nonterminals productions epsilon unmatched) :
    ∃ c g, Catalog.build terminals nonterminals = .ok c ∧ build c productions = .ok g := by
  have hwf := wellFormed_marked h
  have hknows : (marked terminals nonterminals epsilon unmatched).Knows productions :=
    knows_iff.mpr ⟨h.declared, h.known⟩
  have hbare := (bare?_eq_none_iff (c := marked terminals nonterminals epsilon unmatched)
    hnames).mpr h.inhabited
  have hnodup := (nodup_placed_iff (c := marked terminals nonterminals epsilon unmatched)).mpr
    h.apart
  have hacyclic := (noLeftRecursion_iff (wellFormed_placed hwf hknows hbare hnodup) rfl).mpr
    h.acyclic
  exact ⟨_, _, Catalog.build_eq_ok_iff.mpr ⟨rfl, rfl, hwf⟩,
    build_eq_ok_iff.mpr ⟨hknows, hbare, hnodup, rfl, leftRecursion?_eq_none_iff.mpr hacyclic⟩⟩

/-- **Validation is exact.** A catalog and a table are built from precisely those symbols and
productions that are valid, and otherwise one of the two builders says what is wrong. A table that
was built holds each alternative in one slot, and nothing else. -/
theorem ofSymbols_exact (hnames : productions.names.Nodup) :
    ((∃ g, ofSymbols terminals nonterminals productions = .ok g) ↔
      ∃ epsilon unmatched, Valid terminals nonterminals productions epsilon unmatched) ∧
    (∀ g, ofSymbols terminals nonterminals productions = .ok g →
      g.Holds (productions.alternatives g.catalog.epsilon)) ∧
    ∀ fault, ofSymbols terminals nonterminals productions = .error fault →
      (∃ cause, fault = .catalog cause) ∨ ∃ cause, fault = .grammar cause := by
  refine ⟨⟨?_, ?_⟩, ?_, ?_⟩
  · rintro ⟨g, h⟩
    obtain ⟨c, hc, hg⟩ := ofSymbols_eq_ok_iff.mp h
    exact valid_of_build hnames hc hg
  · rintro ⟨epsilon, unmatched, h⟩
    obtain ⟨c, g, hc, hg⟩ := exists_build_of_valid hnames h
    exact ⟨g, ofSymbols_eq_ok_iff.mpr ⟨c, hc, hg⟩⟩
  · intro g h
    obtain ⟨c, hc, hg⟩ := ofSymbols_eq_ok_iff.mp h
    have hwf := wellFormed_of_build (Catalog.build_eq_ok_iff.mp hc).2.2 hg
    obtain ⟨rfl, hslots⟩ := slots_of_build hg
    exact holds_alternatives hwf hslots
  · intro fault h
    unfold ofSymbols at h
    cases hc : Catalog.build terminals nonterminals with
    | error cause =>
        rw [hc] at h
        exact .inl ⟨cause, (Except.error.inj h).symm⟩
    | ok c =>
        rw [hc] at h
        change (build c productions).mapError .grammar = .error fault at h
        cases hg : build c productions with
        | error cause =>
            rw [hg] at h
            exact .inr ⟨cause, (Except.error.inj h).symm⟩
        | ok g =>
            rw [hg] at h
            cases h

/-- Three terminals with a pattern, and the two without. -/
def letterTerminals : List Terminal := [
  { name := "END", epsilon := true },
  { name := "OTHER", unmatched := true },
  { name := "a", patterns := ["a"] },
  { name := "b", patterns := ["b"] },
  { name := "c", patterns := ["c"] }]

/-- Alternatives of all three kinds, with the end of the input written for an empty one. Writing the
empty one a second time makes them clash. -/
theorem ofSymbols_exact_letters :
    let written : Productions :=
      [("S", [["a", "T"], ["U", "c"]]), ("T", [["b", "T"], ["END"]]), ("U", [["c"]])]
    let twice : Productions :=
      [("S", [["a", "T"], ["U", "c"]]), ("T", [["b", "T"], ["END"], []]), ("U", [["c"]])]
    written.names.Nodup ∧ twice.names.Nodup ∧
    (∃ g, ofSymbols letterTerminals ["S", "T", "U"] written = .ok g ∧
      g.Holds [("S", ["a", "T"]), ("S", ["U", "c"]), ("T", ["b", "T"]), ("T", []), ("U", ["c"])]) ∧
    (∃ epsilon unmatched, Valid letterTerminals ["S", "T", "U"] written epsilon unmatched) ∧
    ¬ ∃ epsilon unmatched, Valid letterTerminals ["S", "T", "U"] twice epsilon unmatched := by
  intro written twice
  have hnames : written.names.Nodup := by decide
  have hnames' : twice.names.Nodup := by decide
  obtain ⟨hiff, hholds, -⟩ := @ofSymbols_exact letterTerminals ["S", "T", "U"] written hnames
  obtain ⟨hiff', -, -⟩ := @ofSymbols_exact letterTerminals ["S", "T", "U"] twice hnames'
  have hbuilt : ofSymbols letterTerminals ["S", "T", "U"] written = .ok
      { catalog := marked letterTerminals ["S", "T", "U"] letterTerminals[0] letterTerminals[1]
        slots := placed _ (Catalog.storedAll _ written) } := rfl
  refine ⟨hnames, hnames', ⟨_, hbuilt, hholds _ hbuilt⟩, hiff.mp ⟨_, hbuilt⟩, fun hvalid => ?_⟩
  obtain ⟨g, hg⟩ := hiff'.mpr hvalid
  cases hg

end Grammar

end Lookahead
