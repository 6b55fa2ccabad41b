import Lookahead.Proofs.Grammar.Validation

/-!
The order of declaration. Terminals, non-terminals, the entries of the productions and the
alternatives of an entry are all given one after another, and the builders go through them in that
order: the first alternative of a slot is the one that is kept, and a walk for left recursion
leaves out what an earlier walk has found safe. What comes of it depends on the order in one way
only, the order in which the slots are filled.

`Reorders` says of catalogs, of productions and of tables that they are the same up to order. What
is looked up in a table is found by its slot, and no two entries share one, so tables that are the
same up to order answer alike (`Reorders.alternative?_eq`). That carries over to left recursion, as
the way from a name along first symbols is looked up as well, and the other checks ask for members.
-/

namespace Lookahead

/-! ### Symbols -/

namespace Catalog

/-- The same symbols in another order. -/
structure Reorders (c d : Catalog) : Prop where
  terminals : c.terminals.Perm d.terminals
  nonterminals : c.nonterminals.Perm d.nonterminals
  epsilon_eq : c.epsilon = d.epsilon
  unmatched_eq : c.unmatched = d.unmatched

namespace Reorders

variable {c d : Catalog}

theorem symm (h : c.Reorders d) : d.Reorders c :=
  ⟨h.terminals.symm, h.nonterminals.symm, h.epsilon_eq.symm, h.unmatched_eq.symm⟩

theorem isTerminal_eq (h : c.Reorders d) : c.isTerminal = d.isTerminal := by
  funext name
  rw [Bool.eq_iff_iff, isTerminal_iff, isTerminal_iff]
  simp only [h.terminals.mem_iff]

theorem isNonterminal_eq (h : c.Reorders d) : c.isNonterminal = d.isNonterminal := by
  funext name
  rw [Bool.eq_iff_iff, isNonterminal_iff, isNonterminal_iff, h.nonterminals.mem_iff]

theorem contains_eq (h : c.Reorders d) : c.contains = d.contains := by
  funext name
  rw [contains, contains, h.isTerminal_eq, h.isNonterminal_eq]

theorem leadOf_eq (h : c.Reorders d) : c.leadOf = d.leadOf := by
  funext body
  cases body with
  | nil => rfl
  | cons first rest => rw [leadOf, leadOf, h.isNonterminal_eq]

theorem wellFormed (h : c.Reorders d) (hc : c.WellFormed) : d.WellFormed where
  nodup := ((h.terminals.map _).append h.nonterminals).nodup_iff.mp hc.nodup
  epsilons := by
    have hperm := ((h.terminals.filter (·.epsilon)).map (·.name)).symm
    rwa [hc.epsilons, List.perm_singleton, h.epsilon_eq] at hperm
  unmatcheds := by
    have hperm := ((h.terminals.filter (·.unmatched)).map (·.name)).symm
    rwa [hc.unmatcheds, List.perm_singleton, h.unmatched_eq] at hperm
  epsilon_ne_unmatched := by
    rw [← h.epsilon_eq, ← h.unmatched_eq]
    exact hc.epsilon_ne_unmatched
  patterns_of_reserved t ht := hc.patterns_of_reserved t (h.terminals.mem_iff.mpr ht)

end Reorders

/-- Symbols that are a catalog in one order are one in every order. -/
theorem exists_build_of_perm {terminals terminals' : List Terminal}
    {nonterminals nonterminals' : List String} {c : Catalog}
    (hterminals : terminals.Perm terminals') (hnonterminals : nonterminals.Perm nonterminals')
    (h : build terminals nonterminals = .ok c) :
    ∃ d, build terminals' nonterminals' = .ok d ∧ c.Reorders d := by
  obtain ⟨rfl, rfl, hc⟩ := build_eq_ok_iff.mp h
  have hreorders : c.Reorders { c with terminals := terminals', nonterminals := nonterminals' } :=
    ⟨hterminals, hnonterminals, rfl, rfl⟩
  exact ⟨_, build_eq_ok_iff.mpr ⟨rfl, rfl, hreorders.wellFormed hc⟩, hreorders⟩

end Catalog

/-! ### Productions -/

namespace Productions

/-- The same alternatives: the entries are in another order, and those of each name are. -/
def Reorders (productions others : Productions) : Prop :=
  ∃ middle : Productions, productions.Perm middle ∧
    List.Forall₂ (fun one other => one.1 = other.1 ∧ one.2.Perm other.2) middle others

namespace Reorders

variable {productions others : Productions}

theorem symm (h : productions.Reorders others) : others.Reorders productions := by
  obtain ⟨middle, hperm, halike⟩ := h
  obtain ⟨middle', halike', hperm'⟩ := List.perm_comp_forall₂ hperm halike
  exact ⟨middle', hperm'.symm, (halike'.imp fun _ _ h => ⟨h.1.symm, h.2.symm⟩).flip⟩

theorem names (h : productions.Reorders others) : productions.names.Perm others.names := by
  obtain ⟨middle, hperm, halike⟩ := h
  refine (hperm.map Prod.fst).trans (.of_eq ?_)
  clear hperm
  induction halike with
  | nil => rfl
  | cons hentry _ ih => rw [List.map_cons, hentry.1, ih, Table.names_cons]

/-- Every entry is there under its name, with its alternatives. -/
theorem exists_mem (h : productions.Reorders others) {entry : String × List Body}
    (hentry : entry ∈ productions) :
    ∃ other ∈ others, entry.1 = other.1 ∧ entry.2.Perm other.2 := by
  obtain ⟨middle, hperm, halike⟩ := h
  rw [hperm.mem_iff] at hentry
  clear hperm
  induction halike with
  | nil => simp at hentry
  | cons halike _ ih =>
      rcases List.mem_cons.mp hentry with rfl | hentry
      · exact ⟨_, List.mem_cons_self, halike⟩
      · obtain ⟨other, hother, h⟩ := ih hentry
        exact ⟨other, List.mem_cons_of_mem _ hother, h⟩

theorem alternatives (h : productions.Reorders others) (epsilon : String) :
    (productions.alternatives epsilon).Perm (others.alternatives epsilon) := by
  obtain ⟨middle, hperm, halike⟩ := h
  refine (hperm.flatMap_right _).trans ?_
  clear hperm
  induction halike with
  | nil => exact .refl _
  | @cons one other _ _ hentry _ ih =>
      rw [List.flatMap_cons, hentry.1]
      exact (hentry.2.map _).append ih

end Reorders

end Productions

/-! ### Tables -/

namespace Grammar

/-- The same table, filled in another order. -/
structure Reorders (g h : Grammar) : Prop where
  catalog : g.catalog.Reorders h.catalog
  slots : g.slots.Perm h.slots

variable {g h : Grammar}

theorem Reorders.isNonterminal_eq (hgh : g.Reorders h) : g.isNonterminal = h.isNonterminal :=
  hgh.catalog.isNonterminal_eq

/-- What is looked up is the same. -/
theorem Reorders.alternative?_eq (hgh : g.Reorders h) (hg : g.WellFormed) (hh : h.WellFormed) :
    g.alternative? = h.alternative? := by
  funext name lead
  ext body
  rw [hg.alternative?_eq_some_iff, hh.alternative?_eq_some_iff, hgh.slots.mem_iff]

theorem Reorders.noLeftRecursion (hgh : g.Reorders h) (hg : g.WellFormed) (hh : h.WellFormed)
    (hrec : g.NoLeftRecursion) : h.NoLeftRecursion := by
  have hsame : g.Leftmost = h.Leftmost := by
    funext name next
    rw [Leftmost, Leftmost, leftmost?, leftmost?, hgh.alternative?_eq hg hh]
  rwa [NoLeftRecursion, hsame] at hrec

variable {c d : Catalog} {productions others : Productions}

theorem knows_of_reorders (hcd : c.Reorders d) (hp : productions.Reorders others)
    (h : c.Knows productions) : d.Knows others := by
  intro entry hentry
  obtain ⟨other, hother, hname, hbodies⟩ := hp.symm.exists_mem hentry
  obtain ⟨hside, hsymbols⟩ := h other hother
  rw [← hcd.isNonterminal_eq, ← hcd.contains_eq, hname]
  exact ⟨hside, fun body hbody => hsymbols body (hbodies.mem_iff.mp hbody)⟩

theorem bare?_of_reorders (hcd : c.Reorders d) (hp : productions.Reorders others)
    (hnames : productions.names.Nodup) (h : bare? c (c.storedAll productions) = none) :
    bare? d (d.storedAll others) = none := by
  rw [bare?_eq_none_iff (hp.names.nodup_iff.mp hnames)]
  intro name hname
  obtain ⟨bodies, hbodies, hne⟩ :=
    (bare?_eq_none_iff hnames).mp h name (hcd.nonterminals.mem_iff.mpr hname)
  obtain ⟨⟨other, written⟩, hother, rfl, hperm⟩ := hp.exists_mem hbodies
  exact ⟨written, hother, fun hnil => hne (hperm.trans (.of_eq hnil)).eq_nil⟩

theorem placed_of_reorders (hcd : c.Reorders d) (hp : productions.Reorders others) :
    (placed c (c.storedAll productions)).Perm (placed d (d.storedAll others)) := by
  rw [placed_storedAll, placed_storedAll, hcd.leadOf_eq, hcd.epsilon_eq]
  exact (hp.alternatives _).map _

/-- Productions that are a table in one order are one in every order. -/
theorem exists_build_of_reorders (hc : c.WellFormed) (hcd : c.Reorders d)
    (hp : productions.Reorders others) (hnames : productions.names.Nodup)
    (hg : build c productions = .ok g) : ∃ h, build d others = .ok h ∧ g.Reorders h := by
  obtain ⟨hknows, hbare, hnodup, rfl, hrec⟩ := build_eq_ok_iff.mp hg
  have hslots := placed_of_reorders hcd hp
  have hknows' := knows_of_reorders hcd hp hknows
  have hbare' := bare?_of_reorders hcd hp hnames hbare
  have hnodup' := (hslots.map Prod.fst).nodup_iff.mp hnodup
  have hreorders : Reorders { catalog := c, slots := placed c (c.storedAll productions) }
      { catalog := d, slots := placed d (d.storedAll others) } := ⟨hcd, hslots⟩
  have hrec' := hreorders.noLeftRecursion (wellFormed_placed hc hknows hbare hnodup)
    (wellFormed_placed (hcd.wellFormed hc) hknows' hbare' hnodup')
    (leftRecursion?_eq_none_iff.mp hrec)
  exact ⟨_, build_eq_ok_iff.mpr
    ⟨hknows', hbare', hnodup', rfl, leftRecursion?_eq_none_iff.mpr hrec'⟩, hreorders⟩

end Grammar

end Lookahead
