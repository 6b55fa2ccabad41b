import Lookahead.Grammar.Build
import Lookahead.Proofs.Catalog

/-!
What a prediction table is, once it has been built. The builder checks the symbols of the
productions, files the alternatives one by one and looks for clashes; what it leaves behind can be
said without any of that. `Grammar.slots_of_build` gives the slots in one expression, the written
alternatives in order, each with how it begins, and `Grammar.WellFormed` lists what holds of them.

The lemmas of the last section are how every later theory reads a table. With them an alternative
that is looked up tells how it begins, and nothing has to be unfolded again.
-/

namespace Lookahead

/-- The productions with the alternatives as they are stored. -/
def Catalog.storedAll (c : Catalog) (productions : Productions) : Productions :=
  productions.map fun (name, bodies) => (name, bodies.map c.stored)

/-- Only non-terminals of the catalog have alternatives, and those consist of its symbols. -/
def Catalog.Knows (c : Catalog) (productions : Productions) : Prop :=
  ∀ entry ∈ productions, c.isNonterminal entry.1 = true ∧
    ∀ body ∈ entry.2, ∀ symbol ∈ body, c.contains symbol = true

/-! ### How an alternative begins -/

theorem Catalog.terminal_eq_leadOf_iff {c : Catalog} {terminal : String} {body : Body} :
    .terminal terminal = c.leadOf body ↔
      ∃ rest, body = terminal :: rest ∧ c.isNonterminal terminal = false := by
  cases body with
  | nil => simp [leadOf]
  | cons first rest =>
      rw [leadOf]
      constructor
      · intro h
        split at h
        · contradiction
        · rename_i hfirst
          cases h
          exact ⟨rest, rfl, by simpa using hfirst⟩
      · rintro ⟨_, heq, hfirst⟩
        cases heq
        rw [hfirst]
        rfl

theorem Catalog.nonterminal_eq_leadOf_iff {c : Catalog} {body : Body} :
    .nonterminal = c.leadOf body ↔
      ∃ first rest, body = first :: rest ∧ c.isNonterminal first = true := by
  cases body with
  | nil => simp [leadOf]
  | cons first rest => cases hfirst : c.isNonterminal first <;> simp [leadOf, hfirst]

theorem Catalog.empty_eq_leadOf_iff {c : Catalog} {body : Body} :
    .empty = c.leadOf body ↔ body = [] := by
  cases body with
  | nil => simp [leadOf]
  | cons first rest => cases hfirst : c.isNonterminal first <;> simp [leadOf, hfirst]

namespace Grammar

/-! ### Checking -/

theorem checkBody_eq_ok_iff {c : Catalog} {name : String} {body : Body} {u : Unit} :
    checkBody c name body = .ok u ↔ ∀ symbol ∈ body, c.contains symbol = true := by
  unfold checkBody
  split
  · rename_i symbol hfind
    have hbad : c.contains symbol = false := by simpa using List.find?_some hfind
    simp only [reduceCtorEq, false_iff, not_forall]
    exact ⟨symbol, List.mem_of_find?_eq_some hfind, by simp [hbad]⟩
  · rename_i hfind
    simpa using hfind

theorem checkSide_eq_ok_iff {c : Catalog} {name : String} {u : Unit} :
    checkSide c name = .ok u ↔ c.isNonterminal name = true := by
  unfold checkSide
  split
  · simp_all
  · split <;> simp_all

theorem checkedBodies_eq_ok_iff {c : Catalog} {name : String} {bodies stored : List Body} :
    checkedBodies c name bodies = .ok stored ↔
      c.isNonterminal name = true ∧ (∀ body ∈ bodies, ∀ symbol ∈ body, c.contains symbol = true) ∧
        stored = bodies.map c.stored := by
  simp only [checkedBodies, bind_eq_ok, checkSide_eq_ok_iff]
  constructor
  · rintro ⟨-, hside, h⟩
    refine ⟨hside, ?_⟩
    induction bodies generalizing stored with
    | nil => simpa [pure, Except.pure] using h.symm
    | cons body rest ih =>
        simp only [List.mapM_cons, bind_eq_ok, checkBody_eq_ok_iff, pure, Except.pure,
          Except.ok.injEq] at h
        obtain ⟨_, ⟨-, hbody, rfl⟩, others, hothers, rfl⟩ := h
        obtain ⟨hrest, rfl⟩ := ih hothers
        exact ⟨List.forall_mem_cons.mpr ⟨hbody, hrest⟩, rfl⟩
  · rintro ⟨hside, hbodies, rfl⟩
    refine ⟨(), hside, ?_⟩
    rw [mapM_eq_ok, List.map_map]
    refine List.map_congr_left fun body hbody => ?_
    rw [(checkBody_eq_ok_iff (u := ())).mpr (hbodies body hbody)]
    rfl

theorem checked_eq_ok_iff {c : Catalog} {productions stored : Productions} :
    checked c productions = .ok stored ↔
      c.Knows productions ∧ stored = c.storedAll productions := by
  induction productions generalizing stored with
  | nil =>
      simp only [checked, List.mapM_nil, pure, Except.pure, Except.ok.injEq, Catalog.storedAll,
        List.map_nil]
      exact ⟨fun h => ⟨nofun, h.symm⟩, fun h => h.2.symm⟩
  | cons entry rest ih =>
      have hcons : checked c (entry :: rest) = .ok stored ↔
          ∃ bodies others, checkedBodies c entry.1 entry.2 = .ok bodies ∧
            checked c rest = .ok others ∧ stored = (entry.1, bodies) :: others := by
        simp only [checked, List.mapM_cons, bind_eq_ok, pure, Except.pure, Except.ok.injEq]
        constructor
        · rintro ⟨_, ⟨bodies, hbodies, rfl⟩, others, hothers, rfl⟩
          exact ⟨bodies, others, hbodies, hothers, rfl⟩
        · rintro ⟨bodies, others, hbodies, hothers, rfl⟩
          exact ⟨_, ⟨bodies, hbodies, rfl⟩, others, hothers, rfl⟩
      rw [hcons]
      simp only [checkedBodies_eq_ok_iff, ih]
      constructor
      · rintro ⟨_, _, ⟨hside, hbodies, rfl⟩, ⟨hrest, rfl⟩, rfl⟩
        exact ⟨List.forall_mem_cons.mpr ⟨⟨hside, hbodies⟩, hrest⟩, rfl⟩
      · rintro ⟨hknows, rfl⟩
        obtain ⟨⟨hside, hbodies⟩, hrest⟩ := List.forall_mem_cons.mp hknows
        exact ⟨_, _, ⟨hside, hbodies, rfl⟩, ⟨hrest, rfl⟩, rfl⟩

/-! ### Filing

Without a clash, filing only copies. The inductions are over the alternatives that are still to be
filed, so they are about any filing that has been begun. -/

def Filing.addAll (f : Filing) (placed : List (Slot × Body)) : Filing :=
  placed.foldl (fun f (slot, body) => f.add slot body) f

@[simp] theorem Filing.addAll_nil (f : Filing) : f.addAll [] = f := rfl

@[simp] theorem Filing.addAll_cons (f : Filing) (slot : Slot) (body : Body)
    (rest : List (Slot × Body)) :
    f.addAll ((slot, body) :: rest) = (f.add slot body).addAll rest := rfl

theorem Filing.addAll_of_nodup {f : Filing} {placed : List (Slot × Body)}
    (h : ((f.slots ++ placed).map Prod.fst).Nodup) :
    f.addAll placed = { f with slots := f.slots ++ placed } := by
  induction placed generalizing f with
  | nil => simp
  | cons entry rest ih =>
      obtain ⟨slot, body⟩ := entry
      have hfree : f.slots.lookup slot = none := by
        rw [List.lookup_eq_none_iff]
        intro other hother
        rw [List.map_append, List.nodup_append] at h
        exact bne_iff_ne.mpr (h.2.2 _ (List.mem_map_of_mem hother) _ (by simp)).symm
      have hadd : f.add slot body = { f with slots := f.slots ++ [(slot, body)] } := by
        simp [Filing.add, hfree]
      rw [Filing.addAll_cons, hadd, ih (by simpa using h)]
      simp

theorem Filing.nodup_of_addAll {f : Filing} {placed : List (Slot × Body)}
    (hf : (f.slots.map Prod.fst).Nodup) (h : (f.addAll placed).ambiguities = []) :
    f.ambiguities = [] ∧ ((f.slots ++ placed).map Prod.fst).Nodup := by
  induction placed generalizing f with
  | nil => exact ⟨h, by simpa using hf⟩
  | cons entry rest ih =>
      obtain ⟨slot, body⟩ := entry
      rw [Filing.addAll_cons] at h
      cases hlookup : f.slots.lookup slot with
      | some first =>
          -- the clash is kept, so the list of clashes cannot end up empty
          have hadd : f.add slot body =
              { f with ambiguities := f.ambiguities ++ [⟨slot, first, body⟩] } := by
            simp [Filing.add, hlookup]
          rw [hadd] at h
          have := (ih (by simpa using hf) h).1
          simp at this
      | none =>
          have hadd : f.add slot body = { f with slots := f.slots ++ [(slot, body)] } := by
            simp [Filing.add, hlookup]
          rw [hadd] at h
          have hnew : slot ∉ f.slots.map Prod.fst := by
            intro hmem
            obtain ⟨other, hother, heq⟩ := List.mem_map.mp hmem
            have := List.lookup_eq_none_iff.mp hlookup other hother
            simp [heq] at this
          have hf' : ((f.slots ++ [(slot, body)]).map Prod.fst).Nodup := by
            rw [List.map_append, List.nodup_append]
            refine ⟨hf, by simp, fun a ha b hb => ?_⟩
            obtain rfl : b = slot := by simpa using hb
            exact fun heq => hnew (heq ▸ ha)
          obtain ⟨hamb, hnodup⟩ := ih hf' h
          exact ⟨hamb, by simpa using hnodup⟩

theorem file_ambiguities_eq_nil_iff {placed : List (Slot × Body)} :
    (file placed).ambiguities = [] ↔ (placed.map Prod.fst).Nodup := by
  constructor
  · intro h
    simpa using (Filing.nodup_of_addAll (f := {}) (by simp) h).2
  · intro h
    change (Filing.addAll {} placed).ambiguities = []
    rw [Filing.addAll_of_nodup (by simpa using h)]

theorem file_slots_of_nodup {placed : List (Slot × Body)} (h : (placed.map Prod.fst).Nodup) :
    (file placed).slots = placed := by
  change (Filing.addAll {} placed).slots = placed
  rw [Filing.addAll_of_nodup (by simpa using h)]
  simp

/-! ### Building -/

/-- The builder gives a table exactly for productions over known symbols in which every
non-terminal has an alternative, no two alternatives have one slot, and no cycle is found. -/
theorem build_eq_ok_iff {c : Catalog} {productions : Productions} {g : Grammar} :
    build c productions = .ok g ↔
      c.Knows productions ∧ bare? c (c.storedAll productions) = none ∧
        ((placed c (c.storedAll productions)).map Prod.fst).Nodup ∧
        g = { catalog := c, slots := placed c (c.storedAll productions) } ∧
        g.leftRecursion? = none := by
  simp only [build, bind_eq_ok, checked_eq_ok_iff]
  constructor
  · rintro ⟨_, ⟨hknows, rfl⟩, h⟩
    split at h
    · contradiction
    · rename_i hbare
      split at h
      · contradiction
      · rename_i hamb
        have hnodup := file_ambiguities_eq_nil_iff.mp (not_not.mp hamb)
        rw [file_slots_of_nodup hnodup] at h
        split at h
        · contradiction
        · rename_i hcycle
          cases h
          exact ⟨hknows, hbare, hnodup, rfl, hcycle⟩
  · rintro ⟨hknows, hbare, hnodup, rfl, hcycle⟩
    refine ⟨_, ⟨hknows, rfl⟩, ?_⟩
    simp only [hbare, file_ambiguities_eq_nil_iff.mpr hnodup, file_slots_of_nodup hnodup, hcycle,
      ne_eq, not_true_eq_false, if_false]

/-- Alternatives for one slot are reported when nothing is wrong with the symbols. -/
theorem build_of_ambiguous {c : Catalog} {productions : Productions} (hknows : c.Knows productions)
    (hbare : bare? c (c.storedAll productions) = none)
    (h : (file (placed c (c.storedAll productions))).ambiguities ≠ []) :
    build c productions =
      .error (.ambiguous (file (placed c (c.storedAll productions))).ambiguities) := by
  refine bind_eq_error.mpr (.inr ⟨_, checked_eq_ok_iff.mpr ⟨hknows, rfl⟩, ?_⟩)
  simp only [hbare, h, ne_eq, not_false_eq_true, if_true]

theorem build_eq_error_iff_of_nodup {c : Catalog} {productions : Productions}
    {fault : GrammarFault} (hknows : c.Knows productions)
    (hbare : bare? c (c.storedAll productions) = none)
    (hnodup : ((placed c (c.storedAll productions)).map Prod.fst).Nodup) :
    build c productions = .error fault ↔ ∃ cycle, fault = .leftRecursion cycle ∧
      leftRecursion? { catalog := c, slots := placed c (c.storedAll productions) } =
        some cycle := by
  have hchecked : checked c productions = .ok (c.storedAll productions) :=
    checked_eq_ok_iff.mpr ⟨hknows, rfl⟩
  constructor
  · intro h
    rcases bind_eq_error.mp h with h | ⟨stored, hstored, h⟩
    · rw [hchecked] at h
      contradiction
    · obtain rfl := Except.ok.inj (hchecked.symm.trans hstored)
      simp only [hbare, file_ambiguities_eq_nil_iff.mpr hnodup, file_slots_of_nodup hnodup, ne_eq,
        not_true_eq_false, if_false] at h
      split at h
      · rename_i cycle hcycle
        cases h
        exact ⟨cycle, rfl, hcycle⟩
      · contradiction
  · rintro ⟨cycle, rfl, hcycle⟩
    refine bind_eq_error.mpr (.inr ⟨_, hchecked, ?_⟩)
    simp only [hbare, file_ambiguities_eq_nil_iff.mpr hnodup, file_slots_of_nodup hnodup, hcycle,
      ne_eq, not_true_eq_false, if_false]

theorem slots_of_build {c : Catalog} {productions : Productions} {g : Grammar}
    (h : build c productions = .ok g) :
    g.catalog = c ∧ g.slots = placed c (c.storedAll productions) := by
  obtain ⟨-, -, -, rfl, -⟩ := build_eq_ok_iff.mp h
  exact ⟨rfl, rfl⟩

structure WellFormed (g : Grammar) : Prop where
  catalog : g.catalog.WellFormed
  nodup : (g.slots.map Prod.fst).Nodup
  lead_eq : ∀ entry ∈ g.slots, entry.1.lead = g.catalog.leadOf entry.2
  isNonterminal_owner : ∀ entry ∈ g.slots, g.isNonterminal entry.1.nonterminal = true
  contains : ∀ entry ∈ g.slots, ∀ symbol ∈ entry.2, g.catalog.contains symbol = true
  exists_slot : ∀ name, g.isNonterminal name = true →
    ∃ entry ∈ g.slots, entry.1.nonterminal = name

theorem mem_placed_storedAll {c : Catalog} {productions : Productions} {entry : Slot × Body} :
    entry ∈ placed c (c.storedAll productions) ↔
      ∃ written ∈ productions, ∃ body ∈ written.2,
        entry = (⟨written.1, c.leadOf (c.stored body)⟩, c.stored body) := by
  simp only [placed, Catalog.storedAll, List.flatMap_map, List.map_map, List.mem_flatMap,
    List.mem_map, Function.comp_apply, eq_comm]

/-- What is filed for productions over known symbols, with an alternative for each non-terminal and
without a clash. -/
theorem wellFormed_placed {c : Catalog} {productions : Productions} (hc : c.WellFormed)
    (hknows : c.Knows productions) (hbare : bare? c (c.storedAll productions) = none)
    (hnodup : ((placed c (c.storedAll productions)).map Prod.fst).Nodup) :
    WellFormed { catalog := c, slots := placed c (c.storedAll productions) } := by
  refine ⟨hc, hnodup, ?_, ?_, ?_, ?_⟩
  · intro entry hentry
    obtain ⟨_, -, _, -, rfl⟩ := mem_placed_storedAll.mp hentry
    rfl
  · intro entry hentry
    obtain ⟨written, hwritten, _, -, rfl⟩ := mem_placed_storedAll.mp hentry
    exact (hknows written hwritten).1
  · intro entry hentry symbol hsymbol
    obtain ⟨written, hwritten, body, hbody, rfl⟩ := mem_placed_storedAll.mp hentry
    have hmem : symbol ∈ body := by
      unfold Catalog.stored at hsymbol
      split at hsymbol
      · simp at hsymbol
      · exact hsymbol
    exact (hknows written hwritten).2 body hbody symbol hmem
  · intro name hname
    have hsome := List.find?_eq_none.mp hbare name (Catalog.isNonterminal_iff.mp hname)
    cases hget : (c.storedAll productions).get? name with
    | none => simp [hget] at hsome
    | some bodies =>
        cases bodies with
        | nil => simp [hget] at hsome
        | cons body rest =>
            refine ⟨(⟨name, c.leadOf body⟩, body), ?_, rfl⟩
            exact List.mem_flatMap.mpr ⟨(name, body :: rest), Table.mem_of_get? hget, by simp⟩

theorem wellFormed_of_build {c : Catalog} {productions : Productions} {g : Grammar}
    (hc : c.WellFormed) (h : build c productions = .ok g) : g.WellFormed := by
  obtain ⟨hknows, hbare, hnodup, rfl, -⟩ := build_eq_ok_iff.mp h
  exact wellFormed_placed hc hknows hbare hnodup

/-! ### Reading a table -/

/-- A body that is filed for a non-terminal under something that it begins with. -/
def Stores (g : Grammar) (nonterminal : String) (body : Body) : Prop :=
  (∃ terminal, (terminal, body) ∈ g.terminalLeads nonterminal) ∨
    (nonterminal, body) ∈ g.nonterminalLeads

namespace WellFormed

variable {g : Grammar} {name terminal : String} {lead : Lead} {body : Body}

theorem alternative?_eq_some_iff (hg : g.WellFormed) :
    g.alternative? name lead = some body ↔ (⟨name, lead⟩, body) ∈ g.slots := by
  rw [alternative?, List.lookup_eq_some_iff]
  constructor
  · rintro ⟨before, after, heq, -⟩
    simp [heq]
  · intro hmem
    obtain ⟨before, after, heq⟩ := List.append_of_mem hmem
    refine ⟨before, after, heq, fun other hother => ?_⟩
    have hnodup := hg.nodup
    rw [heq, List.map_append, List.nodup_append] at hnodup
    exact bne_iff_ne.mpr (hnodup.2.2 _ (List.mem_map_of_mem hother) _ (by simp)).symm

theorem lead_of_alternative? (hg : g.WellFormed) (h : g.alternative? name lead = some body) :
    lead = g.catalog.leadOf body :=
  hg.lead_eq _ (hg.alternative?_eq_some_iff.mp h)

theorem eq_cons_of_terminal (hg : g.WellFormed)
    (h : g.alternative? name (.terminal terminal) = some body) :
    ∃ rest, body = terminal :: rest ∧ g.isNonterminal terminal = false :=
  Catalog.terminal_eq_leadOf_iff.mp (hg.lead_of_alternative? h)

theorem eq_cons_of_nonterminal (hg : g.WellFormed)
    (h : g.alternative? name .nonterminal = some body) :
    ∃ first rest, body = first :: rest ∧ g.isNonterminal first = true :=
  Catalog.nonterminal_eq_leadOf_iff.mp (hg.lead_of_alternative? h)

theorem eq_nil_of_empty (hg : g.WellFormed) (h : g.alternative? name .empty = some body) :
    body = [] :=
  Catalog.empty_eq_leadOf_iff.mp (hg.lead_of_alternative? h)

theorem hasEmpty_iff (hg : g.WellFormed) :
    g.hasEmpty name = true ↔ g.alternative? name .empty = some [] := by
  rw [hasEmpty, Option.isSome_iff_exists]
  constructor
  · rintro ⟨body, h⟩
    rw [h, hg.eq_nil_of_empty h]
  · exact fun h => ⟨[], h⟩

theorem isNonterminal_of_alternative? (hg : g.WellFormed)
    (h : g.alternative? name lead = some body) : g.isNonterminal name = true :=
  hg.isNonterminal_owner _ (hg.alternative?_eq_some_iff.mp h)

theorem contains_of_alternative? (hg : g.WellFormed)
    (h : g.alternative? name lead = some body) {symbol : String} (hs : symbol ∈ body) :
    g.catalog.contains symbol = true :=
  hg.contains _ (hg.alternative?_eq_some_iff.mp h) symbol hs

theorem exists_alternative (hg : g.WellFormed) (h : g.isNonterminal name = true) :
    ∃ lead body, g.alternative? name lead = some body := by
  obtain ⟨⟨⟨owner, lead⟩, body⟩, hmem, rfl⟩ := hg.exists_slot name h
  exact ⟨lead, body, hg.alternative?_eq_some_iff.mpr hmem⟩

theorem mem_terminalLeads_iff (hg : g.WellFormed) :
    (terminal, body) ∈ g.terminalLeads name ↔
      g.alternative? name (.terminal terminal) = some body := by
  rw [hg.alternative?_eq_some_iff, terminalLeads, List.mem_filterMap]
  constructor
  · rintro ⟨⟨⟨owner, lead⟩, filed⟩, hmem, h⟩
    cases lead <;> simp at h
    obtain ⟨rfl, rfl, rfl⟩ := h
    exact hmem
  · exact fun hmem => ⟨_, hmem, by simp⟩

theorem mem_names_terminalLeads_iff (hg : g.WellFormed) :
    terminal ∈ (g.terminalLeads name).names ↔
      ∃ body, g.alternative? name (.terminal terminal) = some body := by
  simp only [Table.names, List.mem_map, Prod.exists, exists_and_right, exists_eq_right,
    hg.mem_terminalLeads_iff]

theorem mem_nonterminalLeads_iff (hg : g.WellFormed) :
    (name, body) ∈ g.nonterminalLeads ↔ g.alternative? name .nonterminal = some body := by
  rw [hg.alternative?_eq_some_iff, nonterminalLeads, List.mem_filterMap]
  constructor
  · rintro ⟨⟨⟨owner, lead⟩, filed⟩, hmem, h⟩
    simp at h
    obtain ⟨rfl, rfl, rfl⟩ := h
    exact hmem
  · exact fun hmem => ⟨_, hmem, by simp⟩

theorem mem_empty_iff (hg : g.WellFormed) : name ∈ g.empty ↔ g.hasEmpty name = true := by
  rw [hg.hasEmpty_iff, hg.alternative?_eq_some_iff, empty, List.mem_filterMap]
  constructor
  · rintro ⟨⟨⟨owner, lead⟩, filed⟩, hmem, h⟩
    simp at h
    obtain ⟨rfl, rfl⟩ := h
    obtain rfl := hg.eq_nil_of_empty (hg.alternative?_eq_some_iff.mpr hmem)
    exact hmem
  · exact fun hmem => ⟨_, hmem, by simp⟩

theorem nodup_filterMap_slots (hg : g.WellFormed) {shown : Slot × Body → Option String}
    (slot : String → Slot) (h : ∀ entry name, shown entry = some name → entry.1 = slot name) :
    (g.slots.filterMap shown).Nodup := by
  have hslots : g.slots.Pairwise fun one other => one.1 ≠ other.1 :=
    List.pairwise_map.mp hg.nodup
  refine List.pairwise_filterMap.mpr (hslots.imp fun {one other} hne name hname name' hname' => ?_)
  rintro rfl
  exact hne ((h one name hname).trans (h other name hname').symm)

theorem nodup_empty (hg : g.WellFormed) : g.empty.Nodup := by
  refine hg.nodup_filterMap_slots (⟨·, .empty⟩) ?_
  rintro ⟨⟨owner, lead⟩, body⟩ name h
  cases lead <;> simp_all

theorem nodup_names_terminalLeads (hg : g.WellFormed) (name : String) :
    (g.terminalLeads name).names.Nodup := by
  rw [Table.names, terminalLeads, List.map_filterMap]
  refine hg.nodup_filterMap_slots (⟨name, .terminal ·⟩) ?_
  rintro ⟨⟨owner, lead⟩, body⟩ terminal h
  cases lead <;> simp_all

theorem nodup_names_nonterminalLeads (hg : g.WellFormed) : g.nonterminalLeads.names.Nodup := by
  rw [Table.names, nonterminalLeads, List.map_filterMap]
  refine hg.nodup_filterMap_slots (⟨·, .nonterminal⟩) ?_
  rintro ⟨⟨owner, lead⟩, body⟩ name h
  cases lead <;> simp_all

theorem get?_terminalLeads (hg : g.WellFormed) (name terminal : String) :
    (g.terminalLeads name).get? terminal = g.alternative? name (.terminal terminal) := by
  ext body
  rw [Table.get?_eq_some_iff (hg.nodup_names_terminalLeads name), hg.mem_terminalLeads_iff]

theorem get?_nonterminalLeads (hg : g.WellFormed) (name : String) :
    g.nonterminalLeads.get? name = g.alternative? name .nonterminal := by
  ext body
  rw [Table.get?_eq_some_iff hg.nodup_names_nonterminalLeads, hg.mem_nonterminalLeads_iff]

theorem stores_iff (hg : g.WellFormed) :
    g.Stores name body ↔ body ≠ [] ∧ ∃ lead, g.alternative? name lead = some body := by
  simp only [Stores, hg.mem_terminalLeads_iff, hg.mem_nonterminalLeads_iff]
  constructor
  · rintro (⟨terminal, h⟩ | h)
    · obtain ⟨rest, rfl, -⟩ := hg.eq_cons_of_terminal h
      exact ⟨by simp, _, h⟩
    · obtain ⟨first, rest, rfl, -⟩ := hg.eq_cons_of_nonterminal h
      exact ⟨by simp, _, h⟩
  · rintro ⟨hne, lead, h⟩
    cases lead with
    | terminal terminal => exact .inl ⟨terminal, h⟩
    | nonterminal => exact .inr h
    | empty => exact absurd (hg.eq_nil_of_empty h) hne

end WellFormed

end Grammar

end Lookahead
