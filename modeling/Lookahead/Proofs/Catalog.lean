import Lookahead.Catalog
import Lookahead.Proofs.Checks
import Mathlib.Data.List.Nodup

/-!
What a catalog is, once it has been built. `Catalog.WellFormed` lists the four things that the
builder checks, each in a form that does not mention the checking, and `Catalog.build_eq_ok_iff`
says that there are no others: the symbols that are let through are exactly the well-formed ones.

Two consequences are all that later theories use. A name is a terminal or a non-terminal but never
both, and the two terminals without patterns are no kinds that a pattern could stand for.
-/

namespace Lookahead

namespace Catalog

structure WellFormed (c : Catalog) : Prop where
  nodup : (c.terminals.map (·.name) ++ c.nonterminals).Nodup
  epsilons : (c.terminals.filter (·.epsilon)).map (·.name) = [c.epsilon]
  unmatcheds : (c.terminals.filter (·.unmatched)).map (·.name) = [c.unmatched]
  epsilon_ne_unmatched : c.epsilon ≠ c.unmatched
  patterns_of_reserved : ∀ t ∈ c.terminals, t.reserved = true → t.patterns = []

/-! ### The builder lets nothing else through -/

theorem firstRepeat?_eq_none_iff {seen names : List String} :
    firstRepeat? seen names = none ↔ names.Nodup ∧ ∀ name ∈ names, name ∉ seen := by
  induction names generalizing seen with
  | nil => simp [firstRepeat?]
  | cons name rest ih =>
      unfold firstRepeat?
      split
      · rename_i hmem
        simp [hmem]
      · rename_i hmem
        rw [ih, List.nodup_cons]
        constructor
        · rintro ⟨hnodup, hseen⟩
          refine ⟨⟨fun h => hseen name h List.mem_cons_self, hnodup⟩, ?_⟩
          intro other hother
          rcases List.mem_cons.mp hother with rfl | hrest
          · exact hmem
          · exact fun h => hseen other hrest (List.mem_cons_of_mem _ h)
        · rintro ⟨⟨hnot, hnodup⟩, hseen⟩
          refine ⟨hnodup, fun other hother h => ?_⟩
          rcases List.mem_cons.mp h with rfl | h
          · exact hnot hother
          · exact hseen other (List.mem_cons_of_mem _ hother) h

theorem only_eq_ok_iff {missing : CatalogFault} {two : String → String → CatalogFault}
    {names : List String} {name : String} :
    only missing two names = .ok name ↔ names = [name] := by
  match names with
  | [] => simp [only]
  | [_] => simp [only]
  | _ :: _ :: _ => simp [only]

theorem build_eq_ok_iff {terminals : List Terminal} {nonterminals : List String} {c : Catalog} :
    build terminals nonterminals = .ok c ↔
      c.terminals = terminals ∧ c.nonterminals = nonterminals ∧ c.WellFormed := by
  unfold build
  split
  · rename_i name hrepeat
    refine ⟨nofun, ?_⟩
    rintro ⟨rfl, rfl, hc⟩
    rw [firstRepeat?_eq_none_iff.mpr ⟨hc.nodup, fun _ _ => List.not_mem_nil⟩] at hrepeat
    contradiction
  · rename_i hrepeat
    have hnodup := (firstRepeat?_eq_none_iff.mp hrepeat).1
    simp only [bind_eq_ok, only_eq_ok_iff]
    constructor
    · rintro ⟨epsilon, heps, unmatched, hunm, h⟩
      split at h
      · contradiction
      · rename_i hne
        split at h
        · contradiction
        · rename_i hpatterns
          cases h
          refine ⟨rfl, rfl, hnodup, heps, hunm, hne, fun t ht hres => ?_⟩
          simpa [hres] using List.find?_eq_none.mp hpatterns t ht
    · rintro ⟨rfl, rfl, hc⟩
      refine ⟨c.epsilon, hc.epsilons, c.unmatched, hc.unmatcheds, ?_⟩
      have hnone : (c.terminals.find? fun t => t.reserved && !t.patterns.isEmpty) = none := by
        rw [List.find?_eq_none]
        intro t ht h
        simp only [Bool.and_eq_true, Bool.not_eq_true', List.isEmpty_eq_false_iff] at h
        exact h.2 (hc.patterns_of_reserved t ht h.1)
      rw [if_neg hc.epsilon_ne_unmatched, hnone]

/-! ### Names of symbols -/

theorem isTerminal_iff {c : Catalog} {name : String} :
    c.isTerminal name = true ↔ ∃ t ∈ c.terminals, t.name = name := by
  simp [isTerminal]

theorem isNonterminal_iff {c : Catalog} {name : String} :
    c.isNonterminal name = true ↔ name ∈ c.nonterminals := by
  simp [isNonterminal]

namespace WellFormed

variable {c : Catalog}

theorem not_isNonterminal (hc : c.WellFormed) {name : String} (h : c.isTerminal name = true) :
    c.isNonterminal name = false := by
  rw [Bool.eq_false_iff, ne_eq, isNonterminal_iff]
  obtain ⟨t, ht, rfl⟩ := isTerminal_iff.mp h
  exact fun hn =>
    (List.nodup_append.mp hc.nodup).2.2 _ (List.mem_map_of_mem ht) _ hn rfl

theorem exists_epsilon (hc : c.WellFormed) :
    ∃ t ∈ c.terminals, t.epsilon = true ∧ t.name = c.epsilon := by
  have h : c.epsilon ∈ (c.terminals.filter (·.epsilon)).map (·.name) := by simp [hc.epsilons]
  obtain ⟨t, ht, hname⟩ := List.mem_map.mp h
  exact ⟨t, (List.mem_filter.mp ht).1, (List.mem_filter.mp ht).2, hname⟩

theorem exists_unmatched (hc : c.WellFormed) :
    ∃ t ∈ c.terminals, t.unmatched = true ∧ t.name = c.unmatched := by
  have h : c.unmatched ∈ (c.terminals.filter (·.unmatched)).map (·.name) := by
    simp [hc.unmatcheds]
  obtain ⟨t, ht, hname⟩ := List.mem_map.mp h
  exact ⟨t, (List.mem_filter.mp ht).1, (List.mem_filter.mp ht).2, hname⟩

theorem isTerminal_epsilon (hc : c.WellFormed) : c.isTerminal c.epsilon = true := by
  obtain ⟨t, ht, -, hname⟩ := hc.exists_epsilon
  exact isTerminal_iff.mpr ⟨t, ht, hname⟩

theorem eq_of_name_eq (hc : c.WellFormed) {t u : Terminal} (ht : t ∈ c.terminals)
    (hu : u ∈ c.terminals) (h : t.name = u.name) : t = u :=
  List.inj_on_of_nodup_map (List.nodup_append.mp hc.nodup).1 ht hu h

/-- A terminal with a pattern stands neither for the end of the input nor for unmatched input. -/
theorem ne_of_mem_patterns (hc : c.WellFormed) {name pattern : String}
    (h : (name, pattern) ∈ c.patterns) : name ≠ c.epsilon ∧ name ≠ c.unmatched := by
  simp only [Catalog.patterns, List.mem_flatMap, List.mem_map, Prod.mk.injEq] at h
  obtain ⟨t, ht, written, hwritten, rfl, rfl⟩ := h
  have hfree : ∀ u ∈ c.terminals, u.reserved = true → t.name ≠ u.name := by
    intro u hu hres hname
    obtain rfl := hc.eq_of_name_eq ht hu hname
    simp [hc.patterns_of_reserved t ht hres] at hwritten
  obtain ⟨e, he, hflag, hname⟩ := hc.exists_epsilon
  obtain ⟨u, hu, hflag', hname'⟩ := hc.exists_unmatched
  rw [← hname, ← hname']
  exact ⟨hfree e he (by simp [Terminal.reserved, hflag]),
    hfree u hu (by simp [Terminal.reserved, hflag'])⟩

end WellFormed

end Catalog

end Lookahead
