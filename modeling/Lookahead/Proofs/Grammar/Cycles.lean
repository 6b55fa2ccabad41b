import Lookahead.Proofs.Grammar.Validation

/-!
The nested loop that looks for left recursion, without a bound on its steps. A walk goes from a
name to the first symbol of what it falls back to until one of three things stops it, and the
search walks from one name after another. `Walks` and `Searches` are these two loops as they are
told, with a rule for each way to go on: whatever they derive was found after finitely many steps.
The functions that the builder runs carry a number of steps, and `walks_walk` shows that it is
never used up.

Names that an earlier walk has come by are not walked through again. They lie on ways that come to
an end, so no walk that runs into a cycle meets one of them, and the walks that are cut short would
not have found anything (`Walks.of_cycle`).
-/

namespace Lookahead.Grammar

/-- What a walk along the first symbols finds from the current name on, after it has come along a
path. -/
inductive Walks (g : Grammar) (safe : List String) : List String → String → Walk → Prop
  | ended {path : List String} {current : String} (hend : g.leftmost? current = none) :
      Walks g safe path current (.clear path)
  /-- From here on an earlier walk has found nothing. -/
  | known {path : List String} {current next : String} (hnext : g.Leftmost current next)
      (hsafe : current ∈ safe) : Walks g safe path current (.clear path)
  | closed {path : List String} {current next : String} (hnext : g.Leftmost current next)
      (hsafe : current ∉ safe) (hmem : current ∈ path) :
      Walks g safe path current (.cycle (path.dropWhile (· != current) ++ [current]))
  | further {path : List String} {current next : String} {found : Walk}
      (hnext : g.Leftmost current next) (hsafe : current ∉ safe) (hnew : current ∉ path)
      (h : Walks g safe (path ++ [current]) next found) : Walks g safe path current found

/-- What the walks from one start after another find. -/
inductive Searches (g : Grammar) : List String → List String → Option (List String) → Prop
  | done {safe : List String} : Searches g safe [] none
  | found {safe rest names : List String} {start : String}
      (h : Walks g safe [] start (.cycle names)) : Searches g safe (start :: rest) (some names)
  | next {safe rest path : List String} {start : String} {found : Option (List String)}
      (h : Walks g safe [] start (.clear path)) (hrest : Searches g (safe ++ path) rest found) :
      Searches g safe (start :: rest) found

variable {g : Grammar} {safe path starts names : List String} {name next current start : String}

/-! ### The loops end -/

theorem walks_walk {n : Nat} (hway : g.OnWay path current)
    (hn : g.nonterminalLeads.length < path.length + n) :
    Walks g safe path current (walk g safe n path current) := by
  induction n generalizing path current with
  | zero =>
      have := hway.length_le
      omega
  | succ n ih =>
      unfold walk
      cases hnext : g.leftmost? current with
      | none => exact .ended hnext
      | some next =>
          dsimp only
          split
          · exact .known hnext ‹_›
          · split
            · exact .closed hnext ‹_› ‹_›
            · rename_i hsafe hnew
              have hrest := ih (hway.step hnext hnew) (by simp; omega)
              exact .further hnext hsafe hnew hrest

theorem Walks.unique {found other : Walk} (h : Walks g safe path current found)
    (h' : Walks g safe path current other) : found = other := by
  induction h with
  | ended hend => cases h' <;> simp_all [Leftmost]
  | known hnext hsafe => cases h' <;> simp_all [Leftmost]
  | closed hnext hsafe hmem => cases h' <;> simp_all [Leftmost]
  | further hnext hsafe hnew h ih =>
      cases h' with
      | ended hend => simp_all [Leftmost]
      | known _ hsafe' => exact absurd hsafe' hsafe
      | closed _ _ hmem => exact absurd hmem hnew
      | further hnext' _ _ h' =>
          obtain rfl := Option.some.inj (hnext.symm.trans hnext')
          exact ih h'

theorem searches_cycleFrom? : Searches g safe starts (cycleFrom? g safe starts) := by
  induction starts generalizing safe with
  | nil => exact .done
  | cons start rest ih =>
      have hwalk : Walks g safe [] start (walk g safe (g.nonterminalLeads.length + 1) [] start) :=
        walks_walk (onWay_nil g start) (by simp)
      unfold cycleFrom?
      split
      · rename_i names heq
        exact .found (heq ▸ hwalk)
      · rename_i path heq
        exact .next (heq ▸ hwalk) ih

theorem Searches.unique {found other : Option (List String)} (h : Searches g safe starts found)
    (h' : Searches g safe starts other) : found = other := by
  induction h with
  | done => cases h' with | done => rfl
  | found h =>
      cases h' with
      | found h' => exact congrArg some (Walk.cycle.inj (h.unique h'))
      | next h' => exact absurd (h.unique h') (by simp)
  | next h _ ih =>
      cases h' with
      | found h' => exact absurd (h.unique h') (by simp)
      | next h' hrest' =>
          obtain rfl := Walk.clear.inj (h.unique h')
          exact ih hrest'

/-! ### What is remembered hides nothing -/

/-- A walk that runs into a cycle does not come from a name whose way ends. -/
theorem Walks.not_ends (h : Walks g safe path current (.cycle names))
    (hway : g.OnWay path current) : ¬ g.Ends current := by
  generalize hfound : Walk.cycle names = found at h
  induction h with
  | ended => contradiction
  | known => contradiction
  | closed _ _ hmem => exact fun hends => hends.not_transGen (hway.transGen hmem)
  | further hnext _ hnew _ ih =>
      exact fun hends => ih (hway.step hnext hnew) hfound (Acc.inv hends hnext)

/-- Without a memory of safe names the walk runs into the same cycle. -/
theorem Walks.of_cycle (h : Walks g safe path current (.cycle names)) :
    Walks g [] path current (.cycle names) := by
  generalize hfound : Walk.cycle names = found at h
  induction h with
  | ended => contradiction
  | known => contradiction
  | closed hnext _ hmem => exact .closed hnext List.not_mem_nil hmem
  | further hnext _ hnew _ ih => exact .further hnext List.not_mem_nil hnew (ih hfound)

/-- A way that ends is clear, whatever is remembered. -/
theorem exists_walks_clear (safe : List String) (h : g.Ends start) :
    ∃ path, Walks g safe [] start (.clear path) := by
  have hwalk : Walks g safe [] start (walk g safe (g.nonterminalLeads.length + 1) [] start) :=
    walks_walk (onWay_nil g start) (by simp)
  cases hfound : walk g safe (g.nonterminalLeads.length + 1) [] start with
  | clear path => exact ⟨path, hfound ▸ hwalk⟩
  | cycle names =>
      rw [hfound] at hwalk
      exact absurd h (hwalk.not_ends (onWay_nil g start))

theorem Walks.ends_of_clear (h : Walks g safe [] start (.clear path))
    (hsafe : ∀ name ∈ safe, g.Ends name) : g.Ends start ∧ ∀ name ∈ path, g.Ends name := by
  have hsound := walk_spec (onWay_nil g start) hsafe (n := g.nonterminalLeads.length + 1) (by simp)
  rwa [(walks_walk (onWay_nil g start) (by simp)).unique h] at hsound

/-- The search reports what the first walk finds that is not clear, as if nothing were
remembered. -/
theorem Searches.exists_start (h : Searches g safe starts (some names))
    (hsafe : ∀ name ∈ safe, g.Ends name) :
    ∃ before start after, starts = before ++ start :: after ∧
      (∀ name ∈ before, ∃ path, Walks g [] [] name (.clear path)) ∧
      Walks g [] [] start (.cycle names) := by
  generalize hfound : some names = found at h
  induction h with
  | done => contradiction
  | @found _ rest _ start h =>
      obtain rfl := Option.some.inj hfound
      exact ⟨[], start, rest, rfl, nofun, h.of_cycle⟩
  | @next _ rest _ first _ h _ ih =>
      obtain ⟨hends, hpath⟩ := h.ends_of_clear hsafe
      obtain ⟨before, start, after, rfl, hclear, hcycle⟩ :=
        ih (List.forall_mem_append.mpr ⟨hsafe, hpath⟩) hfound
      exact ⟨first :: before, start, after, rfl,
        List.forall_mem_cons.mpr ⟨exists_walks_clear [] hends, hclear⟩, hcycle⟩

/-! ### Building -/

variable {terminals : List Terminal} {nonterminals : List String} {productions : Productions}
variable {c : Catalog}

/-- **The check for left recursion is exact, and names a cycle.** Let the productions be over known
symbols, with an alternative for each non-terminal and none that clash. Sending a non-terminal to
the non-terminal that an alternative of it begins with is then a partial function. The walks along
it come to an end, and so does the search. It reports something precisely when the function has a
cycle, and what it reports begins and ends with the same name, has no other name twice, and goes
from each name to the one that it is sent to. It is what the first walk finds that runs into a
cycle, if no name were ever remembered as safe. -/
theorem build_leftRecursion_exact (hc : Catalog.build terminals nonterminals = .ok c)
    (hnames : productions.names.Nodup) (hknows : c.Knows productions)
    (hinhabited : ∀ name ∈ c.nonterminals, ∃ bodies, (name, bodies) ∈ productions ∧ bodies ≠ [])
    (hapart : (productions.alternatives c.epsilon).Pairwise fun one other =>
      one.1 = other.1 → ¬ Body.Clash c.nonterminals one.2 other.2) :
    let g : Grammar := { catalog := c, slots := placed c (c.storedAll productions) }
    let sends := Begins c.nonterminals (productions.alternatives c.epsilon)
    (∀ name one other, sends name one → sends name other → one = other) ∧
    (∀ safe start, ∃! found, Walks g safe [] start found) ∧
    (∃! found, Searches g [] g.nonterminalLeads.names found) ∧
    ((∃ cycle, build c productions = .error (.leftRecursion cycle)) ↔
      ∃ name, Relation.TransGen sends name name) ∧
    ∀ cycle, build c productions = .error (.leftRecursion cycle) →
      (∃ name inner, cycle = name :: inner ++ [name] ∧ (name :: inner).Nodup) ∧
      cycle.IsChain sends ∧
      (GrammarFault.leftRecursion cycle).message =
        "Left recursion: " ++ " -> ".intercalate cycle ∧
      Searches g [] g.nonterminalLeads.names (some cycle) ∧
      ∃ before start after, g.nonterminalLeads.names = before ++ start :: after ∧
        (∀ name ∈ before, ∃ path, Walks g [] [] name (.clear path)) ∧
        Walks g [] [] start (.cycle cycle) := by
  intro g sends
  have hbare := (bare?_eq_none_iff (c := c) hnames).mpr hinhabited
  have hnodup := nodup_placed_iff.mpr hapart
  have hg : g.WellFormed :=
    wellFormed_placed (Catalog.build_eq_ok_iff.mp hc).2.2 hknows hbare hnodup
  have hsame : g.Leftmost = sends := leftmost_eq hg rfl
  have hbuild : ∀ cycle, build c productions = .error (.leftRecursion cycle) ↔
      g.leftRecursion? = some cycle := by
    intro cycle
    rw [build_eq_error_iff_of_nodup hknows hbare hnodup]
    simp [g]
  have hsearch : Searches g [] g.nonterminalLeads.names g.leftRecursion? := searches_cycleFrom?
  refine ⟨fun name one other hone hother => ?_, fun safe start => ?_,
    ⟨_, hsearch, fun found h => h.unique hsearch⟩, ?_, fun cycle h => ?_⟩
  · rw [← hsame] at hone hother
    exact Option.some.inj (hone.symm.trans hother)
  · have hwalk : Walks g safe [] start (walk g safe (g.nonterminalLeads.length + 1) [] start) :=
      walks_walk (onWay_nil g start) (by simp)
    exact ⟨_, hwalk, fun found h => h.unique hwalk⟩
  · rw [← hsame, ← not_iff_not]
    simp only [hbuild, ← Option.isSome_iff_exists, Option.not_isSome_iff_eq_none, not_exists]
    exact leftRecursion?_eq_none_iff
  · have hcycle := (hbuild cycle).mp h
    rw [hcycle] at hsearch
    obtain ⟨hclosed, hchain⟩ := isCycle_of_leftRecursion? hcycle
    exact ⟨hclosed, hsame ▸ hchain, rfl, hsearch, hsearch.exists_start (by simp)⟩

/-- A way that ends, and then one that leads into a cycle without being part of it. -/
theorem build_leftRecursion_exact_tail :
    let names := ["X", "Y", "A", "B", "C"]
    let c := marked letterTerminals names letterTerminals[0] letterTerminals[1]
    let written : Productions := [("X", [["Y", "a"]]), ("Y", [["b"], []]), ("A", [["B"], ["a"]]),
      ("B", [["C", "a"]]), ("C", [["c"], ["B"]])]
    let sends := Begins c.nonterminals (written.alternatives c.epsilon)
    let g : Grammar := { catalog := c, slots := placed c (c.storedAll written) }
    Catalog.build letterTerminals names = .ok c ∧ written.names.Nodup ∧ c.Knows written ∧
    (∀ name ∈ c.nonterminals, ∃ bodies, (name, bodies) ∈ written ∧ bodies ≠ []) ∧
    ((written.alternatives c.epsilon).Pairwise fun one other =>
      one.1 = other.1 → ¬ Body.Clash c.nonterminals one.2 other.2) ∧
    build c written = .error (.leftRecursion ["B", "C", "B"]) ∧
    (∃ name, Relation.TransGen sends name name) ∧ ["B", "C", "B"].IsChain sends ∧
    Searches g [] ["X", "A", "B", "C"] (some ["B", "C", "B"]) := by
  intro names c written sends g
  have hc : Catalog.build letterTerminals names = .ok c := rfl
  have hnames : written.names.Nodup := by decide
  have hknows : c.Knows written := by
    unfold Catalog.Knows
    decide
  have hinhabited : ∀ name ∈ c.nonterminals, ∃ bodies, (name, bodies) ∈ written ∧ bodies ≠ [] := by
    simp [c, names, written, marked]
  have hnodup : ((placed c (c.storedAll written)).map Prod.fst).Nodup := by decide
  have hapart := nodup_placed_iff.mp hnodup
  have hslots : (build c written).map Grammar.slots = .error (.leftRecursion ["B", "C", "B"]) := by
    decide +kernel
  have hbuild := map_eq_error.mp hslots
  have hleads : g.nonterminalLeads.names = ["X", "A", "B", "C"] := by decide +kernel
  obtain ⟨-, -, -, hiff, hreport⟩ :=
    build_leftRecursion_exact hc hnames hknows hinhabited hapart
  obtain ⟨-, hchain, -, hsearch, -⟩ := hreport _ hbuild
  rw [hleads] at hsearch
  exact ⟨hc, hnames, hknows, hinhabited, hapart, hbuild, hiff.mp ⟨_, hbuild⟩, hchain, hsearch⟩

end Lookahead.Grammar
