import Lookahead.Proofs.Parser.Run
import Mathlib.Data.Finset.Card
import Mathlib.Data.Finset.Filter

/-!
Why the expansions for one token come to an end. The builder of a table refuses left recursion, but
it follows first symbols only. An expansion can also reach the second symbol of an alternative
without a token being consumed, namely when the first one has become nothing, and a table with a
cycle of that kind would be expanded forever. So the theory of parsing is about tables without
hidden left recursion: `Vanishes` says which symbols can become nothing, `LeadsTo` which symbols an
expansion can bring to the front, and `NoHiddenLeftRecursion` that no symbol leads back to itself.

The expected symbols get longer and shorter while a token is at hand, so their number measures
nothing. What goes down is `potential`. A symbol that leads to others has a higher `rank` than they
have, and its `weight`, exponential in the rank, pays for everything that its alternative puts in
its place. Only symbols that can still come to the front count: those up to the first one that does
not vanish. `potential_lt_of_next?` is the step, and `potential_lt_stepBound` says that the bound
that parsers use is never met.
-/

namespace Lookahead

namespace Grammar

/-- The symbol can become nothing: by its empty alternative, or because all of the alternative that
it falls back to can. -/
inductive Vanishes (g : Grammar) : String → Prop
  | of_empty {name : String} (hnone : g.alternative? name .nonterminal = none)
      (hempty : g.hasEmpty name = true) : Vanishes g name
  | of_body {name : String} {body : Body} (hbody : g.alternative? name .nonterminal = some body)
      (hall : ∀ symbol ∈ body, Vanishes g symbol) : Vanishes g name

/-- Expanding the first symbol without a token can bring the second one to the front. -/
def LeadsTo (g : Grammar) (name symbol : String) : Prop :=
  ∃ before after, g.alternative? name .nonterminal = some (before ++ symbol :: after) ∧
    ∀ earlier ∈ before, g.Vanishes earlier

def NoHiddenLeftRecursion (g : Grammar) : Prop :=
  ∀ name, ¬ Relation.TransGen g.LeadsTo name name

/-- It is enough that symbols can be ranked such that no alternative that is fallen back to goes
up. -/
theorem noHiddenLeftRecursion_of_rank {g : Grammar} (rank : String → Nat)
    (h : ∀ entry ∈ g.slots, entry.1.lead = .nonterminal →
      ∀ symbol ∈ entry.2, rank symbol < rank entry.1.nonterminal) :
    g.NoHiddenLeftRecursion := by
  have hstep : ∀ name symbol, g.LeadsTo name symbol → rank symbol < rank name := by
    rintro name symbol ⟨before, after, hbody, -⟩
    obtain ⟨init, tail, heq, -⟩ := List.lookup_eq_some_iff.mp hbody
    exact h (⟨name, .nonterminal⟩, before ++ symbol :: after) (by simp [heq]) rfl symbol (by simp)
  have htrans : ∀ name symbol, Relation.TransGen g.LeadsTo name symbol →
      rank symbol < rank name := by
    intro name symbol hpath
    induction hpath with
    | single hlast => exact hstep _ _ hlast
    | tail _ hlast ih => exact (hstep _ _ hlast).trans ih
  exact fun name hcycle => lt_irrefl _ (htrans name name hcycle)

variable {g : Grammar}

theorem WellFormed.not_vanishes (hg : g.WellFormed) {name : String}
    (h : g.isNonterminal name = false) : ¬ g.Vanishes name := by
  intro hv
  have hnt : g.isNonterminal name = true := by
    cases hv with
    | of_empty _ hempty => exact hg.isNonterminal_of_alternative? (hg.hasEmpty_iff.mp hempty)
    | of_body hbody _ => exact hg.isNonterminal_of_alternative? hbody
  simp [h] at hnt

/-! ### Ranks -/

open Classical in
/-- The non-terminals that a symbol leads to in any number of steps, itself included. -/
noncomputable def reach (g : Grammar) (name : String) : Finset String :=
  g.catalog.nonterminals.toFinset.filter (Relation.ReflTransGen g.LeadsTo name)

theorem mem_reach_iff {name other : String} :
    other ∈ g.reach name ↔
      g.isNonterminal other = true ∧ Relation.ReflTransGen g.LeadsTo name other := by
  simp only [reach, Finset.mem_filter, List.mem_toFinset, isNonterminal, Catalog.isNonterminal_iff]

noncomputable def rank (g : Grammar) (name : String) : Nat := (g.reach name).card

theorem rank_le_length (g : Grammar) (name : String) :
    g.rank name ≤ g.catalog.nonterminals.length := by
  have hsub : g.reach name ⊆ g.catalog.nonterminals.toFinset := fun other hother =>
    List.mem_toFinset.mpr (Catalog.isNonterminal_iff.mp (mem_reach_iff.mp hother).1)
  exact (Finset.card_le_card hsub).trans (List.toFinset_card_le _)

theorem WellFormed.rank_eq_zero (hg : g.WellFormed) {name : String}
    (h : g.isNonterminal name = false) : g.rank name = 0 := by
  rw [rank, Finset.card_eq_zero, Finset.eq_empty_iff_forall_notMem]
  intro other hother
  obtain ⟨hnt, hpath⟩ := mem_reach_iff.mp hother
  rcases Relation.ReflTransGen.cases_head hpath with rfl | ⟨_, ⟨_, _, hbody, -⟩, -⟩
  · simp [h] at hnt
  · rw [hg.isNonterminal_of_alternative? hbody] at h
    contradiction

theorem one_le_rank {name : String} (h : g.isNonterminal name = true) : 1 ≤ g.rank name :=
  Finset.card_pos.mpr ⟨name, mem_reach_iff.mpr ⟨h, .refl⟩⟩

/-- A symbol has a higher rank than the symbols that it leads to: it reaches all that they reach,
and itself, which they do not. -/
theorem WellFormed.rank_lt (hg : g.WellFormed) (hr : g.NoHiddenLeftRecursion)
    {name symbol : String} (h : g.LeadsTo name symbol) : g.rank symbol < g.rank name := by
  have hname : g.isNonterminal name = true := by
    obtain ⟨_, _, hbody, -⟩ := h
    exact hg.isNonterminal_of_alternative? hbody
  have hsub : g.reach symbol ⊆ g.reach name := by
    intro other hother
    obtain ⟨hnt, hpath⟩ := mem_reach_iff.mp hother
    exact mem_reach_iff.mpr ⟨hnt, .head h hpath⟩
  apply Finset.card_lt_card
  rw [Finset.ssubset_iff_of_subset hsub]
  refine ⟨name, mem_reach_iff.mpr ⟨hname, .refl⟩, fun hmem => ?_⟩
  exact hr name (.head' h (mem_reach_iff.mp hmem).2)

/-! ### Weights and potentials -/

theorem le_foldl_max (sizes : List Nat) (start : Nat) :
    start ≤ sizes.foldl max start ∧ ∀ size ∈ sizes, size ≤ sizes.foldl max start := by
  induction sizes generalizing start with
  | nil => simp
  | cons size rest ih =>
      obtain ⟨hstart, hrest⟩ := ih (max start size)
      rw [List.foldl_cons]
      refine ⟨(Nat.le_max_left _ _).trans hstart, ?_⟩
      rintro other (_ | ⟨_, hother⟩)
      · exact (Nat.le_max_right _ _).trans hstart
      · exact hrest other hother

theorem WellFormed.length_le_longest (hg : g.WellFormed) {name : String} {lead : Lead}
    {body : Body} (h : g.alternative? name lead = some body) : body.length ≤ g.longest := by
  have hmem : body.length ∈ g.slots.map fun s => s.2.length :=
    List.mem_map.mpr ⟨_, hg.alternative?_eq_some_iff.mp h, rfl⟩
  exact (le_foldl_max _ 0).2 _ hmem

noncomputable def weight (g : Grammar) (name : String) : Nat :=
  Nat.pow (g.longest + 2) (g.rank name)

open Classical in
/-- What the expected symbols may cost before a token is consumed: the weights of those that can
come to the front. -/
noncomputable def potential (g : Grammar) : List String → Nat
  | [] => 0
  | name :: rest => g.weight name + if g.Vanishes name then g.potential rest else 0

theorem WellFormed.weight_eq_one (hg : g.WellFormed) {name : String}
    (h : g.isNonterminal name = false) : g.weight name = 1 := by
  rw [weight, hg.rank_eq_zero h]
  rfl

theorem one_le_weight (g : Grammar) (name : String) : 1 ≤ g.weight name :=
  Nat.one_le_pow _ _ (by omega)

theorem potential_cons_of_vanishes {name : String} (h : g.Vanishes name) (rest : List String) :
    g.potential (name :: rest) = g.weight name + g.potential rest := by
  rw [potential, if_pos h]

theorem potential_cons_of_not_vanishes {name : String} (h : ¬ g.Vanishes name)
    (rest : List String) : g.potential (name :: rest) = g.weight name := by
  rw [potential, if_neg h, Nat.add_zero]

theorem weight_le_potential (g : Grammar) (name : String) (rest : List String) :
    g.weight name ≤ g.potential (name :: rest) := by
  rw [potential]
  exact Nat.le_add_right _ _

theorem potential_append_of_vanishes {first : List String} (h : ∀ name ∈ first, g.Vanishes name)
    (second : List String) :
    g.potential (first ++ second) = g.potential first + g.potential second := by
  induction first with
  | nil => simp [potential]
  | cons name rest ih =>
      obtain ⟨hname, hrest⟩ := List.forall_mem_cons.mp h
      rw [List.cons_append, potential_cons_of_vanishes hname, potential_cons_of_vanishes hname,
        ih hrest, Nat.add_assoc]

theorem potential_append_of_not_vanishes {first : List String}
    (h : ¬ ∀ name ∈ first, g.Vanishes name) (second : List String) :
    g.potential (first ++ second) = g.potential first := by
  induction first with
  | nil => simp at h
  | cons name rest ih =>
      rw [List.cons_append]
      by_cases hname : g.Vanishes name
      · have hrest : ¬ ∀ other ∈ rest, g.Vanishes other := fun hall =>
          h (List.forall_mem_cons.mpr ⟨hname, hall⟩)
        rw [potential_cons_of_vanishes hname, potential_cons_of_vanishes hname, ih hrest]
      · rw [potential_cons_of_not_vanishes hname, potential_cons_of_not_vanishes hname]

/-- Symbols cost no more than their number times the most that one of them costs that can come to
the front. -/
theorem potential_le_mul {symbols : List String} {most : Nat}
    (h : ∀ before name after, symbols = before ++ name :: after →
      (∀ earlier ∈ before, g.Vanishes earlier) → g.weight name ≤ most) :
    g.potential symbols ≤ symbols.length * most := by
  induction symbols with
  | nil => simp [potential]
  | cons name rest ih =>
      have hname : g.weight name ≤ most := h [] name rest rfl (by simp)
      rw [List.length_cons, Nat.succ_mul]
      by_cases hv : g.Vanishes name
      · rw [potential_cons_of_vanishes hv]
        have hrest := ih fun before other after heq hall =>
          h (name :: before) other after (by rw [heq, List.cons_append])
            (List.forall_mem_cons.mpr ⟨hv, hall⟩)
        omega
      · rw [potential_cons_of_not_vanishes hv]
        omega

/-- A symbol pays for the alternative that it falls back to. -/
theorem WellFormed.potential_body_lt (hg : g.WellFormed) (hr : g.NoHiddenLeftRecursion)
    {name : String} {body : Body} (h : g.alternative? name .nonterminal = some body) :
    g.potential body < g.weight name := by
  have hrank : 1 ≤ g.rank name := one_le_rank (hg.isNonterminal_of_alternative? h)
  have hle : g.potential body ≤ body.length * (g.longest + 2) ^ (g.rank name - 1) := by
    apply potential_le_mul
    intro before symbol after heq hall
    have hlt : g.rank symbol < g.rank name := hg.rank_lt hr ⟨before, after, heq ▸ h, hall⟩
    exact Nat.pow_le_pow_right (by omega) (by omega)
  calc g.potential body
      ≤ body.length * (g.longest + 2) ^ (g.rank name - 1) := hle
    _ ≤ g.longest * (g.longest + 2) ^ (g.rank name - 1) :=
        Nat.mul_le_mul_right _ (hg.length_le_longest h)
    _ < (g.longest + 2) * (g.longest + 2) ^ (g.rank name - 1) :=
        Nat.mul_lt_mul_of_pos_right (by omega) (Nat.pow_pos (by omega))
    _ = (g.longest + 2) ^ g.rank name := by
        rw [← Nat.pow_succ', Nat.succ_eq_add_one, Nat.sub_add_cancel hrank]
    _ = g.weight name := rfl

/-- A symbol with an alternative that it falls back to, in front of others. -/
theorem WellFormed.potential_fallback_lt (hg : g.WellFormed) (hr : g.NoHiddenLeftRecursion)
    {name : String} {body : Body} (h : g.alternative? name .nonterminal = some body)
    (rest : List String) : g.potential (body ++ rest) < g.potential (name :: rest) := by
  have hbody := hg.potential_body_lt hr h
  by_cases hall : ∀ symbol ∈ body, g.Vanishes symbol
  · rw [potential_append_of_vanishes hall, potential_cons_of_vanishes (.of_body h hall)]
    omega
  · rw [potential_append_of_not_vanishes hall]
    exact hbody.trans_le (weight_le_potential g name rest)

/-- A symbol that becomes nothing, in front of others. -/
theorem potential_vanish_lt {name : String} (h : g.Vanishes name) (rest : List String) :
    g.potential rest < g.potential (name :: rest) := by
  have := one_le_weight g name
  rw [potential_cons_of_vanishes h]
  omega

/-- Every expansion for a token lowers the potential. -/
theorem WellFormed.potential_lt_of_next? (hg : g.WellFormed) (hr : g.NoHiddenLeftRecursion)
    {kind : String} (expected after : List String) (h : g.next? kind expected = some after) :
    g.potential after < g.potential expected := by
  rcases next?_eq_some_iff.mp h with ⟨top, body, rest, hmove, rfl⟩ | ⟨top, rest, hmove, rfl⟩
  · obtain ⟨rfl, -, hnt, hselect⟩ := move_eq_expand_iff.mp hmove
    rcases select?_eq_some_iff.mp hselect with hbody | ⟨-, hbody⟩
    · -- the alternative begins with the token, which is a terminal and costs one step
      obtain ⟨others, rfl, hterminal⟩ := hg.eq_cons_of_terminal hbody
      have htop : 1 < g.weight top := Nat.one_lt_pow (by have := one_le_rank hnt; omega) (by omega)
      rw [List.cons_append, potential_cons_of_not_vanishes (hg.not_vanishes hterminal),
        hg.weight_eq_one hterminal]
      exact htop.trans_le (weight_le_potential g top rest)
    · exact hg.potential_fallback_lt hr hbody rest
  · obtain ⟨rfl, -, -, hselect, hempty⟩ := move_eq_vanish_iff.mp hmove
    exact potential_vanish_lt (.of_empty (select?_eq_none_iff.mp hselect).2 hempty) after

/-- The bound that parsers use is above the potential. -/
theorem potential_lt_stepBound (g : Grammar) (expected : List String) :
    g.potential expected < g.stepBound expected.length := by
  have hle : g.potential expected ≤
      expected.length * (g.longest + 2) ^ g.catalog.nonterminals.length :=
    potential_le_mul fun _ name _ _ _ =>
      Nat.pow_le_pow_right (by omega) (g.rank_le_length name)
  have hpow : (g.longest + 2) ^ g.catalog.nonterminals.length ≤
      (g.longest + 2) ^ (g.catalog.nonterminals.length + 1) :=
    Nat.pow_le_pow_right (by omega) (by omega)
  calc g.potential expected
      ≤ expected.length * (g.longest + 2) ^ (g.catalog.nonterminals.length + 1) :=
        hle.trans (Nat.mul_le_mul_left _ hpow)
    _ < (expected.length + 1) * (g.longest + 2) ^ (g.catalog.nonterminals.length + 1) :=
        Nat.mul_lt_mul_of_pos_right (by omega) (Nat.pow_pos (by omega))

end Grammar

end Lookahead
