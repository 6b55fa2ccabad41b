import Lookahead.Proofs.Grammar.Reordering
import Lookahead.Proofs.Parser.Acceptable

/-!
A parser does not see in which order its language was declared. A step looks one thing up in the
table, so on tables that are the same up to order the steps are the same (`Reorders.move_eq`), and
with them the runs: the bound on the number of steps asks for the length of the longest alternative
and the number of non-terminals, which have no order either.

What is acceptable is collected in the order in which the slots were filled, and only the answer is
in order again: it is ascending and without repetition, so it is determined by its members
(`ascending_congr`).
-/

namespace Lookahead

theorem nodup_eraseDups (names : List String) : names.eraseDups.Nodup := by
  cases names with
  | nil => simp
  | cons name rest =>
      rw [List.eraseDups_cons, List.nodup_cons]
      exact ⟨by simp, nodup_eraseDups _⟩
termination_by names.length
decreasing_by exact Nat.lt_succ_of_le (List.length_filter_le _ _)

theorem pairwise_ascending (names : List String) : (ascending names).Pairwise (· ≤ ·) := by
  have hsorted : (ascending names).Pairwise fun a b => decide (a ≤ b) = true :=
    List.pairwise_mergeSort (by simpa using fun _ _ _ => String.le_trans)
      (by simpa using String.le_total) _
  exact hsorted.imp of_decide_eq_true

theorem nodup_ascending (names : List String) : (ascending names).Nodup :=
  (List.mergeSort_perm _ _).nodup_iff.mpr (nodup_eraseDups names)

theorem ascending_congr {one other : List String} (h : ∀ name, name ∈ one ↔ name ∈ other) :
    ascending one = ascending other := by
  have hperm : (ascending one).Perm (ascending other) :=
    (List.perm_ext_iff_of_nodup (nodup_ascending one) (nodup_ascending other)).mpr
      (by simpa using h)
  exact hperm.eq_of_pairwise (fun _ _ _ _ => String.le_antisymm) (pairwise_ascending one)
    (pairwise_ascending other)

namespace Grammar.Reorders

variable {g h : Grammar} (hgh : g.Reorders h)

include hgh

theorem stepBound_eq : g.stepBound = h.stepBound := by
  have hlongest : g.longest = h.longest := (hgh.slots.map _).foldl_eq 0
  funext expected
  rw [stepBound, stepBound, hlongest, hgh.catalog.nonterminals.length_eq]

theorem mem_names_terminalLeads_iff {top kind : String} :
    kind ∈ (g.terminalLeads top).names ↔ kind ∈ (h.terminalLeads top).names :=
  ((hgh.slots.filterMap _).map Prod.fst).mem_iff

variable (hg : g.WellFormed) (hh : h.WellFormed)

include hg hh

theorem hasEmpty_eq : g.hasEmpty = h.hasEmpty := by
  funext name
  rw [hasEmpty, hasEmpty, hgh.alternative?_eq hg hh]

theorem move_eq : g.move = h.move := by
  funext kind expected
  cases expected with
  | nil => rw [move, move, hgh.catalog.epsilon_eq]
  | cons top rest =>
      simp only [move, select?, hgh.isNonterminal_eq, hgh.alternative?_eq hg hh,
        hgh.hasEmpty_eq hg hh]

theorem gather_rel (n : Nat) (expected : List String) :
    Option.Rel (fun one other => ∀ kind, kind ∈ one ↔ kind ∈ other) (g.gather n expected)
      (h.gather n expected) := by
  have hleads (top : String) : ∀ kind, kind ∈ (g.terminalLeads top).names ↔
      kind ∈ (h.terminalLeads top).names := fun _ => hgh.mem_names_terminalLeads_iff
  -- what is collected from the symbols behind comes after the leads of the one in front
  have happend (top : String) {one other : Option (List String)}
      (hrest : Option.Rel (fun one other => ∀ kind, kind ∈ one ↔ kind ∈ other) one other) :
      Option.Rel (fun one other => ∀ kind, kind ∈ one ↔ kind ∈ other)
        (one.map ((g.terminalLeads top).names ++ ·))
        (other.map ((h.terminalLeads top).names ++ ·)) := by
    cases hrest with
    | none => exact .none
    | some hrest =>
        refine .some fun kind => ?_
        rw [List.mem_append, List.mem_append, hleads, hrest]
  induction n generalizing expected with
  | zero => exact .none
  | succ n ih =>
      cases expected with
      | nil => exact .some fun kind => by rw [hgh.catalog.epsilon_eq]
      | cons top rest =>
          rw [gather, gather, hgh.isNonterminal_eq, hgh.alternative?_eq hg hh,
            hgh.hasEmpty_eq hg hh]
          cases h.isNonterminal top with
          | false => exact .some fun _ => Iff.rfl
          | true =>
              simp only [Bool.not_true, Bool.false_eq_true, if_false]
              cases h.alternative? top .nonterminal with
              | some body => exact happend top (ih _)
              | none =>
                  cases h.hasEmpty top with
                  | true => exact happend top (ih _)
                  | false => exact .some (hleads top)

/-- An answer that was not found has no members. -/
theorem mem_gather_iff (n : Nat) (expected : List String) (kind : String) :
    kind ∈ (g.gather n expected).getD [] ↔ kind ∈ (h.gather n expected).getD [] := by
  have hsame := hgh.gather_rel hg hh n expected
  revert hsame
  generalize g.gather n expected = one
  generalize h.gather n expected = other
  rintro (⟨hkinds⟩ | _)
  · exact hkinds kind
  · rfl

end Grammar.Reorders

namespace Parser

open Grammar (Reorders)

variable {g h : Grammar} (hgh : g.Reorders h) (hg : g.WellFormed) (hh : h.WellFormed)

include hgh hg hh

theorem step_eq_of_reorders : step g = step h := by
  funext before token p
  simp only [step, hgh.move_eq hg hh, hgh.catalog.epsilon_eq]

theorem drive_eq_of_reorders (before : List String) (token : Token) (n : Nat) (p : Parser) :
    drive g before token n p = drive h before token n p := by
  induction n generalizing p with
  | zero => rfl
  | succ n ih =>
      rw [drive, drive, step_eq_of_reorders hgh hg hh]
      cases step h before token p with
      | done q => rfl
      | more q => exact ih q

theorem accept_eq_of_reorders (p : Parser) (token : Token) :
    p.accept g token = p.accept h token := by
  rw [accept, accept, hgh.stepBound_eq, drive_eq_of_reorders hgh hg hh]

theorem acceptAll_eq_of_reorders (p : Parser) (tokens : List Token) :
    p.acceptAll g tokens = p.acceptAll h tokens := by
  induction tokens generalizing p with
  | nil => rfl
  | cons token rest ih => rw [acceptAll_cons, acceptAll_cons, accept_eq_of_reorders hgh hg hh, ih]

theorem acceptable_eq_of_reorders (p : Parser) : p.acceptable g = p.acceptable h := by
  rw [acceptable, acceptable, ← hgh.stepBound_eq]
  split
  · rfl
  · exact ascending_congr (hgh.mem_gather_iff hg hh _ _)

omit hgh hg hh

/-- **The order of declaration is of no consequence.** Terminals, non-terminals, the entries of the
productions and the alternatives of each may be declared in any order. A catalog is built in each of
them or in none, and so is a table over it. The parsers of two such tables know the same roots, and
the same tokens lead them to the same state, with whatever is expected, accepted, refused and built
in it; what is acceptable there is the same too. -/
theorem acceptAll_eq_of_perm {terminals terminals' : List Terminal}
    {nonterminals nonterminals' : List String} {productions others : Productions}
    (hterminals : terminals.Perm terminals') (hnonterminals : nonterminals.Perm nonterminals')
    (hproductions : productions.Reorders others) (hnames : productions.names.Nodup) :
    ((∃ c, Catalog.build terminals nonterminals = .ok c) ↔
      ∃ d, Catalog.build terminals' nonterminals' = .ok d) ∧
    ∀ c d, Catalog.build terminals nonterminals = .ok c →
      Catalog.build terminals' nonterminals' = .ok d →
      ((∃ g, Grammar.build c productions = .ok g) ↔ ∃ h, Grammar.build d others = .ok h) ∧
      ∀ g h, Grammar.build c productions = .ok g → Grammar.build d others = .ok h →
        ∀ root, g.parser root = h.parser root ∧
          ∀ p, g.parser root = .ok p → ∀ tokens,
            p.acceptAll g tokens = p.acceptAll h tokens ∧
            (p.acceptAll g tokens).acceptable g = (p.acceptAll h tokens).acceptable h := by
  refine ⟨⟨?_, ?_⟩, fun c d hc hd => ?_⟩
  · rintro ⟨c, hc⟩
    obtain ⟨d, hd, -⟩ := Catalog.exists_build_of_perm hterminals hnonterminals hc
    exact ⟨d, hd⟩
  · rintro ⟨d, hd⟩
    obtain ⟨c, hc, -⟩ := Catalog.exists_build_of_perm hterminals.symm hnonterminals.symm hd
    exact ⟨c, hc⟩
  have hwf := (Catalog.build_eq_ok_iff.mp hc).2.2
  have hwf' := (Catalog.build_eq_ok_iff.mp hd).2.2
  have hcd : c.Reorders d := by
    obtain ⟨d', hd', hcd⟩ := Catalog.exists_build_of_perm hterminals hnonterminals hc
    obtain rfl := Except.ok.inj (hd'.symm.trans hd)
    exact hcd
  refine ⟨⟨?_, ?_⟩, fun g h hg hh root => ?_⟩
  · rintro ⟨g, hg⟩
    obtain ⟨h, hh, -⟩ := Grammar.exists_build_of_reorders hwf hcd hproductions hnames hg
    exact ⟨h, hh⟩
  · rintro ⟨h, hh⟩
    obtain ⟨g, hg, -⟩ := Grammar.exists_build_of_reorders hwf' hcd.symm hproductions.symm
      (hproductions.names.nodup_iff.mp hnames) hh
    exact ⟨g, hg⟩
  have hgh : g.Reorders h := by
    obtain ⟨h', hh', hgh⟩ := Grammar.exists_build_of_reorders hwf hcd hproductions hnames hg
    obtain rfl := Except.ok.inj (hh'.symm.trans hh)
    exact hgh
  have hwg := Grammar.wellFormed_of_build hwf hg
  have hwh := Grammar.wellFormed_of_build hwf' hh
  refine ⟨by rw [Grammar.parser, Grammar.parser, hgh.catalog.contains_eq], fun p _ tokens => ?_⟩
  rw [acceptAll_eq_of_reorders hgh hwg hwh]
  exact ⟨rfl, acceptable_eq_of_reorders hgh hwg hwh _⟩

/-- Everything in another order: the slots are filled in another order then, and within a parse the
same symbols are expected and the same kinds acceptable. -/
theorem acceptAll_eq_of_perm_letters :
    let terminals := Grammar.letterTerminals
    let c := Grammar.marked terminals ["S", "T", "U"] terminals[0] terminals[1]
    let d := Grammar.marked terminals.reverse ["T", "U", "S"] terminals[0] terminals[1]
    let written : Productions :=
      [("S", [["a", "T"], ["U", "c"]]), ("T", [["b", "T"], ["END"]]), ("U", [["c"]])]
    let others : Productions :=
      [("U", [["c"]]), ("S", [["U", "c"], ["a", "T"]]), ("T", [["END"], ["b", "T"]])]
    let tokens := [Token.mk "a" ⟨1, 1⟩ ⟨1, 2⟩ "a", Token.mk "b" ⟨1, 2⟩ ⟨1, 3⟩ "b"]
    terminals.Perm terminals.reverse ∧ ["S", "T", "U"].Perm ["T", "U", "S"] ∧
    written.Reorders others ∧ written.names.Nodup ∧
    Catalog.build terminals ["S", "T", "U"] = .ok c ∧
    Catalog.build terminals.reverse ["T", "U", "S"] = .ok d ∧
    ∃ g h, Grammar.build c written = .ok g ∧ Grammar.build d others = .ok h ∧
      g.slots ≠ h.slots ∧ h.parser "S" = .ok (start "S") ∧
      ((start "S").acceptAll h tokens).expected = ["T"] ∧
      ((start "S").acceptAll h tokens).acceptable h =
        ((start "S").acceptAll g tokens).acceptable g := by
  intro terminals c d written others tokens
  have hterminals : terminals.Perm terminals.reverse := (List.reverse_perm _).symm
  have hnonterminals : ["S", "T", "U"].Perm ["T", "U", "S"] := by decide
  have hproductions : written.Reorders others :=
    ⟨[("U", [["c"]]), ("S", [["a", "T"], ["U", "c"]]), ("T", [["b", "T"], ["END"]])], by decide,
      .cons ⟨rfl, by decide⟩ (.cons ⟨rfl, by decide⟩ (.cons ⟨rfl, by decide⟩ .nil))⟩
  have hnames : written.names.Nodup := by decide
  have hc : Catalog.build terminals ["S", "T", "U"] = .ok c := by decide +kernel
  have hd : Catalog.build terminals.reverse ["T", "U", "S"] = .ok d := by decide +kernel
  obtain ⟨hbuild, hrun⟩ :=
    (acceptAll_eq_of_perm hterminals hnonterminals hproductions hnames).2 c d hc hd
  let g : Grammar := { catalog := c, slots := Grammar.placed c (c.storedAll written) }
  have hknows : c.Knows written := by
    unfold Catalog.Knows
    decide
  have hg : Grammar.build c written = .ok g := Grammar.build_eq_ok_iff.mpr
    ⟨hknows, by decide +kernel, by decide +kernel, rfl, by decide +kernel⟩
  obtain ⟨h, hh⟩ := hbuild.mp ⟨g, hg⟩
  have hslots : g.slots ≠ h.slots := by
    rw [(Grammar.slots_of_build hh).2]
    decide +kernel
  obtain ⟨hroot, htokens⟩ := hrun g h hg hh "S"
  obtain ⟨hstate, hacceptable⟩ := htokens (start "S") rfl tokens
  have hexpected : ((start "S").acceptAll g tokens).expected = ["T"] := by decide +kernel
  exact ⟨hterminals, hnonterminals, hproductions, hnames, hc, hd, g, h, hg, hh, hslots,
    hroot.symm, hstate ▸ hexpected, hacceptable.symm⟩

end Parser

end Lookahead
