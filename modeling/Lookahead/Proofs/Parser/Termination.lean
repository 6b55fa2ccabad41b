import Lookahead.Proofs.Parser.Acceptable

/-!
The loops of the parser stop. Taking in a token and asking what is acceptable are both loops over
the expected symbols, and neither of them has anything that gets shorter: an expansion makes the
list longer, a symbol that becomes nothing makes it shorter, and no token is consumed meanwhile. The
functions `Parser.drive` and `Grammar.gather` therefore carry a number of steps, and it has to be
shown that the number is of no consequence.

What the two loops have in common is `Grammar.potential`: both follow the alternative that a
non-terminal falls back to, and both drop what vanishes. So both are done after as many steps as the
potential says, and then an answer does not depend on how many more steps were allowed
(`Parser.drive_of_le`, `Grammar.gather_of_le`).
-/

namespace Lookahead

/-- More steps than were needed change nothing. -/
theorem Parser.drive_of_le {g : Grammar} {before : List String} {token : Token} {p q : Parser}
    {n m : Nat} (h : drive g before token n p = some q) (hle : n ≤ m) :
    drive g before token m p = some q := by
  induction n generalizing p m with
  | zero => simp [drive] at h
  | succ n ih =>
      obtain ⟨m, rfl⟩ : ∃ k, m = k + 1 := ⟨m - 1, by omega⟩
      unfold drive at h ⊢
      cases hstep : step g before token p with
      | done r =>
          rw [hstep] at h
          exact h
      | more r =>
          rw [hstep] at h
          exact ih h (by omega)

/-- An open parser is done with a token after as many steps as its potential says, and one more. -/
theorem Parser.exists_drive {g : Grammar} {p : Parser} (hg : g.WellFormed)
    (hr : g.NoHiddenLeftRecursion) (hclosed : p.closed = false) (token : Token) :
    Outcome g p token (p.accept g token) ∧
      ∀ m, g.potential p.expected < m →
        drive g p.expected token m p = some (p.accept g token) := by
  refine ⟨outcome_accept hg hr hclosed token, fun m hm => ?_⟩
  have hsome : (drive g p.expected token (g.potential p.expected + 1) p).isSome = true :=
    drive_isSome (hg.potential_lt_of_next? hr) (Nat.lt_succ_self _)
  obtain ⟨q, hdrive⟩ := Option.isSome_iff_exists.mp hsome
  have hbound : drive g p.expected token (g.stepBound p.expected.length) p = some q :=
    drive_of_le hdrive (g.potential_lt_stepBound p.expected)
  have haccept : p.accept g token = q := by
    rw [accept, if_neg (by simp [hclosed]), hbound, Option.getD_some]
  rw [haccept]
  exact drive_of_le hdrive hm

namespace Grammar

variable {g : Grammar} {expected kinds : List String}

theorem gather_of_le {n m : Nat} (h : g.gather n expected = some kinds) (hle : n ≤ m) :
    g.gather m expected = some kinds := by
  induction n generalizing expected kinds m with
  | zero => simp [gather] at h
  | succ n ih =>
      obtain ⟨m, rfl⟩ : ∃ k, m = k + 1 := ⟨m - 1, by omega⟩
      cases expected with
      | nil => exact h
      | cons top rest =>
          unfold gather at h ⊢
          split at h
          · rename_i hterminal
            rw [if_pos hterminal]
            exact h
          · rename_i hnonterminal
            rw [if_neg hnonterminal]
            dsimp only at h ⊢
            cases hbody : g.alternative? top .nonterminal with
            | some body =>
                rw [hbody] at h
                obtain ⟨others, hothers, rfl⟩ := Option.map_eq_some_iff.mp h
                have hmore : g.gather m (body ++ rest) = some others := ih hothers (by omega)
                simp [hmore]
            | none =>
                rw [hbody] at h
                cases hempty : g.hasEmpty top with
                | true =>
                    rw [hempty, if_pos rfl] at h
                    obtain ⟨others, hothers, rfl⟩ := Option.map_eq_some_iff.mp h
                    have hmore : g.gather m rest = some others := ih hothers (by omega)
                    simp [hmore]
                | false => simpa [hempty] using h

/-- What is acceptable is known after as many steps as the potential says, and one more. -/
theorem WellFormed.exists_gather_of_lt (hg : g.WellFormed) (hr : g.NoHiddenLeftRecursion)
    (hc : ∀ symbol ∈ expected, g.catalog.contains symbol = true) :
    ∃ kinds, ∀ m, g.potential expected < m → g.gather m expected = some kinds := by
  obtain ⟨kinds, hgather, -⟩ := hg.exists_gather hr (Nat.lt_succ_self (g.potential expected)) hc
  exact ⟨kinds, fun m hm => gather_of_le hgather hm⟩

end Grammar

namespace Parser

/-- **The loops of the parser stop.** Whatever is expected and whatever is under construction, a
bounded number of steps is enough for a token: then it is consumed, or the parse is accepted, or the
token is the fault, and no number of further steps would change that. Finding out what is acceptable
stops in the same way. -/
theorem exists_stop {terminals : List Terminal} {nonterminals : List String} {c : Catalog}
    {productions : Productions} {g : Grammar} (hc : Catalog.build terminals nonterminals = .ok c)
    (hg : Grammar.build c productions = .ok g) (hr : g.NoHiddenLeftRecursion)
    {expected : List String} (hknown : ∀ symbol ∈ expected, c.contains symbol = true) :
    ∃ n, n ≤ g.stepBound expected.length ∧
      (∀ (p : Parser) (token : Token), p.expected = expected → p.closed = false →
        Outcome g p token (p.accept g token) ∧
          ∀ m, n ≤ m → drive g expected token m p = some (p.accept g token)) ∧
      ∃ kinds, ∀ m, n ≤ m → g.gather m expected = some kinds := by
  have hwf := Grammar.wellFormed_of_build (Catalog.build_eq_ok_iff.mp hc).2.2 hg
  obtain ⟨rfl, -⟩ := Grammar.slots_of_build hg
  refine ⟨g.potential expected + 1, g.potential_lt_stepBound expected, ?_, ?_⟩
  · rintro p token rfl hclosed
    exact exists_drive hwf hr hclosed token
  · exact hwf.exists_gather_of_lt hr hknown

/-- Between the tails of two expressions, with a builder that has yet to get its last part. -/
theorem exists_stop_tails :
    let expected := ["MULT_EXPR_TAIL", "EXPR_TAIL", "CLOSE"]
    let number := Token.mk "NUMBER" ⟨1, 1⟩ ⟨1, 2⟩ "1"
    let p : Parser :=
      { expected, builders := [{ kind := "MULT_EXPR", size := 2, parts := [.leaf number] }] }
    let g := Expression.grammar
    (∀ symbol ∈ expected, Expression.catalog.contains symbol = true) ∧ p.closed = false ∧
    ∃ n, n ≤ g.stepBound 3 ∧ Outcome g p number (p.accept g number) ∧
      (∀ m, n ≤ m → drive g expected number m p = some (p.accept g number)) ∧
      ∃ kinds, ∀ m, n ≤ m → g.gather m expected = some kinds := by
  intro expected number p g
  have hknown : ∀ symbol ∈ expected, Expression.catalog.contains symbol = true := by decide
  obtain ⟨n, hn, haccept, hgather⟩ := exists_stop Expression.build_catalog
    Expression.build_grammar Expression.noHiddenLeftRecursion_grammar hknown
  obtain ⟨houtcome, hdrive⟩ := haccept p number rfl rfl
  exact ⟨hknown, rfl, n, hn, houtcome, hdrive, hgather⟩

end Parser

end Lookahead
