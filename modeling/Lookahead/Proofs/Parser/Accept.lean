import Lookahead.Proofs.Grammar.Recursion

/-!
What a token does to a parser. On a table without hidden left recursion the bound on the number of
steps is never met, so an open parser takes in a token by a path of steps and a last one
(`exists_path_accept`).

`Outcome` says how that ends, in terms of the expected symbols alone: what the token settles them
to decides between the end of the parse, a match and a fault, and says what is expected afterwards.
The trees that are built on the way have no say in it, and are treated elsewhere.
-/

namespace Lookahead.Parser

variable {g : Grammar} {p q : Parser} {token : Token}

theorem closed_eq_false_iff : p.closed = false ↔ p.fault = none ∧ p.accepted = false := by
  simp [closed]

/-- An open parser takes in a token by a path of steps and a last one. -/
theorem exists_path_accept (hg : g.WellFormed) (hr : g.NoHiddenLeftRecursion)
    (hclosed : p.closed = false) (token : Token) :
    ∃ q, Path g p.expected token p q ∧ step g p.expected token q = .done (p.accept g token) := by
  have hsome : (drive g p.expected token (g.stepBound p.expected.length) p).isSome = true :=
    drive_isSome (hg.potential_lt_of_next? hr) (g.potential_lt_stepBound p.expected)
  obtain ⟨r, hdrive⟩ := Option.isSome_iff_exists.mp hsome
  have haccept : p.accept g token = r := by
    rw [accept, if_neg (by simp [hclosed]), hdrive, Option.getD_some]
  rw [haccept]
  exact exists_path_of_drive hdrive

/-- What becomes of an open parser with a token: it is at the end, or it has matched the token, or
it has refused it and remembers what was expected before. -/
inductive Outcome (g : Grammar) (p : Parser) (token : Token) (q : Parser) : Prop
  | finished (hsettles : g.Settles token.kind p.expected [])
      (hkind : token.kind = g.catalog.epsilon) (hexpected : q.expected = [])
      (hfault : q.fault = none) (haccepted : q.accepted = true)
  | consumed {rest : List String} (hsettles : g.Settles token.kind p.expected (token.kind :: rest))
      (hexpected : q.expected = rest) (hfault : q.fault = none)
      (haccepted : q.accepted = decide (token.kind = g.catalog.epsilon ∧ rest = []))
  | refused {settled : List String} (hsettles : g.Settles token.kind p.expected settled)
      (hrefuses : (g.move token.kind settled).refuses = true) (hexpected : q.expected = settled)
      (hfault : q.fault = some ⟨token, p.expected⟩) (haccepted : q.accepted = false)

theorem outcome_accept (hg : g.WellFormed) (hr : g.NoHiddenLeftRecursion)
    (hclosed : p.closed = false) (token : Token) : Outcome g p token (p.accept g token) := by
  obtain ⟨r, hpath, hdone⟩ := exists_path_accept hg hr hclosed token
  have hsettles : g.Settles token.kind p.expected r.expected :=
    ⟨hpath.rewrites, next?_eq_none_of_step_done hdone⟩
  obtain ⟨hnone, hopen⟩ := closed_eq_false_iff.mp hclosed
  obtain ⟨hfault, haccepted⟩ := hpath.closed_eq
  rw [hnone] at hfault
  rw [hopen] at haccepted
  rcases step_eq_done_iff.mp hdone with ⟨hmove, heq⟩ | ⟨rest, hmove, heq⟩ | ⟨hrefuses, heq⟩
  · obtain ⟨hexpected, hkind⟩ := Grammar.move_eq_finish_iff.mp hmove
    rw [heq]
    exact .finished (hexpected ▸ hsettles) hkind hexpected hfault rfl
  · rw [heq]
    exact .consumed (Grammar.move_eq_consume_iff.mp hmove ▸ hsettles) rfl hfault rfl
  · rw [heq]
    exact .refused hsettles hrefuses rfl rfl haccepted

theorem contains_accept (hg : g.WellFormed) (hr : g.NoHiddenLeftRecursion)
    (hc : ∀ symbol ∈ p.expected, g.catalog.contains symbol = true) (token : Token) :
    ∀ symbol ∈ (p.accept g token).expected, g.catalog.contains symbol = true := by
  cases hclosed : p.closed with
  | true => rwa [accept_of_closed hclosed]
  | false =>
      cases outcome_accept hg hr hclosed token with
      | finished _ _ hexpected => simp [hexpected]
      | consumed hsettles hexpected =>
          have hmatched := hg.contains_of_rewrites hsettles.1 hc
          rw [hexpected]
          exact (List.forall_mem_cons.mp hmatched).2
      | refused hsettles _ hexpected =>
          rw [hexpected]
          exact hg.contains_of_rewrites hsettles.1 hc

theorem contains_acceptAll (hg : g.WellFormed) (hr : g.NoHiddenLeftRecursion)
    (hc : ∀ symbol ∈ p.expected, g.catalog.contains symbol = true) (tokens : List Token) :
    ∀ symbol ∈ (p.acceptAll g tokens).expected, g.catalog.contains symbol = true := by
  induction tokens generalizing p with
  | nil => exact hc
  | cons token rest ih => exact ih (contains_accept hg hr hc token)

end Lookahead.Parser
