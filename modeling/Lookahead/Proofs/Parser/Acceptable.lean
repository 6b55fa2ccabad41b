import Lookahead.Parser.Acceptable
import Lookahead.Proofs.Expression.Grammar
import Lookahead.Proofs.Parser.Accept

/-!
What `Parser.acceptable` answers. The parser and the question about it walk over the same table in
two ways. The parser has a token, so it stops at the first alternative that the token selects. The
question has none: it collects the leads of every non-terminal that it comes by, and goes on with
the alternative that the parser would fall back to.

`Admits` says of a kind that a token of it would not be refused, in terms of the parser alone, and
`admits_cons_of_fallback` and its neighbours take that apart by the symbol in front, one for each
branch of `gather`. The answer is then right by induction on the number of steps, which the
potential of the expected symbols bounds here as it does for the parser.
-/

namespace Lookahead

namespace Grammar

/-- A token of the kind would not be refused. -/
def Admits (g : Grammar) (kind : String) (expected : List String) : Prop :=
  ∃ settled, g.Settles kind expected settled ∧ (g.move kind settled).refuses = false

variable {g : Grammar} {kind top : String} {expected after rest : List String} {body : Body}

theorem admits_iff_of_settles {settled : List String} (h : g.Settles kind expected settled) :
    g.Admits kind expected ↔ (g.move kind settled).refuses = false := by
  constructor
  · rintro ⟨other, hother, hmove⟩
    rwa [h.unique hother]
  · exact fun hmove => ⟨settled, h, hmove⟩

/-- What is admitted does not change on the way. -/
theorem admits_iff_of_next? (h : g.next? kind expected = some after) :
    g.Admits kind expected ↔ g.Admits kind after := by
  constructor
  · rintro ⟨settled, ⟨hpath, hend⟩, hmove⟩
    rcases Relation.ReflTransGen.cases_head hpath with rfl | ⟨middle, hstep, hrest⟩
    · rw [h] at hend
      contradiction
    · rw [h] at hstep
      obtain rfl := Option.some.inj hstep
      exact ⟨settled, ⟨hrest, hend⟩, hmove⟩
  · rintro ⟨settled, ⟨hpath, hend⟩, hmove⟩
    exact ⟨settled, ⟨.head h hpath, hend⟩, hmove⟩

/-- When no expansion is asked for, the decision about the token is taken. -/
theorem admits_iff_of_next?_eq_none (h : g.next? kind expected = none) :
    g.Admits kind expected ↔ (g.move kind expected).refuses = false :=
  admits_iff_of_settles ⟨.refl, h⟩

/-! ### By the symbol in front -/

theorem admits_nil_iff : g.Admits kind [] ↔ kind = g.catalog.epsilon := by
  by_cases hkind : kind = g.catalog.epsilon
  · have hmove : g.move kind [] = .finish := move_eq_finish_iff.mpr ⟨rfl, hkind⟩
    rw [admits_iff_of_next?_eq_none (by rw [next?, hmove, Move.next?]), hmove]
    simp [Move.refuses, hkind]
  · have hmove : g.move kind [] = .surplus := move_eq_surplus_iff.mpr ⟨rfl, hkind⟩
    rw [admits_iff_of_next?_eq_none (by rw [next?, hmove, Move.next?]), hmove]
    simp [Move.refuses, hkind]

theorem admits_cons_of_terminal (h : g.isNonterminal top = false) :
    g.Admits kind (top :: rest) ↔ kind = top := by
  by_cases hkind : top = kind
  · have hmove : g.move kind (top :: rest) = .consume rest :=
      move_eq_consume_iff.mpr (by rw [hkind])
    rw [admits_iff_of_next?_eq_none (by rw [next?, hmove, Move.next?]), hmove]
    simp [Move.refuses, hkind]
  · have hmove : g.move kind (top :: rest) = .mismatch top :=
      move_eq_mismatch_iff.mpr ⟨rest, rfl, hkind, h⟩
    rw [admits_iff_of_next?_eq_none (by rw [next?, hmove, Move.next?]), hmove]
    simp [Move.refuses, Ne.symm hkind]

/-- A non-terminal lets in the leads of its alternatives, and for other tokens it depends. -/
theorem WellFormed.admits_cons_iff (hg : g.WellFormed) (hkind : g.isNonterminal kind = false)
    {otherwise : Prop}
    (h : g.alternative? top (.terminal kind) = none → (g.Admits kind (top :: rest) ↔ otherwise)) :
    g.Admits kind (top :: rest) ↔ kind ∈ (g.terminalLeads top).names ∨ otherwise := by
  rw [hg.mem_names_terminalLeads_iff]
  cases hlead : g.alternative? top (.terminal kind) with
  | none => simpa using h hlead
  | some body =>
      have htop := hg.isNonterminal_of_alternative? hlead
      have hnext := next?_cons_of_select htop hkind (select?_eq_some_iff.mpr (.inl hlead)) rest
      -- the alternative begins with the token
      obtain ⟨others, rfl, -⟩ := hg.eq_cons_of_terminal hlead
      have hadmits : g.Admits kind (top :: rest) :=
        (admits_iff_of_next? hnext).mpr ((admits_cons_of_terminal hkind).mpr rfl)
      simpa using hadmits

/-- Anything else that it lets in comes from the alternative that it falls back to. -/
theorem WellFormed.admits_cons_of_fallback (hg : g.WellFormed)
    (hkind : g.isNonterminal kind = false) (h : g.alternative? top .nonterminal = some body) :
    g.Admits kind (top :: rest) ↔
      kind ∈ (g.terminalLeads top).names ∨ g.Admits kind (body ++ rest) := by
  refine hg.admits_cons_iff hkind fun hlead => ?_
  have htop := hg.isNonterminal_of_alternative? h
  have hselect := select?_eq_some_iff.mpr (.inr ⟨hlead, h⟩)
  exact admits_iff_of_next? (next?_cons_of_select htop hkind hselect rest)

/-- Without such an alternative, a non-terminal that can become nothing lets in what follows. -/
theorem WellFormed.admits_cons_of_empty (hg : g.WellFormed)
    (hkind : g.isNonterminal kind = false) (hnone : g.alternative? top .nonterminal = none)
    (hempty : g.hasEmpty top = true) :
    g.Admits kind (top :: rest) ↔
      kind ∈ (g.terminalLeads top).names ∨ g.Admits kind rest := by
  refine hg.admits_cons_iff hkind fun hlead => ?_
  have htop := hg.isNonterminal_of_alternative? (hg.hasEmpty_iff.mp hempty)
  have hselect := select?_eq_none_iff.mpr ⟨hlead, hnone⟩
  exact admits_iff_of_next? (next?_cons_of_empty htop hkind hselect hempty rest)

/-- A non-terminal that has neither lets in its leads and nothing else. -/
theorem WellFormed.admits_cons_of_leads (hg : g.WellFormed)
    (hkind : g.isNonterminal kind = false) (htop : g.isNonterminal top = true)
    (hnone : g.alternative? top .nonterminal = none) (hempty : g.hasEmpty top = false) :
    g.Admits kind (top :: rest) ↔ kind ∈ (g.terminalLeads top).names := by
  rw [← or_false (kind ∈ (g.terminalLeads top).names)]
  refine hg.admits_cons_iff hkind fun hlead => ?_
  have hmove : g.move kind (top :: rest) = .stuck top :=
    move_eq_stuck_iff.mpr
      ⟨rest, rfl, ne_of_isNonterminal htop hkind, htop,
        select?_eq_none_iff.mpr ⟨hlead, hnone⟩, hempty⟩
  rw [admits_iff_of_next?_eq_none (by rw [next?, hmove, Move.next?]), hmove]
  simp [Move.refuses]

/-! ### The collected kinds -/

structure Gathers (g : Grammar) (expected kinds : List String) : Prop where
  ne_nil : kinds ≠ []
  isTerminal : ∀ kind ∈ kinds, g.catalog.isTerminal kind = true
  mem_iff : ∀ kind, g.isNonterminal kind = false → (kind ∈ kinds ↔ g.Admits kind expected)

theorem isTerminal_of_contains (hc : g.catalog.contains top = true)
    (h : g.isNonterminal top = false) : g.catalog.isTerminal top = true := by
  rw [isNonterminal] at h
  simpa [Catalog.contains, h] using hc

theorem WellFormed.isTerminal_of_mem_names (hg : g.WellFormed)
    (h : kind ∈ (g.terminalLeads top).names) : g.catalog.isTerminal kind = true := by
  obtain ⟨body, hbody⟩ := hg.mem_names_terminalLeads_iff.mp h
  obtain ⟨rest, rfl, hterminal⟩ := hg.eq_cons_of_terminal hbody
  exact isTerminal_of_contains (hg.contains_of_alternative? hbody (by simp)) hterminal

/-- The leads of a non-terminal, and what is let in after them. -/
theorem WellFormed.gathers_append (hg : g.WellFormed) {kinds : List String}
    (hadmits : ∀ kind, g.isNonterminal kind = false →
      (g.Admits kind (top :: rest) ↔ kind ∈ (g.terminalLeads top).names ∨ g.Admits kind after))
    (h : g.Gathers after kinds) :
    g.Gathers (top :: rest) ((g.terminalLeads top).names ++ kinds) where
  ne_nil := by simp [h.ne_nil]
  isTerminal kind hkind := by
    rcases List.mem_append.mp hkind with hkind | hkind
    · exact hg.isTerminal_of_mem_names hkind
    · exact h.isTerminal kind hkind
  mem_iff kind hkind := by rw [List.mem_append, hadmits kind hkind, h.mem_iff kind hkind]

theorem WellFormed.gathers_nil (hg : g.WellFormed) : g.Gathers [] [g.catalog.epsilon] where
  ne_nil := by simp
  isTerminal := by simpa using hg.catalog.isTerminal_epsilon
  mem_iff kind _ := by rw [List.mem_singleton, admits_nil_iff]

theorem gathers_of_terminal (hc : g.catalog.contains top = true)
    (htop : g.isNonterminal top = false) : g.Gathers (top :: rest) [top] where
  ne_nil := by simp
  isTerminal := by simpa using isTerminal_of_contains hc htop
  mem_iff kind _ := by rw [List.mem_singleton, admits_cons_of_terminal htop]

theorem WellFormed.gathers_of_leads (hg : g.WellFormed) (htop : g.isNonterminal top = true)
    (hnone : g.alternative? top .nonterminal = none) (hempty : g.hasEmpty top = false) :
    g.Gathers (top :: rest) (g.terminalLeads top).names where
  ne_nil := by
    -- the non-terminal has an alternative, and no other than with a terminal lead
    obtain ⟨lead, body, h⟩ := hg.exists_alternative htop
    cases lead with
    | terminal name => exact List.ne_nil_of_mem (hg.mem_names_terminalLeads_iff.mpr ⟨body, h⟩)
    | nonterminal => simp [hnone] at h
    | empty => simp [hasEmpty, h] at hempty
  isTerminal kind hkind := hg.isTerminal_of_mem_names hkind
  mem_iff kind hkind := (hg.admits_cons_of_leads hkind htop hnone hempty).symm

/-- In more steps than the expected symbols may cost, all the kinds are collected. -/
theorem WellFormed.exists_gather (hg : g.WellFormed) (hr : g.NoHiddenLeftRecursion) {n : Nat}
    (hn : g.potential expected < n) (hc : ∀ symbol ∈ expected, g.catalog.contains symbol = true) :
    ∃ kinds, g.gather n expected = some kinds ∧ g.Gathers expected kinds := by
  induction n generalizing expected with
  | zero => omega
  | succ n ih =>
      cases expected with
      | nil => exact ⟨_, rfl, hg.gathers_nil⟩
      | cons top rest =>
          obtain ⟨htop, hrest⟩ := List.forall_mem_cons.mp hc
          unfold gather
          cases hnt : g.isNonterminal top with
          | false => exact ⟨[top], by simp, gathers_of_terminal htop hnt⟩
          | true =>
              simp only [Bool.not_true, Bool.false_eq_true, if_false]
              cases hbody : g.alternative? top .nonterminal with
              | some body =>
                  have hlt := hg.potential_fallback_lt hr hbody rest
                  have hsymbols : ∀ symbol ∈ body ++ rest, g.catalog.contains symbol = true :=
                    List.forall_mem_append.mpr
                      ⟨fun _ hsymbol => hg.contains_of_alternative? hbody hsymbol, hrest⟩
                  obtain ⟨kinds, hgather, hkinds⟩ := ih (by omega) hsymbols
                  refine ⟨(g.terminalLeads top).names ++ kinds, by simp [hgather], ?_⟩
                  exact hg.gathers_append
                    (fun kind hkind => hg.admits_cons_of_fallback hkind hbody) hkinds
              | none =>
                  cases hempty : g.hasEmpty top with
                  | true =>
                      have hlt := potential_vanish_lt (.of_empty hbody hempty) rest
                      obtain ⟨kinds, hgather, hkinds⟩ := ih (by omega) hrest
                      refine ⟨(g.terminalLeads top).names ++ kinds, by simp [hgather], ?_⟩
                      exact hg.gathers_append
                        (fun kind hkind => hg.admits_cons_of_empty hkind hbody hempty) hkinds
                  | false => exact ⟨_, by simp, hg.gathers_of_leads hnt hbody hempty⟩

end Grammar

@[simp] theorem mem_ascending {names : List String} {name : String} :
    name ∈ ascending names ↔ name ∈ names := by
  rw [ascending, List.mem_mergeSort, List.mem_eraseDups]

namespace Parser

variable {g : Grammar} {root : String} {p : Parser}

theorem gathers_acceptable (hg : g.WellFormed) (hr : g.NoHiddenLeftRecursion)
    (hclosed : p.closed = false) (hc : ∀ symbol ∈ p.expected, g.catalog.contains symbol = true) :
    g.Gathers p.expected (p.acceptable g) := by
  obtain ⟨hfault, haccepted⟩ := closed_eq_false_iff.mp hclosed
  obtain ⟨kinds, hgather, hkinds⟩ :=
    hg.exists_gather hr (g.potential_lt_stepBound p.expected) hc
  have hanswer : p.acceptable g = ascending kinds := by
    simp [acceptable, haccepted, hfault, hgather]
  have hmem : ∀ kind, kind ∈ p.acceptable g ↔ kind ∈ kinds := by
    intro kind
    rw [hanswer, mem_ascending]
  refine ⟨?_, fun kind hkind => hkinds.isTerminal kind ((hmem kind).mp hkind), fun kind hkind => ?_⟩
  · obtain ⟨kind, hkind⟩ := List.exists_mem_of_ne_nil kinds hkinds.ne_nil
    exact List.ne_nil_of_mem ((hmem kind).mpr hkind)
  · rw [hmem, hkinds.mem_iff kind hkind]

/-- A refused token leaves the answer as it was before it came. -/
theorem acceptable_of_fault {token : Token} {q : Parser} (hclosed : p.closed = false)
    (hfault : q.fault = some ⟨token, p.expected⟩) (haccepted : q.accepted = false) :
    q.acceptable g = p.acceptable g := by
  obtain ⟨hnone, hopen⟩ := closed_eq_false_iff.mp hclosed
  simp [acceptable, hfault, haccepted, hnone, hopen]

/-- An open parser refuses exactly the tokens that are not admitted. -/
theorem fault_accept (hg : g.WellFormed) (hr : g.NoHiddenLeftRecursion)
    (hclosed : p.closed = false) (token : Token) :
    (g.Admits token.kind p.expected ∧ (p.accept g token).fault = none) ∨
    (¬ g.Admits token.kind p.expected ∧
      (p.accept g token).fault = some ⟨token, p.expected⟩ ∧
      (p.accept g token).accepted = false) := by
  cases outcome_accept hg hr hclosed token with
  | finished hsettles hkind _ hfault =>
      have hmove : g.move token.kind [] = .finish := Grammar.move_eq_finish_iff.mpr ⟨rfl, hkind⟩
      rw [Grammar.admits_iff_of_settles hsettles, hmove]
      exact .inl ⟨rfl, hfault⟩
  | @consumed rest hsettles _ hfault =>
      have hmove : g.move token.kind (token.kind :: rest) = .consume rest :=
        Grammar.move_eq_consume_iff.mpr rfl
      rw [Grammar.admits_iff_of_settles hsettles, hmove]
      exact .inl ⟨rfl, hfault⟩
  | refused hsettles hrefuses _ hfault haccepted =>
      rw [Grammar.admits_iff_of_settles hsettles, hrefuses]
      exact .inr ⟨by simp, hfault, haccepted⟩

/-- **The answer is exact.** In every state that an open parser can get into, the acceptable kinds
are some terminals, and precisely a token of another kind is refused. A refused token leaves the
answer as it was, so its kind is not in it, and neither it nor the end of the parse is ever taken
back: what comes later changes nothing. Once the parse is accepted, nothing is acceptable. -/
theorem acceptable_exact {terminals : List Terminal} {nonterminals : List String} {c : Catalog}
    {productions : Productions} {q : Parser} (hc : Catalog.build terminals nonterminals = .ok c)
    (hg : Grammar.build c productions = .ok g) (hr : g.NoHiddenLeftRecursion)
    (hp : g.parser root = .ok p) (tokens : List Token) (hq : p.acceptAll g tokens = q) :
    (q.closed = false →
      q.acceptable g ≠ [] ∧ (∀ kind ∈ q.acceptable g, g.catalog.isTerminal kind = true) ∧
      ∀ token : Token,
        (g.isNonterminal token.kind = false →
          ((q.accept g token).fault.isSome = true ↔ token.kind ∉ q.acceptable g)) ∧
        ∀ fault, (q.accept g token).fault = some fault →
          fault.token = token ∧ (q.accept g token).acceptable g = q.acceptable g ∧
          token.kind ∉ (q.accept g token).acceptable g ∧
          ∀ later, (q.accept g token).acceptAll g later = q.accept g token) ∧
    (q.accepted = true → q.acceptable g = [] ∧ ∀ later, q.acceptAll g later = q) := by
  have hwf := Grammar.wellFormed_of_build (Catalog.build_eq_ok_iff.mp hc).2.2 hg
  have hroot := Grammar.contains_of_parser hp
  obtain rfl := Grammar.eq_start_of_parser hp
  have hknown : ∀ symbol ∈ q.expected, g.catalog.contains symbol = true := by
    rw [← hq]
    exact contains_acceptAll hwf hr (by simpa [start] using hroot) tokens
  refine ⟨fun hclosed => ?_, fun haccepted => ⟨?_, fun later => ?_⟩⟩
  · have hgathers := gathers_acceptable hwf hr hclosed hknown
    refine ⟨hgathers.ne_nil, hgathers.isTerminal, fun token => ⟨fun hkind => ?_, ?_⟩⟩
    · rw [hgathers.mem_iff _ hkind]
      rcases fault_accept hwf hr hclosed token with ⟨hadmits, h⟩ | ⟨hadmits, h, -⟩
      · simp [h, hadmits]
      · simp [h, hadmits]
    · intro fault hfault
      rcases fault_accept hwf hr hclosed token with ⟨-, h⟩ | ⟨hadmits, h, haccepted⟩
      · simp [h] at hfault
      · have hsame := acceptable_of_fault (g := g) hclosed h haccepted
        rw [h] at hfault
        obtain rfl := Option.some.inj hfault
        refine ⟨rfl, hsame, fun hmem => ?_, acceptAll_of_closed (by simp [closed, h])⟩
        rw [hsame] at hmem
        -- a kind in the answer is a terminal, and those are in it only when they are admitted
        have hkind := hwf.catalog.not_isNonterminal (hgathers.isTerminal _ hmem)
        exact hadmits ((hgathers.mem_iff _ hkind).mp hmem)
  · simp [acceptable, haccepted]
  · exact acceptAll_of_closed (by simp [closed, haccepted]) later

/-- After a number in the built-in language, another number is refused, and the end is not. -/
theorem acceptable_exact_number :
    let number := Token.mk "NUMBER" ⟨1, 1⟩ ⟨1, 2⟩ "1"
    let last := Token.mk "EPSILON" ⟨1, 2⟩ ⟨1, 2⟩ ""
    let g := Expression.grammar
    let waiting := (start "EXPR").acceptAll g [number]
    let refused := waiting.accept g number
    let done := (start "EXPR").acceptAll g [number, last]
    g.parser "EXPR" = .ok (start "EXPR") ∧ waiting.closed = false ∧
    waiting.acceptable g ≠ [] ∧ (∀ kind ∈ waiting.acceptable g, g.catalog.isTerminal kind = true) ∧
    (refused.fault.isSome = true ↔ "NUMBER" ∉ waiting.acceptable g) ∧
    refused.fault = some ⟨number, waiting.expected⟩ ∧
    refused.acceptable g = waiting.acceptable g ∧ "NUMBER" ∉ refused.acceptable g ∧
    (∀ later, refused.acceptAll g later = refused) ∧
    done.accepted = true ∧ done.acceptable g = [] ∧ ∀ later, done.acceptAll g later = done := by
  intro number last g waiting refused done
  have hp : g.parser "EXPR" = .ok (start "EXPR") := rfl
  have hwaiting : waiting.closed = false := by decide +kernel
  have hfault : refused.fault = some ⟨number, waiting.expected⟩ := by decide +kernel
  have hdone : done.accepted = true := by decide +kernel
  obtain ⟨hne, hterminal, htoken⟩ := (acceptable_exact Expression.build_catalog
    Expression.build_grammar Expression.noHiddenLeftRecursion_grammar hp [number] rfl).1 hwaiting
  obtain ⟨-, hsame, hnot, hlater⟩ := (htoken number).2 _ hfault
  have hend := (acceptable_exact Expression.build_catalog Expression.build_grammar
    Expression.noHiddenLeftRecursion_grammar hp [number, last] rfl).2 hdone
  exact ⟨hp, hwaiting, hne, hterminal, (htoken number).1 rfl, hfault, hsame, hnot, hlater, hdone,
    hend⟩

end Parser

end Lookahead
