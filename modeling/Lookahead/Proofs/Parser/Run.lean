import Lookahead.Parser.Basic
import Lookahead.Proofs.Grammar.Slots
import Mathlib.Logic.Relation

/-!
How a parser runs. What it decides depends on the expected symbols and the kind of the token alone,
so the first section says when each decision is taken, and from there on nobody unfolds
`Grammar.move` again.

A decision either ends the work on a token or leaves new expected symbols for the same token. In
the second case the new symbols are a function of the old ones (`Grammar.next?`), and a token is a
chain of such rewrites with an end. `Grammar.Settles` is that chain without the parser around it:
since it is deterministic, two accounts of what a token does to the expected symbols can be compared
at their ends.

`Parser.accept` takes the steps with a bound on their number. `Parser.exists_path_of_drive` forgets
the bound: whatever it was, the parser afterwards is the one at the end of a path of steps. That the
bound is never met is a property of the grammar and is shown elsewhere.
-/

namespace Lookahead

namespace Grammar

variable {g : Grammar} {kind top : String} {expected rest : List String} {body : Body}

/-! ### Decisions -/

theorem move_eq_finish_iff :
    g.move kind expected = .finish ↔ expected = [] ∧ kind = g.catalog.epsilon := by
  cases expected with
  | nil => simp [move]
  | cons first others => grind [move]

theorem move_eq_surplus_iff :
    g.move kind expected = .surplus ↔ expected = [] ∧ kind ≠ g.catalog.epsilon := by
  cases expected with
  | nil => simp [move]
  | cons first others => grind [move]

theorem move_eq_consume_iff : g.move kind expected = .consume rest ↔ expected = kind :: rest := by
  cases expected with
  | nil => grind [move]
  | cons first others => grind [move]

theorem move_eq_mismatch_iff :
    g.move kind expected = .mismatch top ↔
      ∃ others, expected = top :: others ∧ top ≠ kind ∧ g.isNonterminal top = false := by
  cases expected with
  | nil => grind [move]
  | cons first others => grind [move]

theorem move_eq_expand_iff :
    g.move kind expected = .expand top body rest ↔
      expected = top :: rest ∧ top ≠ kind ∧ g.isNonterminal top = true ∧
        g.select? top kind = some body := by
  cases expected with
  | nil => grind [move]
  | cons first others => grind [move]

theorem move_eq_vanish_iff :
    g.move kind expected = .vanish top rest ↔
      expected = top :: rest ∧ top ≠ kind ∧ g.isNonterminal top = true ∧
        g.select? top kind = none ∧ g.hasEmpty top = true := by
  cases expected with
  | nil => grind [move]
  | cons first others => grind [move]

theorem move_eq_stuck_iff :
    g.move kind expected = .stuck top ↔
      ∃ others, expected = top :: others ∧ top ≠ kind ∧ g.isNonterminal top = true ∧
        g.select? top kind = none ∧ g.hasEmpty top = false := by
  cases expected with
  | nil => grind [move]
  | cons first others => grind [move]

theorem ne_of_isNonterminal (htop : g.isNonterminal top = true)
    (hkind : g.isNonterminal kind = false) : top ≠ kind := by
  rintro rfl
  simp [htop] at hkind

theorem select?_eq_some_iff :
    g.select? top kind = some body ↔
      g.alternative? top (.terminal kind) = some body ∨
        g.alternative? top (.terminal kind) = none ∧
          g.alternative? top .nonterminal = some body := by
  rw [select?, Option.or_eq_some_iff]

theorem select?_eq_none_iff :
    g.select? top kind = none ↔
      g.alternative? top (.terminal kind) = none ∧ g.alternative? top .nonterminal = none := by
  rw [select?, Option.or_eq_none_iff]

theorem WellFormed.stores_of_select? (hg : g.WellFormed) (h : g.select? top kind = some body) :
    g.Stores top body := by
  rw [hg.stores_iff]
  rcases select?_eq_some_iff.mp h with h | ⟨-, h⟩
  · obtain ⟨others, rfl, -⟩ := hg.eq_cons_of_terminal h
    exact ⟨by simp, _, h⟩
  · obtain ⟨first, others, rfl, -⟩ := hg.eq_cons_of_nonterminal h
    exact ⟨by simp, _, h⟩

end Grammar

theorem Grammar.eq_start_of_parser {g : Grammar} {root : String} {p : Parser}
    (h : g.parser root = .ok p) : p = .start root := by
  unfold Grammar.parser at h
  split at h
  · exact (Except.ok.inj h).symm
  · contradiction

theorem Grammar.contains_of_parser {g : Grammar} {root : String} {p : Parser}
    (h : g.parser root = .ok p) : g.catalog.contains root = true := by
  unfold Grammar.parser at h
  split at h
  · assumption
  · contradiction

/-! ### What is expected while a token is at hand -/

/-- What is expected after a move that does not end the work on the token. -/
def Move.next? : Move → Option (List String)
  | .expand _ body rest => some (body ++ rest)
  | .vanish _ rest => some rest
  | .finish | .surplus | .consume _ | .mismatch _ | .stuck _ => none

def Move.refuses : Move → Bool
  | .surplus | .mismatch _ | .stuck _ => true
  | .finish | .consume _ | .expand _ _ _ | .vanish _ _ => false

namespace Grammar

/-- What is expected after one expansion under a lookahead, if it asks for one. -/
def next? (g : Grammar) (kind : String) (expected : List String) : Option (List String) :=
  (g.move kind expected).next?

theorem next?_eq_some_iff {g : Grammar} {kind : String} {expected after : List String} :
    g.next? kind expected = some after ↔
      (∃ top body rest, g.move kind expected = .expand top body rest ∧ after = body ++ rest) ∨
        ∃ top rest, g.move kind expected = .vanish top rest ∧ after = rest := by
  unfold next?
  cases g.move kind expected <;> simp [Move.next?, eq_comm]

theorem next?_cons_of_select {g : Grammar} {kind top : String} {body : Body}
    (htop : g.isNonterminal top = true) (hkind : g.isNonterminal kind = false)
    (h : g.select? top kind = some body) (rest : List String) :
    g.next? kind (top :: rest) = some (body ++ rest) := by
  have hmove : g.move kind (top :: rest) = .expand top body rest :=
    move_eq_expand_iff.mpr ⟨rfl, ne_of_isNonterminal htop hkind, htop, h⟩
  rw [next?, hmove, Move.next?]

theorem next?_cons_of_empty {g : Grammar} {kind top : String}
    (htop : g.isNonterminal top = true) (hkind : g.isNonterminal kind = false)
    (hnone : g.select? top kind = none) (hempty : g.hasEmpty top = true) (rest : List String) :
    g.next? kind (top :: rest) = some rest := by
  have hmove : g.move kind (top :: rest) = .vanish top rest :=
    move_eq_vanish_iff.mpr ⟨rfl, ne_of_isNonterminal htop hkind, htop, hnone, hempty⟩
  rw [next?, hmove, Move.next?]

/-- The expected symbols become others by expansions under a lookahead. -/
abbrev Rewrites (g : Grammar) (kind : String) : List String → List String → Prop :=
  Relation.ReflTransGen fun before after => g.next? kind before = some after

/-- The expected symbols become others in which the lookahead asks for no further expansion. -/
def Settles (g : Grammar) (kind : String) (expected settled : List String) : Prop :=
  g.Rewrites kind expected settled ∧ g.next? kind settled = none

/-- A lookahead settles expected symbols in one way only. -/
theorem Settles.unique {g : Grammar} {kind : String} {expected s t : List String}
    (hs : g.Settles kind expected s) (ht : g.Settles kind expected t) : s = t := by
  obtain ⟨hs, hsEnd⟩ := hs
  obtain ⟨ht, htEnd⟩ := ht
  induction hs using Relation.ReflTransGen.head_induction_on with
  | refl =>
      rcases Relation.ReflTransGen.cases_head ht with rfl | ⟨middle, hstep, -⟩
      · rfl
      · rw [hsEnd] at hstep
        contradiction
  | head hstep _ ih =>
      rcases Relation.ReflTransGen.cases_head ht with rfl | ⟨middle, hstep', hrest⟩
      · rw [htEnd] at hstep
        contradiction
      · rw [hstep] at hstep'
        obtain rfl := Option.some.inj hstep'
        exact ih hrest

theorem WellFormed.contains_of_rewrites {g : Grammar} (hg : g.WellFormed) {kind : String}
    {expected after : List String} (h : g.Rewrites kind expected after)
    (hc : ∀ symbol ∈ expected, g.catalog.contains symbol = true) :
    ∀ symbol ∈ after, g.catalog.contains symbol = true := by
  induction h with
  | refl => exact hc
  | tail _ hstep ih =>
      rcases next?_eq_some_iff.mp hstep with ⟨top, body, rest, hmove, rfl⟩ | ⟨top, rest, hmove, rfl⟩
      · obtain ⟨rfl, -, -, hselect⟩ := move_eq_expand_iff.mp hmove
        obtain ⟨-, lead, hbody⟩ := hg.stores_iff.mp (hg.stores_of_select? hselect)
        intro symbol hmem
        rcases List.mem_append.mp hmem with h | h
        · exact hg.contains_of_alternative? hbody h
        · exact ih symbol (List.mem_cons_of_mem _ h)
      · obtain ⟨rfl, -⟩ := move_eq_vanish_iff.mp hmove
        exact fun symbol h => ih symbol (List.mem_cons_of_mem _ h)

end Grammar

namespace Parser

variable {g : Grammar} {before : List String} {token : Token} {p q : Parser}

/-! ### Steps -/

/-- A step goes on in two ways: it opens a builder, or it hands over a node without children. -/
theorem step_eq_more_iff :
    step g before token p = .more q ↔
      (∃ top body rest, g.move token.kind p.expected = .expand top body rest ∧
        q = { p with
          expected := body ++ rest
          builders := { kind := top, size := body.length } :: p.builders }) ∨
      ∃ top rest, g.move token.kind p.expected = .vanish top rest ∧
        q = receive { p with expected := rest } (Node.spanning top [] token.start) token.start := by
  unfold step
  cases g.move token.kind p.expected <;> simp [eq_comm]

/-- A step ends the work on a token in three ways: the end of the input is accepted, the token is
handed over as a leaf, or it is refused. -/
theorem step_eq_done_iff :
    step g before token p = .done q ↔
      (g.move token.kind p.expected = .finish ∧ q = { p with accepted := true }) ∨
      (∃ rest, g.move token.kind p.expected = .consume rest ∧
        q = { receive { p with expected := rest } (.leaf token) token.start with
          accepted := decide (token.kind = g.catalog.epsilon ∧ rest = []) }) ∨
      ((g.move token.kind p.expected).refuses = true ∧ q = p.refuse token before) := by
  unfold step
  cases g.move token.kind p.expected <;> simp [Move.refuses, eq_comm]

theorem next?_eq_of_step_more (h : step g before token p = .more q) :
    g.next? token.kind p.expected = some q.expected := by
  rcases step_eq_more_iff.mp h with ⟨top, body, rest, hmove, rfl⟩ | ⟨top, rest, hmove, rfl⟩
  · exact Grammar.next?_eq_some_iff.mpr (.inl ⟨top, body, rest, hmove, rfl⟩)
  · exact Grammar.next?_eq_some_iff.mpr (.inr ⟨top, rest, hmove, rfl⟩)

theorem next?_eq_none_of_step_done (h : step g before token p = .done q) :
    g.next? token.kind p.expected = none := by
  unfold Grammar.next?
  unfold step at h
  cases hmove : g.move token.kind p.expected <;> simp [hmove, Move.next?] at h ⊢

/-! ### Paths of steps -/

/-- The steps by which a parser gets ahead with a token. -/
abbrev Path (g : Grammar) (before : List String) (token : Token) : Parser → Parser → Prop :=
  Relation.ReflTransGen fun p q => step g before token p = .more q

theorem Path.rewrites (h : Path g before token p q) :
    g.Rewrites token.kind p.expected q.expected :=
  h.lift expected fun _ _ => next?_eq_of_step_more

theorem Path.closed_eq (h : Path g before token p q) :
    q.fault = p.fault ∧ q.accepted = p.accepted := by
  induction h with
  | refl => exact ⟨rfl, rfl⟩
  | tail _ hstep ih =>
      rcases step_eq_more_iff.mp hstep with ⟨_, _, _, -, rfl⟩ | ⟨_, _, -, rfl⟩ <;> exact ih

theorem exists_path_of_drive {n : Nat} (h : drive g before token n p = some q) :
    ∃ r, Path g before token p r ∧ step g before token r = .done q := by
  induction n generalizing p with
  | zero => simp [drive] at h
  | succ n ih =>
      unfold drive at h
      cases hstep : step g before token p with
      | done r =>
          rw [hstep] at h
          obtain rfl := Option.some.inj h
          exact ⟨p, .refl, hstep⟩
      | more r =>
          rw [hstep] at h
          obtain ⟨s, hpath, hdone⟩ := ih h
          exact ⟨s, .head hstep hpath, hdone⟩

/-- A quantity that every expansion lowers bounds the number of steps. -/
theorem drive_isSome {μ : List String → Nat}
    (hμ : ∀ expected after, g.next? token.kind expected = some after → μ after < μ expected)
    {n : Nat} (h : μ p.expected < n) : (drive g before token n p).isSome = true := by
  induction n generalizing p with
  | zero => omega
  | succ n ih =>
      unfold drive
      cases hstep : step g before token p with
      | done r => rfl
      | more r =>
          have := hμ _ _ (next?_eq_of_step_more hstep)
          exact ih (by omega)

/-! ### Whole streams -/

@[simp] theorem acceptAll_nil (g : Grammar) (p : Parser) : p.acceptAll g [] = p := rfl

@[simp] theorem acceptAll_cons (g : Grammar) (p : Parser) (token : Token) (rest : List Token) :
    p.acceptAll g (token :: rest) = (p.accept g token).acceptAll g rest := rfl

theorem acceptAll_append (g : Grammar) (p : Parser) (first second : List Token) :
    p.acceptAll g (first ++ second) = (p.acceptAll g first).acceptAll g second :=
  List.foldl_append

theorem accept_of_closed (h : p.closed = true) : p.accept g token = p := by
  rw [accept, if_pos h]

/-- A parser that is done takes no notice of what follows. -/
theorem acceptAll_of_closed (h : p.closed = true) (tokens : List Token) :
    p.acceptAll g tokens = p := by
  induction tokens with
  | nil => rfl
  | cons token rest ih => rw [acceptAll_cons, accept_of_closed h, ih]

end Parser

end Lookahead
