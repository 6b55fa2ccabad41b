import Lookahead.Proofs.Parser.Descent
import Lookahead.Proofs.Parser.Sentences

/-!
The stack machine and recursive descent are the same parser. The machine is given one token at a
time and has to keep on its stacks what the recursion keeps in its calls, but they decide by the
same look at the table. So whenever a symbol is in front of what is expected, the machine gets where
a descent for that symbol gets (`mirrors_descend`): to the node, handed to whoever waits for it, or
to a token that it refuses, or to the end of the tokens.

For this the tokens are looked at as the descent sees them, all at once (`Runs`). That the machine
has them one by one is put back afterwards. While it is at work on a token, the machine is somewhere
on the path that the token takes it (`Stands`), and what the parser makes of the whole stream is
found at the end of that path.
-/

namespace Lookahead

open Descent

namespace Parser

variable {g : Grammar} {root : String} {p q r : Parser} {token last : Token}
variable {tokens left rest body : List Token} {before expected : List String}

/-! ### Handing over -/

theorem spanning_eq_of_ne_nil {nodes : List Node} (h : nodes ≠ []) (kind : String)
    (place place' : Position) :
    Node.spanning kind nodes place = Node.spanning kind nodes place' := by
  obtain ⟨child, others, rfl⟩ := List.exists_cons_of_ne_nil h
  simp [Node.spanning, List.getLast?_cons]

/-- A builder never becomes a node without children, so it does not matter where one would stand.
-/
theorem hand_place (place place' : Position) (builders : List Builder) (node : Node) :
    hand place builders node = hand place' builders node := by
  induction builders generalizing node with
  | nil => rfl
  | cons builder outer ih =>
      unfold hand
      dsimp only
      rw [spanning_eq_of_ne_nil (by simp) builder.kind place place', ih]

theorem receive_place (p : Parser) (node : Node) (place place' : Position) :
    p.receive node place = p.receive node place' := by
  rw [receive, receive, hand_place place place']

variable {kind : String} {size : Nat} {parts : List Node} {outer : List Builder}

theorem receive_last (hbuilders : p.builders = { kind, size, parts } :: outer)
    (hsize : size = parts.length + 1) (node : Node) (place : Position) :
    p.receive node place =
      receive { p with builders := outer } (Node.spanning kind (parts ++ [node]) place) place := by
  simp [receive, hbuilders, hand, hsize]

theorem receive_part (hbuilders : p.builders = { kind, size, parts } :: outer)
    (hsize : parts.length + 1 < size) (node : Node) (place : Position) :
    p.receive node place =
      { p with builders := { kind, size, parts := parts ++ [node] } :: outer } := by
  have hopen : ¬ size ≤ (parts ++ [node]).length := by simp; omega
  simp only [receive, hbuilders, hand, if_neg hopen, Option.none_or]

/-! ### Runs -/

/-- A parser gets ahead with tokens: it takes a step for the first one, or consumes it and goes on
with the next. That the end of the input may be accepted with a token is left out here. -/
inductive Runs (g : Grammar) : Parser → List Token → Parser → List Token → Prop
  | refl (p : Parser) (tokens : List Token) : Runs g p tokens p tokens
  | more {p q r : Parser} {token : Token} {rest left : List Token}
      (hstep : ∀ before, step g before token p = .more q)
      (hruns : Runs g q (token :: rest) r left) : Runs g p (token :: rest) r left
  | consume {p r : Parser} {token : Token} {rest left : List Token} {expected : List String}
      (hexpected : p.expected = token.kind :: expected)
      (hruns : Runs g (receive { p with expected } (.leaf token) token.start) rest r left) :
      Runs g p (token :: rest) r left

theorem Runs.trans (h : Runs g p tokens q rest) (h' : Runs g q rest r left) :
    Runs g p tokens r left := by
  induction h with
  | refl => exact h'
  | more hstep _ ih => exact .more hstep (ih h')
  | consume hexpected _ ih => exact .consume hexpected (ih h')

/-- A parser gets where a descent gets: to what the descent reads, or to the token that does not
fit, or to the end of the tokens while something is still expected. -/
def Mirrors {α : Type} (g : Grammar) (p : Parser) (tokens : List Token) (reached : α → Parser) :
    Descent α → Prop
  | parsed value rest => Runs g p tokens (reached value) rest
  | failed token rest =>
    ∃ q, Runs g p tokens q (token :: rest) ∧ (g.move token.kind q.expected).refuses = true
  | ended => ∃ q, Runs g p tokens q [] ∧ q.expected ≠ []

theorem Mirrors.of_runs {α : Type} {reached : α → Parser} {d : Descent α}
    (hruns : Runs g p tokens q rest) (h : Mirrors g q rest reached d) :
    Mirrors g p tokens reached d := by
  cases d with
  | parsed value left => exact hruns.trans h
  | failed token left =>
      obtain ⟨r, hr, hrefuses⟩ := h
      exact ⟨r, hruns.trans hr, hrefuses⟩
  | ended =>
      obtain ⟨r, hr, hne⟩ := h
      exact ⟨r, hruns.trans hr, hne⟩

theorem Mirrors.map {α β : Type} {f : α → β} {reached : β → Parser} {d : Descent α}
    (h : Mirrors g p tokens (reached ∘ f) d) : Mirrors g p tokens reached (d.map f) := by
  cases d with
  | parsed | failed | ended => exact h

/-- The symbols of a body, read one after the other into the innermost builder. -/
theorem mirrors_inOrder {read : String → List Token → Option (Descent Node)} (place : Position)
    (hread : ∀ {symbol tokens d p expected}, read symbol tokens = some d →
      p.expected = symbol :: expected →
        Mirrors g p tokens (fun node => receive { p with expected } node place) d)
    {symbols : List String} {d : Descent (List Node)} (hne : symbols ≠ [])
    (hd : inOrder read symbols tokens = some d) (hexpected : p.expected = symbols ++ expected)
    (hbuilders : p.builders = { kind, size, parts } :: outer)
    (hsize : size = parts.length + symbols.length) :
    Mirrors g p tokens (fun nodes => receive { p with expected, builders := outer }
      (Node.spanning kind (parts ++ nodes) place) place) d := by
  induction symbols generalizing p tokens parts d with
  | nil => exact absurd rfl hne
  | cons symbol others ih =>
      unfold inOrder at hd
      split at hd
      · rename_i node left hfirst
        obtain ⟨d, hothers, rfl⟩ := Option.map_eq_some_iff.mp hd
        have hruns : Runs g p tokens
            (receive { p with expected := others ++ expected } node place) left :=
          hread hfirst hexpected
        cases others with
        | nil =>
            -- the last symbol completes the builder, and the node goes to the next one out
            cases hothers
            rw [receive_last (p := { p with expected := [] ++ expected }) hbuilders hsize] at hruns
            exact hruns
        | cons next later =>
            rw [receive_part (p := { p with expected := next :: later ++ expected }) hbuilders
              (by simp [hsize])] at hruns
            refine .of_runs hruns (.map ?_)
            have hlater := ih (p := { p with
                expected := next :: later ++ expected
                builders := { kind, size, parts := parts ++ [node] } :: outer })
              (by simp) hothers rfl rfl (by simp [hsize]; omega)
            simpa [Function.comp_def] using hlater
      · rename_i hfirst
        cases hd
        exact hread hfirst hexpected
      · rename_i hfirst
        cases hd
        exact hread hfirst hexpected
      · contradiction

/-- **The machine mirrors the descent.** With a symbol in front, a parser gets where the descent for
the symbol gets. -/
theorem mirrors_descend (hg : g.WellFormed) {n : Nat} {symbol : String} {d : Descent Node}
    (hd : g.descend n symbol tokens = some d) (hexpected : p.expected = symbol :: expected)
    (place : Position) :
    Mirrors g p tokens (fun node => receive { p with expected } node place) d := by
  induction n generalizing symbol tokens d p expected place with
  | zero => simp [Grammar.descend] at hd
  | succ n ih =>
      cases tokens with
      | nil =>
          cases hd
          exact ⟨p, .refl _ _, by simp [hexpected]⟩
      | cons token rest =>
          generalize hresult : some d = result at hd
          cases hd ▸ hg.descends n symbol token rest with
          | leaf hkind =>
              cases hresult
              rw [hkind] at hexpected
              refine .consume hexpected ?_
              rw [receive_place _ _ token.start place]
              exact .refl _ _
          | failed hne hcases =>
              cases hresult
              refine ⟨p, .refl _ _, ?_⟩
              rcases hcases with hterminal | ⟨hsymbol, hnone, hempty⟩
              · rw [Grammar.move_eq_mismatch_iff.mpr ⟨expected, hexpected, hne, hterminal⟩]
                rfl
              · rw [Grammar.move_eq_stuck_iff.mpr
                  ⟨expected, hexpected, hne, hsymbol, hnone, hempty⟩]
                rfl
          | @branch body hne hsymbol hselect =>
              obtain ⟨d', hinOrder, heq⟩ := Option.map_eq_some_iff.mp hresult.symm
              obtain rfl := heq
              have hbody : body ≠ [] := (hg.stores_iff.mp (hg.stores_of_select? hselect)).1
              have hmove : g.move token.kind p.expected = .expand symbol body expected :=
                Grammar.move_eq_expand_iff.mpr ⟨hexpected, hne, hsymbol, hselect⟩
              have hstep (before) : step g before token p = .more { p with
                  expected := body ++ expected
                  builders := { kind := symbol, size := body.length } :: p.builders } :=
                step_eq_more_iff.mpr (.inl ⟨symbol, body, expected, hmove, rfl⟩)
              refine .of_runs (.more hstep (.refl _ _)) (.map ?_)
              have hinside := mirrors_inOrder token.start
                (fun hd hexpected => ih hd hexpected token.start) hbody hinOrder
                (p := { p with
                  expected := body ++ expected
                  builders := { kind := symbol, size := body.length } :: p.builders })
                rfl rfl (by simp)
              simp only [receive_place _ _ place token.start]
              exact hinside
          | empty hne hsymbol hnone hempty =>
              cases hresult
              have hmove : g.move token.kind p.expected = .vanish symbol expected :=
                Grammar.move_eq_vanish_iff.mpr ⟨hexpected, hne, hsymbol, hnone, hempty⟩
              have hstep (before) : step g before token p = .more (receive { p with expected }
                  (Node.spanning symbol [] token.start) token.start) :=
                step_eq_more_iff.mpr (.inr ⟨symbol, expected, hmove, rfl⟩)
              refine .more hstep ?_
              rw [receive_place _ _ token.start place]
              exact .refl _ _

/-! ### Tokens one by one -/

/-- Where a path of steps ends is where taking in the token ends. -/
theorem accept_eq_of_path (hg : g.WellFormed) (hr : g.NoHiddenLeftRecursion)
    (hclosed : p.closed = false) (hpath : Path g p.expected token p q)
    (hdone : step g p.expected token q = .done r) : p.accept g token = r := by
  obtain ⟨q', hpath', hdone'⟩ := exists_path_accept hg hr hclosed token
  have hunique : Relator.RightUnique
      fun one other => step g p.expected token one = .more other := by
    intro one other other' h h'
    exact Progress.more.inj (h.symm.trans h')
  have heq : q = q' := by
    rcases hpath.total_of_right_unique hunique hpath' with h | h
    · rcases h.cases_head with heq | ⟨_, hmore, -⟩
      · exact heq
      · rw [hdone] at hmore
        contradiction
    · rcases h.cases_head with heq | ⟨_, hmore, -⟩
      · exact heq.symm
      · rw [hdone'] at hmore
        contradiction
  subst heq
  exact Progress.done.inj (hdone'.symm.trans hdone)

theorem kind_eq_epsilon_iff (hbody : ∀ token ∈ body, token.kind ≠ g.catalog.epsilon)
    (hlast : last.kind = g.catalog.epsilon) {used : List Token}
    (heq : body ++ [last] = used ++ token :: rest) :
    token.kind = g.catalog.epsilon ↔ rest = [] := by
  constructor
  · intro hkind
    obtain ⟨rfl, rfl⟩ := eq_of_append_eq heq fun hmem => hbody token hmem hkind
    simpa using heq.symm
  · rintro rfl
    obtain ⟨-, htoken⟩ := List.append_inj' heq rfl
    rw [← (List.cons.inj htoken).1, hlast]

/-- The parser is on the way of a stream, with some of it left: on the path of the first token that
is left, or at the end of all paths, and then the parse is accepted if nothing is expected. -/
inductive Stands (g : Grammar) (root : String) (tokens : List Token) (p : Parser) :
    List Token → Prop
  | reading (used : List Token) {rest : List Token} {token : Token}
      (heq : tokens = used ++ token :: rest)
      (hclosed : ((start root).acceptAll g used).closed = false)
      (hpath : Path g ((start root).acceptAll g used).expected token
        ((start root).acceptAll g used) p) :
      Stands g root tokens p (token :: rest)
  | atEnd (hfault : p.fault = none)
      (h : (start root).acceptAll g tokens = { p with accepted := decide (p.expected = []) }) :
      Stands g root tokens p []

theorem stands_start (g : Grammar) (root : String) (hne : tokens ≠ []) :
    Stands g root tokens (start root) tokens := by
  obtain ⟨token, rest, rfl⟩ := List.exists_cons_of_ne_nil hne
  exact .reading [] rfl rfl .refl

theorem Stands.consume (hg : g.WellFormed) (hr : g.NoHiddenLeftRecursion)
    (hbody : ∀ token ∈ body, token.kind ≠ g.catalog.epsilon)
    (hlast : last.kind = g.catalog.epsilon)
    (h : Stands g root (body ++ [last]) p (token :: rest))
    (hexpected : p.expected = token.kind :: expected) :
    Stands g root (body ++ [last])
      (receive { p with expected } (.leaf token) token.start) rest := by
  cases h with
  | reading used heq hclosed hpath =>
      have hmove : g.move token.kind p.expected = .consume expected :=
        Grammar.move_eq_consume_iff.mpr hexpected
      have haccept := accept_eq_of_path hg hr hclosed hpath
        (step_eq_done_iff.mpr (.inr (.inl ⟨expected, hmove, rfl⟩)))
      have hkind := kind_eq_epsilon_iff hbody hlast heq
      obtain ⟨hnone, hopen⟩ := closed_eq_false_iff.mp hclosed
      obtain ⟨hfault, haccepted⟩ := hpath.closed_eq
      cases rest with
      | nil =>
          -- the token for the end, so the parse is accepted if nothing else is expected
          have hflag : decide (token.kind = g.catalog.epsilon ∧ expected = []) =
              decide (expected = []) := by rw [decide_eq_decide, and_iff_right (hkind.mpr rfl)]
          refine .atEnd (hfault.trans hnone) ?_
          rw [heq, acceptAll_append, acceptAll_cons, acceptAll_nil, haccept, hflag]
          rfl
      | cons next later =>
          -- any other token leaves the parser open, for the next one
          have hne : token.kind ≠ g.catalog.epsilon := fun h => nomatch hkind.mp h
          have hall : (start root).acceptAll g (used ++ [token]) =
              receive { p with expected } (.leaf token) token.start := by
            rw [acceptAll_append, acceptAll_cons, acceptAll_nil, haccept]
            simp [hne, receive, haccepted.trans hopen]
          refine .reading (used ++ [token]) (by simp [heq]) ?_ ?_
          · rw [hall, closed_eq_false_iff]
            exact ⟨hfault.trans hnone, haccepted.trans hopen⟩
          · rw [hall]

/-- A parser that gets ahead stays on the way. -/
theorem Stands.runs (hg : g.WellFormed) (hr : g.NoHiddenLeftRecursion)
    (hbody : ∀ token ∈ body, token.kind ≠ g.catalog.epsilon)
    (hlast : last.kind = g.catalog.epsilon) (h : Stands g root (body ++ [last]) p tokens)
    (hruns : Runs g p tokens q rest) : Stands g root (body ++ [last]) q rest := by
  induction hruns with
  | refl => exact h
  | more hstep _ ih =>
      cases h with
      | reading used heq hclosed hpath =>
          exact ih (.reading used heq hclosed (hpath.tail (hstep _)))
  | consume hexpected _ ih => exact ih (h.consume hg hr hbody hlast hexpected)

/-! ### Faults -/

/-- The parser takes in the tokens before `token`, and that one is the fault. -/
def FaultsAt (g : Grammar) (p : Parser) (tokens : List Token) (token : Token)
    (rest : List Token) : Prop :=
  ∃ before, tokens = before ++ token :: rest ∧ (p.acceptAll g before).closed = false ∧
    (p.acceptAll g (before ++ [token])).fault.map (·.token) = some token

variable {token' : Token} {rest' : List Token}

/-- A fault stays, and is no acceptance. -/
theorem FaultsAt.verdict (hg : g.WellFormed) (hr : g.NoHiddenLeftRecursion)
    (h : p.FaultsAt g tokens token rest) :
    (p.acceptAll g tokens).fault.map (·.token) = some token ∧
      (p.acceptAll g tokens).accepted = false := by
  obtain ⟨before, rfl, hopen, hfault⟩ := h
  rw [acceptAll_append, acceptAll_cons, acceptAll_nil] at hfault
  rw [acceptAll_append, acceptAll_cons]
  cases outcome_accept hg hr hopen token with
  | finished _ _ _ hnone | consumed _ _ hnone => simp [hnone] at hfault
  | refused _ _ _ hsome haccepted =>
      rw [acceptAll_of_closed (by simp [closed, hsome])]
      exact ⟨hfault, haccepted⟩

theorem eq_nil_of_fault {before more : List Token}
    (hfault : (p.acceptAll g (before ++ [token])).fault.map (·.token) = some token)
    (hopen : (p.acceptAll g (before ++ more)).closed = false)
    (hmore : more <+: token :: rest) : more = [] := by
  cases more with
  | nil => rfl
  | cons first others =>
      obtain ⟨rfl, -⟩ := List.cons_prefix_cons.mp hmore
      have hclosed : (p.acceptAll g (before ++ [first])).closed = true := by
        cases hnone : (p.acceptAll g (before ++ [first])).fault with
        | none => simp [hnone] at hfault
        | some => simp [closed, hnone]
      rw [← List.singleton_append, ← List.append_assoc, acceptAll_append,
        acceptAll_of_closed hclosed, hclosed] at hopen
      contradiction

/-- A stream has one fault at most. -/
theorem FaultsAt.unique (h : p.FaultsAt g tokens token rest)
    (h' : p.FaultsAt g tokens token' rest') : token = token' ∧ rest = rest' := by
  obtain ⟨before, heq, hopen, hfault⟩ := h
  obtain ⟨before', heq', hopen', hfault'⟩ := h'
  have hsame : before ++ token :: rest = before' ++ token' :: rest' := heq.symm.trans heq'
  rcases List.append_eq_append_iff.mp hsame with ⟨more, rfl, hrest⟩ | ⟨more, rfl, hrest⟩
  · obtain rfl := eq_nil_of_fault hfault hopen' (hrest ▸ List.prefix_append _ _)
    simpa using hrest
  · obtain rfl := eq_nil_of_fault hfault' hopen (hrest ▸ List.prefix_append _ _)
    simpa using hrest.symm

theorem Stands.faultsAt (hg : g.WellFormed) (hr : g.NoHiddenLeftRecursion)
    (h : Stands g root tokens q (token :: rest))
    (hrefuses : (g.move token.kind q.expected).refuses = true) :
    (start root).FaultsAt g tokens token rest := by
  cases h with
  | reading used heq hclosed hpath =>
      refine ⟨used, heq, hclosed, ?_⟩
      rw [acceptAll_append, acceptAll_cons, acceptAll_nil, accept_eq_of_path hg hr hclosed hpath
        (step_eq_done_iff.mpr (.inr (.inr ⟨hrefuses, rfl⟩)))]
      rfl

/-! ### Verdicts -/

inductive Verdict (g : Grammar) (root : String) (tokens : List Token) (last : Token) :
    Descent Node → Prop
  | accepted {tree : Node} {left : List Token} (hleft : left = [] ∨ left = [last])
      (hroot : ((start root).acceptAll g tokens).root? = some tree)
      (hfault : ((start root).acceptAll g tokens).fault = none) :
      Verdict g root tokens last (parsed tree left)
  | surplus {tree : Node} {token : Token} {rest : List Token}
      (hkind : token.kind ≠ g.catalog.epsilon)
      (hfault : (start root).FaultsAt g tokens token rest) :
      Verdict g root tokens last (parsed tree (token :: rest))
  | failed {token : Token} {rest : List Token}
      (hfault : (start root).FaultsAt g tokens token rest) :
      Verdict g root tokens last (failed token rest)
  | ended (haccepted : ((start root).acceptAll g tokens).accepted = false)
      (hfault : ((start root).acceptAll g tokens).fault = none) : Verdict g root tokens last ended

theorem verdict_of_descend (hg : g.WellFormed) (hr : g.NoHiddenLeftRecursion)
    (hbody : ∀ token ∈ body, token.kind ≠ g.catalog.epsilon)
    (hlast : last.kind = g.catalog.epsilon) {n : Nat} {d : Descent Node}
    (hd : g.descend n root (body ++ [last]) = some d) :
    Verdict g root (body ++ [last]) last d := by
  have hmirrors := mirrors_descend hg hd (rfl : (start root).expected = root :: []) last.start
  have hstands : ∀ {q rest}, Runs g (start root) (body ++ [last]) q rest →
      Stands g root (body ++ [last]) q rest :=
    (stands_start g root (by simp)).runs hg hr hbody hlast
  cases d with
  | parsed tree left =>
      have hreached := hstands hmirrors
      cases hreached with
      | atEnd _ h =>
          refine .accepted (.inl rfl) ?_ ?_
          · rw [h]
            rfl
          · rw [h]
            rfl
      | @reading used rest token heq hclosed hpath =>
          have hkind := kind_eq_epsilon_iff hbody hlast heq
          cases rest with
          | nil =>
              -- the token for the end is left, and finishes the parse
              obtain ⟨rfl, htoken⟩ := List.append_inj' heq rfl
              obtain rfl := (List.cons.inj htoken).1
              have hmove : g.move last.kind [] = .finish :=
                Grammar.move_eq_finish_iff.mpr ⟨rfl, hlast⟩
              have haccept := accept_eq_of_path hg hr hclosed hpath
                (step_eq_done_iff.mpr (.inl ⟨hmove, rfl⟩))
              refine .accepted (.inr rfl) ?_ ?_
              · rw [acceptAll_append, acceptAll_cons, acceptAll_nil, haccept]
                rfl
              · rw [acceptAll_append, acceptAll_cons, acceptAll_nil, haccept]
                rfl
          | cons next later =>
              have hne : token.kind ≠ g.catalog.epsilon := fun h => nomatch hkind.mp h
              have hmove : g.move token.kind [] = .surplus :=
                Grammar.move_eq_surplus_iff.mpr ⟨rfl, hne⟩
              refine .surplus hne ((hstands hmirrors).faultsAt hg hr ?_)
              change (g.move token.kind []).refuses = true
              rw [hmove]
              rfl
  | failed token rest =>
      obtain ⟨q, hruns, hrefuses⟩ := hmirrors
      exact .failed ((hstands hruns).faultsAt hg hr hrefuses)
  | ended =>
      obtain ⟨q, hruns, hne⟩ := hmirrors
      cases hstands hruns with
      | atEnd hfault h =>
          refine .ended ?_ ?_
          · rw [h]
            exact decide_eq_false hne
          · rw [h]
            exact hfault

namespace Verdict

variable {d : Descent Node}

theorem root?_iff (h : Verdict g root tokens last d) (hg : g.WellFormed)
    (hr : g.NoHiddenLeftRecursion) (hlast : last.kind = g.catalog.epsilon) (tree : Node) :
    ((start root).acceptAll g tokens).root? = some tree ↔
      d = .parsed tree [] ∨ d = .parsed tree [last] := by
  have hnone : ∀ {token rest}, (start root).FaultsAt g tokens token rest →
      ((start root).acceptAll g tokens).root? = none := fun hfault => by
    simp [root?, (hfault.verdict hg hr).2]
  cases h with
  | @accepted other left hleft hroot =>
      rw [hroot]
      rcases hleft with rfl | rfl
      · simp
      · simp
  | @surplus other token rest hkind hfault =>
      have hne : token ≠ last := by
        rintro rfl
        exact hkind hlast
      simp [hnone hfault, hne]
  | failed hfault => simp [hnone hfault]
  | ended haccepted => simp [root?, haccepted]

theorem faultsAt_iff (h : Verdict g root tokens last d) (hg : g.WellFormed)
    (hr : g.NoHiddenLeftRecursion) (hlast : last.kind = g.catalog.epsilon) (token : Token)
    (rest : List Token) :
    (start root).FaultsAt g tokens token rest ↔
      d = .failed token rest ∨
        (∃ tree, d = .parsed tree (token :: rest)) ∧ token.kind ≠ g.catalog.epsilon := by
  have hnot : ((start root).acceptAll g tokens).fault = none →
      ¬ (start root).FaultsAt g tokens token rest := fun hnone hfault => by
    simpa [hnone] using (hfault.verdict hg hr).1
  cases h with
  | accepted hleft _ hnone =>
      rw [iff_false_left (hnot hnone)]
      rintro (h | ⟨⟨tree, h⟩, hkind⟩)
      · contradiction
      · -- what is left can only be the token for the end
        rcases hleft with rfl | rfl
        · cases h
        · cases h
          exact hkind hlast
  | surplus hkind hfault =>
      constructor
      · intro h
        obtain ⟨rfl, rfl⟩ := hfault.unique h
        exact .inr ⟨⟨_, rfl⟩, hkind⟩
      · rintro (h | ⟨⟨tree, h⟩, -⟩)
        · contradiction
        · cases h
          exact hfault
  | failed hfault =>
      constructor
      · intro h
        obtain ⟨rfl, rfl⟩ := hfault.unique h
        exact .inl rfl
      · rintro (h | ⟨⟨tree, h⟩, -⟩)
        · cases h
          exact hfault
        · contradiction
  | ended _ hnone => simp [hnot hnone]

theorem fault_iff (h : Verdict g root tokens last d) (hg : g.WellFormed)
    (hr : g.NoHiddenLeftRecursion) (token : Token) :
    ((start root).acceptAll g tokens).fault.map (·.token) = some token ↔
      ∃ rest, (start root).FaultsAt g tokens token rest := by
  refine ⟨fun hsome => ?_, fun ⟨rest, hfault⟩ => (hfault.verdict hg hr).1⟩
  cases h with
  | accepted _ _ hnone => simp [hnone] at hsome
  | surplus _ hfault =>
      obtain rfl := Option.some.inj ((hfault.verdict hg hr).1.symm.trans hsome)
      exact ⟨_, hfault⟩
  | failed hfault =>
      obtain rfl := Option.some.inj ((hfault.verdict hg hr).1.symm.trans hsome)
      exact ⟨_, hfault⟩
  | ended _ hnone => simp [hnone] at hsome

theorem ended_iff (h : Verdict g root tokens last d) (hg : g.WellFormed)
    (hr : g.NoHiddenLeftRecursion) :
    ((start root).acceptAll g tokens).accepted = false ∧
      ((start root).acceptAll g tokens).fault = none ↔ d = .ended := by
  have hsome : ∀ {token rest}, (start root).FaultsAt g tokens token rest →
      ((start root).acceptAll g tokens).fault ≠ none := fun hfault hnone => by
    simpa [hnone] using (hfault.verdict hg hr).1
  cases h with
  | accepted _ hroot => simp [(Option.ite_none_right_eq_some.mp hroot).1]
  | surplus _ hfault => simp [hsome hfault]
  | failed hfault => simp [hsome hfault]
  | ended haccepted hnone => simp [haccepted, hnone]

end Verdict

/-- **The stack machine is recursive descent.** On every stream that ends with its only token for
the end of the input, the descent for the root ends, at any depth beyond the bound, and the parser
comes to the same: it accepts with the tree that the descent returns, when that leaves nothing or
the last token only; it has a fault at the token that the descent fails at, or at the first one that
it leaves, when that is not the last; and it does neither exactly when the descent runs out of
tokens. -/
theorem acceptAll_iff_descend {terminals : List Terminal} {nonterminals : List String} {c : Catalog}
    {productions : Productions} (hc : Catalog.build terminals nonterminals = .ok c)
    (hg : Grammar.build c productions = .ok g) (hr : g.NoHiddenLeftRecursion)
    (hp : g.parser root = .ok p) (hbody : ∀ token ∈ body, token.kind ≠ g.catalog.epsilon)
    (hlast : last.kind = g.catalog.epsilon) :
    ∃ d : Descent Node,
      (∀ depth, g.depthBound (body ++ [last]) ≤ depth →
        g.descend depth root (body ++ [last]) = some d) ∧
      (∀ tree, (p.acceptAll g (body ++ [last])).root? = some tree ↔
        d = .parsed tree [] ∨ d = .parsed tree [last]) ∧
      (∀ token rest, p.FaultsAt g (body ++ [last]) token rest ↔
        d = .failed token rest ∨
          (∃ tree, d = .parsed tree (token :: rest)) ∧ token.kind ≠ g.catalog.epsilon) ∧
      (∀ token, (p.acceptAll g (body ++ [last])).fault.map (·.token) = some token ↔
        ∃ rest, p.FaultsAt g (body ++ [last]) token rest) ∧
      ((p.acceptAll g (body ++ [last])).accepted = false ∧
        (p.acceptAll g (body ++ [last])).fault = none ↔ d = .ended) := by
  have hwf := Grammar.wellFormed_of_build (Catalog.build_eq_ok_iff.mp hc).2.2 hg
  obtain rfl := Grammar.eq_start_of_parser hp
  obtain ⟨d, hd⟩ := hwf.exists_descend hr root (body ++ [last])
  have hverdict := verdict_of_descend hwf hr hbody hlast (hd _ le_rfl)
  exact ⟨d, hd, hverdict.root?_iff hwf hr hlast, hverdict.faultsAt_iff hwf hr hlast,
    hverdict.fault_iff hwf hr, hverdict.ended_iff hwf hr⟩

/-- A number, and a parenthesis that was never opened. The descent is content with the number, so
the parenthesis is the fault; the empty tails of the expression stand right before it. -/
theorem acceptAll_iff_descend_parenthesis :
    let number := Token.mk "NUMBER" ⟨1, 1⟩ ⟨1, 2⟩ "1"
    let close := Token.mk "CLOSE" ⟨1, 2⟩ ⟨1, 3⟩ ")"
    let last := Token.mk "EPSILON" ⟨1, 3⟩ ⟨1, 3⟩ ""
    let tree := Node.branch "EXPR" ⟨1, 1⟩ ⟨1, 2⟩ [
      .branch "MULT_EXPR" ⟨1, 1⟩ ⟨1, 2⟩ [
        .branch "UNARY_EXPR" ⟨1, 1⟩ ⟨1, 2⟩ [
          .branch "PRIMARY_EXPR" ⟨1, 1⟩ ⟨1, 2⟩ [.leaf number]],
        .branch "MULT_EXPR_TAIL" ⟨1, 2⟩ ⟨1, 2⟩ []],
      .branch "EXPR_TAIL" ⟨1, 2⟩ ⟨1, 2⟩ []]
    let g := Expression.grammar
    g.parser "EXPR" = .ok (start "EXPR") ∧
      (∀ token ∈ [number, close], token.kind ≠ g.catalog.epsilon) ∧
      last.kind = g.catalog.epsilon ∧
      (∀ depth, g.depthBound [number, close, last] ≤ depth →
        g.descend depth "EXPR" [number, close, last] = some (parsed tree [close, last])) ∧
      (start "EXPR").FaultsAt g [number, close, last] close [last] := by
  intro number close last tree g
  have hbody : ∀ token ∈ [number, close], token.kind ≠ g.catalog.epsilon := by decide
  have hdescend : g.descend (g.depthBound [number, close, last]) "EXPR" [number, close, last] =
      some (parsed tree [close, last]) := by decide +kernel
  obtain ⟨d, hd, -, hfault, -⟩ := acceptAll_iff_descend Expression.build_catalog
    Expression.build_grammar Expression.noHiddenLeftRecursion_grammar
    (rfl : g.parser "EXPR" = .ok (start "EXPR")) hbody (rfl : last.kind = g.catalog.epsilon)
  obtain rfl := Option.some.inj ((hd _ le_rfl).symm.trans hdescend)
  exact ⟨rfl, hbody, rfl, hd, (hfault close [last]).mpr (.inr ⟨⟨tree, rfl⟩, by decide⟩)⟩

end Parser

end Lookahead
