import Lookahead.Proofs.Parser.Invariant

/-!
The verdict of a parse. The parser never says that it needs no more tokens, so it could be that the
input ends and nothing has been decided. That does not happen when the end of the input is in no
alternative, since then it is expected in one case only, which is that nothing else ever was
(`Lone`). So what an open parser does with the end of the input is to accept or to refuse it, and a
parser that accepts has its tree.
-/

namespace Lookahead

/-- The parse is decided, in precisely one of two ways: it is accepted and there is a tree, or a
token was refused and there is none. -/
def Parser.Decided (p : Parser) : Prop :=
  Xor (p.accepted = true ∧ p.root?.isSome = true ∧ p.fault = none)
    (p.fault.isSome = true ∧ p.root? = none)

namespace Parser

theorem decided_of_accepted {p : Parser} {tree : Node} (haccepted : p.accepted = true)
    (hresult : p.result = some tree) (hfault : p.fault = none) : p.Decided := by
  have hroot : p.root? = some tree := by rw [root?, if_pos haccepted, hresult]
  exact .inl ⟨⟨haccepted, by rw [hroot, Option.isSome_some], hfault⟩, by simp [hfault]⟩

theorem decided_of_fault {p : Parser} (haccepted : p.accepted = false)
    (hfault : p.fault.isSome = true) : p.Decided := by
  have hroot : p.root? = none := by rw [root?, if_neg (by simp [haccepted])]
  exact .inr ⟨⟨hfault, hroot⟩, by simp [haccepted]⟩

end Parser

namespace Grammar

variable {g : Grammar} {kind top : String} {expected after rest : List String}

/-! ### The end of the input among the expected symbols -/

/-- If the end of the input is expected, then nothing else is. -/
def Lone (g : Grammar) (expected : List String) : Prop :=
  g.catalog.epsilon ∈ expected → expected = [g.catalog.epsilon]

theorem lone_singleton (g : Grammar) (root : String) : g.Lone [root] := by
  intro h
  rw [List.mem_singleton.mp h]

theorem Lone.not_mem_tail (h : g.Lone (top :: rest)) : g.catalog.epsilon ∉ rest := by
  intro hmem
  obtain ⟨-, rfl⟩ := List.cons.inj (h (List.mem_cons_of_mem top hmem))
  exact List.not_mem_nil hmem

theorem Lone.next? (hg : g.WellFormed) (hfree : g.EpsilonFree) (h : g.Lone expected)
    (hnext : g.next? kind expected = some after) : g.Lone after := by
  rcases next?_eq_some_iff.mp hnext with ⟨top, body, rest, hmove, rfl⟩ | ⟨top, rest, hmove, rfl⟩
  · obtain ⟨rfl, -, -, hselect⟩ := move_eq_expand_iff.mp hmove
    have hbody := hfree top body (hg.stores_of_select? hselect)
    intro hmem
    rcases List.mem_append.mp hmem with hmem | hmem
    · exact absurd hmem hbody
    · exact absurd hmem h.not_mem_tail
  · obtain ⟨rfl, -⟩ := move_eq_vanish_iff.mp hmove
    exact fun hmem => absurd hmem h.not_mem_tail

theorem Lone.rewrites (hg : g.WellFormed) (hfree : g.EpsilonFree) (h : g.Lone expected)
    (hrewrites : g.Rewrites kind expected after) : g.Lone after := by
  induction hrewrites with
  | refl => exact h
  | tail _ hnext ih => exact ih.next? hg hfree hnext

end Grammar

namespace Parser

variable {g : Grammar} {root : String} {consumed : List Token} {p : Parser} {token last : Token}
variable {body : List Token}

/-! ### Up to the last token -/

/-- A token other than the end of the input is refused, or leaves the parser open. -/
theorem refused_or_lone_accept (hg : g.WellFormed) (hr : g.NoHiddenLeftRecursion)
    (hfree : g.EpsilonFree) (hclosed : p.closed = false) (hlone : g.Lone p.expected)
    (htoken : token.kind ≠ g.catalog.epsilon) :
    ((p.accept g token).accepted = false ∧ (p.accept g token).fault.isSome = true) ∨
      (p.accept g token).closed = false ∧ g.Lone (p.accept g token).expected := by
  cases outcome_accept hg hr hclosed token with
  | finished _ hkind => exact absurd hkind htoken
  | consumed hsettles hexpected hfault haccepted =>
      refine .inr ⟨by simp [closed, hfault, haccepted, htoken], ?_⟩
      rw [hexpected]
      exact fun hmem => absurd hmem (hlone.rewrites hg hfree hsettles.1).not_mem_tail
  | refused _ _ _ hfault haccepted => exact .inl ⟨haccepted, by rw [hfault, Option.isSome_some]⟩

/-- The end of the input decides a parse that is open. -/
theorem decided_accept (hg : g.WellFormed) (hr : g.NoHiddenLeftRecursion) (hfree : g.EpsilonFree)
    (htracks : Tracks g root consumed p) (hclosed : p.closed = false) (hlone : g.Lone p.expected)
    (hlast : last.kind = g.catalog.epsilon) : (p.accept g last).Decided := by
  obtain ⟨hconsumes, hskips⟩ := tracks_accept hg hr htracks hclosed last
  cases outcome_accept hg hr hclosed last with
  | finished hsettles _ hexpected hfault haccepted =>
      have hnot : ¬ Consumes g p last := by
        rintro ⟨rest, hsettles'⟩
        cases hsettles.unique hsettles'
      obtain ⟨tree, hresult, -⟩ := (hskips hnot).tree_of_nil hexpected
      exact decided_of_accepted haccepted hresult hfault
  | consumed hsettles hexpected hfault haccepted =>
      -- the end of the input was the root, so nothing can be expected after it
      have hmatched := hlone.rewrites hg hfree hsettles.1
      rw [hlast] at hmatched
      obtain ⟨-, rfl⟩ := List.cons.inj (hmatched List.mem_cons_self)
      obtain ⟨tree, hresult, -⟩ := (hconsumes ⟨_, hsettles⟩).tree_of_nil hexpected
      exact decided_of_accepted (by simp [haccepted, hlast]) hresult hfault
  | refused _ _ _ hfault haccepted =>
      exact decided_of_fault haccepted (by rw [hfault, Option.isSome_some])

/-! ### Whole streams -/

/-- A stream that ends with the end of the input decides the parse. -/
theorem decided_acceptAll (hg : g.WellFormed) (hr : g.NoHiddenLeftRecursion)
    (hfree : g.EpsilonFree) (htracks : Tracks g root consumed p) (hclosed : p.closed = false)
    (hlone : g.Lone p.expected) (hbody : ∀ token ∈ body, token.kind ≠ g.catalog.epsilon)
    (hlast : last.kind = g.catalog.epsilon) : (p.acceptAll g (body ++ [last])).Decided := by
  induction body generalizing p consumed with
  | nil => exact decided_accept hg hr hfree htracks hclosed hlone hlast
  | cons token rest ih =>
      obtain ⟨htoken, hrest⟩ := List.forall_mem_cons.mp hbody
      rw [List.cons_append, acceptAll_cons]
      rcases refused_or_lone_accept hg hr hfree hclosed hlone htoken with
        ⟨haccepted, hfault⟩ | ⟨hopen, hexpected⟩
      · rw [acceptAll_of_closed (by simp [closed, hfault])]
        exact decided_of_fault haccepted hfault
      · have hsteps := tracks_acceptAll hg hr htracks [token]
        exact ih hsteps hopen hexpected hrest

theorem decided_acceptAll_start (hg : g.WellFormed) (hr : g.NoHiddenLeftRecursion)
    (hfree : g.EpsilonFree) (root : String)
    (hbody : ∀ token ∈ body, token.kind ≠ g.catalog.epsilon)
    (hlast : last.kind = g.catalog.epsilon) :
    ((start root).acceptAll g (body ++ [last])).Decided :=
  decided_acceptAll hg hr hfree (tracks_start g root) rfl (Grammar.lone_singleton g root) hbody
    hlast

end Parser

end Lookahead
