import Lookahead.Proofs.Grammar.Recursion

/-!
Recursive descent, the parser that one would write by hand. To read a symbol it looks at the next
token: it takes the token as a leaf, or reads the symbols of an alternative one after the other and
makes a node of what they give, or makes a node of nothing. There are no stacks, what is left to do
is where the function was called.

It is given all tokens at once, and there are three ways in which it can end: something was read,
with some tokens left; the next token does not fit; or there is no next token (`Descent`). The depth
of the recursion is bounded by a number, which is of no consequence if it is large enough: on the
way down either tokens have been consumed or the rank of the symbols goes down
(`WellFormed.descend_isSome`), and then more depth changes nothing (`descend_of_le`).
-/

namespace Lookahead

inductive Descent (α : Type) where
  /-- Something was read, and tokens are left. -/
  | parsed (value : α) (rest : List Token)
  /-- The token does not fit, nor is anything after it looked at. -/
  | failed (token : Token) (rest : List Token)
  /-- There is no next token. -/
  | ended
  deriving Repr, DecidableEq

namespace Descent

variable {α β : Type}

def map (f : α → β) : Descent α → Descent β
  | parsed value rest => parsed (f value) rest
  | failed token rest => failed token rest
  | ended => ended

@[simp] theorem map_eq_parsed_iff {f : α → β} {d : Descent α} {value : β} {rest : List Token} :
    d.map f = parsed value rest ↔ ∃ first, d = parsed first rest ∧ f first = value := by
  cases d <;> simp [map, and_comm]

/-- Reads symbols one after the other, each from the tokens that the one before it leaves. -/
def inOrder (read : String → List Token → Option (Descent Node)) :
    List String → List Token → Option (Descent (List Node))
  | [], tokens => some (parsed [] tokens)
  | symbol :: others, tokens =>
    match read symbol tokens with
    | some (parsed node rest) => (inOrder read others rest).map (map (node :: ·))
    | some (failed token rest) => some (failed token rest)
    | some ended => some ended
    | none => none

end Descent

open Descent

namespace Grammar

def descend (g : Grammar) : Nat → String → List Token → Option (Descent Node)
  | 0, _, _ => none
  | _ + 1, _, [] => some ended
  | n + 1, symbol, token :: rest =>
    if symbol = token.kind then some (parsed (.leaf token) rest)
    else if !g.isNonterminal symbol then some (failed token rest)
    else
      match ((g.terminalLeads symbol).get? token.kind).or (g.nonterminalLeads.get? symbol) with
      | some body =>
        (inOrder (g.descend n) body (token :: rest)).map
          (map fun nodes => Node.spanning symbol nodes token.start)
      | none =>
        if symbol ∈ g.empty then some (parsed (Node.spanning symbol [] token.start) (token :: rest))
        else some (failed token rest)

def depthBound (g : Grammar) (tokens : List Token) : Nat :=
  (tokens.length + 1) * (g.catalog.nonterminals.length + 1)

variable {g : Grammar} {symbol : String} {symbols : List String} {n m : Nat}
variable {tokens rest : List Token}

/-! ### Cases -/

/-- What the tables have under a token is what the token selects. -/
theorem WellFormed.get?_leads_eq_select? (hg : g.WellFormed) (symbol kind : String) :
    ((g.terminalLeads symbol).get? kind).or (g.nonterminalLeads.get? symbol) =
      g.select? symbol kind := by
  rw [hg.get?_terminalLeads, hg.get?_nonterminalLeads, select?]

/-- What a descent comes to at a token, with what there is below it: the same cases that decide what
a parser does. -/
inductive Descends (g : Grammar) (n : Nat) (symbol : String) (token : Token) (rest : List Token) :
    Option (Descent Node) → Prop
  | leaf (h : symbol = token.kind) :
      Descends g n symbol token rest (some (parsed (.leaf token) rest))
  | failed (hne : symbol ≠ token.kind)
      (h : (g.isNonterminal symbol = false) ∨
        g.isNonterminal symbol = true ∧ g.select? symbol token.kind = none ∧
          g.hasEmpty symbol = false) :
      Descends g n symbol token rest (some (failed token rest))
  | branch {body : Body} (hne : symbol ≠ token.kind) (hsymbol : g.isNonterminal symbol = true)
      (h : g.select? symbol token.kind = some body) :
      Descends g n symbol token rest ((inOrder (g.descend n) body (token :: rest)).map
        (map fun nodes => Node.spanning symbol nodes token.start))
  | empty (hne : symbol ≠ token.kind) (hsymbol : g.isNonterminal symbol = true)
      (hnone : g.select? symbol token.kind = none) (h : g.hasEmpty symbol = true) :
      Descends g n symbol token rest
        (some (parsed (Node.spanning symbol [] token.start) (token :: rest)))

theorem WellFormed.descends (hg : g.WellFormed) (n : Nat) (symbol : String) (token : Token)
    (rest : List Token) :
    g.Descends n symbol token rest (g.descend (n + 1) symbol (token :: rest)) := by
  rw [descend, hg.get?_leads_eq_select?]
  split
  · rename_i h
    exact .leaf h
  · rename_i hne
    split
    · rename_i h
      exact .failed hne (.inl (by simpa using h))
    · rename_i h
      have hsymbol : g.isNonterminal symbol = true := by simpa using h
      split
      · rename_i body hbody
        exact .branch hne hsymbol hbody
      · rename_i hnone
        split
        · rename_i h
          exact .empty hne hsymbol hnone (hg.mem_empty_iff.mp h)
        · rename_i h
          refine .failed hne (.inr ⟨hsymbol, hnone, ?_⟩)
          rwa [hg.mem_empty_iff, Bool.not_eq_true] at h

/-! ### Consumption -/

/-- Nothing but tokens at the front is consumed, and if there are none, the symbol vanishes. -/
def Consuming (g : Grammar) (read : String → List Token → Option (Descent Node)) : Prop :=
  ∀ symbol tokens node rest, read symbol tokens = some (parsed node rest) →
    rest <:+ tokens ∧ (rest = tokens → g.Vanishes symbol)

variable {read read' : String → List Token → Option (Descent Node)} {nodes : List Node}

theorem eq_of_suffix_of_suffix {left : List Token} (h : rest <:+ left) (h' : left <:+ tokens)
    (heq : rest = tokens) : left = tokens ∧ rest = left := by
  subst heq
  have hle := h.length_le
  have hle' := h'.length_le
  exact ⟨h'.eq_of_length (by omega), h.eq_of_length (by omega)⟩

theorem Consuming.inOrder (h : g.Consuming read)
    (hparsed : Descent.inOrder read symbols tokens = some (parsed nodes rest)) :
    rest <:+ tokens ∧ (rest = tokens → ∀ symbol ∈ symbols, g.Vanishes symbol) := by
  induction symbols generalizing tokens nodes with
  | nil =>
      cases hparsed
      exact ⟨List.suffix_rfl, by simp⟩
  | cons symbol others ih =>
      unfold Descent.inOrder at hparsed
      split at hparsed
      · rename_i node left hread
        obtain ⟨d, hothers, hmap⟩ := Option.map_eq_some_iff.mp hparsed
        obtain ⟨nodes', rfl, -⟩ := map_eq_parsed_iff.mp hmap
        obtain ⟨hleft, hsymbol⟩ := h symbol tokens node left hread
        obtain ⟨hrest, hall⟩ := ih hothers
        refine ⟨hrest.trans hleft, fun heq => ?_⟩
        obtain ⟨heq, heq'⟩ := eq_of_suffix_of_suffix hrest hleft heq
        exact List.forall_mem_cons.mpr ⟨hsymbol heq, hall heq'⟩
      all_goals simp at hparsed

theorem WellFormed.consuming_descend (hg : g.WellFormed) (n : Nat) :
    g.Consuming (g.descend n) := by
  induction n with
  | zero => exact fun symbol tokens node rest h => nomatch h
  | succ n ih =>
      intro symbol tokens node rest h
      cases tokens with
      | nil => simp [descend] at h
      | cons token others =>
          generalize hd : some (parsed node rest) = d at h
          cases h ▸ hg.descends n symbol token others with
          | leaf =>
              cases hd
              exact ⟨List.suffix_cons _ _, by simp⟩
          | failed => cases hd
          | @branch body _ _ hbody =>
              obtain ⟨d, hinOrder, hmap⟩ := Option.map_eq_some_iff.mp hd.symm
              obtain ⟨nodes, rfl, -⟩ := map_eq_parsed_iff.mp hmap
              obtain ⟨hsuffix, hall⟩ := Consuming.inOrder ih hinOrder
              refine ⟨hsuffix, fun heq => ?_⟩
              rcases select?_eq_some_iff.mp hbody with hbody | ⟨-, hbody⟩
              · -- the body begins with the token, which does not vanish
                obtain ⟨_, rfl, hkind⟩ := hg.eq_cons_of_terminal hbody
                exact absurd (hall heq _ List.mem_cons_self) (hg.not_vanishes hkind)
              · exact .of_body hbody (hall heq)
          | empty _ _ hnone hempty =>
              cases hd
              exact ⟨List.suffix_rfl, fun _ => .of_empty (select?_eq_none_iff.mp hnone).2 hempty⟩

/-! ### Depth -/

theorem inOrder_mono (h : ∀ symbol tokens d, read symbol tokens = some d →
    read' symbol tokens = some d) {d : Descent (List Node)}
    (hd : Descent.inOrder read symbols tokens = some d) :
    Descent.inOrder read' symbols tokens = some d := by
  induction symbols generalizing tokens d with
  | nil => exact hd
  | cons symbol others ih =>
      unfold Descent.inOrder at hd ⊢
      cases hread : read symbol tokens with
      | none => simp [hread] at hd
      | some first =>
          rw [hread] at hd
          rw [h symbol tokens first hread]
          cases first with
          | parsed node left =>
              obtain ⟨others', hothers, rfl⟩ := Option.map_eq_some_iff.mp hd
              simp [ih hothers]
          | failed => exact hd
          | ended => exact hd

/-- More depth than was needed changes nothing. -/
theorem descend_of_le {d : Descent Node} (h : g.descend n symbol tokens = some d) (hle : n ≤ m) :
    g.descend m symbol tokens = some d := by
  induction n generalizing symbol tokens d m with
  | zero => simp [descend] at h
  | succ n ih =>
      obtain ⟨m, rfl⟩ : ∃ k, m = k + 1 := ⟨m - 1, by omega⟩
      cases tokens with
      | nil => exact h
      | cons token rest =>
          unfold descend at h ⊢
          split at h
          · rename_i hleaf
            rwa [if_pos hleaf]
          · rename_i hleaf
            rw [if_neg hleaf]
            split at h
            · rename_i hterminal
              rwa [if_pos hterminal]
            · rename_i hterminal
              rw [if_neg hterminal]
              split at h
              · -- only the symbols of an alternative are read at a smaller depth
                rename_i body hbody
                obtain ⟨inside, hinside, rfl⟩ := Option.map_eq_some_iff.mp h
                have hmore : inOrder (g.descend m) body (token :: rest) = some inside :=
                  inOrder_mono (fun _ _ _ hd => ih hd (Nat.le_of_succ_le_succ hle)) hinside
                rw [hmore, Option.map_some]
              · exact h

/-- A symbol that a token selects an alternative for has a higher rank than the symbols of that
which can come to the front before the token is consumed. -/
theorem WellFormed.rank_lt_of_select? (hg : g.WellFormed) (hr : g.NoHiddenLeftRecursion)
    {name kind : String} {before after : List String}
    (h : g.select? name kind = some (before ++ symbol :: after))
    (hall : ∀ earlier ∈ before, g.Vanishes earlier) : g.rank symbol < g.rank name := by
  rcases select?_eq_some_iff.mp h with hbody | ⟨-, hbody⟩
  · obtain ⟨others, heq, hkind⟩ := hg.eq_cons_of_terminal hbody
    cases before with
    | nil =>
        obtain rfl : symbol = kind := (List.cons.inj heq).1
        rw [hg.rank_eq_zero hkind]
        exact one_le_rank (hg.isNonterminal_of_alternative? hbody)
    | cons first earlier =>
        obtain rfl : first = kind := (List.cons.inj heq).1
        exact absurd (hall first List.mem_cons_self) (hg.not_vanishes hkind)
  · exact hg.rank_lt hr ⟨before, after, hbody, hall⟩

/-- Symbols are read one after the other if each of them is read from what can be left for it. -/
theorem Consuming.isSome_inOrder (hread : g.Consuming read)
    (h : ∀ before symbol after left, symbols = before ++ symbol :: after → left <:+ tokens →
      (left = tokens → ∀ earlier ∈ before, g.Vanishes earlier) → (read symbol left).isSome = true) :
    (Descent.inOrder read symbols tokens).isSome = true := by
  induction symbols generalizing tokens with
  | nil => rfl
  | cons symbol others ih =>
      have hfirst := h [] symbol others tokens rfl List.suffix_rfl (by simp)
      obtain ⟨d, hd⟩ := Option.isSome_iff_exists.mp hfirst
      unfold Descent.inOrder
      rw [hd]
      cases d with
      | failed | ended => rfl
      | parsed node left =>
          obtain ⟨hleft, hvanishes⟩ := hread symbol tokens node left hd
          rw [Option.isSome_map]
          refine ih fun before other after left' heq hleft' hall => ?_
          refine h (symbol :: before) other after left' (by rw [heq, List.cons_append])
            (hleft'.trans hleft) fun hsame => ?_
          obtain ⟨hfirst, hrest⟩ := eq_of_suffix_of_suffix hleft' hleft hsame
          exact List.forall_mem_cons.mpr ⟨hvanishes hfirst, hall hrest⟩

/-- A descent is no deeper than the tokens and the rank of its symbol allow: on the way down the
rank falls, unless tokens have been consumed. -/
theorem WellFormed.descend_isSome (hg : g.WellFormed) (hr : g.NoHiddenLeftRecursion)
    (h : tokens.length * (g.catalog.nonterminals.length + 1) + g.rank symbol < n) :
    (g.descend n symbol tokens).isSome = true := by
  induction n generalizing symbol tokens with
  | zero => omega
  | succ n ih =>
      cases tokens with
      | nil => rfl
      | cons token rest =>
          have hcases := hg.descends n symbol token rest
          generalize g.descend (n + 1) symbol (token :: rest) = result at hcases ⊢
          cases hcases with
          | leaf | failed | empty => rfl
          | @branch body _ _ hbody =>
              rw [Option.isSome_map]
              refine (hg.consuming_descend n).isSome_inOrder ?_
              rintro before symbol after left rfl hleft hall
              refine ih ?_
              by_cases hsame : left = token :: rest
              · have hrank := hg.rank_lt_of_select? hr hbody (hall hsame)
                rw [hsame]
                omega
              · have hlength : left.length + 1 ≤ (token :: rest).length :=
                  Nat.lt_of_le_of_ne hleft.length_le fun heq => hsame (hleft.eq_of_length heq)
                have hrank := g.rank_le_length symbol
                have hmul := Nat.mul_le_mul_right (g.catalog.nonterminals.length + 1) hlength
                rw [Nat.succ_mul] at hmul
                omega

/-- Every descent ends, and at any depth beyond the bound in the same way. -/
theorem WellFormed.exists_descend (hg : g.WellFormed) (hr : g.NoHiddenLeftRecursion)
    (symbol : String) (tokens : List Token) :
    ∃ d, ∀ m, g.depthBound tokens ≤ m → g.descend m symbol tokens = some d := by
  have hbound : tokens.length * (g.catalog.nonterminals.length + 1) + g.rank symbol <
      g.depthBound tokens := by
    have hrank := g.rank_le_length symbol
    rw [depthBound, Nat.succ_mul]
    omega
  obtain ⟨d, hd⟩ := Option.isSome_iff_exists.mp (hg.descend_isSome hr hbound)
  exact ⟨d, fun m hm => descend_of_le hd hm⟩

end Grammar

end Lookahead
