import Lookahead.Proofs.Grammar.Derivation

/-!
Which tables one token of lookahead decides. The builder of a table computes no sets of first or
following symbols, and neither does the parser. They are needed to say when it makes no difference
that the parser looks for the token among the leads of a non-terminal, then takes the alternative
that begins with a non-terminal, and then the empty one, without asking whether that can fit.

`Nullable`, `First` and `Follow` are the usual relations, by rules. A symbol follows another only
in what the root can become, so alternatives that the root does not lead to say nothing about it.
`Predictive` then asks that no lead of a non-terminal is the first symbol of something that the
non-terminal falls back to, or follows it when it can become nothing.

To show this of a given table there are estimates: sets that are closed under the rules contain the
relations, whatever they contain besides, and closedness can be computed.
-/

namespace Lookahead.Grammar

inductive Nullable (g : Grammar) : String → Prop
  | intro {name : String} {body : Body} (halt : g.Alternative name body)
      (hall : ∀ symbol ∈ body, Nullable g symbol) : Nullable g name

/-- The terminal can be the first symbol of what the symbols become. -/
inductive First (g : Grammar) : List String → String → Prop
  | terminal {name : String} {rest : List String} (hname : g.isNonterminal name = false) :
      First g (name :: rest) name
  | expand {name terminal : String} {body : Body} {rest : List String}
      (halt : g.Alternative name body) (h : First g body terminal) :
      First g (name :: rest) terminal
  | skip {name terminal : String} {rest : List String} (hname : g.Nullable name)
      (h : First g rest terminal) : First g (name :: rest) terminal

/-- The symbol occurs in something that the root becomes. -/
inductive Reachable (g : Grammar) (root : String) : String → Prop
  | root : Reachable g root root
  | member {owner name : String} {body : Body} (howner : Reachable g root owner)
      (halt : g.Alternative owner body) (hname : name ∈ body) : Reachable g root name

/-- The terminal can come directly after the symbol in what the root becomes. The epsilon terminal
marks the end. -/
inductive Follow (g : Grammar) (root : String) : String → String → Prop
  | last : Follow g root root g.catalog.epsilon
  | next {owner name terminal : String} {before after : List String}
      (howner : g.Reachable root owner) (halt : g.Alternative owner (before ++ name :: after))
      (h : g.First after terminal) : Follow g root name terminal
  | inherit {owner name terminal : String} {before after : List String}
      (halt : g.Alternative owner (before ++ name :: after))
      (hafter : ∀ symbol ∈ after, g.Nullable symbol) (h : Follow g root owner terminal) :
      Follow g root name terminal

/-- The end of the input is in no alternative. -/
def EpsilonFree (g : Grammar) : Prop :=
  ∀ name body, g.Stores name body → g.catalog.epsilon ∉ body

/-- The token at hand tells which alternative of a non-terminal to take. -/
structure Predictive (g : Grammar) (root : String) : Prop where
  not_empty : ∀ name body, (name, body) ∈ g.nonterminalLeads → name ∉ g.empty
  not_first : ∀ name body terminal, (name, body) ∈ g.nonterminalLeads →
    terminal ∈ (g.terminalLeads name).names → ¬ g.First body terminal
  not_follow : ∀ name body terminal, (name, body) ∈ g.nonterminalLeads →
    terminal ∈ (g.terminalLeads name).names → (∀ symbol ∈ body, g.Nullable symbol) →
    ¬ g.Follow root name terminal
  not_follow_empty : ∀ name terminal, name ∈ g.empty →
    terminal ∈ (g.terminalLeads name).names → ¬ g.Follow root name terminal

variable {g : Grammar} {root name terminal : String} {body : Body}
  {front back symbols rest word : List String}

theorem WellFormed.epsilonFree (hg : g.WellFormed)
    (h : ∀ entry ∈ g.slots, g.catalog.epsilon ∉ entry.2) : g.EpsilonFree := by
  intro name body hstores
  obtain ⟨-, lead, hbody⟩ := hg.stores_iff.mp hstores
  exact h _ (hg.alternative?_eq_some_iff.mp hbody)

/-- A non-terminal becomes nothing by its empty alternative, or by one that begins with a
non-terminal. The two conditions on what follows are for these two ways, and are one condition on
all non-terminals that can become nothing. -/
theorem WellFormed.predictive_iff (hg : g.WellFormed) :
    g.Predictive root ↔
      (∀ name body, (name, body) ∈ g.nonterminalLeads → name ∉ g.empty) ∧
      (∀ name body terminal, (name, body) ∈ g.nonterminalLeads →
        terminal ∈ (g.terminalLeads name).names → ¬ g.First body terminal) ∧
      ∀ name terminal, g.Nullable name → terminal ∈ (g.terminalLeads name).names →
        ¬ g.Follow root name terminal := by
  constructor
  · intro h
    refine ⟨h.not_empty, h.not_first, fun name terminal hnull hlead => ?_⟩
    obtain @⟨_, body, ⟨lead, hbody⟩, hall⟩ := hnull
    cases lead with
    | terminal first =>
        -- an alternative that begins with a terminal does not become nothing
        obtain ⟨rest, rfl, hfirst⟩ := hg.eq_cons_of_terminal hbody
        obtain ⟨halt, -⟩ := hall first (by simp)
        simp [hg.isNonterminal_of_alternative halt] at hfirst
    | nonterminal =>
        exact h.not_follow name body terminal (hg.mem_nonterminalLeads_iff.mpr hbody) hlead hall
    | empty =>
        obtain rfl := hg.eq_nil_of_empty hbody
        have hempty := hg.mem_empty_iff.mpr (hg.hasEmpty_iff.mpr hbody)
        exact h.not_follow_empty name terminal hempty hlead
  · rintro ⟨hempty, hfirst, hfollow⟩
    refine ⟨hempty, hfirst, fun name body terminal hbody hlead hall => ?_, ?_⟩
    · exact hfollow name terminal (.intro ⟨_, hg.mem_nonterminalLeads_iff.mp hbody⟩ hall) hlead
    · intro name terminal hname hlead
      have hbody := hg.hasEmpty_iff.mp (hg.mem_empty_iff.mp hname)
      exact hfollow name terminal (.intro ⟨_, hbody⟩ (by simp)) hlead

/-! ### What words show -/

theorem First.of_append (h : g.First (front ++ back) terminal) :
    g.First front terminal ∨
      (∀ symbol ∈ front, g.Nullable symbol) ∧ g.First back terminal := by
  induction front with
  | nil => exact .inr ⟨by simp, h⟩
  | cons top others ih =>
      cases h with
      | terminal hname => exact .inl (.terminal hname)
      | expand halt hbody => exact .inl (.expand halt hbody)
      | skip htop hrest =>
          rcases ih hrest with h | ⟨hall, h⟩
          · exact .inl (.skip htop h)
          · exact .inr ⟨List.forall_mem_cons.mpr ⟨htop, hall⟩, h⟩

/-- The first letter of a word is a first symbol. -/
theorem Yields.first (h : g.Yields symbols (terminal :: word)) : g.First symbols terminal := by
  generalize hword : terminal :: word = letters at h
  induction h with
  | nil => contradiction
  | terminal hname _ _ =>
      obtain ⟨rfl, -⟩ := List.cons.inj hword
      exact .terminal hname
  | expand halt _ ih =>
      rcases (ih hword).of_append with h | ⟨hall, h⟩
      · exact .expand halt h
      · exact .skip (.intro halt hall) h

/-! ### Symbols left to do -/

/-- Every symbol comes from the root, and what can come after it in the list follows it. -/
def Anchored (g : Grammar) (root : String) : List String → Prop
  | [] => True
  | name :: rest =>
    g.Reachable root name ∧ (∀ terminal, g.First rest terminal → g.Follow root name terminal) ∧
      g.Anchored root rest

theorem anchored_root (g : Grammar) (root : String) : g.Anchored root [root] :=
  ⟨.root, (fun _ h => nomatch h), trivial⟩

/-- The end of an alternative, in front of what comes after its non-terminal. -/
theorem Anchored.append (h : g.Anchored root (name :: rest)) (before : List String)
    (halt : g.Alternative name (before ++ body)) : g.Anchored root (body ++ rest) := by
  obtain ⟨hname, hfollow, hrest⟩ := h
  induction body generalizing before with
  | nil => exact hrest
  | cons top after ih =>
      refine ⟨.member hname halt (by simp), fun terminal hfirst => ?_, ?_⟩
      · rcases hfirst.of_append with h | ⟨hafter, h⟩
        · exact .next hname halt h
        · exact .inherit halt hafter (hfollow terminal h)
      · exact ih (before ++ [top]) (by simpa using halt)

/-- An expansion keeps the list anchored. -/
theorem Anchored.expand (h : g.Anchored root (name :: rest)) (halt : g.Alternative name body) :
    g.Anchored root (body ++ rest) :=
  h.append [] halt

/-! ### Estimates -/

/-- Sets that are meant to contain the nullable symbols, and the first and following terminals of
each non-terminal. -/
structure Estimate where
  nullable : List String
  first : String → List String
  follow : String → List String

namespace Estimate

def firsts (e : Estimate) (g : Grammar) : List String → List String
  | [] => []
  | name :: rest =>
    (if g.isNonterminal name then e.first name else [name]) ++
      if name ∈ e.nullable then e.firsts g rest else []

/-- What comes after the symbols of an alternative, and after its non-terminal when nothing does,
is in the estimates of what follows them. -/
def followed (e : Estimate) (g : Grammar) (owner : String) : Body → Bool
  | [] => true
  | name :: after =>
    (e.firsts g after).all (e.follow name).contains &&
      (!after.all e.nullable.contains || (e.follow owner).all (e.follow name).contains) &&
      e.followed g owner after

structure Closed (e : Estimate) (g : Grammar) (root : String) : Prop where
  nullable : ∀ entry ∈ g.slots, (∀ symbol ∈ entry.2, symbol ∈ e.nullable) →
    entry.1.nonterminal ∈ e.nullable
  first : ∀ entry ∈ g.slots, ∀ terminal ∈ e.firsts g entry.2,
    terminal ∈ e.first entry.1.nonterminal
  follow : ∀ entry ∈ g.slots, e.followed g entry.1.nonterminal entry.2 = true
  last : g.catalog.epsilon ∈ e.follow root

structure Separates (e : Estimate) (g : Grammar) : Prop where
  fallback : ∀ entry ∈ g.nonterminalLeads, entry.1 ∉ g.empty ∧
    ∀ terminal ∈ (g.terminalLeads entry.1).names, terminal ∉ e.firsts g entry.2 ∧
      ((∀ symbol ∈ entry.2, symbol ∈ e.nullable) → terminal ∉ e.follow entry.1)
  empty : ∀ name ∈ g.empty, ∀ terminal ∈ (g.terminalLeads name).names,
    terminal ∉ e.follow name

variable {e : Estimate}

theorem Closed.mem_nullable (hg : g.WellFormed) (he : e.Closed g root) (h : g.Nullable name) :
    name ∈ e.nullable := by
  induction h with
  | intro halt _ ih =>
      obtain ⟨lead, hmem⟩ := hg.alternative_iff.mp halt
      exact he.nullable _ hmem ih

theorem Closed.mem_firsts (hg : g.WellFormed) (he : e.Closed g root)
    (h : g.First symbols terminal) : terminal ∈ e.firsts g symbols := by
  induction h with
  | terminal hname => simp [firsts, hname]
  | expand halt _ ih =>
      obtain ⟨lead, hmem⟩ := hg.alternative_iff.mp halt
      rw [firsts, if_pos (hg.isNonterminal_of_alternative halt)]
      exact List.mem_append_left _ (he.first _ hmem _ ih)
  | skip hname _ ih =>
      rw [firsts, if_pos (he.mem_nullable hg hname)]
      exact List.mem_append_right _ ih

/-- What `followed` says about one symbol of an alternative. -/
theorem followed_append {owner : String} {before after : List String}
    (h : e.followed g owner (before ++ name :: after) = true) :
    (∀ terminal ∈ e.firsts g after, terminal ∈ e.follow name) ∧
      ((∀ symbol ∈ after, symbol ∈ e.nullable) →
        ∀ terminal ∈ e.follow owner, terminal ∈ e.follow name) := by
  induction before with
  | nil =>
      simp only [List.nil_append, followed, Bool.and_eq_true, Bool.or_eq_true, Bool.not_eq_true',
        List.all_eq_true, List.contains_iff_mem] at h
      obtain ⟨⟨hfirst, hinherit⟩, -⟩ := h
      refine ⟨hfirst, fun hafter => hinherit.resolve_left ?_⟩
      rw [Bool.not_eq_false, List.all_eq_true]
      exact fun symbol hsymbol => List.contains_iff_mem.mpr (hafter symbol hsymbol)
  | cons top others ih =>
      rw [List.cons_append, followed, Bool.and_eq_true] at h
      exact ih h.2

theorem Closed.mem_follow (hg : g.WellFormed) (he : e.Closed g root)
    (h : g.Follow root name terminal) : terminal ∈ e.follow name := by
  induction h with
  | last => exact he.last
  | next _ halt hfirst =>
      obtain ⟨lead, hmem⟩ := hg.alternative_iff.mp halt
      exact (followed_append (he.follow _ hmem)).1 _ (he.mem_firsts hg hfirst)
  | inherit halt hafter _ ih =>
      obtain ⟨lead, hmem⟩ := hg.alternative_iff.mp halt
      exact (followed_append (he.follow _ hmem)).2
        (fun symbol hsymbol => he.mem_nullable hg (hafter symbol hsymbol)) _ ih

/-- Closed sets that tell the alternatives of a table apart show that it is predictive. -/
theorem Closed.predictive (hg : g.WellFormed) (he : e.Closed g root) (hs : e.Separates g) :
    g.Predictive root where
  not_empty _ _ hbody := (hs.fallback _ hbody).1
  not_first _ _ _ hbody hlead hfirst :=
    ((hs.fallback _ hbody).2 _ hlead).1 (he.mem_firsts hg hfirst)
  not_follow _ _ _ hbody hlead hnull hfollow :=
    ((hs.fallback _ hbody).2 _ hlead).2
      (fun symbol hsymbol => he.mem_nullable hg (hnull symbol hsymbol)) (he.mem_follow hg hfollow)
  not_follow_empty _ _ hempty hlead hfollow :=
    hs.empty _ hempty _ hlead (he.mem_follow hg hfollow)

end Estimate

end Lookahead.Grammar
