import Lookahead.Pattern.Escape
import Lookahead.Proofs.Pattern.Gives
import Lookahead.Proofs.Pattern.Moved

/-!
Scanners side by side. To compare what is read from the pieces of a pattern with what is read from
the pieces that they become, two scanners are run next to each other: `Scan.Alongside` says that
where the first one has a result, the second one, from pieces that fit, has one too, which fits, and
so do the pieces that are left. What the first one refuses need not be compared, since the pattern
is known to be read alone. Some constructs are refused in a combination and nowhere else; whether
that may happen is left open (`excused`), because there are two questions: what a combination is
that can be read, and which combinations can be read.

The rules follow the way scanners are made: one for a value, one for a scanner after another, one
for loops; and then one for each scanner that takes characters. The pieces fit together as `Beside`
says, and since that stays so as long as ordinary characters are taken, most rules are for these.
-/

namespace Lookahead.Pattern.Scan

variable {α β γ δ σ τ : Type}

/-! ### Side by side -/

/-- What two lists of pieces have to do with each other. -/
abbrev Fit := List Piece → List Piece → Prop

/-- Where the first scanner has a result, the second one has one too, from pieces that fit together,
and the results fit together. The second one may find a fault instead, if that is `excused`. -/
def Alongside (excused : Prop) (before : Fit) (m : Scan α) (m' : Scan β) (after : α → β → Fit) :
    Prop :=
  ∀ ⦃s s' t : Source⦄ ⦃a : α⦄, before s.pieces s'.pieces → m.Gives s a t →
    (∃ b t', m'.Gives s' b t' ∧ after a b t.pieces t'.pieces) ∨ excused ∧ m'.RefusesAt s'

namespace Alongside

variable {excused : Prop} {before before' : Fit} {m : Scan α} {m' : Scan β}
variable {after after' : α → β → Fit}

theorem of_refuses (h : Refuses m) : Alongside excused before m m' after := by
  intro s s' t a _ hm
  exact absurd hm (h s a t)

theorem of_refuses' (hexcused : excused) (h : Refuses m') :
    Alongside excused before m m' after :=
  fun _ s' _ _ _ _ => .inr ⟨hexcused, h s'⟩

theorem pure {a : α} {b : β} (h : ∀ {p p'}, before p p' → after a b p p') :
    Alongside excused before (Pure.pure a) (Pure.pure b) after := by
  intro s s' t x hbefore hm
  obtain ⟨rfl, rfl⟩ := gives_pure_iff.mp hm
  exact .inl ⟨b, s', gives_pure_iff.mpr ⟨rfl, rfl⟩, h hbefore⟩

theorem bind {f : α → Scan γ} {f' : β → Scan δ} {last : γ → δ → Fit}
    (h : Alongside excused before m m' after)
    (hf : ∀ a b, Alongside excused (after a b) (f a) (f' b) last) :
    Alongside excused before (m >>= f) (m' >>= f') last := by
  intro s s' u c hbefore hm
  obtain ⟨a, t, ha, hc⟩ := gives_bind_iff.mp hm
  rcases h hbefore ha with ⟨b, t', hb, hafter⟩ | ⟨hexcused, hrefuses⟩
  · rcases hf a b hafter hc with ⟨d, u', hd, hlast⟩ | ⟨hexcused, hrefuses⟩
    · exact .inl ⟨d, u', gives_bind_iff.mpr ⟨b, t', hb, hd⟩, hlast⟩
    · exact .inr ⟨hexcused, hb.refusesAt_bind hrefuses⟩
  · exact .inr ⟨hexcused, hrefuses.bind f'⟩

theorem bindSame {m m' : Scan α} {fit : Fit} {f : α → Scan γ} {f' : α → Scan δ}
    {last : γ → δ → Fit} (h : Alongside excused before m m' fun a b p p' => a = b ∧ fit p p')
    (hf : ∀ a, Alongside excused fit (f a) (f' a) last) :
    Alongside excused before (m >>= f) (m' >>= f') last := by
  refine h.bind fun a b s s' t c hfit => ?_
  obtain ⟨rfl, hfit⟩ := hfit
  exact hf a hfit

theorem bindKnown {m m' : Scan α} {fit : Fit} (fact : α → Prop) {f : α → Scan γ}
    {f' : α → Scan δ} {last : γ → δ → Fit}
    (h : Alongside excused before m m' fun a b p p' => a = b ∧ fit p p')
    (hfact : ∀ {s p' t a}, before s.pieces p' → m.Gives s a t → fact a)
    (hf : ∀ a, fact a → Alongside excused fit (f a) (f' a) last) :
    Alongside excused before (m >>= f) (m' >>= f') last := by
  have hknown : Alongside excused before m m' fun a b p p' => fact a ∧ a = b ∧ fit p p' := by
    intro s s' t a hbefore hm
    exact (h hbefore hm).imp_left fun ⟨b, t', hb, hfit⟩ => ⟨b, t', hb, hfact hbefore hm, hfit⟩
  refine hknown.bind fun a b s s' t c hfit => ?_
  obtain ⟨hfact, rfl, hfit⟩ := hfit
  exact hf a hfact hfit

theorem given {P : Prop} (h : P → Alongside excused before m m' after) :
    Alongside excused (fun p p' => P ∧ before p p') m m' after :=
  fun _ _ _ _ hbefore hm => h hbefore.1 hbefore.2 hm

theorem mono (h : Alongside excused before m m' after)
    (hbefore : ∀ {p p'}, before' p p' → before p p')
    (hafter : ∀ {a b p p'}, after a b p p' → after' a b p p') :
    Alongside excused before' m m' after' := by
  intro s s' t a hp hm
  exact (h (hbefore hp) hm).imp_left fun ⟨b, t', hb, h⟩ => ⟨b, t', hb, hafter h⟩

theorem iteIff {c c' : Prop} [Decidable c] [Decidable c'] {n : Scan α} {n' : Scan β}
    (hiff : ∀ {p p'}, before p p' → (c ↔ c')) (h₁ : Alongside excused before m m' after)
    (h₂ : Alongside excused before n n' after) :
    Alongside excused before (if c then m else n) (if c' then m' else n') after := by
  intro s s' t a hbefore hm
  have hcc' := hiff hbefore
  by_cases hc : c
  · rw [if_pos hc] at hm
    rw [if_pos (hcc'.mp hc)]
    exact h₁ hbefore hm
  · rw [if_neg hc] at hm
    rw [if_neg fun hc' => hc (hcc'.mpr hc')]
    exact h₂ hbefore hm

theorem ite {c : Prop} [Decidable c] {n : Scan α} {n' : Scan β}
    (h₁ : c → Alongside excused before m m' after)
    (h₂ : ¬ c → Alongside excused before n n' after) :
    Alongside excused before (if c then m else n) (if c then m' else n') after := by
  by_cases hc : c
  · rw [if_pos hc, if_pos hc]
    exact h₁ hc
  · rw [if_neg hc, if_neg hc]
    exact h₂ hc

theorem join {c : Prop} [Decidable c] {m m' n n' : Scan α} {fit : Fit} {f : α → Scan γ}
    {f' : α → Scan δ} {last : γ → δ → Fit}
    (h₁ : c → Alongside excused before m m' fun a b p p' => a = b ∧ fit p p')
    (h₂ : ¬ c → Alongside excused before n n' fun a b p p' => a = b ∧ fit p p')
    (hf : ∀ a, Alongside excused fit (f a) (f' a) last) :
    Alongside excused before (if c then m >>= f else n >>= f) (if c then m' >>= f' else n' >>= f')
      last :=
  .ite (fun hc => (h₁ hc).bindSame hf) fun hc => (h₂ hc).bindSame hf

theorem loop (invariant : σ → τ → Fit) {body : σ → Piece → Scan (σ ⊕ α)} {atEnd : σ → Scan α}
    {body' : τ → Piece → Scan (τ ⊕ β)} {atEnd' : τ → Scan β}
    (hbody : ∀ {x y p rest p'}, invariant x y (p :: rest) p' → rest.head? ≠ some .dangling →
      Refuses (body x p) ∨ ∃ q rest', p' = q :: rest' ∧ rest'.head? ≠ some .dangling ∧
        Alongside excused (fun r r' => r = rest ∧ r' = rest') (body x p) (body' y q)
          fun o o' r r' =>
            (∃ a b, o = .inr a ∧ o' = .inr b ∧ after a b r r') ∨
              ∃ x' y', o = .inl x' ∧ o' = .inl y' ∧ invariant x' y' r r')
    (hend : ∀ {x y p'}, invariant x y [] p' → Refuses (atEnd x)) {x : σ} {y : τ} :
    Alongside excused (invariant x y) (Scan.loop body atEnd x) (Scan.loop body' atEnd' y)
      after := by
  intro s s' t a hbefore hm
  generalize hlength : s.pieces.length = n
  induction n using Nat.strongRecOn generalizing s s' x y with
  | ind n ih =>
      cases hs : s.pieces with
      | nil =>
          rw [hs] at hbefore
          exact absurd ((gives_loop_nil_iff hs).mp hm) (hend hbefore _ _ _)
      | cons p rest =>
          rw [hs] at hbefore
          obtain ⟨hhead, o, v, hround, hrest⟩ := (gives_loop_cons_iff hs).mp hm
          rcases hbody hbefore hhead with hrefuses | ⟨q, rest', hs', hhead', halong⟩
          · exact absurd hround (hrefuses _ _ _)
          · rcases @halong _ ⟨rest', s'.offset + q.width⟩ _ _ ⟨rfl, rfl⟩ hround with
              ⟨o', v', hround', hafter⟩ | ⟨hexcused, hrefuses⟩
            · -- both rounds come to an end, or both go on
              rcases hafter with ⟨c, d, rfl, rfl, hafter⟩ | ⟨x', y', rfl, rfl, hinvariant⟩
              · rcases hrest with ⟨heq, rfl⟩ | ⟨_, heq, -⟩
                · cases heq
                  exact .inl ⟨d, v', (gives_loop_cons_iff hs').mpr
                    ⟨hhead', _, v', hround', .inl ⟨rfl, rfl⟩⟩, hafter⟩
                · contradiction
              · rcases hrest with ⟨heq, -⟩ | ⟨_, heq, hrest⟩
                · contradiction
                · cases heq
                  have hlt : v.pieces.length < n := by
                    have hle : v.pieces.length ≤ rest.length := hround.suffix.length_le
                    rw [← hlength, hs, List.length_cons]
                    omega
                  rcases ih _ hlt hinvariant hrest rfl with ⟨b, t', hb, hafter⟩ | ⟨hexcused, hnot⟩
                  · exact .inl ⟨b, t', (gives_loop_cons_iff hs').mpr
                      ⟨hhead', _, v', hround', .inr ⟨y', rfl, hb⟩⟩, hafter⟩
                  · refine .inr ⟨hexcused, fun b t' hb => ?_⟩
                    obtain ⟨-, z, w, hz, hw⟩ := (gives_loop_cons_iff hs').mp hb
                    obtain ⟨rfl, rfl⟩ := hround'.unique hz
                    rcases hw with ⟨heq, -⟩ | ⟨_, heq, hw⟩
                    · contradiction
                    · cases heq
                      exact hnot b t' hw
            · refine .inr ⟨hexcused, fun b t' hb => ?_⟩
              obtain ⟨-, z, w, hz, -⟩ := (gives_loop_cons_iff hs').mp hb
              exact hrefuses z w hz

end Alongside

/-- Scanners that give the same on both sides, and leave pieces that fit together like before. -/
abbrev Agree (excused : Prop) (fit : Fit) (m m' : Scan α) : Prop :=
  Alongside excused fit m m' fun a b p p' => a = b ∧ fit p p'

variable {excused : Prop}

theorem agree_pure {fit : Fit} (a : α) : Agree excused fit (pure a) (pure a) :=
  Alongside.pure fun h => ⟨rfl, h⟩

namespace Agree

variable {fit : Fit}

/-- An attempt that fails goes back on both sides. -/
theorem attempt {m m' : Scan (Option α)} (h : Agree excused fit m m') :
    Agree excused fit (Scan.attempt m) (Scan.attempt m') := by
  intro s s' t x hbefore hm
  obtain ⟨u, hu, rfl⟩ := gives_attempt hm
  rcases h hbefore hu with ⟨y, u', hu', rfl, hkept⟩ | ⟨hexcused, hrefuses⟩
  · refine .inl ⟨x, _, gives_attempt_of_gives hu', rfl, ?_⟩
    split
    · exact hkept
    · exact hbefore
  · refine .inr ⟨hexcused, fun y t' hy => ?_⟩
    obtain ⟨u', hu', -⟩ := gives_attempt hy
    exact hrefuses y u' hu'

end Agree

/-! ### Taking characters -/

variable {k : Nat} {tail : Option (List Piece)} {inSet : Bool}

theorem agree_accept {c : Char} (hc : Ordinary c) :
    Agree excused (Beside k tail inSet) (accept c) (accept c) := by
  intro s s' t b hbeside hm
  rcases gives_accept hm with ⟨rfl, hs, hhead⟩ | ⟨rfl, hne, rfl⟩
  · rw [hs] at hbeside
    obtain ⟨others, hs', hothers⟩ := hbeside.step (hc.stays inSet) hhead
    exact .inl ⟨true, _, gives_accept_true hs' hothers.head_moved, rfl, hothers⟩
  · have hne' := mt (hbeside.head_eq_iff hc).mp hne
    exact .inl ⟨false, s', gives_accept_false hne', rfl, hbeside⟩

theorem alongside_peek {c : Char} (hc : Ordinary c) :
    Alongside excused (Beside k tail inSet) peek peek fun x x' p p' =>
      (x = some (.plain c) ↔ x' = some (.plain c)) ∧ Beside k tail inSet p p' := by
  intro s s' t x hbeside hm
  obtain ⟨rfl, rfl⟩ := gives_peek_iff.mp hm
  exact .inl ⟨_, s', gives_peek_iff.mpr ⟨rfl, rfl⟩, (hbeside.head_eq_iff hc).symm, hbeside⟩

theorem alongside_offset {before : Fit} :
    Alongside excused before Scan.offset Scan.offset fun _ _ => before := by
  intro s s' t n hbefore hm
  obtain ⟨rfl, rfl⟩ := gives_offset_iff.mp hm
  exact .inl ⟨_, s', gives_offset_iff.mpr ⟨rfl, rfl⟩, hbefore⟩

theorem Alongside.takeSame {before : Fit} (after : Piece → Fit) {f f' : Option Piece → Scan α}
    {last : α → α → Fit}
    (hstep : ∀ {p rest p'}, before (p :: rest) p' → rest.head? ≠ some .dangling →
      Refuses (f (some p)) ∨ ∃ others, p' = p :: others ∧ others.head? ≠ some .dangling ∧
        after p rest others)
    (hend : ∀ {p'}, before [] p' → Refuses (f none))
    (hf : ∀ p, Alongside excused (after p) (f (some p)) (f' (some p)) last) :
    Alongside excused before (take >>= f) (take >>= f') last := by
  intro s s' u c hbefore hm
  obtain ⟨x, t, hx, hm⟩ := gives_bind_iff.mp hm
  rcases gives_take hx with ⟨hs, rfl, -⟩ | ⟨p, hs, hhead, rfl⟩
  · rw [hs] at hbefore
    exact absurd hm (hend hbefore _ _ _)
  · rw [hs] at hbefore
    rcases hstep hbefore hhead with hrefuses | ⟨others, hs', hhead', hafter⟩
    · exact absurd hm (hrefuses _ _ _)
    · have hx' := gives_take_cons hs' hhead'
      rcases @hf p _ ⟨others, _⟩ _ _ hafter hm with ⟨d, u', hd, hlast⟩ | ⟨hexcused, hrefuses⟩
      · exact .inl ⟨d, u', gives_bind_iff.mpr ⟨_, _, hx', hd⟩, hlast⟩
      · exact .inr ⟨hexcused, hx'.refusesAt_bind hrefuses⟩

theorem Alongside.takeBind {f f' : Option Piece → Scan α} {last : α → α → Fit}
    (allowed : Option Piece → Prop)
    (hrefuses : ∀ x, allowed x → (∀ c, x = some (.plain c) → ¬ Stays false c) → Refuses (f x))
    (hf : ∀ c, allowed (some (.plain c)) → Stays false c →
      Alongside excused (Beside k tail false) (f (some (.plain c))) (f' (some (.plain c))) last) :
    Alongside excused (fun p p' => Beside k tail false p p' ∧ allowed p.head?) (take >>= f)
      (take >>= f') last := by
  refine .takeSame (fun p rest rest' => ∃ c, p = .plain c ∧ allowed (some p) ∧ Stays false c ∧
    Beside k tail false rest rest') ?_ ?_ ?_
  · rintro p rest p' ⟨hbeside, hallowed⟩ hhead
    by_cases hstays : ∃ c, p = .plain c ∧ Stays false c
    · obtain ⟨c, rfl, hc⟩ := hstays
      obtain ⟨others, rfl, hothers⟩ := hbeside.step hc hhead
      exact .inr ⟨others, rfl, hothers.head_moved, c, rfl, hallowed, hc, hothers⟩
    · refine .inl (hrefuses _ hallowed fun c hc hs => hstays ⟨c, ?_, hs⟩)
      exact Option.some.inj hc
  · rintro p' ⟨-, hallowed⟩
    exact hrefuses _ hallowed nofun
  · rintro p s s' t a ⟨c, rfl, hallowed, hc, hbeside⟩ hm
    exact hf c hallowed hc hbeside hm

/-- The same number of characters is asked for on both sides, or as many as there are. -/
theorem takeUpTo_alongside {test : Char → Bool} (htest : ∀ c, test c = true → Ordinary c)
    {n n' : Nat} {s s' t : Source} {chars : List Char}
    (hbeside : Beside k tail inSet s.pieces s'.pieces)
    (hn : n = n' ∨ s.pieces.length ≤ n ∧ s'.pieces.length ≤ n')
    (hm : (takeUpTo test n).Gives s chars t) :
    ∃ t', (takeUpTo test n').Gives s' chars t' ∧ Beside k tail inSet t.pieces t'.pieces := by
  -- what the one side does not take the other side does not take either
  have hstop : ∀ {s s' : Source}, Beside k tail inSet s.pieces s'.pieces →
      (∀ c, s.pieces.head? = some (.plain c) → test c = false) →
      ∀ c, s'.pieces.head? = some (.plain c) → test c = false := by
    intro s s' hbeside hno c hhead
    by_contra hc
    rw [Bool.not_eq_false] at hc
    have hhead' := (hbeside.head_eq_iff (htest c hc)).mp hhead
    rw [hno c hhead'] at hc
    contradiction
  induction n generalizing n' s s' chars with
  | zero =>
      obtain ⟨rfl, rfl⟩ := gives_pure_iff.mp hm
      rcases hn with rfl | ⟨hlength, -⟩
      · exact ⟨s', gives_pure_iff.mpr ⟨rfl, rfl⟩, hbeside⟩
      · have hnil : t.pieces = [] := List.eq_nil_of_length_eq_zero (by omega)
        exact ⟨s', gives_takeUpTo_nil (hstop hbeside (by simp [hnil])), hbeside⟩
  | succ n ih =>
      rcases gives_takeUpTo_succ hm with ⟨c, u, rest, hs, hhead, hc, hrest, rfl⟩ | ⟨rfl, rfl, hno⟩
      · rw [hs] at hbeside
        obtain ⟨others, hs', hothers⟩ := hbeside.step ((htest c hc).stays inSet) hhead
        rw [hs, hs', List.length_cons, List.length_cons] at hn
        cases n' with
        | zero => omega
        | succ n' =>
            obtain ⟨t', hrest', hbeside'⟩ :=
              @ih n' _ ⟨others, s'.offset + 1⟩ _ hothers (by dsimp only; omega) hrest
            exact ⟨t', gives_takeUpTo_cons hs' hothers.head_moved hc hrest', hbeside'⟩
      · exact ⟨s', gives_takeUpTo_nil (hstop hbeside hno), hbeside⟩

theorem agree_takeUpTo {test : Char → Bool} (htest : ∀ c, test c = true → Ordinary c)
    (n : Nat) : Agree excused (Beside k tail inSet) (takeUpTo test n) (takeUpTo test n) := by
  intro s s' t chars hbeside hm
  obtain ⟨t', hm', hleft⟩ := takeUpTo_alongside htest hbeside (.inl rfl) hm
  exact .inl ⟨chars, t', hm', rfl, hleft⟩

theorem agree_takeWhile {test : Char → Bool} (htest : ∀ c, test c = true → Ordinary c) :
    Agree excused (Beside k tail inSet) (takeWhile test) (takeWhile test) := by
  intro s s' t chars hbeside hm
  obtain ⟨t', hm', hleft⟩ :=
    takeUpTo_alongside htest hbeside (.inr ⟨Nat.le_refl _, Nat.le_refl _⟩) hm
  exact .inl ⟨chars, t', hm', rfl, hleft⟩

/-- A character of a name: no parenthesis, no bracket and no backslash. -/
def InName (c : Char) : Prop := Ordinary c ∧ c ≠ '\\'

theorem eq_map_plain_of_flatMap {taken : List Piece} {name : List Char}
    (h : name = taken.flatMap Piece.chars) (hname : ∀ c ∈ name, InName c) :
    taken = name.map .plain := by
  subst h
  induction taken with
  | nil => rfl
  | cons p rest ih =>
      rw [List.flatMap_cons, List.forall_mem_append] at hname
      obtain ⟨hp, hrest⟩ := hname
      rw [List.flatMap_cons, List.map_append, ← ih hrest]
      cases p with
      | plain c => rfl
      | escaped c => exact absurd rfl (hp '\\' (by simp [Piece.chars])).2
      | dangling => exact absurd rfl (hp '\\' (by simp [Piece.chars])).2

/-- A list is cut in one way before the first place where an element stands. -/
theorem eq_of_append_cons_eq {x : α} {before before' rest rest' : List α} (h : x ∉ before)
    (h' : x ∉ before') (heq : before ++ x :: rest = before' ++ x :: rest') :
    before = before' ∧ rest = rest' := by
  induction before generalizing before' with
  | nil =>
      cases before' with
      | nil => exact ⟨rfl, (List.cons.inj heq).2⟩
      | cons y others => exact absurd (List.cons.inj heq).1 fun h => h' (by simp [h])
  | cons y others ih =>
      rw [List.mem_cons, not_or] at h
      cases before' with
      | nil => exact absurd (List.cons.inj heq).1 fun hy => h.1 hy.symm
      | cons z others' =>
          rw [List.mem_cons, not_or] at h'
          obtain ⟨rfl, hothers⟩ := List.cons.inj heq
          obtain ⟨rfl, hrest⟩ := ih h.2 h'.2 hothers
          exact ⟨rfl, hrest⟩

/-- A name up to a closing character is taken on the other side too. -/
theorem exists_gives_takeUntil {closer : Char} {what : String} {taken : List Piece}
    {s s' t : Source} (h : Beside k tail inSet s.pieces s'.pieces) (hcloser : Stays inSet closer)
    (hs : s.pieces = taken ++ .plain closer :: t.pieces) (hnot : .plain closer ∉ taken)
    (hne : taken ≠ []) (hname : ∀ c ∈ taken.flatMap Piece.chars, InName c)
    (hhead : t.pieces.head? ≠ some .dangling) :
    ∃ t', (takeUntil closer what).Gives s' (String.ofList (taken.flatMap Piece.chars)) t' ∧
      Beside k tail inSet t.pieces t'.pieces := by
  have htaken := eq_map_plain_of_flatMap rfl hname
  rw [hs, htaken] at h
  obtain ⟨others, hs', hothers⟩ := h.steps (fun c hc => (hname c hc).1.stays inSet) (by simp)
  obtain ⟨others', rfl, hothers'⟩ := hothers.step hcloser hhead
  rw [← htaken] at hs'
  have hdangling : .dangling ∉ taken := by
    rw [htaken]
    simp
  obtain ⟨t', rfl, htake⟩ := gives_takeUntil_of_closed hs' hnot hdangling hothers'.head_moved hne
  exact ⟨t', htake, hothers'⟩

theorem Alongside.takeUntilBind {closer : Char} {what : String} {f f' : String → Scan α}
    {last : α → α → Fit} (hcloser : Stays inSet closer)
    (hrefuses : ∀ name : String, ¬ (∀ c ∈ name.toList, InName c) → Refuses (f name))
    (hf : ∀ name, Alongside excused (Beside k tail inSet) (f name) (f' name) last) :
    Alongside excused (Beside k tail inSet) (takeUntil closer what >>= f)
      (takeUntil closer what >>= f') last := by
  intro s s' u c hbeside hm
  obtain ⟨name, t, htake, hm⟩ := gives_bind_iff.mp hm
  have hname : ∀ c ∈ name.toList, InName c := by
    by_contra hnot
    exact hrefuses name hnot _ _ _ hm
  obtain ⟨taken, hs, hnot, hne, htext, hhead⟩ := gives_takeUntil htake
  obtain ⟨t', htake', hothers⟩ :=
    exists_gives_takeUntil hbeside hcloser hs hnot hne (htext ▸ hname) hhead
  rw [← htext, String.ofList_toList] at htake'
  rcases hf name hothers hm with ⟨d, u', hd, hlast⟩ | ⟨hexcused, hrefuses⟩
  · exact .inl ⟨d, u', gives_bind_iff.mpr ⟨name, t', htake', hd⟩, hlast⟩
  · exact .inr ⟨hexcused, htake'.refusesAt_bind hrefuses⟩

end Lookahead.Pattern.Scan
