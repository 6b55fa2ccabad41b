import Lookahead.Pattern.Scan
import Mathlib.Data.List.Basic

/-!
What scanners give. Scanning is a computation that carries a proof along, that what is left is the
end of what there was; `Scan.Gives` says the same without the proof, as a relation between what
there is, the result and what is left. A scanner that gives nothing refuses (`Scan.RefusesAt`).

For every scanner that takes characters there is a lemma that says what has been there when it has
given a result, and for those that are run next to each other lemmas that say when there is one.
-/

namespace Lookahead.Pattern.Scan

variable {α β σ : Type}

/-- The result of a scanner, and what is left after it. -/
def Gives (m : Scan α) (s : Source) (a : α) (t : Source) : Prop := ∃ h, m s = .ok (a, ⟨t, h⟩)

def RefusesAt (m : Scan α) (s : Source) : Prop := ∀ a t, ¬ m.Gives s a t

def Refuses (m : Scan α) : Prop := ∀ s, m.RefusesAt s

variable {m : Scan α} {s t : Source} {a : α}

theorem Gives.suffix (h : m.Gives s a t) : t.pieces <:+ s.pieces := h.1

theorem Gives.unique {b : α} {u : Source} (h : m.Gives s a t) (h' : m.Gives s b u) :
    a = b ∧ t = u := by
  obtain ⟨_, h⟩ := h
  obtain ⟨_, h'⟩ := h'
  rw [h] at h'
  cases h'
  exact ⟨rfl, rfl⟩

theorem gives_iff_eq_ok {x : Scanned α s} : m.Gives s x.1 x.2.1 ↔ m s = .ok x := by
  constructor
  · rintro ⟨_, h⟩
    exact h
  · exact fun h => ⟨x.2.2, h⟩

@[simp] theorem gives_pure_iff {b : α} : (pure a : Scan α).Gives s b t ↔ b = a ∧ t = s := by
  constructor
  · rintro ⟨_, h⟩
    cases h
    exact ⟨rfl, rfl⟩
  · rintro ⟨rfl, rfl⟩
    exact ⟨List.suffix_rfl, rfl⟩

theorem gives_bind_iff {f : α → Scan β} {b : β} {u : Source} :
    (m >>= f).Gives s b u ↔ ∃ a t, m.Gives s a t ∧ (f a).Gives t b u := by
  have hbind : (m >>= f) s = Scan.bind m f s := rfl
  constructor
  · rintro ⟨_, h⟩
    rw [hbind] at h
    unfold Scan.bind at h
    split at h
    · contradiction
    · rename_i a t ht hm
      split at h
      · contradiction
      · rename_i b u hu hf
        cases h
        exact ⟨a, t, ⟨ht, hm⟩, hu, hf⟩
  · rintro ⟨a, t, ⟨ht, hm⟩, hu, hf⟩
    refine ⟨hu.trans ht, ?_⟩
    rw [hbind]
    unfold Scan.bind
    rw [hm]
    dsimp only
    rw [hf]

@[simp] theorem gives_pure_bind_iff {f : α → Scan β} {b : β} :
    ((pure a : Scan α) >>= f).Gives s b t ↔ (f a).Gives s b t := by
  simp [gives_bind_iff]

theorem gives_bind_assoc_iff {γ : Type} {f : α → Scan β} {g : β → Scan γ} {c : γ} :
    ((m >>= f) >>= g).Gives s c t ↔ (m >>= fun a => f a >>= g).Gives s c t := by
  simp only [gives_bind_iff]
  constructor
  · rintro ⟨b, u, ⟨a, v, hm, hf⟩, hg⟩
    exact ⟨a, v, hm, b, u, hf, hg⟩
  · rintro ⟨a, v, hm, b, u, hf, hg⟩
    exact ⟨b, u, ⟨a, v, hm, hf⟩, hg⟩

theorem gives_bind_congr {f g : α → Scan β} {b : β}
    (h : ∀ a u, (f a).Gives u b t ↔ (g a).Gives u b t) :
    (m >>= f).Gives s b t ↔ (m >>= g).Gives s b t := by
  simp only [gives_bind_iff, h]

theorem refuses_refuse (fault : Fault) : Refuses (refuse fault : Scan α) :=
  fun _ _ _ h => nomatch h.2

theorem refuses_failAt (cause : Cause) (offset : Nat) : Refuses (failAt cause offset : Scan α) :=
  fun _ _ _ h => nomatch h.2

theorem refuses_failBack (cause : Cause) (back : Nat) : Refuses (failBack cause back : Scan α) :=
  fun _ _ _ h => nomatch h.2

theorem RefusesAt.bind (h : m.RefusesAt s) (f : α → Scan β) : (m >>= f).RefusesAt s := by
  intro b u hb
  obtain ⟨a, t, ha, -⟩ := gives_bind_iff.mp hb
  exact h a t ha

theorem Gives.refusesAt_bind {f : α → Scan β} (h : m.Gives s a t) (hf : (f a).RefusesAt t) :
    (m >>= f).RefusesAt s := by
  intro b u hb
  obtain ⟨a', t', ha, hb⟩ := gives_bind_iff.mp hb
  obtain ⟨rfl, rfl⟩ := h.unique ha
  exact hf b u hb

theorem Refuses.bind (h : Refuses m) (f : α → Scan β) : Refuses (m >>= f) :=
  fun s => (h s).bind f

theorem refuses_bind (m : Scan α) {f : α → Scan β} (h : ∀ a, Refuses (f a)) :
    Refuses (m >>= f) := by
  intro s b u hb
  obtain ⟨a, t, -, ha⟩ := gives_bind_iff.mp hb
  exact h a t b u ha

@[simp] theorem gives_offset_iff {n : Nat} : Scan.offset.Gives s n t ↔ n = s.offset ∧ t = s := by
  constructor
  · rintro ⟨_, h⟩
    cases h
    exact ⟨rfl, rfl⟩
  · rintro ⟨rfl, rfl⟩
    exact ⟨List.suffix_rfl, rfl⟩

@[simp] theorem gives_peek_iff {x : Option Piece} :
    peek.Gives s x t ↔ x = s.pieces.head? ∧ t = s := by
  constructor
  · rintro ⟨_, h⟩
    cases h
    exact ⟨rfl, rfl⟩
  · rintro ⟨rfl, rfl⟩
    exact ⟨List.suffix_rfl, rfl⟩

/-- The source after a piece. -/
theorem advance_eq_ok_iff {p : Piece} {rest : List Piece} {offset : Nat} :
    advance p rest offset = .ok t ↔ rest.head? ≠ some .dangling ∧ t = ⟨rest, offset + p.width⟩ := by
  unfold advance
  split
  · simp
  · rename_i hnot
    have hhead : rest.head? ≠ some .dangling := by
      intro hdangling
      obtain ⟨others, rfl⟩ := List.head?_eq_some_iff.mp hdangling
      exact hnot others rfl
    rw [Except.ok.injEq]
    exact ⟨fun h => ⟨hhead, h.symm⟩, fun h => h.2.symm⟩

theorem advance_eq_ok {p : Piece} {rest : List Piece} {offset : Nat}
    (h : advance p rest offset = .ok t) : t.pieces = rest ∧ rest.head? ≠ some .dangling := by
  obtain ⟨hhead, rfl⟩ := advance_eq_ok_iff.mp h
  exact ⟨rfl, hhead⟩

theorem gives_take_cons {p : Piece} {rest : List Piece} (hs : s.pieces = p :: rest)
    (hhead : rest.head? ≠ some .dangling) :
    take.Gives s (some p) ⟨rest, s.offset + p.width⟩ := by
  refine ⟨by simp [hs], ?_⟩
  unfold take
  split
  · rename_i hnil
    rw [hs] at hnil
    contradiction
  · rename_i q rest' hs'
    rw [hs, List.cons.injEq] at hs'
    obtain ⟨rfl, rfl⟩ := hs'
    split
    · rename_i hfault
      rw [advance_eq_ok_iff.mpr ⟨hhead, rfl⟩] at hfault
      contradiction
    · rename_i u hu
      obtain ⟨-, rfl⟩ := advance_eq_ok_iff.mp hu
      rfl

theorem gives_take {x : Option Piece} (h : take.Gives s x t) :
    (s.pieces = [] ∧ x = none ∧ t = s) ∨
      ∃ p, s.pieces = p :: t.pieces ∧ t.pieces.head? ≠ some .dangling ∧ x = some p := by
  obtain ⟨_, h⟩ := h
  unfold take at h
  split at h
  · rename_i hs
    cases h
    exact .inl ⟨hs, rfl, rfl⟩
  · rename_i p rest hs
    split at h
    · contradiction
    · rename_i t ht
      cases h
      obtain ⟨rfl, hhead⟩ := advance_eq_ok ht
      exact .inr ⟨p, hs, hhead, rfl⟩

theorem gives_take_bind_iff {f : Option Piece → Scan α} {p : Piece} {rest : List Piece}
    (hs : s.pieces = p :: rest) :
    (take >>= f).Gives s a t ↔
      rest.head? ≠ some .dangling ∧ (f (some p)).Gives ⟨rest, s.offset + p.width⟩ a t := by
  rw [gives_bind_iff]
  constructor
  · rintro ⟨x, u, hx, h⟩
    rcases gives_take hx with ⟨hnil, -⟩ | ⟨q, hs', hhead, -⟩
    · rw [hs] at hnil
      contradiction
    · obtain ⟨-, hrest⟩ := List.cons.inj (hs.symm.trans hs')
      rw [← hrest] at hhead
      obtain ⟨rfl, rfl⟩ := (gives_take_cons hs hhead).unique hx
      exact ⟨hhead, h⟩
  · rintro ⟨hhead, h⟩
    exact ⟨_, _, gives_take_cons hs hhead, h⟩

theorem gives_accept {c : Char} {b : Bool} (h : (accept c).Gives s b t) :
    (b = true ∧ s.pieces = .plain c :: t.pieces ∧ t.pieces.head? ≠ some .dangling) ∨
      (b = false ∧ s.pieces.head? ≠ some (.plain c) ∧ t = s) := by
  obtain ⟨x, u, hpeek, h⟩ := gives_bind_iff.mp h
  obtain ⟨rfl, rfl⟩ := gives_peek_iff.mp hpeek
  split at h
  · rename_i hc
    obtain ⟨y, v, htake, h⟩ := gives_bind_iff.mp h
    obtain ⟨rfl, rfl⟩ := gives_pure_iff.mp h
    rcases gives_take htake with ⟨hnil, -⟩ | ⟨p, hs, hhead, -⟩
    · rw [hnil] at hc
      contradiction
    · rw [hs, List.head?_cons, Option.some.injEq] at hc
      exact .inl ⟨rfl, hc ▸ hs, hhead⟩
  · rename_i hc
    obtain ⟨rfl, rfl⟩ := gives_pure_iff.mp h
    exact .inr ⟨rfl, hc, rfl⟩

theorem gives_accept_true {c : Char} {rest : List Piece} (hs : s.pieces = .plain c :: rest)
    (hhead : rest.head? ≠ some .dangling) : (accept c).Gives s true ⟨rest, s.offset + 1⟩ := by
  refine gives_bind_iff.mpr ⟨s.pieces.head?, s, gives_peek_iff.mpr ⟨rfl, rfl⟩, ?_⟩
  rw [if_pos (by rw [hs, List.head?_cons])]
  exact gives_bind_iff.mpr ⟨_, _, gives_take_cons hs hhead, gives_pure_iff.mpr ⟨rfl, rfl⟩⟩

theorem gives_accept_false {c : Char} (h : s.pieces.head? ≠ some (.plain c)) :
    (accept c).Gives s false s := by
  refine gives_bind_iff.mpr ⟨s.pieces.head?, s, gives_peek_iff.mpr ⟨rfl, rfl⟩, ?_⟩
  rw [if_neg h]
  exact gives_pure_iff.mpr ⟨rfl, rfl⟩

theorem gives_accept_bind_iff {c : Char} {f : Bool → Scan α} {rest : List Piece}
    (hs : s.pieces = .plain c :: rest) :
    (accept c >>= f).Gives s a t ↔
      rest.head? ≠ some .dangling ∧ (f true).Gives ⟨rest, s.offset + 1⟩ a t := by
  rw [gives_bind_iff]
  constructor
  · rintro ⟨b, u, hb, h⟩
    rcases gives_accept hb with ⟨rfl, hs', hhead⟩ | ⟨-, hne, -⟩
    · obtain ⟨-, hrest⟩ := List.cons.inj (hs.symm.trans hs')
      rw [← hrest] at hhead
      obtain ⟨-, rfl⟩ := (gives_accept_true hs hhead).unique hb
      exact ⟨hhead, h⟩
    · rw [hs] at hne
      exact absurd rfl hne
  · rintro ⟨hhead, h⟩
    exact ⟨_, _, gives_accept_true hs hhead, h⟩

theorem gives_accept_bind_iff_of_ne {c : Char} {f : Bool → Scan α}
    (hs : s.pieces.head? ≠ some (.plain c)) :
    (accept c >>= f).Gives s a t ↔ (f false).Gives s a t := by
  rw [gives_bind_iff]
  constructor
  · rintro ⟨b, u, hb, h⟩
    obtain ⟨rfl, rfl⟩ := (gives_accept_false hs).unique hb
    exact h
  · exact fun h => ⟨_, _, gives_accept_false hs, h⟩

theorem gives_peekPlain {x : Option Char} (h : peekPlain.Gives s x t) :
    t = s ∧ ∀ c, x = some c ↔ s.pieces.head? = some (.plain c) := by
  obtain ⟨y, u, hpeek, h⟩ := gives_bind_iff.mp h
  obtain ⟨rfl, rfl⟩ := gives_peek_iff.mp hpeek
  split at h
  · rename_i c hc
    obtain ⟨rfl, rfl⟩ := gives_pure_iff.mp h
    simp [hc]
  · rename_i hnot
    obtain ⟨rfl, rfl⟩ := gives_pure_iff.mp h
    refine ⟨rfl, fun c => ?_⟩
    simpa using hnot c

theorem gives_takeUpTo_succ {test : Char → Bool} {n : Nat} {chars : List Char}
    (h : (takeUpTo test (n + 1)).Gives s chars t) :
    (∃ c u rest, s.pieces = .plain c :: u.pieces ∧ u.pieces.head? ≠ some .dangling ∧
        test c = true ∧ (takeUpTo test n).Gives u rest t ∧ chars = c :: rest) ∨
      (chars = [] ∧ t = s ∧ ∀ c, s.pieces.head? = some (.plain c) → test c = false) := by
  rw [takeUpTo] at h
  obtain ⟨x, u, hpeek, h⟩ := gives_bind_iff.mp h
  obtain ⟨rfl, hx⟩ := gives_peekPlain hpeek
  cases x with
  | none =>
      obtain ⟨rfl, rfl⟩ := gives_pure_iff.mp h
      refine .inr ⟨rfl, rfl, fun c hc => ?_⟩
      have := (hx c).mpr hc
      contradiction
  | some c =>
      have hhead := (hx c).mp rfl
      dsimp only at h
      split at h
      · rename_i hc
        obtain ⟨y, v, htake, h⟩ := gives_bind_iff.mp h
        obtain ⟨rest, w, hrest, h⟩ := gives_bind_iff.mp h
        obtain ⟨rfl, rfl⟩ := gives_pure_iff.mp h
        rcases gives_take htake with ⟨hnil, -⟩ | ⟨p, hs, hnext, -⟩
        · rw [hnil] at hhead
          contradiction
        · rw [hs, List.head?_cons, Option.some.injEq] at hhead
          exact .inl ⟨c, v, rest, hhead ▸ hs, hnext, hc, hrest, rfl⟩
      · rename_i hc
        obtain ⟨rfl, rfl⟩ := gives_pure_iff.mp h
        refine .inr ⟨rfl, rfl, fun d hd => ?_⟩
        rw [hhead] at hd
        cases hd
        simpa using hc

theorem gives_takeUpTo_cons {test : Char → Bool} {n : Nat} {c : Char} {rest : List Piece}
    {chars : List Char} (hs : s.pieces = .plain c :: rest) (hhead : rest.head? ≠ some .dangling)
    (hc : test c = true) (h : (takeUpTo test n).Gives ⟨rest, s.offset + 1⟩ chars t) :
    (takeUpTo test (n + 1)).Gives s (c :: chars) t := by
  have hpeek : peekPlain.Gives s (some c) s := by
    refine gives_bind_iff.mpr ⟨s.pieces.head?, s, gives_peek_iff.mpr ⟨rfl, rfl⟩, ?_⟩
    rw [hs, List.head?_cons]
    exact gives_pure_iff.mpr ⟨rfl, rfl⟩
  rw [takeUpTo]
  refine gives_bind_iff.mpr ⟨some c, s, hpeek, ?_⟩
  dsimp only
  rw [if_pos hc]
  refine gives_bind_iff.mpr ⟨_, _, gives_take_cons hs hhead, ?_⟩
  exact gives_bind_iff.mpr ⟨chars, t, h, gives_pure_iff.mpr ⟨rfl, rfl⟩⟩

theorem gives_takeUpTo_nil {test : Char → Bool} {n : Nat}
    (h : ∀ c, s.pieces.head? = some (.plain c) → test c = false) :
    (takeUpTo test n).Gives s [] s := by
  cases n with
  | zero => exact gives_pure_iff.mpr ⟨rfl, rfl⟩
  | succ n =>
      rw [takeUpTo]
      by_cases hplain : ∃ c, s.pieces.head? = some (.plain c)
      · obtain ⟨c, hc⟩ := hplain
        refine gives_bind_iff.mpr ⟨some c, s, ?_, ?_⟩
        · refine gives_bind_iff.mpr ⟨s.pieces.head?, s, gives_peek_iff.mpr ⟨rfl, rfl⟩, ?_⟩
          rw [hc]
          exact gives_pure_iff.mpr ⟨rfl, rfl⟩
        · dsimp only
          rw [h c hc, if_neg Bool.false_ne_true]
          exact gives_pure_iff.mpr ⟨rfl, rfl⟩
      · refine gives_bind_iff.mpr ⟨none, s, ?_, gives_pure_iff.mpr ⟨rfl, rfl⟩⟩
        refine gives_bind_iff.mpr ⟨s.pieces.head?, s, gives_peek_iff.mpr ⟨rfl, rfl⟩, ?_⟩
        split
        · rename_i c hc
          exact absurd ⟨c, hc⟩ hplain
        · exact gives_pure_iff.mpr ⟨rfl, rfl⟩

theorem gives_loop_nil_iff {body : σ → Piece → Scan (σ ⊕ α)} {atEnd : σ → Scan α} {x : σ}
    (hs : s.pieces = []) : (loop body atEnd x).Gives s a t ↔ (atEnd x).Gives s a t := by
  unfold Gives
  rw [loop]
  split
  · rfl
  · rename_i hcons
    rw [hs] at hcons
    contradiction

/-- One round of a loop. -/
theorem gives_loop_cons_iff {body : σ → Piece → Scan (σ ⊕ α)} {atEnd : σ → Scan α} {x : σ}
    {p : Piece} {rest : List Piece} (hs : s.pieces = p :: rest) :
    (loop body atEnd x).Gives s a t ↔ rest.head? ≠ some .dangling ∧
      ∃ y v, (body x p).Gives ⟨rest, s.offset + p.width⟩ y v ∧
        ((y = .inr a ∧ v = t) ∨ ∃ x', y = .inl x' ∧ (loop body atEnd x').Gives v a t) := by
  constructor
  · rintro ⟨_, h⟩
    rw [loop] at h
    split at h
    · rename_i hnil
      rw [hs] at hnil
      contradiction
    · rename_i q rest' hs'
      rw [hs, List.cons.injEq] at hs'
      obtain ⟨rfl, rfl⟩ := hs'
      split at h
      · contradiction
      · rename_i u hu
        obtain ⟨hhead, rfl⟩ := advance_eq_ok_iff.mp hu
        refine ⟨hhead, ?_⟩
        split at h
        · contradiction
        · rename_i b v hv hbody
          cases h
          exact ⟨_, t, ⟨hv, hbody⟩, .inl ⟨rfl, rfl⟩⟩
        · rename_i x' v hv hbody
          split at h
          · contradiction
          · rename_i b w hw hloop
            cases h
            exact ⟨_, v, ⟨hv, hbody⟩, .inr ⟨x', rfl, hw, hloop⟩⟩
  · rintro ⟨hhead, y, v, ⟨hv, hbody⟩, hrest⟩
    have hadvance : advance p rest s.offset = .ok ⟨rest, s.offset + p.width⟩ :=
      advance_eq_ok_iff.mpr ⟨hhead, rfl⟩
    have hleft : v.pieces <:+ s.pieces := by
      rw [hs]
      exact hv.trans (List.suffix_cons p rest)
    unfold Gives
    rw [loop]
    split
    · rename_i hnil
      rw [hs] at hnil
      contradiction
    · rename_i q rest' hs'
      rw [hs, List.cons.injEq] at hs'
      obtain ⟨rfl, rfl⟩ := hs'
      split
      · rename_i hfault
        rw [hadvance] at hfault
        contradiction
      · rename_i u hu
        rw [hadvance] at hu
        cases hu
        rcases hrest with ⟨rfl, rfl⟩ | ⟨x', rfl, hw, hloop⟩
        · rw [hbody]
          exact ⟨hleft, rfl⟩
        · rw [hbody]
          dsimp only
          rw [hloop]
          exact ⟨hw.trans hleft, rfl⟩

theorem gives_attempt {n : Scan (Option α)} {x : Option α} (h : (attempt n).Gives s x t) :
    ∃ u, n.Gives s x u ∧ t = if x.isSome then u else s := by
  obtain ⟨_, h⟩ := h
  unfold attempt at h
  cases hn : n s with
  | error e =>
      rw [hn] at h
      contradiction
  | ok y =>
      rw [hn] at h
      cases hy : y.1 with
      | none =>
          simp only [Except.map, hy, Option.isSome_none, Bool.false_eq_true, if_false,
            Except.ok.injEq, Prod.mk.injEq] at h
          obtain ⟨rfl, h⟩ := h
          refine ⟨y.2.1, ?_, ?_⟩
          · rw [← hy]
            exact gives_iff_eq_ok.mpr hn
          · cases h
            rfl
      | some b =>
          simp only [Except.map, hy, Option.isSome_some, if_true, Except.ok.injEq] at h
          subst h
          obtain rfl : x = some b := hy
          exact ⟨t, gives_iff_eq_ok.mpr hn, rfl⟩

theorem gives_attempt_of_gives {n : Scan (Option α)} {x : Option α} (h : n.Gives s x t) :
    (attempt n).Gives s x (if x.isSome then t else s) := by
  obtain ⟨hleft, h⟩ := h
  cases x with
  | none =>
      refine ⟨List.suffix_rfl, ?_⟩
      unfold attempt
      rw [h]
      rfl
  | some a =>
      refine ⟨hleft, ?_⟩
      unfold attempt
      rw [h]
      rfl

/-! ### Up to a closing character -/

def untilRound (closer : Char) (what taken : String) (p : Piece) : Scan (String ⊕ String) :=
  if p = .plain closer then
    if taken = "" then failBack (.missing what) 1 else pure (.inr taken)
  else pure (.inl (taken ++ p.text))

def untilEnd (closer : Char) (what taken : String) : Scan String :=
  if taken = "" then failBack (.missing what) 0
  else failBack (.unterminatedName closer) taken.length

theorem takeUntil_eq (closer : Char) (what : String) :
    takeUntil closer what = loop (untilRound closer what) (untilEnd closer what) "" := rfl

theorem refuses_untilEnd (closer : Char) (what taken : String) :
    Refuses (untilEnd closer what taken) := by
  unfold untilEnd
  split
  · exact refuses_failBack _ _
  · exact refuses_failBack _ _

theorem gives_untilRound_iff {closer : Char} {what taken : String} {p : Piece}
    {y : String ⊕ String} :
    (untilRound closer what taken p).Gives s y t ↔
      (p = .plain closer ∧ taken ≠ "" ∧ y = .inr taken ∨
        p ≠ .plain closer ∧ y = .inl (taken ++ p.text)) ∧ t = s := by
  unfold untilRound
  by_cases hp : p = .plain closer
  · by_cases htaken : taken = ""
    · simp [hp, htaken, refuses_failBack _ _ s y t]
    · simp [hp, htaken]
  · simp [hp]

/-- The rounds give the text of the pieces before the closing character, after what there was. -/
theorem gives_untilRounds {closer : Char} {what start name : String}
    (h : (loop (untilRound closer what) (untilEnd closer what) start).Gives s name t) :
    name ≠ "" ∧ ∃ taken, s.pieces = taken ++ .plain closer :: t.pieces ∧ .plain closer ∉ taken ∧
      name.toList = start.toList ++ taken.flatMap Piece.chars ∧
      t.pieces.head? ≠ some .dangling := by
  generalize hs : s.pieces = pieces
  induction pieces generalizing s start with
  | nil => exact absurd ((gives_loop_nil_iff hs).mp h) (refuses_untilEnd _ _ _ _ _ _)
  | cons p rest ih =>
      obtain ⟨hhead, y, v, hround, hrest⟩ := (gives_loop_cons_iff hs).mp h
      obtain ⟨⟨hp, hne, rfl⟩ | ⟨hp, rfl⟩, rfl⟩ := gives_untilRound_iff.mp hround
      · rcases hrest with ⟨heq, rfl⟩ | ⟨_, heq, -⟩
        · cases heq
          exact ⟨hne, [], by rw [hp, List.nil_append], by simp, by simp, hhead⟩
        · contradiction
      · rcases hrest with ⟨heq, -⟩ | ⟨_, heq, hloop⟩
        · contradiction
        · cases heq
          obtain ⟨hne, taken, hpieces, hnot, hname, hhead'⟩ := ih hloop rfl
          refine ⟨hne, p :: taken, by rw [hpieces, List.cons_append], ?_, ?_, hhead'⟩
          · rw [List.mem_cons, not_or]
            exact ⟨fun h => hp h.symm, hnot⟩
          · rw [hname, String.toList_append, Piece.text, String.toList_ofList,
              List.flatMap_cons, List.append_assoc]

theorem gives_untilRounds_of_closed {closer : Char} {what start : String}
    {taken rest : List Piece} (hs : s.pieces = taken ++ .plain closer :: rest)
    (hnot : .plain closer ∉ taken) (hdangling : .dangling ∉ taken)
    (hhead : rest.head? ≠ some .dangling) (hne : start ≠ "" ∨ taken ≠ []) :
    ∃ t, t.pieces = rest ∧ (loop (untilRound closer what) (untilEnd closer what) start).Gives s
      (start ++ String.ofList (taken.flatMap Piece.chars)) t := by
  induction taken generalizing s start with
  | nil =>
      rw [List.nil_append] at hs
      refine ⟨⟨rest, s.offset + 1⟩, rfl, (gives_loop_cons_iff hs).mpr ⟨hhead, .inr start, _, ?_,
        .inl ⟨by simp, rfl⟩⟩⟩
      exact gives_untilRound_iff.mpr ⟨.inl ⟨rfl, by simpa using hne, rfl⟩, rfl⟩
  | cons p others ih =>
      rw [List.mem_cons, not_or] at hnot hdangling
      have hnext : (others ++ .plain closer :: rest).head? ≠ some .dangling := by
        cases others with
        | nil => simp
        | cons q others =>
            have hq : q ≠ .dangling := fun heq => hdangling.2 (heq ▸ List.mem_cons_self)
            simpa using hq
      have hstart : start ++ p.text ≠ "" := by
        rw [ne_eq, ← String.toList_inj, String.toList_append, Piece.text, String.toList_ofList]
        cases p <;> simp [Piece.chars]
      obtain ⟨t, ht, hgives⟩ := ih (s := ⟨others ++ .plain closer :: rest, s.offset + p.width⟩)
        rfl hnot.2 hdangling.2 (.inl hstart)
      have htext : start ++ String.ofList ((p :: others).flatMap Piece.chars) =
          start ++ p.text ++ String.ofList (others.flatMap Piece.chars) := by
        rw [← String.toList_inj]
        simp [Piece.text]
      rw [htext]
      refine ⟨t, ht, (gives_loop_cons_iff hs).mpr
        ⟨hnext, _, _, ?_, .inr ⟨start ++ p.text, rfl, hgives⟩⟩⟩
      exact gives_untilRound_iff.mpr ⟨.inr ⟨Ne.symm hnot.1, rfl⟩, rfl⟩

/-- A text up to a closing character is the text of the pieces before it, and it is not empty. -/
theorem gives_takeUntil {closer : Char} {what name : String}
    (h : (takeUntil closer what).Gives s name t) :
    ∃ taken, s.pieces = taken ++ .plain closer :: t.pieces ∧ .plain closer ∉ taken ∧
      taken ≠ [] ∧ name.toList = taken.flatMap Piece.chars ∧
      t.pieces.head? ≠ some .dangling := by
  obtain ⟨hne, taken, hs, hnot, hname, hhead⟩ := gives_untilRounds h
  refine ⟨taken, hs, hnot, ?_, hname, hhead⟩
  rintro rfl
  exact hne (String.toList_eq_nil_iff.mp hname)

theorem gives_takeUntil_of_closed {closer : Char} {what : String} {taken rest : List Piece}
    (hs : s.pieces = taken ++ .plain closer :: rest) (hnot : .plain closer ∉ taken)
    (hdangling : .dangling ∉ taken) (hhead : rest.head? ≠ some .dangling) (hne : taken ≠ []) :
    ∃ t, t.pieces = rest ∧
      (takeUntil closer what).Gives s (String.ofList (taken.flatMap Piece.chars)) t := by
  have hempty : "" ++ String.ofList (taken.flatMap Piece.chars) =
      String.ofList (taken.flatMap Piece.chars) := String.empty_append
  rw [takeUntil_eq, ← hempty]
  exact gives_untilRounds_of_closed hs hnot hdangling hhead (.inr hne)

/-! ### What is known of a result -/

/-- Whatever the scanner gives, this is known of it. -/
def Ensures (m : Scan α) (fact : α → Prop) : Prop := ∀ ⦃s a t⦄, m.Gives s a t → fact a

namespace Ensures

variable {fact fact' : α → Prop} {last : β → Prop}

theorem of_refuses (h : Refuses m) : m.Ensures fact := fun s a t hm => absurd hm (h s a t)

theorem pure (h : fact a) : (Pure.pure a : Scan α).Ensures fact := by
  intro s b t hm
  obtain ⟨rfl, rfl⟩ := gives_pure_iff.mp hm
  exact h

theorem bind {f : α → Scan β} (hf : ∀ a, (f a).Ensures last) : (m >>= f).Ensures last := by
  intro s b u hb
  obtain ⟨a, t, -, hb⟩ := gives_bind_iff.mp hb
  exact hf a hb

theorem ite {c : Prop} [Decidable c] {n : Scan α} (h₁ : c → m.Ensures fact)
    (h₂ : ¬ c → n.Ensures fact) : (if c then m else n).Ensures fact := by
  split
  · exact h₁ ‹_›
  · exact h₂ ‹_›

end Ensures

end Lookahead.Pattern.Scan
