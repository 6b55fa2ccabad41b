import Lookahead.Lexicon.Basic

/-!
Patterns that ask for no names. Only an escaped `N` asks for the character of a name. Without one
every scanner does the same under any two choices of names (`Scan.Same`), and so a pattern is
compiled to the same or has the same fault (`compile_eq_of_nameless`), and a catalog of such
patterns is put together in the same way (`Lexicon.assemble_eq_of_nameless`).

What is left of a pattern is the end of what there was, so no name is asked for later either. This
is all that the rules for scanners need; the one place where they are not enough is an escape, which
is taken before it is looked at.
-/

namespace Lookahead.Pattern

open Piece Scan

variable {α β : Type}

/-! ### Scanners -/

namespace Scan

/-- Two scanners do the same, and find the same faults, where no name is asked for. -/
def Same (m m' : Scan α) : Prop := ∀ s : Source, escaped 'N' ∉ s.pieces → m s = m' s

namespace Same

theorem refl (m : Scan α) : Same m m := fun _ _ => rfl

theorem bind {m m' : Scan α} {f f' : α → Scan β} (h : Same m m') (hf : ∀ a, Same (f a) (f' a)) :
    Same (m >>= f) (m' >>= f') := by
  intro s hs
  change Scan.bind m f s = Scan.bind m' f' s
  unfold Scan.bind
  rw [h s hs]
  cases m' s with
  | error fault => rfl
  | ok result =>
      obtain ⟨a, t, ht⟩ := result
      dsimp only
      rw [hf a t fun hmem => hs (ht.subset hmem)]

theorem ite {p : Prop} [Decidable p] {m m' n n' : Scan α} (h : p → Same m m')
    (hn : ¬ p → Same n n') : Same (if p then m else n) (if p then m' else n') := by
  split
  · exact h ‹_›
  · exact hn ‹_›

theorem takeBind {f f' : Option Piece → Scan α} (hnone : Same (f none) (f' none))
    (hsome : ∀ p, p ≠ escaped 'N' → Same (f (some p)) (f' (some p))) :
    Same (take >>= f) (take >>= f') := by
  intro s hs
  change Scan.bind take f s = Scan.bind take f' s
  unfold Scan.bind Scan.take
  split
  · rfl
  · rename_i a t ht htake
    split at htake
    · cases htake
      rw [hnone _ hs]
    · rename_i p rest hpieces
      rw [hpieces, List.mem_cons, not_or] at hs
      split at htake
      · contradiction
      · rename_i t' hadvance
        cases htake
        rw [hsome p (Ne.symm hs.1) _ (by rw [pieces_of_advance hadvance]; exact hs.2)]

theorem loop {σ : Type} {body body' : σ → Piece → Scan (σ ⊕ α)} {atEnd : σ → Scan α}
    (hbody : ∀ x p, p ≠ escaped 'N' → Same (body x p) (body' x p)) (x : σ) :
    Same (Scan.loop body atEnd x) (Scan.loop body' atEnd x) := by
  intro s hs
  generalize hlength : s.pieces.length = n
  induction n using Nat.strongRecOn generalizing x s with
  | ind n ih =>
      rw [Scan.loop, Scan.loop]
      split
      · rfl
      · rename_i p rest hpieces
        split
        · rfl
        · rename_i t hadvance
          have hpieces' := hpieces ▸ hs
          rw [List.mem_cons, not_or] at hpieces'
          have ht : escaped 'N' ∉ t.pieces := by
            rw [pieces_of_advance hadvance]
            exact hpieces'.2
          rw [hbody x p (Ne.symm hpieces'.1) t ht]
          split
          · rfl
          · rfl
          · rename_i y u hu _
            have hlt : u.pieces.length < n := by
              have hle := hu.length_le
              rw [pieces_of_advance hadvance] at hle
              rw [← hlength, hpieces, List.length_cons]
              omega
            rw [ih _ hlt y u (fun hmem => ht (hu.subset hmem)) rfl]

end Same

end Scan

/-! ### Constructs -/

abbrev noNames : Text.CharacterNames where
  find? _ := none
  isNameChar_of_find? := nofun

variable (names names' : Text.CharacterNames)

theorem same_announcedCode {c : Char} (hc : c ≠ 'N') :
    Same (@announcedCode names c) (@announcedCode names' c) := by
  unfold announcedCode
  split
  · exact .refl _
  · rw [if_neg hc, if_neg hc]
    exact .refl _

theorem same_setEscape {c : Char} (hc : c ≠ 'N') :
    Same (@setEscape names c) (@setEscape names' c) := by
  refine .ite (fun _ => .refl _) fun _ => ?_
  split
  · exact .refl _
  · exact .refl _
  · exact .bind (same_announcedCode names names' hc) fun _ => .refl _

theorem same_setMember {p : Piece} (hp : p ≠ escaped 'N') :
    Same (@setMember names p) (@setMember names' p) := by
  cases p with
  | escaped c => exact same_setEscape names names' fun hc => hp (congrArg escaped hc)
  | plain _ | dangling => exact .refl _

theorem same_rangeTail (start : Nat) (done : List Member) (this : Piece) (first : Member) :
    Same (@rangeTail names start done this first) (@rangeTail names' start done this first) := by
  refine .takeBind (.refl _) fun that hthat => .ite (fun _ => .refl _) fun _ => ?_
  exact .bind (same_setMember names names' hthat) fun _ => .refl _

theorem same_setMembers (start : Nat) :
    Same (@setMembers names start) (@setMembers names' start) := by
  refine .loop (fun done this hthis => .ite (fun _ => .refl _) fun _ => ?_) []
  refine .bind (same_setMember names names' hthis) fun member => .bind (.refl _) fun hyphen => ?_
  exact .ite (fun _ => same_rangeTail names names' start done this member) fun _ => .refl _

theorem same_readSet (start : Nat) : Same (@readSet names start) (@readSet names' start) :=
  .bind (.refl _) fun _ => .bind (same_setMembers names names' start) fun _ => .refl _

namespace Reading

variable (r : Reading)

theorem same_termEscape {c : Char} (hc : c ≠ 'N') :
    Same (@termEscape names r c) (@termEscape names' r c) := by
  unfold termEscape
  split
  · exact .refl _
  · exact .refl _
  · exact .refl _
  · exact .bind (same_announcedCode names names' hc) fun _ => .refl _

theorem same_next {p : Piece} (hp : p ≠ escaped 'N') (offset : Nat) :
    Same (@next names r p offset) (@next names' r p offset) := by
  refine .ite (fun _ => .refl _) fun _ => .ite (fun _ => .refl _) fun _ => ?_
  cases p with
  | dangling => exact .refl _
  | escaped c =>
      have hescape := r.same_termEscape names names' fun hc => hp (congrArg escaped hc)
      exact .bind hescape fun _ => .refl _
  | plain c =>
      refine .ite (fun _ => .refl _) fun _ => .ite (fun _ => .refl _) fun _ => ?_
      split
      · exact .refl _
      · split
        · exact .bind (same_readSet names names' offset) fun _ => .refl _
        all_goals exact .refl _

theorem readAll_eq_of_nameless {s : Source} (hs : escaped 'N' ∉ s.pieces) :
    @readAll names r s = @readAll names' r s := by
  generalize hlength : s.pieces.length = n
  induction n using Nat.strongRecOn generalizing r s with
  | ind n ih =>
      rw [@readAll.eq_def names, @readAll.eq_def names']
      split
      · rfl
      · rename_i p rest hpieces
        have hpieces' := hpieces ▸ hs
        rw [List.mem_cons, not_or] at hpieces'
        split
        · rfl
        · split
          · rfl
          · rename_i t hadvance
            have ht : escaped 'N' ∉ t.pieces := by
              rw [pieces_of_advance hadvance]
              exact hpieces'.2
            rw [r.same_next names names' (Ne.symm hpieces'.1) s.offset t ht]
            split
            · rfl
            · rename_i r₁ u hu _
              have hle := hu.length_le
              rw [pieces_of_advance hadvance] at hle
              rw [hpieces, List.length_cons] at hlength
              exact ih _ (by omega) r₁ (fun hmem => ht (hu.subset hmem)) rfl

end Reading

/-- A pattern that asks for no name is compiled in the same way whatever names there are. -/
theorem compile_eq_of_nameless {pattern : String} (h : escaped 'N' ∉ cut pattern.toList) :
    @compile names pattern = @compile names' pattern := by
  have hread := Reading.start.readAll_eq_of_nameless names names' (s := ⟨cut pattern.toList, 0⟩) h
  have hparse : @parse names pattern = @parse names' pattern := by
    unfold parse
    dsimp only
    rw [hread]
  unfold compile
  rw [hparse]

end Lookahead.Pattern

namespace Lookahead.Lexicon

open Pattern

variable (names names' : Text.CharacterNames)

theorem add_eq_of_nameless (a : Assembly) (name : String) {pattern : String}
    (h : Piece.escaped 'N' ∉ Piece.cut pattern.toList) :
    @Assembly.add names a name pattern = @Assembly.add names' a name pattern := by
  unfold Assembly.add compilePattern
  rw [compile_eq_of_nameless names names' h]

/-- Patterns that ask for no names are put together in the same way whatever names there are. -/
theorem assemble_eq_of_nameless {catalog : Catalog}
    (h : ∀ entry ∈ catalog.patterns, Piece.escaped 'N' ∉ Piece.cut entry.2.toList) :
    @assemble names catalog = @assemble names' catalog := by
  unfold assemble
  generalize ({} : Assembly) = a
  generalize catalog.patterns = patterns at h ⊢
  induction patterns generalizing a with
  | nil => rw [List.foldlM_nil, List.foldlM_nil]
  | cons entry patterns ih =>
      rw [List.forall_mem_cons] at h
      have hadd := add_eq_of_nameless names names' a entry.1 h.1
      rw [List.foldlM_cons, List.foldlM_cons]
      exact congr (congrArg bind hadd) (funext fun a' => ih a' h.2)

end Lookahead.Lexicon
