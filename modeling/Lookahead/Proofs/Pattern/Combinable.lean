import Lookahead.Proofs.Pattern.Combined

/-!
Patterns that can be read alone, and their combination. With at most 99 groups in it every number
can still be written, so a pattern without names, modes and misleading comments can be moved
(`exists_renumber`): a number that is too large would be one of a group that the pattern does not
have, and alone it would have been refused. So all patterns can be laid one after another
(`exists_laid`), and what they are put together to compiles (`compile_joined`).
-/

namespace Lookahead.Pattern

open Piece Term

/-! ### Checks of the whole term -/

@[simp] theorem Term.check_shift (template : Bool) (k : Nat) (t : Term) :
    (t.shift k).check template = t.check template := by
  induction t with
  | cat first second ihFirst ihSecond | either first second ihFirst ihSecond =>
      rw [shift, check, check, ihFirst, ihSecond]
  | conditional number present absent ihPresent ihAbsent =>
      rw [shift, check, check, ihPresent, ihAbsent]
  | group _ _ ih | moded _ _ _ ih | atomic _ ih | ahead _ _ ih => exact ih
  | behind negated width body ih => rw [shift, check, check, ih]
  | repeated greed least most body ih => rw [shift, check, check, ih]
  | _ => rfl

theorem check_choice {template : Bool} {terms : List Term}
    (h : ∀ t ∈ terms, t.check template = .ok ()) : (choice terms).check template = .ok () := by
  induction terms with
  | nil => rfl
  | cons t rest ih =>
      obtain ⟨ht, hrest⟩ := List.forall_mem_cons.mp h
      cases rest with
      | nil => exact ht
      | cons u rest =>
          change ((t.check template).bind fun _ => (choice (u :: rest)).check template) = _
          rw [ht]
          exact ih hrest

theorem compile_eq_ok_iff [Text.CharacterNames] {pattern : String} {p : Compiled} :
    compile pattern = .ok p ↔
      parse pattern = .ok p ∧ p.term.check p.modes.template = .ok () := by
  unfold compile
  rw [bind_eq_ok]
  constructor
  · rintro ⟨q, hparse, h⟩
    obtain ⟨⟨⟩, hcheck, h⟩ := bind_eq_ok.mp h
    cases h
    exact ⟨hparse, hcheck⟩
  · rintro ⟨hparse, hcheck⟩
    exact ⟨p, hparse, bind_eq_ok.mpr ⟨(), hcheck, rfl⟩⟩

/-! ### Numbers that can be moved -/

/-- A pattern that compiles alone can be moved, where its last group still has a number of two
digits. -/
theorem exists_renumber [Text.CharacterNames] {k : Nat} {pattern : String} {alone : Compiled}
    (hk : 0 < k) (halone : compile pattern = .ok alone)
    (hbare : InertComments pattern ∧ PlainConditions pattern ∧ Unmoded pattern ∧ Unnamed pattern)
    (hroom : k + 1 + alone.groups ≤ 100) : ∃ branch, renumber pattern k = .ok branch := by
  obtain ⟨hcomment, hplain, hmodes, hnames⟩ := hbare
  obtain ⟨hhead, rf, hread, hasked, rfl⟩ := Reading.parse_eq_ok (parse_of_compile halone)
  dsimp only at hroom
  have hroomy : rf.Roomy k :=
    ⟨by omega, fun a ha => by have := hasked a ha; omega⟩
  cases hpieces : renumberPieces k false (cut pattern.toList) with
  | ok text => exact ⟨String.ofList text, by rw [renumber, hpieces]; rfl⟩
  | error fault =>
      -- what stops the renumbering would have been refused, but reading comes to its end
      obtain ⟨text, hmoved⟩ :=
        (breaks_of_eq_error hpieces).exists_moved (plain_backslash_not_mem_cut _)
      have hbeside : Beside k none false (cut pattern.toList) (Source.mk (cut text) 0).pieces :=
        ⟨hmoved, hhead⟩
      have hinside := ((Reading.between_start k).nests 0).readAll hk hbeside hread hcomment hplain
        (Or.inr (a := False) fun x hx => ⟨hmodes x hx, hnames x hx⟩) (.inr hroomy)
      rcases hinside with ⟨rest, r₁, u, hnone, -⟩ | ⟨hfalse, -⟩
      · contradiction
      · contradiction

/-- Patterns that compile alone can be laid one after another. -/
theorem exists_laid [Text.CharacterNames] {k : Nat} {patterns : List String} {alone : List Compiled}
    (hk : 0 < k)
    (halone : patterns.map compile = alone.map .ok)
    (hbare : ∀ pattern ∈ patterns, InertComments pattern ∧ PlainConditions pattern ∧
      Unmoded pattern ∧ Unnamed pattern)
    (hroom : k + combinedGroups alone ≤ 100) :
    ∃ parts branches, Laid k patterns parts branches ∧ parts.map Part.alone = alone := by
  induction patterns generalizing k alone with
  | nil =>
      obtain rfl : alone = [] := by simpa using halone.symm
      exact ⟨[], [], .nil k, rfl⟩
  | cons pattern patterns ih =>
      cases alone with
      | nil => simp at halone
      | cons first alone =>
          rw [List.map_cons, List.map_cons, List.cons.injEq] at halone
          obtain ⟨hpattern, hothers⟩ := List.forall_mem_cons.mp hbare
          rw [combinedGroups_cons] at hroom
          obtain ⟨branch, hbranch⟩ := exists_renumber hk halone.1 hpattern (by omega)
          obtain ⟨parts, branches, hlaid, hparts⟩ :=
            @ih (k + 1 + first.groups) alone (by omega) halone.2 hothers (by omega)
          refine ⟨⟨k, first⟩ :: parts, _, .cons halone.1 hbranch hlaid, ?_⟩
          rw [List.map_cons, hparts]

/-! ### The combination -/

theorem Laid.exists_compile [Text.CharacterNames] {k : Nat} {patterns branches : List String}
    {parts : List Part} (h : Laid k patterns parts branches) :
    ∀ part ∈ parts, ∃ pattern, compile pattern = .ok part.alone := by
  intro part hpart
  have hmem : Except.ok part.alone ∈ patterns.map compile := by
    rw [h.map_compile_eq]
    exact List.mem_map_of_mem (List.mem_map_of_mem hpart)
  obtain ⟨pattern, -, hcompile⟩ := List.mem_map.mp hmem
  exact ⟨pattern, hcompile⟩

/-- **Patterns that are laid one after another compile**, to the choice between the groups around
them, and there are no groups but these and their own. -/
theorem compile_joined [Text.CharacterNames] {patterns branches : List String} {parts : List Part}
    (hlaid : Laid 1 patterns parts branches) (hne : patterns ≠ [])
    (hbare : ∀ pattern ∈ patterns, InertComments pattern ∧ PlainConditions pattern ∧
      Unmoded pattern ∧ Unnamed pattern)
    (hroom : combinedGroups (parts.map Part.alone) ≤ 99) :
    compile ("|".intercalate branches) = .ok {
      term := choice (parts.map Part.term)
      modes := Reading.initialModes
      groups := combinedGroups (parts.map Part.alone) } := by
  have hbare' : ∀ pattern ∈ patterns, InertComments pattern ∧ PlainConditions pattern ∧
      (False ∨ Unmoded pattern ∧ Unnamed pattern) :=
    fun pattern hpattern => ⟨(hbare pattern hpattern).1, (hbare pattern hpattern).2.1,
      .inr (hbare pattern hpattern).2.2⟩
  have hjoined := (Reading.between_start 1).readAll_joined hlaid hne Nat.one_pos hbare'
    (.inr (by omega)) (s := ⟨cut (joined branches), 0⟩) rfl
  rcases hjoined with ⟨rf, hread, houtside, hmodes, hterms⟩ | ⟨hfalse, -⟩
  · have hterm : seq rf.frame.allTerms = choice (parts.map Part.term) := by
      rw [Frame.allTerms, hterms]
      exact seq_alternation_groups (hlaid.ne_nil hne).1
    have hhead : (cut (joined branches)).head? ≠ some dangling := by
      cases hlaid with
      | nil => exact absurd rfl hne
      | cons => exact Reading.head_joined_cons _ _
    have hparse := houtside.parse_eq hhead hread
    rw [hterm, Nat.add_sub_cancel_left] at hparse
    refine compile_eq_ok_iff.mpr ⟨hparse, check_choice fun t ht => ?_⟩
    -- alone each of them has been checked in the same modes
    obtain ⟨part, hpart, rfl⟩ := List.mem_map.mp ht
    obtain ⟨pattern, hcompile⟩ := hlaid.exists_compile part hpart
    obtain ⟨-, hcheck⟩ := compile_eq_ok_iff.mp hcompile
    rw [hmodes part hpart] at hcheck
    change (part.alone.term.shift part.number).check _ = _
    rw [check_shift]
    exact hcheck
  · contradiction

end Lookahead.Pattern
