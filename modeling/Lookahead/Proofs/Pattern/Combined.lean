import Lookahead.Pattern.Compile
import Lookahead.Proofs.Pattern.Inside
import Lookahead.Proofs.Pattern.Names
import Lookahead.Proofs.Pattern.Search

/-!
Patterns that are put together. The combined pattern has a group for each of them and bars between
the groups. Reading one group is reading the pattern inside it (`Reading.Between.readAll_group`),
and between the groups nothing is open, so reading all of them is an induction over the patterns
that are laid one after another (`Laid`). What comes out is a choice between groups, each with the
term of its pattern, moved.

So at every place the combination matches as the first pattern does, then as the second one does,
and so on (`Combines`), each time with the group around the pattern closed last. From that follows
what it finds (`Combines.of_finds`).
-/

namespace Lookahead.Pattern

open Piece Scan Term

/-! ### One group -/

/-- Outside of all parentheses of a combined pattern, where the next group has the number `k`. -/
structure Reading.Outside (k : Nat) (r : Reading) : Prop where
  opening : r.frame.opening = .whole
  verbose : r.frame.verbose = false
  outer : r.outer = []
  next : r.groups.next = k
  limit : r.groups.limit = none
  asked : ∀ a ∈ r.asked, a.1 < k
  modes : r.modes = Reading.initialModes

/-- Between the groups of a combined pattern: nothing is open, and nothing of the current
alternative has been read. -/
structure Reading.Between (k : Nat) (r : Reading) : Prop extends Reading.Outside k r where
  items : r.frame.items = []

namespace Reading

variable {k : Nat} {r rf : Reading} {s : Source} {excused : Prop}

theorem refuses_next_start [Text.CharacterNames] (offset : Nat) : Refuses
    (start.next (plain '?') offset) := by
  have hspace : isSpace '?' = false := rfl
  have hnext : start.next (plain '?') offset =
      start.repeatLast '?' (pure (some (0, some 1))) offset := by
    simp [next, readPiece, hspace, repeatBounds?]
  rw [hnext]
  intro s r₁ t h
  obtain ⟨bounds?, u, hbounds, h⟩ := gives_bind_iff.mp h
  obtain ⟨rfl, -⟩ := gives_pure_iff.mp hbounds
  exact ((refuses_failAt _ _).bind _) _ _ _ h

/-- At the start of a combined pattern, or of a later part of one. -/
theorem between_start (k : Nat) :
    ({ start with groups := { next := k } } : Reading).Between k :=
  ⟨⟨rfl, rfl, rfl, rfl, rfl, nofun, rfl⟩, rfl⟩

/-- At its start a pattern is next to the group that it has been put into. -/
theorem Between.nests (h : r.Between k) (start' : Nat) :
    Reading.start.Nests k r.frame r.groups (r.enterCapture start') where
  stack := by
    have houter : (r.enterCapture start').outer = [r.frame] := by
      change r.frame :: r.outer = [r.frame]
      rw [h.outer]
    rw [houter]
    refine .outermost rfl rfl ⟨?_, h.verbose, rfl, .nil⟩
    change Opening.capture r.groups.next = _
    rw [h.next]
    rfl
  groups :=
    { next := by
        change r.groups.next + 1 = 1 + k
        rw [h.next, Nat.add_comm]
      next_pos := Nat.one_pos
      names := (List.append_nil _).symm
      fresh := by simp [Reading.start]
      widths := rfl
      limit := h.limit }
  limited := rfl
  asked := fun a ha => .inl (h.asked a ha)
  modes := rfl
  modes' := h.modes

theorem parse_eq_ok [Text.CharacterNames] {pattern : String} {c : Compiled}
    (h : parse pattern = .ok c) :
    (cut pattern.toList).head? ≠ some dangling ∧ ∃ rf,
      start.readAll ⟨cut pattern.toList, 0⟩ = .ok rf ∧ (∀ a ∈ rf.asked, a.1 < rf.groups.next) ∧
        c = { term := seq rf.frame.allTerms, modes := rf.modes, groups := rf.groups.next - 1 } := by
  unfold parse at h
  dsimp only at h
  split at h
  · contradiction
  · rename_i hhead
    obtain ⟨rf, hread, h⟩ := bind_eq_ok.mp h
    obtain ⟨modes, hmodes, h⟩ := bind_eq_ok.mp h
    have heq : modes = rf.modes := by
      unfold finalModes at hmodes
      split at hmodes
      · contradiction
      · exact (Except.ok.inj hmodes).symm
    split at h
    · contradiction
    · rename_i hnone
      cases h
      refine ⟨hhead, rf, hread, fun a ha => ?_, by rw [heq]⟩
      simpa using List.find?_eq_none.mp hnone a ha

/-- If it has been read outside of all parentheses, nothing is missing. -/
theorem Outside.parse_eq [Text.CharacterNames] {pattern : String} (h : rf.Outside k)
    (hhead : (cut pattern.toList).head? ≠ some dangling)
    (hread : start.readAll ⟨cut pattern.toList, 0⟩ = .ok rf) :
    parse pattern =
      .ok { term := seq rf.frame.allTerms, modes := initialModes, groups := k - 1 } := by
  have hmodes : rf.finalModes = .ok initialModes := by
    rw [finalModes, h.modes]
    rfl
  have hmissing : rf.missingGroup? = none := by
    rw [missingGroup?, List.find?_eq_none, h.next]
    simpa using h.asked
  unfold parse
  dsimp only
  rw [if_neg hhead]
  refine bind_eq_ok.mpr ⟨rf, hread, bind_eq_ok.mpr ⟨_, hmodes, ?_⟩⟩
  rw [hmissing, h.next]

/-- The closing parenthesis of the group gives it to the frame around. -/
theorem Nests.leave_whole {around : Groups} {r₀ r' : Reading} (h₀ : r₀.Outside k)
    (h : r.Nests k r₀.frame around r') (houter : r.outer = [])
    (hasked : ∀ a ∈ r.asked, a.1 < r.groups.next) :
    r'.leave.frame = r₀.frame.push (.single (.group k ((seq r.frame.allTerms).shift k))) ∧
      r'.leave.Outside (r.groups.next + k) := by
  obtain ⟨groups, modes, asked, frame, outer⟩ := r
  obtain ⟨groups', modes', asked', frame', outer'⟩ := r'
  obtain rfl : outer = [] := houter
  obtain ⟨hstack, hgroups, hlimited, hmoved, -, hmodes'⟩ := h
  obtain ⟨rfl, hwhole, -, hf⟩ := hstack.of_singleton
  have hopening := hf.opening
  have hbody : seq frame'.allTerms = (seq frame.allTerms).shift k := by
    rw [hf.allTerms, shift_seq]
  have hlimit : groups.limit = none := by
    dsimp only at hlimited hwhole
    rw [List.countP_singleton, Frame.looksBehind, hwhole] at hlimited
    cases hlimit : groups.limit with
    | none => rfl
    | some limit =>
        rw [hlimit] at hlimited
        contradiction
  have hasked' : ∀ a ∈ asked', a.1 < groups.next + k := by
    intro a ha
    rcases hmoved a ha with hlt | ⟨b, hb, heq⟩
    · omega
    · have hlt := hasked b hb
      dsimp only at hlt
      omega
  have hlimit' := hgroups.limit
  have hnext := hgroups.next
  dsimp only at hopening hlimit' hnext hwhole
  rw [hwhole] at hopening
  rw [hlimit] at hlimit'
  unfold Reading.leave
  dsimp only
  rw [hopening, hbody]
  exact ⟨rfl, h₀.opening, h₀.verbose, rfl, hnext, hlimit', hasked', hmodes'⟩

theorem Nests.checkCloser_whole {base : Frame} {around : Groups} {r' : Reading}
    (h : r.Nests k base around r') (houter : r.outer = []) (offset : Nat) :
    r'.checkCloser (plain ')') offset = .ok () := by
  have hstack := h.stack
  rw [houter] at hstack
  obtain ⟨-, hwhole, -, hf⟩ := hstack.of_singleton
  unfold Reading.checkCloser
  rw [if_neg fun hclose => h.outer_ne_nil hclose.2, hf.opening, hwhole]
  rfl

/-- A pattern that is read does not start with a question mark, and neither does what it becomes. -/
theorem head_ne_question_of_renumber [Text.CharacterNames] {c : Compiled} {pattern : String}
    {branch : List Char} (hparse : parse pattern = .ok c)
    (hbranch : renumberPieces k false (cut pattern.toList) = .ok branch) (rest : List Char) :
    (cut (branch ++ ')' :: rest)).head? ≠ some (plain '?') := by
  intro hmark
  obtain ⟨hhead, rf, hread, -, -⟩ := parse_eq_ok hparse
  have hbeside : Beside k (some (cut rest)) false (cut pattern.toList)
      (cut (branch ++ ')' :: rest)) :=
    ⟨(renumbers_of_eq_ok hbranch).moved (plain_backslash_not_mem_cut _) rest, hhead⟩
  obtain ⟨others, hpieces⟩ :=
    List.head?_eq_some_iff.mp ((hbeside.head_eq_iff (by decide)).mp hmark)
  obtain ⟨-, r₀, u₀, hnext, -⟩ := readAll_cons_eq_ok hread hpieces
  exact refuses_next_start _ _ _ _ hnext

/-- A group around a pattern is read as a group around its term, if it can be read at all. -/
theorem Between.readAll_group [Text.CharacterNames] {c : Compiled} {pattern : String}
    {branch rest : List Char} (hk : 0 < k) (h : r.Between k) (hparse : parse pattern = .ok c)
    (hbranch : renumberPieces k false (cut pattern.toList) = .ok branch)
    (hcomment : InertComments pattern) (hplain : PlainConditions pattern)
    (hbare : excused ∨ Unmoded pattern ∧ Unnamed pattern) (hroom : excused ∨ k + 1 + c.groups ≤ 100)
    (hs : s.pieces = cut ('(' :: (branch ++ ')' :: rest)))
    (hrest : (cut rest).head? ≠ some dangling) :
    (∃ (r₁ : Reading) (u : Source), u.pieces = cut rest ∧ r.readAll s = r₁.readAll u ∧
        c.modes = initialModes ∧ r₁.Outside (k + 1 + c.groups) ∧
          r₁.frame = r.frame.push (.single (.group k (c.term.shift k)))) ∨
      excused ∧ ∃ fault, r.readAll s = .error fault := by
  obtain ⟨hhead, rf, hread, hasked, rfl⟩ := parse_eq_ok hparse
  have hgroups : k + 1 + (rf.groups.next - 1) = rf.groups.next + k := by
    have hpos : 1 ≤ rf.groups.next := (grows_readAll hread).next
    omega
  dsimp only at hroom ⊢
  rw [hgroups] at hroom ⊢
  have hbeside : Beside k (some (cut rest)) false (cut pattern.toList)
      (cut (branch ++ ')' :: rest)) :=
    ⟨(renumbers_of_eq_ok hbranch).moved (plain_backslash_not_mem_cut _) rest, hhead⟩
  -- the opening parenthesis, after which no question mark comes
  rw [cut_cons_of_ne (by decide)] at hs
  have hquestion := head_ne_question_of_renumber hparse hbranch rest
  have hopen : r.Step s (plain '(') (r.enterCapture s.offset)
      ⟨cut (branch ++ ')' :: rest), s.offset + 1⟩ := by
    refine step_of_gives hs hbeside.head_moved (checkCloser_of_ne (by simp) (by simp)) ?_
    rw [Nests.next_parenthesis, gives_readParenthesis_iff_of_ne hquestion]
    exact ⟨rfl, rfl⟩
  rw [hopen.readAll_eq]
  -- the pattern, next to itself alone
  have hpattern := @Nests.readAll k r.frame r.groups _ _ _ excused _ ⟨cut pattern.toList, 0⟩
    ⟨cut (branch ++ ')' :: rest), s.offset + 1⟩ rf hk (h.nests s.offset) hbeside hread hcomment
    hplain (hbare.imp_right fun hbare x hx => ⟨hbare.1 x hx, hbare.2 x hx⟩)
    (hroom.imp_right fun hroom => ⟨hroom, fun a ha => by have := hasked a ha; omega⟩)
  rcases hpattern with ⟨tail, r₁, u, htail, hnests, houter, hu, heq⟩ | hrefused
  · obtain rfl := Option.some.inj htail
    -- the closing parenthesis
    obtain ⟨hframe, houtside⟩ := hnests.leave_whole h.toOutside houter hasked
    have hclose : r₁.Step u (plain ')') r₁.leave ⟨cut rest, u.offset + 1⟩ :=
      step_of_gives hu hrest (hnests.checkCloser_whole houter _) (gives_pure_iff.mpr ⟨rfl, rfl⟩)
    exact .inl ⟨r₁.leave, _, rfl, heq.trans hclose.readAll_eq, hnests.modes, houtside, hframe⟩
  · exact .inr hrefused

end Reading

/-! ### Several groups -/

/-- A pattern in a combination: what it is alone, and the number of the group around it. -/
structure Part where
  number : Nat
  alone : Compiled

def Part.term (part : Part) : Term := .group part.number (part.alone.term.shift part.number)

/-- Patterns in groups, one after another, the first of which has the given number; and the texts of
the groups. -/
inductive Laid [Text.CharacterNames] : Nat → List String → List Part → List String → Prop
  | nil (k : Nat) : Laid k [] [] []
  | cons {k : Nat} {pattern branch : String} {alone : Compiled} {patterns branches : List String}
      {parts : List Part} (halone : compile pattern = .ok alone)
      (hbranch : renumber pattern k = .ok branch)
      (hrest : Laid (k + 1 + alone.groups) patterns parts branches) :
      Laid k (pattern :: patterns) (⟨k, alone⟩ :: parts) (("(" ++ branch ++ ")") :: branches)

theorem Laid.ne_nil [Text.CharacterNames] {k : Nat} {patterns branches : List String}
    {parts : List Part}
    (h : Laid k patterns parts branches) (hne : patterns ≠ []) : parts ≠ [] ∧ branches ≠ [] := by
  cases h with
  | nil => exact absurd rfl hne
  | cons => simp

theorem Laid.le_number [Text.CharacterNames] {k : Nat} {patterns branches : List String}
    {parts : List Part} (h : Laid k patterns parts branches) : ∀ part ∈ parts, k ≤ part.number := by
  induction h with
  | nil => simp
  | cons _ _ _ ih =>
      rw [List.forall_mem_cons]
      refine ⟨Nat.le_refl _, fun part hpart => ?_⟩
      have := ih part hpart
      omega

theorem Laid.map_compile_eq [Text.CharacterNames] {k : Nat} {patterns branches : List String}
    {parts : List Part} (h : Laid k patterns parts branches) :
    patterns.map compile = (parts.map Part.alone).map .ok := by
  induction h with
  | nil => rfl
  | cons halone _ _ ih => rw [List.map_cons, List.map_cons, List.map_cons, halone, ih]

/-- How many groups patterns have in a combination: their own, and one around each. -/
def combinedGroups (alone : List Compiled) : Nat := (alone.map fun p => p.groups + 1).sum

theorem combinedGroups_cons (p : Compiled) (alone : List Compiled) :
    combinedGroups (p :: alone) = p.groups + 1 + combinedGroups alone := rfl

def joined (branches : List String) : List Char := ("|".intercalate branches).toList

theorem joined_singleton (branch : String) :
    joined ["(" ++ branch ++ ")"] = '(' :: (branch.toList ++ ')' :: []) := by
  simp [joined]

theorem joined_cons_cons (branch other : String) (branches : List String) :
    joined (("(" ++ branch ++ ")") :: other :: branches) =
      '(' :: (branch.toList ++ ')' :: '|' :: joined (other :: branches)) := by
  simp [joined]

theorem parse_of_compile [Text.CharacterNames] {pattern : String} {c : Compiled}
    (h : compile pattern = .ok c) :
    parse pattern = .ok c := by
  obtain ⟨d, hparse, h⟩ := bind_eq_ok.mp h
  obtain ⟨_, -, h⟩ := bind_eq_ok.mp h
  cases h
  exact hparse

theorem renumberPieces_of_renumber {k : Nat} {pattern branch : String}
    (h : renumber pattern k = .ok branch) :
    renumberPieces k false (cut pattern.toList) = .ok branch.toList := by
  obtain ⟨text, htext, rfl⟩ := map_eq_ok.mp h
  rw [String.toList_ofList]
  exact htext

namespace Reading

variable {k : Nat} {r : Reading} {s : Source} {excused : Prop}

theorem Between.terms_push (h : r.Between k) (t : Term) :
    (r.frame.push (.single t)).terms = [t] := by
  rw [Frame.terms, Frame.push, h.items]
  rfl

/-- Behind a bar nothing of the next alternative has been read. -/
theorem Outside.nextBranch (h : r.Outside k) :
    ({ r with frame := r.frame.nextBranch } : Reading).Between k :=
  ⟨⟨h.opening, h.verbose, h.outer, h.next, h.limit, h.asked, h.modes⟩, rfl⟩

theorem Outside.step_bar [Text.CharacterNames] {text : List Char} (h : r.Outside k)
    (hs : s.pieces = cut ('|' :: text)) (hhead : (cut text).head? ≠ some dangling) :
    ∃ u, r.Step s (plain '|') { r with frame := r.frame.nextBranch } u ∧ u.pieces = cut text := by
  rw [cut_cons_of_ne (by decide)] at hs
  have hnext : r.bar = { r with frame := r.frame.nextBranch } := by rw [Reading.bar, h.opening]
  refine ⟨⟨cut text, s.offset + 1⟩, step_of_gives hs hhead ?_ ?_, rfl⟩
  · rw [checkCloser, if_neg (by simp), h.opening]
  · exact gives_pure_iff.mpr ⟨hnext.symm, rfl⟩

theorem head_joined_cons (branch : String) (branches : List String) :
    (cut (joined (("(" ++ branch ++ ")") :: branches))).head? ≠ some dangling := by
  cases branches with
  | nil =>
      rw [joined_singleton, cut_cons_of_ne (by decide)]
      simp
  | cons other branches =>
      rw [joined_cons_cons, cut_cons_of_ne (by decide)]
      simp

/-- Groups with bars between them are read as alternatives, each of which is a group, if they can be
read at all. -/
theorem Between.readAll_joined [Text.CharacterNames] {patterns branches : List String}
    {parts : List Part}
    (hlaid : Laid k patterns parts branches) (hne : patterns ≠ []) (hk : 0 < k) (h : r.Between k)
    (hbare : ∀ pattern ∈ patterns, InertComments pattern ∧ PlainConditions pattern ∧
      (excused ∨ Unmoded pattern ∧ Unnamed pattern))
    (hroom : excused ∨ k + combinedGroups (parts.map Part.alone) ≤ 100)
    (hs : s.pieces = cut (joined branches)) :
    (∃ rf, r.readAll s = .ok rf ∧ rf.Outside (k + combinedGroups (parts.map Part.alone)) ∧
        (∀ part ∈ parts, part.alone.modes = initialModes) ∧
          (rf.frame.terms :: rf.frame.branches).reverse =
            r.frame.branches.reverse ++ parts.map fun part => [part.term]) ∨
      excused ∧ ∃ fault, r.readAll s = .error fault := by
  induction hlaid generalizing r s with
  | nil => exact absurd rfl hne
  | @cons k pattern branch alone patterns branches parts halone hbranch hrest ih =>
      obtain ⟨⟨hcomment, hplain, hmodes⟩, hothers⟩ := List.forall_mem_cons.mp hbare
      have hgroups : k + combinedGroups ((⟨k, alone⟩ :: parts).map Part.alone) =
          k + 1 + alone.groups + combinedGroups (parts.map Part.alone) := by
        rw [List.map_cons, combinedGroups_cons]
        dsimp only
        omega
      rw [hgroups] at hroom ⊢
      have hparse := parse_of_compile halone
      have hpieces := renumberPieces_of_renumber hbranch
      have hfits : excused ∨ k + 1 + alone.groups ≤ 100 :=
        hroom.imp_right fun hroom => Nat.le_trans (Nat.le_add_right _ _) hroom
      cases hrest with
      | nil =>
          rw [joined_singleton] at hs
          have hgroup := h.readAll_group hk hparse hpieces hcomment hplain hmodes hfits hs
            (by simp [cut])
          rcases hgroup with ⟨r₁, u, hu, heq, hmodes₁, houtside, hframe⟩ | hno
          · refine .inl ⟨r₁, ?_, houtside, by simpa using hmodes₁, ?_⟩
            · rw [heq, readAll_of_nil (hu.trans (by rw [cut])) houtside.outer]
            · rw [hframe, List.reverse_cons, h.terms_push]
              rfl
          · exact .inr hno
      | cons halone' hbranch' hrest' =>
          rw [joined_cons_cons] at hs
          have hgroup := h.readAll_group hk hparse hpieces hcomment hplain hmodes hfits hs
            (by rw [cut_cons_of_ne (by decide)]; simp)
          rcases hgroup with ⟨r₁, u, hu, heq, hmodes₁, houtside, hframe⟩ | hno
          · obtain ⟨v, hbar, hv⟩ := houtside.step_bar hu (head_joined_cons _ _)
            rw [heq, hbar.readAll_eq]
            rcases ih (by simp) (by omega) houtside.nextBranch hothers hroom hv with
              ⟨rf, hread, hfinal, hmodes', hterms⟩ | hno
            · refine .inl ⟨rf, hread, hfinal, List.forall_mem_cons.mpr ⟨hmodes₁, hmodes'⟩, ?_⟩
              rw [hterms]
              change (r₁.frame.terms :: r₁.frame.branches).reverse ++ _ = _
              rw [hframe, h.terms_push, List.reverse_cons, List.append_assoc]
              rfl
            · exact .inr hno
          · exact .inr hno

end Reading

/-- Alternatives that are groups share nothing, so they stay alternatives. -/
theorem seq_alternation_groups {parts : List Part} (hne : parts ≠ []) :
    seq (alternation (parts.map fun part => [part.term])) = choice (parts.map Part.term) := by
  match parts with
  | [] => exact absurd rfl hne
  | [part] =>
      rw [List.map_singleton, alternation]
      rfl
  | part :: other :: parts =>
      have hshared : sharedHead? ((part :: other :: parts).map fun part => [part.term]) = none := by
        simp [sharedHead?, Part.term, isPlain]
      have hmembers : ((part :: other :: parts).map fun part => [part.term]).mapM setMembers? =
          none := by
        simp [List.mapM_cons, setMembers?, Part.term]
      rw [alternation_eq_branchTerm (by simp) hshared, branchTerm, hmembers, List.map_map]
      rfl

/-- The combined pattern is the choice between the groups. -/
theorem of_compile_joined [Text.CharacterNames] {patterns branches : List String}
    {parts : List Part} {p : Compiled}
    (hlaid : Laid 1 patterns parts branches) (hne : patterns ≠ [])
    (hbare : ∀ pattern ∈ patterns, Uncommented pattern ∧ PlainConditions pattern)
    (h : compile ("|".intercalate branches) = .ok p) :
    p.term = choice (parts.map Part.term) ∧ p.modes = Reading.initialModes ∧
      ∀ part ∈ parts, part.alone.modes = Reading.initialModes := by
  obtain ⟨-, rf, hread, -, rfl⟩ := Reading.parse_eq_ok (parse_of_compile h)
  have hbare' : ∀ pattern ∈ patterns, InertComments pattern ∧ PlainConditions pattern ∧
      (True ∨ Unmoded pattern ∧ Unnamed pattern) := fun pattern hpattern =>
    ⟨(hbare pattern hpattern).1.inertComments, (hbare pattern hpattern).2, .inl trivial⟩
  have hjoined := (Reading.between_start 1).readAll_joined hlaid hne Nat.one_pos hbare'
    (.inl trivial) (s := ⟨cut (joined branches), 0⟩) rfl
  rcases hjoined with ⟨rf', hread', houtside, hparts, hterms⟩ | ⟨-, fault, hfault⟩
  · obtain rfl := Except.ok.inj (hread.symm.trans hread')
    refine ⟨?_, houtside.modes, hparts⟩
    rw [Frame.allTerms, hterms]
    exact seq_alternation_groups (hlaid.ne_nil hne).1
  · exact absurd (hread.symm.trans hfault) (by simp)

/-! ### Matching -/

theorem ways_choice (text : Array Char) (m : Modes) (s : State) {terms : List Term}
    (hne : terms ≠ []) : (choice terms).ways text m s = terms.flatMap fun t => t.ways text m s := by
  induction terms with
  | nil => exact absurd rfl hne
  | cons t rest ih =>
      cases rest with
      | nil => simp [choice]
      | cons u rest =>
          have heither : choice (t :: u :: rest) = .either t (choice (u :: rest)) := rfl
          rw [heither, Term.ways, ih (by simp)]
          rfl

/-- What a match of a pattern alone is in the combination: it is inside the group of the pattern,
which is closed at its end. -/
def Part.close (part : Part) (start : Nat) (s : State) : State :=
  (s.inside part.number start).closeGroup part.number

@[simp] theorem Part.pos_close (part : Part) (start : Nat) (s : State) :
    (part.close start s).pos = s.pos := rfl

@[simp] theorem Part.lastGroup?_close (part : Part) (start : Nat) (s : State) :
    (part.close start s).lastGroup? = some part.number := rfl

theorem Part.ways_term (part : Part) (text : Array Char) (m : Modes) {start : Nat}
    (hstart : start ≤ text.size) :
    part.term.ways text m { pos := start } =
      (part.alone.term.ways text m { pos := start }).map (part.close start) := by
  have hsound : ({ pos := start } : State).Sound text := ⟨hstart, by simp⟩
  have hinside := ways_shift text part.number start part.alone.term m _ hsound
  change ((part.alone.term.shift part.number).ways text m
    (({ pos := start } : State).inside part.number start)).map _ = _
  rw [hinside, List.map_map]
  rfl

/-- A combination of patterns matches as they do, and prefers the matches of the first ones. -/
structure Combines (p : Compiled) (parts : List Part) : Prop where
  ways_eq : ∀ (text : Array Char) (start : Nat), start ≤ text.size →
    p.ways text start = parts.flatMap fun part =>
      (part.alone.ways text start).map (part.close start)

theorem combines_of_term {p : Compiled} {parts : List Part} (hne : parts ≠ [])
    (hterm : p.term = choice (parts.map Part.term)) (hmodes : p.modes = Reading.initialModes)
    (hparts : ∀ part ∈ parts, part.alone.modes = Reading.initialModes) : Combines p parts := by
  refine ⟨fun text start hstart => ?_⟩
  rw [Compiled.ways, hterm, hmodes, ways_choice _ _ _ (by simpa using hne), List.flatMap_map]
  apply List.flatMap_congr
  intro part hpart
  rw [part.ways_term text _ hstart, Compiled.ways, hparts part hpart]

/-- The pattern that stands for no pattern at all. -/
theorem compile_never [Text.CharacterNames] : compile "(?!)" = .ok {
    term := .ahead true .empty
    modes := Reading.initialModes
    groups := 0 } := by
  rw [compile_eq_of_nameless _ noNames (by decide)]
  exact eq_ok_of_toOption (by decide +kernel)

theorem combines_never [Text.CharacterNames] {p : Compiled} (h : compile "(?!)" = .ok p) : Combines
    p [] := by
  rw [compile_never] at h
  cases h
  exact ⟨fun text start hstart => rfl⟩

namespace Combines

variable {p : Compiled} {parts : List Part} {text : Array Char}

theorem matchAt?_eq (h : Combines p parts) {start : Nat} (hstart : start ≤ text.size) :
    p.matchAt? text start = parts.findSome? fun part =>
      (part.alone.matchAt? text start).map (part.close start) := by
  rw [Compiled.matchAt?_eq, h.ways_eq text start hstart, List.find?_flatMap]
  simp only [List.find?_map, Compiled.matchAt?_eq]
  rfl

/-- What the combination finds is what one of the patterns finds, and none of the patterns finds
anything further to the left, or anything there that has been declared before. -/
theorem of_finds (h : Combines p parts) {start : Nat} {s : State} (hs : p.Finds text start s) :
    ∃ before part after t, parts = before ++ part :: after ∧ part.alone.Finds text start t ∧
      s = part.close start t ∧
        (∀ other ∈ before, other.alone.matchAt? text start = none) ∧
          ∀ other ∈ parts, ∀ place < start, other.alone.matchAt? text place = none := by
  have hmatch := hs.matchAt?_eq
  rw [h.matchAt?_eq hs.start_le, List.findSome?_eq_some_iff] at hmatch
  obtain ⟨before, part, after, heq, hpart, hbefore⟩ := hmatch
  obtain ⟨t, ht, rfl⟩ := Option.map_eq_some_iff.mp hpart
  have hnone : ∀ other ∈ parts, ∀ place < start, other.alone.matchAt? text place = none := by
    intro other hother place hlt
    have hplace := hs.before place hlt
    have hstart := hs.start_le
    rw [h.matchAt?_eq (by omega), List.findSome?_eq_none_iff] at hplace
    exact Option.map_eq_none_iff.mp (hplace other hother)
  refine ⟨before, part, after, t, heq, ⟨hs.start_le, ht, ?_⟩, rfl, ?_, hnone⟩
  · exact hnone part (by rw [heq]; simp)
  · exact fun other hother => Option.map_eq_none_iff.mp (hbefore other hother)

/-- The combination finds something where one of the patterns does. -/
theorem search?_isSome_iff (h : Combines p parts) :
    (p.search? text).isSome = true ↔ ∃ part ∈ parts, ∃ start s, part.alone.Finds text start s := by
  rw [Compiled.search?_isSome_iff]
  constructor
  · rintro ⟨start, s, hs⟩
    obtain ⟨before, part, after, t, rfl, ht, -⟩ := h.of_finds hs
    exact ⟨part, by simp, start, t, ht⟩
  · rintro ⟨part, hpart, start, t, ht⟩
    -- the leftmost place where the combination matches
    have hsome : ∃ place, place ≤ text.size ∧ (p.matchAt? text place).isSome = true := by
      refine ⟨start, ht.start_le, ?_⟩
      rw [h.matchAt?_eq ht.start_le, List.findSome?_isSome_iff]
      exact ⟨part, hpart, by rw [ht.matchAt?_eq]; rfl⟩
    classical
    obtain ⟨hle, hplace⟩ := Nat.find_spec hsome
    obtain ⟨s, hs⟩ := Option.isSome_iff_exists.mp hplace
    refine ⟨Nat.find hsome, s, hle, hs, fun place hlt => ?_⟩
    have hnot := Nat.find_min hsome hlt
    rw [not_and, Option.not_isSome_iff_eq_none] at hnot
    exact hnot (by omega)

end Combines

end Lookahead.Pattern
