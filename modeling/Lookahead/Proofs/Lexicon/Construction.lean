import Lookahead.Proofs.Lexicon.Build
import Lookahead.Proofs.Pattern.Combinable
import Lookahead.Text.AsciiName

/-!
Catalogs that have a lexicon. Every pattern is compiled alone first, so one would expect that
nothing can go wrong when the patterns are put together, as long as their groups keep to the numbers
that can be written. This is so for patterns without names, without modes for the whole of them, and
without comments and conditions that renumbering is wrong about (`exists_build`). The lexicon then
has one group around each pattern, which comes after all groups of the patterns before it, and no
groups but these and the patterns' own.

Of comments it is not so: what looks like a reference in a comment is put in parentheses, and the
closing one ends the comment (`build_comment`).
-/

namespace Lookahead.Lexicon

open Pattern

variable {c : Catalog} {a : Assembly}

/-- What compiles alone, does not match the empty text and can be moved is added. -/
theorem Assembly.exists_add [Text.CharacterNames] (name : String) {pattern branch : String}
    {alone : Compiled} (halone : compile pattern = .ok alone) (hempty : alone.matchesEmpty = false)
    (hbranch : renumber pattern a.nextGroup = .ok branch) :
    ∃ b, a.add name pattern = .ok b ∧ b.branches = a.branches ++ ["(" ++ branch ++ ")"] ∧
      b.kinds = a.kinds ++ [(a.nextGroup, name)] ∧
        b.nextGroup = a.nextGroup + 1 + alone.groups := by
  have hadd : a.add name pattern = .ok {
      branches := a.branches ++ ["(" ++ branch ++ ")"]
      kinds := a.kinds ++ [(a.nextGroup, name)]
      nextGroup := a.nextGroup + 1 + alone.groups } := by
    refine bind_eq_ok.mpr ⟨alone, by rw [compilePattern, halone], ?_⟩
    rw [hempty, if_neg Bool.false_ne_true, hbranch]
    rfl
  exact ⟨_, hadd, rfl, rfl, rfl⟩

theorem combinedGroups_eq (alone : List Compiled) :
    combinedGroups alone = alone.length + (alone.map Compiled.groups).sum := by
  induction alone with
  | nil => rfl
  | cons p alone ih =>
      rw [combinedGroups_cons, ih, List.length_cons, List.map_cons, List.sum_cons]
      omega

/-- The number of the group around a pattern is the next one after those before. -/
theorem number_of_laid [Text.CharacterNames] {k : Nat} {patterns branches : List String}
    {parts : List Part}
    (h : Laid k patterns parts branches) {i : Nat} {part : Part} (hpart : parts[i]? = some part) :
    part.number = k + combinedGroups ((parts.map Part.alone).take i) := by
  induction h generalizing i with
  | nil => simp at hpart
  | @cons k pattern branch alone patterns branches parts halone hbranch hrest ih =>
      cases i with
      | zero =>
          obtain rfl := Option.some.inj hpart
          rfl
      | succ i =>
          rw [List.getElem?_cons_succ] at hpart
          rw [ih hpart, List.map_cons, List.take_succ_cons, combinedGroups_cons]
          dsimp only
          omega

theorem exists_foldlM_add [Text.CharacterNames] {patterns : List (String × String)}
    {parts : List Part} {branches : List String}
    (h : Laid a.nextGroup (patterns.map Prod.snd) parts branches)
    (hempty : ∀ part ∈ parts, part.alone.matchesEmpty = false) :
    ∃ b, patterns.foldlM (fun a (name, pattern) => Assembly.add a name pattern) a = .ok b ∧
      b.branches = a.branches ++ branches ∧
        b.kinds = a.kinds ++ (parts.map Part.number).zip (patterns.map Prod.fst) := by
  induction patterns generalizing a parts branches with
  | nil =>
      cases h
      exact ⟨a, rfl, by simp, by simp⟩
  | cons entry rest ih =>
      obtain ⟨name, pattern⟩ := entry
      cases h with
      | cons halone hbranch hrest =>
          obtain ⟨hfirst, hothers⟩ := List.forall_mem_cons.mp hempty
          obtain ⟨middle, hadd, hbranches, hkinds, hnext⟩ :=
            Assembly.exists_add name halone hfirst hbranch
          rw [← hnext] at hrest
          obtain ⟨b, hfold, hbranches', hkinds'⟩ := ih hrest hothers
          refine ⟨b, by rw [List.foldlM_cons]; exact bind_eq_ok.mpr ⟨_, hadd, hfold⟩, ?_, ?_⟩
          · rw [hbranches', hbranches, List.append_assoc]
            rfl
          · rw [hkinds', hkinds, List.append_assoc]
            rfl

/-- The text that is assembled compiles. Without any pattern it is one that never matches. -/
theorem exists_compile_text [Text.CharacterNames] {patterns branches : List String}
    {parts : List Part}
    (h : Laid 1 patterns parts branches)
    (hbare : ∀ pattern ∈ patterns, InertComments pattern ∧ PlainConditions pattern ∧
      Unmoded pattern ∧ Unnamed pattern)
    (hroom : combinedGroups (parts.map Part.alone) ≤ 99) (ha : a.branches = branches) :
    ∃ p, compile a.text = .ok p ∧ p.groups = combinedGroups (parts.map Part.alone) := by
  rw [Assembly.text, ha]
  by_cases hne : patterns = []
  · subst hne
    cases h
    exact ⟨_, compile_never, rfl⟩
  · rw [if_neg (h.ne_nil hne).2]
    exact ⟨_, compile_joined h hne hbare hroom, rfl⟩

/-- **Patterns that are valid alone combine.** Let every pattern of a catalog compile on its own and
not match the empty text, have no names, no modes for the whole of it, and neither comments nor
conditions that renumbering is wrong about. If there are at most 99 groups in the combination, the
lexicon is built. The groups of its pattern are one around each pattern and the patterns' own, and
the group around a pattern comes right after all groups of the patterns before it. -/
theorem exists_build [Text.CharacterNames] {chunkSize : Int} {alone : List Compiled}
    (hchunk : 0 < chunkSize)
    (halone : (c.patterns.map fun entry => compile entry.2) = alone.map .ok)
    (hempty : ∀ p ∈ alone, p.matchesEmpty = false)
    (hbare : ∀ entry ∈ c.patterns, Unmoded entry.2 ∧ Unnamed entry.2)
    (hplain : ∀ entry ∈ c.patterns, InertComments entry.2 ∧ PlainConditions entry.2)
    (hroom : c.patterns.length + (alone.map Compiled.groups).sum ≤ 99) :
    ∃ l, build c chunkSize = .ok l ∧
      l.pattern.groups = c.patterns.length + (alone.map Compiled.groups).sum ∧
      l.kinds.length = c.patterns.length ∧
      ∀ (i : Nat) (entry : String × String), c.patterns[i]? = some entry →
        l.kinds[i]? = some (1 + i + ((alone.take i).map Compiled.groups).sum, entry.1) := by
  have hlength : c.patterns.length = alone.length := by
    simpa using congrArg List.length halone
  have hgroups := combinedGroups_eq alone
  rw [← hlength] at hgroups
  rw [← hgroups] at hroom
  have hbare' : ∀ pattern ∈ c.patterns.map Prod.snd, InertComments pattern ∧
      PlainConditions pattern ∧ Unmoded pattern ∧ Unnamed pattern := by
    intro pattern hpattern
    obtain ⟨entry, hentry, rfl⟩ := List.mem_map.mp hpattern
    exact ⟨(hplain entry hentry).1, (hplain entry hentry).2, hbare entry hentry⟩
  obtain ⟨parts, branches, hlaid, rfl⟩ :=
    exists_laid Nat.one_pos (by rw [List.map_map]; exact halone) hbare' (by omega)
  rw [List.length_map] at hlength
  obtain ⟨b, hassemble, hbranches, hkinds⟩ := @exists_foldlM_add {} _ _ _ _ hlaid fun part hpart =>
    hempty _ (List.mem_map_of_mem hpart)
  obtain ⟨p, hcompile, hp⟩ := exists_compile_text hlaid hbare' hroom hbranches
  refine ⟨_, build_eq_of_compile hchunk hassemble hcompile, hp.trans hgroups, ?_,
    fun i entry hentry => ?_⟩
  · simp [hkinds, hlength]
  · obtain ⟨part, hpart⟩ : ∃ part, parts[i]? = some part := by
      have hi := (List.getElem?_eq_some_iff.mp hentry).1
      exact ⟨parts[i], List.getElem?_eq_getElem (hlength ▸ hi)⟩
    have hi := (List.getElem?_eq_some_iff.mp hpart).1
    have hnumber := number_of_laid hlaid hpart
    rw [combinedGroups_eq, List.length_take, List.length_map, Nat.min_eq_left (by omega),
      ← Nat.add_assoc] at hnumber
    dsimp only
    rw [hkinds, List.nil_append, List.getElem?_zip_eq_some, ← hnumber]
    simp [hpart, hentry]

/-- Groups, a reference and a condition, a character by its name, and a comment. -/
def referenceCatalog : Catalog where
  terminals := [
    { name := "EOF", epsilon := true },
    { name := "JUNK", unmatched := true },
    { name := "PAIR", patterns := ["(a)(b)(?#a (pair)"] },
    { name := "DOUBLE", patterns := ["([a-z])\\N{HYPHEN-MINUS}\\1"] },
    { name := "TAG", patterns := ["(<)?x(?(1)>)", "[(\\1]"] }]
  nonterminals := []
  epsilon := "EOF"
  unmatched := "JUNK"

/-- Four groups around the patterns, and four of their own. -/
theorem exists_build_references :
    ∃ l, build referenceCatalog 16 = .ok l ∧ l.pattern.groups = 8 ∧ l.kinds.length = 4 ∧
      l.kinds[2]? = some (6, "TAG") := by
  have hfacts : ((referenceCatalog.patterns.mapM fun entry => compile entry.2).toOption.map
      fun alone => (alone.map Compiled.matchesEmpty, alone.map Compiled.groups)) =
        some ([false, false, false, false], [2, 1, 1, 0]) := by decide +kernel
  obtain ⟨alone, halone, hfacts⟩ := Option.map_eq_some_iff.mp hfacts
  obtain ⟨hempty, hgroups⟩ := Prod.mk.inj hfacts
  have hempty' : ∀ p ∈ alone, p.matchesEmpty = false := by
    intro p hp
    have hmem : p.matchesEmpty ∈ alone.map Compiled.matchesEmpty := List.mem_map_of_mem hp
    rw [hempty] at hmem
    simpa using hmem
  obtain ⟨l, hl, hpattern, hlength, hkinds⟩ := @exists_build referenceCatalog _ 16 alone (by decide)
    (mapM_eq_ok.mp (eq_ok_of_toOption halone)) hempty' (by decide +kernel) (by decide +kernel)
    (by rw [hgroups]; decide +kernel)
  refine ⟨l, hl, by rw [hpattern, hgroups]; rfl, by rw [hlength]; rfl, ?_⟩
  rw [hkinds 2 ("TAG", "(<)?x(?(1)>)") rfl, List.map_take, hgroups]
  rfl

/-- What looks like a reference in a comment. -/
def commentCatalog : Catalog where
  terminals := [
    { name := "EOF", epsilon := true },
    { name := "JUNK", unmatched := true },
    { name := "A", patterns := ["a(?#\\1)"] }]
  nonterminals := []
  epsilon := "EOF"
  unmatched := "JUNK"

/-- The comment of the pattern ends too early once its number has been moved. The pattern compiles
alone and has neither names nor modes nor groups, and still there is no lexicon. -/
theorem build_comment :
    ∃ alone, (commentCatalog.patterns.map fun entry => compile entry.2) = [.ok alone] ∧
      alone.matchesEmpty = false ∧ alone.groups = 0 ∧
      (∀ entry ∈ commentCatalog.patterns, Unmoded entry.2 ∧ Unnamed entry.2) ∧
      build commentCatalog 16 =
        .error (.uncombined "(a(?#(?:\\2)))" (.malformed .unbalanced 12)) := by
  have halone : (commentCatalog.patterns.map fun entry => compile entry.2) =
      [.ok { term := .literal false 97, modes := Reading.initialModes, groups := 0 }] := by
    decide +kernel
  have hfault : (build commentCatalog 16).map Lexicon.patternText =
      .error (.uncombined "(a(?#(?:\\2)))" (.malformed .unbalanced 12)) := by
    decide +kernel
  refine ⟨_, halone, by decide +kernel, rfl, by decide +kernel, ?_⟩
  cases hbuild : build commentCatalog 16 with
  | ok l =>
      rw [hbuild] at hfault
      contradiction
  | error fault =>
      rw [hbuild] at hfault
      cases hfault
      rfl

end Lookahead.Lexicon
