import Lookahead.Proofs.Lexicon.Build
import Lookahead.Proofs.Pattern.Combined
import Lookahead.Text.AsciiName

/-!
The combined pattern of a lexicon, and the patterns that it is made of. Putting the patterns
together is a matter of speed: what is found is what one would find by looking for each pattern
alone, in the usual way, and taking the stretch that starts leftmost, or that of the pattern
declared first where several do. The number of the group that was closed last tells which of the
patterns it was, since it is the number of the group around the pattern, and these are all
different.

Two things can be in a pattern that renumbering is wrong about, comments and conditions with numbers
that are not written in plain digits. Patterns without these are meant here.
-/

namespace Lookahead

open Pattern

/-- The first stretch of a text that a pattern matches, one match after another, and that is not
empty. -/
def Pattern.Compiled.firstStretch? (p : Compiled) (text : Array Char) : Option (Nat × Nat) :=
  (p.matchesIn text).find? fun m => m.1 < m.2

namespace Lexicon

variable {c : Catalog} {l : Lexicon} {a b : Assembly}

/-! ### Numbers and kinds -/

/-- The patterns are put into groups one after another, and each terminal is filed under the number
of the group. -/
theorem laid_of_foldlM [Text.CharacterNames] {patterns : List (String × String)}
    (h : patterns.foldlM (fun a (name, pattern) => Assembly.add a name pattern) a = .ok b) :
    ∃ parts branches, Laid a.nextGroup (patterns.map Prod.snd) parts branches ∧
      b.branches = a.branches ++ branches ∧
        b.kinds = a.kinds ++ (parts.map Part.number).zip (patterns.map Prod.fst) := by
  induction patterns generalizing a with
  | nil =>
      cases h
      exact ⟨[], [], .nil _, by simp, by simp⟩
  | cons entry rest ih =>
      rw [List.foldlM_cons] at h
      obtain ⟨middle, hadd, h⟩ := bind_eq_ok.mp h
      obtain ⟨alone, branch, halone, hbranch, rfl⟩ := Assembly.add_eq_ok hadd
      obtain ⟨parts, branches, hlaid, hbranches, hkinds⟩ := ih h
      refine ⟨⟨a.nextGroup, alone⟩ :: parts, _, .cons halone hbranch hlaid, ?_, ?_⟩
      · rw [hbranches, List.append_assoc]
        rfl
      · rw [hkinds, List.append_assoc]
        rfl

/-- All numbers are different, so the number of a group tells the kind. -/
theorem lookup_number [Text.CharacterNames] {k : Nat} {patterns : List (String × String)}
    {parts : List Part} {branches : List String} (h : Laid k (patterns.map Prod.snd) parts branches)
    {i : Nat} {part : Part} {entry : String × String} (hpart : parts[i]? = some part)
    (hentry : patterns[i]? = some entry) :
    ((parts.map Part.number).zip (patterns.map Prod.fst)).lookup part.number = some entry.1 := by
  induction patterns generalizing k parts branches i with
  | nil => simp at hentry
  | cons first rest ih =>
      cases h with
      | cons halone hbranch hrest =>
          cases i with
          | zero =>
              obtain rfl := Option.some.inj hpart
              obtain rfl := Option.some.inj hentry
              simp
          | succ i =>
              rw [List.getElem?_cons_succ] at hpart hentry
              have hle := hrest.le_number part (List.mem_of_getElem? hpart)
              have hne : (part.number == k) = false := beq_false_of_ne (by omega)
              rw [List.map_cons, List.map_cons, List.zip_cons_cons, List.lookup_cons, hne]
              exact ih hrest hpart hentry

/-! ### The combined pattern -/

theorem combines_of_build [Text.CharacterNames] {chunkSize : Int} (hl : build c chunkSize = .ok l)
    (hbare : ∀ entry ∈ c.patterns, Uncommented entry.2 ∧ PlainConditions entry.2) :
    ∃ parts branches, Laid 1 (c.patterns.map Prod.snd) parts branches ∧
      l.kinds = (parts.map Part.number).zip (c.patterns.map Prod.fst) ∧
        Combines l.pattern parts := by
  obtain ⟨-, assembly, hassemble, hcompile, hassembled⟩ := exists_assembly hl
  obtain ⟨parts, branches, hlaid, hbranches, hkinds⟩ := laid_of_foldlM hassemble
  refine ⟨parts, branches, hlaid, by rw [hassembled]; simpa using hkinds, ?_⟩
  rw [Assembly.text, hbranches, List.nil_append] at hcompile
  cases hpatterns : c.patterns with
  | nil =>
      rw [hpatterns] at hlaid
      cases hlaid
      exact combines_never hcompile
  | cons entry rest =>
      have hne : c.patterns.map Prod.snd ≠ [] := by simp [hpatterns]
      obtain ⟨hparts, hbranches'⟩ := hlaid.ne_nil hne
      rw [if_neg hbranches'] at hcompile
      have hbare' : ∀ pattern ∈ c.patterns.map Prod.snd,
          Uncommented pattern ∧ PlainConditions pattern := by
        intro pattern hpattern
        obtain ⟨entry, hentry, rfl⟩ := List.mem_map.mp hpattern
        exact hbare entry hentry
      obtain ⟨hterm, hmodes, halone⟩ := of_compile_joined hlaid hne hbare' hcompile
      exact combines_of_term hparts hterm hmodes halone

/-! ### Stretches of text -/

theorem firstStretch?_eq_some_iff {p : Compiled} {text : Array Char} {start stop : Nat} :
    p.firstStretch? text = some (start, stop) ↔ ∃ s, p.Finds text start s ∧ s.pos = stop :=
  Compiled.find?_matchesIn_eq_some_iff

theorem map_search?_eq (p : Compiled) (text : Array Char) :
    ((p.search? text).map fun found => (found.start, found.stop)) = p.firstStretch? text := by
  ext ⟨start, stop⟩
  rw [firstStretch?_eq_some_iff, Option.map_eq_some_iff]
  constructor
  · rintro ⟨found, hfound, heq⟩
    obtain ⟨s, hs, hstop, -⟩ := Compiled.search?_eq_some_iff.mp hfound
    cases heq
    exact ⟨s, hs, hstop.symm⟩
  · rintro ⟨s, hs, rfl⟩
    obtain ⟨hlt, hle⟩ := Compiled.of_matchAt? hs.start_le hs.matchAt?_eq
    exact ⟨⟨start, s.pos, s.lastGroup?, hlt, hle⟩,
      Compiled.search?_eq_some_iff.mpr ⟨s, hs, rfl, rfl⟩, rfl⟩

theorem exists_mem_matchesIn_iff {p : Compiled} {text : Array Char} :
    (∃ m ∈ p.matchesIn text, m.1 < m.2) ↔ ∃ start s, p.Finds text start s := by
  have hfirst : (∃ m ∈ p.matchesIn text, m.1 < m.2) ↔ (p.firstStretch? text).isSome = true := by
    rw [Compiled.firstStretch?, List.find?_isSome]
    simp
  rw [hfirst, Option.isSome_iff_exists]
  constructor
  · rintro ⟨⟨start, stop⟩, h⟩
    obtain ⟨s, hs, -⟩ := firstStretch?_eq_some_iff.mp h
    exact ⟨start, s, hs⟩
  · rintro ⟨start, s, hs⟩
    exact ⟨(start, s.pos), firstStretch?_eq_some_iff.mpr ⟨s, hs, rfl⟩⟩

/-- Of several patterns, one finds its first stretch of the text leftmost, or there before the
others. -/
structure Leads (alone : List Compiled) (text : Array Char) (i start stop : Nat) : Prop where
  first : ∃ p, alone[i]? = some p ∧ p.firstStretch? text = some (start, stop)
  leftmost : ∀ (j : Nat) (q : Compiled) (start' stop' : Nat), alone[j]? = some q →
    q.firstStretch? text = some (start', stop') → start < start' ∨ start = start' ∧ i ≤ j

/-- What a combination finds is what the leading pattern finds. -/
theorem leads_of_finds {p : Compiled} {parts : List Part} {text : Array Char} {start : Nat}
    {s : State} (h : Combines p parts) (hs : p.Finds text start s) :
    ∃ i part, parts[i]? = some part ∧ s.lastGroup? = some part.number ∧
      Leads (parts.map Part.alone) text i start s.pos := by
  obtain ⟨before, part, after, t, rfl, ht, rfl, hbefore, hnone⟩ := h.of_finds hs
  have hpart : (before ++ part :: after)[before.length]? = some part := by simp
  refine ⟨before.length, part, hpart, part.lastGroup?_close start t, ⟨part.alone, ?_, ?_⟩, ?_⟩
  · rw [List.getElem?_map, hpart]
    rfl
  · rw [Part.pos_close]
    exact firstStretch?_eq_some_iff.mpr ⟨t, ht, rfl⟩
  · intro j q start' stop' hq hfirst
    obtain ⟨u, hu, -⟩ := firstStretch?_eq_some_iff.mp hfirst
    rw [List.getElem?_map, Option.map_eq_some_iff] at hq
    obtain ⟨other, hother, rfl⟩ := hq
    rcases Nat.lt_trichotomy start start' with hlt | rfl | hlt
    · exact .inl hlt
    · refine .inr ⟨rfl, ?_⟩
      by_contra hlt
      rw [List.getElem?_append_left (by omega)] at hother
      have hnot := hbefore other (List.mem_of_getElem? hother)
      rw [hu.matchAt?_eq] at hnot
      contradiction
    · have hnot := hnone other (List.mem_of_getElem? hother) start' hlt
      rw [hu.matchAt?_eq] at hnot
      contradiction

/-- **The combined pattern finds what the patterns find alone.** The search is for the first match
of the combined pattern that is not empty. There is one where at least one of the patterns, compiled
on its own, has a match that is not empty; it is the stretch of the pattern whose first such match
starts leftmost, and of those the pattern that is declared first; and the group that was closed last
is filed under the terminal of that pattern. -/
theorem search?_combination [Text.CharacterNames] {chunkSize : Int} (hl : build c chunkSize = .ok l)
    (hbare : ∀ entry ∈ c.patterns, Uncommented entry.2 ∧ PlainConditions entry.2) :
    ∃ alone : List Compiled, (c.patterns.map fun entry => compile entry.2) = alone.map .ok ∧
      ∀ buffer : List Char,
        ((l.pattern.search? buffer.toArray).map fun found => (found.start, found.stop)) =
          l.pattern.firstStretch? buffer.toArray ∧
        ((l.pattern.search? buffer.toArray).isSome = true ↔
          ∃ p ∈ alone, ∃ m ∈ p.matchesIn buffer.toArray, m.1 < m.2) ∧
        ∀ found, l.pattern.search? buffer.toArray = some found →
          ∃ i entry, Leads alone buffer.toArray i found.start found.stop ∧
            c.patterns[i]? = some entry ∧
              (found.group.bind fun group => l.kinds.lookup group) = some entry.1 := by
  obtain ⟨parts, branches, hlaid, hkinds, hcombines⟩ := combines_of_build hl hbare
  have hcompile := hlaid.map_compile_eq
  rw [List.map_map] at hcompile
  refine ⟨parts.map Part.alone, hcompile, fun buffer => ⟨map_search?_eq _ _, ?_, ?_⟩⟩
  · rw [hcombines.search?_isSome_iff]
    simp only [exists_mem_matchesIn_iff, List.mem_map, exists_exists_and_eq_and]
  · intro found hfound
    obtain ⟨s, hs, hstop, hgroup⟩ := Compiled.search?_eq_some_iff.mp hfound
    obtain ⟨i, part, hpart, hnumber, hleads⟩ := leads_of_finds hcombines hs
    -- there are as many patterns as groups
    have hlength : c.patterns.length = parts.length := by
      have := congrArg List.length hcompile
      simpa using this
    have hi : i < c.patterns.length := by
      rw [hlength]
      exact (List.getElem?_eq_some_iff.mp hpart).1
    refine ⟨i, c.patterns[i], ?_, List.getElem?_eq_getElem hi, ?_⟩
    · rw [hstop]
      exact hleads
    · rw [hgroup, hnumber, hkinds]
      exact lookup_number hlaid hpart (List.getElem?_eq_getElem hi)

/-- Groups, a reference and a condition, a character by its name, and digits after a backslash that
are characters. -/
def groupCatalog : Catalog where
  terminals := [
    { name := "EOF", epsilon := true },
    { name := "JUNK", unmatched := true },
    { name := "PAIR", patterns := ["(a)(b)"] },
    { name := "DOUBLE", patterns := ["([a-z])\\1"] },
    { name := "TAG", patterns := ["(\\N{LESS-THAN SIGN})?x(?(1)>)", "(?P<mark>/)x(?(mark)/)"] },
    { name := "LETTER", patterns := ["[\\1]", "\\101"] }]
  nonterminals := []
  epsilon := "EOF"
  unmatched := "JUNK"

/-- A tag in a text that has other matches after it. -/
theorem search?_combination_tag :
    ∃ l alone i entry, build groupCatalog 16 = .ok l ∧
      (groupCatalog.patterns.map fun entry => compile entry.2) = alone.map .ok ∧
        Leads alone "-<x>aa".toList.toArray i 1 4 ∧ groupCatalog.patterns[i]? = some entry ∧
          entry.1 = "TAG" := by
  have hfound : ((build groupCatalog 16).toOption.bind fun l =>
      (l.pattern.search? "-<x>aa".toList.toArray).map fun found =>
        (found.start, found.stop, found.group.bind fun group => l.kinds.lookup group)) =
      some (1, 4, some "TAG") := by decide +kernel
  obtain ⟨l, hl, hfound⟩ := Option.bind_eq_some_iff.mp hfound
  have hbuild := eq_ok_of_toOption hl
  obtain ⟨found, hsearch, heq⟩ := Option.map_eq_some_iff.mp hfound
  simp only [Prod.mk.injEq] at heq
  obtain ⟨alone, halone, h⟩ := search?_combination hbuild (by decide +kernel)
  obtain ⟨i, entry, hleads, hentry, hkind⟩ := (h _).2.2 found hsearch
  rw [heq.1, heq.2.1] at hleads
  rw [heq.2.2] at hkind
  exact ⟨l, alone, i, entry, hbuild, halone, hleads, hentry, (Option.some.inj hkind).symm⟩

end Lexicon

end Lookahead
