import Lookahead.Lexicon.Basic
import Lookahead.Proofs.Catalog
import Lookahead.Proofs.Checks

/-!
What a lexicon remembers of its catalog. Building it is taken apart once, for one pattern
(`Assembly.add_eq_ok`) and for all of them (`exists_assembly`).

The combined pattern knows its groups by number, and the kinds are filed under the numbers of the
groups while the patterns are put together. So whatever pattern matches, the kind of the match is a
terminal that has a pattern, and neither of the two that have none.
-/

namespace Lookahead.Lexicon

variable {c : Catalog} {l : Lexicon} {a b : Assembly} {kind : String}

theorem mem_kinds_of_search? {buffer : List Char} {m : Match buffer}
    (h : l.search? buffer = some m) : m.kind ∈ l.kinds.map Prod.snd := by
  unfold search? at h
  split at h
  · contradiction
  · split at h
    · contradiction
    · rename_i found kind hkind
      cases h
      obtain ⟨group, -, hlookup⟩ := Option.bind_eq_some_iff.mp hkind
      obtain ⟨before, after, heq, -⟩ := List.lookup_eq_some_iff.mp hlookup
      rw [heq]
      simp

variable [Text.CharacterNames]

theorem compile_of_compilePattern {whose : Pattern.Fault → LexiconFault} {pattern : String}
    {compiled : Pattern.Compiled} (h : compilePattern whose pattern = .ok compiled) :
    Pattern.compile pattern = .ok compiled := by
  unfold compilePattern at h
  split at h
  · rename_i hcompile
    cases h
    exact hcompile
  · contradiction

theorem Assembly.add_eq_ok {name pattern : String} (h : a.add name pattern = .ok b) :
    ∃ alone branch, Pattern.compile pattern = .ok alone ∧
      Pattern.renumber pattern a.nextGroup = .ok branch ∧
      b = {
        branches := a.branches ++ ["(" ++ branch ++ ")"]
        kinds := a.kinds ++ [(a.nextGroup, name)]
        nextGroup := a.nextGroup + 1 + alone.groups } := by
  unfold Assembly.add at h
  obtain ⟨alone, halone, h⟩ := bind_eq_ok.mp h
  split at h
  · contradiction
  · obtain ⟨branch, hbranch, h⟩ := bind_eq_ok.mp h
    cases h
    exact ⟨alone, branch, compile_of_compilePattern halone, mapError_eq_ok.mp hbranch, rfl⟩

theorem Assembly.kinds_of_add {name pattern : String} (h : a.add name pattern = .ok b) :
    b.kinds = a.kinds ++ [(a.nextGroup, name)] := by
  obtain ⟨alone, branch, -, -, rfl⟩ := add_eq_ok h
  rfl

theorem kinds_of_foldlM {patterns : List (String × String)}
    (h : patterns.foldlM (fun a (name, pattern) => Assembly.add a name pattern) a = .ok b) :
    b.kinds.map Prod.snd = a.kinds.map Prod.snd ++ patterns.map Prod.fst := by
  induction patterns generalizing a with
  | nil =>
      cases h
      simp
  | cons entry rest ih =>
      rw [List.foldlM_cons] at h
      obtain ⟨middle, hadd, h⟩ := bind_eq_ok.mp h
      rw [ih h, Assembly.kinds_of_add hadd]
      simp

theorem exists_assembly {chunkSize : Int} (h : build c chunkSize = .ok l) :
    0 < chunkSize ∧ ∃ assembly, assemble c = .ok assembly ∧
      Pattern.compile assembly.text = .ok l.pattern ∧
        l = {
          catalog := c
          patternText := assembly.text
          pattern := l.pattern
          kinds := assembly.kinds
          chunkSize := chunkSize.toNat } := by
  unfold build at h
  split at h
  · contradiction
  · obtain ⟨assembly, hassemble, h⟩ := bind_eq_ok.mp h
    obtain ⟨pattern, hpattern, h⟩ := bind_eq_ok.mp h
    cases h
    exact ⟨by omega, assembly, hassemble, compile_of_compilePattern hpattern, rfl⟩

/-- Conversely, what is put together and compiles is a lexicon. -/
theorem build_eq_of_compile {chunkSize : Int} {compiled : Pattern.Compiled} (hchunk : 0 < chunkSize)
    (hassemble : assemble c = .ok a) (hcompile : Pattern.compile a.text = .ok compiled) :
    build c chunkSize = .ok {
      catalog := c
      patternText := a.text
      pattern := compiled
      kinds := a.kinds
      chunkSize := chunkSize.toNat } := by
  rw [build, if_neg (by omega)]
  refine bind_eq_ok.mpr ⟨a, hassemble, bind_eq_ok.mpr ⟨compiled, ?_, rfl⟩⟩
  rw [compilePattern, hcompile]

theorem build_eq_ok {chunkSize : Int} (h : build c chunkSize = .ok l) :
    l.catalog = c ∧ l.kinds.map Prod.snd = c.patterns.map Prod.fst := by
  obtain ⟨-, assembly, hassemble, -, heq⟩ := exists_assembly h
  rw [heq]
  exact ⟨rfl, by simpa using kinds_of_foldlM hassemble⟩

/-- What is filed is neither the end of the input nor unmatched. -/
theorem ne_of_mem_kinds {chunkSize : Int} (hc : c.WellFormed) (hl : build c chunkSize = .ok l)
    (h : kind ∈ l.kinds.map Prod.snd) : kind ≠ c.epsilon ∧ kind ≠ c.unmatched := by
  rw [(build_eq_ok hl).2] at h
  obtain ⟨⟨name, pattern⟩, hentry, rfl⟩ := List.mem_map.mp h
  exact hc.ne_of_mem_patterns hentry

end Lookahead.Lexicon
