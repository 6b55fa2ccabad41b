import Lookahead.Language
import Lookahead.Proofs.Expression.Grammar
import Lookahead.Proofs.Lexicon.Fronts
import Lookahead.Proofs.Pattern.Lengths

/-!
The lexicon of the built-in language, built. Its patterns are combined into a choice of thirteen
parts that look only at what follows (`parts`), so what is found at a place can be said by a
function (`front`), and which parts have to be considered for a character is computed from the
terms. In this way the delimiters of comments are found wherever they stand (`front_open`,
`front_close`), and few matches have a star in their inside (`opens_or_quotes_of_front`).
-/

namespace Lookahead.Expression

open Pattern Pattern.Term

/-! ### The parts of the pattern -/

def chars (cs : List Char) : Term := set false (cs.map fun c => .code c.toNat)

def range (first last : Char) : Member := .range first.toNat last.toNat

def many (t : Term) : Term := repeated .greedy 0 none t

def atLeastOne (t : Term) : Term := repeated .greedy 1 none t

def optional (t : Term) : Term := repeated .greedy 0 (some 1) t

def digits : Term := atLeastOne (set false [range '0' '9'])

/-- A fraction may stand alone, and an exponent may follow. -/
def number : Term :=
  let fraction := cat (word ['.']) digits
  cat (either (cat digits (optional fraction)) fraction)
    (optional (cat (chars ['E', 'e']) (cat (optional (chars ['+', '-'])) digits)))

def identifier : Term :=
  let letters := [range 'a' 'z', range 'A' 'Z', .code '_'.toNat]
  cat (set false letters) (many (set false (letters ++ [range '0' '9'])))

def stringLiteral : Term :=
  let plain := set false [.code ' '.toNat, .code '!'.toNat, range '#' '[', range ']' '~']
  let escaped := cat (word ['\\']) (chars ['"', '\'', 'n', 'f', 't', 'b', 'a', '\\'])
  let hex := set false [range '0' '9', range 'a' 'f', range 'A' 'F']
  let coded := cat (word ['\\']) (cat (word ['u']) (repeated .greedy 4 (some 4) hex))
  cat (word ['"']) (cat (many (either plain (either escaped coded))) (word ['"']))

def parts : List (Nat × Term) := [
  (1, atLeastOne (chars [' ', '\t', '\x0b', '\x0c'])),
  (2, either (word ['\r', '\n']) (either (word ['\r']) (word ['\n']))),
  (3, word ['/', '*', '*']),
  (4, word ['/', '*']),
  (5, word ['*', '/']),
  (6, word ['/', '/']),
  (7, chars ['+', '-']),
  (8, chars ['*', '/']),
  (9, word ['(']),
  (10, word [')']),
  (11, number),
  (12, identifier),
  (13, stringLiteral)]

def kinds : List (Nat × String) := [
  (1, "WHITESPACE"), (2, "NEWLINE"), (3, "DOC_COMMENT_OPEN"), (4, "COMMENT_OPEN"),
  (5, "COMMENT_CLOSE"), (6, "COMMENT"), (7, "PLUSMIN"), (8, "MULTDIV"), (9, "OPEN"), (10, "CLOSE"),
  (11, "NUMBER"), (12, "IDENTIFIER"), (13, "STRING_LITERAL")]

def modes : Modes := { multiLine := true }

def pattern : Compiled where
  term := choice (parts.map fun part => group part.1 part.2)
  modes
  groups := 13

def patternText : String :=
  "|".intercalate ((catalog.patterns.map Prod.snd).map fun pattern => "(" ++ pattern ++ ")")

def lexicon (chunkSize : Nat) : Lexicon := { catalog, patternText, pattern, kinds, chunkSize }

theorem build_lexicon [Text.CharacterNames] {n : Int} (hn : 0 < n) :
    Lexicon.build catalog n = .ok (lexicon n.toNat) := by
  have hassemble : Lexicon.assemble catalog = .ok {
      branches := (catalog.patterns.map Prod.snd).map fun pattern => "(" ++ pattern ++ ")"
      kinds, nextGroup := 14 } := by
    rw [Lexicon.assemble_eq_of_nameless _ noNames (by decide +kernel)]
    exact eq_ok_of_toOption (by decide +kernel)
  have hcompile : Pattern.compile patternText = .ok pattern := by
    rw [compile_eq_of_nameless _ noNames (by decide +kernel)]
    exact eq_ok_of_toOption (by decide +kernel)
  exact Lexicon.build_eq_of_compile hn hassemble hcompile

theorem eq_lexicon_of_build [Text.CharacterNames] {n : Int} {l : Lexicon}
    (hl : Lexicon.build catalog n = .ok l) :
    l = lexicon n.toNat := by
  by_cases hn : 0 < n
  · rw [build_lexicon hn] at hl
    exact (Except.ok.inj hl).symm
  · rw [Lexicon.build, if_pos (by omega)] at hl
    contradiction

theorem build_definition [Text.CharacterNames] {n : Int} (hn : 0 < n) :
    definition.build n = .ok { lexicon := lexicon n.toNat, grammar } := by
  have hcatalog : (Catalog.build terminals productions.names).mapError BuildFault.catalog =
      .ok catalog := mapError_eq_ok.mpr build_catalog
  have hlexicon : (Lexicon.build catalog n).mapError BuildFault.lexicon = .ok (lexicon n.toNat) :=
    mapError_eq_ok.mpr (build_lexicon hn)
  have hgrammar : (Grammar.build catalog productions).mapError BuildFault.grammar = .ok grammar :=
    mapError_eq_ok.mpr build_grammar
  refine bind_eq_ok.mpr ⟨_, hcatalog, bind_eq_ok.mpr ⟨_, hlexicon, ?_⟩⟩
  exact bind_eq_ok.mpr ⟨_, hgrammar, rfl⟩

theorem eq_of_build [Text.CharacterNames] {n : Int} {l : Language}
    (hl : definition.build n = .ok l) :
    l = { lexicon := lexicon n.toNat, grammar } := by
  by_cases hn : 0 < n
  · rw [build_definition hn] at hl
    exact (Except.ok.inj hl).symm
  · obtain ⟨c, hcatalog, hl⟩ := bind_eq_ok.mp hl
    obtain ⟨lexicon, hlexicon, -⟩ := bind_eq_ok.mp hl
    rw [mapError_eq_ok, Lexicon.build, if_pos (by omega)] at hlexicon
    contradiction

/-! ### What is found at a place -/

/-- The length and the kind of the match at the beginning of a text. -/
def front (rest : List Char) : Option (Nat × String) :=
  (firstOf modes parts rest).bind fun b => (kinds.lookup b.2).map (b.1, ·)

theorem direct_parts : ∀ part ∈ parts, part.2.Direct := by
  simp only [parts, List.forall_mem_cons, List.not_mem_nil, false_imp_iff, implies_true, and_true]
  repeat' constructor

theorem fronts_lexicon (chunkSize : Nat) : (lexicon chunkSize).Fronts front := by
  have hwidth : ∀ part ∈ parts, 0 < part.2.width.least := by decide
  have hkinds : ∀ part ∈ parts, (kinds.lookup part.1).isSome = true := by decide
  refine Lexicon.fronts_of_takesGroup (takesGroup_choice (by simp [parts]) direct_parts)
    (fun {rest b} h => ?_) (fun {rest b} h => ?_) fun {rest b} h => ?_
  all_goals obtain ⟨t, hmem, hn⟩ := exists_part_of_firstOf h
  · exact Nat.lt_of_lt_of_le (hwidth _ hmem) ((direct_parts _ hmem).atLeast modes rest b.1 hn)
  · exact (direct_parts _ hmem).le_length hn
  · exact Option.isSome_iff_exists.mp (hkinds _ hmem)

/-- Parts that a character does not occur in take nothing from a text that begins with it. -/
theorem firstOf_cons_of_not_allows {part : Nat × Term} {others : List (Nat × Term)} {c : Char}
    (h : part.2.Direct) (hpos : 0 < part.2.width.least)
    (hc : part.2.allows modes c.toNat = false) (rest : List Char) :
    firstOf modes (part :: others) (c :: rest) = firstOf modes others (c :: rest) := by
  rw [firstOf_cons, h.lengths_eq_nil hpos hc]
  rfl

theorem firstOf_cons_word (number : Nat) (w : List Char) (others : List (Nat × Term))
    (rest : List Char) : firstOf modes ((number, word w) :: others) rest =
      if w <+: rest then some (w.length, number) else firstOf modes others rest := by
  rw [firstOf_cons, lengths_word rfl]
  split <;> rfl

theorem front_close (rest : List Char) :
    front ('*' :: '/' :: rest) = some (2, "COMMENT_CLOSE") := by
  have hfirst : firstOf modes parts ('*' :: '/' :: rest) = some (2, 5) := by
    unfold parts
    rw [firstOf_cons_of_not_allows (direct_parts _ (by simp [parts])) (by decide) (by decide),
      firstOf_cons_of_not_allows (direct_parts _ (by simp [parts])) (by decide) (by decide),
      firstOf_cons_word, if_neg (by simp), firstOf_cons_word, if_neg (by simp),
      firstOf_cons_word, if_pos (by simp)]
    rfl
  rw [front, hfirst]
  rfl

theorem front_open (rest : List Char) :
    front ('/' :: '*' :: rest) = some (if ['*'] <+: rest then (3, "DOC_COMMENT_OPEN")
      else (2, "COMMENT_OPEN")) := by
  have hfirst : firstOf modes parts ('/' :: '*' :: rest) =
      some (if ['*'] <+: rest then (3, 3) else (2, 4)) := by
    unfold parts
    rw [firstOf_cons_of_not_allows (direct_parts _ (by simp [parts])) (by decide) (by decide),
      firstOf_cons_of_not_allows (direct_parts _ (by simp [parts])) (by decide) (by decide),
      firstOf_cons_word, firstOf_cons_word]
    simp only [List.cons_prefix_cons, List.nil_prefix, true_and, if_true]
    split <;> rfl
  rw [front, hfirst]
  split <;> rfl

/-- What is found, and the part that finds it. -/
theorem exists_part_of_front {rest : List Char} {n : Nat} {kind : String}
    (h : front rest = some (n, kind)) :
    ∃ number t, (number, t) ∈ parts ∧ kinds.lookup number = some kind ∧
      n ∈ t.lengths modes rest := by
  obtain ⟨⟨k, number⟩, hfirst, hkind⟩ := Option.bind_eq_some_iff.mp h
  obtain ⟨kind', hkind', heq⟩ := Option.map_eq_some_iff.mp hkind
  cases heq
  obtain ⟨t, hmem, hn⟩ := exists_part_of_firstOf hfirst
  exact ⟨number, t, hmem, hkind', hn⟩

/-- Only the delimiter itself is found to close a comment. -/
theorem take_of_front_close {rest : List Char} {n : Nat}
    (h : front rest = some (n, "COMMENT_CLOSE")) : rest.take n = ['*', '/'] := by
  obtain ⟨number, t, hmem, hkind, hn⟩ := exists_part_of_front h
  have hclose : ∀ part ∈ parts, kinds.lookup part.1 = some "COMMENT_CLOSE" →
      part.2 = word ['*', '/'] := by decide
  obtain rfl := hclose _ hmem hkind
  obtain ⟨hw, rfl⟩ := (mem_lengths_word_iff rfl).mp hn
  exact (List.prefix_iff_eq_take.mp hw).symm

/-- A match with a star in its inside opens a comment or begins with a quote. -/
theorem opens_or_quotes_of_front {rest : List Char} {n i : Nat} {kind : String}
    (h : front rest = some (n, kind)) (hpos : 0 < i) (hlt : i < n) (hstar : rest[i]? = some '*') :
    rest.take n = ['/', '*'] ∨ rest.take n = ['/', '*', '*'] ∨ rest.head? = some '"' := by
  obtain ⟨number, t, hmem, -, hn⟩ := exists_part_of_front h
  have hin : '*' ∈ rest.take n :=
    List.mem_of_getElem? (i := i) (by rwa [List.getElem?_take_of_lt hlt])
  have hallowed := (direct_parts _ hmem).within modes rest n hn '*' hin
  have hstars : ∀ part ∈ parts, part.2.allows modes '*'.toNat = true →
      part.2 = word ['/', '*', '*'] ∨ part.2 = word ['/', '*'] ∨ part.2 = word ['*', '/'] ∨
        part.2 = chars ['*', '/'] ∨ part.2 = stringLiteral := by decide
  rcases hstars _ hmem hallowed with rfl | rfl | rfl | rfl | rfl
  · obtain ⟨hw, rfl⟩ := (mem_lengths_word_iff rfl).mp hn
    exact .inr (.inl (List.prefix_iff_eq_take.mp hw).symm)
  · obtain ⟨hw, rfl⟩ := (mem_lengths_word_iff rfl).mp hn
    exact .inl (List.prefix_iff_eq_take.mp hw).symm
  · -- behind the star of the closing delimiter there is a slash
    obtain ⟨⟨rest, rfl⟩, rfl⟩ := (mem_lengths_word_iff rfl).mp hn
    obtain rfl : i = 1 := by simp at hlt; omega
    simp at hstar
  · obtain ⟨c, tail, -, -, rfl⟩ := Lengths.mem_one_iff.mp hn
    omega
  · obtain ⟨k, hk, -⟩ := Lengths.mem_andThen_iff.mp hn
    obtain ⟨⟨rest, rfl⟩, -⟩ := (mem_lengths_word_iff rfl).mp hk
    exact .inr (.inr rfl)

end Lookahead.Expression
