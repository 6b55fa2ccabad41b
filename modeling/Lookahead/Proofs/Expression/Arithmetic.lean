import Lookahead.Proofs.Expression.Spacing
import Lookahead.Proofs.Verdict

/-!
Arithmetic expressions. What is meant by one is said without any grammar or lexicon: numbers and
names, signs, the four operators and parentheses, written down as words from left to right. No
priority of operators is needed for that, since the words of an expression do not depend on it.

In these words no two numbers or names stand next to each other, and no two operators for products,
so they are found in any spacing. And the grammar yields them, whatever the structure was that they
were written from: it goes on with tails after each unary expression.
-/

namespace Lookahead.Expression

open Lexicon Grammar

/-! ### Expressions -/

inductive Arithmetic where
  | number (numeral : Numeral)
  | name (name : Name)
  | signed (sign : Sign) (e : Arithmetic)
  | sum (left : Arithmetic) (sign : Sign) (right : Arithmetic)
  | product (left : Arithmetic) (factor : Factor) (right : Arithmetic)
  | parenthesized (e : Arithmetic)
  deriving DecidableEq

namespace Arithmetic

def words : Arithmetic → List Word
  | number numeral => [.number numeral]
  | name x => [.name x]
  | signed s e => .sign s :: e.words
  | sum left s right => left.words ++ .sign s :: right.words
  | product left f right => left.words ++ .factor f :: right.words
  | parenthesized e => .opening :: (e.words ++ [.closing])

theorem words_ne_nil (e : Arithmetic) : e.words ≠ [] := by
  cases e <;> simp [words]

/-! ### Neighbours -/

def Begins (w : Word) : Prop := w.isFactor = false

def Ends (w : Word) : Prop := w.isAtom = true ∨ w = .closing

theorem begins_of_mem_head? (e : Arithmetic) : ∀ w ∈ e.words.head?, Begins w := by
  induction e with
  | number | name | signed | parenthesized =>
      rintro w hw
      obtain rfl := Option.some.inj hw
      rfl
  | sum left _ _ ih _ | product left _ _ ih _ =>
      intro w hw
      rw [words, List.head?_append_of_ne_nil _ left.words_ne_nil] at hw
      exact ih w hw

theorem ends_of_mem_getLast? (e : Arithmetic) : ∀ w ∈ e.words.getLast?, Ends w := by
  induction e with
  | number | name =>
      intro w hw
      obtain rfl := Option.some.inj hw
      exact .inl rfl
  | signed s e ih =>
      intro w hw
      rw [words, List.getLast?_cons_of_ne_nil e.words_ne_nil] at hw
      exact ih w hw
  | sum left s right _ ih | product left s right _ ih =>
      intro w hw
      rw [words, List.getLast?_append_of_ne_nil _ (List.cons_ne_nil _ _),
        List.getLast?_cons_of_ne_nil right.words_ne_nil] at hw
      exact ih w hw
  | parenthesized e _ =>
      intro w hw
      rw [words, ← List.cons_append, List.getLast?_concat] at hw
      obtain rfl := Option.some.inj hw
      exact .inr rfl

theorem precedes_of_begins {w other : Word} (hw : w.isAtom = false) (h : Begins other) :
    w.Precedes other := by
  unfold Begins at h
  exact ⟨fun hatoms => by simp [hw] at hatoms, fun hfactors => by simp [h] at hfactors⟩

theorem precedes_of_ends {w other : Word} (h : Ends w) (hother : other.isAtom = false) :
    w.Precedes other := by
  refine ⟨fun hatoms => by simp [hother] at hatoms, fun hfactors => ?_⟩
  rcases h with hatom | rfl
  · cases w <;> simp_all [Word.isAtom, Word.isFactor]
  · simp [Word.isFactor] at hfactors

theorem isChain_operation {left right : Arithmetic} {w : Word} (hw : w.isAtom = false)
    (hleft : left.words.IsChain Word.Precedes) (hright : right.words.IsChain Word.Precedes) :
    (left.words ++ w :: right.words).IsChain Word.Precedes := by
  refine List.isChain_append.mpr ⟨hleft, List.isChain_cons.mpr ⟨?_, hright⟩, ?_⟩
  · exact fun other hother => precedes_of_begins hw (right.begins_of_mem_head? other hother)
  · intro last hlast other hother
    obtain rfl := Option.some.inj hother
    exact precedes_of_ends (left.ends_of_mem_getLast? last hlast) hw

theorem isChain_words (e : Arithmetic) : e.words.IsChain Word.Precedes := by
  induction e with
  | number | name => exact .singleton _
  | signed s e ih =>
      refine List.isChain_cons.mpr ⟨fun other hother => ?_, ih⟩
      exact precedes_of_begins rfl (e.begins_of_mem_head? other hother)
  | sum left s right ih₁ ih₂ => exact isChain_operation rfl ih₁ ih₂
  | product left f right ih₁ ih₂ => exact isChain_operation rfl ih₁ ih₂
  | parenthesized e ih =>
      refine List.isChain_cons.mpr ⟨fun other hother => ?_, List.isChain_append.mpr
        ⟨ih, .singleton _, fun last hlast other hother => ?_⟩⟩
      · rw [List.head?_append_of_ne_nil _ e.words_ne_nil] at hother
        exact precedes_of_begins rfl (e.begins_of_mem_head? other hother)
      · obtain rfl := Option.some.inj hother
        exact precedes_of_ends (e.ends_of_mem_getLast? last hlast) rfl

/-! ### What the grammar yields -/

theorem yields_of_body {rest kinds : List String} (name : String) (body : Body)
    (hbody : (⟨name, catalog.leadOf body⟩, body) ∈ grammar.slots)
    (h : grammar.Yields (body ++ rest) kinds) : grammar.Yields (name :: rest) kinds :=
  .expand (wellFormed_grammar.alternative_iff.mpr ⟨_, hbody⟩) h

/-- A unary expression and the tails yield every expression before what the tails yield. -/
theorem yields_words (e : Arithmetic) {rest kinds : List String}
    (h : grammar.Yields ("MULT_EXPR_TAIL" :: "EXPR_TAIL" :: rest) kinds) :
    grammar.Yields ("UNARY_EXPR" :: "MULT_EXPR_TAIL" :: "EXPR_TAIL" :: rest)
      (e.words.map Word.kind ++ kinds) := by
  induction e generalizing rest kinds with
  | number numeral =>
      refine yields_of_body _ ["PRIMARY_EXPR"] (by decide) ?_
      exact yields_of_body _ ["NUMBER"] (by decide) (.terminal rfl h)
  | name x =>
      refine yields_of_body _ ["PRIMARY_EXPR"] (by decide) ?_
      exact yields_of_body _ ["IDENTIFIER"] (by decide) (.terminal rfl h)
  | signed s e ih =>
      exact yields_of_body _ ["PLUSMIN", "UNARY_EXPR"] (by decide) (.terminal rfl (ih h))
  | sum left s right ih₁ ih₂ =>
      rw [words, List.map_append, List.append_assoc]
      refine ih₁ (yields_of_body _ [] (by decide) ?_)
      refine yields_of_body _ ["PLUSMIN", "MULT_EXPR", "EXPR_TAIL"] (by decide) (.terminal rfl ?_)
      exact yields_of_body _ ["UNARY_EXPR", "MULT_EXPR_TAIL"] (by decide) (ih₂ h)
  | product left f right ih₁ ih₂ =>
      rw [words, List.map_append, List.append_assoc]
      refine ih₁ ?_
      exact yields_of_body _ ["MULTDIV", "UNARY_EXPR", "MULT_EXPR_TAIL"] (by decide)
        (.terminal rfl (ih₂ h))
  | parenthesized e ih =>
      have hclosing : grammar.Yields
          ("MULT_EXPR_TAIL" :: "EXPR_TAIL" :: "CLOSE" :: "MULT_EXPR_TAIL" :: "EXPR_TAIL" :: rest)
          ("CLOSE" :: kinds) :=
        yields_of_body _ [] (by decide) (yields_of_body _ [] (by decide) (.terminal rfl h))
      have hkinds : (parenthesized e).words.map Word.kind ++ kinds =
          "OPEN" :: (e.words.map Word.kind ++ "CLOSE" :: kinds) := by
        simp [words, Word.kind]
      rw [hkinds]
      refine yields_of_body _ ["PRIMARY_EXPR"] (by decide) ?_
      refine yields_of_body _ ["OPEN", "EXPR", "CLOSE"] (by decide) (.terminal rfl ?_)
      refine yields_of_body _ ["MULT_EXPR", "EXPR_TAIL"] (by decide) ?_
      exact yields_of_body _ ["UNARY_EXPR", "MULT_EXPR_TAIL"] (by decide) (ih hclosing)

/-- The root yields every expression. -/
theorem yields_root (e : Arithmetic) : grammar.Yields ["EXPR"] (e.words.map Word.kind) := by
  have htails : grammar.Yields ["MULT_EXPR_TAIL", "EXPR_TAIL"] [] :=
    yields_of_body _ [] (by decide) (yields_of_body _ [] (by decide) .nil)
  have hwords := e.yields_words htails
  rw [List.append_nil] at hwords
  refine yields_of_body _ ["MULT_EXPR", "EXPR_TAIL"] (by decide) ?_
  exact yields_of_body _ ["UNARY_EXPR", "MULT_EXPR_TAIL"] (by decide) hwords

end Arithmetic

/-! ### Parsing -/

variable {e : Arithmetic} {text : List Char} {chunks : List (List Char)} {n : Int}

/-- The comment filter hands on the words of a source that has them in any spacing. -/
theorem exists_words_of_spaced [Text.CharacterNames] (hn : 0 < n) (h : Spaced e.words text)
    (hchunks : (chunks.takeWhile (· ≠ [])).flatten = text) :
    ∃ body last, comments.run ((lexicon n.toNat).scanChunks chunks).tokens = body ++ [last] ∧
      body.map Token.piece = e.words.map Word.piece ∧ (∀ t ∈ body, t.kind ≠ "EPSILON") ∧
      last.kind = "EPSILON" ∧ last.text = "" := by
  have hunmatched : catalog.unmatched ∉ kinds.map Prod.snd := by decide
  have hepsilon : catalog.epsilon ≠ catalog.unmatched := by decide
  have hcatalog := (Catalog.build_eq_ok_iff.mp build_catalog).2.2
  obtain ⟨pieces, hcut, hblended⟩ := h.exists_firmlyCut e.isChain_words
  rw [← hchunks] at hcut
  have hpieces := hcut.map_piece_scanChunks (fronts_lexicon n.toNat) hunmatched hepsilon
  obtain ⟨body, last, htokens, hbody, hlast, htext, -⟩ :=
    exists_scanChunks_eq hcatalog (build_lexicon hn) chunks
  rw [htokens, List.map_append] at hpieces
  obtain ⟨rfl, -⟩ := List.append_inj' hpieces rfl
  refine ⟨stripped body, last, ?_, stripped_of_blended hblended e.isChain_words,
    kind_ne_of_mem_stripped hbody, hlast, htext⟩
  rw [htokens, (run_comments body last hbody hlast).1]

/-- A parser after a source with the words of an expression. -/
def Parses (p : Parser) (text : List Char) : Prop :=
  p.accepted = true ∧ p.fault = none ∧ ∃ tree, p.root? = some tree ∧
    tree.text = String.ofList (text.filter fun c => !gaps.contains c)

theorem parses_of_spaced [Text.CharacterNames] (hn : 0 < n) (h : Spaced e.words text)
    (hchunks : (chunks.takeWhile (· ≠ [])).flatten = text) :
    Parses (Language.feed { lexicon := lexicon n.toNat, grammar } comments chunks (.start "EXPR"))
      text := by
  obtain ⟨body, last, hrun, hwords, hbody, hlast, htext⟩ := exists_words_of_spaced hn h hchunks
  rw [Language.feed, hrun]
  have hkinds : body.map (·.kind) = e.words.map Word.kind := by
    have hmap := congrArg (List.map Prod.fst) hwords
    rwa [List.map_map, List.map_map] at hmap
  have haccepted : ((Parser.start "EXPR").acceptAll grammar (body ++ [last])).accepted = true :=
    Parser.accepted_of_yields wellFormed_grammar noHiddenLeftRecursion_grammar epsilonFree_grammar
      predictive_grammar rfl (anchored_root grammar "EXPR") hlast hbody
      (hkinds ▸ e.yields_root)
  obtain ⟨tree, -, hroot, hleaves⟩ := Parser.exists_tree_of_accepted wellFormed_grammar
    noHiddenLeftRecursion_grammar hbody haccepted
  have hdecided := Parser.decided_acceptAll_start wellFormed_grammar noHiddenLeftRecursion_grammar
    epsilonFree_grammar "EXPR" hbody hlast
  have hfault : ((Parser.start "EXPR").acceptAll grammar (body ++ [last])).fault = none := by
    rcases hdecided with ⟨⟨-, -, hfault⟩, -⟩ | ⟨⟨-, hnot⟩, -⟩
    · exact hfault
    · rw [hroot] at hnot
      contradiction
  have hbodytext : textOfTokens body = e.words.flatMap Word.text := by
    have hmap := congrArg (List.flatMap Prod.snd) hwords
    rwa [List.flatMap_map, List.flatMap_map] at hmap
  have htreetext : textOfTokens tree.leaves = e.words.flatMap Word.text := by
    rcases hleaves with hleaves | hleaves
    · rw [hleaves, hbodytext]
    · rw [hleaves, textOfTokens_append, hbodytext]
      simp [textOfTokens, htext]
  refine ⟨haccepted, hfault, tree, hroot, ?_⟩
  rw [← String.toList_inj, Node.toList_text, htreetext, String.toList_ofList, h.filter_eq]

/-- **Every expression parses.** Whatever an arithmetic expression is made of, and however much
white space there is before, between and after its words, the built-in language with its comment
filter accepts it without a fault, and the text of the tree is the expression without its white
space. That is so for every source that delivers the text, in chunks of any sizes, and for the text
itself with every chunk size that a text can be read with. -/
theorem parses_arithmetic [Text.CharacterNames] (n : Int) (hn : 0 < n) :
    ∃ l, definition.build n = .ok l ∧
      ∀ (e : Arithmetic) (text : String), Spaced e.words text.toList →
        (∀ chunks, (chunks.takeWhile (· ≠ [])).flatten = text.toList →
          ∃ p, l.parse "EXPR" comments chunks = .ok p ∧ Parses p text.toList) ∧
        (n < readLimit → ∃ p, l.parseText "EXPR" comments text = .ok p ∧ Parses p text.toList) := by
  have hroot : grammar.catalog.contains "EXPR" = true := by decide
  refine ⟨_, build_definition hn, fun e text h => ⟨fun chunks hchunks => ?_, fun hsize => ?_⟩⟩
  · exact ⟨_, Language.parse_eq_ok hroot comments chunks, parses_of_spaced hn h hchunks⟩
  · have hpos : 0 < n.toNat := by omega
    have hread : n.toNat < readLimit := by omega
    refine ⟨_, Language.parseText_eq_ok hroot comments hread text, ?_⟩
    refine parses_of_spaced hn h ?_
    rw [takeWhile_cutEvery]
    exact flatten_cutEvery hpos text.toList

/-- A product over two lines, of a negated sum and a number, in chunks that cut its line break in
two. -/
theorem parses_arithmetic_product :
    let side : Name := ⟨'a', ['1'], by decide, List.all_eq_true.mp (by decide)⟩
    let two : Numeral := ⟨['2'], by decide, List.all_eq_true.mp (by decide)⟩
    let thirty : Numeral := ⟨['3', '0'], by decide, List.all_eq_true.mp (by decide)⟩
    let sum := Arithmetic.sum (.name side) .plus (.number two)
    let e := Arithmetic.product (.signed .minus (.parenthesized sum)) .times (.number thirty)
    let text := "-( a1+2)*\r\n30"
    Spaced e.words text.toList ∧ ∃ l p q, definition.build 5 = .ok l ∧
      l.parse "EXPR" comments ["-( a1+2)*\r".toList, "\n30".toList] = .ok p ∧
      Parses p text.toList ∧ l.parseText "EXPR" comments text = .ok q ∧ Parses q text.toList := by
  intro side two thirty sum e text
  have htext : text.toList =
      ['-', '(', ' ', 'a', '1', '+', '2', ')', '*', '\r', '\n', '3', '0'] := by
    decide +kernel
  have hspaced : Spaced e.words text.toList := by
    rw [htext]
    exact .word (.sign .minus) <| .word .opening <| .gap (by decide) <| .word (.name side) <|
      .word (.sign .plus) <| .word (.number two) <| .word .closing <| .word (.factor .times) <|
      .gap (by decide) <| .gap (by decide) <| .word (.number thirty) .nil
  obtain ⟨l, hl, hparses⟩ := parses_arithmetic 5 (by decide)
  obtain ⟨hchunks, htext⟩ := hparses e text hspaced
  obtain ⟨p, hp, hp'⟩ := hchunks ["-( a1+2)*\r".toList, "\n30".toList] (by decide +kernel)
  obtain ⟨q, hq, hq'⟩ := htext (by decide)
  exact ⟨hspaced, l, p, q, hl, hp, hp', hq, hq'⟩

/-- A text that is a number is not read in chunks that are too large to be asked for. -/
theorem not_parses_of_readLimit :
    ¬ ∀ (n : Int) (l : Language), 0 < n → definition.build n = .ok l →
      ∀ (e : Arithmetic) (text : String), Spaced e.words text.toList →
        ∃ p, l.parseText "EXPR" comments text = .ok p ∧ Parses p text.toList := by
  intro h
  let one : Numeral := ⟨['1'], by decide, List.all_eq_true.mp (by decide)⟩
  have hspaced : Spaced (Arithmetic.number one).words "1".toList := .word _ .nil
  obtain ⟨p, hp, -⟩ := h readLimit _ (by decide) (build_definition (by decide)) _ _ hspaced
  have hread : Language.parseText { lexicon := lexicon readLimit, grammar } "EXPR" comments "1" =
      .error (.read ⟨readLimit⟩) := rfl
  rw [Int.toNat_natCast, hread] at hp
  contradiction

end Lookahead.Expression
