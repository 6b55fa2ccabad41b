import Lookahead.Proofs.Lexicon.Stream
import Lookahead.Proofs.Pattern.Lengths
import Lookahead.Proofs.Pattern.Names

/-!
Chunks that do not show. How the input is cut into chunks says what the buffer is whenever the
lexicon looks for a match, so in general it shows in the tokens: more input could turn a match that
has been taken into another one. A lexicon is *stable* if that does not happen, and then there is
nothing in the tokens but the text.

The text itself is read like an input that has ended, with everything in the buffer
(`tokens_scan_eq`): a match that is settled in the buffer is the match of the whole text, and one
that is not settled is only taken when there is nothing more to read.
-/

namespace Lookahead.Lexicon

variable {c : Catalog} {l l' : Lexicon} {n n' : Int}

/-- A match that ends before the end of the buffer is found, as the same alternative, whatever is
added to the buffer. -/
def Stable (l : Lexicon) : Prop :=
  ∀ (buffer more : List Char) (found : Pattern.Found buffer.toArray),
    l.pattern.search? buffer.toArray = some found → found.stop < buffer.length →
      ∃ found', l.pattern.search? (buffer ++ more).toArray = some found' ∧
        found'.start = found.start ∧ found'.stop = found.stop ∧ found'.group = found.group

/-! ### One source -/

theorem Stable.search?_append (h : l.Stable) {buffer : List Char} (more : List Char)
    {m : Match buffer} (hm : l.search? buffer = some m) (hstop : m.stop < buffer.length) :
    ∃ m', l.search? (buffer ++ more) = some m' ∧ m'.start = m.start ∧ m'.stop = m.stop ∧
      m'.kind = m.kind := by
  unfold search? at hm
  split at hm
  · contradiction
  · rename_i found hfound
    split at hm
    · contradiction
    · rename_i kind hkind
      cases hm
      obtain ⟨found', hfound', hstart, hstop', hgroup⟩ := h buffer more found hfound hstop
      rw [← hgroup] at hkind
      refine ⟨⟨found'.start, found'.stop, kind, found'.start_lt_stop, by
        simpa using found'.stop_le_size⟩, ?_, hstart, hstop', rfl⟩
      unfold search?
      rw [hfound']
      dsimp only
      rw [hkind]

def Decided (w : Window) : Prop := isSettled w.found = true ∨ w.input = .ended

theorem decided_awaitChunks (l : Lexicon) (buffer : List Char) (reads : Nat)
    (cs : List (List Char)) : Decided (l.awaitChunks buffer reads cs) := by
  induction cs generalizing buffer reads with
  | nil =>
      unfold awaitChunks
      dsimp only
      split
      · rename_i hsettled
        exact .inl hsettled
      · exact .inr rfl
  | cons chunk rest ih =>
      unfold awaitChunks
      dsimp only
      split
      · rename_i hsettled
        exact .inl hsettled
      · split
        · exact .inr rfl
        · exact ih (buffer ++ chunk) (reads + 1)

theorem decided_await (l : Lexicon) (buffer : List Char) (input : Input) :
    Decided (l.await buffer input) := by
  cases input with
  | chunks cs => exact l.decided_awaitChunks buffer 0 cs
  | ended => exact .inr rfl

/-- What is decided in the buffer is decided for the whole text. -/
theorem Stable.search?_window (h : l.Stable) {buffer : List Char} {input : Input} {w : Window}
    (hw : l.await buffer input = w) {m : Match w.buffer} (hm : w.found = some m) :
    ∃ m', l.search? (w.buffer ++ w.input.rest) = some m' ∧ m'.start = m.start ∧ m'.stop = m.stop ∧
      m'.kind = m.kind := by
  subst hw
  have hsearch := hm
  rw [(l.await_keeps buffer input).found] at hsearch
  rcases l.decided_await buffer input with hsettled | hended
  · rw [hm] at hsettled
    have hne : m.stop ≠ (l.await buffer input).buffer.length := by simpa [isSettled] using hsettled
    exact h.search?_append _ hsearch (Nat.lt_of_le_of_ne m.stop_le_length hne)
  · rw [hended, Input.rest, Input.delivered, List.flatten_nil, List.append_nil]
    exact ⟨m, hsearch, rfl, rfl, rfl⟩

variable {cursor : Cursor} {text : List Char}

/-- A text that is all there is, without a match. -/
theorem tokens_scan_ended_of_none (h : l.search? text = none) :
    (l.scan cursor text .ended).tokens =
      l.unmatchedAt cursor text ++ [tokenAt (cursor.advance text) l.catalog.epsilon []] := by
  rw [scan]
  simp only [await]
  rw [h]

/-- A text that is all there is, with a match. -/
theorem tokens_scan_ended_of_some {m : Match text} (h : l.search? text = some m) :
    (l.scan cursor text .ended).tokens =
      l.unmatchedAt cursor (text.take m.start) ++
        tokenAt (cursor.advance (text.take m.start)) m.kind ((text.take m.stop).drop m.start) ::
          (l.scan ((cursor.advance (text.take m.start)).advance ((text.take m.stop).drop m.start))
            (text.drop m.stop) .ended).tokens := by
  rw [scan]
  simp only [await]
  rw [h]

/-- Reading an input is reading its text at once. -/
theorem tokens_scan_eq (h : l.Stable) (cursor : Cursor) (buffer : List Char) (input : Input) :
    (l.scan cursor buffer input).tokens =
      (l.scan cursor (buffer ++ input.rest) .ended).tokens := by
  fun_induction scan l cursor buffer input with
  | case1 cursor buffer input w hfound last =>
      have hkeeps : w.Keeps l buffer 0 input := l.await_keeps buffer input
      have hinput : w.input = .ended := hkeeps.ended hfound
      have hbuffer : w.buffer = buffer ++ input.rest := by
        simpa [hinput, Input.rest, Input.delivered] using hkeeps.text
      have hnone : l.search? (buffer ++ input.rest) = none := by
        rw [← hbuffer, ← hkeeps.found, hfound]
      rw [tokens_scan_ended_of_none hnone, ← hbuffer]
  | case2 cursor buffer input w m hfound skipped text atMatch rest ih =>
      have hkeeps : w.Keeps l buffer 0 input := l.await_keeps buffer input
      obtain ⟨m', hm', hstart, hstop, hkind⟩ := h.search?_window rfl hfound
      have hle := m.stop_le_length
      have hlt := m.start_lt_stop
      change l.search? (w.buffer ++ w.input.rest) = some m' at hm'
      rw [← hkeeps.text, tokens_scan_ended_of_some hm']
      have hskipped : (w.buffer ++ w.input.rest).take m'.start = skipped := by
        rw [hstart]
        exact List.take_append_of_le_length (by omega)
      have htext : ((w.buffer ++ w.input.rest).take m'.stop).drop m'.start = text := by
        rw [hstart, hstop, List.take_append_of_le_length hle]
      have hrest : (w.buffer ++ w.input.rest).drop m'.stop =
          w.buffer.drop m.stop ++ w.input.rest := by
        rw [hstop]
        exact List.drop_append_of_le_length hle
      rw [hskipped, htext, hrest, hkind, ← ih]

/-! ### Two sources -/

theorem eq_of_build [Text.CharacterNames] (hl : build c n = .ok l) (hl' : build c n' = .ok l') :
    l' = { l with chunkSize := l'.chunkSize } := by
  obtain ⟨-, assembly, hassemble, hcompile, heq⟩ := exists_assembly hl
  obtain ⟨-, assembly', hassemble', hcompile', heq'⟩ := exists_assembly hl'
  rw [hassemble] at hassemble'
  obtain rfl := Except.ok.inj hassemble'
  rw [hcompile] at hcompile'
  have hpattern := Except.ok.inj hcompile'
  rw [heq, heq', hpattern]

/-- A text that is all there is, cut into tokens without reading. -/
theorem tokens_scan_chunkSize (l : Lexicon) (size : Nat) (cursor : Cursor) (text : List Char) :
    (scan { l with chunkSize := size } cursor text .ended).tokens =
      (l.scan cursor text .ended).tokens := by
  generalize hinput : Input.ended = input
  fun_induction scan l cursor text input with
  | case1 cursor buffer input w hfound last =>
      subst hinput
      have hsearch : search? { l with chunkSize := size } buffer = none := hfound
      exact tokens_scan_ended_of_none hsearch
  | case2 cursor buffer input w m hfound skipped text atMatch rest ih =>
      subst hinput
      have hsearch : search? { l with chunkSize := size } buffer = some m := hfound
      rw [tokens_scan_ended_of_some hsearch, ← ih rfl]
      rfl

theorem Stable.of_build [Text.CharacterNames] (h : l.Stable) (hl : build c n = .ok l)
    (hl' : build c n' = .ok l') :
    l'.Stable := by
  rw [eq_of_build hl hl']
  exact h

/-- Two sources that deliver the same text have the same tokens, however large their chunks are. -/
theorem Stable.tokens_scanChunks_eq [Text.CharacterNames] (h : l.Stable) (hl : build c n = .ok l)
    (hl' : build c n' = .ok l') {chunks chunks' : List (List Char)}
    (htext : (chunks.takeWhile (· ≠ [])).flatten = (chunks'.takeWhile (· ≠ [])).flatten) :
    (l.scanChunks chunks).tokens = (l'.scanChunks chunks').tokens := by
  rw [scanChunks, scanChunks, tokens_scan_eq h, tokens_scan_eq (h.of_build hl hl'),
    eq_of_build hl hl']
  simp only [Input.rest, Input.delivered]
  rw [htext]
  exact (l.tokens_scan_chunkSize l'.chunkSize _ _).symm

theorem takeWhile_cutEvery (size : Nat) (text : List Char) :
    (cutEvery size text).takeWhile (· ≠ []) = cutEvery size text := by
  fun_induction cutEvery size text with
  | case1 text h => rfl
  | case2 text h ih =>
      have hne : text.take size ≠ [] := by
        rw [ne_eq, List.take_eq_nil_iff]
        exact h
      rw [List.takeWhile_cons_of_pos (by simpa using hne), ih]

theorem tokensOf_eq_ok {text : String} {tokens : List Token} (h : l.tokensOf text = .ok tokens) :
    tokens = (l.scanChunks (cutEvery l.chunkSize text.toList)).tokens := by
  unfold tokensOf chunksOf at h
  split at h
  · contradiction
  · cases h
    rfl

theorem chunkSize_pos [Text.CharacterNames] (hl : build c n = .ok l) : 0 < l.chunkSize := by
  obtain ⟨hpos, assembly, -, -, heq⟩ := exists_assembly hl
  rw [heq]
  dsimp only
  omega

theorem Stable.tokensOf_eq [Text.CharacterNames] (h : l.Stable) (hl : build c n = .ok l)
    (hl' : build c n' = .ok l')
    {text : String} {tokens tokens' : List Token} (htokens : l.tokensOf text = .ok tokens)
    (htokens' : l'.tokensOf text = .ok tokens') : tokens = tokens' := by
  rw [tokensOf_eq_ok htokens, tokensOf_eq_ok htokens']
  refine h.tokens_scanChunks_eq hl hl' ?_
  rw [takeWhile_cutEvery, takeWhile_cutEvery, flatten_cutEvery (chunkSize_pos hl),
    flatten_cutEvery (chunkSize_pos hl')]

/-! ### A lexicon that is stable -/

/-- Numbers, words, blanks, plus signs and line ends. -/
def simpleCatalog : Catalog where
  terminals := [
    { name := "EOF", epsilon := true },
    { name := "JUNK", unmatched := true },
    { name := "NUMBER", patterns := ["[0-9]+"] },
    { name := "WORD", patterns := ["[a-z]+"] },
    { name := "SPACE", patterns := ["[ \\t]+"] },
    { name := "PLUS", patterns := ["\\+"] },
    { name := "NEWLINE", patterns := ["\\r\\n|\\r|\\n"] }]
  nonterminals := []
  epsilon := "EOF"
  unmatched := "JUNK"

section

open Pattern Pattern.Term

def simplePattern : Compiled where
  term :=
    .either (.group 1 (.repeated .greedy 1 none (.set false [.range 0x30 0x39])))
      (.either (.group 2 (.repeated .greedy 1 none (.set false [.range 0x61 0x7A])))
        (.either (.group 3 (.repeated .greedy 1 none (.set false [.code 0x20, .code 0x09])))
          (.either (.group 4 (.literal false 0x2B))
            (.group 5
              (.either (.cat (.literal false 0x0D) (.literal false 0x0A))
                (.either (.literal false 0x0D) (.literal false 0x0A)))))))
  modes := { multiLine := true }
  groups := 5

def simpleText : String := "([0-9]+)|([a-z]+)|([ \\t]+)|(\\+)|(\\r\\n|\\r|\\n)"

def simpleLexicon (chunkSize : Nat) : Lexicon where
  catalog := simpleCatalog
  patternText := simpleText
  pattern := simplePattern
  kinds := [(1, "NUMBER"), (2, "WORD"), (3, "SPACE"), (4, "PLUS"), (5, "NEWLINE")]
  chunkSize

theorem build_simpleCatalog [Text.CharacterNames] (hn : 0 < n) :
    build simpleCatalog n = .ok (simpleLexicon n.toNat) := by
  have hassemble : assemble simpleCatalog = .ok {
      branches := ["([0-9]+)", "([a-z]+)", "([ \\t]+)", "(\\+)", "(\\r\\n|\\r|\\n)"]
      kinds := [(1, "NUMBER"), (2, "WORD"), (3, "SPACE"), (4, "PLUS"), (5, "NEWLINE")]
      nextGroup := 6 } := by
    rw [assemble_eq_of_nameless _ noNames (by decide +kernel)]
    exact eq_ok_of_toOption (by decide +kernel)
  have hcompile : Pattern.compile simpleText = .ok simplePattern := by
    rw [compile_eq_of_nameless _ noNames (by decide +kernel)]
    exact eq_ok_of_toOption (by decide +kernel)
  exact build_eq_of_compile hn hassemble hcompile

def simpleFirst (rest : List Char) : Option (Nat × Nat) :=
  let literalTest code := fun x => literalHolds simplePattern.modes code x != false
  let setTest members := fun x => setHolds simplePattern.modes members x != false
  let number := runFirst (setTest [.range 0x30 0x39]) rest
  let word := runFirst (setTest [.range 0x61 0x7A]) rest
  let space := runFirst (setTest [.code 0x20, .code 0x09]) rest
  let plus := oneFirst (literalTest 0x2B) rest
  let lineEnd := (twoFirst (literalTest 0x0D) (literalTest 0x0A) rest).or
    ((oneFirst (literalTest 0x0D) rest).or (oneFirst (literalTest 0x0A) rest))
  (number.map (·, 1)).or <| (word.map (·, 2)).or <| (space.map (·, 3)).or <|
    (plus.map (·, 4)).or <| lineEnd.map (·, 5)

theorem takesGroup_simplePattern :
    simplePattern.term.TakesGroup simplePattern.modes simpleFirst :=
  have hlineEnd := (takes_twoLiterals _ _ _ _ _).either ((takes_literal _ _ _).either
    (takes_literal _ _ _))
  ((takes_run _ _ _).group 1).either <|
    ((takes_run _ _ _).group 2).either <|
      ((takes_run _ _ _).group 3).either <|
        ((takes_literal _ _ _).group 4).either (hlineEnd.group 5)

theorem steady_simpleFirst : Steady Prod.fst simpleFirst :=
  ((steady_runFirst _).group 1).or <|
    ((steady_runFirst _).group 2).or <|
      ((steady_runFirst _).group 3).or <|
        ((steady_oneFirst _).group 4).or
          ((steady_twoFirst _ _ (steady_oneFirst _)).group 5)

end

theorem stable_simpleLexicon (chunkSize : Nat) : (simpleLexicon chunkSize).Stable :=
  fun _ more _ hfound hstop =>
    Pattern.Compiled.search?_append takesGroup_simplePattern steady_simpleFirst more hfound hstop

/-- **Chunks do not show in the tokens of a stable lexicon.** Two sources that deliver the same text
have the same tokens, whatever their chunks are and however many characters are asked for at a time;
and a text has the same tokens whatever the size of the chunks is in which it is read, as long as it
can be asked for that many characters. The lexicon of numbers, words, blanks, plus signs and line
ends is stable. -/
theorem tokens_eq_of_stable [Text.CharacterNames] :
    (∀ {c : Catalog} {n n' : Int} {l l' : Lexicon}, build c n = .ok l → build c n' = .ok l' →
      l.Stable →
        (∀ chunks chunks' : List (List Char),
          (chunks.takeWhile (· ≠ [])).flatten = (chunks'.takeWhile (· ≠ [])).flatten →
            (l.scanChunks chunks).tokens = (l'.scanChunks chunks').tokens) ∧
        (∀ (text : String) (tokens tokens' : List Token), l.tokensOf text = .ok tokens →
          l'.tokensOf text = .ok tokens' → tokens = tokens') ∧
        ∀ text : String, l.chunkSize < readLimit → ∃ tokens, l.tokensOf text = .ok tokens) ∧
    ∀ n : Int, 0 < n → ∃ l, build simpleCatalog n = .ok l ∧ l.Stable := by
  refine ⟨fun {c n n' l l'} hl hl' h => ⟨?_, ?_, ?_⟩, ?_⟩
  · intro chunks chunks' htext
    exact h.tokens_scanChunks_eq hl hl' htext
  · intro text tokens tokens' htokens htokens'
    exact h.tokensOf_eq hl hl' htokens htokens'
  · intro text hlt
    refine ⟨(l.scanChunks (cutEvery l.chunkSize text.toList)).tokens, ?_⟩
    rw [tokensOf, chunksOf, if_neg (by omega)]
    rfl
  · intro n hn
    exact ⟨_, build_simpleCatalog hn, stable_simpleLexicon _⟩

/-- A line end and a word that are cut in two, and not cut. -/
theorem tokens_eq_of_stable_cut :
    ((simpleLexicon 2).scanChunks ["ab\r".toList, "\nc".toList, "d".toList]).tokens =
      ((simpleLexicon 9).scanChunks ["ab\r\ncd".toList, [], "e".toList]).tokens := by
  have htwo : build simpleCatalog 2 = .ok (simpleLexicon 2) := build_simpleCatalog (by decide)
  have hnine : build simpleCatalog 9 = .ok (simpleLexicon 9) := build_simpleCatalog (by decide)
  obtain ⟨hsources, -⟩ := tokens_eq_of_stable.1 htwo hnine (stable_simpleLexicon 2)
  apply hsources
  decide

end Lookahead.Lexicon
