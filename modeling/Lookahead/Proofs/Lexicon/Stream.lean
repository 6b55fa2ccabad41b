import Lookahead.Lexicon.Stream
import Lookahead.Proofs.Lexicon.Build
import Mathlib.Data.List.Chain
import Lookahead.Text.AsciiName

/-!
Nothing of the input is lost. A lexicon looks at a buffer that grows by chunks at its end and
shrinks by tokens at its front, and what it has is always the same text: what was cut off, what is
in the buffer, and what the input has yet to deliver. The input delivers chunks up to the first
empty one (`Input.rest`), and is asked once more than it has chunks to give (`Input.asks`).

`await_keeps` is the law of reading, and `exists_pieces_scan` the law of cutting: the tokens are
laid out, from the cursor on, over pieces of a text that is the buffer and the rest of the input.
What a token's position and its text have to do with each other is then a matter of `layOut` alone.
-/

namespace Lookahead

theorem Match.append_eq {buffer : List Char} (m : Match buffer) :
    buffer.take m.start ++ ((buffer.take m.stop).drop m.start ++ buffer.drop m.stop) = buffer := by
  have hstart : buffer.take m.start = (buffer.take m.stop).take m.start := by
    rw [List.take_take, Nat.min_eq_left m.start_lt_stop.le]
  rw [hstart, ← List.append_assoc, List.take_append_drop, List.take_append_drop]

theorem Match.text_ne_nil {buffer : List Char} (m : Match buffer) :
    (buffer.take m.stop).drop m.start ≠ [] := by
  have hlt := m.start_lt_stop
  have hle := m.stop_le_length
  rw [ne_eq, ← List.length_eq_zero_iff, List.length_drop, List.length_take]
  omega

namespace Lexicon

/-! ### Laying out -/

def textOf (pieces : List (String × List Char)) : List Char := pieces.flatMap Prod.snd

@[simp] theorem textOf_nil : textOf [] = [] := rfl

@[simp] theorem textOf_cons (piece : String × List Char) (pieces : List (String × List Char)) :
    textOf (piece :: pieces) = piece.2 ++ textOf pieces := rfl

@[simp] theorem textOf_append (first second : List (String × List Char)) :
    textOf (first ++ second) = textOf first ++ textOf second := List.flatMap_append

/-- Tokens over pieces of a text, one after the other, each with its kind. -/
def layOut (cursor : Cursor) : List (String × List Char) → List Token
  | [] => []
  | (kind, text) :: pieces => tokenAt cursor kind text :: layOut (cursor.advance text) pieces

variable {cursor : Cursor} {pieces : List (String × List Char)}

@[simp] theorem layOut_nil (cursor : Cursor) : layOut cursor [] = [] := rfl

@[simp] theorem layOut_cons (cursor : Cursor) (kind : String) (text : List Char)
    (pieces : List (String × List Char)) :
    layOut cursor ((kind, text) :: pieces) =
      tokenAt cursor kind text :: layOut (cursor.advance text) pieces := rfl

theorem layOut_append (cursor : Cursor) (first second : List (String × List Char)) :
    layOut cursor (first ++ second) =
      layOut cursor first ++ layOut (cursor.advance (textOf first)) second := by
  induction first generalizing cursor with
  | nil => rfl
  | cons piece rest ih =>
      obtain ⟨kind, text⟩ := piece
      simp [ih, Cursor.advance_append]

@[simp] theorem map_kind_layOut (cursor : Cursor) (pieces : List (String × List Char)) :
    (layOut cursor pieces).map (·.kind) = pieces.map Prod.fst := by
  induction pieces generalizing cursor with
  | nil => rfl
  | cons piece rest ih =>
      obtain ⟨kind, text⟩ := piece
      simp [ih, tokenAt]

theorem exists_piece_of_mem_layOut {token : Token} (h : token ∈ layOut cursor pieces) :
    ∃ piece ∈ pieces, token.kind = piece.1 ∧ token.text = String.ofList piece.2 := by
  induction pieces generalizing cursor with
  | nil => simp at h
  | cons piece rest ih =>
      obtain ⟨kind, text⟩ := piece
      rcases List.mem_cons.mp h with rfl | h
      · exact ⟨(kind, text), by simp, rfl, rfl⟩
      · obtain ⟨other, hother, heq⟩ := ih h
        exact ⟨other, List.mem_cons_of_mem _ hother, heq⟩

def textOfTokens (tokens : List Token) : List Char := tokens.flatMap (·.text.toList)

theorem textOfTokens_append (first second : List Token) :
    textOfTokens (first ++ second) = textOfTokens first ++ textOfTokens second :=
  List.flatMap_append

@[simp] theorem textOfTokens_layOut (cursor : Cursor) (pieces : List (String × List Char)) :
    textOfTokens (layOut cursor pieces) = textOf pieces := by
  induction pieces generalizing cursor with
  | nil => rfl
  | cons piece rest ih =>
      obtain ⟨kind, text⟩ := piece
      rw [layOut_cons, textOfTokens, List.flatMap_cons, ← textOfTokens, ih, textOf_cons]
      simp [tokenAt]

theorem token_of_layOut {before after : List Token} {token : Token}
    (h : layOut cursor pieces = before ++ token :: after) :
    token.start = (cursor.advance (textOfTokens before)).position ∧
      token.stop = (cursor.advance (textOfTokens (before ++ [token]))).position := by
  induction before generalizing cursor pieces with
  | nil =>
      cases pieces with
      | nil => simp at h
      | cons piece rest =>
          obtain ⟨kind, text⟩ := piece
          rw [layOut_cons, List.nil_append, List.cons.injEq] at h
          obtain ⟨rfl, -⟩ := h
          simp [tokenAt, textOfTokens]
  | cons other before ih =>
      cases pieces with
      | nil => simp at h
      | cons piece rest =>
          obtain ⟨kind, text⟩ := piece
          rw [layOut_cons, List.cons_append, List.cons.injEq] at h
          obtain ⟨rfl, h⟩ := h
          have hskip : ∀ tokens : List Token,
              textOfTokens (tokenAt cursor kind text :: tokens) = text ++ textOfTokens tokens := by
            simp [textOfTokens, tokenAt]
          rw [List.cons_append, hskip, hskip, Cursor.advance_append, Cursor.advance_append]
          exact ih h

theorem isChain_layOut (cursor : Cursor) (pieces : List (String × List Char)) :
    (layOut cursor pieces).IsChain fun first second => second.start = first.stop := by
  induction pieces generalizing cursor with
  | nil => exact .nil
  | cons piece rest ih =>
      obtain ⟨kind, text⟩ := piece
      rw [layOut_cons, List.isChain_cons]
      refine ⟨fun next hnext => ?_, ih _⟩
      cases rest with
      | nil => simp at hnext
      | cons piece' others =>
          obtain ⟨kind', text'⟩ := piece'
          obtain rfl := Option.mem_some_iff.mp hnext
          rfl

end Lexicon

/-! ### Reading -/

namespace Input

/-- What is still delivered: the chunks before the first empty one. -/
def delivered : Input → List (List Char)
  | chunks cs => cs.takeWhile (· ≠ [])
  | ended => []

def rest (input : Input) : List Char := input.delivered.flatten

/-- How often there is something to ask for: once for each chunk, and once to see the end. -/
def asks : Input → Nat
  | chunks cs => (cs.takeWhile (· ≠ [])).length + 1
  | ended => 0

end Input

/-- Reading moves text from the input to the buffer, and goes on to the end when nothing is found.
-/
structure Window.Keeps (l : Lexicon) (buffer : List Char) (reads : Nat) (input : Input)
    (w : Window) : Prop where
  text : w.buffer ++ w.input.rest = buffer ++ input.rest
  reads : w.reads + w.input.asks = reads + input.asks
  found : w.found = l.search? w.buffer
  ended : w.found = none → w.input = .ended

namespace Lexicon

theorem ne_none_of_isSettled {buffer : List Char} {found : Option (Match buffer)}
    (h : isSettled found = true) : found ≠ none := by
  rintro rfl
  simp [isSettled] at h

theorem awaitChunks_keeps (l : Lexicon) (buffer : List Char) (reads : Nat)
    (cs : List (List Char)) :
    (l.awaitChunks buffer reads cs).Keeps l buffer reads (.chunks cs) := by
  induction cs generalizing buffer reads with
  | nil =>
      unfold awaitChunks
      dsimp only
      split
      · rename_i hsettled
        exact ⟨rfl, rfl, rfl, fun hnone => absurd hnone (ne_none_of_isSettled hsettled)⟩
      · exact ⟨rfl, rfl, rfl, fun _ => rfl⟩
  | cons chunk rest ih =>
      unfold awaitChunks
      dsimp only
      split
      · rename_i hsettled
        exact ⟨rfl, rfl, rfl, fun hnone => absurd hnone (ne_none_of_isSettled hsettled)⟩
      · split
        · rename_i hchunk
          refine ⟨?_, ?_, rfl, fun _ => rfl⟩
          · simp [Input.rest, Input.delivered, hchunk]
          · simp [Input.asks, hchunk]
        · rename_i hchunk
          obtain ⟨htext, hreads, hfound, hended⟩ := ih (buffer ++ chunk) (reads + 1)
          refine ⟨?_, ?_, hfound, hended⟩
          · rw [htext]
            simp [Input.rest, Input.delivered, hchunk]
          · rw [hreads]
            simp [Input.asks, hchunk]
            omega

theorem await_keeps (l : Lexicon) (buffer : List Char) (input : Input) :
    (l.await buffer input).Keeps l buffer 0 input := by
  cases input with
  | chunks cs => exact l.awaitChunks_keeps buffer 0 cs
  | ended => exact ⟨rfl, rfl, rfl, fun _ => rfl⟩

/-! ### Cutting -/

def unmatchedPiece (l : Lexicon) (text : List Char) : List (String × List Char) :=
  if text = [] then [] else [(l.catalog.unmatched, text)]

/-- A text is cut into pieces: up to a match, the match, and what is cut after it; and in the end
what is left without a match. -/
inductive Cut (l : Lexicon) : List Char → List (String × List Char) → Prop
  | last (text : List Char) : Cut l text (l.unmatchedPiece text)
  | matched (skipped : List Char) {kind : String} {text rest : List Char}
      {pieces : List (String × List Char)} (hkind : kind ∈ l.kinds.map Prod.snd)
      (htext : text ≠ []) (hrest : Cut l rest pieces) :
      Cut l (skipped ++ (text ++ rest)) (l.unmatchedPiece skipped ++ (kind, text) :: pieces)

variable {l : Lexicon}

@[simp] theorem textOf_unmatchedPiece (l : Lexicon) (text : List Char) :
    textOf (l.unmatchedPiece text) = text := by
  unfold unmatchedPiece
  split <;> simp_all

theorem unmatchedAt_eq_layOut (l : Lexicon) (cursor : Cursor) (text : List Char) :
    l.unmatchedAt cursor text = layOut cursor (l.unmatchedPiece text) := by
  unfold unmatchedAt unmatchedPiece
  split <;> rfl

theorem of_mem_unmatchedPiece {text : List Char} {piece : String × List Char}
    (h : piece ∈ l.unmatchedPiece text) : piece.1 = l.catalog.unmatched ∧ piece.2 ≠ [] := by
  unfold unmatchedPiece at h
  split at h
  · simp at h
  · rename_i htext
    rw [List.mem_singleton] at h
    exact h ▸ ⟨rfl, htext⟩

/-- The tokens of a buffer and what is still to be read, laid out over the text of both, and the
input is read to its end. -/
theorem exists_pieces_scan (l : Lexicon) (cursor : Cursor) (buffer : List Char) (input : Input) :
    ∃ pieces, l.Cut (buffer ++ input.rest) pieces ∧
      (l.scan cursor buffer input).tokens =
        layOut cursor (pieces ++ [(l.catalog.epsilon, [])]) ∧
      (l.scan cursor buffer input).reads = input.asks := by
  fun_induction scan l cursor buffer input with
  | case1 cursor buffer input w hfound last =>
      -- nothing is found, so the input is at its end and the buffer is all that is left
      have hkeeps : w.Keeps l buffer 0 input := l.await_keeps buffer input
      obtain ⟨htext, hreads, -, hended⟩ := hkeeps
      have hinput : w.input = .ended := hended hfound
      have hbuffer : w.buffer = buffer ++ input.rest := by
        simpa [hinput, Input.rest, Input.delivered] using htext
      refine ⟨l.unmatchedPiece w.buffer, ?_, ?_, ?_⟩
      · rw [← hbuffer]
        exact .last w.buffer
      · rw [layOut_append, textOf_unmatchedPiece, ← unmatchedAt_eq_layOut]
        rfl
      · simpa [hinput, Input.asks] using hreads
  | case2 cursor buffer input w m hfound skipped text atMatch rest ih =>
      have hkeeps : w.Keeps l buffer 0 input := l.await_keeps buffer input
      obtain ⟨htext, hreads, hsearch, -⟩ := hkeeps
      have hkind : m.kind ∈ l.kinds.map Prod.snd := mem_kinds_of_search? (hsearch ▸ hfound)
      obtain ⟨pieces, hcut, htokens, hrest⟩ := ih
      refine ⟨l.unmatchedPiece skipped ++ (m.kind, text) :: pieces, ?_, ?_, ?_⟩
      · have hbuffer : buffer ++ input.rest =
            skipped ++ (text ++ (w.buffer.drop m.stop ++ w.input.rest)) := by
          rw [← htext, ← List.append_assoc text, ← List.append_assoc skipped]
          exact congrArg (· ++ w.input.rest) m.append_eq.symm
        rw [hbuffer]
        exact .matched skipped hkind m.text_ne_nil hcut
      · rw [List.append_assoc, layOut_append, textOf_unmatchedPiece, ← unmatchedAt_eq_layOut,
          List.cons_append, layOut_cons, ← htokens]
      · change w.reads + (l.scan (atMatch.advance text) (w.buffer.drop m.stop) w.input).reads = _
        rw [hrest, hreads, Nat.zero_add]

namespace Cut

variable {text : List Char} {pieces : List (String × List Char)}

theorem textOf_eq (h : l.Cut text pieces) : textOf pieces = text := by
  induction h with
  | last text => exact textOf_unmatchedPiece l text
  | matched skipped _ _ _ ih => rw [textOf_append, textOf_unmatchedPiece, textOf_cons, ih]

/-- A piece has text, and a kind that is filed or stands for unmatched text. -/
theorem of_mem (h : l.Cut text pieces) {piece : String × List Char} (hmem : piece ∈ pieces) :
    (piece.1 = l.catalog.unmatched ∨ piece.1 ∈ l.kinds.map Prod.snd) ∧ piece.2 ≠ [] := by
  induction h with
  | last text =>
      obtain ⟨hkind, htext⟩ := of_mem_unmatchedPiece hmem
      exact ⟨.inl hkind, htext⟩
  | matched skipped hkind htext _ ih =>
      rcases List.mem_append.mp hmem with hmem | hmem
      · obtain ⟨hkind', htext'⟩ := of_mem_unmatchedPiece hmem
        exact ⟨.inl hkind', htext'⟩
      · rcases List.mem_cons.mp hmem with rfl | hmem
        · exact ⟨.inr hkind, htext⟩
        · exact ih hmem

/-- There is a match between any two unmatched pieces. -/
theorem isChain (h : l.Cut text pieces) (hunmatched : l.catalog.unmatched ∉ l.kinds.map Prod.snd) :
    (pieces.map Prod.fst).IsChain fun first second =>
      ¬ (first = l.catalog.unmatched ∧ second = l.catalog.unmatched) := by
  induction h with
  | last text =>
      unfold unmatchedPiece
      split <;> simp
  | @matched skipped kind text rest pieces hkind _ _ ih =>
      have hne : kind ≠ l.catalog.unmatched := by
        rintro rfl
        exact hunmatched hkind
      have hmatch : ((kind, text) :: pieces).map Prod.fst |>.IsChain fun first second =>
          ¬ (first = l.catalog.unmatched ∧ second = l.catalog.unmatched) := by
        rw [List.map_cons, List.isChain_cons]
        exact ⟨fun other _ h => hne h.1, ih⟩
      unfold unmatchedPiece
      split
      · exact hmatch
      · rw [List.singleton_append, List.map_cons, List.map_cons, List.isChain_cons_cons]
        exact ⟨fun h => hne h.2, hmatch⟩

theorem text_ne (h : l.Cut text pieces) (cursor : Cursor) :
    ∀ token ∈ layOut cursor pieces, token.text ≠ "" := by
  intro token htoken
  obtain ⟨piece, hpiece, -, heq⟩ := exists_piece_of_mem_layOut htoken
  rw [heq, ne_eq, String.ofList_eq_empty_iff]
  exact (h.of_mem hpiece).2

theorem kind_ne (h : l.Cut text pieces) {kind : String} (hunmatched : l.catalog.unmatched ≠ kind)
    (hkinds : kind ∉ l.kinds.map Prod.snd) (cursor : Cursor) :
    ∀ token ∈ layOut cursor pieces, token.kind ≠ kind := by
  intro token htoken
  obtain ⟨piece, hpiece, heq, -⟩ := exists_piece_of_mem_layOut htoken
  rw [heq]
  rcases (h.of_mem hpiece).1 with hkind | hkind
  · rwa [hkind]
  · exact fun h => hkinds (h ▸ hkind)

end Cut

/-! ### Whole sources -/

/-- A list of tokens with a last one covers what a source delivered. -/
structure Scanned.Covers (s : Scanned) (c : Catalog) (delivered : List (List Char))
    (body : List Token) (last : Token) : Prop where
  tokens_eq : s.tokens = body ++ [last]
  text_eq : textOfTokens s.tokens = delivered.flatten
  text_ne : ∀ token ∈ body, token.text ≠ ""
  kind_ne : ∀ token ∈ body, token.kind ≠ c.epsilon
  last_kind : last.kind = c.epsilon
  last_text : last.text = ""
  last_stop : last.stop = last.start
  /-- No two unmatched tokens stand next to each other. -/
  apart : (s.tokens.map (·.kind)).IsChain fun first second =>
    ¬ (first = c.unmatched ∧ second = c.unmatched)
  /-- There are no gaps. -/
  joined : s.tokens.IsChain fun first second => second.start = first.stop
  /-- Positions are those of the text from its beginning. -/
  placed : ∀ before token after, s.tokens = before ++ token :: after →
    token.start = (({} : Cursor).advance (textOfTokens before)).position ∧
      token.stop = (({} : Cursor).advance (textOfTokens (before ++ [token]))).position
  length_le : body.length ≤ delivered.flatten.length
  /-- The source is asked once for each chunk, and once for the end. -/
  reads_eq : s.reads = delivered.length + 1

theorem length_le_textOfTokens {tokens : List Token} (h : ∀ token ∈ tokens, token.text ≠ "") :
    tokens.length ≤ (textOfTokens tokens).length := by
  induction tokens with
  | nil => rfl
  | cons token rest ih =>
      obtain ⟨htoken, hrest⟩ := List.forall_mem_cons.mp h
      have hpos : 0 < token.text.toList.length := by
        rw [List.length_pos_iff, ne_eq, String.toList_eq_nil_iff]
        exact htoken
      have := ih hrest
      simp only [textOfTokens, List.flatMap_cons, List.length_append, List.length_cons] at this ⊢
      omega

/-- **Nothing of the input is lost.** Whatever the patterns are and however the input is cut into
chunks, the tokens cover what the source delivers before its first empty chunk, and the source is
not read again after that. -/
theorem covers_scanChunks [Text.CharacterNames] {terminals : List Terminal}
    {nonterminals : List String} {c : Catalog} {chunkSize : Int}
    (hc : Catalog.build terminals nonterminals = .ok c)
    (hl : build c chunkSize = .ok l) (chunks : List (List Char)) :
    ∃ body last, (l.scanChunks chunks).Covers c (chunks.takeWhile (· ≠ [])) body last := by
  have hwf := (Catalog.build_eq_ok_iff.mp hc).2.2
  obtain rfl := (build_eq_ok hl).1
  have hepsilon : l.catalog.epsilon ∉ l.kinds.map Prod.snd :=
    fun h => (ne_of_mem_kinds hwf hl h).1 rfl
  have hunmatched : l.catalog.unmatched ∉ l.kinds.map Prod.snd :=
    fun h => (ne_of_mem_kinds hwf hl h).2 rfl
  obtain ⟨pieces, hcut, htokens, hreads⟩ := l.exists_pieces_scan {} [] (.chunks chunks)
  change (l.scanChunks chunks).tokens = _ at htokens
  change (l.scanChunks chunks).reads = _ at hreads
  have hbody : (l.scanChunks chunks).tokens = layOut {} pieces ++
      [tokenAt (({} : Cursor).advance (textOf pieces)) l.catalog.epsilon []] := by
    rw [htokens, layOut_append]
    rfl
  have htext := hcut.text_ne {}
  have hkind := hcut.kind_ne hwf.epsilon_ne_unmatched.symm hepsilon {}
  refine ⟨layOut {} pieces, _, ⟨hbody, ?_, htext, hkind, rfl, rfl, rfl, ?_, ?_, ?_, ?_, hreads⟩⟩
  · rw [htokens, textOfTokens_layOut, textOf_append, hcut.textOf_eq]
    simp [Input.rest, Input.delivered]
  · rw [htokens, map_kind_layOut, List.map_append]
    refine List.isChain_append.mpr
      ⟨hcut.isChain hunmatched, .singleton _, fun first _ second hsecond => ?_⟩
    obtain rfl : l.catalog.epsilon = second := by simpa using hsecond
    exact fun h => hwf.epsilon_ne_unmatched h.2
  · rw [htokens]
    exact isChain_layOut _ _
  · intro before token after h
    exact token_of_layOut (htokens ▸ h)
  · have hle := length_le_textOfTokens htext
    rw [textOfTokens_layOut, hcut.textOf_eq] at hle
    simpa [Input.rest, Input.delivered] using hle

def wordTerminals : List Terminal := [
  { name := "END", epsilon := true },
  { name := "OTHER", unmatched := true },
  { name := "WORD", patterns := ["[a-z]+"] }]

def wordCatalog : Catalog where
  terminals := wordTerminals
  nonterminals := []
  epsilon := "END"
  unmatched := "OTHER"

/-- A word that is cut in two by the chunks, and a chunk after the end that is never read. -/
theorem covers_scanChunks_words :
    let chunks := ["ab".toList, "c  d".toList, [], "e".toList]
    Catalog.build wordTerminals [] = .ok wordCatalog ∧
    ∃ l, build wordCatalog 4 = .ok l ∧ ∃ body last,
      (l.scanChunks chunks).Covers wordCatalog ["ab".toList, "c  d".toList] body last := by
  intro chunks
  have hc : Catalog.build wordTerminals [] = .ok wordCatalog := rfl
  have hok : (build wordCatalog 4).isOk = true := by decide +kernel
  cases hl : build wordCatalog 4 with
  | error fault => simp [hl, Except.isOk, Except.toBool] at hok
  | ok l => exact ⟨hc, l, rfl, covers_scanChunks hc hl chunks⟩

end Lexicon

end Lookahead
