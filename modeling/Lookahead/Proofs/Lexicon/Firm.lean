import Lookahead.Proofs.Lexicon.Boundaries
import Lookahead.Proofs.Lexicon.Fronts

/-!
Texts that are cut in one way however they arrive. A match is firm when every beginning of the text
shows it: a beginning that the match does not fit into is one match up to its end, and in a longer
one the match is found as it is in all of the text (`Firm`). So a chunk that ends in a firm match
makes the lexer read on, and a chunk that ends behind it changes nothing.

A text that is made of firm matches, one after another, therefore has the same pieces in any chunks
(`FirmlyCut.map_piece_scanChunks`). This is said of one text, and it can be checked from its
beginning to its end.
-/

namespace Lookahead.Lexicon

variable {l : Lexicon} {front : List Char → Option (Nat × String)}
variable {text buffer read more : List Char} {n : Nat} {kind : String} {input : Input}
variable {pieces : List (String × List Char)}

/-- The match at the beginning of a text shows in every beginning of the text. -/
structure Firm (front : List Char → Option (Nat × String)) (text : List Char) (n : Nat)
    (kind : String) : Prop where
  /-- A beginning that the match does not fit into is one match. -/
  short : ∀ start, start <+: text → start ≠ [] → start.length ≤ n →
    ∃ kind', front start = some (start.length, kind')
  /-- In a longer beginning the match is found. -/
  long : ∀ start, start <+: text → n < start.length → front start = some (n, kind)
  found : front text = some (n, kind)

/-- The text is made of firm matches that leave the given pieces. -/
inductive FirmlyCut (front : List Char → Option (Nat × String)) :
    List Char → List (String × List Char) → Prop
  | nil : FirmlyCut front [] []
  | cons {text : List Char} {n : Nat} {kind : String} {pieces : List (String × List Char)}
      (hfirm : Firm front text n kind) (hrest : FirmlyCut front (text.drop n) pieces) :
      FirmlyCut front text ((kind, text.take n) :: pieces)

/-- A stretch of a text is firm if its beginnings are matches, and if it is found wherever nothing
that it ends before comes next. -/
theorem Firm.of_stretch {run after : List Char} (ends : Char → Prop)
    (hshort : ∀ start, start <+: run → start ≠ [] →
      ∃ kind', front start = some (start.length, kind'))
    (hlong : ∀ more, (∀ d ∈ more.head?, ends d) → front (run ++ more) = some (run.length, kind))
    (hafter : ∀ d ∈ after.head?, ends d) : Firm front (run ++ after) run.length kind where
  short start hstart hne hle :=
    hshort start (List.prefix_of_prefix_length_le hstart (List.prefix_append run after) hle) hne
  long start hstart hlt := by
    obtain ⟨more, rfl⟩ :=
      List.prefix_of_prefix_length_le (List.prefix_append run after) hstart hlt.le
    obtain ⟨tail, rfl⟩ : more <+: after := by simpa using hstart
    refine hlong more fun d hd => hafter d ?_
    rw [List.head?_append, Option.mem_def.mp hd]
    rfl
  found := hlong after hafter

theorem FirmlyCut.append {run after : List Char} (hfirm : Firm front (run ++ after) run.length kind)
    (hrest : FirmlyCut front after pieces) :
    FirmlyCut front (run ++ after) ((kind, run) :: pieces) := by
  have hcut := FirmlyCut.cons hfirm (by rwa [List.drop_left])
  rwa [List.take_left] at hcut

/-! ### Buffers of such a text -/

theorem Fronts.exists_front_of_find? (h : l.Fronts front) (hfront : front text = some (n, kind))
    {start stop : Nat} {kind' : String} (hfind : l.find? text = some (start, stop, kind')) :
    start = 0 ∧ stop = n ∧ kind' = kind := by
  rw [h.find?_of_front hfront] at hfind
  cases hfind
  exact ⟨rfl, rfl, rfl⟩

theorem FirmlyCut.not_hasty (h : l.Fronts front) (hcut : FirmlyCut front (read ++ more) pieces) :
    ¬ l.Hasty read more := by
  rintro ⟨start, stop, kind', hfind, hlt, hother⟩
  have hread : read ≠ [] := by
    rintro rfl
    rw [find?_nil] at hfind
    contradiction
  generalize htext : read ++ more = text at hcut hother
  have hprefix : read <+: text := ⟨more, htext⟩
  cases hcut with
  | nil => exact hread (List.prefix_nil.mp hprefix)
  | @cons _ n kind pieces hfirm hrest =>
      rcases Nat.lt_or_ge n read.length with hlong | hshort
      · obtain ⟨rfl, rfl, rfl⟩ := h.exists_front_of_find? (hfirm.long read hprefix hlong) hfind
        exact hother (h.find?_of_front hfirm.found)
      · obtain ⟨kind'', hfront⟩ := hfirm.short read hprefix hread hshort
        obtain ⟨-, rfl, -⟩ := h.exists_front_of_find? hfront hfind
        omega

/-- Every buffer that is met begins where a match of the text ends. -/
theorem FirmlyCut.of_meets (h : l.Fronts front) (hmeets : l.Meets buffer input read more)
    (hcut : FirmlyCut front (buffer ++ input.rest) pieces) :
    ∃ pieces', FirmlyCut front (read ++ more) pieces' := by
  induction hmeets generalizing pieces with
  | here buffer input =>
      rw [← (l.await_keeps buffer input).text] at hcut
      exact ⟨pieces, hcut⟩
  | @later buffer read more input m hfound _ ih =>
      have htext := (l.await_keeps buffer input).text
      have hnot : ¬ l.Hasty (l.await buffer input).buffer (l.await buffer input).input.rest := by
        rw [← htext] at hcut
        exact hcut.not_hasty h
      have hfind := find?_of_not_hasty hfound hnot
      generalize hwhole : buffer ++ input.rest = whole at hcut hfind
      cases hcut with
      | nil =>
          rw [find?_nil] at hfind
          contradiction
      | cons hfirm hrest =>
          obtain ⟨-, rfl, -⟩ := h.exists_front_of_find? hfirm.found hfind
          rw [← hwhole, ← htext, List.drop_append_of_le_length m.stop_le_length] at hrest
          exact ih hrest

/-! ### Pieces of such a text -/

theorem FirmlyCut.pieces_eq (h : l.Fronts front) (hcut : FirmlyCut front text pieces) :
    l.pieces text = pieces := by
  induction hcut with
  | nil =>
      rw [pieces_of_none l.find?_nil]
      rfl
  | cons hfirm _ ih => rw [h.pieces_of_front hfirm.found, ih]

/-- A text that is made of firm matches has the same pieces in any chunks. -/
theorem FirmlyCut.map_piece_scanChunks (h : l.Fronts front)
    (hunmatched : l.catalog.unmatched ∉ l.kinds.map Prod.snd)
    (hepsilon : l.catalog.epsilon ≠ l.catalog.unmatched) {chunks : List (List Char)}
    (hcut : FirmlyCut front (chunks.takeWhile (· ≠ [])).flatten pieces) :
    (l.scanChunks chunks).tokens.map Token.piece = pieces ++ [(l.catalog.epsilon, [])] := by
  have hrest : (Input.chunks chunks).rest = (chunks.takeWhile (· ≠ [])).flatten := rfl
  rw [← hcut.pieces_eq h, ← hrest]
  refine (map_piece_scan_eq_iff hunmatched hepsilon {} [] (.chunks chunks)).mpr ?_
  intro read more hmeets
  obtain ⟨pieces', hcut'⟩ := FirmlyCut.of_meets h hmeets hcut
  exact hcut'.not_hasty h

end Lookahead.Lexicon
