import Lookahead.Proofs.Lexicon.Chunking

/-!
A text that is read at once. When all of a text is in the buffer, it is cut where the first match
stops, again and again (`Lexicon.pieces`), and its tokens are these pieces one after another
(`tokens_scan_ended`). With any other source the same match may be looked for in several buffers, so
the pieces of the whole text are what the tokens of a source are compared with.
-/

namespace Lookahead

/-- What a token is apart from where it stands. -/
def Token.piece (t : Token) : String × List Char := (t.kind, t.text.toList)

namespace Lexicon

variable {l : Lexicon} {cursor : Cursor} {text : List Char}
variable {start stop : Nat} {kind : String}

@[simp] theorem map_piece_layOut (cursor : Cursor) (pieces : List (String × List Char)) :
    (layOut cursor pieces).map Token.piece = pieces := by
  induction pieces generalizing cursor with
  | nil => rfl
  | cons piece rest ih =>
      rw [layOut_cons, List.map_cons, ih]
      simp [Token.piece, tokenAt]

/-- Where the first match starts and stops, and its kind. -/
def find? (l : Lexicon) (text : List Char) : Option (Nat × Nat × String) :=
  (l.search? text).map fun m => (m.start, m.stop, m.kind)

theorem find?_eq_some_iff :
    l.find? text = some (start, stop, kind) ↔
      ∃ m, l.search? text = some m ∧ m.start = start ∧ m.stop = stop ∧ m.kind = kind := by
  simp [find?]

theorem bounds_of_find? (h : l.find? text = some (start, stop, kind)) :
    start < stop ∧ stop ≤ text.length := by
  obtain ⟨m, -, rfl, rfl, rfl⟩ := find?_eq_some_iff.mp h
  exact ⟨m.start_lt_stop, m.stop_le_length⟩

theorem mem_kinds_of_find? (h : l.find? text = some (start, stop, kind)) :
    kind ∈ l.kinds.map Prod.snd := by
  obtain ⟨m, hm, -, -, rfl⟩ := find?_eq_some_iff.mp h
  exact mem_kinds_of_search? hm

@[simp] theorem find?_nil (l : Lexicon) : l.find? [] = none := by
  rw [Option.eq_none_iff_forall_ne_some]
  rintro ⟨start, stop, kind⟩ h
  obtain ⟨hlt, hle⟩ := bounds_of_find? h
  rw [List.length_nil] at hle
  omega

def pieces (l : Lexicon) (text : List Char) : List (String × List Char) :=
  match _h : l.find? text with
  | none => l.unmatchedPiece text
  | some (start, stop, kind) =>
    l.unmatchedPiece (text.take start) ++
      (kind, (text.take stop).drop start) :: pieces l (text.drop stop)
termination_by text.length
decreasing_by
  obtain ⟨hlt, hle⟩ := bounds_of_find? _h
  rw [List.length_drop]
  omega

theorem pieces_of_none (h : l.find? text = none) : l.pieces text = l.unmatchedPiece text := by
  rw [pieces]
  split
  · rfl
  · simp_all

theorem pieces_of_some (h : l.find? text = some (start, stop, kind)) :
    l.pieces text = l.unmatchedPiece (text.take start) ++
      (kind, (text.take stop).drop start) :: l.pieces (text.drop stop) := by
  rw [pieces]
  split
  · simp_all
  · rename_i heq
    rw [h] at heq
    cases heq
    rfl

theorem cut_pieces (l : Lexicon) (text : List Char) : l.Cut text (l.pieces text) := by
  fun_induction pieces l text with
  | case1 text h => exact .last text
  | case2 text start stop kind h ih =>
      obtain ⟨m, -, rfl, rfl, rfl⟩ := find?_eq_some_iff.mp h
      have hcut := Cut.matched (text.take m.start) (mem_kinds_of_find? h) m.text_ne_nil ih
      rwa [m.append_eq] at hcut

theorem tokens_scan_ended (l : Lexicon) (cursor : Cursor) (text : List Char) :
    (l.scan cursor text .ended).tokens =
      layOut cursor (l.pieces text ++ [(l.catalog.epsilon, [])]) := by
  fun_induction pieces l text generalizing cursor with
  | case1 text h =>
      have hsearch : l.search? text = none := Option.map_eq_none_iff.mp h
      rw [tokens_scan_ended_of_none hsearch, layOut_append, textOf_unmatchedPiece,
        ← unmatchedAt_eq_layOut]
      rfl
  | case2 text start stop kind h ih =>
      obtain ⟨m, hm, rfl, rfl, rfl⟩ := find?_eq_some_iff.mp h
      rw [tokens_scan_ended_of_some hm, ih, List.append_assoc, layOut_append cursor,
        textOf_unmatchedPiece, ← unmatchedAt_eq_layOut]
      rfl

end Lexicon

end Lookahead
