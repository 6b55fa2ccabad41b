import Lookahead.Proofs.Lexicon.Pieces
import Lookahead.Text.AsciiName

/-!
When chunks show. A match that ends before the end of the buffer is taken at once, whatever is still
to be read. It is taken too early, in haste, if with the rest of the text another match had been
found (`Lexicon.Hasty`): of a longer alternative that comes first, for instance, the chunk may hold
only the beginning. How large the chunks are does not matter for that, only where they end; a chunk
that ends in a token may be longer than all tokens together.

The tokens of a source are those of its text precisely if no buffer that is met when it is read is
hasty (`map_piece_scan_eq_iff`). Which buffers are met depends on how often more had to be read.
What can be said without that is that they begin where a match of the text has ended and end where a
chunk does, so it is enough if none of those is hasty.
-/

namespace Lookahead.Lexicon

variable {l : Lexicon} {c : Catalog} {chunkSize : Int}
variable {buffer text more : List Char} {input : Input}

/-! ### Buffers -/

/-- A match is found before the end of the text, but with more text it is not the one to be found.
-/
def Hasty (l : Lexicon) (text more : List Char) : Prop :=
  ∃ start stop kind, l.find? text = some (start, stop, kind) ∧ stop < text.length ∧
    l.find? (text ++ more) ≠ some (start, stop, kind)

/-- The buffers in which a match is taken, or the end is seen, and what is still to come after them,
from a buffer and an input on. -/
inductive Meets (l : Lexicon) : List Char → Input → List Char → List Char → Prop
  | here (buffer : List Char) (input : Input) :
      Meets l buffer input (l.await buffer input).buffer (l.await buffer input).input.rest
  | later {buffer text more : List Char} {input : Input} {m : Match (l.await buffer input).buffer}
      (hfound : (l.await buffer input).found = some m)
      (h : Meets l ((l.await buffer input).buffer.drop m.stop) (l.await buffer input).input
        text more) : Meets l buffer input text more

theorem not_hasty_nil (l : Lexicon) (text : List Char) : ¬ l.Hasty text [] := by
  rintro ⟨start, stop, kind, hfound, -, hnot⟩
  rw [List.append_nil] at hnot
  exact hnot hfound

/-- Nothing is taken out of the buffer while it is decided what comes next. -/
theorem exists_read_awaitChunks (l : Lexicon) (buffer : List Char) (reads : Nat)
    (cs : List (List Char)) : ∃ read, (l.awaitChunks buffer reads cs).buffer = buffer ++ read := by
  induction cs generalizing buffer reads with
  | nil =>
      unfold awaitChunks
      dsimp only
      split <;> exact ⟨[], (List.append_nil _).symm⟩
  | cons chunk rest ih =>
      unfold awaitChunks
      dsimp only
      split
      · exact ⟨[], (List.append_nil _).symm⟩
      · split
        · exact ⟨[], (List.append_nil _).symm⟩
        · obtain ⟨read, hread⟩ := ih (buffer ++ chunk) (reads + 1)
          exact ⟨chunk ++ read, by rw [hread, List.append_assoc]⟩

theorem exists_read (l : Lexicon) (buffer : List Char) (input : Input) :
    ∃ read, (l.await buffer input).buffer = buffer ++ read ∧
      read ++ (l.await buffer input).input.rest = input.rest := by
  have hbuffer : ∃ read, (l.await buffer input).buffer = buffer ++ read := by
    cases input with
    | chunks cs => exact l.exists_read_awaitChunks buffer 0 cs
    | ended => exact ⟨[], (List.append_nil _).symm⟩
  obtain ⟨read, hread⟩ := hbuffer
  have htext := (l.await_keeps buffer input).text
  rw [hread, List.append_assoc, List.append_cancel_left_eq] at htext
  exact ⟨read, hread, htext⟩

/-- Where nothing is to come, nothing comes later. -/
theorem Meets.more_eq_nil (h : l.Meets buffer input text more) (hrest : input.rest = []) :
    more = [] := by
  induction h with
  | here buffer input =>
      obtain ⟨read, -, htext⟩ := l.exists_read buffer input
      rw [hrest, List.append_eq_nil_iff] at htext
      exact htext.2
  | later hfound _ ih =>
      obtain ⟨read, -, htext⟩ := l.exists_read _ _
      rw [hrest, List.append_eq_nil_iff] at htext
      exact ih htext.2

/-! ### The match of the whole text -/

/-- What is taken from a buffer that is not hasty is the match of the whole text. -/
theorem find?_of_not_hasty {m : Match (l.await buffer input).buffer}
    (hfound : (l.await buffer input).found = some m)
    (hnot : ¬ l.Hasty (l.await buffer input).buffer (l.await buffer input).input.rest) :
    l.find? (buffer ++ input.rest) = some (m.start, m.stop, m.kind) := by
  have hkeeps := l.await_keeps buffer input
  have hsearch : l.find? (l.await buffer input).buffer = some (m.start, m.stop, m.kind) :=
    find?_eq_some_iff.mpr ⟨m, hkeeps.found ▸ hfound, rfl, rfl, rfl⟩
  rw [← hkeeps.text]
  rcases l.decided_await buffer input with hsettled | hended
  · have hne : m.stop ≠ (l.await buffer input).buffer.length := by
      simpa [isSettled, hfound] using hsettled
    by_contra hother
    exact hnot ⟨_, _, _, hsearch, Nat.lt_of_le_of_ne m.stop_le_length hne, hother⟩
  · rwa [hended, Input.rest, Input.delivered, List.flatten_nil, List.append_nil]

/-- What is cut off first tells where the first match of a text is, since unmatched text has no
kind of its own among the patterns. -/
theorem eq_of_unmatchedPiece_append {start stop start' stop' : Nat} {kind kind' : String}
    {tail tail' : List (String × List Char)} (hkind : kind ≠ l.catalog.unmatched)
    (hkind' : kind' ≠ l.catalog.unmatched) (hlt : start ≤ stop) (hle : stop ≤ text.length)
    (hlt' : start' ≤ stop') (hle' : stop' ≤ text.length)
    (h : l.unmatchedPiece (text.take start) ++ (kind, (text.take stop).drop start) :: tail =
      l.unmatchedPiece (text.take start') ++ (kind', (text.take stop').drop start') :: tail') :
    (start, stop, kind) = (start', stop', kind') ∧ tail = tail' := by
  have hstart : start = start' := by
    unfold unmatchedPiece at h
    have htake {n : Nat} (hn : n ≤ text.length) : text.take n = [] ↔ n = 0 := by
      rw [← List.length_eq_zero_iff, List.length_take_of_le hn]
    split at h <;> split at h <;> rename_i hempty hempty'
    · rw [htake (by omega)] at hempty hempty'
      omega
    · simp [hkind] at h
    · simp [hkind'.symm] at h
    · have heq : text.take start = text.take start' := by simpa using (List.cons.inj h).1
      have hlength := congrArg List.length heq
      rwa [List.length_take_of_le (by omega), List.length_take_of_le (by omega)] at hlength
  subst hstart
  rw [List.append_cancel_left_eq, List.cons.injEq, Prod.mk.injEq] at h
  obtain ⟨⟨rfl, hmatch⟩, rfl⟩ := h
  have hlength := congrArg List.length hmatch
  simp only [List.length_drop, List.length_take_of_le hle, List.length_take_of_le hle'] at hlength
  obtain rfl : stop = stop' := by omega
  exact ⟨rfl, rfl⟩

theorem find?_of_pieces_eq (hunmatched : l.catalog.unmatched ∉ l.kinds.map Prod.snd)
    (hepsilon : l.catalog.epsilon ≠ l.catalog.unmatched) {start stop : Nat} {kind : String}
    {tail : List (String × List Char)} (hkind : kind ∈ l.kinds.map Prod.snd) (hlt : start < stop)
    (hle : stop ≤ text.length)
    (h : l.unmatchedPiece (text.take start) ++ (kind, (text.take stop).drop start) :: tail =
      l.pieces text ++ [(l.catalog.epsilon, [])]) :
    l.find? text = some (start, stop, kind) := by
  have hne {kind : String} (hkind : kind ∈ l.kinds.map Prod.snd) : kind ≠ l.catalog.unmatched := by
    rintro rfl
    exact hunmatched hkind
  cases hfind : l.find? text with
  | none =>
      -- the end stands like a match behind all of the text
      have hlast : l.pieces text ++ [(l.catalog.epsilon, [])] =
          l.unmatchedPiece (text.take text.length) ++
            (l.catalog.epsilon, (text.take text.length).drop text.length) :: [] := by
        rw [pieces_of_none hfind, List.take_length, List.drop_length]
      rw [hlast] at h
      have hsame := (eq_of_unmatchedPiece_append (hne hkind) hepsilon hlt.le hle le_rfl le_rfl h).1
      simp only [Prod.mk.injEq] at hsame
      omega
  | some match_ =>
      obtain ⟨start', stop', kind'⟩ := match_
      obtain ⟨hlt', hle'⟩ := bounds_of_find? hfind
      rw [pieces_of_some hfind, List.append_assoc, List.cons_append] at h
      rw [(eq_of_unmatchedPiece_append (hne hkind) (hne (mem_kinds_of_find? hfind)) hlt.le hle
        hlt'.le hle' h).1]

theorem map_piece_unmatchedAt_append (l : Lexicon) (cursor cursor' : Cursor) (skipped : List Char)
    (kind : String) (text : List Char) (tokens : List Token) :
    (l.unmatchedAt cursor skipped ++ tokenAt cursor' kind text :: tokens).map Token.piece =
      l.unmatchedPiece skipped ++ (kind, text) :: tokens.map Token.piece := by
  rw [List.map_append, unmatchedAt_eq_layOut, map_piece_layOut, List.map_cons]
  simp [Token.piece, tokenAt]

/-- The pieces of a source are those of its text, unless a match is taken in haste. -/
theorem map_piece_scan_eq_iff (hunmatched : l.catalog.unmatched ∉ l.kinds.map Prod.snd)
    (hepsilon : l.catalog.epsilon ≠ l.catalog.unmatched) (cursor : Cursor) (buffer : List Char)
    (input : Input) :
    (l.scan cursor buffer input).tokens.map Token.piece =
        l.pieces (buffer ++ input.rest) ++ [(l.catalog.epsilon, [])] ↔
      ∀ text more, l.Meets buffer input text more → ¬ l.Hasty text more := by
  fun_induction scan l cursor buffer input with
  | case1 cursor buffer input w hfound last =>
      -- nothing is found, so all of the text has been read
      have hkeeps : w.Keeps l buffer 0 input := l.await_keeps buffer input
      have hinput : w.input = .ended := hkeeps.ended hfound
      have hbuffer : w.buffer = buffer ++ input.rest := by
        simpa [hinput, Input.rest, Input.delivered] using hkeeps.text
      have hnone : l.find? (buffer ++ input.rest) = none := by
        rw [find?, Option.map_eq_none_iff, ← hbuffer, ← hkeeps.found, hfound]
      refine iff_of_true ?_ ?_
      · rw [pieces_of_none hnone, map_piece_unmatchedAt_append, hbuffer]
        rfl
      · rintro text more (_ | ⟨hsome, -⟩)
        · change ¬ l.Hasty w.buffer w.input.rest
          rw [hinput]
          exact l.not_hasty_nil w.buffer
        · rw [show (l.await buffer input).found = none from hfound] at hsome
          contradiction
  | case2 cursor buffer input w m hfound skipped text atMatch rest ih =>
      have hkeeps : w.Keeps l buffer 0 input := l.await_keeps buffer input
      have hmatch : l.find? w.buffer = some (m.start, m.stop, m.kind) :=
        find?_eq_some_iff.mpr ⟨m, hkeeps.found ▸ hfound, rfl, rfl, rfl⟩
      obtain ⟨hlt, hle⟩ := bounds_of_find? hmatch
      generalize hwhole : buffer ++ input.rest = whole
      rw [← hkeeps.text] at hwhole
      have hskipped : skipped = whole.take m.start := by
        rw [← hwhole, List.take_append_of_le_length (by omega)]
      have htext : text = (whole.take m.stop).drop m.start := by
        rw [← hwhole, List.take_append_of_le_length hle]
      have hrest : whole.drop m.stop = w.buffer.drop m.stop ++ w.input.rest := by
        rw [← hwhole, List.drop_append_of_le_length hle]
      rw [map_piece_unmatchedAt_append, hskipped, htext]
      by_cases hhaste : l.Hasty w.buffer w.input.rest
      · -- the text begins with another match, which shows in the first pieces
        refine iff_of_false (fun heq => ?_) fun hall => hall _ _ (.here buffer input) hhaste
        obtain ⟨start, stop, kind, hfound', -, hother⟩ := hhaste
        rw [hmatch] at hfound'
        cases hfound'
        rw [hwhole] at hother
        refine hother
          (find?_of_pieces_eq hunmatched hepsilon (mem_kinds_of_find? hmatch) hlt ?_ heq)
        rw [← hwhole, List.length_append]
        omega
      · have hfind := find?_of_not_hasty hfound hhaste
        rw [← hkeeps.text, hwhole] at hfind
        rw [pieces_of_some hfind, List.append_assoc, List.append_cancel_left_eq, List.cons_append,
          List.cons.injEq, hrest, ih, and_iff_right rfl]
        constructor
        · rintro h text more (_ | ⟨hsome, hlater⟩)
          · exact hhaste
          · obtain rfl := Option.some.inj (hfound.symm.trans hsome)
            exact h text more hlater
        · exact fun h text more hlater => h text more (.later hfound hlater)

/-- A text in a single chunk is read before anything is found. -/
theorem rest_await_singleton (l : Lexicon) (text : List Char) :
    (l.await [] (.chunks [text])).input.rest = [] := by
  have hnone : l.search? [] = none := Option.map_eq_none_iff.mp l.find?_nil
  rw [await, awaitChunks]
  simp only [hnone, isSettled, Option.any_none, Bool.false_eq_true, if_false]
  split
  · rfl
  · rw [awaitChunks]
    split <;> rfl

theorem map_piece_scanChunks_singleton (hunmatched : l.catalog.unmatched ∉ l.kinds.map Prod.snd)
    (hepsilon : l.catalog.epsilon ≠ l.catalog.unmatched) (text : List Char) :
    (l.scanChunks [text]).tokens.map Token.piece =
      l.pieces text ++ [(l.catalog.epsilon, [])] := by
  have hrest : (Input.chunks [text]).rest = text := by
    by_cases htext : text = [] <;> simp [Input.rest, Input.delivered, htext]
  have hiff := map_piece_scan_eq_iff hunmatched hepsilon {} [] (.chunks [text])
  rw [hrest, List.nil_append] at hiff
  refine hiff.mpr fun read more hmeets => ?_
  have hmore : more = [] := by
    cases hmeets with
    | here => exact l.rest_await_singleton text
    | later _ h => exact h.more_eq_nil (l.rest_await_singleton text)
  rw [hmore]
  exact l.not_hasty_nil read

inductive Searches (l : Lexicon) (text : List Char) : Nat → Prop
  | zero : Searches l text 0
  | next {place start stop : Nat} {kind : String} (h : Searches l text place)
      (hfound : l.find? (text.drop place) = some (start, stop, kind)) :
      Searches l text (place + stop)

/-- The buffer goes from a place of the text up to the end of a chunk, and the chunks after that are
still to come. -/
structure Stands (size : Nat) (text : List Char) (place bound : Nat) (buffer : List Char)
    (input : Input) : Prop where
  place_le : place ≤ bound
  buffer_eq : buffer = (text.take bound).drop place
  input_eq : input = .ended ∧ text.length ≤ bound ∨
    input = .chunks (cutEvery size (text.drop bound)) ∧ size ∣ bound

variable {size place bound : Nat}

theorem cutEvery_drop (hsize : 0 < size) (text : List Char) (bound : Nat) :
    cutEvery size (text.drop bound) =
      if bound < text.length then
        (text.drop bound).take size :: cutEvery size (text.drop (bound + size))
      else [] := by
  rw [cutEvery]
  by_cases hlt : bound < text.length
  · have hne : ¬ (size = 0 ∨ text.drop bound = []) := by
      rw [List.drop_eq_nil_iff]
      omega
    rw [dif_neg hne, if_pos hlt, List.drop_drop]
  · have hempty : text.drop bound = [] := List.drop_eq_nil_of_le (Nat.le_of_not_lt hlt)
    rw [dif_pos (.inr hempty), if_neg hlt]

theorem Stands.append_rest (hsize : 0 < size) (h : Stands size text place bound buffer input) :
    input.rest = text.drop bound ∧ buffer ++ input.rest = text.drop place := by
  have hrest : input.rest = text.drop bound := by
    rcases h.input_eq with ⟨rfl, hle⟩ | ⟨rfl, -⟩
    · rw [List.drop_of_length_le hle]
      rfl
    · rw [Input.rest, Input.delivered, takeWhile_cutEvery, flatten_cutEvery hsize]
  refine ⟨hrest, ?_⟩
  have hdrop : (text.drop place).drop (bound - place) = text.drop bound := by
    rw [List.drop_drop, Nat.add_sub_cancel' h.place_le]
  rw [hrest, h.buffer_eq, List.drop_take, ← hdrop, List.take_append_drop]

/-- Reading leaves the end of the buffer at the end of a chunk. -/
theorem Stands.awaitChunks (hsize : 0 < size) {cs : List (List Char)}
    (hcs : cs = cutEvery size (text.drop bound)) (hdvd : size ∣ bound) (hplace : place ≤ bound)
    (hbuffer : buffer = (text.take bound).drop place) (reads : Nat) :
    ∃ bound', Stands size text place bound' (l.awaitChunks buffer reads cs).buffer
      (l.awaitChunks buffer reads cs).input := by
  induction cs generalizing bound buffer reads with
  | nil =>
      rw [cutEvery_drop hsize] at hcs
      have hend : ¬ bound < text.length := by
        intro hlt
        rw [if_pos hlt] at hcs
        contradiction
      unfold Lexicon.awaitChunks
      dsimp only
      split
      · exact ⟨bound, hplace, hbuffer, .inr ⟨by rw [cutEvery_drop hsize, if_neg hend], hdvd⟩⟩
      · exact ⟨bound, hplace, hbuffer, .inl ⟨rfl, Nat.le_of_not_lt hend⟩⟩
  | cons chunk rest ih =>
      have hcut := hcs
      rw [cutEvery_drop hsize] at hcs
      split at hcs
      · rename_i hlt
        obtain ⟨hchunk, hrest⟩ := List.cons.inj hcs
        have hne : chunk ≠ [] := by
          rw [hchunk, ne_eq, List.take_eq_nil_iff, List.drop_eq_nil_iff]
          omega
        have hmore : buffer ++ chunk = (text.take (bound + size)).drop place := by
          rw [hbuffer, hchunk, List.take_add, List.drop_append_of_le_length]
          rw [List.length_take]
          omega
        unfold Lexicon.awaitChunks
        dsimp only
        split
        · exact ⟨bound, hplace, hbuffer, .inr ⟨by rw [hcut], hdvd⟩⟩
        · have hnext := (Nat.dvd_add_right hdvd).mpr (Nat.dvd_refl size)
          exact ih hrest hnext (by omega) hmore (reads + 1)
      · contradiction

theorem Stands.await (hsize : 0 < size) (h : Stands size text place bound buffer input) :
    ∃ bound', Stands size text place bound' (l.await buffer input).buffer
      (l.await buffer input).input := by
  rcases h.input_eq with ⟨rfl, hle⟩ | ⟨rfl, hdvd⟩
  · exact ⟨bound, h⟩
  · exact Stands.awaitChunks hsize rfl hdvd h.place_le h.buffer_eq 0

/-- Nothing is taken in haste when there is no place and no chunk for that. -/
theorem Stands.not_hasty (hsize : 0 < size)
    (hall : ∀ place bound, l.Searches text place → place ≤ bound → bound < text.length →
      size ∣ bound → ¬ l.Hasty ((text.take bound).drop place) (text.drop bound))
    (hplace : l.Searches text place) (h : Stands size text place bound buffer input)
    {read : List Char} (hmeets : l.Meets buffer input read more) : ¬ l.Hasty read more := by
  have hwindow {place bound : Nat} {buffer : List Char} {input : Input}
      (hplace : l.Searches text place) (h : Stands size text place bound buffer input) :
      ¬ l.Hasty buffer input.rest := by
    by_cases hlt : bound < text.length
    · rcases h.input_eq with ⟨-, hle⟩ | ⟨-, hdvd⟩
      · omega
      · rw [(h.append_rest hsize).1, h.buffer_eq]
        exact hall place bound hplace h.place_le hlt hdvd
    · rw [(h.append_rest hsize).1, List.drop_eq_nil_of_le (Nat.le_of_not_lt hlt)]
      exact l.not_hasty_nil buffer
  induction hmeets generalizing place bound with
  | here buffer input =>
      obtain ⟨bound', h'⟩ := h.await hsize (l := l)
      exact hwindow hplace h'
  | @later buffer read more input m hfound _ ih =>
      obtain ⟨bound', h'⟩ := h.await hsize (l := l)
      have hfind := find?_of_not_hasty hfound (hwindow hplace h')
      rw [(h.append_rest hsize).2] at hfind
      have hle := m.stop_le_length
      suffices hstands : Stands size text (_ + m.stop) bound' _ _ from
        ih (hplace.next hfind) hstands
      refine ⟨?_, ?_, h'.input_eq⟩
      · have hlength := congrArg List.length h'.buffer_eq
        rw [List.length_drop, List.length_take] at hlength
        have hle' := h'.place_le
        omega
      · exact (congrArg (List.drop m.stop) h'.buffer_eq).trans (List.drop_drop ..)

end Lookahead.Lexicon
