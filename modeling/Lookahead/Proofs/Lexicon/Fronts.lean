import Lookahead.Proofs.Lexicon.Pieces
import Mathlib.Data.Nat.Find

/-!
Lexicons that look only at what follows. When the pattern of a lexicon does, there is a function
that says of the text from a place on whether a match starts there, how long it is and of which kind
(`Lexicon.Fronts`). The first match of a text is then at the first place where the function has an
answer, wherever the text itself begins.

So a text can be cut into pieces from any place on at which a piece begins: what comes before has no
part in it (`pieces_of_append_eq`). And a piece begins at a place where a match can start, unless a
match that has started before goes beyond it (`exists_pieces_append`).
-/

namespace Lookahead

open Pattern

/-! ### Patterns that are found by what follows -/

namespace Pattern.Compiled

variable {p : Compiled} {first : List Char → Option (Nat × Nat)} {text : List Char}

theorem search?_eq_some_iff_of_takesGroup (h : p.term.TakesGroup p.modes first)
    (hpos : ∀ {rest b}, first rest = some b → 0 < b.1) {found : Found text.toArray} :
    p.search? text.toArray = some found ↔
      ∃ n group, first (text.drop found.start) = some (n, group) ∧ found.stop = found.start + n ∧
        found.group = some group ∧ ∀ place < found.start, first (text.drop place) = none := by
  have hmatch {place : Nat} (hplace : place ≤ text.length) :=
    matchAt?_of_takesGroup h hpos (show place ≤ text.toArray.size by simpa using hplace)
  have hle : found.start ≤ text.length := by
    have hsize := Nat.le_trans found.start_lt_stop.le found.stop_le_size
    simpa using hsize
  rw [search?_eq_some_iff]
  constructor
  · rintro ⟨s, ⟨-, hs, hbefore⟩, hstop, hgroup⟩
    rw [hmatch hle, Option.map_eq_some_iff] at hs
    obtain ⟨⟨n, group⟩, hfirst, rfl⟩ := hs
    refine ⟨n, group, hfirst, hstop, hgroup, fun place hplace => ?_⟩
    have hnone := hbefore place hplace
    rw [hmatch (by omega), Option.map_eq_none_iff] at hnone
    exact hnone
  · rintro ⟨n, group, hfirst, hstop, hgroup, hbefore⟩
    let s : State := {
      pos := found.start + n
      opened := [(group, found.start)]
      closed := [(group, found.start + n)] }
    refine ⟨s, ⟨by simpa using hle, ?_, fun place hplace => ?_⟩, hstop, hgroup⟩
    · rw [hmatch hle]
      exact Option.map_eq_some_iff.mpr ⟨(n, group), hfirst, rfl⟩
    · rw [hmatch (by omega), Option.map_eq_none_iff]
      exact hbefore place hplace

end Pattern.Compiled

namespace Lexicon

variable {l : Lexicon} {front : List Char → Option (Nat × String)}
variable {text u v : List Char} {n : Nat} {kind : String}

/-- The function says whether a match starts at the beginning of what follows, how long it is and of
which kind. -/
structure Fronts (l : Lexicon) (front : List Char → Option (Nat × String)) : Prop where
  pos : ∀ {text n kind}, front text = some (n, kind) → 0 < n
  le_length : ∀ {text n kind}, front text = some (n, kind) → n ≤ text.length
  find?_eq_some_iff : ∀ {text start stop kind}, l.find? text = some (start, stop, kind) ↔
    ∃ n, front (text.drop start) = some (n, kind) ∧ stop = start + n ∧
      ∀ place < start, front (text.drop place) = none

def frontOf (l : Lexicon) (first : List Char → Option (Nat × Nat)) (rest : List Char) :
    Option (Nat × String) :=
  (first rest).bind fun b => (l.kinds.lookup b.2).map (b.1, ·)

theorem frontOf_eq_some_iff {first : List Char → Option (Nat × Nat)} :
    l.frontOf first text = some (n, kind) ↔
      ∃ group, first text = some (n, group) ∧ l.kinds.lookup group = some kind := by
  simp only [frontOf, Option.bind_eq_some_iff, Option.map_eq_some_iff, Prod.mk.injEq, Prod.exists]
  constructor
  · rintro ⟨n', group, hfirst, kind', hkind, rfl, rfl⟩
    exact ⟨group, hfirst, hkind⟩
  · rintro ⟨group, hfirst, hkind⟩
    exact ⟨n, group, hfirst, kind, hkind, rfl, rfl⟩

/-- The first match is where the function has its first answer, if all groups have kinds. -/
theorem find?_eq_some_iff_of_takesGroup {first : List Char → Option (Nat × Nat)}
    (h : l.pattern.term.TakesGroup l.pattern.modes first)
    (hpos : ∀ {rest b}, first rest = some b → 0 < b.1)
    (hle : ∀ {rest b}, first rest = some b → b.1 ≤ rest.length)
    (hkinds : ∀ {rest b}, first rest = some b → ∃ kind, l.kinds.lookup b.2 = some kind)
    {start stop : Nat} :
    l.find? text = some (start, stop, kind) ↔
      ∃ n, l.frontOf first (text.drop start) = some (n, kind) ∧ stop = start + n ∧
        ∀ place < start, l.frontOf first (text.drop place) = none := by
  simp only [frontOf_eq_some_iff]
  constructor
  · intro hfind
    obtain ⟨m, hm, rfl, rfl, rfl⟩ := Lexicon.find?_eq_some_iff.mp hfind
    unfold search? at hm
    split at hm
    · contradiction
    · rename_i found hfound
      split at hm
      · contradiction
      · rename_i kind hkind
        cases hm
        obtain ⟨n, group, hfirst, hstop, hgroup, hbefore⟩ :=
          (Compiled.search?_eq_some_iff_of_takesGroup h hpos).mp hfound
        rw [hgroup, Option.bind_some] at hkind
        refine ⟨n, ⟨group, hfirst, hkind⟩, hstop, fun place hplace => ?_⟩
        rw [frontOf, hbefore place hplace, Option.bind_none]
  · rintro ⟨n, ⟨group, hfirst, hkind⟩, rfl, hbefore⟩
    have hlt : start < start + n := Nat.lt_add_of_pos_right (hpos hfirst)
    have hstop : start + n ≤ text.length := by
      have hn := hle hfirst
      rw [List.length_drop] at hn
      omega
    let found : Found text.toArray := ⟨start, start + n, some group, hlt, by simpa using hstop⟩
    have hfound : l.pattern.search? text.toArray = some found := by
      refine (Compiled.search?_eq_some_iff_of_takesGroup h hpos).mpr
        ⟨n, group, hfirst, rfl, rfl, fun place hplace => ?_⟩
      have hnone := hbefore place hplace
      cases hplace : first (text.drop place) with
      | none => rfl
      | some b =>
          obtain ⟨kind, hkind⟩ := hkinds hplace
          rw [frontOf, hplace, Option.bind_some, hkind] at hnone
          cases hnone
    refine Lexicon.find?_eq_some_iff.mpr ⟨⟨start, start + n, kind, hlt, hstop⟩, ?_, rfl, rfl, rfl⟩
    unfold search?
    rw [hfound]
    dsimp only [found, Option.bind_some]
    rw [hkind]

/-- A pattern that looks only at what follows makes for a lexicon that does. -/
theorem fronts_of_takesGroup {first : List Char → Option (Nat × Nat)}
    (h : l.pattern.term.TakesGroup l.pattern.modes first)
    (hpos : ∀ {rest b}, first rest = some b → 0 < b.1)
    (hle : ∀ {rest b}, first rest = some b → b.1 ≤ rest.length)
    (hkinds : ∀ {rest b}, first rest = some b → ∃ kind, l.kinds.lookup b.2 = some kind) :
    l.Fronts (l.frontOf first) where
  pos hfront := by
    obtain ⟨group, hfirst, -⟩ := frontOf_eq_some_iff.mp hfront
    exact hpos hfirst
  le_length hfront := by
    obtain ⟨group, hfirst, -⟩ := frontOf_eq_some_iff.mp hfront
    exact hle hfirst
  find?_eq_some_iff := find?_eq_some_iff_of_takesGroup h hpos hle hkinds

theorem append_inj_of_textOf {before after before' after' : List (String × List Char)}
    (h : before ++ after = before' ++ after') (hne : ∀ piece ∈ before ++ after, piece.2 ≠ [])
    (htext : textOf before = textOf before') : before = before' ∧ after = after' := by
  have hempty {pieces : List (String × List Char)} (hne : ∀ piece ∈ pieces, piece.2 ≠ [])
      (htext : textOf pieces = []) : pieces = [] := by
    cases pieces with
    | nil => rfl
    | cons piece rest =>
        rw [textOf_cons, List.append_eq_nil_iff] at htext
        exact absurd htext.1 (hne piece (by simp))
  rcases List.append_eq_append_iff.mp h with ⟨x, rfl, rfl⟩ | ⟨x, rfl, rfl⟩
  · have hx : x = [] := by
      refine hempty (fun piece hmem => hne piece (by simp [hmem])) ?_
      simpa using htext
    simp [hx]
  · have hx : x = [] := by
      refine hempty (fun piece hmem => hne piece (by simp [hmem])) ?_
      simpa using htext
    simp [hx]

namespace Fronts

/-! ### Pieces from a place on -/

theorem find?_of_front (h : l.Fronts front) (hfront : front text = some (n, kind)) :
    l.find? text = some (0, n, kind) :=
  h.find?_eq_some_iff.mpr ⟨n, hfront, (Nat.zero_add n).symm, fun _ hplace => nomatch hplace⟩

/-- A match at the beginning is the first piece. -/
theorem pieces_of_front (h : l.Fronts front) (hfront : front text = some (n, kind)) :
    l.pieces text = (kind, text.take n) :: l.pieces (text.drop n) := by
  rw [pieces_of_some (h.find?_of_front hfront)]
  simp [unmatchedPiece]

/-- A piece is unmatched, or it is what is found at some place. -/
theorem exists_front_of_mem_pieces (h : l.Fronts front) {piece : String × List Char}
    (hmem : piece ∈ l.pieces text) :
    piece.1 = l.catalog.unmatched ∨
      ∃ rest n, front rest = some (n, piece.1) ∧ piece.2 = rest.take n := by
  fun_induction pieces l text with
  | case1 text _ => exact .inl (of_mem_unmatchedPiece hmem).1
  | case2 text start stop kind hfind ih =>
      obtain ⟨n, hfront, rfl, -⟩ := h.find?_eq_some_iff.mp hfind
      rcases List.mem_append.mp hmem with hmem | hmem
      · exact .inl (of_mem_unmatchedPiece hmem).1
      · rcases List.mem_cons.mp hmem with rfl | hmem
        · refine .inr ⟨text.drop start, n, hfront, ?_⟩
          rw [List.drop_take, Nat.add_sub_cancel_left]
        · exact ih hmem

/-- Where no match starts before a place, but one at it, the text before it is one piece. -/
theorem pieces_append_of_barred (h : l.Fronts front) (hv : front v = some (n, kind))
    (hbarred : ∀ place < u.length, front ((u ++ v).drop place) = none) :
    l.pieces (u ++ v) = l.unmatchedPiece u ++ l.pieces v := by
  have hfind : l.find? (u ++ v) = some (u.length, u.length + n, kind) :=
    h.find?_eq_some_iff.mpr ⟨n, by rwa [List.drop_left], rfl, hbarred⟩
  rw [pieces_of_some hfind, h.pieces_of_front hv, List.take_left, List.drop_take, List.drop_left,
    Nat.add_sub_cancel_left, ← List.drop_drop, List.drop_left]

/-- A match starts before a place or at it, if one could start there. -/
theorem exists_find?_eq_some (h : l.Fronts front) {place : Nat}
    (hplace : front (text.drop place) ≠ none) :
    ∃ start n kind, start ≤ place ∧ front (text.drop start) = some (n, kind) ∧
      l.find? text = some (start, start + n, kind) := by
  classical
  have hstarts : ∃ place, front (text.drop place) ≠ none := ⟨place, hplace⟩
  obtain ⟨⟨n, kind⟩, hfront⟩ := Option.ne_none_iff_exists'.mp (Nat.find_spec hstarts)
  refine ⟨Nat.find hstarts, n, kind, Nat.find_min' hstarts hplace, hfront, ?_⟩
  refine h.find?_eq_some_iff.mpr ⟨n, hfront, rfl, fun earlier hearlier => ?_⟩
  exact not_not.mp (Nat.find_min hstarts hearlier)

/-- A text up to a place where a match could start: it is one piece, or it begins with a piece or
two up to where an earlier match stops. -/
theorem pieces_append (h : l.Fronts front) (hv : front v = some (n, kind)) :
    l.pieces (u ++ v) = l.unmatchedPiece u ++ l.pieces v ∨
      ∃ start n kind, start < u.length ∧ front ((u ++ v).drop start) = some (n, kind) ∧
        l.pieces (u ++ v) = l.unmatchedPiece (u.take start) ++
          (kind, ((u ++ v).drop start).take n) :: l.pieces ((u ++ v).drop (start + n)) := by
  by_cases hbarred : ∀ place < u.length, front ((u ++ v).drop place) = none
  · exact .inl (h.pieces_append_of_barred hv hbarred)
  · push Not at hbarred
    obtain ⟨place, hlt, hplace⟩ := hbarred
    obtain ⟨start, n, kind, hle, hfront, hfind⟩ := h.exists_find?_eq_some hplace
    refine .inr ⟨start, n, kind, Nat.lt_of_le_of_lt hle hlt, hfront, ?_⟩
    rw [pieces_of_some hfind, List.take_append_of_le_length (by omega), List.drop_take,
      Nat.add_sub_cancel_left]

/-- Pieces are cut off at a place where a match could start, when none goes beyond it. -/
theorem exists_pieces_append (h : l.Fronts front) (hv : front v = some (n, kind))
    (hwithin : ∀ place < u.length, ∀ n kind, front ((u ++ v).drop place) = some (n, kind) →
      place + n ≤ u.length) :
    ∃ before, l.pieces (u ++ v) = before ++ l.pieces v ∧ textOf before = u := by
  induction hlength : u.length using Nat.strong_induction_on generalizing u with
  | _ length ih =>
      rcases h.pieces_append (u := u) hv with hpieces | ⟨start, k, kind', hlt, hfront, hpieces⟩
      · exact ⟨l.unmatchedPiece u, hpieces, textOf_unmatchedPiece l u⟩
      · have hle := hwithin start hlt k kind' hfront
        have hpos := h.pos hfront
        have hdrop : (u ++ v).drop (start + k) = u.drop (start + k) ++ v :=
          List.drop_append_of_le_length hle
        obtain ⟨before, hbefore, htext⟩ := ih (u.drop (start + k)).length
          (by rw [List.length_drop]; omega) (u := u.drop (start + k)) (by
            intro place hplace n kind hfront'
            rw [List.length_drop] at hplace ⊢
            rw [← hdrop, List.drop_drop] at hfront'
            have hle' := hwithin (start + k + place) (by omega) n kind hfront'
            omega) rfl
        refine ⟨l.unmatchedPiece (u.take start) ++ (kind', (u.drop start).take k) :: before, ?_, ?_⟩
        · rw [hpieces, hdrop, hbefore, List.drop_append_of_le_length hlt.le,
            List.take_append_of_le_length (by rw [List.length_drop]; omega)]
          simp
        · rw [textOf_append, textOf_unmatchedPiece, textOf_cons, htext, ← List.drop_drop,
            List.take_append_drop, List.take_append_drop]

/-- A piece that begins where a match could start does not depend on what comes before it. -/
theorem pieces_of_append_eq (h : l.Fronts front) (hv : front v = some (n, kind))
    {before after : List (String × List Char)} (hpieces : l.pieces (u ++ v) = before ++ after)
    (htext : textOf before = u) : after = l.pieces v := by
  induction hlength : u.length using Nat.strong_induction_on generalizing u before with
  | _ length ih =>
      have hne : ∀ piece ∈ l.pieces (u ++ v), piece.2 ≠ [] :=
        fun _ hmem => ((l.cut_pieces (u ++ v)).of_mem hmem).2
      rw [hpieces] at hne
      rcases h.pieces_append (u := u) hv with hcut | ⟨start, k, kind', hlt, hfront, hcut⟩
      · rw [hpieces] at hcut
        exact (append_inj_of_textOf hcut hne (by rw [htext, textOf_unmatchedPiece])).2
      · rw [hpieces] at hcut
        have hlong : (textOf before).length = u.length := by rw [htext]
        rcases List.append_eq_append_iff.mp hcut with ⟨x, hx, -⟩ | ⟨x, hx, hrest⟩
        · have hshort := congrArg (fun pieces => (textOf pieces).length) hx
          simp only [textOf_unmatchedPiece, textOf_append, List.length_append,
            List.length_take] at hshort
          omega
        · cases x with
          | nil =>
              rw [hx, List.append_nil, textOf_unmatchedPiece, List.length_take] at hlong
              omega
          | cons piece x =>
              -- the match stops before the place, so the same holds from there on
              obtain ⟨rfl, htail⟩ := List.cons.inj hrest
              have hk := h.le_length hfront
              rw [hx, textOf_append, textOf_unmatchedPiece, textOf_cons, ← List.append_assoc]
                at htext
              have hmatch : (u.take start ++ ((u ++ v).drop start).take k).length = start + k := by
                rw [List.length_append, List.length_take_of_le hlt.le, List.length_take_of_le hk]
              have hle : start + k ≤ u.length := by
                rw [← htext, List.length_append, hmatch]
                exact Nat.le_add_right _ _
              have hlater : textOf x = u.drop (start + k) := by
                rw [← htext, List.drop_left' hmatch]
              have hpos := h.pos hfront
              have hshort : (u.drop (start + k)).length < length := by
                rw [List.length_drop]
                omega
              have hcut' : l.pieces (u.drop (start + k) ++ v) = x ++ after := by
                rw [← List.drop_append_of_le_length hle]
                exact htail
              exact ih _ hshort hcut' hlater rfl

end Fronts

end Lexicon

end Lookahead
