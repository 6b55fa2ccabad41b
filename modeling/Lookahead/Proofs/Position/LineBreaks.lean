import Lookahead.Position
import Mathlib.Data.List.DropRight

/-!
Lines and columns in closed form. A cursor sees one character at a time and remembers one bit of
what it has seen, while a line break is a matter of the whole text: a carriage return and a line
feed are one break if nothing stands between them, in whichever pieces they come. So the breaks are
counted on the text alone, two characters at once where they belong together (`breaks`), and what a
cut does to the count is said in one law: the breaks of two pieces are the breaks of the text, but
for a pair that the cut severs (`breaks_append_add`).

The cursor that stands after a text is then written down from the text (`Cursor.after`), and a step
leads from there to the cursor after one more character (`Cursor.step_after`). How the text was cut
plays no part in that: to move over the pieces in turn is to move over the whole text
(`Cursor.advance_flatten`).
-/

namespace Lookahead

def isBreak (char : Char) : Bool := char == '\r' || char == '\n'

/-- The number of line breaks in a text. A carriage return and the line feed directly behind it are
one break; each of the two is one elsewhere. -/
def breaks : List Char → Nat
  | [] => 0
  | '\r' :: '\n' :: rest => breaks rest + 1
  | char :: rest => breaks rest + (isBreak char).toNat

def lastLine (text : List Char) : List Char := text.rtakeWhile fun char => !isBreak char

/-- The cut between two pieces goes through a break. -/
def Severs (s t : List Char) : Prop := s.getLast? = some '\r' ∧ t.head? = some '\n'

instance (s t : List Char) : Decidable (Severs s t) := inferInstanceAs (Decidable (_ ∧ _))

/-! ### Counting breaks -/

/-- Breaks are counted by their characters, a pair once. -/
theorem breaks_cons_add (char : Char) (rest : List Char) :
    breaks (char :: rest) + (if Severs [char] rest then 1 else 0) =
      breaks rest + (isBreak char).toNat := by
  by_cases hpair : Severs [char] rest
  · obtain ⟨hchar, hrest⟩ := hpair
    obtain rfl : char = '\r' := Option.some.inj hchar
    obtain ⟨rest, rfl⟩ := List.head?_eq_some_iff.mp hrest
    rfl
  · have hcons : breaks (char :: rest) = breaks rest + (isBreak char).toNat := by
      rw [breaks]
      rintro rest rfl rfl
      exact hpair ⟨rfl, rfl⟩
    rw [if_neg hpair, hcons, Nat.add_zero]

/-- **What a cut does to the breaks.** The two pieces have the breaks of the text, and one more if
the cut goes through a break. -/
theorem breaks_append_add (s t : List Char) :
    breaks (s ++ t) + (if Severs s t then 1 else 0) = breaks s + breaks t := by
  induction s with
  | nil => simp [Severs, breaks]
  | cons char rest ih =>
      have hwhole := breaks_cons_add char (rest ++ t)
      have hpiece := breaks_cons_add char rest
      rw [List.cons_append]
      cases rest with
      | nil =>
          simp only [List.nil_append, breaks] at hwhole hpiece ⊢
          omega
      | cons second rest =>
          -- neither of the two cuts is between these characters
          have hhead : Severs [char] (second :: rest ++ t) ↔ Severs [char] (second :: rest) :=
            Iff.rfl
          have hlast : Severs (char :: second :: rest) t ↔ Severs (second :: rest) t := by
            rw [Severs, List.getLast?_cons_cons, Severs]
          simp only [hhead, hlast] at hwhole ⊢
          omega

theorem breaks_concat_add (text : List Char) (char : Char) :
    breaks (text ++ [char]) + (if text.getLast? = some '\r' ∧ char = '\n' then 1 else 0) =
      breaks text + (isBreak char).toNat := by
  simpa [Severs, breaks] using breaks_append_add text [char]

theorem lastLine_concat (text : List Char) (char : Char) :
    lastLine (text ++ [char]) = if isBreak char then [] else lastLine text ++ [char] := by
  cases h : isBreak char <;> simp [lastLine, h]

theorem lastLine_eq_nil {text : List Char} (h : text.getLast? = some '\r') :
    lastLine text = [] := by
  obtain ⟨before, rfl⟩ := List.getLast?_eq_some_iff.mp h
  rw [lastLine_concat, if_pos (by decide)]

namespace Cursor

/-! ### The cursor after a text -/

/-- The cursor that stands after a text, from the text alone. -/
def after (text : List Char) : Cursor where
  line := 1 + breaks text
  column := 1 + (lastLine text).length
  afterReturn := decide (text.getLast? = some '\r')

theorem after_nil : after [] = {} := rfl

theorem step_after (text : List Char) (char : Char) :
    (after text).step char = after (text ++ [char]) := by
  have hbreaks := breaks_concat_add text char
  have hline := lastLine_concat text char
  by_cases hfeed : char = '\n'
  · subst hfeed
    by_cases hreturn : text.getLast? = some '\r'
    · -- the pair counted when its carriage return came, which left nothing on the line
      have hsame : breaks (text ++ ['\n']) = breaks text := by
        simpa [hreturn, isBreak] using hbreaks
      simp [step, after, hreturn, hsame, hline, isBreak, lastLine_eq_nil hreturn]
    · have hmore : breaks (text ++ ['\n']) = breaks text + 1 := by
        simpa [hreturn, isBreak] using hbreaks
      simp [step, after, hreturn, hmore, hline, isBreak, Int.add_assoc]
  · by_cases hreturn : char = '\r'
    · subst hreturn
      have hmore : breaks (text ++ ['\r']) = breaks text + 1 := by simpa [isBreak] using hbreaks
      simp [step, after, hmore, hline, isBreak, Int.add_assoc]
    · have hplain : isBreak char = false := by simp [isBreak, hfeed, hreturn]
      have hsame : breaks (text ++ [char]) = breaks text := by simpa [hfeed, hplain] using hbreaks
      simp [step, after, hfeed, hreturn, hsame, hline, hplain, Int.add_assoc]

theorem advance_after (s t : List Char) : (after s).advance t = after (s ++ t) := by
  induction t generalizing s with
  | nil => simp
  | cons char rest ih => rw [advance_cons, step_after, ih, List.append_assoc, List.singleton_append]

theorem advance_flatten (c : Cursor) (pieces : List (List Char)) :
    c.advance pieces.flatten = pieces.foldl advance c :=
  List.foldl_flatten

/-- The position stays for the line feed of a pair, and only for that. -/
theorem position_step_eq_iff (c : Cursor) (char : Char) :
    (c.step char).position = c.position ↔ char = '\n' ∧ c.afterReturn = true := by
  rw [step, position, position, Position.mk.injEq]
  split_ifs with hfeed hreturn hchar
  · exact iff_of_true ⟨rfl, rfl⟩ ⟨hfeed, hreturn⟩
  · exact iff_of_false (fun h => Int.ne_of_gt (Int.lt_succ c.line) h.1) (fun h => hreturn h.2)
  · exact iff_of_false (fun h => Int.ne_of_gt (Int.lt_succ c.line) h.1) (fun h => hfeed h.1)
  · exact iff_of_false (fun h => Int.ne_of_gt (Int.lt_succ c.column) h.2) (fun h => hfeed h.1)

/-- **Where a cursor stands.** It starts before the first character and moves over the pieces of a
text in turn, empty ones included. Its line is one more than the text has breaks, and its column one
more than there are characters after the last of them. It knows whether the text ends in a carriage
return. From there it goes on through the next piece, character by character: it never moves back,
and it stays for the line feed directly behind a carriage return and for nothing else. -/
theorem foldl_advance_exact (pieces : List (List Char)) :
    let text := pieces.flatten
    let cursor := pieces.foldl advance {}
    cursor.line = 1 + breaks text ∧
    cursor.column = 1 + (lastLine text).length ∧
    (cursor.afterReturn = true ↔ text.getLast? = some '\r') ∧
    ∀ piece char,
      (cursor.advance piece).position ≤ (cursor.advance (piece ++ [char])).position ∧
      ((cursor.advance (piece ++ [char])).position = (cursor.advance piece).position ↔
        char = '\n' ∧ (text ++ piece).getLast? = some '\r') := by
  intro text cursor
  have hcursor : cursor = after text := by
    rw [← List.nil_append text, ← advance_after, after_nil, advance_flatten]
  refine ⟨by rw [hcursor, after], by rw [hcursor, after], ?_, fun piece char => ?_⟩
  · rw [hcursor, after, decide_eq_true_iff]
  · have hstep : cursor.advance (piece ++ [char]) = (cursor.advance piece).step char :=
      advance_append cursor piece [char]
    have hreturn : (cursor.advance piece).afterReturn = true ↔
        (text ++ piece).getLast? = some '\r' := by
      rw [hcursor, advance_after, after, decide_eq_true_iff]
    rw [hstep, position_step_eq_iff, hreturn]
    exact ⟨position_le_step _ _, Iff.rfl⟩

-- a pair that is cut in two, with an empty piece in between
example : [['a', 'b', '\r'], [], ['\n', 'c', 'd']].foldl advance {} = ⟨2, 3, false⟩ := by decide

end Cursor

end Lookahead
