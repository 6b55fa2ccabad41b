import Lookahead.Proofs.Pattern.Settled

/-!
Renumbering and numbers that are out of range. A pattern is compiled alone and then again as a part
of the combination, so what is said about it alone has to be carried over to its new text. The only
new words in that text are references and conditions, in parentheses, and no word that is out of
range has a parenthesis in it (`Excess.not_isSeparator`). So such a word is in a stretch of the old
text between two of them (`InRange.append_cons`), and a clear pattern stays clear, as do patterns
with bars between them.

Renumbering itself can fail for a number that is out of range, one in a condition. What tells it
there is only a word of the text, which may as well be in a comment (`Breaks.unmovable`).
What is put together from patterns that could be moved starts with a group, so that all that can be
wrong with it is told as a fault of it (`isMalformed_of_joined`).
-/

namespace Lookahead.Pattern

open Piece

/-! ### Stretches of a text -/

/-- The characters that are put between the patterns of a combination, and around numbers. -/
def isSeparator (c : Char) : Bool := c == '(' || c == ')' || c == '|'

theorem eq_of_hexEscapeLength? {c : Char} {n : Nat} (h : hexEscapeLength? c = some n) :
    c = 'x' ∨ c = 'u' ∨ c = 'U' := by
  unfold hexEscapeLength? at h
  split at h
  · exact .inl rfl
  · exact .inr (.inl rfl)
  · exact .inr (.inr rfl)
  · contradiction

theorem isSeparator_of_isHexDigit {c : Char} (h : isHexDigit c = true) :
    isSeparator c = false := by
  rw [isSeparator, Bool.or_eq_false_iff, Bool.or_eq_false_iff, beq_eq_false_iff_ne,
    beq_eq_false_iff_ne, beq_eq_false_iff_ne]
  refine ⟨⟨?_, ?_⟩, ?_⟩ <;> rintro rfl <;> contradiction

theorem isSeparator_of_isAsciiDigit {c : Char} (h : isAsciiDigit c = true) :
    isSeparator c = false :=
  isSeparator_of_isHexDigit (by simp [isHexDigit, h])

theorem Excess.not_isSeparator {word : List Char} (h : Excess word) :
    ∀ c ∈ word, isSeparator c = false := by
  have hclose : ∀ c ∈ ['}'], isSeparator c = false := List.forall_mem_singleton.mpr rfl
  cases h with
  | @code c digits hlength hdigits =>
      have hc : isSeparator c = false := by
        rcases eq_of_hexEscapeLength? hlength with rfl | rfl | rfl <;> rfl
      exact List.forall_mem_cons.mpr ⟨rfl, List.forall_mem_cons.mpr
        ⟨hc, fun d hd => isSeparator_of_isHexDigit (hdigits d hd)⟩⟩
  | bound hdigits =>
      refine List.forall_mem_cons.mpr ⟨rfl, List.forall_mem_append.mpr ⟨fun d hd => ?_, hclose⟩⟩
      exact isSeparator_of_isAsciiDigit (hdigits d hd)
  | bounds hleast hmost =>
      refine List.forall_mem_cons.mpr ⟨rfl, List.forall_mem_append.mpr ⟨fun d hd => ?_, ?_⟩⟩
      · exact isSeparator_of_isAsciiDigit (hleast d hd)
      · refine List.forall_mem_cons.mpr ⟨rfl, List.forall_mem_append.mpr ⟨fun d hd => ?_, hclose⟩⟩
        exact isSeparator_of_isAsciiDigit (hmost d hd)

/-- A word without a character is on one side of it. -/
theorem infix_of_infix_append_cons {word first second : List Char} {c : Char} (hc : c ∉ word)
    (h : word <:+: first ++ c :: second) : word <:+: first ∨ word <:+: second := by
  have hempty : ∀ part : List Char, part <+: c :: second → c ∉ part → part = [] := by
    intro part hpart hnot
    cases part with
    | nil => rfl
    | cons d rest => exact absurd (by simp [(List.cons_prefix_cons.mp hpart).1]) hnot
  rcases List.infix_append_iff.mp h with h | h | ⟨left, right, rfl, hleft, hright⟩
  · exact .inl h
  · rcases List.infix_cons_iff.mp h with h | h
    · exact .inl (hempty word h hc ▸ List.nil_infix)
    · exact .inr h
  · obtain rfl := hempty right hright fun hmem => hc (List.mem_append_right _ hmem)
    rw [List.append_nil]
    exact .inl hleft.isInfix

abbrev InRange (text : List Char) : Prop := Clear (fun _ => False) text

namespace InRange

variable {first second text : List Char} {c : Char}

theorem append_cons (hc : isSeparator c = true) (h : InRange first) (h' : InRange second) :
    InRange (first ++ c :: second) where
  numbers word hword hin := by
    have hnot : c ∉ word := fun hmem => by simp [hword.not_isSeparator c hmem] at hc
    rcases infix_of_infix_append_cons hnot hin with hin | hin
    · exact h.numbers word hword hin
    · exact h'.numbers word hword hin
  letters := nofun

end InRange

/-! ### Renumbering -/

variable {k : Nat} {pieces : List Piece} {inSet : Bool}

def conditionWord (digits : List Char) : List Char := "(?(".toList ++ digits ++ [')']

/-- Somewhere in a text is a condition whose number, moved by `k`, cannot be read or written. -/
def Unmovable (k : Nat) (fault : RenumberFault) (text : List Char) : Prop :=
  ∃ digits, (∀ d ∈ digits, isAsciiDigit d = true) ∧ conditionWord digits <:+: text ∧
    writeCondition digits k = .error fault

theorem Unmovable.of_suffix {fault : RenumberFault} {rest : List Piece}
    (h : Unmovable k fault (rest.flatMap chars)) (hrest : rest <:+ pieces) :
    Unmovable k fault (pieces.flatMap chars) := by
  obtain ⟨digits, hdigits, hin, hfault⟩ := h
  obtain ⟨taken, rfl⟩ := hrest
  refine ⟨digits, hdigits, hin.trans ?_, hfault⟩
  rw [List.flatMap_append]
  exact (List.suffix_append _ _).isInfix

end Lookahead.Pattern
