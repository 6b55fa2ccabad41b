import Lookahead.Lexicon.Basic
import Lookahead.Proofs.Pattern.Numbers

/-!
Patterns without numbers that are out of all range. Nearly everything that can be wrong with a
pattern is told as a fault of the pattern. A number that is too large, or too long to be read, is
not, and neither is the choice of two alphabets for the whole pattern. Which words these come from
can be seen in the text: the code of a character (`Excess.code`), the bounds of a repetition
(`Excess.bound`, `Excess.bounds`) and option letters (`TurnsOn`). A text that has none of them is
clear (`Clear`), and so is every part of it.

Scanners that are tame find malformed patterns only, as long as what they scan is clear, and leave a
part of it. Like everything about scanners this is put together construct by construct
(`Scan.Tame`).
-/

namespace Lookahead.Pattern

open Piece Scan

/-! ### What is out of range -/

/-- A number of rounds that is too long to be read, or too large. -/
def TooLarge (digits : List Char) : Prop :=
  Text.integerDigitLimit < digits.length ∨ repetitionLimit ≤ digitsValue 10 digits

inductive Excess : List Char → Prop
  | code {c : Char} {digits : List Char} (hlength : hexEscapeLength? c = some digits.length)
      (hdigits : ∀ d ∈ digits, isHexDigit d = true) (hlarge : codeLimit ≤ digitsValue 16 digits) :
      Excess ('\\' :: c :: digits)
  | bound {digits : List Char} (hdigits : ∀ d ∈ digits, isAsciiDigit d = true)
      (hlarge : TooLarge digits) : Excess ('{' :: (digits ++ ['}']))
  | bounds {least most : List Char} (hleast : ∀ d ∈ least, isAsciiDigit d = true)
      (hmost : ∀ d ∈ most, isAsciiDigit d = true) (hlarge : TooLarge least ∨ TooLarge most) :
      Excess ('{' :: (least ++ ',' :: (most ++ ['}'])))

def modeWord (letters : List Char) : List Char := '(' :: '?' :: (letters ++ [')'])

/-- Somewhere in a text an option is turned on for the whole pattern. -/
def TurnsOn (c : Char) (text : List Char) : Prop :=
  ∃ letters, c ∈ letters ∧ (∀ d ∈ letters, (Modes.ofLetter? d).isSome = true) ∧
    modeWord letters <:+: text

/-- A text without numbers that are out of range, in which some options are not turned on. -/
structure Clear (letter : Char → Prop) (text : List Char) : Prop where
  numbers : ∀ word, Excess word → ¬ word <:+: text
  letters : ∀ c, letter c → ¬ TurnsOn c text

variable {letter : Char → Prop}

theorem Clear.of_infix {part text : List Char} (h : Clear letter text) (hpart : part <:+: text) :
    Clear letter part where
  numbers word hword hin := h.numbers word hword (hin.trans hpart)
  letters c hc := fun ⟨letters, hmem, hall, hin⟩ =>
    h.letters c hc ⟨letters, hmem, hall, hin.trans hpart⟩

def ClearPieces (letter : Char → Prop) (pieces : List Piece) : Prop :=
  Clear letter (pieces.flatMap chars)

namespace ClearPieces

variable {p : Piece} {pieces rest : List Piece}

theorem of_suffix (h : ClearPieces letter pieces) (hrest : rest <:+ pieces) :
    ClearPieces letter rest := by
  obtain ⟨taken, rfl⟩ := hrest
  refine Clear.of_infix h (List.IsSuffix.isInfix ⟨taken.flatMap chars, ?_⟩)
  rw [List.flatMap_append]

theorem tail (h : ClearPieces letter (p :: rest)) : ClearPieces letter rest :=
  h.of_suffix (List.suffix_cons p rest)

end ClearPieces

namespace Scan

variable {α β σ : Type} {before : List Piece → Prop} {fact : α → Prop} {last : β → Prop}
variable {m : Scan α} {s t : Source}

/-! ### Tame scanners -/

/-- What is wrong with the source is told as a fault of the pattern. -/
def TameAt (m : Scan α) (s : Source) (fact : α → Prop) : Prop :=
  (∀ fault, m s = .error fault → fault.isMalformed = true) ∧ ∀ a t, m.Gives s a t → fact a

/-- The same for all sources of some kind. -/
def Tame (before : List Piece → Prop) (m : Scan α) (fact : α → Prop) : Prop :=
  ∀ s, before s.pieces → m.TameAt s fact

theorem of_bind_eq_error {f : α → Scan β} {fault : Fault} (h : (m >>= f) s = .error fault) :
    m s = .error fault ∨ ∃ a t, m.Gives s a t ∧ f a t = .error fault := by
  change Scan.bind m f s = .error fault at h
  unfold Scan.bind at h
  split at h
  · rename_i hm
    cases h
    exact .inl hm
  · rename_i a t ht hm
    split at h
    · rename_i hf
      cases h
      exact .inr ⟨a, t, ⟨ht, hm⟩, hf⟩
    · contradiction

namespace TameAt

theorem pure {a : α} (h : fact a) : (Pure.pure a : Scan α).TameAt s fact := by
  refine ⟨fun fault hfault => ?_, fun b t hm => ?_⟩
  · contradiction
  · obtain ⟨rfl, -⟩ := gives_pure_iff.mp hm
    exact h

theorem bind {f : α → Scan β} (h : m.TameAt s fact)
    (hf : ∀ a t, m.Gives s a t → (f a).TameAt t last) : (m >>= f).TameAt s last := by
  refine ⟨fun fault hfault => ?_, fun b u hb => ?_⟩
  · rcases of_bind_eq_error hfault with hfault | ⟨a, t, hm, hfault⟩
    · exact h.1 fault hfault
    · exact (hf a t hm).1 fault hfault
  · obtain ⟨a, t, hm, hb⟩ := gives_bind_iff.mp hb
    exact (hf a t hm).2 b u hb

end TameAt

namespace Tame

theorem mono {before' : List Piece → Prop} {fact' : α → Prop} (h : m.Tame before fact)
    (hbefore : ∀ p, before' p → before p) (hfact : ∀ a, fact a → fact' a) :
    m.Tame before' fact' :=
  fun s hs => ⟨(h s (hbefore _ hs)).1, fun a t hm => hfact a ((h s (hbefore _ hs)).2 a t hm)⟩

theorem pure {a : α} (h : fact a) : (Pure.pure a : Scan α).Tame before fact :=
  fun _ _ => TameAt.pure h

theorem failAt (cause : Cause) (offset : Nat) : (failAt cause offset : Scan α).Tame before fact :=
  fun s _ => ⟨fun fault hfault => by cases hfault; rfl,
    fun a t hm => absurd hm (refuses_failAt _ _ _ _ _)⟩

theorem failBack (cause : Cause) (back : Nat) : (failBack cause back : Scan α).Tame before fact :=
  fun s _ => ⟨fun fault hfault => by cases hfault; rfl,
    fun a t hm => absurd hm (refuses_failBack _ _ _ _ _)⟩

theorem bind {f : α → Scan β} (hbefore : ∀ p, before p → ClearPieces letter p)
    (h : m.Tame before fact) (hf : ∀ a, fact a → (f a).Tame (ClearPieces letter) last) :
    (m >>= f).Tame before last := by
  refine fun s hs => TameAt.bind (h s hs) fun a t hm => ?_
  exact hf a ((h s hs).2 a t hm) t ((hbefore _ hs).of_suffix hm.suffix)

theorem map {f : α → β} (h : m.Tame before fact) (hf : ∀ a, fact a → last (f a)) :
    (m >>= fun a => Pure.pure (f a)).Tame before last :=
  fun s hs => TameAt.bind (h s hs) fun a t hm => .pure (hf a ((h s hs).2 a t hm))

theorem ite {c : Prop} [Decidable c] {n : Scan α} (h₁ : c → m.Tame before fact)
    (h₂ : ¬ c → n.Tame before fact) : (if c then m else n).Tame before fact := by
  split
  · exact h₁ ‹_›
  · exact h₂ ‹_›

end Tame

/-! ### Taking pieces -/

theorem isMalformed_of_advance {p : Piece} {rest : List Piece} {offset : Nat} {fault : Fault}
    (h : advance p rest offset = .error fault) : fault.isMalformed = true := by
  unfold advance at h
  split at h
  · cases h
    rfl
  · contradiction

theorem isMalformed_of_take {fault : Fault} (h : take s = .error fault) :
    fault.isMalformed = true := by
  unfold take at h
  split at h
  · contradiction
  · split at h
    · rename_i hadvance
      cases h
      exact isMalformed_of_advance hadvance
    · contradiction

theorem tameAt_take (s : Source) : take.TameAt s fun _ => True :=
  ⟨fun _ => isMalformed_of_take, fun _ _ _ => trivial⟩

/-- What goes wrong in a loop goes wrong at its end, in a round or in the rounds after that. -/
theorem of_loop_eq_error {body : σ → Piece → Scan (σ ⊕ α)} {atEnd : σ → Scan α} {x : σ}
    {fault : Fault} (h : loop body atEnd x s = .error fault) :
    (s.pieces = [] ∧ atEnd x s = .error fault) ∨
      ∃ p rest, s.pieces = p :: rest ∧
        (advance p rest s.offset = .error fault ∨
          body x p ⟨rest, s.offset + p.width⟩ = .error fault ∨
          ∃ y v, (body x p).Gives ⟨rest, s.offset + p.width⟩ (.inl y) v ∧
            loop body atEnd y v = .error fault) := by
  rw [loop] at h
  split at h
  · rename_i hs
    exact .inl ⟨hs, h⟩
  · rename_i p rest hs
    refine .inr ⟨p, rest, hs, ?_⟩
    split at h
    · rename_i hadvance
      cases h
      exact .inl hadvance
    · rename_i u hu
      obtain ⟨-, rfl⟩ := advance_eq_ok_iff.mp hu
      split at h
      · rename_i hround
        cases h
        exact .inr (.inl hround)
      · contradiction
      · rename_i y v hv hround
        split at h
        · rename_i hloop
          cases h
          exact .inr (.inr ⟨y, v, ⟨hv, hround⟩, hloop⟩)
        · contradiction

namespace Tame

theorem takeBind {f : Option Piece → Scan α} (hnil : (f none).Tame before fact)
    (hcons : ∀ p, (f (some p)).Tame (fun q => before (p :: q)) fact) :
    (take >>= f).Tame before fact := by
  refine fun s hs => (tameAt_take s).bind fun x t hx => ?_
  rcases gives_take hx with ⟨-, rfl, rfl⟩ | ⟨p, hp, -, rfl⟩
  · exact hnil t hs
  · rw [hp] at hs
    exact hcons p t hs

theorem loop {body : σ → Piece → Scan (σ ⊕ α)} {atEnd : σ → Scan α} {x : σ}
    (hbody : ∀ x p, (body x p).Tame (fun q => ClearPieces letter (p :: q)) fun _ => True)
    (hend : ∀ x, (atEnd x).Tame (ClearPieces letter) fun _ => True) :
    (Scan.loop body atEnd x).Tame (ClearPieces letter) fun _ => True := by
  intro s hs
  generalize hlength : s.pieces.length = n
  induction n using Nat.strongRecOn generalizing s x with
  | ind n ih =>
      have hround : ∀ {p rest}, s.pieces = p :: rest →
          (body x p).TameAt ⟨rest, s.offset + p.width⟩ fun _ => True := by
        intro p rest hcons
        rw [hcons] at hs
        exact hbody x p ⟨rest, s.offset + p.width⟩ hs
      -- the rounds after this one
      have hafter : ∀ {p rest y v}, s.pieces = p :: rest →
          (body x p).Gives ⟨rest, s.offset + p.width⟩ (.inl y) v →
            (Scan.loop body atEnd y).TameAt v fun _ => True := by
        intro p rest y v hcons hv
        have hleft : v.pieces <:+ rest := hv.suffix
        have hlt := hleft.length_le
        rw [hcons] at hs hlength
        rw [List.length_cons] at hlength
        exact ih v.pieces.length (by omega) v (hs.tail.of_suffix hleft) rfl
      refine ⟨fun fault hfault => ?_, fun _ _ _ => trivial⟩
      rcases of_loop_eq_error hfault with ⟨-, hfault⟩ | ⟨p, rest, hcons, hfault⟩
      · exact (hend x s hs).1 fault hfault
      · rcases hfault with hfault | hfault | ⟨y, v, hv, hfault⟩
        · exact isMalformed_of_advance hfault
        · exact (hround hcons).1 fault hfault
        · exact (hafter hcons hv).1 fault hfault

end Tame

end Scan

end Lookahead.Pattern
