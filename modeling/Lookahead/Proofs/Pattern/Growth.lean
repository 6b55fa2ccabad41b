import Lookahead.Proofs.Pattern.Numbers

/-!
What a reading keeps. Groups are numbered one after another and never taken back, and a group that
has been asked for stays asked for. So what is known at the end, that there are so many groups and
that every group asked for is one of them, holds all the way (`Reading.Grows`).
-/

namespace Lookahead.Pattern

open Piece Scan

namespace Reading

/-- The one reading comes later than the other: it has no fewer groups and asks for no fewer. -/
structure Grows (r r₁ : Reading) : Prop where
  next : r.groups.next ≤ r₁.groups.next
  asked : ∀ a ∈ r.asked, a ∈ r₁.asked

namespace Grows

variable {r r₁ r₂ : Reading}

theorem of_eq (hnext : r₁.groups.next = r.groups.next) (hasked : r₁.asked = r.asked) :
    r.Grows r₁ :=
  ⟨Nat.le_of_eq hnext.symm, fun _ ha => hasked ▸ ha⟩

theorem refl (r : Reading) : r.Grows r := of_eq rfl rfl

theorem trans (h : r.Grows r₁) (h' : r₁.Grows r₂) : r.Grows r₂ :=
  ⟨Nat.le_trans h.next h'.next, fun a ha => h'.asked a (h.asked a ha)⟩

theorem pushTerm (r : Reading) (t : Term) : r.Grows (r.pushTerm t) := of_eq rfl rfl

theorem enter (r : Reading) (opening : Opening) (start : Nat) (verbose : Bool) :
    r.Grows (r.enter opening start verbose) := of_eq rfl rfl

theorem enterCapture (r : Reading) (start : Nat) : r.Grows (r.enterCapture start) :=
  ⟨Nat.le_succ _, fun _ ha => ha⟩

theorem bar (r : Reading) : r.Grows r.bar := by
  unfold Reading.bar
  split <;> exact of_eq rfl rfl

theorem leave (r : Reading) : r.Grows r.leave := by
  unfold Reading.leave
  split
  · exact refl r
  · dsimp only
    split
    · exact refl r
    · split <;> exact of_eq rfl rfl
    all_goals exact of_eq rfl rfl

end Grows

/-! ### Constructs -/

theorem ensures_repeatLast (r : Reading) (c : Char) (bounds : Scan (Option (Nat × Option Nat)))
    (offset : Nat) : (r.repeatLast c bounds offset).Ensures r.Grows := by
  refine .bind fun bounds? => ?_
  cases bounds? with
  | none => exact .pure (.pushTerm r _)
  | some counts => exact .bind fun x => .bind fun greed => .pure (.of_eq rfl rfl)

theorem ensures_enterNamed (r : Reading) (name : String) (start : Nat) :
    (r.enterNamed name start).Ensures r.Grows := by
  refine .ite (fun _ => .of_refuses (refuses_failBack _ _)) fun _ => ?_
  cases r.groups.names.lookup name with
  | some earlier => exact .of_refuses (refuses_failBack _ _)
  | none => exact .pure ⟨Nat.le_succ _, fun _ ha => ha⟩

theorem ensures_readNamed (r : Reading) (start : Nat) : (r.readNamed start).Ensures r.Grows := by
  refine .bind fun b => .ite (fun _ => .bind fun name => r.ensures_enterNamed name start) ?_
  refine fun _ => .bind fun b => .ite (fun _ => ?_) fun _ => .bind fun x => ?_
  · exact .bind fun name => .bind fun t => .pure (.pushTerm r t)
  · cases x <;> exact .of_refuses (refuses_failBack _ _)

theorem ensures_readBehind (r : Reading) (start : Nat) : (r.readBehind start).Ensures r.Grows := by
  refine .bind fun x => ?_
  split
  · exact .of_refuses (refuses_failBack _ _)
  · exact .pure (.of_eq rfl rfl)
  · exact .pure (.of_eq rfl rfl)
  · exact .of_refuses (refuses_failBack _ _)

theorem ensures_readCondition (r : Reading) (start : Nat) :
    (r.readCondition start).Ensures r.Grows := by
  intro s r₁ t h
  obtain ⟨taken, number, asked, -, -, -, -, -, rfl, hasked⟩ := gives_readCondition h
  refine ⟨Nat.le_refl _, fun a ha => ?_⟩
  split at hasked
  · rw [← hasked] at ha
    exact ha
  · exact hasked.kept a ha

theorem ensures_readModed (r : Reading) (first : Char) (start : Nat) :
    (r.readModed first start).Ensures r.Grows := by
  refine .bind fun modes => ?_
  split
  · exact .ite (fun _ => .pure (.of_eq rfl rfl)) fun _ => .of_refuses (refuses_failAt _ _)
  · exact .pure (.enter r _ _ _)

theorem ensures_readExtension (r : Reading) (start : Nat) :
    (r.readExtension start).Ensures r.Grows := by
  refine .bind fun x => ?_
  split
  · exact .of_refuses (refuses_failBack _ _)
  · exact r.ensures_readNamed start
  · exact .pure (.enter r _ _ _)
  · exact .bind fun _ => .pure (.refl r)
  · exact .pure (.enter r _ _ _)
  · exact .pure (.enter r _ _ _)
  · exact r.ensures_readBehind start
  · exact r.ensures_readCondition start
  · exact .pure (.enter r _ _ _)
  · split
    · refine .ite (fun _ => r.ensures_readModed _ start) fun _ => ?_
      exact .of_refuses (refuses_failBack _ _)
    · exact .of_refuses (refuses_failBack _ _)

theorem ensures_readParenthesis (r : Reading) (start : Nat) :
    (r.readParenthesis start).Ensures r.Grows :=
  .bind fun _ => .ite (fun _ => r.ensures_readExtension start) fun _ => .pure (.enterCapture r _)

/-- Whatever comes next, no group is taken back. -/
theorem ensures_next [Text.CharacterNames] (r : Reading) (p : Piece) (offset : Nat) :
    (r.next p offset).Ensures r.Grows := by
  refine .ite (fun _ => .pure (.bar r)) fun _ => .ite (fun _ => .pure (.leave r)) fun _ => ?_
  cases p with
  | dangling => exact .of_refuses (refuses_failAt _ _)
  | escaped c => exact .bind fun t => .pure (.pushTerm r t)
  | plain c =>
      refine .ite (fun _ => .pure (.refl r)) fun _ => .ite (fun _ => .bind fun _ => ?_) fun _ => ?_
      · exact .pure (.refl r)
      · split
        · exact r.ensures_repeatLast _ _ _
        · split
          · exact .bind fun t => .pure (.pushTerm r t)
          · exact r.ensures_readParenthesis offset
          all_goals exact .pure (.pushTerm r _)

end Reading

end Lookahead.Pattern
