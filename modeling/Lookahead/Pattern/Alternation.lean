import Lookahead.Pattern.Basic

/-!
Putting alternatives together. Alternatives that begin with the same character, set or place share
it, and alternatives that are each a single character or set are one set. Neither changes what is
matched in which order, except that a set treats letter case as sets do.
-/

namespace Lookahead.Pattern

namespace Term

/-- A term that matches in one way at most and keeps nothing, so that two equal ones are one. -/
def isPlain : Term → Bool
  | literal _ _ | any | set _ _ | place _ | backref _ _ => true
  | _ => false

/-- The term that all alternatives begin with, and the alternatives without it. -/
def sharedHead? (branches : List (List Term)) : Option (Term × List (List Term)) :=
  match branches with
  | (head :: _) :: _ =>
    if head.isPlain && branches.all (fun branch => branch.head? == some head) then
      some (head, branches.map List.tail)
    else none
  | _ => none

theorem length_of_sharedHead? {branches rest : List (List Term)} {head : Term}
    (h : sharedHead? branches = some (head, rest)) :
    rest.flatten.length < branches.flatten.length := by
  unfold sharedHead? at h
  split at h
  · split at h
    · simp only [Option.some.injEq, Prod.mk.injEq] at h
      obtain ⟨-, rfl⟩ := h
      rename_i tail others _
      have le : ∀ l : List (List Term),
          (l.map List.tail).flatten.length ≤ l.flatten.length := by
        intro l
        induction l with
        | nil => simp
        | cons b l ih =>
          simp only [List.map_cons, List.flatten_cons, List.length_append, List.length_tail]
          omega
      have := le others
      simp only [List.map_cons, List.flatten_cons, List.length_append, List.length_tail,
        List.length_cons]
      omega
    · cases h
  · cases h

/-- The members of a set that matches the same single characters as an alternative does. -/
def setMembers? : List Term → Option (List Member)
  | [literal false code] => some [.code code]
  | [set false members] => some members
  | _ => none

def branchTerm (branches : List (List Term)) : Term :=
  match branches.mapM setMembers? with
  | some members => set false members.flatten.eraseDups
  | none => choice (branches.map seq)

/-- The sequence of terms that several alternatives come to. -/
def alternation : List (List Term) → List Term
  | [branch] => branch
  | branches =>
    match _h : sharedHead? branches with
    | some (head, rest) => head :: alternation rest
    | none => [branchTerm branches]
termination_by branches => branches.flatten.length
decreasing_by exact length_of_sharedHead? _h

end Term

end Lookahead.Pattern
