import Lookahead.Pattern.Reading.OptionLetters
import Lookahead.Pattern.Reading.Reference
import Lookahead.Pattern.Reading.Repetition
import Lookahead.Proofs.Pattern.Alongside
import Lookahead.Proofs.Pattern.Shift
import Lookahead.Text.Identifier

/-!
What is read the same. Escapes, sets, bounds of repetitions and option letters have no group numbers
in them, so next to each other they come to the same on both sides, one after another by the rules
for scanners. Only a set needs a closer look: its pieces fit together as those of a set do, up to
the bracket that closes it.
-/

namespace Lookahead.Pattern

open Piece Scan

variable {k : Nat} {tail : Option (List Piece)} {pieces moved : List Piece} {inSet : Bool}
variable {α : Type} {excused : Prop}

/-! ### Characters that are ordinary -/

theorem ordinary_of_isAsciiDigit {c : Char} (h : isAsciiDigit c = true) : Ordinary c := by
  refine ⟨?_, ?_, ?_, ?_⟩ <;>
    · rintro rfl
      contradiction

theorem ordinary_of_isOctalDigit {c : Char} (h : isOctalDigit c = true) : Ordinary c :=
  ordinary_of_isAsciiDigit (isAsciiDigit_of_isOctalDigit h)

theorem ordinary_of_isHexDigit {c : Char} (h : isHexDigit c = true) : Ordinary c := by
  refine ⟨?_, ?_, ?_, ?_⟩ <;>
    · rintro rfl
      contradiction

theorem inName_of_isIdentifier {name : List Char} (h : Text.isIdentifier name = true) :
    ∀ c ∈ name, InName c := by
  have hpart : ∀ c, Text.isIdentifierPart c = true → InName c := by
    intro c hc
    refine ⟨⟨?_, ?_, ?_, ?_⟩, ?_⟩ <;>
      · rintro rfl
        revert hc
        decide +kernel
  intro c hc
  cases name with
  | nil => contradiction
  | cons d rest =>
      rw [Text.isIdentifier, Bool.and_eq_true, List.all_eq_true] at h
      rcases List.mem_cons.mp hc with rfl | hc
      · exact hpart c (by rw [Text.isIdentifierPart, h.1, Bool.true_or])
      · exact hpart c (h.2 c hc)

theorem inName_of_isNameChar {c : Char} (h : Text.isNameChar c = true) : InName c := by
  refine ⟨⟨?_, ?_, ?_, ?_⟩, ?_⟩ <;>
    · rintro rfl
      contradiction

theorem inName_of_find? [Text.CharacterNames] {name : String} {c : Char}
    (h : Text.CharacterNames.find? name = some c) : ∀ d ∈ name.toList, InName d :=
  fun d hd => inName_of_isNameChar (Text.CharacterNames.isNameChar_of_find? h d hd)

/-! ### Escapes -/

theorem refuses_failEscape (cause : String → Cause) (chars : List Char) :
    Refuses (failEscape cause chars : Scan α) := refuses_failBack _ _

theorem agree_hexEscape (letter : Char) (count : Nat) :
    Agree excused (Beside k tail inSet) (hexEscape letter count) (hexEscape letter count) := by
  refine (agree_takeUpTo (fun _ => ordinary_of_isHexDigit) count).bindSame fun digits => ?_
  refine .ite (fun _ => .of_refuses (refuses_failEscape _ _)) fun _ => ?_
  refine .ite (fun _ => .of_refuses (refuses_refuse _)) fun _ => ?_
  exact .ite (fun _ => .of_refuses (refuses_failEscape _ _)) fun _ => agree_pure _

/-- A character that has a name is given by it on both sides: no number is in the name that could be
moved. -/
theorem agree_namedEscape [Text.CharacterNames] :
    Agree excused (Beside k tail inSet) namedEscape namedEscape := by
  have hbrace : Ordinary '}' := by decide
  refine (agree_accept (by decide)).bindSame fun b => .ite (fun _ => ?_) fun _ => ?_
  · refine .takeUntilBind (hbrace.stays inSet) (fun name hnot => ?_) fun name => ?_
    · cases hname : Text.CharacterNames.find? name with
      | none => exact refuses_failBack _ _
      | some c => exact absurd (inName_of_find? hname) hnot
    · cases Text.CharacterNames.find? name with
      | none => exact .of_refuses (refuses_failBack _ _)
      | some c => exact agree_pure _
  · exact .of_refuses (refuses_failBack _ _)

theorem agree_announcedCode [Text.CharacterNames] (letter : Char) :
    Agree excused (Beside k tail inSet) (announcedCode letter) (announcedCode letter) := by
  unfold announcedCode
  cases hexEscapeLength? letter with
  | some count => exact (agree_hexEscape letter count).bindSame fun code => agree_pure _
  | none =>
      exact .ite (fun _ => agree_namedEscape.bindSame fun code => agree_pure _)
        fun _ => agree_pure _

theorem agree_selfEscape (c : Char) :
    Agree excused (Beside k tail inSet) (selfEscape c) (selfEscape c) :=
  .ite (fun _ => .of_refuses (refuses_failEscape _ _)) fun _ => agree_pure _

theorem agree_octalInSet (first : Char) :
    Agree excused (Beside k tail inSet) (octalInSet first) (octalInSet first) := by
  refine (agree_takeUpTo (fun _ => ordinary_of_isOctalDigit) 2).bindSame fun digits => ?_
  exact .ite (fun _ => .of_refuses (refuses_failEscape _ _)) fun _ => agree_pure _

theorem agree_setEscape [Text.CharacterNames] (c : Char) :
    Agree excused (Beside k tail inSet) (setEscape c) (setEscape c) := by
  unfold setEscape
  refine .ite (fun _ => agree_pure _) fun _ => ?_
  cases controlCode? c with
  | some code => exact agree_pure _
  | none =>
      cases kind? c with
      | some member => exact agree_pure _
      | none =>
          refine (agree_announcedCode c).bindSame fun code? => ?_
          cases code? with
          | some code => exact agree_pure _
          | none =>
              refine .ite (fun _ => ?_) fun _ => ?_
              · exact (agree_octalInSet c).bindSame fun code => agree_pure _
              · exact (agree_selfEscape c).bindSame fun code => agree_pure _

theorem agree_setMember [Text.CharacterNames] (p : Piece) :
    Agree excused (Beside k tail inSet) (setMember p) (setMember p) := by
  cases p with
  | plain c => exact agree_pure _
  | escaped c => exact agree_setEscape c
  | dangling => exact agree_pure _

/-! ### Sets -/

/-- Inside a set every piece stays, and only the closing bracket ends it. -/
theorem Beside.step_set {p : Piece} (h : Beside k tail true (p :: pieces) moved)
    (hhead : pieces.head? ≠ some dangling) :
    ∃ others, moved = p :: others ∧ Beside k tail (p ≠ plain ']') pieces others := by
  have hdangling := h.head
  cases h.moved with
  | dangling => simp at hdangling
  | member hp _ hrest => exact ⟨_, rfl, by simpa [hp] using hrest, hhead⟩
  | closed hrest => exact ⟨_, rfl, by simpa using hrest, hhead⟩

/-- The members so far, and whether the set goes on. -/
def SetRest (k : Nat) (tail : Option (List Piece)) (o o' : List Member ⊕ List Member) : Fit :=
  fun p p' => o = o' ∧ match o with
    | .inl done => done ≠ [] ∧ Beside k tail true p p'
    | .inr _ => Beside k tail false p p'

theorem alongside_rangeTail [Text.CharacterNames] (start start' : Nat) (done : List Member)
    (this : Piece) (first : Member) :
    Alongside excused (Beside k tail true) (rangeTail start done this first)
      (rangeTail start' done this first) (SetRest k tail) := by
  refine .takeSame (fun that => Beside k tail (that ≠ plain ']')) ?_ ?_ fun that => ?_
  · intro that rest p' hbeside hhead
    obtain ⟨others, rfl, hothers⟩ := hbeside.step_set hhead
    exact .inr ⟨others, rfl, hothers.head_moved, hothers⟩
  · exact fun _ => refuses_failAt _ _
  · refine .ite (fun hclose => .pure fun h => ⟨rfl, ?_⟩) fun hclose => ?_
    · simpa [hclose] using h
    · refine (agree_setMember that).bindSame fun last => ?_
      split
      · refine .ite (fun _ => .of_refuses (refuses_failBack _ _)) fun _ => ?_
        exact .pure fun h => ⟨rfl, by simp, by simpa [hclose] using h⟩
      · exact .of_refuses (refuses_failBack _ _)

/-- The start of a set, where a closing bracket is a member. -/
def FirstMember (k : Nat) (tail : Option (List Piece)) : Fit := fun p p' =>
  (Beside k tail true p p' ∧ p.head? ≠ some (plain ']')) ∨
    ∃ q q', p = plain ']' :: q ∧ p' = plain ']' :: q' ∧ Moved k tail true q q'

theorem FirstMember.head_moved (h : FirstMember k tail pieces moved) :
    moved.head? ≠ some dangling := by
  rcases h with ⟨hbeside, -⟩ | ⟨q, q', -, rfl, -⟩
  · exact hbeside.head_moved
  · simp

theorem alongside_member [Text.CharacterNames] (start start' : Nat) (done : List Member)
    (this : Piece) :
    Alongside excused (Beside k tail true)
      (do
        let member ← setMember this
        if ← accept '-' then rangeTail start done this member
        else pure (.inl (member :: done)))
      (do
        let member ← setMember this
        if ← accept '-' then rangeTail start' done this member
        else pure (.inl (member :: done))) (SetRest k tail) := by
  refine (agree_setMember this).bindSame fun member => ?_
  refine (agree_accept (by decide)).bindSame fun b => ?_
  refine .ite (fun _ => alongside_rangeTail start start' done this member) fun _ => ?_
  exact .pure fun h => ⟨rfl, by simp, h⟩

def SetOpen (k : Nat) (tail : Option (List Piece)) (done done' : List Member) : Fit := fun p p' =>
  done = done' ∧
    (done ≠ [] ∧ Beside k tail true p p' ∨ done = [] ∧ FirstMember k tail p p')

theorem SetOpen.next {done done' : List Member} {p : Piece}
    (h : SetOpen k tail done done' (p :: pieces) moved) (hhead : pieces.head? ≠ some dangling) :
    ∃ others, moved = p :: others ∧
      ((p = plain ']' ∧ done ≠ [] ∧ Beside k tail false pieces others) ∨
        (¬ (p = plain ']' ∧ done ≠ []) ∧ Beside k tail true pieces others)) := by
  obtain ⟨-, ⟨hne, hbeside⟩ | ⟨rfl, ⟨hbeside, hfirst⟩ | ⟨q, q', hq, rfl, hmoved⟩⟩⟩ := h
  · obtain ⟨others, rfl, hothers⟩ := hbeside.step_set hhead
    by_cases hclose : p = plain ']'
    · exact ⟨others, rfl, .inl ⟨hclose, hne, by simpa [hclose] using hothers⟩⟩
    · exact ⟨others, rfl, .inr ⟨fun h => hclose h.1, by simpa [hclose] using hothers⟩⟩
  · obtain ⟨others, rfl, hothers⟩ := hbeside.step_set hhead
    have hclose : p ≠ plain ']' := by simpa using hfirst
    exact ⟨others, rfl, .inr ⟨fun h => hclose h.1, by simpa [hclose] using hothers⟩⟩
  · obtain ⟨rfl, rfl⟩ := List.cons.inj hq
    exact ⟨q', rfl, .inr ⟨fun h => h.2 rfl, hmoved, hhead⟩⟩

theorem alongside_setMembers [Text.CharacterNames] (start start' : Nat) :
    Alongside excused (FirstMember k tail) (setMembers start) (setMembers start')
      fun done done' p p' => done = done' ∧ Beside k tail false p p' := by
  have hloop : Alongside excused (SetOpen k tail [] []) (setMembers start) (setMembers start')
      fun done done' p p' => done = done' ∧ Beside k tail false p p' := by
    refine .loop (SetOpen k tail) ?_ fun _ => refuses_failAt _ _
    intro done done' p rest p' hopen hhead
    obtain ⟨others, rfl, hnext⟩ := hopen.next hhead
    obtain rfl := hopen.1
    rcases hnext with ⟨hclose, hne, hbeside⟩ | ⟨hmember, hbeside⟩
    · refine .inr ⟨p, others, rfl, hbeside.head_moved, ?_⟩
      rw [if_pos ⟨hclose, hne⟩, if_pos ⟨hclose, hne⟩]
      refine .pure fun h => .inl ⟨done, done, rfl, rfl, rfl, ?_⟩
      rw [h.1, h.2]
      exact hbeside
    · refine .inr ⟨p, others, rfl, hbeside.head_moved, ?_⟩
      rw [if_neg hmember, if_neg hmember]
      have hround : Alongside excused (Beside k tail true) _ _ (SetRest k tail) :=
        alongside_member start start' done p
      refine hround.mono (fun h => ?_) fun {o o' r r'} h => ?_
      · rw [h.1, h.2]
        exact hbeside
      · obtain ⟨rfl, h⟩ := h
        cases o with
        | inl done => exact .inr ⟨done, done, rfl, rfl, rfl, .inl h⟩
        | inr done => exact .inl ⟨done, done, rfl, rfl, rfl, h⟩
  exact hloop.mono (fun h => ⟨rfl, .inr ⟨rfl, h⟩⟩) fun h => h

def SetStart (k : Nat) (tail : Option (List Piece)) : Fit := fun p p' =>
  p.head? ≠ some dangling ∧ ∃ marks moved, setStart p = '[' :: marks ∧
    p' = marks.map plain ++ moved ∧ Moved k tail true (p.drop marks.length) moved

/-- A caret comes next on both sides or on none, and then the members. -/
theorem SetStart.caret_or (h : SetStart k tail pieces moved) :
    (∃ q q', pieces = plain '^' :: q ∧ moved = plain '^' :: q' ∧
        (q.head? ≠ some dangling → FirstMember k tail q q')) ∨
      (pieces.head? ≠ some (plain '^') ∧ moved.head? ≠ some (plain '^') ∧
        FirstMember k tail pieces moved) := by
  obtain ⟨hhead, marks, others, hmarks, rfl, hmoved⟩ := h
  unfold setStart at hmarks
  split at hmarks
  · cases hmarks
    exact .inl ⟨_, _, rfl, rfl, fun _ => .inr ⟨_, others, rfl, rfl, hmoved⟩⟩
  · rename_i q hnot
    cases hmarks
    refine .inl ⟨q, others, rfl, rfl, fun hq => .inl ⟨⟨hmoved, hq⟩, fun hclose => ?_⟩⟩
    obtain ⟨rest, rfl⟩ := List.head?_eq_some_iff.mp hclose
    exact hnot rest rfl
  · cases hmarks
    exact .inr ⟨by simp, by simp, .inr ⟨_, others, rfl, rfl, hmoved⟩⟩
  · rename_i hcaret' hcaret hclose
    cases hmarks
    have hbeside : Beside k tail true pieces others := ⟨hmoved, hhead⟩
    have hne : pieces.head? ≠ some (plain '^') := by
      intro h
      obtain ⟨rest, rfl⟩ := List.head?_eq_some_iff.mp h
      exact hcaret rest rfl
    refine .inr ⟨hne, fun h => hne ((hbeside.head_eq_iff (by decide)).mp h), .inl ⟨hbeside, ?_⟩⟩
    intro h
    obtain ⟨rest, rfl⟩ := List.head?_eq_some_iff.mp h
    exact hclose rest rfl

theorem SetStart.head_moved (h : SetStart k tail pieces moved) : moved.head? ≠ some dangling := by
  rcases h.caret_or with ⟨q, q', -, rfl, -⟩ | ⟨-, -, hfirst⟩
  · simp
  · exact hfirst.head_moved

theorem alongside_caret :
    Alongside excused (SetStart k tail) (accept '^') (accept '^') fun b b' p p' =>
      b = b' ∧ FirstMember k tail p p' := by
  intro s s' t b hstart hm
  rcases hstart.caret_or with ⟨q, q', hs, hs', hfirst⟩ | ⟨hs, hs', hfirst⟩
  · rcases gives_accept hm with ⟨rfl, heq, hhead⟩ | ⟨rfl, hne, -⟩
    · rw [hs, List.cons.injEq] at heq
      obtain ⟨-, rfl⟩ := heq
      have hmembers := hfirst hhead
      exact .inl ⟨true, _, gives_accept_true hs' hmembers.head_moved, rfl, hmembers⟩
    · exact absurd (by rw [hs, List.head?_cons]) hne
  · rcases gives_accept hm with ⟨rfl, heq, -⟩ | ⟨rfl, -, rfl⟩
    · exact absurd (by rw [heq, List.head?_cons]) hs
    · exact .inl ⟨false, s', gives_accept_false hs', rfl, hfirst⟩

/-- A set is the same set on both sides, and has no numbers in it. -/
theorem alongside_readSet [Text.CharacterNames] (start start' : Nat) :
    Alongside excused (SetStart k tail) (readSet start) (readSet start') fun t t' p p' =>
      t' = t.shift k ∧ Beside k tail false p p' := by
  refine alongside_caret.bindSame fun negated => ?_
  refine (alongside_setMembers start start').bindSame fun done => ?_
  dsimp only
  split
  · exact .pure fun h => ⟨rfl, h⟩
  · exact .pure fun h => ⟨rfl, h⟩

/-! ### Escapes outside of sets -/

theorem eq_zero_of_isAsciiDigit {c : Char} (h : isAsciiDigit c = true)
    (hc : startsReference c = false) : c = '0' := by
  obtain ⟨hlow, hhigh⟩ := toNat_of_isAsciiDigit h
  have hnot : ¬ (49 ≤ c.toNat ∧ c.toNat ≤ 57) := by
    rintro ⟨hone, hnine⟩
    have hstarts : startsReference c = true := by
      rw [startsReference, Bool.and_eq_true, decide_eq_true_eq, decide_eq_true_eq]
      exact ⟨hone, hnine⟩
    rw [hc] at hstarts
    contradiction
  apply Char.toNat_inj.mp
  change c.toNat = 48
  omega

theorem alongside_termEscape [Text.CharacterNames] (r r' : Reading) {c : Char}
    (hc : startsReference c = false) :
    Alongside excused (Beside k tail false) (r.termEscape c) (r'.termEscape c) fun t t' p p' =>
      t' = t.shift k ∧ Beside k tail false p p' := by
  unfold Reading.termEscape
  split
  · exact .pure fun h => ⟨rfl, h⟩
  · exact .pure fun h => ⟨rfl, h⟩
  · exact .pure fun h => ⟨rfl, h⟩
  · refine (agree_announcedCode c).bindSame fun code? => ?_
    cases code? with
    | some code => exact .pure fun h => ⟨rfl, h⟩
    | none =>
        refine .ite (fun _ => ?_) fun hzero => .ite (fun hdigit => ?_) fun _ => ?_
        · exact (agree_takeUpTo (fun _ => ordinary_of_isOctalDigit) 2).bindSame fun digits =>
            .pure fun h => ⟨rfl, h⟩
        · exact absurd (eq_zero_of_isAsciiDigit hdigit hc) hzero
        · exact (agree_selfEscape c).bindSame fun code => .pure fun h => ⟨rfl, h⟩

/-! ### Repetitions -/

theorem agree_roundCount {fit : Fit} (digits : List Char) :
    Agree excused fit (Reading.roundCount digits) (Reading.roundCount digits) := by
  refine .ite (fun _ => .of_refuses (refuses_refuse _)) fun _ => ?_
  exact .ite (fun _ => .of_refuses (refuses_refuse _)) fun _ => agree_pure _

theorem agree_braceBounds :
    Agree excused (Beside k tail inSet) Reading.braceBounds Reading.braceBounds := by
  refine alongside_offset.bind fun start start' => ?_
  refine (Agree.attempt ?_).bindSame fun bounds? => ?_
  · refine (alongside_peek (c := '}') (by decide)).bind fun next next' => ?_
    refine .iteIff And.left (.pure fun h => ⟨rfl, h.2⟩) (.mono ?_ And.right fun h => h)
    refine (agree_takeWhile fun _ => ordinary_of_isAsciiDigit).bindSame fun lo => ?_
    refine (agree_accept (by decide)).bindSame fun comma => ?_
    refine .join (fun _ => agree_takeWhile fun _ => ordinary_of_isAsciiDigit)
      (fun _ => agree_pure _) fun hi => ?_
    refine (agree_accept (by decide)).bindSame fun closed => ?_
    exact .ite (fun _ => agree_pure _) fun _ => agree_pure _
  · cases bounds? with
    | none => exact agree_pure _
    | some bounds =>
        obtain ⟨lo, hi⟩ := bounds
        refine .join (fun _ => agree_pure _) (fun _ => agree_roundCount lo) fun least => ?_
        refine .ite (fun _ => agree_pure _) fun _ => ?_
        refine (agree_roundCount hi).bindSame fun most => ?_
        by_cases hlt : most < least
        · rw [if_pos hlt]
          exact .of_refuses (refuses_failAt _ _)
        · rw [if_neg hlt, if_neg hlt]
          exact agree_pure _

theorem agree_repeatGreed :
    Agree excused (Beside k tail inSet) Reading.repeatGreed Reading.repeatGreed := by
  refine (agree_accept (by decide)).bindSame fun lazy => ?_
  refine .ite (fun _ => agree_pure _) fun _ => ?_
  refine (agree_accept (by decide)).bindSame fun possessive => ?_
  exact .ite (fun _ => agree_pure _) fun _ => agree_pure _

/-! ### Option letters -/

theorem agree_loop {σ : Type} {body body' : σ → Piece → Scan (σ ⊕ α)} {atEnd atEnd' : σ → Scan α}
    (hbody : ∀ x c, Stays false c →
      Agree excused (Beside k tail false) (body x (plain c)) (body' x (plain c)))
    (hother : ∀ x p, (∀ c, Stays false c → p ≠ plain c) → Refuses (body x p))
    (hend : ∀ x, Refuses (atEnd x)) (x : σ) :
    Agree excused (Beside k tail false) (loop body atEnd x) (loop body' atEnd' x) := by
  refine Alongside.mono (Alongside.loop (fun x y p p' => x = y ∧ Beside k tail false p p') ?_ ?_)
    (fun h => ⟨rfl, h⟩) fun h => h
  · rintro x y p rest p' ⟨rfl, hbeside⟩ hhead
    by_cases hp : ∃ c, Stays false c ∧ p = plain c
    · obtain ⟨c, hc, rfl⟩ := hp
      obtain ⟨others, rfl, hothers⟩ := hbeside.step hc hhead
      refine .inr ⟨plain c, others, rfl, hothers.head_moved,
        (hbody x c hc).mono (fun h => ?_) fun {o o' r r'} h => ?_⟩
      · rw [h.1, h.2]
        exact hothers
      · obtain ⟨rfl, h⟩ := h
        cases o with
        | inl y => exact .inr ⟨y, y, rfl, rfl, rfl, h⟩
        | inr a => exact .inl ⟨a, a, rfl, rfl, rfl, h⟩
    · exact .inl (hother x p fun c hc h => hp ⟨c, hc, h⟩)
  · exact fun _ => hend _

theorem refuses_failMode (p : Piece) (what : String) :
    Refuses (Reading.failMode p what : Scan α) := by
  unfold Reading.failMode
  split <;> exact refuses_failBack _ _

theorem agree_turnOn (on : Modes) (c : Char) (what : String) {fit : Fit} :
    Agree excused fit (Reading.turnOn on c what) (Reading.turnOn on c what) := by
  refine .ite (fun _ => .of_refuses (refuses_failBack _ _)) fun _ => ?_
  cases Modes.ofLetter? c with
  | none => exact .of_refuses (refuses_failMode _ _)
  | some mode => exact .ite (fun _ => .of_refuses (refuses_failBack _ _)) fun _ => agree_pure _

theorem eq_of_not_stays {c : Char} (hc : ¬ Stays false c) : c = '(' ∨ c = '[' := by
  by_contra hne
  rw [not_or] at hne
  exact hc hne

theorem refuses_turnOn (on : Modes) {c : Char} (what : String) (hc : ¬ Stays false c) :
    Refuses (Reading.turnOn on c what) := by
  have hletter : c ≠ 'L' ∧ Modes.ofLetter? c = none := by
    rcases eq_of_not_stays hc with rfl | rfl <;> decide
  rw [Reading.turnOn, if_neg hletter.1, hletter.2]
  exact refuses_failMode _ _

theorem agree_modesOn (first : Char) :
    Agree excused (Beside k tail false) (Reading.modesOn first) (Reading.modesOn first) := by
  refine (agree_turnOn _ _ _).bindSame fun on => ?_
  refine agree_loop ?_ ?_ (fun _ => refuses_failBack _ _) on
  · intro on c _
    refine .ite (fun _ => agree_pure _) fun _ => ?_
    exact (agree_turnOn _ _ _).bindSame fun on => agree_pure _
  · intro on p hp
    cases p with
    | plain c =>
        have hc : ¬ Stays false c := fun hc => hp c hc rfl
        rcases eq_of_not_stays hc with rfl | rfl <;> exact (refuses_turnOn on _ hc).bind _
    | escaped c => exact refuses_failMode _ _
    | dangling => exact refuses_failMode _ _

theorem agree_modesOff :
    Agree excused (Beside k tail false) Reading.modesOff Reading.modesOff := by
  refine agree_loop ?_ ?_ (fun _ => refuses_failBack _ _) _
  · rintro ⟨first, off⟩ c _
    refine .ite (fun _ => agree_pure _) fun _ => ?_
    refine .ite (fun _ => .of_refuses (refuses_failBack _ _)) fun _ => ?_
    split
    · exact agree_pure _
    · exact .of_refuses (refuses_failMode _ _)
  · rintro ⟨first, off⟩ p hp
    cases p with
    | plain c =>
        have hc : ¬ Stays false c := fun hc => hp c hc rfl
        have hletter : c ≠ ':' ∧ ¬ (c = 'a' ∨ c = 'u' ∨ c = 'L') ∧ Modes.ofLetter? c = none := by
          rcases eq_of_not_stays hc with rfl | rfl <;> decide
        simp only [hletter, decide_false, Bool.and_false, Bool.false_eq_true, if_false]
        exact refuses_failMode _ _
    | escaped c => exact refuses_failMode _ _
    | dangling => exact refuses_failMode _ _

theorem agree_readModes (first : Char) :
    Agree excused (Beside k tail false) (Reading.readModes first) (Reading.readModes first) := by
  refine .join (fun _ => agree_pure _) (fun _ => agree_modesOn first) fun on => ?_
  obtain ⟨on, mark⟩ := on
  refine .ite (fun _ => agree_pure _) fun _ => ?_
  refine .ite (fun _ => .of_refuses (refuses_failBack _ _)) fun _ => ?_
  refine .join (fun _ => agree_modesOff) (fun _ => agree_pure _) fun off => ?_
  refine .ite (fun _ => .of_refuses (refuses_failBack _ _)) fun _ => ?_
  exact .ite (fun _ => .of_refuses (refuses_failBack _ _)) fun _ => agree_pure _

end Lookahead.Pattern
