import Lookahead.Proofs.Pattern.Renumbering

/-!
The pieces of a renumbered pattern, next to the pieces that it had before. Renumbering works on
pieces but writes a text, which is cut again when the combined pattern is read. `Moved` says which
pieces come of that, piece by piece: most stay, a reference becomes a reference in parentheses, and
a condition asks for another number. After the last one comes the closing parenthesis of the group
that is put around the pattern, and the rest of the combined pattern.

A lone backslash and what follows it are nobody's business: a pattern that has one is faulty, and is
refused before the backslash is taken (`Beside`).
-/

namespace Lookahead.Pattern

namespace Piece

theorem cut_cons_of_ne {c : Char} (h : c ≠ '\\') (text : List Char) :
    cut (c :: text) = plain c :: cut text := by
  rw [cut]
  · simp [h]
  · simp [h]

@[simp] theorem cut_escape (c : Char) (text : List Char) :
    cut ('\\' :: c :: text) = escaped c :: cut text := by
  rw [cut]

theorem cut_append_of_forall {chars : List Char} (h : ∀ c ∈ chars, c ≠ '\\') (text : List Char) :
    cut (chars ++ text) = chars.map plain ++ cut text := by
  induction chars with
  | nil => rfl
  | cons c rest ih =>
      obtain ⟨hc, hrest⟩ := List.forall_mem_cons.mp h
      rw [List.cons_append, cut_cons_of_ne hc, ih hrest]
      rfl

theorem plain_backslash_not_mem_cut (text : List Char) : plain '\\' ∉ cut text := by
  fun_induction cut text with
  | case1 => simp
  | case2 => simp
  | case3 c rest ih => simpa using ih
  | case4 c rest h₁ h₂ ih =>
      have hc : c ≠ '\\' := by
        rintro rfl
        cases rest with
        | nil => exact h₁ rfl rfl
        | cons d rest => exact h₂ d rest rfl rfl
      simpa [hc.symm] using ih

end Piece

open Piece

theorem ne_backslash_of_isAsciiDigit {d : Char} (h : isAsciiDigit d = true) : d ≠ '\\' := by
  rintro rfl
  contradiction

theorem cut_numeral (n : Nat) (text : List Char) :
    cut (numeral n ++ text) = (numeral n).map plain ++ cut text :=
  cut_append_of_forall
    (fun _ hd => ne_backslash_of_isAsciiDigit (isAsciiDigit_of_mem_numeral hd)) text

/-! ### Pieces and what becomes of them -/

/-- Pieces, and the pieces that they become when the numbers in them are moved up and the whole is
put into a group. `after` is what follows the group, and `inSet` says that the pieces start inside
of a set. If there is a number that cannot be written when it is moved, the pieces end before it and
nothing follows. -/
inductive Moved (k : Nat) (after : Option (List Piece)) : Bool → List Piece → List Piece → Prop
  | done (inSet : Bool) {rest : List Piece} (hafter : after = some rest) :
      Moved k after inSet [] (plain ')' :: rest)
  | dangling (inSet : Bool) (pieces moved : List Piece) :
      Moved k after inSet (dangling :: pieces) moved
  | plain {c : Char} {pieces moved : List Piece} (hparen : c ≠ '(') (hbracket : c ≠ '[')
      (hrest : Moved k after false pieces moved) :
      Moved k after false (plain c :: pieces) (plain c :: moved)
  | escaped {c : Char} {pieces moved : List Piece} (hc : startsReference c = false)
      (hrest : Moved k after false pieces moved) :
      Moved k after false (escaped c :: pieces) (escaped c :: moved)
  | octal {c : Char} {pieces moved : List Piece} (hc : startsReference c = true)
      (hlength : (referenceTail c pieces).length = 2)
      (hrest : Moved k after false (pieces.drop 2) moved) :
      Moved k after false (escaped c :: pieces)
        (escaped c :: ((referenceTail c pieces).map plain ++ moved))
  | reference {c d : Char} {digits : List Char} {pieces moved : List Piece}
      (hc : startsReference c = true) (hlength : (referenceTail c pieces).length ≠ 2)
      (hle : Text.decimalValue (c :: referenceTail c pieces) + k ≤ 99)
      (hnumeral : numeral (Text.decimalValue (c :: referenceTail c pieces) + k) = d :: digits)
      (hrest : Moved k after false (pieces.drop (referenceTail c pieces).length) moved) :
      Moved k after false (escaped c :: pieces)
        (plain '(' :: plain '?' :: plain ':' :: escaped d ::
          (digits.map plain ++ plain ')' :: moved))
  | largeReference {c : Char} {pieces : List Piece} (hafter : after = none)
      (hc : startsReference c = true) (hlength : (referenceTail c pieces).length ≠ 2)
      (hgt : 99 < Text.decimalValue (c :: referenceTail c pieces) + k) :
      Moved k after false (escaped c :: pieces) []
  | opened {pieces moved : List Piece} (hopen : pieces.take 2 ≠ [plain '?', plain '('])
      (hrest : Moved k after false pieces moved) :
      Moved k after false (plain '(' :: pieces) (plain '(' :: moved)
  | condition {pieces moved : List Piece} (hne : conditionDigits pieces ≠ [])
      (hclose : (pieces.drop (conditionDigits pieces).length).head? = some (plain ')'))
      (hrest : Moved k after false (pieces.drop (conditionDigits pieces).length) moved) :
      Moved k after false (plain '(' :: plain '?' :: plain '(' :: pieces)
        (plain '(' :: plain '?' :: plain '(' ::
          ((numeral (Text.decimalValue (conditionDigits pieces) + k)).map plain ++ moved))
  | largeCondition {pieces : List Piece} {fault : RenumberFault} (hafter : after = none)
      (hclose : (pieces.drop (conditionDigits pieces).length).head? = some (plain ')'))
      (hfault : writeCondition (conditionDigits pieces) k = .error fault) :
      Moved k after false (plain '(' :: plain '?' :: plain '(' :: pieces) []
  | named {pieces moved : List Piece}
      (hother : ¬ (conditionDigits pieces ≠ [] ∧
        (pieces.drop (conditionDigits pieces).length).head? = some (plain ')')))
      (hrest : Moved k after false (pieces.drop (conditionDigits pieces).length) moved) :
      Moved k after false (plain '(' :: plain '?' :: plain '(' :: pieces)
        (plain '(' :: plain '?' :: plain '(' :: ((conditionDigits pieces).map plain ++ moved))
  | bracket {marks : List Char} {pieces moved : List Piece}
      (hmarks : setStart pieces = '[' :: marks)
      (hrest : Moved k after true (pieces.drop marks.length) moved) :
      Moved k after false (plain '[' :: pieces) (plain '[' :: (marks.map plain ++ moved))
  | member {p : Piece} {pieces moved : List Piece} (hp : p ≠ plain ']') (hp' : p ≠ dangling)
      (hrest : Moved k after true pieces moved) : Moved k after true (p :: pieces) (p :: moved)
  | closed {pieces moved : List Piece} (hrest : Moved k after false pieces moved) :
      Moved k after true (plain ']' :: pieces) (plain ']' :: moved)

/-! ### Renumbering -/

variable {k : Nat} {after : Option (List Piece)} {pieces : List Piece} {inSet : Bool}

/-- What a turn of renumbering writes is cut into the moved pieces, if the rest is. -/
theorem Turns.moved {written text : List Char} {rest : List Piece} {inSet' : Bool}
    (h : Turns k inSet pieces (.ok written) inSet' rest) (hpieces : Piece.plain '\\' ∉ pieces)
    (hrest : Moved k after inSet' rest (cut text)) :
    Moved k after inSet pieces (cut (written ++ text)) := by
  have hne : ∀ {c : Char} {others : List Piece}, pieces = Piece.plain c :: others → c ≠ '\\' := by
    rintro c others rfl rfl
    exact hpieces List.mem_cons_self
  generalize houtcome : Except.ok written = outcome at h
  cases h with
  | dangling => exact .dangling _ _ _
  | escaped hc =>
      cases houtcome
      rw [List.cons_append, List.cons_append, List.nil_append, cut_escape]
      cases inSet with
      | true => exact .member (by simp) (by simp) hrest
      | false => exact .escaped (by simpa using hc) hrest
  | @octal c others hc hlength =>
      cases houtcome
      have htail : ∀ d ∈ referenceTail c others, d ≠ '\\' := fun d hd =>
        ne_backslash_of_isAsciiDigit (of_mem_referenceTail hd)
      rw [List.cons_append, List.cons_append, cut_escape, cut_append_of_forall htail]
      rw [hlength] at hrest
      exact .octal hc hlength hrest
  | @reference c others outcome hc hlength hwritten =>
      obtain ⟨hle, rfl⟩ := writeReference_eq_ok (hwritten.trans houtcome.symm)
      obtain ⟨d, digits, hnumeral⟩ := List.exists_cons_of_ne_nil
        (numeral_ne_nil (Text.decimalValue (c :: referenceTail c others) + k))
      have hdigits : ∀ e ∈ digits, e ≠ '\\' := fun e he =>
        ne_backslash_of_isAsciiDigit
          (isAsciiDigit_of_mem_numeral (hnumeral ▸ List.mem_cons_of_mem _ he))
      have hcut : cut ("(?:\\".toList ++ d :: digits ++ [')'] ++ text) =
          Piece.plain '(' :: Piece.plain '?' :: Piece.plain ':' :: Piece.escaped d ::
            (digits.map Piece.plain ++ Piece.plain ')' :: cut text) := by
        rw [← cut_cons_of_ne (by decide), ← cut_append_of_forall hdigits, ← cut_escape,
          ← cut_cons_of_ne (by decide), ← cut_cons_of_ne (by decide),
          ← cut_cons_of_ne (by decide)]
        simp
      rw [hnumeral, hcut]
      exact .reference hc hlength hle hnumeral hrest
  | member c =>
      cases houtcome
      rw [List.cons_append, List.nil_append, cut_cons_of_ne (hne rfl)]
      by_cases hclose : c = ']'
      · subst hclose
        exact .closed hrest
      · rw [bne_iff_ne.mpr hclose] at hrest
        exact .member (by simpa using hclose) (by simp) hrest
  | @bracket marks others hmarks =>
      cases houtcome
      obtain ⟨marks', hmarks', hplain⟩ := exists_marks others
      obtain rfl : marks' = marks := by simpa using hmarks'.symm.trans hmarks
      rw [List.cons_append, cut_cons_of_ne (by decide), cut_append_of_forall hplain]
      exact .bracket hmarks hrest
  | @condition others outcome hdigits hclose hwritten =>
      obtain rfl := writeCondition_eq_ok (hwritten.trans houtcome.symm)
      have hcut : cut ("(?(".toList ++ numeral (Text.decimalValue (conditionDigits others) + k) ++
          text) = Piece.plain '(' :: Piece.plain '?' :: Piece.plain '(' ::
            ((numeral (Text.decimalValue (conditionDigits others) + k)).map Piece.plain ++
              cut text) := by
        rw [← cut_numeral, ← cut_cons_of_ne (by decide), ← cut_cons_of_ne (by decide),
          ← cut_cons_of_ne (by decide)]
        simp
      rw [hcut]
      exact .condition hdigits hclose hrest
  | @named others hother =>
      cases houtcome
      have hplain : ∀ d ∈ conditionDigits others, d ≠ '\\' := fun d hd =>
        ne_backslash_of_isAsciiDigit (of_mem_leadingDigits hd)
      have hcut : cut ("(?(".toList ++ conditionDigits others ++ text) =
          Piece.plain '(' :: Piece.plain '?' :: Piece.plain '(' ::
            ((conditionDigits others).map Piece.plain ++ cut text) := by
        rw [← cut_append_of_forall hplain, ← cut_cons_of_ne (by decide),
          ← cut_cons_of_ne (by decide), ← cut_cons_of_ne (by decide)]
        simp
      rw [hcut]
      exact .named hother hrest
  | @plain c others hbracket hopen =>
      cases houtcome
      rw [List.cons_append, List.nil_append, cut_cons_of_ne (hne rfl)]
      by_cases hparen : c = '('
      · subst hparen
        exact .opened (fun hnext => hopen ⟨rfl, hnext⟩) hrest
      · exact .plain hparen hbracket hrest

theorem Turns.moved_of_error {fault : RenumberFault} {rest : List Piece} {inSet' : Bool}
    (h : Turns k inSet pieces (.error fault) inSet' rest) : Moved k none inSet pieces [] := by
  generalize houtcome : Except.error fault = outcome at h
  cases h with
  | dangling | escaped | octal | member | bracket | named | plain => contradiction
  | reference hc hlength hwritten =>
      obtain ⟨hgt, -⟩ := writeReference_eq_error (hwritten.trans houtcome.symm)
      exact .largeReference rfl hc hlength hgt
  | condition _ hclose hwritten =>
      exact .largeCondition rfl hclose (hwritten.trans houtcome.symm)

theorem Renumbers.moved {text : List Char} (h : Renumbers k inSet pieces text)
    (hpieces : plain '\\' ∉ pieces) (rest : List Char) :
    Moved k (some (cut rest)) inSet pieces (cut (text ++ ')' :: rest)) := by
  induction h with
  | done inSet =>
      rw [List.nil_append, cut_cons_of_ne (by decide)]
      exact .done inSet rfl
  | turn hturn _ ih =>
      rw [List.append_assoc]
      exact hturn.moved hpieces (ih fun hmem => hpieces (hturn.suffix.subset hmem))

/-- Where renumbering fails, the pieces before that place are moved. -/
theorem Breaks.exists_moved {fault : RenumberFault} (h : Breaks k inSet pieces fault)
    (hpieces : plain '\\' ∉ pieces) : ∃ text, Moved k none inSet pieces (cut text) := by
  induction h with
  | here hturn => exact ⟨[], hturn.moved_of_error⟩
  | later hturn _ ih =>
      obtain ⟨text, hmoved⟩ := ih fun hmem => hpieces (hturn.suffix.subset hmem)
      exact ⟨_, hturn.moved hpieces hmoved⟩

/-! ### Side by side -/

/-- No parenthesis and no bracket. -/
def Ordinary (c : Char) : Prop := c ≠ '(' ∧ c ≠ ')' ∧ c ≠ '[' ∧ c ≠ ']'

instance : DecidablePred Ordinary := fun c =>
  inferInstanceAs (Decidable (c ≠ '(' ∧ c ≠ ')' ∧ c ≠ '[' ∧ c ≠ ']'))

/-- A character that stays, and after which pieces that were in a set are still in it. -/
def Stays (inSet : Bool) (c : Char) : Prop :=
  if inSet then c ≠ ']' else c ≠ '(' ∧ c ≠ '['

theorem Ordinary.stays {c : Char} (h : Ordinary c) (inSet : Bool) : Stays inSet c := by
  cases inSet with
  | false => exact ⟨h.1, h.2.2.1⟩
  | true => exact h.2.2.2

/-- Pieces that can be read next to what they become: a backslash that comes next has a character.
-/
structure Beside (k : Nat) (after : Option (List Piece)) (inSet : Bool)
    (pieces moved : List Piece) : Prop where
  moved : Moved k after inSet pieces moved
  head : pieces.head? ≠ some dangling

namespace Beside

variable {moved : List Piece} {c : Char}

theorem step (h : Beside k after inSet (plain c :: pieces) moved) (hc : Stays inSet c)
    (hhead : pieces.head? ≠ some dangling) :
    ∃ others, moved = plain c :: others ∧ Beside k after inSet pieces others := by
  cases h.moved with
  | plain _ _ hrest => exact ⟨_, rfl, hrest, hhead⟩
  | opened _ _ => exact absurd rfl hc.1
  | condition _ _ _ => exact absurd rfl hc.1
  | largeCondition _ _ _ => exact absurd rfl hc.1
  | named _ _ => exact absurd rfl hc.1
  | bracket _ _ => exact absurd rfl hc.2
  | member _ _ hrest => exact ⟨_, rfl, hrest, hhead⟩
  | closed _ => exact absurd rfl hc

theorem head_moved (h : Beside k after inSet pieces moved) : moved.head? ≠ some dangling := by
  have hhead := h.head
  cases h.moved with
  | dangling => simp at hhead
  | member _ hp _ => simpa using hp
  | _ => simp

theorem head_eq_iff (h : Beside k after inSet pieces moved) (hc : Ordinary c) :
    moved.head? = some (plain c) ↔ pieces.head? = some (plain c) := by
  obtain ⟨hopen, hclose, -, -⟩ := hc
  have hhead := h.head
  cases h.moved with
  | done => simpa using hclose.symm
  | dangling => simp at hhead
  | reference => simpa using hopen.symm
  | largeCondition => simpa using hopen.symm
  | _ => simp

theorem steps {chars : List Char} (h : Beside k after inSet (chars.map plain ++ pieces) moved)
    (hchars : ∀ c ∈ chars, Stays inSet c) (hhead : pieces.head? ≠ some dangling) :
    ∃ others, moved = chars.map plain ++ others ∧ Beside k after inSet pieces others := by
  induction chars generalizing moved with
  | nil => exact ⟨moved, rfl, h⟩
  | cons c rest ih =>
      obtain ⟨hc, hrest⟩ := List.forall_mem_cons.mp hchars
      have hnext : (rest.map plain ++ pieces).head? ≠ some dangling := by
        cases rest with
        | nil => exact hhead
        | cons d rest => simp
      obtain ⟨others, rfl, hothers⟩ := h.step hc hnext
      obtain ⟨others', rfl, hothers'⟩ := ih hothers hrest
      exact ⟨others', rfl, hothers'⟩

end Beside

end Lookahead.Pattern
