import Lookahead.Pattern.Renumber
import Lookahead.Proofs.Checks
import Mathlib.Data.List.Basic

/-!
Renumbering, one turn at a time. A turn takes some pieces from the front of a pattern, writes
something for them, and goes on with the rest, inside of a set or not. `Turns` has a rule for each
thing that can come up: most pieces are copied, and only a reference and the number of a condition
are written anew, which may fail.

Renumbering takes turns until there are no more pieces (`Renumbers`) or a number cannot be written
(`Breaks`). What is said of the function is shown for a turn and carried along these, so it is
opened here and nowhere else.
-/

namespace Lookahead.Pattern

open Piece

variable {k : Nat} {pieces : List Piece} {inSet : Bool}

/-! ### Numerals -/

def numeral (n : Nat) : List Char := Nat.toDigits 10 n

theorem toList_toString (n : Nat) : (toString n).toList = numeral n := by
  rw [Nat.toString_eq_ofList_toDigits, String.toList_ofList, numeral]

theorem numeral_ne_nil (n : Nat) : numeral n ≠ [] := Nat.toDigits_ne_nil

theorem isAsciiDigit_of_mem_numeral {n : Nat} {d : Char} (h : d ∈ numeral n) :
    isAsciiDigit d = true := by
  have hdigit := Nat.isDigit_of_mem_toDigits (by decide) (by decide) h
  simpa [isAsciiDigit, Char.isDigit, Char.le_def] using hdigit

theorem decimalValue_numeral (n : Nat) : Text.decimalValue (numeral n) = n := by
  have hvalue := Nat.ofDigitChars_ten_toDigits (n := n)
  rw [Nat.ofDigitChars_eq_foldl] at hvalue
  rw [Text.decimalValue, numeral]
  refine Eq.trans ?_ hvalue
  congr 1
  funext m d
  rw [Nat.mul_comm]
  rfl

theorem toNat_of_isAsciiDigit {d : Char} (h : isAsciiDigit d = true) :
    48 ≤ d.toNat ∧ d.toNat ≤ 57 := by
  rw [isAsciiDigit, Bool.and_eq_true, decide_eq_true_eq, decide_eq_true_eq] at h
  exact h

theorem isAsciiDigit_of_isOctalDigit {c : Char} (h : isOctalDigit c = true) :
    isAsciiDigit c = true := by
  rw [isOctalDigit, Bool.and_eq_true, decide_eq_true_eq, decide_eq_true_eq] at h
  rw [isAsciiDigit, Bool.and_eq_true, decide_eq_true_eq, decide_eq_true_eq]
  exact ⟨h.1, Char.le_trans h.2 (by decide)⟩

theorem isAsciiDigit_of_startsReference {c : Char} (h : startsReference c = true) :
    isAsciiDigit c = true := by
  rw [startsReference, Bool.and_eq_true, decide_eq_true_eq, decide_eq_true_eq] at h
  rw [isAsciiDigit, Bool.and_eq_true, decide_eq_true_eq, decide_eq_true_eq]
  exact ⟨Char.le_trans (by decide) h.1, h.2⟩

/-! ### What is taken -/

def conditionDigits (pieces : List Piece) : List Char :=
  leadingDigits isAsciiDigit pieces.length pieces

theorem leadingDigits_eq (test : Char → Bool) (n : Nat) (pieces : List Piece) :
    (leadingDigits test n pieces).map plain ++ pieces.drop (leadingDigits test n pieces).length =
      pieces := by
  fun_induction leadingDigits test n pieces with
  | case1 => rfl
  | case2 n c rest hc ih => simpa using ih
  | case3 => rfl
  | case4 => rfl

theorem of_mem_leadingDigits {test : Char → Bool} {n : Nat} {c : Char}
    (h : c ∈ leadingDigits test n pieces) : test c = true := by
  fun_induction leadingDigits test n pieces with
  | case1 => simp at h
  | case2 n d rest hd ih =>
      rcases List.mem_cons.mp h with rfl | h
      · exact hd
      · exact ih h
  | case3 => simp at h
  | case4 => simp at h

theorem of_mem_referenceTail {first c : Char} (h : c ∈ referenceTail first pieces) :
    isAsciiDigit c = true := by
  unfold referenceTail at h
  split at h
  · rename_i second hsecond
    have hdigit : isAsciiDigit second = true := by
      have hmem : second ∈ leadingDigits isAsciiDigit 1 pieces := by
        rw [hsecond]
        exact List.mem_singleton_self second
      exact of_mem_leadingDigits hmem
    split at h
    · rcases List.mem_cons.mp h with rfl | h
      · exact hdigit
      · exact isAsciiDigit_of_isOctalDigit (of_mem_leadingDigits h)
    · obtain rfl := List.mem_singleton.mp h
      exact hdigit
  · simp at h

theorem eq_cons_cons_of_take {p q : Piece} (h : pieces.take 2 = [p, q]) :
    pieces = p :: q :: pieces.drop 2 := by
  conv_lhs => rw [← List.take_append_drop 2 pieces, h]
  rfl

/-! ### What is written -/

theorem exists_marks (pieces : List Piece) :
    ∃ marks, setStart pieces = '[' :: marks ∧ ∀ c ∈ marks, c ≠ '\\' := by
  fun_cases setStart pieces <;> simp

theorem writeReference_eq_ok {n : Nat} {written : List Char}
    (h : writeReference (Int.ofNat n + k) = .ok written) :
    n + k ≤ 99 ∧ written = "(?:\\".toList ++ numeral (n + k) ++ [')'] := by
  have hsum : Int.ofNat n + (k : Int) = ((n + k : Nat) : Int) := by simp
  rw [hsum] at h
  unfold writeReference at h
  split at h
  · contradiction
  · rename_i hle
    cases h
    have hdigits : (toString ((n + k : Nat) : Int)).toList = numeral (n + k) :=
      toList_toString (n + k)
    rw [hdigits]
    simp only [lastReference] at hle
    exact ⟨by omega, rfl⟩

theorem writeReference_eq_error {n : Nat} {fault : RenumberFault}
    (h : writeReference (Int.ofNat n + k) = .error fault) :
    99 < n + k ∧ fault = .tooManyGroups := by
  have hsum : Int.ofNat n + (k : Int) = ((n + k : Nat) : Int) := by simp
  rw [hsum] at h
  unfold writeReference at h
  split at h
  · rename_i hgt
    cases h
    simp only [lastReference] at hgt
    exact ⟨by omega, rfl⟩
  · contradiction

theorem writeCondition_eq_ok {digits written : List Char}
    (h : writeCondition digits k = .ok written) :
    written = "(?(".toList ++ numeral (Text.decimalValue digits + k) := by
  unfold writeCondition at h
  split at h
  · contradiction
  · dsimp only at h
    split at h
    · contradiction
    · cases h
      have hsum : Int.ofNat (Text.decimalValue digits) + (k : Int) =
          ((Text.decimalValue digits + k : Nat) : Int) := by simp
      have hdigits : (toString ((Text.decimalValue digits + k : Nat) : Int)).toList =
          numeral (Text.decimalValue digits + k) := toList_toString _
      rw [hsum, hdigits]

/-! ### Turns -/

/-- A turn of renumbering: what is written for the pieces in front, if that is possible, whether the
rest starts inside of a set, and the rest. -/
inductive Turns (k : Nat) :
    Bool → List Piece → Except RenumberFault (List Char) → Bool → List Piece → Prop
  | dangling (inSet : Bool) (rest : List Piece) :
      Turns k inSet (dangling :: rest) (.ok ['\\']) inSet rest
  | escaped {inSet : Bool} {c : Char} (hc : inSet = true ∨ startsReference c = false)
      (rest : List Piece) : Turns k inSet (escaped c :: rest) (.ok ['\\', c]) inSet rest
  | octal {c : Char} {rest : List Piece} (hc : startsReference c = true)
      (hlength : (referenceTail c rest).length = 2) :
      Turns k false (escaped c :: rest) (.ok ('\\' :: c :: referenceTail c rest)) false
        (rest.drop (referenceTail c rest).length)
  | reference {c : Char} {rest : List Piece} {outcome : Except RenumberFault (List Char)}
      (hc : startsReference c = true) (hlength : (referenceTail c rest).length ≠ 2)
      (hwritten : writeReference (Int.ofNat (Text.decimalValue (c :: referenceTail c rest)) + k) =
        outcome) :
      Turns k false (escaped c :: rest) outcome false (rest.drop (referenceTail c rest).length)
  | member (c : Char) (rest : List Piece) :
      Turns k true (plain c :: rest) (.ok [c]) (c != ']') rest
  | bracket {marks : List Char} {rest : List Piece} (hmarks : setStart rest = '[' :: marks) :
      Turns k false (plain '[' :: rest) (.ok ('[' :: marks)) true (rest.drop marks.length)
  | condition {rest : List Piece} {outcome : Except RenumberFault (List Char)}
      (hne : conditionDigits rest ≠ [])
      (hclose : (rest.drop (conditionDigits rest).length).head? = some (plain ')'))
      (hwritten : writeCondition (conditionDigits rest) k = outcome) :
      Turns k false (plain '(' :: plain '?' :: plain '(' :: rest) outcome false
        (rest.drop (conditionDigits rest).length)
  | named {rest : List Piece} (hother : ¬ (conditionDigits rest ≠ [] ∧
        (rest.drop (conditionDigits rest).length).head? = some (plain ')'))) :
      Turns k false (plain '(' :: plain '?' :: plain '(' :: rest)
        (.ok ("(?(".toList ++ conditionDigits rest)) false
        (rest.drop (conditionDigits rest).length)
  | plain {c : Char} {rest : List Piece} (hbracket : c ≠ '[')
      (hopen : ¬ (c = '(' ∧ rest.take 2 = [plain '?', plain '('])) :
      Turns k false (plain c :: rest) (.ok [c]) false rest

theorem Turns.suffix_tail {rest : List Piece} {outcome : Except RenumberFault (List Char)}
    {inSet' : Bool} (h : Turns k inSet pieces outcome inSet' rest) : rest <:+ pieces.tail := by
  cases h with
  | dangling | escaped | member | plain => exact List.suffix_rfl
  | octal | reference | bracket => exact List.drop_suffix _ _
  | condition | named =>
      exact (List.drop_suffix _ _).trans ((List.suffix_cons _ _).trans (List.suffix_cons _ _))

theorem Turns.suffix {rest : List Piece} {outcome : Except RenumberFault (List Char)}
    {inSet' : Bool} (h : Turns k inSet pieces outcome inSet' rest) : rest <:+ pieces :=
  h.suffix_tail.trans (List.tail_suffix _)

theorem exists_turn (k : Nat) (inSet : Bool) (p : Piece) (pieces : List Piece) :
    ∃ outcome inSet' rest, Turns k inSet (p :: pieces) outcome inSet' rest ∧
      renumberPieces k inSet (p :: pieces) = (do
        let written ← outcome
        let text ← renumberPieces k inSet' rest
        pure (written ++ text)) := by
  generalize heq : p :: pieces = all
  fun_cases renumberPieces (k : Int) inSet all with
  | case1 => contradiction
  | case2 rest => exact ⟨_, _, _, .dangling inSet rest, rfl⟩
  | case3 c rest hc => exact ⟨_, _, _, .escaped (by simpa using hc) rest, rfl⟩
  | case4 c rest hc tail jp hlength =>
      obtain ⟨rfl, hstarts⟩ : inSet = false ∧ startsReference c = true := by simpa using hc
      exact ⟨_, _, _, .octal hstarts hlength, rfl⟩
  | case5 c rest hc tail jp hlength =>
      obtain ⟨rfl, hstarts⟩ : inSet = false ∧ startsReference c = true := by simpa using hc
      exact ⟨_, _, _, .reference hstarts hlength rfl, rfl⟩
  | case6 c rest =>
      rename_i hset
      subst hset
      exact ⟨_, _, _, .member c rest, rfl⟩
  | case7 rest hset written =>
      obtain rfl : inSet = false := by simpa using hset
      obtain ⟨marks, hmarks, -⟩ := exists_marks rest
      have hwritten : written = '[' :: marks := hmarks
      refine ⟨_, _, _, .bracket hmarks, ?_⟩
      rw [hwritten]
      rfl
  | case8 c rest hset hbracket hopen rest₁ digits rest₂ jp hdigits =>
      obtain rfl : inSet = false := by simpa using hset
      obtain ⟨rfl, hnext⟩ := hopen
      rw [eq_cons_cons_of_take hnext]
      exact ⟨_, _, _, .condition hdigits.1 hdigits.2 rfl, rfl⟩
  | case9 c rest hset hbracket hopen rest₁ digits rest₂ jp hdigits =>
      obtain rfl : inSet = false := by simpa using hset
      obtain ⟨rfl, hnext⟩ := hopen
      rw [eq_cons_cons_of_take hnext]
      exact ⟨_, _, _, .named hdigits, rfl⟩
  | case10 c rest hset hbracket hopen =>
      obtain rfl : inSet = false := by simpa using hset
      exact ⟨_, _, _, .plain hbracket hopen, rfl⟩

/-! ### Runs -/

inductive Renumbers (k : Nat) : Bool → List Piece → List Char → Prop
  | done (inSet : Bool) : Renumbers k inSet [] []
  | turn {inSet inSet' : Bool} {pieces rest : List Piece} {written text : List Char}
      (hturn : Turns k inSet pieces (.ok written) inSet' rest)
      (hrest : Renumbers k inSet' rest text) : Renumbers k inSet pieces (written ++ text)

/-- Somewhere in the pieces is a number that cannot be written. -/
inductive Breaks (k : Nat) : Bool → List Piece → RenumberFault → Prop
  | here {inSet inSet' : Bool} {pieces rest : List Piece} {fault : RenumberFault}
      (hturn : Turns k inSet pieces (.error fault) inSet' rest) : Breaks k inSet pieces fault
  | later {inSet inSet' : Bool} {pieces rest : List Piece} {written : List Char}
      {fault : RenumberFault} (hturn : Turns k inSet pieces (.ok written) inSet' rest)
      (hrest : Breaks k inSet' rest fault) : Breaks k inSet pieces fault

/-- Renumbering is a run of turns. -/
theorem renumberPieces_spec (k : Nat) (inSet : Bool) (pieces : List Piece) :
    match renumberPieces k inSet pieces with
    | .ok text => Renumbers k inSet pieces text
    | .error fault => Breaks k inSet pieces fault := by
  induction hn : pieces.length using Nat.strongRecOn generalizing inSet pieces with
  | ind n ih =>
      cases pieces with
      | nil =>
          rw [renumberPieces]
          exact .done inSet
      | cons p pieces =>
          obtain ⟨outcome, inSet', rest, hturn, heq⟩ := exists_turn k inSet p pieces
          have hlt : rest.length < n := by
            have hle : rest.length ≤ pieces.length := hturn.suffix_tail.length_le
            rw [List.length_cons] at hn
            omega
          have hrest := ih _ hlt inSet' rest rfl
          rw [heq]
          cases outcome with
          | error fault => exact .here hturn
          | ok written =>
              cases hmore : renumberPieces k inSet' rest with
              | error fault =>
                  rw [hmore] at hrest
                  exact .later hturn hrest
              | ok text =>
                  rw [hmore] at hrest
                  exact .turn hturn hrest

theorem renumbers_of_eq_ok {text : List Char} (h : renumberPieces k inSet pieces = .ok text) :
    Renumbers k inSet pieces text := by
  have hspec := renumberPieces_spec k inSet pieces
  rwa [h] at hspec

theorem breaks_of_eq_error {fault : RenumberFault}
    (h : renumberPieces k inSet pieces = .error fault) : Breaks k inSet pieces fault := by
  have hspec := renumberPieces_spec k inSet pieces
  rwa [h] at hspec

end Lookahead.Pattern
