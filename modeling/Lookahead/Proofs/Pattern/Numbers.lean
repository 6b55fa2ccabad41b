import Lookahead.Proofs.Pattern.Constructs
import Mathlib.Tactic.IntervalCases

/-!
References and conditions. Both have numbers in them, so their pieces do not fit together, and what
is read of them has to be known exactly: a backslash takes as many digits as renumbering thinks it
does (`gives_digitEscape`), and a condition is read as the number that its digits write
(`readInteger?_digits`). A moved number is written so that it is read again as what it is
(`referenceTail_numeral`, `decimalValue_numeral`).
-/

namespace Lookahead.Pattern

open Piece Scan Term

variable {k : Nat} {base : Frame} {around : Groups} {tail : Option (List Piece)} {excused : Prop}

section

variable {r r₁ : Reading} {s t : Source}

/-! ### References -/

theorem gives_takeUpTo {test : Char → Bool} {n : Nat} {chars : List Char}
    (h : (takeUpTo test n).Gives s chars t) (hhead : s.pieces.head? ≠ some dangling) :
    chars = leadingDigits test n s.pieces ∧ t.pieces = s.pieces.drop chars.length ∧
      t.pieces.head? ≠ some dangling := by
  induction n generalizing s chars with
  | zero =>
      obtain ⟨rfl, rfl⟩ := gives_pure_iff.mp h
      exact ⟨rfl, rfl, hhead⟩
  | succ n ih =>
      rcases gives_takeUpTo_succ h with ⟨c, u, rest, hs, hnext, hc, hrest, rfl⟩ | ⟨rfl, rfl, hstop⟩
      · obtain ⟨hchars, hleft, hlast⟩ := ih hrest hnext
        refine ⟨?_, ?_, hlast⟩
        · rw [hs, leadingDigits, if_pos hc, ← hchars]
        · rw [hleft, hs, List.length_cons, List.drop_succ_cons]
      · refine ⟨?_, rfl, hhead⟩
        cases hs : t.pieces with
        | nil => rfl
        | cons p rest =>
            cases p with
            | plain c =>
                rw [leadingDigits, hstop c (by rw [hs, List.head?_cons]), if_neg Bool.false_ne_true]
            | escaped c => rfl
            | dangling => rfl

theorem head?_ne_dangling_of_drop_leadingDigits {test : Char → Bool} {n : Nat}
    {pieces : List Piece}
    (h : (pieces.drop (leadingDigits test n pieces).length).head? ≠ some dangling) :
    pieces.head? ≠ some dangling := by
  rw [← leadingDigits_eq test n pieces]
  cases hdigits : leadingDigits test n pieces with
  | nil =>
      rw [hdigits] at h
      exact h
  | cons d digits => simp

/-- The digits in front are taken, if a character stands behind a backslash after them. -/
theorem gives_takeUpTo_leadingDigits {test : Char → Bool} {n : Nat}
    (hhead : (s.pieces.drop (leadingDigits test n s.pieces).length).head? ≠ some dangling) :
    ∃ t, t.pieces = s.pieces.drop (leadingDigits test n s.pieces).length ∧
      (takeUpTo test n).Gives s (leadingDigits test n s.pieces) t := by
  induction n generalizing s with
  | zero => exact ⟨s, rfl, gives_pure_iff.mpr ⟨rfl, rfl⟩⟩
  | succ n ih =>
      by_cases htest : ∃ c rest, s.pieces = plain c :: rest ∧ test c = true
      · obtain ⟨c, rest, hs, hc⟩ := htest
        rw [hs, leadingDigits, if_pos hc, List.length_cons, List.drop_succ_cons] at hhead ⊢
        obtain ⟨t, ht, hrest⟩ := @ih ⟨rest, s.offset + 1⟩ hhead
        exact ⟨t, ht, gives_takeUpTo_cons hs (head?_ne_dangling_of_drop_leadingDigits hhead) hc
          hrest⟩
      · have hstop : ∀ c, s.pieces.head? = some (plain c) → test c = false := by
          intro c hc
          obtain ⟨rest, hs⟩ := List.head?_eq_some_iff.mp hc
          exact Bool.eq_false_iff.mpr fun h => htest ⟨c, rest, hs, h⟩
        have hnone : leadingDigits test (n + 1) s.pieces = [] := by
          unfold leadingDigits
          split
          · contradiction
          · rename_i c rest _ heq
            rw [if_neg fun h => htest ⟨c, rest, heq, h⟩]
          · rfl
        rw [hnone]
        exact ⟨s, rfl, gives_takeUpTo_nil hstop⟩

theorem digitsValue_ten {digits : List Char} (h : ∀ d ∈ digits, isAsciiDigit d = true) :
    digitsValue 10 digits = Text.decimalValue digits := by
  unfold digitsValue Text.decimalValue
  apply List.foldl_ext
  intro n d hd
  rw [hexDigitValue, if_pos (h d hd)]
  rfl

/-- A reference to a closed group of a known width, where it may be referred to. -/
structure Reading.RefersTo (r : Reading) (number : Nat) (width : Width) : Prop where
  lt_next : number < r.groups.next
  lookup : r.groups.widths.lookup number = some width
  allows : r.Allows number

theorem gives_numberedReference_iff {digits : List Char} {x : Term} :
    (r.numberedReference digits).Gives s x t ↔
      t = s ∧ ∃ width, r.RefersTo (digitsValue 10 digits) width ∧
        x = .backref (digitsValue 10 digits) width := by
  unfold Reading.numberedReference
  dsimp only
  constructor
  · intro h
    split at h
    · rename_i hlt
      unfold Reading.reference at h
      split at h
      · exact absurd h (refuses_failBack _ _ _ _ _)
      · rename_i width hwidth
        obtain ⟨_, u, hcheck, hterm⟩ := gives_bind_iff.mp h
        obtain ⟨rfl, hallows⟩ := gives_checkLookbehind_iff.mp hcheck
        obtain ⟨rfl, rfl⟩ := gives_pure_iff.mp hterm
        exact ⟨rfl, width, ⟨hlt, hwidth, hallows⟩, rfl⟩
    · exact absurd h (refuses_failBack _ _ _ _ _)
  · rintro ⟨rfl, width, ⟨hlt, hwidth, hallows⟩, rfl⟩
    rw [if_pos hlt, Reading.reference, hwidth]
    exact gives_bind_iff.mpr ⟨(), t, gives_checkLookbehind_iff.mpr ⟨rfl, hallows⟩,
      gives_pure_iff.mpr ⟨rfl, rfl⟩⟩

/-- What a digit after a backslash comes to, with the digits that belong to it. -/
def Reading.Escapes (r : Reading) (digits : List Char) (x : Term) : Prop :=
  digits.length = 3 ∧ digitsValue 8 digits ≤ 0o377 ∧ x = .literal false (digitsValue 8 digits) ∨
    digits.length ≠ 3 ∧ ∃ width, r.RefersTo (digitsValue 10 digits) width ∧
      x = .backref (digitsValue 10 digits) width

theorem leadingDigits_one {test : Char → Bool} {pieces : List Piece} {digits : List Char}
    (h : digits = leadingDigits test 1 pieces) : digits = [] ∨ ∃ d, digits = [d] := by
  subst h
  unfold leadingDigits
  split
  · exact .inl rfl
  · rename_i n c rest heq
    obtain rfl : n = 0 := (Nat.succ.inj heq).symm
    split
    · exact .inr ⟨c, rfl⟩
    · exact .inl rfl
  · exact .inl rfl

theorem Reading.Escapes.refersTo {c : Char} {pieces : List Piece} {x : Term}
    (h : r.Escapes (c :: referenceTail c pieces) x) (hc : startsReference c = true)
    (hlength : (referenceTail c pieces).length ≠ 2) :
    ∃ width, r.RefersTo (Text.decimalValue (c :: referenceTail c pieces)) width ∧
      x = .backref (Text.decimalValue (c :: referenceTail c pieces)) width := by
  have hdigits : ∀ e ∈ c :: referenceTail c pieces, isAsciiDigit e = true :=
    List.forall_mem_cons.mpr
      ⟨isAsciiDigit_of_startsReference hc, fun e he => of_mem_referenceTail he⟩
  rw [← digitsValue_ten hdigits]
  rcases h with ⟨hthree, -⟩ | ⟨-, h⟩
  · exact absurd (Nat.succ.inj hthree) hlength
  · exact h

def takeReferenceTail (first : Char) : Scan (List Char) := do
  match ← takeUpTo isAsciiDigit 1 with
  | [second] =>
    if isOctalDigit first && isOctalDigit second then
      match ← takeUpTo isOctalDigit 1 with
      | [third] => pure [second, third]
      | _ => pure [second]
    else pure [second]
  | _ => pure []

/-- What is made of the digits when all of them have been taken. -/
def Reading.ofDigits (r : Reading) (digits : List Char) : Scan Term :=
  if digits.length = 3 then
    if digitsValue 8 digits > 0o377 then failEscape .octalRange digits
    else pure (.literal false (digitsValue 8 digits))
  else r.numberedReference digits

theorem gives_ofDigits_iff {digits : List Char} {x : Term} :
    (r.ofDigits digits).Gives s x t ↔ t = s ∧ r.Escapes digits x := by
  unfold Reading.ofDigits Reading.Escapes
  by_cases hthree : digits.length = 3
  · by_cases hcode : digitsValue 8 digits > 0o377
    · simp [hthree, hcode, refuses_failEscape _ _ s x t]
    · have hle := Nat.le_of_not_lt hcode
      simp [hthree, hcode, hle, and_comm]
  · simp [hthree, gives_numberedReference_iff]

/-- A digit after a backslash: all digits are taken before something is made of them. -/
theorem gives_digitEscape_iff {first : Char} {x : Term} :
    (r.digitEscape first).Gives s x t ↔
      ∃ tail, (takeReferenceTail first).Gives s tail t ∧ r.Escapes (first :: tail) x := by
  have hphases : (r.digitEscape first).Gives s x t ↔
      (takeReferenceTail first >>= fun tail => r.ofDigits (first :: tail)).Gives s x t := by
    unfold Reading.digitEscape takeReferenceTail
    rw [gives_bind_assoc_iff]
    refine gives_bind_congr fun digits u => ?_
    match digits with
    | [] | _ :: _ :: _ => exact gives_pure_bind_iff.symm
    | [second] =>
        dsimp only
        split
        · rw [gives_bind_assoc_iff]
          refine gives_bind_congr fun more v => ?_
          match more with
          | [] | [_] | _ :: _ :: _ => exact gives_pure_bind_iff.symm
        · exact gives_pure_bind_iff.symm
  rw [hphases, gives_bind_iff]
  simp only [gives_ofDigits_iff]
  constructor
  · rintro ⟨tail, u, htail, rfl, hx⟩
    exact ⟨tail, htail, hx⟩
  · rintro ⟨tail, htail, hx⟩
    exact ⟨tail, t, htail, rfl, hx⟩

/-- The digits that are taken are those that renumbering looks at. -/
theorem gives_takeReferenceTail {first : Char} {tail : List Char}
    (h : (takeReferenceTail first).Gives s tail t) (hhead : s.pieces.head? ≠ some dangling) :
    tail = referenceTail first s.pieces ∧ t.pieces = s.pieces.drop tail.length ∧
      t.pieces.head? ≠ some dangling := by
  unfold takeReferenceTail at h
  obtain ⟨digits, u, hdigits, h⟩ := gives_bind_iff.mp h
  obtain ⟨hone, hu, huhead⟩ := gives_takeUpTo hdigits hhead
  unfold referenceTail
  rw [← hone]
  rcases leadingDigits_one hone with rfl | ⟨second, rfl⟩
  · obtain ⟨rfl, rfl⟩ := gives_pure_iff.mp h
    exact ⟨rfl, hu, huhead⟩
  · dsimp only at h ⊢
    split at h
    · rename_i hoctal
      obtain ⟨more, v, hmore, h⟩ := gives_bind_iff.mp h
      obtain ⟨htwo, hv, hvhead⟩ := gives_takeUpTo hmore huhead
      rw [hu, List.drop_drop] at hv
      rw [hu, List.length_singleton] at htwo
      rw [if_pos hoctal, ← htwo]
      rcases leadingDigits_one htwo with rfl | ⟨third, rfl⟩
      · obtain ⟨rfl, rfl⟩ := gives_pure_iff.mp h
        exact ⟨rfl, hv, hvhead⟩
      · obtain ⟨rfl, rfl⟩ := gives_pure_iff.mp h
        exact ⟨rfl, hv, hvhead⟩
    · rename_i hoctal
      obtain ⟨rfl, rfl⟩ := gives_pure_iff.mp h
      rw [if_neg hoctal]
      exact ⟨rfl, hu, huhead⟩

theorem gives_takeReferenceTail_referenceTail {first : Char}
    (hnext : (s.pieces.drop (referenceTail first s.pieces).length).head? ≠ some dangling) :
    ∃ t, t.pieces = s.pieces.drop (referenceTail first s.pieces).length ∧
      (takeReferenceTail first).Gives s (referenceTail first s.pieces) t := by
  have htake : ∀ (test : Char → Bool) {s : Source} {digits : List Char},
      leadingDigits test 1 s.pieces = digits →
      (s.pieces.drop digits.length).head? ≠ some dangling →
      ∃ t, t.pieces = s.pieces.drop digits.length ∧ (takeUpTo test 1).Gives s digits t := by
    rintro test s digits rfl hhead
    exact gives_takeUpTo_leadingDigits hhead
  unfold takeReferenceTail
  unfold referenceTail at hnext ⊢
  generalize hone : leadingDigits isAsciiDigit 1 s.pieces = digits at hnext ⊢
  rcases leadingDigits_one hone.symm with rfl | ⟨second, rfl⟩
  · obtain ⟨u, hu, hdigits⟩ := htake isAsciiDigit hone hnext
    exact ⟨u, hu, gives_bind_iff.mpr ⟨[], u, hdigits, gives_pure_iff.mpr ⟨rfl, rfl⟩⟩⟩
  · dsimp only at hnext ⊢
    split at hnext
    · rename_i hoctal
      rw [if_pos hoctal]
      rw [List.length_cons, Nat.add_comm, ← List.drop_drop] at hnext
      obtain ⟨u, hu, hdigits⟩ :=
        htake isAsciiDigit hone (head?_ne_dangling_of_drop_leadingDigits hnext)
      rw [List.length_singleton] at hu
      obtain ⟨v, hv, hmore⟩ := gives_takeUpTo_leadingDigits (hu ▸ hnext)
      rw [hu] at hv hmore
      rw [List.length_cons, Nat.add_comm, ← List.drop_drop]
      refine ⟨v, hv, gives_bind_iff.mpr ⟨[second], u, hdigits, ?_⟩⟩
      dsimp only
      rw [if_pos hoctal]
      refine gives_bind_iff.mpr ⟨_, v, hmore, ?_⟩
      rcases leadingDigits_one (Eq.refl (leadingDigits isOctalDigit 1 (s.pieces.drop 1))) with
        htwo | ⟨third, htwo⟩
      · rw [htwo]
        exact gives_pure_iff.mpr ⟨rfl, rfl⟩
      · rw [htwo]
        exact gives_pure_iff.mpr ⟨rfl, rfl⟩
    · rename_i hoctal
      rw [if_neg hoctal]
      obtain ⟨u, hu, hdigits⟩ := htake isAsciiDigit hone hnext
      refine ⟨u, hu, gives_bind_iff.mpr ⟨[second], u, hdigits, ?_⟩⟩
      dsimp only
      rw [if_neg hoctal]
      exact gives_pure_iff.mpr ⟨rfl, rfl⟩

/-- A digit after a backslash, with the digits that belong to it. -/
theorem gives_digitEscape {first : Char} {x : Term} (h : (r.digitEscape first).Gives s x t)
    (hhead : s.pieces.head? ≠ some dangling) :
    t.pieces = s.pieces.drop (referenceTail first s.pieces).length ∧
      t.pieces.head? ≠ some dangling ∧ r.Escapes (first :: referenceTail first s.pieces) x := by
  obtain ⟨tail, htail, hx⟩ := gives_digitEscape_iff.mp h
  obtain ⟨rfl, ht, hthead⟩ := gives_takeReferenceTail htail hhead
  exact ⟨ht, hthead, hx⟩

/-- Such an escape is read, if it comes to something. -/
theorem gives_digitEscape_of_escapes {first : Char} {x : Term}
    (hnext : (s.pieces.drop (referenceTail first s.pieces).length).head? ≠ some dangling)
    (hx : r.Escapes (first :: referenceTail first s.pieces) x) :
    ∃ t, t.pieces = s.pieces.drop (referenceTail first s.pieces).length ∧
      (r.digitEscape first).Gives s x t := by
  obtain ⟨t, ht, htail⟩ := gives_takeReferenceTail_referenceTail hnext
  exact ⟨t, ht, gives_digitEscape_iff.mpr ⟨_, htail, hx⟩⟩

theorem gives_termEscape_iff [Text.CharacterNames] {c : Char} {x : Term}
    (hc : startsReference c = true) :
    (r.termEscape c).Gives s x t ↔ (r.digitEscape c).Gives s x t := by
  have hcases : ∀ n, 49 ≤ n → n ≤ 57 →
      Char.ofNat n ∈ ['1', '2', '3', '4', '5', '6', '7', '8', '9'] := by
    intro n hlow hhigh
    interval_cases n <;> decide
  have hc' := hc
  rw [startsReference, Bool.and_eq_true, decide_eq_true_eq, decide_eq_true_eq] at hc'
  have hmem := hcases c.toNat hc'.1 hc'.2
  rw [Char.ofNat_toNat] at hmem
  simp only [List.mem_cons, List.not_mem_nil, or_false] at hmem
  have hdigit : Reading.place? c = none ∧ kind? c = none ∧ controlCode? c = none ∧
      announcedCode c = pure none ∧ c ≠ '0' ∧ isAsciiDigit c = true := by
    rcases hmem with rfl | rfl | rfl | rfl | rfl | rfl | rfl | rfl | rfl <;>
      exact ⟨rfl, rfl, rfl, rfl, by decide, rfl⟩
  obtain ⟨hplace, hkind, hcontrol, hannounced, hzero, hdigit⟩ := hdigit
  unfold Reading.termEscape
  simp only [hplace, hkind, hcontrol, hannounced, hzero, hdigit, if_false, if_true]
  rw [gives_bind_iff]
  constructor
  · rintro ⟨code?, u, hcode, hdigits⟩
    obtain ⟨rfl, rfl⟩ := gives_pure_iff.mp hcode
    exact hdigits
  · exact fun h => ⟨none, s, gives_pure_iff.mpr ⟨rfl, rfl⟩, h⟩

/-- Three octal digits are three octal digits, whatever comes after them. -/
theorem referenceTail_append {first : Char} {pieces : List Piece}
    (h : (referenceTail first pieces).length = 2) (others : List Piece) :
    referenceTail first ((referenceTail first pieces).map plain ++ others) =
      referenceTail first pieces := by
  unfold referenceTail at h ⊢
  split at h
  · rename_i second hone
    split at h
    · rename_i hoctal
      rw [if_pos hoctal]
      have hsecond := isAsciiDigit_of_isOctalDigit (Bool.and_eq_true_iff.mp hoctal).2
      rcases leadingDigits_one rfl with hnil | ⟨third, htwo⟩
      · rw [hnil] at h
        simp at h
      · have hthird : isOctalDigit third = true := by
          have hmem : third ∈ leadingDigits isOctalDigit 1 (pieces.drop 1) := by
            rw [htwo]
            exact List.mem_singleton_self third
          exact of_mem_leadingDigits hmem
        rw [htwo]
        simp [hoctal, leadingDigits, hsecond, hthird]
    · simp at h
  · simp at h

theorem length_numeral_le {n : Nat} (hle : n ≤ 99) : (numeral n).length ≤ 2 := by
  have hall : ∀ n < 100, (numeral n).length ≤ 2 := by decide +kernel
  exact hall n (by omega)

theorem length_numeral_le_limit {n : Nat} (h : n < groupLimit) :
    (numeral n).length ≤ Text.integerDigitLimit := by
  have hlength : (Nat.toDigits 10 n).length ≤ 10 := by
    refine (Nat.length_toDigits_le_iff (by decide) (by decide)).mpr ?_
    exact Nat.lt_trans h (by decide)
  exact Nat.le_trans hlength (by decide)

theorem writeCondition_of_lt {k : Nat} {digits : List Char}
    (hlength : digits.length ≤ Text.integerDigitLimit)
    (hlt : Text.decimalValue digits + k < groupLimit) :
    writeCondition digits k =
      .ok ("(?(".toList ++ numeral (Text.decimalValue digits + k)) := by
  have hsum : Int.ofNat (Text.decimalValue digits) + (k : Int) =
      ((Text.decimalValue digits + k : Nat) : Int) := by simp
  have hdigits : (toString ((Text.decimalValue digits + k : Nat) : Int)).toList =
      numeral (Text.decimalValue digits + k) := toList_toString _
  have hwritten : ((numeral (Text.decimalValue digits + k)).filter isAsciiDigit).length ≤
      Text.integerDigitLimit :=
    Nat.le_trans (List.length_filter_le _ _) (length_numeral_le_limit hlt)
  rw [writeCondition, if_neg (Nat.not_lt.mpr hlength)]
  dsimp only
  rw [hsum, hdigits, if_neg (Nat.not_lt.mpr hwritten)]

/-- A number of two digits at most is read as a whole, and a closing parenthesis ends it. -/
theorem referenceTail_numeral {n : Nat} {d : Char} {digits : List Char} (hle : n ≤ 99)
    (h : numeral n = d :: digits) (others : List Piece) :
    referenceTail d (digits.map plain ++ plain ')' :: others) = digits := by
  have hdigits : ∀ e ∈ digits, isAsciiDigit e = true := fun e he =>
    isAsciiDigit_of_mem_numeral (n := n) (by rw [h]; exact List.mem_cons_of_mem _ he)
  have hshort := length_numeral_le hle
  rw [h] at hshort
  match digits with
  | [] => simp [referenceTail, leadingDigits, isAsciiDigit]
  | [e] =>
      have he := hdigits e (List.mem_singleton_self e)
      simp [referenceTail, leadingDigits, he, isOctalDigit]
  | _ :: _ :: _ => simp at hshort

theorem startsReference_numeral {n : Nat} {d : Char} {digits : List Char} (hpos : 0 < n)
    (hle : n ≤ 99) (h : numeral n = d :: digits) : startsReference d = true := by
  have hall : ∀ n < 100, 0 < n → (numeral n).head?.all startsReference = true := by decide +kernel
  have hn := hall n (by omega) hpos
  rw [h] at hn
  exact hn

/-! ### Conditions -/

theorem textIsAsciiDigit_eq (c : Char) : Text.isAsciiDigit c.toNat = isAsciiDigit c := by
  simp only [Text.isAsciiDigit, isAsciiDigit, Char.le_def, UInt32.le_iff_toNat_le]
  rfl

theorem groupedDigits?_digits {digits : List Char} (hne : digits ≠ [])
    (h : ∀ d ∈ digits, isAsciiDigit d = true) : Text.groupedDigits? digits = some digits := by
  fun_induction Text.groupedDigits? digits with
  | case1 => exact absurd rfl hne
  | case2 => rfl
  | case4 | case5 => exact absurd (h '_' (by simp)) (by decide)
  | case6 d rest hrest _ _ ih =>
      rw [ih hrest fun e he => h e (List.mem_cons_of_mem _ he)]
      rfl
  | case3 d hd | case7 d rest _ _ hd =>
      rw [textIsAsciiDigit_eq] at hd
      exact absurd (h d (by simp)) hd

theorem readInteger?_digits {digits : List Char} (hne : digits ≠ [])
    (h : ∀ d ∈ digits, isAsciiDigit d = true) :
    Text.readInteger? digits =
      if digits.length > Text.integerDigitLimit then none
      else some (Int.ofNat (Text.decimalValue digits)) := by
  have hall : digits.all (·.toNat < 0x80) = true := by
    rw [List.all_eq_true]
    intro d hd
    have := toNat_of_isAsciiDigit (h d hd)
    exact decide_eq_true (by omega)
  have hdrop : ∀ digits : List Char, (∀ d ∈ digits, isAsciiDigit d = true) →
      digits.dropWhile (fun c => Text.isAsciiBlank c.toNat) = digits := by
    intro digits h
    cases digits with
    | nil => rfl
    | cons d rest =>
        have := toNat_of_isAsciiDigit (h d List.mem_cons_self)
        apply List.dropWhile_cons_of_neg
        simp [Text.isAsciiBlank]
        omega
  unfold Text.readInteger?
  rw [if_pos hall]
  dsimp only
  rw [hdrop digits h, hdrop digits.reverse (by simpa using h), List.reverse_reverse]
  split
  · exact absurd (h '-' List.mem_cons_self) (by decide)
  · exact absurd (h '+' List.mem_cons_self) (by decide)
  · rw [groupedDigits?_digits hne h]
    rfl

/-- The group that the name or number in a condition stands for. -/
def Reading.AsksFor (r : Reading) (name : List Char) (number : Nat) : Prop :=
  if Text.isIdentifier name then r.groups.names.lookup (String.ofList name) = some number
  else ∃ value, Text.readInteger? name = some value ∧ number = value.toNat ∧ 0 < number ∧
    number < groupLimit

structure Asked (before : List (Nat × Nat)) (number : Nat) (asked : List (Nat × Nat)) : Prop where
  kept : ∀ a ∈ before, a ∈ asked
  added : ∃ a ∈ asked, a.1 = number
  only : ∀ a ∈ asked, a ∈ before ∨ a.1 = number

theorem asked_of_lookup (before : List (Nat × Nat)) (number offset : Nat) :
    Asked before number
      (if (before.lookup number).isSome then before else before ++ [(number, offset)]) := by
  split
  · rename_i hsome
    obtain ⟨place, hplace⟩ := Option.isSome_iff_exists.mp hsome
    obtain ⟨first, rest, rfl, -⟩ := List.lookup_eq_some_iff.mp hplace
    exact ⟨fun a ha => ha, ⟨(number, place), by simp, rfl⟩, fun a ha => .inl ha⟩
  · refine ⟨fun a ha => List.mem_append_left _ ha, ⟨(number, offset), by simp, rfl⟩, ?_⟩
    intro a ha
    rcases List.mem_append.mp ha with ha | ha
    · exact .inl ha
    · exact .inr (congrArg Prod.fst (List.mem_singleton.mp ha))

theorem gives_conditionGroup {name : String} {x : Nat × Reading}
    (h : (r.conditionGroup name).Gives s x t) :
    t = s ∧ ∃ asked, x.2 = { r with asked } ∧ r.AsksFor name.toList x.1 ∧
      if Text.isIdentifier name.toList then asked = r.asked else Asked r.asked x.1 asked := by
  unfold Reading.AsksFor
  unfold Reading.conditionGroup at h
  dsimp only at h
  rw [String.ofList_toList]
  split at h
  · rename_i hidentifier
    split at h
    · exact absurd h (refuses_failBack _ _ _ _ _)
    · rename_i number hnumber
      obtain ⟨rfl, rfl⟩ := gives_pure_iff.mp h
      rw [if_pos hidentifier]
      refine ⟨rfl, r.asked, rfl, hnumber, ?_⟩
      rw [if_pos hidentifier]
  · rename_i hidentifier
    rw [if_neg hidentifier]
    split at h
    · exact absurd h (refuses_failBack _ _ _ _ _)
    · rename_i value hvalue
      split at h
      · exact absurd h (refuses_failBack _ _ _ _ _)
      · rename_i hneg
        split at h
        · exact absurd h (refuses_failBack _ _ _ _ _)
        · rename_i hzero
          split at h
          · exact absurd h (refuses_failBack _ _ _ _ _)
          · rename_i hlimit
            obtain ⟨offset, u, hoffset, hgroup⟩ := gives_bind_iff.mp h
            obtain ⟨-, rfl⟩ := gives_offset_iff.mp hoffset
            obtain ⟨rfl, rfl⟩ := gives_pure_iff.mp hgroup
            refine ⟨rfl, _, rfl, ⟨value, hvalue, rfl, ?_, Nat.lt_of_not_le hlimit⟩, ?_⟩
            · dsimp only
              omega
            · rw [if_neg hidentifier]
              exact asked_of_lookup _ _ _

/-- A condition has a name or a number up to its closing parenthesis. -/
theorem gives_readCondition {start : Nat} (h : (r.readCondition start).Gives s r₁ t) :
    ∃ taken number asked, s.pieces = taken ++ plain ')' :: t.pieces ∧ plain ')' ∉ taken ∧
      t.pieces.head? ≠ some dangling ∧ r.AsksFor (taken.flatMap Piece.chars) number ∧
        r.Allows number ∧
        r₁ = ({ r with asked } : Reading).enter (.present number) start r.frame.verbose ∧
        if Text.isIdentifier (taken.flatMap Piece.chars) then asked = r.asked
        else Asked r.asked number asked := by
  unfold Reading.readCondition at h
  obtain ⟨name, u, hname, hrest⟩ := gives_bind_iff.mp h
  obtain ⟨x, v, hgroup, hlast⟩ := gives_bind_iff.mp hrest
  obtain ⟨y, w, hcheck, henter⟩ := gives_bind_iff.mp hlast
  obtain ⟨rfl, rfl⟩ := gives_pure_iff.mp henter
  obtain ⟨taken, hs, hnot, -, htext, hhead⟩ := gives_takeUntil hname
  obtain ⟨rfl, asked, hx, hasks, hasked⟩ := gives_conditionGroup hgroup
  obtain ⟨rfl, hallows⟩ := gives_checkLookbehind_iff.mp hcheck
  rw [htext] at hasks hasked
  rw [hx] at hallows
  exact ⟨taken, x.1, asked, hs, hnot, hhead, hasks, hallows, by rw [hx], hasked⟩

theorem gives_readCondition_of_group {start number : Nat} {name : String} {u : Source}
    {asked : List (Nat × Nat)} (hname : (takeUntil ')' "group name").Gives s name u)
    (hgroup : (r.conditionGroup name).Gives u (number, { r with asked }) u)
    (hallows : r.Allows number) :
    (r.readCondition start).Gives s
      (({ r with asked } : Reading).enter (.present number) start r.frame.verbose) u := by
  refine gives_bind_iff.mpr ⟨name, u, hname, gives_bind_iff.mpr ⟨_, u, hgroup, ?_⟩⟩
  exact gives_bind_iff.mpr ⟨(), u, gives_checkLookbehind_iff.mpr ⟨rfl, hallows⟩,
    gives_pure_iff.mpr ⟨rfl, rfl⟩⟩

theorem gives_conditionGroup_of_name {name : String} {number : Nat}
    (hidentifier : Text.isIdentifier name.toList = true)
    (hnumber : r.groups.names.lookup name = some number) :
    (r.conditionGroup name).Gives s (number, { r with asked := r.asked }) s := by
  unfold Reading.conditionGroup
  dsimp only
  rw [if_pos hidentifier, hnumber]
  exact gives_pure_iff.mpr ⟨rfl, rfl⟩

theorem isIdentifierStart_of_isAsciiDigit {d : Char} (h : isAsciiDigit d = true) :
    Text.isIdentifierStart d = false := by
  have hall : ∀ n ∈ List.range' 48 10, Text.isIdentifierStart (Char.ofNat n) = false := by
    decide +kernel
  obtain ⟨hlow, hhigh⟩ := toNat_of_isAsciiDigit h
  have hd := hall d.toNat (by rw [List.mem_range'_1]; omega)
  rwa [Char.ofNat_toNat] at hd

theorem isIdentifier_digits {digits : List Char} (h : ∀ d ∈ digits, isAsciiDigit d = true) :
    Text.isIdentifier digits = false := by
  cases digits with
  | nil => rfl
  | cons d rest =>
      rw [Text.isIdentifier, isIdentifierStart_of_isAsciiDigit (h d List.mem_cons_self),
        Bool.false_and]

theorem Reading.AsksFor.eq_decimalValue {digits : List Char} {number : Nat}
    (h : r.AsksFor digits number) (hdigits : ∀ d ∈ digits, isAsciiDigit d = true) :
    digits ≠ [] ∧ digits.length ≤ Text.integerDigitLimit ∧ number = Text.decimalValue digits ∧
      0 < number ∧ number < groupLimit := by
  unfold Reading.AsksFor at h
  rw [isIdentifier_digits hdigits, if_neg Bool.false_ne_true] at h
  obtain ⟨value, hvalue, rfl, hpos, hlt⟩ := h
  have hne : digits ≠ [] := by
    rintro rfl
    cases hvalue
  rw [readInteger?_digits hne hdigits] at hvalue
  split at hvalue
  · contradiction
  · rename_i hlength
    cases hvalue
    exact ⟨hne, Nat.le_of_not_lt hlength, rfl, hpos, hlt⟩

theorem gives_conditionGroup_of_digits {digits : List Char} (hne : digits ≠ [])
    (hdigits : ∀ d ∈ digits, isAsciiDigit d = true)
    (hlength : digits.length ≤ Text.integerDigitLimit) (hpos : 0 < Text.decimalValue digits)
    (hlt : Text.decimalValue digits < groupLimit) :
    ∃ asked, Asked r.asked (Text.decimalValue digits) asked ∧
      (r.conditionGroup (String.ofList digits)).Gives s
        (Text.decimalValue digits, { r with asked }) s := by
  refine ⟨_, asked_of_lookup _ _ (s.offset - ((String.ofList digits).length + 1)), ?_⟩
  have hread := readInteger?_digits hne hdigits
  rw [if_neg (Nat.not_lt.mpr hlength)] at hread
  unfold Reading.conditionGroup
  dsimp only
  rw [String.toList_ofList, isIdentifier_digits hdigits, if_neg Bool.false_ne_true, hread]
  dsimp only
  have hvalue : (Int.ofNat (Text.decimalValue digits)).toNat = Text.decimalValue digits := rfl
  rw [if_neg (by simp), if_neg (by simp; omega), hvalue, if_neg (Nat.not_le.mpr hlt)]
  exact gives_bind_iff.mpr ⟨_, s, gives_offset_iff.mpr ⟨rfl, rfl⟩, gives_pure_iff.mpr ⟨rfl, rfl⟩⟩

theorem flatMap_chars_map_plain (chars : List Char) :
    (chars.map plain).flatMap Piece.chars = chars := by
  induction chars with
  | nil => rfl
  | cons c rest ih =>
      rw [List.map_cons, List.flatMap_cons, ih]
      rfl

theorem closer_not_mem_digits {digits : List Char} (h : ∀ d ∈ digits, isAsciiDigit d = true) :
    plain ')' ∉ digits.map plain := by
  intro hmem
  obtain ⟨d, hd, heq⟩ := List.mem_map.mp hmem
  cases heq
  exact absurd (h ')' hd) (by decide)

theorem conditionDigits_eq {digits : List Char} (h : ∀ d ∈ digits, isAsciiDigit d = true)
    (rest : List Piece) :
    conditionDigits (digits.map plain ++ plain ')' :: rest) = digits := by
  have hmany : ∀ n, digits.length ≤ n →
      leadingDigits isAsciiDigit n (digits.map plain ++ plain ')' :: rest) = digits := by
    induction digits with
    | nil =>
        intro n _
        cases n <;> rfl
    | cons d others ih =>
        intro n hn
        obtain ⟨hd, hothers⟩ := List.forall_mem_cons.mp h
        cases n with
        | zero => simp at hn
        | succ n =>
            rw [List.map_cons, List.cons_append, leadingDigits, if_pos hd,
              ih hothers n (by simpa using hn)]
  exact hmany _ (by simp)

theorem conditionDigits_of_isIdentifier {taken rest : List Piece}
    (h : Text.isIdentifier (taken.flatMap Piece.chars) = true) :
    conditionDigits (taken ++ rest) = [] := by
  rw [eq_map_plain_of_flatMap rfl (inName_of_isIdentifier h)]
  cases hname : taken.flatMap Piece.chars with
  | nil =>
      rw [hname] at h
      contradiction
  | cons c name =>
      have hc : isAsciiDigit c = false := by
        rw [Bool.eq_false_iff]
        intro hdigit
        rw [hname, Text.isIdentifier, isIdentifierStart_of_isAsciiDigit hdigit] at h
        contradiction
      rw [conditionDigits, List.map_cons, List.cons_append, List.length_cons, leadingDigits, hc,
        if_neg Bool.false_ne_true]

theorem closes_of_digits {taken rest : List Piece}
    (h : ∀ d ∈ taken.flatMap Piece.chars, isAsciiDigit d = true)
    (hne : taken.flatMap Piece.chars ≠ []) :
    conditionDigits (taken ++ plain ')' :: rest) ≠ [] ∧
      ((taken ++ plain ')' :: rest).drop
        (conditionDigits (taken ++ plain ')' :: rest)).length).head? = some (plain ')') := by
  have htaken := eq_map_plain_of_flatMap rfl fun d hd =>
    ⟨ordinary_of_isAsciiDigit (h d hd), ne_backslash_of_isAsciiDigit (h d hd)⟩
  generalize taken.flatMap Piece.chars = digits at h hne htaken
  subst htaken
  rw [conditionDigits_eq h, ← List.length_map plain, List.drop_left]
  exact ⟨hne, rfl⟩

/-- Digits up to the closing parenthesis are the number of the group. -/
theorem gives_readCondition_digits {start : Nat}
    (hclose : (s.pieces.drop (conditionDigits s.pieces).length).head? = some (plain ')'))
    (h : (r.readCondition start).Gives s r₁ t) :
    s.pieces.drop (conditionDigits s.pieces).length = plain ')' :: t.pieces ∧
      t.pieces.head? ≠ some dangling ∧
      (conditionDigits s.pieces).length ≤ Text.integerDigitLimit ∧
      0 < Text.decimalValue (conditionDigits s.pieces) ∧
      r.Allows (Text.decimalValue (conditionDigits s.pieces)) ∧
      ∃ asked, Asked r.asked (Text.decimalValue (conditionDigits s.pieces)) asked ∧
        r₁ = ({ r with asked } : Reading).enter
          (.present (Text.decimalValue (conditionDigits s.pieces))) start r.frame.verbose := by
  obtain ⟨taken, number, asked, hs, hnot, hhead, hasks, hallows, rfl, hasked⟩ :=
    gives_readCondition h
  have hdigits : ∀ d ∈ conditionDigits s.pieces, isAsciiDigit d = true :=
    fun d hd => of_mem_leadingDigits hd
  obtain ⟨rest, hrest⟩ := List.head?_eq_some_iff.mp hclose
  have hsplit := leadingDigits_eq isAsciiDigit s.pieces.length s.pieces
  change (conditionDigits s.pieces).map plain ++ s.pieces.drop (conditionDigits s.pieces).length =
    s.pieces at hsplit
  rw [hrest] at hsplit
  obtain ⟨htaken, rfl⟩ :=
    eq_of_append_cons_eq (closer_not_mem_digits hdigits) hnot (hsplit.trans hs)
  rw [← htaken, flatMap_chars_map_plain] at hasks hasked
  obtain ⟨-, hlength, rfl, hpos, -⟩ := hasks.eq_decimalValue hdigits
  rw [isIdentifier_digits hdigits, if_neg Bool.false_ne_true] at hasked
  exact ⟨hrest, hhead, hlength, hpos, hallows, asked, hasked, rfl⟩

def conditionName (pieces : List Piece) : List Char :=
  (pieces.takeWhile (· ≠ plain ')')).flatMap Piece.chars

/-- A condition names its group, or gives its number in plain digits. -/
def plainCondition (pieces : List Piece) : Bool :=
  Text.isIdentifier (conditionName pieces) || (conditionName pieces).all isAsciiDigit

theorem conditionName_eq {taken rest : List Piece} (h : plain ')' ∉ taken) :
    conditionName (taken ++ plain ')' :: rest) = taken.flatMap Piece.chars := by
  have htaken : ∀ p ∈ taken, decide (p ≠ plain ')') = true := fun p hp =>
    decide_eq_true fun heq => h (heq ▸ hp)
  rw [conditionName, List.takeWhile_append_of_pos htaken, List.takeWhile_cons_of_neg (by simp),
    List.append_nil]

end

namespace Reading.Nests

variable {r r' : Reading}

theorem refersTo (h : r.Nests k base around r') {number : Nat} {width : Width}
    (href : r.RefersTo number width) : r'.RefersTo (number + k) width where
  lt_next := by
    rw [h.groups.next]
    exact Nat.add_lt_add_right href.lt_next k
  lookup := h.groups.lookup_widths href.lookup
  allows := h.allows href.allows

theorem condition (h : r.Nests k base around r') {asked asked' : List (Nat × Nat)}
    (hasked : ∀ a ∈ asked', a.1 < k ∨ ∃ b ∈ asked, a.1 = b.1 + k) (number start start' : Nat) :
    (({ r with asked } : Reading).enter (.present number) start r.frame.verbose).Nests k base around
      (({ r' with asked := asked' } : Reading).enter (.present (number + k)) start'
        r'.frame.verbose) := by
  have hnests : Reading.Nests k base around { r with asked } { r' with asked := asked' } :=
    ⟨h.stack, h.groups, h.limited, hasked, h.modes, h.modes'⟩
  exact hnests.enter (by simp) (by simp) rfl start start' h.verbose

theorem asked_of_asked (h : r.Nests k base around r') {number : Nat}
    {asked asked' : List (Nat × Nat)} (hasked : Asked r.asked number asked)
    (hasked' : Asked r'.asked (number + k) asked') :
    ∀ a ∈ asked', a.1 < k ∨ ∃ b ∈ asked, a.1 = b.1 + k := by
  intro a ha
  rcases hasked'.only a ha with ha | heq
  · rcases h.asked a ha with hlt | ⟨b, hb, heq⟩
    · exact .inl hlt
    · exact .inr ⟨b, hasked.kept b hb, heq⟩
  · obtain ⟨b, hb, hnumber⟩ := hasked.added
    exact .inr ⟨b, hb, by rw [heq, hnumber]⟩

/-- A condition on a number asks for the group that has the moved number, if there can be one. -/
theorem alongside_numberedCondition (h : r.Nests k base around r') (start start' : Nat) :
    Alongside excused
      (fun p p' => (p.drop (conditionDigits p).length).head? = some (plain ')') ∧
        (excused ∨ Text.decimalValue (conditionDigits p) + k < groupLimit) ∧
          ∃ moved, p' = (numeral (Text.decimalValue (conditionDigits p) + k)).map plain ++ moved ∧
            Moved k tail false (p.drop (conditionDigits p).length) moved)
      (r.readCondition start) (r'.readCondition start') (Carries k base around tail) := by
  rintro s s' t r₁ ⟨hclose, hroom, moved, hs', hmoved⟩ hm
  obtain ⟨hdrop, hhead, -, hpos, hallows, asked, hasked, rfl⟩ :=
    gives_readCondition_digits hclose hm
  have hnumeral : ∀ d ∈ numeral (Text.decimalValue (conditionDigits s.pieces) + k),
      isAsciiDigit d = true := fun d hd => isAsciiDigit_of_mem_numeral hd
  rw [hdrop] at hmoved
  have hbeside : Beside k tail false (plain ')' :: t.pieces) moved := ⟨hmoved, by simp⟩
  obtain ⟨others, rfl, hothers⟩ := hbeside.step ⟨by decide, by decide⟩ hhead
  by_cases hlt : Text.decimalValue (conditionDigits s.pieces) + k < groupLimit
  · obtain ⟨t', rfl, htake⟩ := gives_takeUntil_of_closed hs' (closer_not_mem_digits hnumeral)
      (by simp) hothers.head_moved (by simpa using numeral_ne_nil _)
    rw [flatMap_chars_map_plain] at htake
    have hlength : (numeral (Text.decimalValue (conditionDigits s.pieces) + k)).length ≤
        Text.integerDigitLimit := length_numeral_le_limit hlt
    obtain ⟨asked', hasked', hgroup⟩ := gives_conditionGroup_of_digits (r := r') (s := t')
      (numeral_ne_nil _) hnumeral hlength (by rw [decimalValue_numeral]; omega)
      (by rw [decimalValue_numeral]; exact hlt)
    rw [decimalValue_numeral] at hasked' hgroup
    exact .inl ⟨_, t', gives_readCondition_of_group htake hgroup (h.allows hallows),
      h.condition (h.asked_of_asked hasked hasked') _ start start', hothers⟩
  · refine .inr ⟨hroom.resolve_right hlt, fun r₁' t' hm' => ?_⟩
    obtain ⟨taken', number', asked', hs'', hnot', -, hasks', -⟩ := gives_readCondition hm'
    obtain ⟨htaken', -⟩ :=
      eq_of_append_cons_eq (closer_not_mem_digits hnumeral) hnot' (hs'.symm.trans hs'')
    rw [← htaken', flatMap_chars_map_plain] at hasks'
    obtain ⟨-, -, rfl, -, hlt'⟩ := hasks'.eq_decimalValue hnumeral
    rw [decimalValue_numeral] at hlt'
    exact hlt hlt'

/-- A condition on a name asks for the group that has the name. -/
theorem alongside_namedCondition (h : r.Nests k base around r') (start start' : Nat) :
    Alongside excused
      (fun p p' => plainCondition p = true ∧ ¬ (conditionDigits p ≠ [] ∧
          (p.drop (conditionDigits p).length).head? = some (plain ')')) ∧
        ∃ moved, p' = (conditionDigits p).map plain ++ moved ∧
          Moved k tail false (p.drop (conditionDigits p).length) moved)
      (r.readCondition start) (r'.readCondition start') (Carries k base around tail) := by
  rintro s s' t r₁ ⟨hplain, hother, moved, hs', hmoved⟩ hm
  obtain ⟨taken, number, asked, hs, hnot, hhead, hasks, hallows, rfl, hasked⟩ :=
    gives_readCondition hm
  rw [hs, plainCondition, conditionName_eq hnot, Bool.or_eq_true] at hplain
  rcases hplain with hidentifier | hdigits
  · have hnone : conditionDigits s.pieces = [] := by
      rw [hs]
      exact conditionDigits_of_isIdentifier hidentifier
    have hne : taken ≠ [] := by
      rintro rfl
      contradiction
    have hbeside : Beside k tail false s.pieces s'.pieces := by
      rw [hnone] at hs' hmoved
      rw [hs']
      refine ⟨hmoved, ?_⟩
      rw [hs, eq_map_plain_of_flatMap rfl (inName_of_isIdentifier hidentifier)]
      cases taken.flatMap Piece.chars <;> simp
    obtain ⟨t', htake, hbeside'⟩ := exists_gives_takeUntil hbeside ⟨by decide, by decide⟩ hs hnot
      hne (inName_of_isIdentifier hidentifier) hhead
    rw [if_pos hidentifier] at hasked
    rw [Reading.AsksFor, if_pos hidentifier] at hasks
    have hgroup := gives_conditionGroup_of_name (r := r') (s := t')
      (by rw [String.toList_ofList]; exact hidentifier) (h.groups.lookup_names hasks)
    refine .inl ⟨_, t', gives_readCondition_of_group htake hgroup (h.allows hallows),
      h.condition ?_ number start start', hbeside'⟩
    rw [hasked]
    exact h.asked
  · -- the digits of a number are read as a number
    rw [List.all_eq_true] at hdigits
    rw [hs] at hother
    exact absurd (closes_of_digits hdigits (hasks.eq_decimalValue hdigits).1) hother

end Reading.Nests

end Lookahead.Pattern
