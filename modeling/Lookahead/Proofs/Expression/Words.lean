import Lookahead.Proofs.Expression.Lexicon
import Lookahead.Proofs.Lexicon.Firm

/-!
The words of expressions. For numbers, names, operators, parentheses and the white space between
them it is said here what the built-in lexicon finds at the beginning of a text. Numbers, names and
blanks are runs of characters of a class, as long as they can be. An operator for products is only
found where it does not open or close a comment together with the next character, and a number ends
with its digits only where neither a point nor an exponent follows.
-/

namespace Lookahead.Expression

open Pattern Pattern.Term

variable {c : Char} {rest : List Char} {n k : Nat}

/-! ### Classes of characters -/

def isNameStart (c : Char) : Bool := c.isAlpha || c == '_'

def isNamePart (c : Char) : Bool := c.isAlphanum || c == '_'

theorem isNamePart_of_isDigit (hc : c.isDigit = true) : isNamePart c = true := by
  rw [isNamePart, Char.isAlphanum, hc, Bool.or_true, Bool.true_or]

theorem isNamePart_of_isNameStart (hc : isNameStart c = true) : isNamePart c = true := by
  simp only [isNameStart, isNamePart, Char.isAlphanum, Bool.or_eq_true] at hc ⊢
  exact hc.imp_left .inl

def isBlankChar (c : Char) : Bool := [' ', '\t', '\x0b', '\x0c'].contains c

theorem beq_toNat (c d : Char) : (c.toNat == d.toNat) = (d == c) := by
  rw [beq_eq_decide, beq_eq_decide, decide_eq_decide, Char.toNat_inj, eq_comm]

theorem setHolds_digits (c : Char) : setHolds modes [range '0' '9'] c.toNat = c.isDigit := by
  simp [setHolds, modes, Modes.folding?, Member.holds, range, Char.isDigit,
    UInt32.le_iff_toNat_le]

theorem isLower_eq (c : Char) :
    c.isLower = (decide (c.val ≥ 'a'.val) && decide (c.val ≤ 'z'.val)) := rfl

theorem isUpper_eq (c : Char) :
    c.isUpper = decide (c.val ≥ 'A'.val ∧ c.val ≤ 'Z'.val) := rfl

theorem isNameStart_eq (c : Char) : isNameStart c = (c.isUpper || c.isLower || c == '_') := rfl

theorem setHolds_nameStart (c : Char) :
    setHolds modes [range 'a' 'z', range 'A' 'Z', .code '_'.toNat] c.toNat = isNameStart c := by
  have hletters : setHolds modes [range 'a' 'z', range 'A' 'Z', .code '_'.toNat] c.toNat =
      (c.isLower || (c.isUpper || '_'.toNat == c.toNat)) := by
    simp [setHolds, modes, Modes.folding?, Member.holds, range, isLower_eq, isUpper_eq,
      UInt32.le_iff_toNat_le]
  rw [hletters, beq_toNat, isNameStart_eq, ← Bool.or_assoc, Bool.or_comm c.isLower]

theorem setHolds_namePart (c : Char) :
    setHolds modes [range 'a' 'z', range 'A' 'Z', .code '_'.toNat, range '0' '9'] c.toNat =
      isNamePart c := by
  have happend : setHolds modes [range 'a' 'z', range 'A' 'Z', .code '_'.toNat, range '0' '9']
      c.toNat = (setHolds modes [range 'a' 'z', range 'A' 'Z', .code '_'.toNat] c.toNat ||
        setHolds modes [range '0' '9'] c.toNat) := by
    simp [setHolds, modes, Modes.folding?, Bool.or_assoc]
  rw [happend, setHolds_nameStart, setHolds_digits, isNameStart, isNamePart, Char.isAlphanum,
    Bool.or_assoc, Bool.or_assoc, Bool.or_comm (c == '_')]

theorem setHolds_chars (cs : List Char) (c : Char) :
    setHolds modes (cs.map fun c => .code c.toNat) c.toNat = cs.contains c := by
  change (cs.map fun c => Member.code c.toNat).any (·.holds modes c.toNat) = _
  rw [List.any_map, List.contains_eq_any_beq]
  exact congrArg cs.any (funext fun d => beq_toNat d c)

theorem setHolds_blanks (c : Char) :
    setHolds modes ([' ', '\t', '\x0b', '\x0c'].map fun c => .code c.toNat) c.toNat =
      isBlankChar c :=
  setHolds_chars _ c

/-! ### Repeated characters -/

section Repeated

variable {members : List Member} {ok : Char → Bool}

theorem head?_lengths_many (hok : ∀ c : Char, setHolds modes members c.toNat = ok c)
    (rest : List Char) : ((many (set false members)).lengths modes rest).head? =
      some (rest.takeWhile ok).length := by
  have htest : (fun c : Char => setHolds modes members c.toNat != false) = ok :=
    funext fun c => by rw [Bool.bne_false, hok]
  rw [← htest]
  exact Lengths.head?_many _ rest

theorem head?_lengths_set (hok : ∀ c : Char, setHolds modes members c.toNat = ok c)
    (hc : ok c = true) (rest : List Char) :
    ((set false members).lengths modes (c :: rest)).head? = some 1 := by
  change (Lengths.one (fun x => setHolds modes members x != false) (c :: rest)).head? = _
  rw [Lengths.one, Bool.bne_false, hok, if_pos hc]
  rfl

theorem head?_lengths_atLeastOne (hok : ∀ c : Char, setHolds modes members c.toNat = ok c)
    (hc : ok c = true) (rest : List Char) :
    ((atLeastOne (set false members)).lengths modes (c :: rest)).head? =
      some ((c :: rest).takeWhile ok).length := by
  have htest : (fun c : Char => setHolds modes members c.toNat != false) = ok :=
    funext fun c => by rw [Bool.bne_false, hok]
  rw [← htest]
  refine Lengths.head?_atLeastOne (fun x => setHolds modes members x != false) ?_ rest
  rw [Bool.bne_false, hok, hc]

end Repeated

/-! ### The parts that are considered -/

/-- The first parts have nothing to do with a character. -/
def skips (k code : Nat) : Bool := (parts.take k).all fun part => !part.2.allows modes code

theorem firstOf_of_skips (h : skips k c.toNat = true) (rest : List Char) :
    firstOf modes parts (c :: rest) = firstOf modes (parts.drop k) (c :: rest) := by
  have hwidth : ∀ part ∈ parts, 0 < part.2.width.least := by decide
  have hnone : (parts.take k).findSome? (fun part =>
      (part.2.lengths modes (c :: rest)).head?.map (·, part.1)) = none := by
    refine List.findSome?_eq_none_iff.mpr fun part hpart => ?_
    have hmem := List.mem_of_mem_take hpart
    have hallows := List.all_eq_true.mp h part hpart
    rw [Bool.not_eq_true'] at hallows
    rw [(direct_parts part hmem).lengths_eq_nil (hwidth part hmem) hallows]
    rfl
  conv_lhs => rw [firstOf, ← List.take_append_drop k parts, List.findSome?_append, hnone]
  rfl

theorem skips_of_codes {ok : Char → Bool} (h : ∀ code < 128, ok (Char.ofNat code) = true →
    skips k code = true) (hascii : ok c = true → c.toNat < 128) (hc : ok c = true) :
    skips k c.toNat = true := by
  refine h c.toNat (hascii hc) ?_
  rwa [Char.ofNat_toNat]

theorem firstOf_of_head {part : Nat × Term} {others : List (Nat × Term)}
    (h : (part.2.lengths modes rest).head? = some n) :
    firstOf modes (part :: others) rest = some (n, part.1) := by
  rw [firstOf_cons, h]
  rfl

theorem front_of_firstOf {kind : String} (number : Nat)
    (h : firstOf modes parts rest = some (n, number)) (hkind : kinds.lookup number = some kind) :
    front rest = some (n, kind) := by
  rw [front, h, Option.bind_some, hkind]
  rfl

/-! ### Blanks and line breaks -/

theorem front_blank (hc : isBlankChar c = true) (rest : List Char) :
    front (c :: rest) = some (((c :: rest).takeWhile isBlankChar).length, "WHITESPACE") := by
  refine front_of_firstOf 1 ?_ rfl
  exact firstOf_of_head (head?_lengths_atLeastOne setHolds_blanks hc rest)

theorem front_return (rest : List Char) :
    front ('\r' :: rest) = some (if ['\n'] <+: rest then 2 else 1, "NEWLINE") := by
  refine front_of_firstOf 2 ?_ rfl
  rw [firstOf_of_skips (k := 1) (by decide)]
  refine firstOf_of_head ?_
  change ((word ['\r', '\n']).lengths modes ('\r' :: rest) ++ _).head? = _
  rw [lengths_word rfl]
  by_cases hfeed : ['\n'] <+: rest
  · rw [if_pos (by simpa using hfeed), if_pos hfeed]
    rfl
  · rw [if_neg (by simpa using hfeed), if_neg hfeed]
    rfl

theorem front_newline (rest : List Char) : front ('\n' :: rest) = some (1, "NEWLINE") := by
  refine front_of_firstOf 2 ?_ rfl
  rw [firstOf_of_skips (k := 1) (by decide)]
  rfl

/-! ### Operators and parentheses -/

theorem front_plus (rest : List Char) : front ('+' :: rest) = some (1, "PLUSMIN") := by
  refine front_of_firstOf 7 ?_ rfl
  rw [firstOf_of_skips (k := 6) (by decide)]
  rfl

theorem front_minus (rest : List Char) : front ('-' :: rest) = some (1, "PLUSMIN") := by
  refine front_of_firstOf 7 ?_ rfl
  rw [firstOf_of_skips (k := 6) (by decide)]
  rfl

theorem front_star (h : ¬ ['/'] <+: rest) : front ('*' :: rest) = some (1, "MULTDIV") := by
  refine front_of_firstOf 8 ?_ rfl
  rw [firstOf_of_skips (k := 2) (by decide)]
  change firstOf modes ((3, word ['/', '*', '*']) :: (4, word ['/', '*']) ::
    (5, word ['*', '/']) :: (6, word ['/', '/']) :: parts.drop 6) ('*' :: rest) = _
  rw [firstOf_cons_word, if_neg (by simp), firstOf_cons_word, if_neg (by simp), firstOf_cons_word,
    if_neg (by simpa using h), firstOf_cons_word, if_neg (by simp)]
  rfl

theorem front_slash (hstar : ¬ ['*'] <+: rest) (hslash : ¬ ['/'] <+: rest) :
    front ('/' :: rest) = some (1, "MULTDIV") := by
  refine front_of_firstOf 8 ?_ rfl
  rw [firstOf_of_skips (k := 2) (by decide)]
  change firstOf modes ((3, word ['/', '*', '*']) :: (4, word ['/', '*']) ::
    (5, word ['*', '/']) :: (6, word ['/', '/']) :: parts.drop 6) ('/' :: rest) = _
  have hdoc : ¬ ['*', '*'] <+: rest := fun h => hstar (List.IsPrefix.trans (by simp) h)
  rw [firstOf_cons_word, if_neg (by simpa using hdoc), firstOf_cons_word,
    if_neg (by simpa using hstar), firstOf_cons_word, if_neg (by simp), firstOf_cons_word,
    if_neg (by simpa using hslash)]
  rfl

theorem front_opening (rest : List Char) : front ('(' :: rest) = some (1, "OPEN") := by
  refine front_of_firstOf 9 ?_ rfl
  rw [firstOf_of_skips (k := 8) (by decide)]
  rfl

theorem front_closing (rest : List Char) : front (')' :: rest) = some (1, "CLOSE") := by
  refine front_of_firstOf 10 ?_ rfl
  rw [firstOf_of_skips (k := 9) (by decide)]
  rfl

/-! ### Numbers and names -/

def fraction : Term := cat (word ['.']) digits

/-- A number without its exponent. -/
def mantissa : Term := either (cat digits (optional fraction)) fraction

def exponent : Term := cat (chars ['E', 'e']) (cat (optional (chars ['+', '-'])) digits)

theorem lengths_fraction_eq_nil (h : ¬ ['.'] <+: rest) : fraction.lengths modes rest = [] := by
  refine Lengths.andThen_eq_nil ?_
  rw [lengths_word rfl, if_neg h]

theorem lengths_exponent_eq_nil (h : ∀ d ∈ rest.head?, d ≠ 'e' ∧ d ≠ 'E') :
    exponent.lengths modes rest = [] := by
  refine Lengths.andThen_eq_nil ?_
  cases rest with
  | nil => rfl
  | cons d rest =>
      have hd : setHolds modes (['E', 'e'].map fun c => .code c.toNat) d.toNat = false := by
        rw [setHolds_chars]
        have := h d rfl
        simp [this]
      change Lengths.one (fun x => setHolds modes _ x != false) (d :: rest) = _
      rw [Lengths.one, hd]
      rfl

theorem toNat_lt_of_isDigit (hc : c.isDigit = true) : c.toNat < 128 := by
  simp only [Char.isDigit, Bool.and_eq_true, decide_eq_true_eq, ge_iff_le,
    UInt32.le_iff_toNat_le] at hc
  exact Nat.lt_of_le_of_lt hc.2 (by decide)

theorem toNat_lt_of_isNameStart (hc : isNameStart c = true) : c.toNat < 128 := by
  simp only [isNameStart_eq, isUpper_eq, isLower_eq, Bool.or_eq_true,
    Bool.and_eq_true, decide_eq_true_eq, beq_iff_eq, ge_iff_le, UInt32.le_iff_toNat_le] at hc
  rcases hc with (⟨-, hupper⟩ | ⟨-, hlower⟩) | rfl
  · exact Nat.lt_of_le_of_lt hupper (by decide)
  · exact Nat.lt_of_le_of_lt hlower (by decide)
  · decide

theorem front_digit (hc : c.isDigit = true)
    (hafter : ∀ d ∈ ((c :: rest).dropWhile Char.isDigit).head?, d ≠ '.' ∧ d ≠ 'e' ∧ d ≠ 'E') :
    front (c :: rest) = some (((c :: rest).takeWhile Char.isDigit).length, "NUMBER") := by
  refine front_of_firstOf 11 ?_ rfl
  rw [firstOf_of_skips (k := 10) (skips_of_codes (by decide) toNat_lt_of_isDigit hc)]
  change firstOf modes ((11, number) :: parts.drop 11) (c :: rest) = _
  refine firstOf_of_head ?_
  have hdigits := head?_lengths_atLeastOne setHolds_digits hc rest
  have hdrop : (c :: rest).drop ((c :: rest).takeWhile Char.isDigit).length =
      (c :: rest).dropWhile Char.isDigit := by
    conv_lhs =>
      arg 2
      rw [← List.takeWhile_append_dropWhile (p := Char.isDigit) (l := c :: rest)]
    rw [List.drop_left]
  have hfraction : fraction.lengths modes ((c :: rest).dropWhile Char.isDigit) = [] := by
    refine lengths_fraction_eq_nil fun hpoint => ?_
    obtain ⟨others, hothers⟩ := hpoint
    exact (hafter '.' (by rw [← hothers]; rfl)).1 rfl
  have hexponent : exponent.lengths modes ((c :: rest).dropWhile Char.isDigit) = [] :=
    lengths_exponent_eq_nil fun d hd => (hafter d hd).2
  generalize ((c :: rest).takeWhile Char.isDigit).length = n at hdigits hdrop ⊢
  rw [← hdrop] at hfraction hexponent
  have hmantissa : (mantissa.lengths modes (c :: rest)).head? = some n := by
    have hwhole : ((digits.lengths modes).andThen ((optional fraction).lengths modes)
        (c :: rest)).head? = some n :=
      Lengths.head?_andThen (k := 0) hdigits (Lengths.head?_repeated_zero_of_eq_nil _ hfraction)
    change (_ ++ _ : List Nat).head? = _
    rw [List.head?_append]
    exact congrArg (Option.or · _) hwhole
  exact Lengths.head?_andThen (k := 0) hmantissa
    (Lengths.head?_repeated_zero_of_eq_nil _ hexponent)

theorem front_name (hc : isNameStart c = true) (rest : List Char) :
    front (c :: rest) = some (((c :: rest).takeWhile isNamePart).length, "IDENTIFIER") := by
  have hpart := isNamePart_of_isNameStart hc
  have hskips : skips 10 c.toNat = true :=
    skips_of_codes (by decide) toNat_lt_of_isNameStart hc
  -- an exponent begins with a letter, but a number does not
  have hmantissa : mantissa.allows modes c.toNat = false := by
    have hcodes : ∀ code < 128, isNameStart (Char.ofNat code) = true →
        mantissa.allows modes code = false := by decide
    exact hcodes c.toNat (toNat_lt_of_isNameStart hc) (by rwa [Char.ofNat_toNat])
  have hnumber : number.lengths modes (c :: rest) = [] := by
    refine Lengths.andThen_eq_nil (Direct.lengths_eq_nil ?_ (by decide) hmantissa)
    repeat' constructor
  refine front_of_firstOf 12 ?_ rfl
  rw [firstOf_of_skips hskips]
  change firstOf modes ((11, number) :: (12, identifier) :: parts.drop 12) (c :: rest) = _
  rw [firstOf_cons, hnumber]
  refine firstOf_of_head ?_
  rw [List.takeWhile_cons, if_pos hpart, List.length_cons, Nat.add_comm]
  exact Lengths.head?_andThen (head?_lengths_set setHolds_nameStart hc rest)
    (head?_lengths_many setHolds_namePart rest)

end Lookahead.Expression
