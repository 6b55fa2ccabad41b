import Lookahead.Pattern.Escape
import Lookahead.Text.Quoted
import Mathlib.Algebra.Group.Nat.Defs
import Mathlib.Data.Char
import Mathlib.Tactic.Common

/-!
Quoted text can be read back. After the opening quote each character is one, two or more characters
of the quoted text, and from their beginning it is known how many: a backslash is followed by the
character itself, by a letter that stands for it, or by a letter that says how many hexadecimal
digits there are (`readEscaped_escapeIn`). None of these begins with the quote, so the first one
that is not part of a character ends the text, and what was quoted is known together with what
follows (`quotedChars_append_inj`).
-/

namespace Lookahead.Text

open Pattern (digitsValue hexDigitValue isHexDigit)

variable {quote c : Char} {n width : Nat} {rest : List Char}

/-! ### Hexadecimal numbers -/

theorem hexDigitValue_digitChar : ∀ d < 16, hexDigitValue (Nat.digitChar d) = d := by decide

theorem isHexDigit_digitChar : ∀ d < 16, isHexDigit (Nat.digitChar d) = true := by decide

theorem digitsValue_append_singleton (base : Nat) (digits : List Char) (d : Char) :
    digitsValue base (digits ++ [d]) = digitsValue base digits * base + hexDigitValue d := by
  rw [digitsValue, List.foldl_append]
  rfl

theorem digitsValue_toDigits (n : Nat) : digitsValue 16 (Nat.toDigits 16 n) = n := by
  induction n using Nat.strong_induction_on with
  | _ n ih =>
      by_cases h : n < 16
      · rw [Nat.toDigits_of_lt_base h]
        exact (digitsValue_append_singleton 16 [] _).trans
          ((Nat.zero_add _).trans (hexDigitValue_digitChar n h))
      · rw [Nat.toDigits_of_base_le (by decide) (Nat.not_lt.mp h), digitsValue_append_singleton,
          ih _ (by omega), hexDigitValue_digitChar _ (Nat.mod_lt _ (by decide))]
        omega

theorem isHexDigit_of_mem_toDigits {d : Char} (h : d ∈ Nat.toDigits 16 n) :
    isHexDigit d = true := by
  induction n using Nat.strong_induction_on with
  | _ n ih =>
      by_cases hn : n < 16
      · rw [Nat.toDigits_of_lt_base hn, List.mem_singleton] at h
        exact h ▸ isHexDigit_digitChar n hn
      · rw [Nat.toDigits_of_base_le (by decide) (Nat.not_lt.mp hn), List.mem_append,
          List.mem_singleton] at h
        rcases h with h | rfl
        · exact ih _ (by omega) h
        · exact isHexDigit_digitChar _ (Nat.mod_lt _ (by decide))

theorem digitsValue_paddedHex (width n : Nat) : digitsValue 16 (paddedHex width n) = n := by
  have hzeros (k : Nat) :
      (List.replicate k '0').foldl (fun n d => n * 16 + hexDigitValue d) 0 = 0 := by
    induction k with
    | zero => rfl
    | succ k ih => exact ih
  rw [digitsValue, paddedHex, List.foldl_append, hzeros]
  exact digitsValue_toDigits n

theorem length_paddedHex (hwidth : 0 < width) (h : n < 16 ^ width) :
    (paddedHex width n).length = width := by
  have hlength := (Nat.length_toDigits_le_iff (by decide) hwidth).mpr h
  rw [paddedHex, List.length_append, List.length_replicate]
  omega

theorem isHexDigit_of_mem_paddedHex {d : Char} (h : d ∈ paddedHex width n) :
    isHexDigit d = true := by
  rcases List.mem_append.mp h with h | h
  · exact List.eq_of_mem_replicate h ▸ rfl
  · exact isHexDigit_of_mem_toDigits h

/-! ### Characters -/

/-- The character with a code of so many hexadecimal digits, and what follows. -/
def readCode (width : Nat) (rest : List Char) : Char × List Char :=
  (Char.ofNat (digitsValue 16 (rest.take width)), rest.drop width)

theorem readCode_paddedHex (hwidth : 0 < width) (h : c.toNat < 16 ^ width) (rest : List Char) :
    readCode width (paddedHex width c.toNat ++ rest) = (c, rest) := by
  have hlength := length_paddedHex hwidth h
  rw [readCode, List.take_left' hlength, List.drop_left' hlength, digitsValue_paddedHex,
    Char.ofNat_toNat]

def readEscaped : List Char → Option (Char × List Char)
  | '\\' :: mark :: rest =>
    if mark = 'n' then some ('\n', rest)
    else if mark = 'r' then some ('\r', rest)
    else if mark = 't' then some ('\t', rest)
    else if mark = 'x' then some (readCode 2 rest)
    else if mark = 'u' then some (readCode 4 rest)
    else if mark = 'U' then some (readCode 8 rest)
    else some (mark, rest)
  | c :: rest => some (c, rest)
  | [] => none

theorem readEscaped_of_ne (hc : c ≠ '\\') (rest : List Char) :
    readEscaped (c :: rest) = some (c, rest) := by
  unfold readEscaped
  split
  · rename_i heq
    exact absurd (List.cons.inj heq).1 hc
  · rename_i heq
    cases heq
    rfl
  · contradiction

theorem readEscaped_numericEscape (c : Char) (rest : List Char) :
    readEscaped (numericEscape c ++ rest) = some (c, rest) := by
  unfold numericEscape
  dsimp only
  split
  · rename_i hsmall
    exact congrArg some (readCode_paddedHex (by decide) (by omega) rest)
  · split
    · rename_i hmiddle
      exact congrArg some (readCode_paddedHex (by decide) (by omega) rest)
    · exact congrArg some (readCode_paddedHex (by decide) c.val.toNat_lt rest)

def IsQuote (quote : Char) : Prop := quote = '\'' ∨ quote = '"'

theorem isQuote_quoteFor (text : List Char) : IsQuote (quoteFor text) := by
  unfold quoteFor
  split
  · exact .inr rfl
  · exact .inl rfl

/-- What stands for a character is read as that character. -/
theorem readEscaped_escapeIn (hquote : IsQuote quote) (c : Char) (rest : List Char) :
    readEscaped (escapeIn quote c ++ rest) = some (c, rest) := by
  unfold escapeIn
  split
  · rename_i hself
    rcases hself with rfl | rfl
    · rcases hquote with rfl | rfl <;> rfl
    · rfl
  · rename_i hself
    split_ifs with hfeed hreturn htab
    · subst hfeed
      rfl
    · subst hreturn
      rfl
    · subst htab
      rfl
    · exact readEscaped_of_ne (fun h => hself (.inr h)) rest
    · exact readEscaped_numericEscape c rest

/-- What stands for a character does not begin with the quote. -/
theorem exists_escapeIn_eq_cons (hquote : IsQuote quote) (c : Char) :
    ∃ first others, escapeIn quote c = first :: others ∧ first ≠ quote := by
  have hbackslash : '\\' ≠ quote := by rcases hquote with rfl | rfl <;> decide
  unfold escapeIn
  split_ifs with hself hfeed hreturn htab hprintable
  · exact ⟨_, _, rfl, hbackslash⟩
  · exact ⟨_, _, rfl, hbackslash⟩
  · exact ⟨_, _, rfl, hbackslash⟩
  · exact ⟨_, _, rfl, hbackslash⟩
  · exact ⟨_, _, rfl, fun h => hself (.inl h)⟩
  · unfold numericEscape
    dsimp only
    split_ifs <;> exact ⟨_, _, rfl, hbackslash⟩

theorem newline_not_mem_numericEscape (c : Char) : '\n' ∉ numericEscape c := by
  have hdigits (width n : Nat) : '\n' ∉ paddedHex width n :=
    fun h => absurd (isHexDigit_of_mem_paddedHex h) (by decide)
  unfold numericEscape
  dsimp only
  split_ifs <;> simp [hdigits]

theorem newline_not_mem_escapeIn (hquote : IsQuote quote) (c : Char) :
    '\n' ∉ escapeIn quote c := by
  have hnewline : '\n' ≠ quote := by rcases hquote with rfl | rfl <;> decide
  unfold escapeIn
  split_ifs with hself hfeed hreturn htab hprintable
  · rcases hself with rfl | rfl
    · simp [hnewline]
    · decide
  · decide
  · decide
  · decide
  · simpa using Ne.symm hfeed
  · exact newline_not_mem_numericEscape c

/-! ### Texts -/

variable {s t x y : List Char}

theorem escaped_append_inj (hquote : IsQuote quote)
    (h : s.flatMap (escapeIn quote) ++ quote :: x = t.flatMap (escapeIn quote) ++ quote :: y) :
    s = t ∧ x = y := by
  -- the closing quote is not mistaken for a character of the text
  have hclosing (c : Char) (more : List Char) (z : List Char) :
      quote :: z ≠ escapeIn quote c ++ more := by
    obtain ⟨first, others, hfirst, hne⟩ := exists_escapeIn_eq_cons hquote c
    rw [hfirst, List.cons_append]
    exact fun h => hne (List.cons.inj h).1.symm
  induction s generalizing t with
  | nil =>
      cases t with
      | nil => exact ⟨rfl, (List.cons.inj h).2⟩
      | cons d others =>
          rw [List.flatMap_nil, List.nil_append, List.flatMap_cons, List.append_assoc] at h
          exact absurd h (hclosing d _ _)
  | cons c rest ih =>
      cases t with
      | nil =>
          rw [List.flatMap_nil, List.nil_append, List.flatMap_cons, List.append_assoc] at h
          exact absurd h.symm (hclosing c _ _)
      | cons d others =>
          rw [List.flatMap_cons, List.append_assoc, List.flatMap_cons, List.append_assoc] at h
          have hread := congrArg readEscaped h
          rw [readEscaped_escapeIn hquote, readEscaped_escapeIn hquote, Option.some.injEq,
            Prod.mk.injEq] at hread
          obtain ⟨rfl, hmore⟩ := hread
          obtain ⟨rfl, hrest⟩ := ih hmore
          exact ⟨rfl, hrest⟩

/-- A quoted text is known from the beginning of what it is written in, and so is what follows. -/
theorem quotedChars_append_inj (h : quotedChars s ++ x = quotedChars t ++ y) : s = t ∧ x = y := by
  simp only [quotedChars, List.cons_append, List.append_assoc, List.nil_append,
    List.cons.injEq] at h
  obtain ⟨hquote, htext⟩ := h
  rw [hquote] at htext
  exact escaped_append_inj (isQuote_quoteFor t) htext

theorem newline_not_mem_quotedChars (text : List Char) : '\n' ∉ quotedChars text := by
  have hquote := isQuote_quoteFor text
  have hnewline : '\n' ≠ quoteFor text := by rcases hquote with h | h <;> rw [h] <;> decide
  simp [quotedChars, hnewline, newline_not_mem_escapeIn hquote]

end Lookahead.Text
