import Lookahead.Proofs.Expression.Comments
import Lookahead.Proofs.Expression.Words
import Mathlib.Data.Bool.AllAny

/-!
Words with white space between them. A word is a number, a name, an operator or a parenthesis, and
it is found in a text together with what it is, unless what follows runs into it. White space never
does, and of the words only numbers and names run into each other, and operators for products. So a
text that has words in any spacing is made of firm matches, which are the words with white space in
between, and the comment filter leaves just the words of it.
-/

namespace Lookahead.Expression

open Lexicon

/-! ### Words -/

structure Numeral where
  digits : List Char
  ne_nil : digits ≠ []
  isDigit : ∀ c ∈ digits, c.isDigit = true
  deriving DecidableEq

structure Name where
  first : Char
  others : List Char
  isNameStart_first : isNameStart first = true
  isNamePart_others : ∀ c ∈ others, isNamePart c = true
  deriving DecidableEq

inductive Sign where
  | plus
  | minus
  deriving Repr, DecidableEq

inductive Factor where
  | times
  | divided
  deriving Repr, DecidableEq

inductive Word where
  | number (numeral : Numeral)
  | name (name : Name)
  | sign (sign : Sign)
  | factor (factor : Factor)
  | opening
  | closing
  deriving DecidableEq

def Sign.char : Sign → Char
  | plus => '+'
  | minus => '-'

def Factor.char : Factor → Char
  | times => '*'
  | divided => '/'

namespace Word

def kind : Word → String
  | number _ => "NUMBER"
  | name _ => "IDENTIFIER"
  | sign _ => "PLUSMIN"
  | factor _ => "MULTDIV"
  | opening => "OPEN"
  | closing => "CLOSE"

def text : Word → List Char
  | number numeral => numeral.digits
  | name x => x.first :: x.others
  | sign s => [s.char]
  | factor f => [f.char]
  | opening => ['(']
  | closing => [')']

def piece (w : Word) : String × List Char := (w.kind, w.text)

def isAtom : Word → Bool
  | number _ | name _ => true
  | _ => false

def isFactor : Word → Bool
  | factor _ => true
  | _ => false

/-- The word may stand directly before the other. -/
def Precedes (w other : Word) : Prop :=
  ¬ (w.isAtom = true ∧ other.isAtom = true) ∧ ¬ (w.isFactor = true ∧ other.isFactor = true)

/-- The character does not run into the word when it follows. -/
def endsBefore (c : Char) : Word → Bool
  | number _ => !isNamePart c && c != '.'
  | name _ => !isNamePart c
  | factor _ => c != '*' && c != '/'
  | sign _ | opening | closing => true

theorem text_ne_nil (w : Word) : w.text ≠ [] := by
  cases w with
  | number numeral => exact numeral.ne_nil
  | name | sign | factor | opening | closing => exact List.cons_ne_nil _ _

end Word

/-! ### White space -/

def gaps : List Char := [' ', '\t', '\r', '\n']

def isWordChar (c : Char) : Bool := isNamePart c || ['+', '-', '*', '/', '(', ')'].contains c

theorem isNamePart_of_mem_text {w : Word} {c : Char} (h : w.isAtom = true) (hc : c ∈ w.text) :
    isNamePart c = true := by
  cases w with
  | number numeral => exact isNamePart_of_isDigit (numeral.isDigit c hc)
  | name x =>
      rcases List.mem_cons.mp hc with rfl | hc
      · exact isNamePart_of_isNameStart x.isNameStart_first
      · exact x.isNamePart_others c hc
  | sign | factor | opening | closing => contradiction

theorem mem_of_mem_text {w : Word} {c : Char} (h : w.isAtom = false) (hc : c ∈ w.text) :
    c ∈ ['+', '-', '(', ')'] ∨ w.isFactor = true ∧ c ∈ ['*', '/'] := by
  cases w with
  | number | name => contradiction
  | sign s => cases s <;> simp_all [Word.text, Sign.char]
  | factor f => cases f <;> simp_all [Word.text, Factor.char, Word.isFactor]
  | opening | closing => simp_all [Word.text]

theorem isWordChar_of_mem_text {w : Word} {c : Char} (hc : c ∈ w.text) : isWordChar c = true := by
  have hoperators : ∀ c ∈ ['+', '-', '(', ')'] ++ ['*', '/'], isWordChar c = true :=
    List.all_eq_true.mp (by decide)
  cases hatom : w.isAtom with
  | true => rw [isWordChar, isNamePart_of_mem_text hatom hc, Bool.true_or]
  | false =>
      refine hoperators c (List.mem_append.mpr ?_)
      exact (mem_of_mem_text hatom hc).imp_right And.right

theorem not_mem_gaps_of_mem_text {w : Word} {c : Char} (hc : c ∈ w.text) : c ∉ gaps := by
  have hgaps : ∀ c ∈ gaps, isWordChar c = false := List.all_iff_forall_prop.mp (by decide)
  have hword := isWordChar_of_mem_text hc
  intro hgap
  rw [hgaps c hgap] at hword
  exact Bool.false_ne_true hword

theorem isWordChar_of_isBlankChar {c : Char} (hc : isBlankChar c = true) :
    isWordChar c = false := by
  have hblanks : ∀ c ∈ [' ', '\t', '\x0b', '\x0c'], isWordChar c = false :=
    List.all_iff_forall_prop.mp (by decide)
  exact hblanks c (by simpa [isBlankChar] using hc)

/-! ### Words are firm -/

variable {w other : Word} {after text : List Char} {words : List Word} {c : Char}

theorem run_append {ok : Char → Bool} {run : List Char} (hrun : ∀ c ∈ run, ok c = true)
    (hafter : ∀ d ∈ after.head?, ok d = false) :
    (run ++ after).takeWhile ok = run ∧ (run ++ after).dropWhile ok = after := by
  rw [List.takeWhile_append_of_pos hrun, List.dropWhile_append_of_pos hrun]
  cases after with
  | nil => exact ⟨List.append_nil run, rfl⟩
  | cons d after =>
      rw [List.takeWhile_cons, List.dropWhile_cons, hafter d rfl]
      exact ⟨List.append_nil run, rfl⟩

theorem front_numeral (numeral : Numeral)
    (h : ∀ d ∈ after.head?, isNamePart d = false ∧ d ≠ '.') :
    front (numeral.digits ++ after) = some (numeral.digits.length, "NUMBER") := by
  obtain ⟨digits, hne, hdigits⟩ := numeral
  have hends : ∀ d ∈ after.head?, d.isDigit = false := by
    intro d hd
    have hpart := (h d hd).1
    rw [Bool.eq_false_iff] at hpart ⊢
    exact fun hdigit => hpart (isNamePart_of_isDigit hdigit)
  obtain ⟨htake, hdrop⟩ := run_append hdigits hends
  obtain ⟨c, rest, rfl⟩ := List.exists_cons_of_ne_nil hne
  rw [List.cons_append] at htake hdrop ⊢
  rw [front_digit (hdigits c List.mem_cons_self), htake]
  rw [hdrop]
  intro d hd
  refine ⟨(h d hd).2, ?_, ?_⟩
  all_goals
    rintro rfl
    exact absurd (h _ hd).1 (by decide)

theorem front_of_name (x : Name) (h : ∀ d ∈ after.head?, isNamePart d = false) :
    front (x.first :: x.others ++ after) =
      some ((x.first :: x.others).length, "IDENTIFIER") := by
  have hparts : ∀ c ∈ x.first :: x.others, isNamePart c = true :=
    List.forall_mem_cons.mpr ⟨isNamePart_of_isNameStart x.isNameStart_first, x.isNamePart_others⟩
  have htake := (run_append hparts h).1
  rw [List.cons_append] at htake ⊢
  rw [front_name x.isNameStart_first, htake]

theorem front_factor (f : Factor) (h : ∀ d ∈ after.head?, d ≠ '*' ∧ d ≠ '/') :
    front (f.char :: after) = some (1, "MULTDIV") := by
  have hnot : ¬ ['*'] <+: after ∧ ¬ ['/'] <+: after := by
    constructor
    · rintro ⟨rest, rfl⟩
      exact (h _ rfl).1 rfl
    · rintro ⟨rest, rfl⟩
      exact (h _ rfl).2 rfl
  cases f with
  | times => exact front_star hnot.2
  | divided => exact front_slash hnot.1 hnot.2

/-- A word is found together with what it is where nothing runs into it. -/
theorem front_word (h : ∀ d ∈ after.head?, w.endsBefore d = true) :
    front (w.text ++ after) = some (w.text.length, w.kind) := by
  cases w with
  | number numeral => exact front_numeral numeral (by simpa [Word.endsBefore] using h)
  | name x => exact front_of_name x (by simpa [Word.endsBefore] using h)
  | sign s =>
      cases s with
      | plus => exact front_plus after
      | minus => exact front_minus after
  | factor f => exact front_factor f (by simpa [Word.endsBefore] using h)
  | opening => exact front_opening after
  | closing => exact front_closing after

theorem endsBefore_of_mem_gaps (w : Word) (hc : c ∈ gaps) : w.endsBefore c = true := by
  have hgaps : ∀ c ∈ gaps, isNamePart c = false ∧ c ≠ '.' ∧ c ≠ '*' ∧ c ≠ '/' :=
    List.all_iff_forall_prop.mp (by decide)
  obtain ⟨hpart, hpoint, hstar, hslash⟩ := hgaps c hc
  cases w <;> simp [Word.endsBefore, hpart, hpoint, hstar, hslash]

theorem endsBefore_of_precedes (h : w.Precedes other) (hc : c ∈ other.text) :
    w.endsBefore c = true := by
  obtain ⟨hatoms, hfactors⟩ := h
  cases w with
  | sign | opening | closing => rfl
  | factor f =>
      have hother : c ≠ '*' ∧ c ≠ '/' := by
        cases hatom : other.isAtom with
        | true =>
            have hpart := isNamePart_of_mem_text hatom hc
            constructor <;> rintro rfl <;> contradiction
        | false =>
            rcases mem_of_mem_text hatom hc with hc | ⟨hfactor, -⟩
            · have hsigns : ∀ c ∈ ['+', '-', '(', ')'], c ≠ '*' ∧ c ≠ '/' :=
                List.all_iff_forall_prop.mp (by decide)
              exact hsigns c hc
            · exact absurd ⟨rfl, hfactor⟩ hfactors
      simp [Word.endsBefore, hother]
  | number | name =>
      have hatom : other.isAtom = false := Bool.eq_false_iff.mpr fun hatom => hatoms ⟨rfl, hatom⟩
      have hoperators : ∀ c ∈ ['+', '-', '(', ')'] ++ ['*', '/'],
          isNamePart c = false ∧ c ≠ '.' := List.all_iff_forall_prop.mp (by decide)
      have hother := hoperators c
        (List.mem_append.mpr ((mem_of_mem_text hatom hc).imp_right And.right))
      simp [Word.endsBefore, hother]

theorem exists_word_of_prefix {start : List Char} (h : start <+: w.text) (hne : start ≠ []) :
    ∃ w' : Word, w'.text = start := by
  have hsingle {d : Char} (h : start <+: [d]) : start = [d] := by
    refine h.eq_of_length_le ?_
    exact List.length_pos_iff.mpr hne
  cases w with
  | number numeral =>
      exact ⟨.number ⟨start, hne, fun c hc => numeral.isDigit c (h.mem hc)⟩, rfl⟩
  | name x =>
      obtain ⟨c, others, rfl⟩ := List.exists_cons_of_ne_nil hne
      obtain ⟨rfl, hothers⟩ := List.cons_prefix_cons.mp h
      exact ⟨.name ⟨x.first, others, x.isNameStart_first,
        fun c hc => x.isNamePart_others c (hothers.mem hc)⟩, rfl⟩
  | sign s => exact ⟨.sign s, (hsingle h).symm⟩
  | factor f => exact ⟨.factor f, (hsingle h).symm⟩
  | opening => exact ⟨.opening, (hsingle h).symm⟩
  | closing => exact ⟨.closing, (hsingle h).symm⟩

/-- A word is firm where nothing runs into it. -/
theorem firm_word (h : ∀ d ∈ after.head?, w.endsBefore d = true) :
    Firm front (w.text ++ after) w.text.length w.kind := by
  refine Firm.of_stretch _ (fun start hstart hne => ?_) (fun more => front_word) h
  obtain ⟨w', rfl⟩ := exists_word_of_prefix hstart hne
  have hfront : front (w'.text ++ []) = some (w'.text.length, w'.kind) := front_word (by simp)
  rw [List.append_nil] at hfront
  exact ⟨w'.kind, hfront⟩

/-! ### White space is firm -/

theorem front_blanks {run : List Char} (hne : run ≠ []) (hrun : ∀ c ∈ run, isBlankChar c = true)
    (hafter : ∀ d ∈ after.head?, isBlankChar d = false) :
    front (run ++ after) = some (run.length, "WHITESPACE") := by
  obtain ⟨c, rest, rfl⟩ := List.exists_cons_of_ne_nil hne
  have htake := (run_append hrun hafter).1
  rw [List.cons_append] at htake ⊢
  rw [front_blank (hrun c List.mem_cons_self), htake]

theorem firm_blanks {run : List Char} (hne : run ≠ []) (hrun : ∀ c ∈ run, isBlankChar c = true)
    (hafter : ∀ d ∈ after.head?, isBlankChar d = false) :
    Firm front (run ++ after) run.length "WHITESPACE" := by
  refine Firm.of_stretch _ (fun start hstart hne' => ?_) (fun more => front_blanks hne hrun) hafter
  have hfront : front (start ++ []) = some (start.length, "WHITESPACE") :=
    front_blanks hne' (fun c hc => hrun c (hstart.mem hc)) (by simp)
  rw [List.append_nil] at hfront
  exact ⟨"WHITESPACE", hfront⟩

theorem firm_newline (after : List Char) : Firm front (['\n'] ++ after) 1 "NEWLINE" := by
  refine Firm.of_stretch (fun _ => True) (fun start hstart hne => ?_)
    (fun more _ => front_newline more) fun _ _ => trivial
  obtain rfl := hstart.eq_of_length_le (List.length_pos_iff.mpr hne)
  exact ⟨"NEWLINE", front_newline []⟩

theorem firm_return (h : ∀ d ∈ after.head?, d ≠ '\n') :
    Firm front (['\r'] ++ after) 1 "NEWLINE" := by
  have hfront (more : List Char) (hmore : ∀ d ∈ more.head?, d ≠ '\n') :
      front (['\r'] ++ more) = some (1, "NEWLINE") := by
    have hnot : ¬ ['\n'] <+: more := by
      rintro ⟨tail, rfl⟩
      exact hmore _ rfl rfl
    rw [List.singleton_append, front_return, if_neg hnot]
  refine Firm.of_stretch _ (fun start hstart hne => ?_) hfront h
  obtain rfl := hstart.eq_of_length_le (List.length_pos_iff.mpr hne)
  exact ⟨"NEWLINE", front_return []⟩

theorem firm_return_newline (after : List Char) :
    Firm front (['\r', '\n'] ++ after) 2 "NEWLINE" := by
  have hfront (more : List Char) : front (['\r', '\n'] ++ more) = some (2, "NEWLINE") := by
    rw [List.cons_append, front_return, if_pos (List.prefix_append _ more)]
  refine Firm.of_stretch (fun _ => True) (fun start hstart hne => ?_)
    (fun more _ => hfront more) fun _ _ => trivial
  obtain ⟨c, others, rfl⟩ := List.exists_cons_of_ne_nil hne
  obtain ⟨rfl, hothers⟩ := List.cons_prefix_cons.mp hstart
  refine ⟨"NEWLINE", ?_⟩
  rcases others with - | ⟨d, others⟩
  · exact front_return []
  · obtain ⟨rfl, hnil⟩ := List.cons_prefix_cons.mp hothers
    obtain rfl := List.prefix_nil.mp hnil
    exact hfront []

def IsWhite (kind : String) : Prop := kind = "WHITESPACE" ∨ kind = "NEWLINE"

theorem exists_firm_white (hc : c ∈ gaps) (rest : List Char) :
    ∃ run after kind, c :: rest = run ++ after ∧ run ≠ [] ∧ (∀ d ∈ run, isWordChar d = false) ∧
      IsWhite kind ∧ Firm front (run ++ after) run.length kind := by
  have hkinds : ∀ c ∈ gaps, isBlankChar c = true ∨ c = '\r' ∨ c = '\n' :=
    List.all_iff_forall_prop.mp (by decide)
  rcases hkinds c hc with hblank | rfl | rfl
  · have hrun : ∀ d ∈ (c :: rest).takeWhile isBlankChar, isBlankChar d = true :=
      fun d hd => List.mem_takeWhile_imp hd
    have hne : (c :: rest).takeWhile isBlankChar ≠ [] := by
      rw [List.takeWhile_cons, if_pos hblank]
      exact List.cons_ne_nil _ _
    refine ⟨_, (c :: rest).dropWhile isBlankChar, "WHITESPACE",
      List.takeWhile_append_dropWhile.symm, hne, fun d hd => ?_, .inl rfl,
      firm_blanks hne hrun fun d hd => ?_⟩
    · exact isWordChar_of_isBlankChar (hrun d hd)
    · have hnot := List.head?_dropWhile_not isBlankChar (c :: rest)
      rw [Option.mem_def.mp hd] at hnot
      exact hnot
  · by_cases hfeed : ['\n'] <+: rest
    · obtain ⟨after, rfl⟩ := hfeed
      exact ⟨['\r', '\n'], after, "NEWLINE", rfl, by decide,
        List.all_iff_forall_prop.mp (by decide), .inr rfl, firm_return_newline after⟩
    · refine ⟨['\r'], rest, "NEWLINE", rfl, by decide, List.all_iff_forall_prop.mp (by decide),
        .inr rfl, firm_return ?_⟩
      rintro d hd rfl
      obtain ⟨after, rfl⟩ := List.head?_eq_some_iff.mp hd
      exact hfeed (List.prefix_append _ after)
  · exact ⟨['\n'], rest, "NEWLINE", rfl, by decide, List.all_iff_forall_prop.mp (by decide),
      .inr rfl, firm_newline rest⟩

/-! ### Spaced words -/

/-- The text has the words in their order, with any white space before, between and after them. -/
inductive Spaced : List Word → List Char → Prop
  | nil : Spaced [] []
  | gap {words : List Word} {text : List Char} {c : Char} (hc : c ∈ gaps)
      (h : Spaced words text) : Spaced words (c :: text)
  | word {words : List Word} {text : List Char} (w : Word) (h : Spaced words text) :
      Spaced (w :: words) (w.text ++ text)

/-- The pieces are the words, with pieces of white space before, between and after them. -/
inductive Blended : List Word → List (String × List Char) → Prop
  | nil : Blended [] []
  | white {words : List Word} {pieces : List (String × List Char)} {kind : String}
      {text : List Char} (hkind : IsWhite kind) (h : Blended words pieces) :
      Blended words ((kind, text) :: pieces)
  | word {words : List Word} {pieces : List (String × List Char)} (w : Word)
      (h : Blended words pieces) : Blended (w :: words) (w.piece :: pieces)

namespace Spaced

/-- Without its white space the text is the words. -/
theorem filter_eq (h : Spaced words text) :
    text.filter (fun c => !gaps.contains c) = words.flatMap Word.text := by
  induction h with
  | nil => rfl
  | gap hc _ ih =>
      rw [List.filter_cons_of_neg (by simpa using hc), ih]
  | word w _ ih =>
      have hword : w.text.filter (fun c => !gaps.contains c) = w.text := by
        rw [List.filter_eq_self]
        intro c hc
        simpa using not_mem_gaps_of_mem_text hc
      rw [List.filter_append, hword, ih, List.flatMap_cons]

theorem of_append {run : List Char} (hrun : ∀ c ∈ run, isWordChar c = false)
    (h : Spaced words (run ++ text)) : Spaced words text := by
  induction run with
  | nil => exact h
  | cons c run ih =>
      obtain ⟨hc, hrun⟩ := List.forall_mem_cons.mp hrun
      refine ih hrun ?_
      generalize hwhole : c :: run ++ text = whole at h
      rw [List.cons_append] at hwhole
      cases h with
      | nil => contradiction
      | gap _ h =>
          rw [(List.cons.inj hwhole).2]
          exact h
      | word w _ =>
          obtain ⟨d, others, hw⟩ := List.exists_cons_of_ne_nil w.text_ne_nil
          rw [hw, List.cons_append] at hwhole
          rw [(List.cons.inj hwhole).1, isWordChar_of_mem_text (hw ▸ List.mem_cons_self)] at hc
          contradiction

theorem endsBefore_of_mem_head? (h : Spaced words text)
    (hwords : ∀ other ∈ words.head?, w.Precedes other) :
    ∀ d ∈ text.head?, w.endsBefore d = true := by
  intro d hd
  cases h with
  | nil => contradiction
  | gap hgap _ => exact endsBefore_of_mem_gaps w (Option.some.inj hd ▸ hgap)
  | word other _ =>
      refine endsBefore_of_precedes (hwords other rfl) ?_
      rw [List.head?_append_of_ne_nil _ other.text_ne_nil] at hd
      exact List.mem_of_mem_head? hd

/-- Words that may stand next to each other are firm in any spacing. -/
theorem exists_firmlyCut (h : Spaced words text) (hwords : words.IsChain Word.Precedes) :
    ∃ pieces, FirmlyCut front text pieces ∧ Blended words pieces := by
  induction hn : text.length using Nat.strong_induction_on generalizing words text with
  | h n ih =>
      subst hn
      cases h with
      | nil => exact ⟨[], .nil, .nil⟩
      | @gap _ rest c hc h =>
          obtain ⟨run, after, kind, heq, hne, hrun, hkind, hfirm⟩ := exists_firm_white hc rest
          have hlt : after.length < (c :: rest).length := by
            have hpos := List.length_pos_iff.mpr hne
            rw [heq, List.length_append]
            omega
          have hspaced : Spaced words (c :: rest) := .gap hc h
          rw [heq] at hspaced ⊢
          obtain ⟨pieces, hcut, hblended⟩ :=
            ih after.length hlt (of_append hrun hspaced) hwords rfl
          exact ⟨_, hcut.append hfirm, .white hkind hblended⟩
      | @word words after w h =>
          have hlt : after.length < (w.text ++ after).length := by
            have hpos := List.length_pos_iff.mpr w.text_ne_nil
            rw [List.length_append]
            omega
          obtain ⟨pieces, hcut, hblended⟩ := ih after.length hlt h hwords.tail rfl
          have hends := h.endsBefore_of_mem_head? (List.isChain_cons.mp hwords).1
          exact ⟨_, hcut.append (firm_word hends), .word w hblended⟩

end Spaced

/-! ### What the comment filter leaves -/

variable {body : List Token}

theorem kind_ne_of_not_atom (h : w.isAtom = false) :
    w.kind ≠ "NUMBER" ∧ w.kind ≠ "IDENTIFIER" := by
  cases w with
  | number | name => contradiction
  | sign | factor | opening | closing => simp [Word.kind]

theorem numberTail_eq_nil (h : Blended words (body.map Token.piece))
    (hwords : ∀ other ∈ words.head?, other.isAtom = false) : numberTail body = [] := by
  cases body with
  | nil => rfl
  | cons t rest =>
      have hkind : t.kind ≠ "NUMBER" ∧ t.kind ≠ "IDENTIFIER" := by
        rw [List.map_cons] at h
        generalize hpiece : t.piece = piece at h
        have ht : t.kind = piece.1 := congrArg Prod.fst hpiece
        rw [ht]
        cases h with
        | white hwhite _ => rcases hwhite with rfl | rfl <;> simp
        | word other _ => exact kind_ne_of_not_atom (hwords other rfl)
      simp [numberTail, hkind]

/-- Of a source that has the words in any spacing the comment filter leaves the words. -/
theorem stripped_of_blended (h : Blended words (body.map Token.piece))
    (hwords : words.IsChain Word.Precedes) :
    (stripped body).map Token.piece = words.map Word.piece := by
  induction body generalizing words with
  | nil =>
      cases h
      rw [stripped]
      rfl
  | cons t rest ih =>
      rw [List.map_cons] at h
      generalize hpiece : t.piece = piece at h
      have hkind : t.kind = piece.1 := congrArg Prod.fst hpiece
      cases h with
      | white hwhite h =>
          have hskip : stripped (t :: rest) = stripped rest := by
            rw [stripped]
            rcases hwhite with rfl | rfl <;> simp [hkind, closing?]
          rw [hskip]
          exact ih h hwords
      | word w h =>
          obtain ⟨hnext, hrest⟩ := List.isChain_cons.mp hwords
          have hkeep : stripped (t :: rest) = t :: stripped rest := by
            rw [stripped]
            cases w with
            | number numeral =>
                have htail := numberTail_eq_nil h fun other hother =>
                  Bool.eq_false_iff.mpr fun hatom => (hnext other hother).1 ⟨rfl, hatom⟩
                have hnumber : t.kind = "NUMBER" := hkind
                rw [if_pos hnumber, htail]
                rfl
            | name | sign | factor | opening | closing =>
                simp [hkind, Word.piece, Word.kind, closing?]
          rw [hkeep, List.map_cons, List.map_cons, hpiece, ih h hrest]

end Lookahead.Expression
