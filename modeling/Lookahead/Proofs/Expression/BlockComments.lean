import Lookahead.Proofs.Expression.Comments
import Lookahead.Proofs.Expression.Lexicon
import Lookahead.Proofs.Lexicon.Boundaries

/-!
Where block comments end in a text. What is inside a comment is cut into tokens like anything else,
before the filter looks for a token that closes the comment. So a comment ends at its first
delimiter precisely if a token begins there (`run_block_comment`). Then nothing of it is left but
the text of a documentation comment, and what follows is as if it stood alone.

A token goes over the beginning of the delimiter in two cases: there is a slash before it, which
makes for another opening delimiter together with its star, or a quote that makes for a string.
-/

namespace Lookahead.Expression

open Pattern Lexicon

/-! ### Kinds and texts -/

/-- The token at no place in particular. -/
def unplaced (t : Token) : Token := { t with start := default, stop := default }

def Mode.unplaced : Mode → Mode
  | doc _ texts => doc default texts
  | mode => mode

def Comments.unplaced (s : Comments) : Comments :=
  { mode := s.mode.unplaced, held := s.held.map Expression.unplaced }

def unplacedResult : Comments × List Token → Comments × List Token :=
  Prod.map Comments.unplaced (List.map unplaced)

theorem pass_unplaced (mode : Mode) (t : Token) :
    Comments.pass mode.unplaced (unplaced t) = unplacedResult (Comments.pass mode t) := by
  cases mode with
  | code =>
      simp only [Comments.pass, Comments.inCode, Mode.unplaced, apply_ite unplacedResult]
      rfl
  | line | block =>
      simp only [Comments.pass, Mode.unplaced, apply_ite unplacedResult]
      simp only [unplacedResult, Prod.map_apply, apply_ite Comments.unplaced]
      rfl
  | doc =>
      simp only [Comments.pass, Mode.unplaced, apply_ite unplacedResult]
      rfl

theorem step_unplaced (s : Comments) (t : Token) :
    s.unplaced.step (unplaced t) = unplacedResult (s.step t) := by
  obtain ⟨mode, held⟩ := s
  cases held with
  | none => exact pass_unplaced mode t
  | some held =>
      simp only [Comments.step, apply_ite unplacedResult]
      simp only [Comments.unplaced, Option.map_some, pass_unplaced]
      rfl

theorem output_unplaced (s : Comments) (tokens : List Token) :
    s.unplaced.output (tokens.map unplaced) = (s.output tokens).map unplaced := by
  induction tokens generalizing s with
  | nil => rfl
  | cons t rest ih =>
      rw [List.map_cons, output_cons, step_unplaced, output_cons, List.map_append, ← ih]
      rfl

theorem map_piece_map_unplaced (tokens : List Token) :
    (tokens.map unplaced).map Token.piece = tokens.map Token.piece := by
  rw [List.map_map]
  rfl

theorem output_piece_congr {tokens tokens' : List Token}
    (h : tokens.map Token.piece = tokens'.map Token.piece) :
    (Comments.output {} tokens).map Token.piece = (Comments.output {} tokens').map Token.piece := by
  have hunplaced (t : Token) :
      unplaced t = ⟨t.piece.1, default, default, String.ofList t.piece.2⟩ := by
    simp [unplaced, Token.piece]
  have heq : tokens.map unplaced = tokens'.map unplaced := by
    have hmap := congrArg (List.map fun piece : String × List Char =>
      Token.mk piece.1 default default (String.ofList piece.2)) h
    simpa [Function.comp_def, ← hunplaced] using hmap
  rw [← map_piece_map_unplaced, ← output_unplaced, heq, output_unplaced, map_piece_map_unplaced]

/-! ### Pieces of a comment -/

variable {body rest : List Char} {before after : List (String × List Char)} {chunkSize : Nat}

theorem map_piece_scanChunks (chunkSize : Nat) (text : List Char) :
    ((lexicon chunkSize).scanChunks [text]).tokens.map Token.piece =
      (lexicon chunkSize).pieces text ++ [("EPSILON", [])] := by
  have hunmatched : "UNMATCHED" ∉ kinds.map Prod.snd := by decide
  have hepsilon : "EPSILON" ≠ "UNMATCHED" := by decide
  exact map_piece_scanChunks_singleton hunmatched hepsilon text

/-- The piece that opens a comment, by what comes after a slash and a star. -/
def openingPiece (text : List Char) : String × List Char :=
  if ['*'] <+: text then ("DOC_COMMENT_OPEN", ['/', '*', '*']) else ("COMMENT_OPEN", ['/', '*'])

theorem pieces_open (chunkSize : Nat) (text : List Char) :
    (lexicon chunkSize).pieces ('/' :: '*' :: text) = openingPiece text ::
      (lexicon chunkSize).pieces (if ['*'] <+: text then text.tail else text) := by
  have hfront := front_open text
  unfold openingPiece
  split
  · rename_i hstar
    obtain ⟨text, rfl⟩ := hstar
    rw [if_pos (by simp)] at hfront
    rw [(fronts_lexicon chunkSize).pieces_of_front hfront]
    rfl
  · rename_i hstar
    rw [if_neg hstar] at hfront
    rw [(fronts_lexicon chunkSize).pieces_of_front hfront]
    rfl

theorem pieces_close (chunkSize : Nat) (rest : List Char) :
    (lexicon chunkSize).pieces ('*' :: '/' :: rest) =
      ("COMMENT_CLOSE", ['*', '/']) :: (lexicon chunkSize).pieces rest :=
  (fronts_lexicon chunkSize).pieces_of_front (front_close rest)

theorem text_of_mem_pieces_close {text w : List Char}
    (h : ("COMMENT_CLOSE", w) ∈ (lexicon chunkSize).pieces text) : w = ['*', '/'] := by
  rcases (fronts_lexicon chunkSize).exists_front_of_mem_pieces h with
    hkind | ⟨rest, n, hfront, htext⟩
  · have hne : "COMMENT_CLOSE" ≠ "UNMATCHED" := by decide
    exact absurd hkind hne
  · exact htext.trans (take_of_front_close hfront)

theorem kind_ne_of_mem_pieces {text : List Char} {piece : String × List Char}
    (h : piece ∈ (lexicon chunkSize).pieces text) : piece.1 ≠ "EPSILON" := by
  intro hepsilon
  have hkind := (((lexicon chunkSize).cut_pieces text).of_mem h).1
  rw [hepsilon] at hkind
  have hnot : ¬ ("EPSILON" = "UNMATCHED" ∨ "EPSILON" ∈ kinds.map Prod.snd) := by decide
  exact hnot hkind

theorem closing?_openingPiece (text : List Char) :
    closing? (openingPiece text).1 = some "COMMENT_CLOSE" := by
  unfold openingPiece
  split <;> rfl

theorem exists_text_openingPiece (text : List Char) :
    ∃ more, (openingPiece text).2 = '/' :: '*' :: more := by
  unfold openingPiece
  split
  · exact ⟨['*'], rfl⟩
  · exact ⟨[], rfl⟩

/-- A text without the delimiter has no occurrence of it before one that follows the text. -/
theorem length_le_of_append_close (hbody : ¬ ['*', '/'] <:+: body) {inner more : List Char}
    (h : inner ++ '*' :: '/' :: more = body ++ '*' :: '/' :: rest) :
    body.length ≤ inner.length := by
  rcases List.append_eq_append_iff.mp h with ⟨x, rfl, hx⟩ | ⟨x, rfl, -⟩
  · match x with
    | [] => simp
    | [_] => simp at hx
    | _ :: _ :: x =>
        obtain ⟨rfl, rfl, -⟩ : '*' = _ ∧ '/' = _ ∧ _ := by simpa using hx
        exact absurd ⟨inner, x, by simp⟩ hbody
  · simp

/-- No piece that closes the comment begins before the first delimiter in its text. -/
theorem length_le_of_pieces_close (hbody : ¬ ['*', '/'] <:+: body) {w : List Char}
    (h : (lexicon chunkSize).pieces ('/' :: '*' :: (body ++ '*' :: '/' :: rest)) =
      before ++ ("COMMENT_CLOSE", w) :: after) :
    ('/' :: '*' :: body).length ≤ (textOf before).length := by
  have hw : w = ['*', '/'] := text_of_mem_pieces_close (h ▸ List.mem_append_right _ (by simp))
  have htext := ((lexicon chunkSize).cut_pieces
    ('/' :: '*' :: (body ++ '*' :: '/' :: rest))).textOf_eq
  rw [h, hw] at htext
  rw [pieces_open] at h
  cases before with
  | nil =>
      have hclosing := closing?_openingPiece (body ++ '*' :: '/' :: rest)
      rw [(List.cons.inj h).1] at hclosing
      have hnone : closing? "COMMENT_CLOSE" = none := by decide
      cases hnone.symm.trans hclosing
  | cons first before =>
      obtain ⟨more, hmore⟩ := exists_text_openingPiece (body ++ '*' :: '/' :: rest)
      rw [← (List.cons.inj h).1] at htext ⊢
      rw [textOf_append, textOf_cons, textOf_cons, hmore] at htext
      rw [textOf_cons, hmore]
      have hinner : (more ++ textOf before) ++ '*' :: '/' :: textOf after =
          body ++ '*' :: '/' :: rest := by simpa using htext
      have hle := length_le_of_append_close hbody hinner
      simpa using hle

/-! ### Tokens of a comment -/

/-- A token ends where the text does. -/
def CutAfter (tokens : List Token) (text : List Char) : Prop :=
  ∃ before, before <+: tokens ∧ textOfTokens before = text

/-- After the tokens of the text, and before the input ends, the filter is outside of comments. -/
def OutsideAfter (tokens : List Token) (text : List Char) : Prop :=
  ∃ before, before <+: tokens ∧ textOfTokens before = text ∧ (∀ t ∈ before, t.kind ≠ "EPSILON") ∧
    (Comments.after {} before).mode = .code

theorem textOf_map_piece (tokens : List Token) :
    textOf (tokens.map Token.piece) = textOfTokens tokens := by
  rw [textOf, List.flatMap_map]
  rfl

variable {tokens : List Token}

theorem pieces_eq_of_prefix {text : List Char} {first others : List Token}
    (htokens : first ++ others = ((lexicon chunkSize).scanChunks [text]).tokens)
    (hend : (∀ t ∈ first, t.kind ≠ "EPSILON") ∨ textOfTokens first ≠ text) :
    ∃ after, (lexicon chunkSize).pieces text = first.map Token.piece ++ after ∧
      others.map Token.piece = after ++ [("EPSILON", [])] := by
  have hpieces := map_piece_scanChunks chunkSize text
  rw [← htokens, List.map_append] at hpieces
  rcases List.append_eq_append_iff.mp hpieces with ⟨x, hx, hothers⟩ | ⟨x, hx, hothers⟩
  · exact ⟨x, hx, hothers⟩
  · cases x with
    | nil => exact ⟨[], by simpa using hx.symm, by simpa using hothers.symm⟩
    | cons piece x =>
        -- the end of the input would be among the first tokens
        obtain ⟨rfl, hnil⟩ := List.cons.inj hothers
        obtain ⟨rfl, -⟩ := List.append_eq_nil_iff.mp hnil.symm
        rcases hend with hkinds | htext
        · have hmem : ("EPSILON", []) ∈ first.map Token.piece := by simp [hx]
          obtain ⟨t, ht, hpiece⟩ := List.mem_map.mp hmem
          exact absurd (congrArg Prod.fst hpiece) (hkinds t ht)
        · refine absurd ?_ htext
          rw [← textOf_map_piece, hx, textOf_append,
            ((lexicon chunkSize).cut_pieces text).textOf_eq]
          simp

theorem length_le_of_closer (hbody : ¬ ['*', '/'] <:+: body) (first : List Token)
    {others : List Token} {closer : Token} (hkind : closer.kind = "COMMENT_CLOSE")
    (h : (lexicon chunkSize).pieces ('/' :: '*' :: (body ++ '*' :: '/' :: rest)) =
      (first ++ closer :: others).map Token.piece ++ after) :
    ('/' :: '*' :: body).length ≤ (textOfTokens first).length ∧
      closer.text.toList = ['*', '/'] := by
  have hpiece : closer.piece = ("COMMENT_CLOSE", closer.text.toList) := by rw [Token.piece, hkind]
  rw [List.map_append, List.map_cons, hpiece, List.append_assoc, List.cons_append] at h
  rw [← textOf_map_piece]
  exact ⟨length_le_of_pieces_close hbody h,
    text_of_mem_pieces_close (h ▸ List.mem_append_right _ (by simp))⟩

theorem piece_opener {text : List Char} {opener : Token} {inside : List Token}
    (h : (lexicon chunkSize).pieces ('/' :: '*' :: text) =
      (opener :: inside).map Token.piece ++ after) :
    opener.piece = openingPiece text ∧ closing? opener.kind = some "COMMENT_CLOSE" := by
  rw [pieces_open] at h
  have hopener : opener.piece = openingPiece text := (List.cons.inj h).1.symm
  refine ⟨hopener, ?_⟩
  rw [← closing?_openingPiece text, ← hopener]
  rfl

/-- The tokens between the first one and the first delimiter neither close the comment nor end the
input. -/
theorem kind_ne_of_mem_inside (hbody : ¬ ['*', '/'] <:+: body) {opener : Token}
    {inside : List Token}
    (h : (lexicon chunkSize).pieces ('/' :: '*' :: (body ++ '*' :: '/' :: rest)) =
      (opener :: inside).map Token.piece ++ after)
    (htext : textOfTokens (opener :: inside) = '/' :: '*' :: body) :
    ∀ t ∈ inside, t.kind ≠ "COMMENT_CLOSE" ∧ t.kind ≠ "EPSILON" := by
  intro t ht
  have hmem : t.piece ∈ (lexicon chunkSize).pieces
      ('/' :: '*' :: (body ++ '*' :: '/' :: rest)) := by
    rw [h]
    exact List.mem_append_left _ (List.mem_map_of_mem (List.mem_cons_of_mem _ ht))
  refine ⟨fun hkind => ?_, kind_ne_of_mem_pieces hmem⟩
  obtain ⟨a, b, rfl⟩ := List.append_of_mem ht
  obtain ⟨hle, hclosing⟩ := length_le_of_closer hbody (opener :: a) hkind h
  have hlong : 2 ≤ (textOfTokens (t :: b)).length := by simp [textOfTokens, hclosing]
  rw [← htext, ← List.cons_append, textOfTokens_append, List.length_append] at hle
  omega

/-- The comment is opened by the same piece whether it is closed or not. -/
theorem openingPiece_append (hbody : body ≠ []) (more : List Char) :
    openingPiece (body ++ more) = openingPiece body := by
  obtain ⟨c, body, rfl⟩ := List.exists_cons_of_ne_nil hbody
  simp [openingPiece, List.cons_prefix_cons]

/-- The tokens of a text that begins with a comment, when a token begins at the delimiter. -/
theorem exists_comment_of_cutAfter (hbody : ¬ ['*', '/'] <:+: body)
    (htokens : ((lexicon chunkSize).scanChunks
      ['/' :: '*' :: (body ++ '*' :: '/' :: rest)]).tokens = tokens)
    (hcut : CutAfter tokens ('/' :: '*' :: body)) :
    ∃ opener inside closer others, tokens = opener :: (inside ++ closer :: others) ∧
      opener.piece = openingPiece body ∧ closing? opener.kind = some "COMMENT_CLOSE" ∧
      closer.piece = ("COMMENT_CLOSE", ['*', '/']) ∧
      textOfTokens (opener :: inside) = '/' :: '*' :: body ∧
      (∀ t ∈ inside, t.kind ≠ "COMMENT_CLOSE" ∧ t.kind ≠ "EPSILON") ∧
      others.map Token.piece =
        ((lexicon chunkSize).scanChunks [rest]).tokens.map Token.piece := by
  obtain ⟨first, ⟨others, hsplit⟩, htext⟩ := hcut
  rw [← hsplit] at htokens
  obtain ⟨after, hpieces, hothers⟩ := pieces_eq_of_prefix htokens.symm
    (.inr fun heq => by simpa using congrArg List.length (htext.symm.trans heq))
  have hclose : after = (lexicon chunkSize).pieces ('*' :: '/' :: rest) := by
    refine (fronts_lexicon chunkSize).pieces_of_append_eq (front_close rest)
      (u := '/' :: '*' :: body) hpieces ?_
    rw [textOf_map_piece, htext]
  rw [pieces_close] at hclose
  subst hclose
  obtain ⟨closer, others, rfl, hcloser, hrest⟩ := List.map_eq_cons_iff.mp hothers
  cases first with
  | nil => cases htext
  | cons opener inside =>
      obtain ⟨hopener, hopening⟩ := piece_opener hpieces
      refine ⟨opener, inside, closer, others, hsplit.symm, ?_, hopening, hcloser, htext,
        kind_ne_of_mem_inside hbody hpieces htext, ?_⟩
      · rw [hopener]
        refine openingPiece_append (fun hnil => ?_) _
        -- the opening delimiter would have taken the star of the closing one
        subst hnil
        have hlong : opener.text.toList = ['/', '*', '*'] := congrArg Prod.snd hopener
        rw [textOfTokens, List.flatMap_cons, hlong] at htext
        cases htext
      · rw [map_piece_scanChunks]
        exact hrest

/-- Where a token begins at the delimiter, the filter is outside of comments after it. -/
theorem outsideAfter_of_cutAfter (hbody : ¬ ['*', '/'] <:+: body)
    (htokens : ((lexicon chunkSize).scanChunks
      ['/' :: '*' :: (body ++ '*' :: '/' :: rest)]).tokens = tokens)
    (hcut : CutAfter tokens ('/' :: '*' :: body)) :
    OutsideAfter tokens ('/' :: '*' :: (body ++ ['*', '/'])) := by
  obtain ⟨opener, inside, closer, others, rfl, -, hopening, hcloser, htext, hinside, -⟩ :=
    exists_comment_of_cutAfter hbody htokens hcut
  have hclosing : closer.kind = "COMMENT_CLOSE" := congrArg Prod.fst hcloser
  have hclosed : closer.text.toList = ['*', '/'] := congrArg Prod.snd hcloser
  refine ⟨opener :: (inside ++ [closer]), ⟨others, by simp⟩, ?_, ?_, ?_⟩
  · rw [← List.cons_append, textOfTokens_append, htext]
    simp [textOfTokens, hclosed]
  · have hopen : opener.kind ≠ "EPSILON" := by
      rintro hkind
      rw [hkind] at hopening
      exact absurd hopening (by decide)
    simp only [List.forall_mem_cons, List.forall_mem_append, List.not_mem_nil, false_imp_iff,
      implies_true, and_true]
    exact ⟨hopen, fun t ht => (hinside t ht).2, by simp [hclosing]⟩
  · rw [(run_comment hopening hinside hclosing).2]

/-- Where the filter is outside of comments again, a token closes the comment. -/
theorem cutAfter_of_outsideAfter (hbody : ¬ ['*', '/'] <:+: body)
    (htokens : ((lexicon chunkSize).scanChunks
      ['/' :: '*' :: (body ++ '*' :: '/' :: rest)]).tokens = tokens)
    (houtside : OutsideAfter tokens ('/' :: '*' :: (body ++ ['*', '/']))) :
    CutAfter tokens ('/' :: '*' :: body) := by
  obtain ⟨first, ⟨others, hsplit⟩, htext, hkinds, hmode⟩ := houtside
  rw [← hsplit] at htokens
  obtain ⟨after, hpieces, -⟩ := pieces_eq_of_prefix htokens.symm (.inl hkinds)
  cases first with
  | nil => cases htext
  | cons opener inside =>
      obtain ⟨-, hopener⟩ := piece_opener hpieces
      by_cases hinside : ∀ t ∈ inside, t.kind ≠ "COMMENT_CLOSE"
      · obtain ⟨hne, hcloser, -⟩ := Mode.of_closing? hopener
        obtain ⟨-, hafter⟩ := run_inside hne fun t ht =>
          ⟨hcloser ▸ hinside t ht, hkinds t (List.mem_cons_of_mem _ ht)⟩
        rw [after_cons, step_opener hopener, hafter] at hmode
        exact absurd hmode (Mode.after_ne_code hne)
      · push Not at hinside
        obtain ⟨closer, hmem, hkind⟩ := hinside
        obtain ⟨a, b, rfl⟩ := List.append_of_mem hmem
        obtain ⟨hle, hclosing⟩ := length_le_of_closer hbody (opener :: a) hkind hpieces
        refine ⟨opener :: a, ⟨closer :: (b ++ others), by rw [← hsplit]; simp⟩, ?_⟩
        have hparts : textOfTokens (opener :: a) ++ '*' :: '/' :: textOfTokens b =
            ('/' :: '*' :: body) ++ ['*', '/'] := by
          rw [← List.cons_append, textOfTokens_append] at htext
          simpa [textOfTokens, hclosing] using htext
        refine (List.append_inj hparts (Nat.le_antisymm ?_ hle)).1
        have hlength := congrArg List.length hparts
        simp only [List.length_append, List.length_cons, List.length_nil] at hlength ⊢
        omega

/-! ### Comments that are cut off -/

/-- A match that goes from before the closing delimiter beyond its star begins with a slash right
before it, or with a quote. -/
theorem suffix_of_front {inner : List Char} {n : Nat} {kind : String} (hne : inner ≠ [])
    (hfront : front (inner ++ '*' :: '/' :: rest) = some (n, kind)) (hn : inner.length < n) :
    inner = ['/'] ∨ inner = ['/', '*'] ∨ inner.head? = some '"' := by
  have hpos : 0 < inner.length := List.length_pos_of_ne_nil hne
  have hstar : (inner ++ '*' :: '/' :: rest)[inner.length]? = some '*' := by simp
  have hle : n ≤ (inner ++ '*' :: '/' :: rest).length := (fronts_lexicon 1).le_length hfront
  have hinner : inner = ((inner ++ '*' :: '/' :: rest).take n).take inner.length := by
    rw [List.take_take, Nat.min_eq_left hn.le, List.take_left]
  have hlength := List.length_take_of_le hle
  rcases opens_or_quotes_of_front hfront hpos hn hstar with h | h | h
  · rw [h] at hinner hlength
    obtain h1 : inner.length = 1 := by simp at hlength; omega
    rw [h1] at hinner
    exact .inl hinner
  · rw [h] at hinner hlength
    obtain h1 | h2 : inner.length = 1 ∨ inner.length = 2 := by simp at hlength; omega
    · rw [h1] at hinner
      exact .inl hinner
    · rw [h2] at hinner
      exact .inr (.inl hinner)
  · rw [List.head?_append_of_ne_nil _ hne] at h
    exact .inr (.inr h)

/-- A token begins at the delimiter if neither a slash nor a quote makes for a longer match. -/
theorem cutAfter_of_plain (hne : body ≠ []) (hquote : '"' ∉ body) (hslash : ¬ ['/'] <:+ body)
    (hopen : ¬ ['/', '*'] <:+ body)
    (htokens : ((lexicon chunkSize).scanChunks
      ['/' :: '*' :: (body ++ '*' :: '/' :: rest)]).tokens = tokens) :
    CutAfter tokens ('/' :: '*' :: body) := by
  have hsuffix {w : List Char} (hw : w <:+ '/' :: '*' :: body) (hlength : 0 < w.length)
      (hstar : w.head? ≠ some '*') (hshort : w.length ≤ 2) : w <:+ body := by
    rcases List.suffix_cons_iff.mp hw with rfl | hw
    · have := List.length_pos_of_ne_nil hne
      simp only [List.length_cons] at hshort
      omega
    · rcases List.suffix_cons_iff.mp hw with rfl | hw
      · exact absurd rfl hstar
      · exact hw
  have hwithin : ∀ place < ('/' :: '*' :: body).length, ∀ n kind,
      front ((('/' :: '*' :: body) ++ '*' :: '/' :: rest).drop place) = some (n, kind) →
        place + n ≤ ('/' :: '*' :: body).length := by
    intro place hplace n kind hfront
    by_contra hlong
    rw [List.drop_append_of_le_length hplace.le] at hfront
    have hinner := List.drop_suffix place ('/' :: '*' :: body)
    have hlength : (('/' :: '*' :: body).drop place).length = _ := List.length_drop
    generalize ('/' :: '*' :: body).drop place = inner at hfront hinner hlength
    rcases suffix_of_front (List.ne_nil_of_length_pos (by omega)) hfront (by omega) with
      rfl | rfl | hhead
    · exact hslash (hsuffix hinner (by simp) (by simp) (by simp))
    · exact hopen (hsuffix hinner (by simp) (by simp) (by simp))
    · have hmem := hinner.subset (List.mem_of_head? hhead)
      simp at hmem
      exact hquote hmem
  obtain ⟨before, hpieces, htext⟩ :=
    (fronts_lexicon chunkSize).exists_pieces_append (front_close rest) hwithin
  have hmap := map_piece_scanChunks chunkSize (('/' :: '*' :: body) ++ '*' :: '/' :: rest)
  rw [hpieces, List.append_assoc] at hmap
  obtain ⟨first, others, hsplit, rfl, -⟩ := List.map_eq_append_iff.mp hmap
  exact ⟨first, ⟨others, by rw [← htokens, ← hsplit]; rfl⟩, by rw [← textOf_map_piece, htext]⟩

/-! ### The first delimiter -/

/-- Kinds and texts of what is left of a comment: of a documentation comment its text, of any other
nothing. -/
def commentPieces (body : List Char) : List (String × List Char) :=
  if ['*'] <+: body then [("DOC_COMMENT", body.tail)] else []

theorem map_piece_remains {opener closer : Token} {inside : List Token}
    (hopener : opener.piece = openingPiece body)
    (htext : textOfTokens (opener :: inside) = '/' :: '*' :: body) :
    (remains opener inside closer).map Token.piece = commentPieces body := by
  have hkind : opener.kind = (openingPiece body).1 := congrArg Prod.fst hopener
  have hopening : opener.text.toList = (openingPiece body).2 := congrArg Prod.snd hopener
  rw [textOfTokens, List.flatMap_cons, ← textOfTokens, hopening] at htext
  unfold openingPiece at hkind htext
  unfold remains commentPieces
  by_cases hdoc : ['*'] <+: body
  · rw [if_pos hdoc] at hkind htext
    obtain ⟨body, rfl⟩ := hdoc
    have hinside : textOfTokens inside = body := by simpa using htext
    rw [if_pos hkind, if_pos (by simp)]
    simp [Token.piece, ← hinside, textOfTokens, List.flatMap_def, Function.comp_def]
  · rw [if_neg hdoc] at hkind
    rw [if_neg (by simp [hkind]), if_neg hdoc, List.map_nil]

/-- **Where a block comment ends.** A text begins with a comment, up to the first delimiter that
closes comments, and goes on in any way. After the delimiter the filter is outside of comments
precisely if a token begins at the delimiter. Then what is left is the text of the comment, if it is
a documentation comment, and what is left of the rest as a text of its own. A token begins there if
the comment has a text in which there is no quote and that ends neither in a slash nor in an opening
delimiter. -/
theorem run_block_comment [Text.CharacterNames] {n : Int} {l : Lexicon}
    (hl : Lexicon.build catalog n = .ok l)
    {body : List Char} (hbody : ¬ ['*', '/'] <:+: body) (rest : List Char) :
    let opened := ['/', '*'] ++ body
    let tokens := (l.scanChunks [opened ++ ['*', '/'] ++ rest]).tokens
    (OutsideAfter tokens (opened ++ ['*', '/']) ↔ CutAfter tokens opened) ∧
      (CutAfter tokens opened → (comments.run tokens).map Token.piece =
        commentPieces body ++ (comments.run (l.scanChunks [rest]).tokens).map Token.piece) ∧
      (body ≠ [] → '"' ∉ body → ¬ ['/'] <:+ body → ¬ ['/', '*'] <:+ body →
        CutAfter tokens opened) := by
  obtain rfl := eq_lexicon_of_build hl
  intro opened tokens
  have htext : opened ++ ['*', '/'] ++ rest = '/' :: '*' :: (body ++ '*' :: '/' :: rest) := by
    simp [opened]
  have htokens : ((lexicon n.toNat).scanChunks
      ['/' :: '*' :: (body ++ '*' :: '/' :: rest)]).tokens = tokens := by rw [← htext]
  refine ⟨⟨cutAfter_of_outsideAfter hbody htokens, outsideAfter_of_cutAfter hbody htokens⟩,
    fun hcut => ?_,
    fun hne hquote hslash hopen => cutAfter_of_plain hne hquote hslash hopen htokens⟩
  obtain ⟨opener, inside, closer, others, hsplit, hopener, hopening, hcloser, hinner, hinside,
    hothers⟩ := exists_comment_of_cutAfter hbody htokens hcut
  rw [hsplit]
  change (Comments.output {} _).map _ = _
  rw [output_comment hopening hinside (congrArg Prod.fst hcloser), List.map_append,
    map_piece_remains hopener hinner, output_piece_congr hothers]
  rfl

/-- A line comment inside a documentation comment does not reach beyond it. -/
theorem run_block_comment_doc :
    ∃ l, Lexicon.build catalog 1024 = .ok l ∧ ¬ ['*', '/'] <:+: "* x // y".toList ∧
      CutAfter (l.scanChunks ["/** x // y*/2".toList]).tokens "/** x // y".toList ∧
      (comments.run (l.scanChunks ["/** x // y*/2".toList]).tokens).map Token.piece =
        [("DOC_COMMENT", " x // y".toList), ("NUMBER", ['2']), ("EPSILON", [])] := by
  have hl : Lexicon.build catalog 1024 = .ok (lexicon 1024) := build_lexicon (by decide)
  have hbody : ¬ ['*', '/'] <:+: "* x // y".toList := by decide
  obtain ⟨-, hleft, hplain⟩ := run_block_comment hl hbody ['2']
  have hcut := hplain (by decide) (by decide) (by decide) (by decide)
  have hrest : (comments.run ((lexicon 1024).scanChunks [['2']]).tokens).map Token.piece =
      [("NUMBER", ['2']), ("EPSILON", [])] := by decide +kernel
  refine ⟨lexicon 1024, hl, hbody, hcut, (hleft hcut).trans ?_⟩
  rw [hrest]
  rfl

/-- The slash before the delimiter makes for another opening delimiter, and the comment does not end
there: what follows is lost. -/
theorem run_block_comment_slash :
    ∃ l, Lexicon.build catalog 1024 = .ok l ∧ ¬ ['*', '/'] <:+: [' ', '/'] ∧
      (comments.run (l.scanChunks ["/* /*/1".toList]).tokens).map Token.piece ≠
        commentPieces [' ', '/'] ++
          (comments.run (l.scanChunks [['1']]).tokens).map Token.piece := by
  have hlost : (comments.run ((lexicon 1024).scanChunks ["/* /*/1".toList]).tokens).map
      Token.piece = [("EPSILON", [])] := by decide +kernel
  have hrest : (comments.run ((lexicon 1024).scanChunks [['1']]).tokens).map Token.piece =
      [("NUMBER", ['1']), ("EPSILON", [])] := by decide +kernel
  refine ⟨lexicon 1024, build_lexicon (by decide), by decide, ?_⟩
  rw [hlost, hrest]
  decide

end Lookahead.Expression
