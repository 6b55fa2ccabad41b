import Lookahead.Proofs.Pattern.Growth
import Lookahead.Text.AsciiName

/-!
Reading a pattern inside a group, step by step. Where the pattern alone takes in a piece, the
combined one takes in what the piece has become: mostly the same piece, and three pieces where a
reference is put in parentheses. Each step keeps the readings next to each other
(`Reading.Nests.step`), so at the end of the pattern alone the combined one is at the closing
parenthesis of the group, with the same terms, whose groups have moved numbers
(`Reading.Nests.readAll`).

This is not so for all patterns. A comment may hold anything, and a backslash and a digit in it are
renumbered all the same; and the number of a condition may be written in ways that are not
renumbered. Whether a pattern has either is seen while it is read: `Uncommented` and
`PlainConditions` look at all the places where it goes on, and `InertComments` at the comments.

Nor need the combined pattern be readable where the pattern alone is. A name may have been given
before, it is too late for option letters that are meant for the whole pattern, and the numbers may
become too large. Without all this there is no fault (`Reading.Roomy`, `Unnamed`, `Unmoded`).
-/

namespace Lookahead.Pattern

open Piece Scan Term

/-! ### Steps -/

namespace Reading

variable {r r₁ rf : Reading} {s u : Source} {p : Piece}

theorem checkCloser_of_ne {offset : Nat} (hbar : p ≠ plain '|') (hclose : p ≠ plain ')') :
    r.checkCloser p offset = .ok () := by
  unfold checkCloser
  rw [if_neg fun h => hclose h.1]
  split
  · rw [if_neg hbar]
  · rfl

/-- There is room for the groups of a pattern, when their numbers are moved: they are written in two
digits at most. -/
structure Roomy (k : Nat) (r : Reading) : Prop where
  next : r.groups.next + k ≤ 100
  asked : ∀ a ∈ r.asked, a.1 + k ≤ 99

theorem Roomy.of_grows {k : Nat} (h : rf.Roomy k) (hgrows : r.Grows rf) : r.Roomy k :=
  ⟨Nat.le_trans (Nat.add_le_add_right hgrows.next k) h.next,
    fun a ha => h.asked a (hgrows.asked a ha)⟩

section Steps

variable [Text.CharacterNames]

/-- The next piece is taken in, with whatever belongs to it. -/
def Step (r : Reading) (s : Source) (p : Piece) (r₁ : Reading) (u : Source) : Prop :=
  ∃ rest t, s.pieces = p :: rest ∧ advance p rest s.offset = .ok t ∧
    r.checkCloser p s.offset = .ok () ∧ (r.next p s.offset).Gives t r₁ u

/-- Where the rest of the pattern is read, piece by piece, up to the first fault. -/
def states (r : Reading) (s : Source) : List (Reading × List Piece) :=
  match _hs : s.pieces with
  | [] => []
  | p :: rest =>
    (r, p :: rest) ::
      match _ht : advance p rest s.offset with
      | .error _ => []
      | .ok t =>
        match r.next p s.offset t with
        | .error _ => []
        | .ok (r, ⟨u, _⟩) => states r u
termination_by s.pieces.length
decreasing_by
  rename_i hu
  have hle := hu.length_le
  rw [pieces_of_advance _ht] at hle
  simp only [_hs, List.length_cons]
  omega

theorem Step.length_lt (h : r.Step s p r₁ u) : u.pieces.length < s.pieces.length := by
  obtain ⟨rest, t, hs, hadvance, -, hsuffix, -⟩ := h
  have hle := hsuffix.length_le
  rw [pieces_of_advance hadvance] at hle
  rw [hs, List.length_cons]
  omega

theorem Step.states_eq (h : r.Step s p r₁ u) : r.states s = (r, s.pieces) :: r₁.states u := by
  obtain ⟨rest, t, hs, hadvance, -, hle, hnext⟩ := h
  rw [states]
  split
  · rename_i hnil
    rw [hs] at hnil
    contradiction
  · rename_i q rest' hs'
    rw [hs, List.cons.injEq] at hs'
    obtain ⟨rfl, rfl⟩ := hs'
    split
    · rename_i hfault
      rw [hadvance] at hfault
      contradiction
    · rename_i t' ht'
      rw [hadvance] at ht'
      cases ht'
      rw [hnext, hs]

/-- Reading comes to its end, or takes in one more piece. -/
theorem readAll_eq_ok (h : r.readAll s = .ok rf) :
    (s.pieces = [] ∧ r.outer = [] ∧ rf = r) ∨
      ∃ p r₁ u, r.Step s p r₁ u ∧ r₁.readAll u = .ok rf := by
  rw [readAll] at h
  split at h
  · rename_i hs
    split at h
    · rename_i houter
      cases h
      exact .inl ⟨hs, houter, rfl⟩
    · contradiction
  · rename_i p rest hs
    split at h
    · contradiction
    · rename_i hcloser
      split at h
      · contradiction
      · rename_i t ht
        split at h
        · contradiction
        · rename_i r₁ u hu hnext
          exact .inr ⟨p, r₁, u, ⟨rest, t, hs, ht, hcloser, hu, hnext⟩, h⟩

theorem readAll_of_nil (hs : s.pieces = []) (houter : r.outer = []) : r.readAll s = .ok r := by
  rw [readAll]
  split
  · rw [houter]
  · rename_i hcons
    rw [hs] at hcons
    contradiction

theorem Step.readAll_eq (h : r.Step s p r₁ u) : r.readAll s = r₁.readAll u := by
  obtain ⟨rest, t, hs, hadvance, hcloser, hle, hnext⟩ := h
  rw [readAll]
  split
  · rename_i hnil
    rw [hs] at hnil
    contradiction
  · rename_i q rest' hs'
    rw [hs, List.cons.injEq] at hs'
    obtain ⟨rfl, rfl⟩ := hs'
    rw [hcloser]
    dsimp only
    split
    · rename_i hfault
      rw [hadvance] at hfault
      contradiction
    · rename_i t' ht'
      rw [hadvance] at ht'
      cases ht'
      rw [hnext]

theorem step_of_gives {rest : List Piece} (hs : s.pieces = p :: rest)
    (hhead : rest.head? ≠ some dangling) (hcloser : r.checkCloser p s.offset = .ok ())
    (hnext : (r.next p s.offset).Gives ⟨rest, s.offset + p.width⟩ r₁ u) : r.Step s p r₁ u :=
  ⟨rest, _, hs, advance_eq_ok_iff.mpr ⟨hhead, rfl⟩, hcloser, hnext⟩

/-- No group is taken back in a step, or to the end. -/
theorem Step.grows (h : r.Step s p r₁ u) : r.Grows r₁ := by
  obtain ⟨rest, t, -, -, -, hnext⟩ := h
  exact r.ensures_next p s.offset hnext

theorem grows_readAll (h : r.readAll s = .ok rf) : r.Grows rf := by
  generalize hlength : s.pieces.length = n
  induction n using Nat.strongRecOn generalizing r s with
  | ind n ih =>
      rcases readAll_eq_ok h with ⟨-, -, rfl⟩ | ⟨p, r₁, u, hstep, hrest⟩
      · exact .refl rf
      · have hlt := hstep.length_lt
        exact hstep.grows.trans (ih _ (by omega) hrest rfl)

/-- Reading that comes to its end takes in the piece that comes next. -/
theorem readAll_cons_eq_ok {rest : List Piece} (h : r.readAll s = .ok rf)
    (hs : s.pieces = p :: rest) :
    rest.head? ≠ some dangling ∧
      ∃ r₁ u, (r.next p s.offset).Gives ⟨rest, s.offset + p.width⟩ r₁ u ∧
        r₁.readAll u = .ok rf := by
  rcases readAll_eq_ok h with ⟨hnil, -⟩ | ⟨q, r₁, u, ⟨rest', t, hs', hadvance, -, hnext⟩, h⟩
  · rw [hs] at hnil
    contradiction
  · rw [hs, List.cons.injEq] at hs'
    obtain ⟨rfl, rfl⟩ := hs'
    obtain ⟨hhead, rfl⟩ := advance_eq_ok_iff.mp hadvance
    exact ⟨hhead, r₁, u, hnext, h⟩

theorem exists_fault_of_refusesAt {rest : List Piece} (hs : s.pieces = p :: rest)
    (h : (r.next p s.offset).RefusesAt ⟨rest, s.offset + p.width⟩) :
    ∃ fault, r.readAll s = .error fault := by
  cases hall : r.readAll s with
  | error fault => exact ⟨fault, rfl⟩
  | ok rf =>
      obtain ⟨-, r₁, u, hnext, -⟩ := readAll_cons_eq_ok hall hs
      exact absurd hnext (h r₁ u)

theorem exists_fault_of_nil (hs : s.pieces = []) (houter : r.outer ≠ []) :
    ∃ fault, r.readAll s = .error fault := by
  cases hall : r.readAll s with
  | error fault => exact ⟨fault, rfl⟩
  | ok rf =>
      rcases readAll_eq_ok hall with ⟨-, hnil, -⟩ | ⟨p, r₁, u, ⟨rest, t, hs', -⟩, -⟩
      · exact absurd hnil houter
      · rw [hs] at hs'
        contradiction

end Steps

end Reading

def startsComment (r : Reading) : List Piece → Bool
  | .plain '#' :: _ => r.frame.verbose
  | .plain '(' :: .plain '?' :: .plain '#' :: _ => true
  | _ => false

/-- If a condition starts with the next piece, it is a plain one. -/
def asksPlainly : List Piece → Bool
  | .plain '(' :: .plain '?' :: .plain '(' :: rest => plainCondition rest
  | _ => true

/-- If a comment starts with the next piece, nothing in it looks like a number or a set. -/
def inertComment (r : Reading) : List Piece → Bool
  | .plain '#' :: rest => !r.frame.verbose || inertUntil '\n' rest
  | .plain '(' :: .plain '?' :: .plain '#' :: rest => inertUntil ')' rest
  | _ => true

theorem inertComment_of_startsComment {r : Reading} {pieces : List Piece}
    (h : startsComment r pieces = false) : inertComment r pieces = true := by
  unfold inertComment
  split
  · rename_i rest
    have hverbose : r.frame.verbose = false := h
    rw [hverbose]
    rfl
  · contradiction
  · rfl

section Predicates

variable [Text.CharacterNames]

/-- A pattern without comments. -/
def Uncommented (pattern : String) : Prop :=
  ∀ x ∈ Reading.start.states ⟨cut pattern.toList, 0⟩, startsComment x.1 x.2 = false

/-- A pattern whose conditions name their groups, or give their numbers in ASCII digits. -/
def PlainConditions (pattern : String) : Prop :=
  ∀ x ∈ Reading.start.states ⟨cut pattern.toList, 0⟩, asksPlainly x.2 = true

/-- A pattern in whose comments nothing looks like a number or a set. -/
def InertComments (pattern : String) : Prop :=
  ∀ x ∈ Reading.start.states ⟨cut pattern.toList, 0⟩, inertComment x.1 x.2 = true

/-- A pattern without option letters that are meant for the whole of it. -/
def Unmoded (pattern : String) : Prop :=
  ∀ x ∈ Reading.start.states ⟨cut pattern.toList, 0⟩, setsModes x.2 = false

def Unnamed (pattern : String) : Prop :=
  ∀ x ∈ Reading.start.states ⟨cut pattern.toList, 0⟩, namesGroup x.2 = false

theorem Uncommented.inertComments {pattern : String} (h : Uncommented pattern) :
    InertComments pattern :=
  fun x hx => inertComment_of_startsComment (h x hx)

instance : DecidablePred Uncommented := fun pattern =>
  inferInstanceAs (Decidable
    (∀ x ∈ Reading.start.states ⟨cut pattern.toList, 0⟩, startsComment x.1 x.2 = false))

instance : DecidablePred PlainConditions := fun pattern =>
  inferInstanceAs (Decidable
    (∀ x ∈ Reading.start.states ⟨cut pattern.toList, 0⟩, asksPlainly x.2 = true))

instance : DecidablePred InertComments := fun pattern =>
  inferInstanceAs (Decidable
    (∀ x ∈ Reading.start.states ⟨cut pattern.toList, 0⟩, inertComment x.1 x.2 = true))

instance : DecidablePred Unmoded := fun pattern =>
  inferInstanceAs (Decidable
    (∀ x ∈ Reading.start.states ⟨cut pattern.toList, 0⟩, setsModes x.2 = false))

instance : DecidablePred Unnamed := fun pattern =>
  inferInstanceAs (Decidable
    (∀ x ∈ Reading.start.states ⟨cut pattern.toList, 0⟩, namesGroup x.2 = false))

end Predicates

example : Uncommented "[#](a)\\#(?x: b)" ∧ ¬ Uncommented "(?x:a #b\n)" ∧
    ¬ Uncommented "a(?#b)" := by
  decide +kernel

example : InertComments "(?#a (pair) \\1" ∧ ¬ InertComments "a(?#\\1)" ∧
    ¬ InertComments "a(?#[)" := by
  decide +kernel

example : Unmoded "(?i:a)" ∧ ¬ Unmoded "(?i)a" ∧ Unnamed "(?:a)(b)" ∧ ¬ Unnamed "(?P<n>a)" := by
  decide +kernel

example : PlainConditions "(?P<n>a)?(?(n)b)(?(1)c)" ∧ ¬ PlainConditions "(a)?(?( 1)b)" := by
  decide +kernel

/-! ### A piece on both sides -/

namespace Reading.Nests

variable {k : Nat} {base : Frame} {around : Groups} {tail : Option (List Piece)} {r r' : Reading}
variable {excused : Prop}

/-- The combined pattern is inside the group around the pattern. -/
theorem outer_ne_nil (h : r.Nests k base around r') : r'.outer ≠ [] := by
  have hstack := h.stack
  generalize r.frame = frame, r.outer = outer, r'.frame = frame', r'.outer = outer' at hstack ⊢
  cases hstack with
  | outermost => simp
  | inner _ _ houter => cases houter <;> simp

/-- What has a place alone has one inside. -/
theorem checkCloser (h : r.Nests k base around r') {p : Piece} {offset : Nat}
    (hcloser : r.checkCloser p offset = .ok ()) (offset' : Nat) :
    r'.checkCloser p offset' = .ok () := by
  have hopening := h.stack.head.opening
  unfold Reading.checkCloser at hcloser ⊢
  rw [if_neg fun hclose => h.outer_ne_nil hclose.2, hopening]
  split at hcloser
  · obtain ⟨modes, -, hcloser⟩ := bind_eq_ok.mp hcloser
    contradiction
  · cases hframe : r.frame.opening with
    | absent number present =>
        rw [hframe] at hcloser
        dsimp only at hcloser
        split at hcloser
        · contradiction
        · rename_i hbar
          exact if_neg hbar
    | _ => rfl

theorem outer_ne_nil_of_checkCloser {offset : Nat}
    (h : r.checkCloser (plain ')') offset = .ok ()) : r.outer ≠ [] := by
  intro houter
  rw [Reading.checkCloser, if_pos ⟨rfl, houter⟩] at h
  obtain ⟨modes, -, h⟩ := bind_eq_ok.mp h
  contradiction

theorem alongside_skipLine :
    Alongside excused
      (fun p p' => Beside k tail false p p' ∧ inertUntil '\n' p = true ∧ plain '\n' ∈ p)
      Reading.skipLine Reading.skipLine fun _ _ => Beside k tail false :=
  (alongside_skip ⟨by decide, by decide⟩ _ _).mono (fun h => ⟨h.1, h.2.1, .inl h.2.2⟩) fun h => h

/-- Parentheses around one term leave the term, spliced. -/
theorem leave_enter_pushTerm (r : Reading) (start : Nat) (verbose : Bool) (t : Term) :
    ((r.enter (.plain Modes.none Modes.none) start verbose).pushTerm t).leave =
      r.push (.spliced [t]) := by
  have hterms : alternation [[t]] = [t] := by rw [alternation]
  simp [Reading.leave, Reading.enter, Reading.pushTerm, Reading.push, Frame.push, Frame.allTerms,
    Frame.terms, Item.terms, hterms]

/-- A comment that runs to the end of its line takes the rest of the pattern, if it has no end. -/
theorem gives_skipLine {s t : Source} {x : Unit} (h : Reading.skipLine.Gives s x t)
    (hnot : plain '\n' ∉ s.pieces) : t.pieces = [] := by
  unfold Reading.skipLine at h
  generalize hs : s.pieces = pieces at hnot
  induction pieces generalizing s with
  | nil =>
      obtain ⟨-, rfl⟩ := gives_pure_iff.mp ((gives_loop_nil_iff hs).mp h)
      exact hs
  | cons p rest ih =>
      rw [List.mem_cons, not_or] at hnot
      obtain ⟨-, y, v, hround, hrest⟩ := (gives_loop_cons_iff hs).mp h
      rw [if_neg (Ne.symm hnot.1)] at hround
      obtain ⟨rfl, rfl⟩ := gives_pure_iff.mp hround
      rcases hrest with ⟨heq, -⟩ | ⟨_, heq, hloop⟩
      · contradiction
      · cases heq
        exact ih hloop rfl hnot.2

theorem lt_groupLimit_of_roomy {r r₁ : Reading} {s u : Source} {start : Nat} (hroom : r₁.Roomy k)
    (hclose : (s.pieces.drop (conditionDigits s.pieces).length).head? = some (plain ')'))
    (h : (r.readCondition start).Gives s r₁ u) :
    Text.decimalValue (conditionDigits s.pieces) + k < groupLimit := by
  obtain ⟨-, -, -, -, -, asked, ⟨-, ⟨a, ha, hnumber⟩, -⟩, rfl⟩ :=
    gives_readCondition_digits hclose h
  have hle := hroom.asked a ha
  rw [hnumber] at hle
  exact Nat.lt_of_le_of_lt hle (by decide)

variable [Text.CharacterNames]

theorem next_parenthesis (r : Reading) (offset : Nat) :
    r.next (plain '(') offset = r.readParenthesis offset := by
  have hspace : Reading.isSpace '(' = false := rfl
  simp [Reading.next, Reading.readPiece, hspace, Reading.repeatBounds?]

theorem next_bracket (r : Reading) (offset : Nat) :
    r.next (plain '[') offset = (do pure (r.pushTerm (← readSet offset))) := by
  have hspace : Reading.isSpace '[' = false := rfl
  simp [Reading.next, Reading.readPiece, hspace, Reading.repeatBounds?]

/-- A character that stays. A comment that it starts has an end. -/
theorem alongside_next_plain (h : r.Nests k base around r') {c : Char} (hc : Stays false c)
    (hclose : c = ')' → r.outer ≠ []) (offset offset' : Nat) :
    Alongside excused
      (fun p p' => Beside k tail false p p' ∧
        (r.frame.verbose = true → c = '#' → inertUntil '\n' p = true ∧ plain '\n' ∈ p))
      (r.next (plain c) offset) (r'.next (plain c) offset') (Carries k base around tail) := by
  unfold Reading.next
  refine .ite (fun _ => .pure fun hfit => ⟨h.bar, hfit.1⟩) fun _ => ?_
  refine .ite (fun heq => .pure fun hfit => ⟨h.leave (hclose ?_), hfit.1⟩) fun _ => ?_
  · exact Piece.plain.inj heq
  · unfold Reading.readPiece
    dsimp only
    rw [h.verbose]
    refine .ite (fun _ => .pure fun hfit => ⟨h, hfit.1⟩) fun _ => ?_
    refine .ite (fun hverbose => ?_) fun _ => ?_
    · rw [Bool.and_eq_true, beq_iff_eq] at hverbose
      refine Alongside.bind (alongside_skipLine.mono (fun hfit => ⟨hfit.1, ?_⟩) fun h => h)
        fun _ _ => .pure fun hfit => ⟨h, hfit⟩
      exact hfit.2 hverbose.1 hverbose.2
    · cases hbounds : Reading.repeatBounds? c with
      | some bounds =>
          exact (h.alongside_repeatLast hbounds offset offset').mono And.left fun h => h
      | none =>
          dsimp only
          split
          · exact absurd rfl hc.2
          · exact absurd rfl hc.1
          all_goals exact .pure fun hfit => ⟨h.pushTerm rfl, hfit.1⟩

theorem alongside_next_escaped (h : r.Nests k base around r') {c : Char}
    (hc : startsReference c = false) (offset offset' : Nat) :
    Alongside excused (Beside k tail false) (r.next (escaped c) offset)
      (r'.next (escaped c) offset') (Carries k base around tail) :=
  (alongside_termEscape r r' hc).bind fun _ _ => .pure fun hfit => ⟨h.pushTerm hfit.1, hfit.2⟩

theorem alongside_next_bracket (h : r.Nests k base around r') (offset offset' : Nat) :
    Alongside excused (SetStart k tail) (r.next (plain '[') offset) (r'.next (plain '[') offset')
      (Carries k base around tail) := by
  rw [next_bracket, next_bracket]
  exact (alongside_readSet offset offset').bind fun _ _ =>
    .pure fun hfit => ⟨h.pushTerm hfit.1, hfit.2⟩

theorem alongside_next_parenthesis (h : r.Nests k base around r') (offset offset' : Nat) :
    Alongside excused
      (fun p p' => Beside k tail false p p' ∧ p.take 2 ≠ [plain '?', plain '('] ∧
        (∀ rest, p = plain '?' :: plain '#' :: rest → inertUntil ')' rest = true) ∧
          (excused ∨ setsModes (plain '(' :: p) = false ∧ namesGroup (plain '(' :: p) = false))
      (r.next (plain '(') offset) (r'.next (plain '(') offset') (Carries k base around tail) := by
  rw [next_parenthesis, next_parenthesis]
  exact h.alongside_readParenthesis offset offset'

theorem gives_next_condition_iff {offset : Nat} {s t : Source} {r₁ : Reading} {rest : List Piece}
    (hs : s.pieces = plain '?' :: plain '(' :: rest) :
    (r.next (plain '(') offset).Gives s r₁ t ↔
      rest.head? ≠ some dangling ∧ (r.readCondition offset).Gives ⟨rest, s.offset + 2⟩ r₁ t := by
  rw [next_parenthesis, gives_readParenthesis_iff hs, gives_readExtension_condition_iff rfl]
  simp

theorem alongside_next_condition {before : Fit} {offset offset' : Nat}
    (h : Alongside excused before (r.readCondition offset) (r'.readCondition offset')
      (Carries k base around tail)) :
    Alongside excused
      (fun p p' => ∃ q q', p = plain '?' :: plain '(' :: q ∧ p' = plain '?' :: plain '(' :: q' ∧
        q'.head? ≠ some dangling ∧ before q q')
      (r.next (plain '(') offset) (r'.next (plain '(') offset') (Carries k base around tail) := by
  rintro s s' t r₁ ⟨q, q', hs, hs', hhead, hbefore⟩ hm
  obtain ⟨-, hm⟩ := (gives_next_condition_iff hs).mp hm
  rcases @h _ ⟨q', s'.offset + 2⟩ _ _ hbefore hm with ⟨r₁', t', hm', hfit⟩ | ⟨hexcused, hrefuses⟩
  · exact .inl ⟨r₁', t', (gives_next_condition_iff hs').mpr ⟨hhead, hm'⟩, hfit⟩
  · exact .inr ⟨hexcused, fun r₁' t' hm' =>
      hrefuses r₁' t' ((gives_next_condition_iff hs').mp hm').2⟩

/-! ### References -/

theorem gives_next_reference {c : Char} {offset : Nat} {s t : Source} {r₁ : Reading}
    (hc : startsReference c = true) (h : (r.next (escaped c) offset).Gives s r₁ t)
    (hhead : s.pieces.head? ≠ some dangling) :
    ∃ x, t.pieces = s.pieces.drop (referenceTail c s.pieces).length ∧
      t.pieces.head? ≠ some dangling ∧ r₁ = r.pushTerm x ∧
        r.Escapes (c :: referenceTail c s.pieces) x := by
  obtain ⟨x, u, hescape, h⟩ := gives_bind_iff.mp h
  obtain ⟨rfl, rfl⟩ := gives_pure_iff.mp h
  obtain ⟨hleft, hnext, hx⟩ := gives_digitEscape ((gives_termEscape_iff hc).mp hescape) hhead
  exact ⟨x, hleft, hnext, rfl, hx⟩

theorem gives_next_of_escapes {c : Char} {offset : Nat} {s : Source} {x : Term}
    (hc : startsReference c = true)
    (hnext : (s.pieces.drop (referenceTail c s.pieces).length).head? ≠ some dangling)
    (hx : r.Escapes (c :: referenceTail c s.pieces) x) :
    ∃ t, t.pieces = s.pieces.drop (referenceTail c s.pieces).length ∧
      (r.next (escaped c) offset).Gives s (r.pushTerm x) t := by
  obtain ⟨t, ht, hdigits⟩ := gives_digitEscape_of_escapes hnext hx
  exact ⟨t, ht, gives_bind_iff.mpr ⟨x, t, (gives_termEscape_iff hc).mpr hdigits,
    gives_pure_iff.mpr ⟨rfl, rfl⟩⟩⟩

/-- Three octal digits are the same character on both sides. -/
theorem alongside_next_octal (h : r.Nests k base around r') {c : Char}
    (hc : startsReference c = true) (offset offset' : Nat) :
    Alongside excused
      (fun p p' => p.head? ≠ some dangling ∧ (referenceTail c p).length = 2 ∧
        ∃ moved, p' = (referenceTail c p).map plain ++ moved ∧ Moved k tail false (p.drop 2) moved)
      (r.next (escaped c) offset) (r'.next (escaped c) offset') (Carries k base around tail) := by
  rintro s s' t r₁ ⟨hhead, htwo, moved, hs', hmoved⟩ hm
  obtain ⟨x, hleft, hnext, rfl, hx⟩ := gives_next_reference hc hm hhead
  rw [htwo] at hleft
  have hbeside : Beside k tail false t.pieces moved := ⟨by rw [hleft]; exact hmoved, hnext⟩
  have htail : referenceTail c s'.pieces = referenceTail c s.pieces := by
    rw [hs', referenceTail_append htwo]
  have hdrop : s'.pieces.drop (referenceTail c s'.pieces).length = moved := by
    rw [htail, hs', ← List.length_map plain, List.drop_left]
  rcases hx with ⟨hthree, hcode, rfl⟩ | ⟨hthree, -⟩
  · obtain ⟨t', ht', hm'⟩ := @gives_next_of_escapes r' _ c offset' s' _ hc
      (by rw [hdrop]; exact hbeside.head_moved) (by rw [htail]; exact .inl ⟨hthree, hcode, rfl⟩)
    refine .inl ⟨_, t', hm', h.pushTerm rfl, ?_⟩
    rw [ht', hdrop]
    exact hbeside
  · exact absurd (by rw [List.length_cons, htwo]) hthree

/-- A reference in parentheses takes three steps. -/
theorem readAll_reference {s : Source} {n : Nat} {width : Width} {d : Char} {digits : List Char}
    {moved : List Piece} (hpos : 0 < n) (hle : n ≤ 99) (hnumeral : numeral n = d :: digits)
    (hs : s.pieces = plain '(' :: plain '?' :: plain ':' :: escaped d ::
      (digits.map plain ++ plain ')' :: moved)) (hhead : moved.head? ≠ some dangling)
    (href : r.RefersTo n width) :
    ∃ u, u.pieces = moved ∧ r.readAll s = (r.push (.spliced [.backref n width])).readAll u := by
  have hdigits : digits.length = (digits.map plain).length := (List.length_map _).symm
  have hlength := length_numeral_le hle
  rw [hnumeral, List.length_cons] at hlength
  -- the opening parenthesis and its mark
  have hopen : r.Step s (plain '(')
      (r.enter (.plain Modes.none Modes.none) s.offset r.frame.verbose)
      ⟨escaped d :: (digits.map plain ++ plain ')' :: moved), s.offset + 3⟩ := by
    refine Reading.step_of_gives hs (by simp) (Reading.checkCloser_of_ne (by simp) (by simp)) ?_
    rw [next_parenthesis, gives_readParenthesis_iff rfl, gives_readExtension_plain_iff rfl]
    exact ⟨by simp, by simp, rfl, rfl⟩
  rw [hopen.readAll_eq]
  generalize hinside : r.enter (.plain Modes.none Modes.none) s.offset r.frame.verbose = inside
  -- the reference
  have htail := referenceTail_numeral hle hnumeral moved
  have hvalue : digitsValue 10 (d :: digits) = n := by
    rw [← hnumeral, digitsValue_ten fun _ he => isAsciiDigit_of_mem_numeral he,
      decimalValue_numeral]
  have hescapes : inside.Escapes (d :: digits) (.backref n width) := by
    refine .inr ⟨by rw [List.length_cons]; omega, width, ?_, by rw [hvalue]⟩
    rw [hvalue, ← hinside]
    exact ⟨href.lt_next, href.lookup, href.allows⟩
  have hstart := startsReference_numeral hpos hle hnumeral
  obtain ⟨u, hu, hgives⟩ := @gives_next_of_escapes inside _ d (s.offset + 3)
    ⟨digits.map plain ++ plain ')' :: moved, s.offset + 3 + 2⟩ (.backref n width) hstart
    (by dsimp only; rw [htail, hdigits, List.drop_left]; simp)
    (by dsimp only; rw [htail]; exact hescapes)
  dsimp only at hu
  rw [htail, hdigits, List.drop_left] at hu
  have hreference : inside.Step
      ⟨escaped d :: (digits.map plain ++ plain ')' :: moved), s.offset + 3⟩ (escaped d)
      (inside.pushTerm (.backref n width)) u := by
    refine Reading.step_of_gives rfl ?_ (Reading.checkCloser_of_ne (by simp) (by simp)) hgives
    cases digits <;> simp
  rw [hreference.readAll_eq]
  -- the closing parenthesis
  have hclose : (inside.pushTerm (.backref n width)).Step u (plain ')')
      (inside.pushTerm (.backref n width)).leave ⟨moved, u.offset + 1⟩ := by
    refine Reading.step_of_gives hu hhead ?_ (gives_pure_iff.mpr ⟨rfl, rfl⟩)
    rw [← hinside]
    exact if_neg fun h => List.cons_ne_nil _ _ h.2
  rw [hclose.readAll_eq, ← hinside, leave_enter_pushTerm]
  exact ⟨_, rfl, rfl⟩

/-- A reference refers to the group that has the moved number. -/
theorem next_reference {s' t u : Source} {r₁ : Reading} {c d : Char} {digits : List Char}
    {moved : List Piece} {offset : Nat} (hk : 0 < k) (h : r.Nests k base around r')
    (hc : startsReference c = true) (hlength : (referenceTail c t.pieces).length ≠ 2)
    (hle : Text.decimalValue (c :: referenceTail c t.pieces) + k ≤ 99)
    (hnumeral : numeral (Text.decimalValue (c :: referenceTail c t.pieces) + k) = d :: digits)
    (hrest : Moved k tail false (t.pieces.drop (referenceTail c t.pieces).length) moved)
    (hs' : s'.pieces = plain '(' :: plain '?' :: plain ':' :: escaped d ::
      (digits.map plain ++ plain ')' :: moved))
    (hnext : (r.next (escaped c) offset).Gives t r₁ u)
    (hhead : t.pieces.head? ≠ some dangling) :
    ∃ r₁' u', Carries k base around tail r₁ r₁' u.pieces u'.pieces ∧
      r'.readAll s' = r₁'.readAll u' := by
  obtain ⟨x, hu, hleft, rfl, hx⟩ := gives_next_reference hc hnext hhead
  obtain ⟨width, href, rfl⟩ := hx.refersTo hc hlength
  have hbeside : Beside k tail false u.pieces moved := ⟨by rw [hu]; exact hrest, hleft⟩
  obtain ⟨u', rfl, hall⟩ := readAll_reference (by omega) hle hnumeral hs' hbeside.head_moved
    (h.refersTo href)
  exact ⟨_, u', ⟨h.push (.reference _ width), hbeside⟩, hall⟩

/-! ### One piece after another -/

/-- Comments that run to the end of their line have one: outside of all parentheses there are none.
-/
theorem mem_of_gives_comment (h : r.Nests k base around r') (hverbose : r.frame.verbose = true)
    {t u : Source} {r₁ : Reading} {offset : Nat}
    (hnext : (r.next (plain '#') offset).Gives t r₁ u) (hended : u.pieces = [] → r₁.outer = []) :
    plain '\n' ∈ t.pieces := by
  by_contra hnot
  have hspace : Reading.isSpace '#' = false := rfl
  have hcomment : r.next (plain '#') offset = (do Reading.skipLine; pure r) := by
    simp [Reading.next, Reading.readPiece, hverbose, hspace]
  rw [hcomment] at hnext
  obtain ⟨x, v, hskip, hnext⟩ := gives_bind_iff.mp hnext
  obtain ⟨rfl, rfl⟩ := gives_pure_iff.mp hnext
  have houter := hended (gives_skipLine hskip hnot)
  have hstack := h.stack
  rw [houter] at hstack
  obtain ⟨-, -, hplain, -⟩ := hstack.of_singleton
  rw [hverbose] at hplain
  contradiction

theorem le_of_roomy {r r₁ : Reading} {s u : Source} {c : Char} {offset : Nat}
    (hroom : r₁.Roomy k) (hc : startsReference c = true)
    (hlength : (referenceTail c s.pieces).length ≠ 2)
    (h : (r.next (escaped c) offset).Gives s r₁ u) (hhead : s.pieces.head? ≠ some dangling) :
    Text.decimalValue (c :: referenceTail c s.pieces) + k ≤ 99 := by
  obtain ⟨x, -, -, rfl, hx⟩ := gives_next_reference hc h hhead
  obtain ⟨width, href, -⟩ := hx.refersTo hc hlength
  have hlt := href.lt_next
  have hnext := hroom.next
  change r.groups.next + k ≤ 100 at hnext
  omega

/-- Where both take in one piece, what is read next to each other stays so. -/
theorem step_of_alongside {before : Fit} {s' t u : Source} {p : Piece} {others : List Piece}
    {r₁ : Reading} {offset : Nat} (h : r.Nests k base around r')
    (hcloser : r.checkCloser p offset = .ok ()) (hnext : (r.next p offset).Gives t r₁ u)
    (hs' : s'.pieces = p :: others) (hhead : others.head? ≠ some dangling)
    (halong : ∀ offset offset', Alongside excused before (r.next p offset) (r'.next p offset')
      (Carries k base around tail)) (hbefore : before t.pieces others) :
    (∃ r₁' u', Carries k base around tail r₁ r₁' u.pieces u'.pieces ∧
        r'.readAll s' = r₁'.readAll u') ∨
      excused ∧ ∃ fault, r'.readAll s' = .error fault := by
  rcases @halong offset s'.offset _ ⟨others, s'.offset + p.width⟩ _ _ hbefore hnext with
    ⟨r₁', u', hnext', hfit⟩ | ⟨hexcused, hrefuses⟩
  · have hstep := Reading.step_of_gives hs' hhead (h.checkCloser hcloser _) hnext'
    exact .inl ⟨r₁', u', hfit, hstep.readAll_eq⟩
  · exact .inr ⟨hexcused, Reading.exists_fault_of_refusesAt hs' hrefuses⟩

/-- A step of the pattern alone is a step, or three, of the combined one, or there is a fault. -/
theorem step {s s' u : Source} {p : Piece} {r₁ : Reading} (hk : 0 < k)
    (h : r.Nests k base around r') (hbeside : Beside k tail false s.pieces s'.pieces)
    (hstep : r.Step s p r₁ u) (hended : u.pieces = [] → r₁.outer = [])
    (hcomment : inertComment r s.pieces = true) (hplain : asksPlainly s.pieces = true)
    (hbare : excused ∨ setsModes s.pieces = false ∧ namesGroup s.pieces = false)
    (hroom : excused ∨ r₁.Roomy k) :
    (∃ r₁' u', Carries k base around tail r₁ r₁' u.pieces u'.pieces ∧
        r'.readAll s' = r₁'.readAll u') ∨
      excused ∧ ∃ fault, r'.readAll s' = .error fault := by
  obtain ⟨rest, t, hs, hadvance, hcloser, hnext⟩ := hstep
  obtain ⟨hhead, rfl⟩ := advance_eq_ok_iff.mp hadvance
  have hdangling := hbeside.head
  rw [hs] at hdangling hcomment hplain hbare
  have hmoved := hbeside.moved
  rw [hs] at hmoved
  generalize hpieces' : s'.pieces = pieces' at hmoved
  cases hmoved with
  | dangling => exact absurd rfl hdangling
  | plain hparen hbracket hrest =>
      have hothers : Beside k tail false rest _ := ⟨hrest, hhead⟩
      refine h.step_of_alongside hcloser hnext hpieces' hothers.head_moved
        (h.alongside_next_plain ⟨hparen, hbracket⟩ ?_) ⟨hothers, ?_⟩
      · rintro rfl
        exact outer_ne_nil_of_checkCloser hcloser
      · rintro hverbose rfl
        refine ⟨?_, h.mem_of_gives_comment hverbose hnext hended⟩
        rw [inertComment, hverbose] at hcomment
        exact hcomment
  | escaped hc hrest =>
      have hothers : Beside k tail false rest _ := ⟨hrest, hhead⟩
      exact h.step_of_alongside hcloser hnext hpieces' hothers.head_moved
        (h.alongside_next_escaped hc) hothers
  | octal hc hlength hrest =>
      refine h.step_of_alongside hcloser hnext hpieces' ?_ (h.alongside_next_octal hc)
        ⟨hhead, hlength, _, rfl, hrest⟩
      cases htail : referenceTail _ rest with
      | nil =>
          rw [htail] at hlength
          contradiction
      | cons d digits => simp
  | reference hc hlength hle hnumeral hrest =>
      exact .inl (h.next_reference hk hc hlength hle hnumeral hrest hpieces' hnext hhead)
  | largeReference hafter hc hlength hgt =>
      rcases hroom with hexcused | hroom
      · exact .inr ⟨hexcused, Reading.exists_fault_of_nil hpieces' h.outer_ne_nil⟩
      · have hle := le_of_roomy hroom hc hlength hnext hhead
        exact absurd hgt (Nat.not_lt.mpr hle)
  | opened hopen hrest =>
      have hothers : Beside k tail false rest _ := ⟨hrest, hhead⟩
      refine h.step_of_alongside hcloser hnext hpieces' hothers.head_moved
        h.alongside_next_parenthesis ⟨hothers, hopen, fun more hmore => ?_, hbare⟩
      dsimp only at hmore
      rw [hmore] at hcomment
      exact hcomment
  | condition hne hclose hrest =>
      obtain ⟨hquestion, hcondition⟩ := (gives_next_condition_iff rfl).mp hnext
      refine h.step_of_alongside hcloser hnext hpieces' (by simp)
        (fun offset offset' => alongside_next_condition (h.alongside_numberedCondition _ _))
        ⟨_, _, rfl, rfl, ?_, hclose, ?_, _, rfl, hrest⟩
      · cases hnumeral : numeral _ with
        | nil => exact absurd hnumeral (numeral_ne_nil _)
        | cons d digits => simp
      · exact hroom.imp_right fun hroom => lt_groupLimit_of_roomy hroom hclose hcondition
  | largeCondition hafter hclose hfault =>
      rcases hroom with hexcused | hroom
      · exact .inr ⟨hexcused, Reading.exists_fault_of_nil hpieces' h.outer_ne_nil⟩
      · obtain ⟨-, hcondition⟩ := (gives_next_condition_iff rfl).mp hnext
        obtain ⟨-, -, hlength, -⟩ := gives_readCondition_digits hclose hcondition
        rw [writeCondition_of_lt hlength (lt_groupLimit_of_roomy hroom hclose hcondition)] at hfault
        contradiction
  | @named pieces moved hother hrest =>
      obtain ⟨hquestion, -⟩ := (gives_next_condition_iff rfl).mp hnext
      refine h.step_of_alongside hcloser hnext hpieces' (by simp)
        (fun offset offset' => alongside_next_condition (h.alongside_namedCondition _ _))
        ⟨_, _, rfl, rfl, ?_, hplain, hother, _, rfl, hrest⟩
      cases hdigits : conditionDigits pieces with
      | nil =>
          rw [hdigits] at hrest
          exact Beside.head_moved ⟨hrest, hquestion⟩
      | cons d digits => simp
  | bracket hmarks hrest =>
      have hset : SetStart k tail rest _ := ⟨hhead, _, _, hmarks, rfl, hrest⟩
      exact h.step_of_alongside hcloser hnext hpieces' hset.head_moved h.alongside_next_bracket hset

/-! ### The whole pattern -/

theorem outer_eq_nil_of_readAll {s : Source} {rf : Reading} (h : r.readAll s = .ok rf)
    (hs : s.pieces = []) : r.outer = [] := by
  rcases Reading.readAll_eq_ok h with ⟨-, houter, -⟩ | ⟨p, r₁, u, ⟨rest, t, hcons, -⟩, -⟩
  · exact houter
  · rw [hs] at hcons
    contradiction

/-- At the end of the pattern alone, the combined one is at the end of the group, if it has not been
refused before. -/
theorem readAll {s s' : Source} {rf : Reading} (hk : 0 < k) (h : r.Nests k base around r')
    (hbeside : Beside k tail false s.pieces s'.pieces) (hr : r.readAll s = .ok rf)
    (hcomment : ∀ x ∈ r.states s, inertComment x.1 x.2 = true)
    (hplain : ∀ x ∈ r.states s, asksPlainly x.2 = true)
    (hbare : excused ∨ ∀ x ∈ r.states s, setsModes x.2 = false ∧ namesGroup x.2 = false)
    (hroom : excused ∨ rf.Roomy k) :
    (∃ rest r₁' u', tail = some rest ∧ rf.Nests k base around r₁' ∧ rf.outer = [] ∧
        u'.pieces = plain ')' :: rest ∧ r'.readAll s' = r₁'.readAll u') ∨
      excused ∧ ∃ fault, r'.readAll s' = .error fault := by
  generalize hlength : s.pieces.length = n
  induction n using Nat.strongRecOn generalizing r r' s s' with
  | ind n ih =>
      rcases Reading.readAll_eq_ok hr with ⟨hnil, houter, rfl⟩ | ⟨p, r₁, u, hstep, hr₁⟩
      · have hmoved := hbeside.moved
        rw [hnil] at hmoved
        generalize hpieces' : s'.pieces = pieces' at hmoved
        cases hmoved with
        | done _ hafter => exact .inl ⟨_, r', s', hafter, h, houter, hpieces', rfl⟩
      · rw [hstep.states_eq] at hcomment hplain hbare
        rw [List.forall_mem_cons] at hcomment hplain
        simp only [List.forall_mem_cons] at hbare
        have hstepped := h.step hk hbeside hstep (outer_eq_nil_of_readAll hr₁) hcomment.1 hplain.1
          (hbare.imp_right And.left)
          (hroom.imp_right fun hroom => hroom.of_grows (Reading.grows_readAll hr₁))
        rcases hstepped with ⟨r₁', u', ⟨hnests, hbeside'⟩, heq⟩ | hrefused
        · have hlt := hstep.length_lt
          rw [heq]
          exact ih _ (by omega) hnests hbeside' hr₁ hcomment.2 hplain.2 (hbare.imp_right And.right)
            rfl
        · exact .inr hrefused

end Reading.Nests

end Lookahead.Pattern
