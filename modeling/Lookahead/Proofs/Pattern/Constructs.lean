import Lookahead.Proofs.Pattern.Nested

/-!
Constructs that are read next to each other. Repetitions, groups with names, look arounds and parts
with their own modes are read from pieces that fit together, on readings that do (`Reading.Nests`),
and leave readings and pieces that fit together again (`Carries`). What a reading refuses alone need
not be compared; and what is refused inside a group, such as option letters for the whole pattern,
is not there in a pattern that could be combined.
-/

namespace Lookahead.Pattern

open Piece Scan Term

variable {k : Nat} {base : Frame} {around : Groups} {tail : Option (List Piece)} {excused : Prop}

/-- What is read on both sides, and what is left of both patterns. -/
abbrev Carries (k : Nat) (base : Frame) (around : Groups) (tail : Option (List Piece))
    (r r' : Reading) : Fit :=
  fun p p' => r.Nests k base around r' ∧ Beside k tail false p p'

/-- Inside a look behind, the group has been closed before that started. -/
def Reading.Allows (r : Reading) (number : Nat) : Prop :=
  ∀ limit, r.groups.limit = some limit →
    (∃ width, r.groups.widths.lookup number = some width) ∧ number < limit

theorem gives_checkLookbehind_iff {r : Reading} {number : Nat} {s t : Source} {x : Unit} :
    (r.checkLookbehind number).Gives s x t ↔ t = s ∧ r.Allows number := by
  unfold Reading.checkLookbehind Reading.Allows
  cases r.groups.limit with
  | none => simp
  | some limit =>
      cases r.groups.widths.lookup number with
      | none =>
          have hrefuses : ¬ (failBack .openGroup 0).Gives s x t := refuses_failBack _ _ s x t
          simpa using hrefuses
      | some width =>
          by_cases hle : limit ≤ number
          · have hrefuses : ¬ (failBack .lookbehindReference 0).Gives s x t :=
              refuses_failBack _ _ s x t
            simpa [hle, Nat.not_lt.mpr hle] using hrefuses
          · simp [hle, Nat.lt_of_not_le hle]

/-! ### Comments, and option letters for the whole pattern -/

/-- Renumbering leaves the next piece as it is, and takes it neither for the start of a set nor for
that of a condition. -/
def isInert (p : Piece) (rest : List Piece) : Bool :=
  match p with
  | .plain '[' => false
  | .plain '(' => rest.take 2 != [plain '?', plain '(']
  | .escaped c => !startsReference c
  | _ => true

/-- Renumbering leaves everything up to a closing character as it is. -/
def inertUntil (closer : Char) : List Piece → Bool
  | [] => true
  | p :: rest => p == plain closer || (isInert p rest && inertUntil closer rest)

theorem Beside.step_inert {p : Piece} {pieces moved : List Piece}
    (h : Beside k tail false (p :: pieces) moved) (hinert : isInert p pieces = true)
    (hhead : pieces.head? ≠ some dangling) :
    ∃ others, moved = p :: others ∧ Beside k tail false pieces others := by
  have hdangling := h.head
  cases h.moved with
  | dangling => exact absurd rfl hdangling
  | plain _ _ hrest => exact ⟨_, rfl, hrest, hhead⟩
  | escaped _ hrest => exact ⟨_, rfl, hrest, hhead⟩
  | opened _ hrest => exact ⟨_, rfl, hrest, hhead⟩
  | octal hc _ _ => simp [isInert, hc] at hinert
  | reference hc _ _ _ _ => simp [isInert, hc] at hinert
  | largeReference _ hc _ _ => simp [isInert, hc] at hinert
  | condition _ _ _ => simp [isInert] at hinert
  | largeCondition _ _ _ => simp [isInert] at hinert
  | named _ _ => simp [isInert] at hinert
  | bracket _ _ => simp [isInert] at hinert

/-- Skipping up to a closing character, which is there or has to be there. -/
theorem alongside_skip {closer : Char} (hcloser : Stays false closer)
    (atEnd atEnd' : Unit → Scan Unit) :
    Alongside excused
      (fun p p' => Beside k tail false p p' ∧ inertUntil closer p = true ∧
        (plain closer ∈ p ∨ Refuses (atEnd ())))
      (loop (fun _ p => if p = plain closer then pure (.inr ()) else pure (.inl ())) atEnd ())
      (loop (fun _ p => if p = plain closer then pure (.inr ()) else pure (.inl ())) atEnd' ())
      fun _ _ => Beside k tail false := by
  refine Alongside.loop (fun _ _ p p' => Beside k tail false p p' ∧ inertUntil closer p = true ∧
    (plain closer ∈ p ∨ Refuses (atEnd ()))) ?_ ?_
  · rintro _ _ p rest p' ⟨hbeside, hinert, hclosed⟩ hhead
    rw [inertUntil, Bool.or_eq_true, beq_iff_eq, Bool.and_eq_true] at hinert
    by_cases hp : p = plain closer
    · subst hp
      obtain ⟨others, rfl, hothers⟩ := hbeside.step hcloser hhead
      refine .inr ⟨_, others, rfl, hothers.head_moved, ?_⟩
      rw [if_pos rfl]
      exact .pure fun h => .inl ⟨(), (), rfl, rfl, by rw [h.1, h.2]; exact hothers⟩
    · obtain ⟨hinert, hrest⟩ := hinert.resolve_left hp
      obtain ⟨others, rfl, hothers⟩ := hbeside.step_inert hinert hhead
      refine .inr ⟨_, others, rfl, hothers.head_moved, ?_⟩
      rw [if_neg hp]
      refine .pure fun h => .inr ⟨(), (), rfl, rfl, by rw [h.1, h.2]; exact hothers, ?_⟩
      rw [h.1]
      refine ⟨hrest, hclosed.imp_left fun hmem => ?_⟩
      exact (List.mem_cons.mp hmem).resolve_left (Ne.symm hp)
  · rintro _ _ p' ⟨-, -, hmem | hrefuses⟩
    · simp at hmem
    · exact hrefuses

def closesModes : List Piece → Bool
  | .plain ')' :: _ => true
  | .plain c :: rest => (Modes.ofLetter? c).isSome && closesModes rest
  | _ => false

def setsModes : List Piece → Bool
  | .plain '(' :: .plain '?' :: rest => closesModes rest
  | _ => false

def namesGroup : List Piece → Bool
  | .plain '(' :: .plain '?' :: .plain 'P' :: .plain '<' :: _ => true
  | _ => false

def Announced (excused : Prop) (k : Nat) (tail : Option (List Piece)) : Fit := fun p p' =>
  Beside k tail false p p' ∧ p.head? ≠ some (plain '(') ∧
    (∀ rest, p = plain '#' :: rest → inertUntil ')' rest = true) ∧
      (excused ∨ closesModes p = false ∧ p.take 2 ≠ [plain 'P', plain '<'])

def Modes.Asks (m : Modes) (c : Char) : Prop :=
  c = 'a' ∧ m.ascii = true ∨ c = 'u' ∧ m.unicode = true

theorem Modes.asks_union {m n : Modes} {c : Char} : (m.union n).Asks c ↔ m.Asks c ∨ n.Asks c := by
  simp only [Modes.Asks, Modes.union, Bool.or_eq_true]
  grind

theorem eq_of_asks {mode : Modes} {c d : Char} (hd : Modes.ofLetter? d = some mode)
    (h : mode.Asks c) : d = c := by
  unfold Modes.ofLetter? at hd
  unfold Modes.Asks at h
  split at hd <;> cases hd <;> simp_all

theorem gives_turnOn {on on' : Modes} {c : Char} {what : String} {s t : Source}
    (h : (Reading.turnOn on c what).Gives s on' t) :
    ∃ mode, Modes.ofLetter? c = some mode ∧ on' = on.union mode ∧ t = s := by
  unfold Reading.turnOn at h
  split at h
  · exact absurd h (refuses_failBack _ _ _ _ _)
  · split at h
    · exact absurd h (refuses_failMode _ _ _ _ _)
    · rename_i mode hmode
      dsimp only at h
      split at h
      · exact absurd h (refuses_failBack _ _ _ _ _)
      · obtain ⟨rfl, rfl⟩ := gives_pure_iff.mp h
        exact ⟨mode, hmode, rfl, rfl⟩

def letterRound (what : String) (on : Modes) (p : Piece) : Scan (Modes ⊕ (Modes × Char)) :=
  match p with
  | .plain c =>
    if c = ')' ∨ c = '-' ∨ c = ':' then pure (.inr (on, c))
    else do pure (.inl (← Reading.turnOn on c what))
  | p => Reading.failMode p what

theorem modesOn_eq (first : Char) :
    Reading.modesOn first = (do
      let on ← Reading.turnOn Modes.none first "-, : or )"
      loop (letterRound "-, : or )") (fun _ => failBack (.missing "-, : or )") 0) on) := rfl

theorem gives_letterRound {what : String} {on : Modes} {p : Piece} {y : Modes ⊕ (Modes × Char)}
    {s t : Source} (h : (letterRound what on p).Gives s y t) :
    t = s ∧ ∃ c, p = plain c ∧ (y = .inr (on, c) ∨
      ∃ mode, Modes.ofLetter? c = some mode ∧ y = .inl (on.union mode)) := by
  unfold letterRound at h
  split at h
  · rename_i c
    split at h
    · obtain ⟨rfl, rfl⟩ := gives_pure_iff.mp h
      exact ⟨rfl, c, rfl, .inl rfl⟩
    · obtain ⟨on', u, hon, hnext⟩ := gives_bind_iff.mp h
      obtain ⟨mode, hmode, rfl, rfl⟩ := gives_turnOn hon
      obtain ⟨rfl, rfl⟩ := gives_pure_iff.mp hnext
      exact ⟨rfl, c, rfl, .inr ⟨mode, hmode, rfl⟩⟩
  · exact absurd h (refuses_failMode _ _ _ _ _)

/-- Letters up to a closing parenthesis: all of them are option letters, and an alphabet that is
asked for after them was asked for before or is one of theirs. -/
theorem exists_letters_of_gives_letterRounds {what : String} {on : Modes} {atEnd : Modes → Scan _}
    {s t : Source} {x : Modes × Char} (hend : ∀ on, Refuses (atEnd on))
    (h : (loop (letterRound what) atEnd on).Gives s x t) (hx : x.2 = ')') :
    ∃ letters : List Char, s.pieces = letters.map plain ++ plain ')' :: t.pieces ∧
      (∀ d ∈ letters, (Modes.ofLetter? d).isSome = true) ∧
        ∀ c, x.1.Asks c → on.Asks c ∨ c ∈ letters := by
  generalize hs : s.pieces = pieces
  induction pieces generalizing s on with
  | nil => exact absurd ((gives_loop_nil_iff hs).mp h) (hend _ _ _ _)
  | cons p rest ih =>
      obtain ⟨-, y, v, hround, hrest⟩ := (gives_loop_cons_iff hs).mp h
      obtain ⟨rfl, c, rfl, rfl | ⟨mode, hmode, rfl⟩⟩ := gives_letterRound hround
      · -- the mark that ends the letters
        rcases hrest with ⟨heq, rfl⟩ | ⟨_, heq, -⟩
        · cases heq
          obtain rfl : c = ')' := hx
          exact ⟨[], rfl, nofun, fun _ => .inl⟩
        · contradiction
      · rcases hrest with ⟨heq, -⟩ | ⟨_, heq, hloop⟩
        · contradiction
        · cases heq
          obtain ⟨letters, rfl, hall, hasks⟩ := ih hloop rfl
          refine ⟨c :: letters, rfl, List.forall_mem_cons.mpr ⟨by rw [hmode]; rfl, hall⟩,
            fun d hd => ?_⟩
          rcases hasks d hd with hd | hd
          · rcases Modes.asks_union.mp hd with hd | hd
            · exact .inl hd
            · exact .inr (eq_of_asks hmode hd ▸ List.mem_cons_self)
          · exact .inr (List.mem_cons_of_mem _ hd)

theorem exists_letters_of_gives_modesOn {first : Char} {s t : Source} {x : Modes × Char}
    (h : (Reading.modesOn first).Gives s x t) (hx : x.2 = ')') :
    ∃ letters : List Char, s.pieces = letters.map plain ++ plain ')' :: t.pieces ∧
      (∀ d ∈ first :: letters, (Modes.ofLetter? d).isSome = true) ∧
        ∀ c, x.1.Asks c → c ∈ first :: letters := by
  rw [modesOn_eq] at h
  obtain ⟨on, u, hon, hloop⟩ := gives_bind_iff.mp h
  obtain ⟨mode, hmode, rfl, rfl⟩ := gives_turnOn hon
  obtain ⟨letters, hs, hall, hasks⟩ :=
    exists_letters_of_gives_letterRounds (fun _ => refuses_failBack _ _) hloop hx
  refine ⟨letters, hs, List.forall_mem_cons.mpr ⟨by rw [hmode]; rfl, hall⟩, fun c hc => ?_⟩
  rcases hasks c hc with hc | hc
  · rcases Modes.asks_union.mp hc with hc | hc
    · simp [Modes.Asks, Modes.none] at hc
    · exact eq_of_asks hmode hc ▸ List.mem_cons_self
  · exact List.mem_cons_of_mem _ hc

theorem closesModes_of_letters {letters : List Char} {rest : List Piece}
    (h : ∀ d ∈ letters, (Modes.ofLetter? d).isSome = true) :
    closesModes (letters.map plain ++ plain ')' :: rest) = true := by
  induction letters with
  | nil => rfl
  | cons c letters ih =>
      obtain ⟨hc, hletters⟩ := List.forall_mem_cons.mp h
      rw [List.map_cons, List.cons_append]
      unfold closesModes
      split
      · rfl
      · rename_i heq
        cases heq
        rw [hc, ih hletters]
        rfl
      · rename_i hnot
        exact absurd rfl (hnot c _)

def turnedOff (on off : Modes) : Scan (Modes × Option Modes) :=
  if off.template then failBack .modeTurnedOff 1
  else if on.inter off ≠ Modes.none then failBack .turnedOnAndOff 1
  else pure (on, some off)

def afterModesOn (x : Modes × Char) : Scan (Modes × Option Modes) :=
  if x.2 = ')' then pure (x.1, none)
  else if x.1.template then failBack .modeTurnedOn 1
  else if x.2 = '-' then Reading.modesOff >>= turnedOff x.1 else pure Modes.none >>= turnedOff x.1

theorem readModes_eq (first : Char) :
    Reading.readModes first =
      if first = '-' then pure (Modes.none, first) >>= afterModesOn
      else Reading.modesOn first >>= afterModesOn := rfl

theorem ensures_afterModesOn {x : Modes × Char} (hx : x.2 ≠ ')') :
    (afterModesOn x).Ensures fun y => y.2 ≠ none := by
  have hoff : ∀ off, (turnedOff x.1 off).Ensures fun y => y.2 ≠ none := by
    refine fun off => .ite (fun _ => .of_refuses (refuses_failBack _ _)) fun _ => ?_
    exact .ite (fun _ => .of_refuses (refuses_failBack _ _)) fun _ => .pure (by simp)
  unfold afterModesOn
  rw [if_neg hx]
  refine .ite (fun _ => .of_refuses (refuses_failBack _ _)) fun _ => ?_
  exact .ite (fun _ => .bind hoff) fun _ => .bind hoff

/-- Letters that are meant for the whole pattern stand up to a closing parenthesis. -/
theorem exists_letters_of_gives_readModes {first : Char} {s t : Source}
    {x : Modes × Option Modes} (h : (Reading.readModes first).Gives s x t) (hx : x.2 = none) :
    ∃ letters : List Char, s.pieces = letters.map plain ++ plain ')' :: t.pieces ∧
      (∀ d ∈ first :: letters, (Modes.ofLetter? d).isSome = true) ∧
        ∀ c, x.1.Asks c → c ∈ first :: letters := by
  rw [readModes_eq] at h
  split at h
  · rename_i hfirst
    have hmark : first ≠ ')' := by
      rw [hfirst]
      decide
    exact absurd hx (ensures_afterModesOn hmark (gives_pure_bind_iff.mp h))
  · obtain ⟨y, u, hy, hrest⟩ := gives_bind_iff.mp h
    have hclose : y.2 = ')' := by
      by_contra hne
      exact ensures_afterModesOn hne hrest hx
    rw [afterModesOn, if_pos hclose] at hrest
    obtain ⟨rfl, rfl⟩ := gives_pure_iff.mp hrest
    exact exists_letters_of_gives_modesOn hy hclose

theorem closesModes_of_gives_readModes {first : Char} {s t : Source} {x : Modes × Option Modes}
    (h : (Reading.readModes first).Gives s x t) (hx : x.2 = none) :
    closesModes (plain first :: s.pieces) = true := by
  obtain ⟨letters, hs, hall, -⟩ := exists_letters_of_gives_readModes h hx
  rw [hs]
  exact @closesModes_of_letters (first :: letters) _ hall

namespace Reading.Nests

variable {r r' : Reading} {tail : Option (List Piece)} {fit : Fit}

/-- What is allowed alone is allowed inside, where there are more groups before the look behind. -/
theorem allows (h : r.Nests k base around r') {number : Nat} (hallows : r.Allows number) :
    r'.Allows (number + k) := by
  intro limit hlimit
  rw [h.groups.limit, Option.map_eq_some_iff] at hlimit
  obtain ⟨limit, hlimit, rfl⟩ := hlimit
  obtain ⟨⟨width, hwidth⟩, hlt⟩ := hallows limit hlimit
  exact ⟨⟨width, h.groups.lookup_widths hwidth⟩, Nat.add_lt_add_right hlt k⟩

theorem alongside_checkLookbehind (h : r.Nests k base around r') (number : Nat) :
    Alongside excused fit (r.checkLookbehind number) (r'.checkLookbehind (number + k))
      fun _ _ => fit := by
  intro s s' t x hfit hm
  obtain ⟨rfl, hallows⟩ := gives_checkLookbehind_iff.mp hm
  exact .inl ⟨x, s', gives_checkLookbehind_iff.mpr ⟨rfl, h.allows hallows⟩, hfit⟩

theorem alongside_reference (h : r.Nests k base around r') (number back back' : Nat) :
    Alongside excused fit (r.reference number back) (r'.reference (number + k) back')
      fun t t' p p' => t' = t.shift k ∧ fit p p' := by
  unfold Reading.reference
  cases hwidth : r.groups.widths.lookup number with
  | none => exact .of_refuses (refuses_failBack _ _)
  | some width =>
      rw [h.groups.lookup_widths hwidth]
      exact (h.alongside_checkLookbehind number).bind fun _ _ => .pure fun h => ⟨rfl, h⟩

theorem alongside_namedReference (h : r.Nests k base around r') (name : String) :
    Alongside excused fit (r.namedReference name) (r'.namedReference name) fun t t' p p' =>
      t' = t.shift k ∧ fit p p' := by
  unfold Reading.namedReference
  refine .ite (fun _ => .of_refuses (refuses_failBack _ _)) fun _ => ?_
  cases hname : r.groups.names.lookup name with
  | none => exact .of_refuses (refuses_failBack _ _)
  | some number =>
      rw [h.groups.lookup_names hname]
      exact h.alongside_reference number _ _

/-- A name that is new alone may have been given before. -/
theorem alongside_enterNamed (hexcused : excused) (h : r.Nests k base around r') (name : String)
    (start start' : Nat) :
    Alongside excused (Beside k tail false) (r.enterNamed name start) (r'.enterNamed name start')
      (Carries k base around tail) := by
  unfold Reading.enterNamed
  refine .ite (fun _ => .of_refuses (refuses_failBack _ _)) fun _ => ?_
  cases hname : r'.groups.names.lookup name with
  | some earlier => exact .of_refuses' hexcused (refuses_failBack _ _)
  | none =>
      cases r.groups.names.lookup name with
      | some earlier => exact .of_refuses (refuses_failBack _ _)
      | none =>
          have hnamed := h.regroup (h.groups.name hname) rfl
          exact .pure fun hfit => ⟨hnamed.enterCapture start start', hfit⟩

theorem alongside_repeatable (h : r.Nests k base around r') (offset offset' : Nat) :
    Alongside excused fit (r.repeatable offset) (r'.repeatable offset') fun x x' p p' =>
      (x'.1 = x.1.shift k ∧ List.Forall₂ (Item.Nests k) x.2 x'.2) ∧ fit p p' := by
  have hitems := h.stack.head.items
  unfold Reading.repeatable
  generalize r.frame.items = items at hitems ⊢
  generalize r'.frame.items = items' at hitems ⊢
  cases hitems with
  | nil => exact .of_refuses (refuses_failAt _ _)
  | cons hitem hrest =>
      cases hitem with
      | single t =>
          cases t with
          | place p => exact .of_refuses (refuses_failAt _ _)
          | repeated greed least most body => exact .of_refuses (refuses_failAt _ _)
          | _ => exact .pure fun hfit => ⟨⟨rfl, hrest⟩, hfit⟩
      | spliced terms => exact .pure fun hfit => ⟨⟨shift_seq k terms, hrest⟩, hfit⟩
      | reference number width => exact .pure fun hfit => ⟨⟨rfl, hrest⟩, hfit⟩

theorem alongside_repeatLast (h : r.Nests k base around r') {c : Char}
    {bounds : Scan (Option (Nat × Option Nat))} (hbounds : Reading.repeatBounds? c = some bounds)
    (offset offset' : Nat) :
    Alongside excused (Beside k tail false) (r.repeatLast c bounds offset)
      (r'.repeatLast c bounds offset') (Carries k base around tail) := by
  have hsame : Agree excused (Beside k tail false) bounds bounds := by
    unfold Reading.repeatBounds? at hbounds
    split at hbounds <;> cases hbounds
    · exact agree_pure _
    · exact agree_pure _
    · exact agree_pure _
    · exact agree_braceBounds
  refine hsame.bindSame fun bounds? => ?_
  cases bounds? with
  | none => exact .pure fun hfit => ⟨h.pushTerm rfl, hfit⟩
  | some counts =>
      obtain ⟨least, most⟩ := counts
      refine (h.alongside_repeatable offset offset').bind fun x x' => ?_
      obtain ⟨body, rest⟩ := x
      obtain ⟨body', rest'⟩ := x'
      intro s s' t a hfit hm
      obtain ⟨⟨rfl, hrest⟩, hfit⟩ := hfit
      refine agree_repeatGreed.bindSame (fun greed => .pure fun hfit => ⟨?_, hfit⟩) hfit hm
      have hf := h.stack.head
      exact h.replace Iff.rfl rfl rfl ⟨hf.opening, hf.verbose, hf.branches,
        .cons (.single (.repeated greed least most body)) hrest⟩

/-! ### Constructs in parentheses -/

theorem alongside_readNamed (h : r.Nests k base around r') (start start' : Nat) :
    Alongside excused
      (fun p p' => Beside k tail false p p' ∧ (excused ∨ p.head? ≠ some (plain '<')))
      (r.readNamed start) (r'.readNamed start') (Carries k base around tail) := by
  -- a name that is no identifier is refused, whatever the other side makes of it
  have hname : ∀ {f : String → Scan Reading},
      (∀ name : String, Text.isIdentifier name.toList = false → Refuses (f name)) →
      ∀ name : String, ¬ (∀ c ∈ name.toList, InName c) → Refuses (f name) :=
    fun hf name hnot => hf name (Bool.eq_false_iff.mpr fun hidentifier =>
      hnot (inName_of_isIdentifier hidentifier))
  unfold Reading.readNamed
  refine Alongside.bindKnown (fun b => b = true → excused)
    ((agree_accept (by decide)).mono And.left fun h => h) ?_ fun b hb => .ite (fun heq => ?_)
      fun _ => ?_
  · rintro s p' t b ⟨-, hexcused | hne⟩ hm heq
    · exact hexcused
    · rcases gives_accept hm with ⟨-, hs, -⟩ | ⟨rfl, -⟩
      · rw [hs] at hne
        exact absurd rfl hne
      · contradiction
  · refine .takeUntilBind ⟨by decide, by decide⟩ (hname fun name hno => ?_) fun name =>
      h.alongside_enterNamed (hb heq) name start start'
    rw [Reading.enterNamed, hno]
    exact refuses_failBack _ _
  · refine (agree_accept (by decide)).bindSame fun b => .ite (fun _ => ?_) fun _ => ?_
    · refine .takeUntilBind ⟨by decide, by decide⟩ (hname fun name hno => ?_) fun name => ?_
      · rw [Reading.namedReference, hno]
        exact (refuses_failBack _ _).bind _
      · exact (h.alongside_namedReference name).bind fun t t' =>
          .pure fun hfit => ⟨h.pushTerm hfit.1, hfit.2⟩
    · refine .of_refuses (refuses_bind _ fun x => ?_)
      cases x <;> exact refuses_failBack _ _

theorem alongside_readBehind (h : r.Nests k base around r') (start start' : Nat) :
    Alongside excused (Beside k tail false) (r.readBehind start) (r'.readBehind start')
      (Carries k base around tail) := by
  refine Alongside.mono (Alongside.takeBind (fun _ => True) (fun x _ hx => ?_) fun c _ _ => ?_)
    (fun h => ⟨h, trivial⟩) fun h => h
  · split
    · exact refuses_failBack _ _
    · exact absurd ⟨by decide, by decide⟩ (hx '=' rfl)
    · exact absurd ⟨by decide, by decide⟩ (hx '!' rfl)
    · exact refuses_failBack _ _
  · split
    · exact .of_refuses (refuses_failBack _ _)
    · exact .pure fun hfit => ⟨h.enterBehind false start start', hfit⟩
    · exact .pure fun hfit => ⟨h.enterBehind true start start', hfit⟩
    · exact .of_refuses (refuses_failBack _ _)

theorem alongside_skipComment (start start' : Nat) :
    Alongside excused (fun p p' => Beside k tail false p p' ∧ inertUntil ')' p = true)
      (Reading.skipComment start) (Reading.skipComment start') fun _ _ => Beside k tail false := by
  refine (alongside_skip ⟨by decide, by decide⟩ _ _).mono (fun h => ⟨h.1, h.2, .inr ?_⟩) fun h => h
  exact refuses_failAt _ _

/-- Letters for the whole pattern are meant for nothing inside a group: they come too late. -/
theorem alongside_readModed (h : r.Nests k base around r') (first : Char) (start start' : Nat) :
    Alongside excused
      (fun p p' => Beside k tail false p p' ∧ (excused ∨ closesModes (plain first :: p) = false))
      (r.readModed first start) (r'.readModed first start') (Carries k base around tail) := by
  refine Alongside.bindKnown (fun modes => modes.2 = none → excused)
    ((agree_readModes first).mono And.left fun h => h) ?_ fun modes hmodes => ?_
  · rintro s p' t modes ⟨-, hexcused | hclose⟩ hm hnone
    · exact hexcused
    · rw [closesModes_of_gives_readModes hm hnone] at hclose
      contradiction
  obtain ⟨on, off?⟩ := modes
  cases off? with
  | none =>
      have hfresh : r'.frame.isFresh = false := by
        have hopening := h.stack.head.opening
        rw [Frame.isFresh, hopening]
        cases r.frame.opening <;> rfl
      dsimp only
      rw [hfresh]
      exact .of_refuses' (hmodes rfl) (refuses_failAt _ _)
  | some off =>
      have hverbose : ((r'.frame.verbose || on.verbose) && !off.verbose) =
          ((r.frame.verbose || on.verbose) && !off.verbose) := by rw [h.verbose]
      exact .pure fun hfit => ⟨h.enter (by simp) (by simp) rfl start start' hverbose, hfit⟩

/-- What a question mark announces, apart from conditions. -/
theorem alongside_readExtension (h : r.Nests k base around r') (start start' : Nat) :
    Alongside excused (Announced excused k tail) (r.readExtension start) (r'.readExtension start')
      (Carries k base around tail) := by
  refine .takeSame
    (fun that rest rest' => (∃ c, that = plain c ∧ Stays false c) ∧ Beside k tail false rest rest' ∧
      (that = plain '#' → inertUntil ')' rest = true) ∧
        (excused ∨ closesModes (that :: rest) = false ∧
          (that = plain 'P' → rest.head? ≠ some (plain '<')))) ?_ ?_ fun that => ?_
  · rintro that rest p' ⟨hbeside, hcondition, hcomment, hbare⟩ hhead
    by_cases hstays : ∃ c, that = plain c ∧ Stays false c
    · obtain ⟨c, rfl, hc⟩ := hstays
      obtain ⟨others, rfl, hothers⟩ := hbeside.step hc hhead
      refine .inr ⟨others, rfl, hothers.head_moved, ⟨c, rfl, hc⟩, hothers, ?_, ?_⟩
      · rintro heq
        exact hcomment rest (by rw [heq])
      · refine hbare.imp_right fun ⟨hmodes, hnames⟩ => ⟨hmodes, ?_⟩
        rintro heq hmark
        obtain ⟨others, rfl⟩ := List.head?_eq_some_iff.mp hmark
        exact hnames (by rw [heq]; rfl)
    · -- a bracket or an escape announces nothing
      refine .inl ?_
      cases that with
      | plain c =>
          rcases eq_of_not_stays fun hc => hstays ⟨c, rfl, hc⟩ with rfl | rfl
          · exact absurd rfl hcondition
          · exact refuses_failBack _ _
      | escaped c => exact refuses_failBack _ _
      | dangling => exact refuses_failBack _ _
  · exact fun _ => refuses_failBack _ _
  · refine .given fun ⟨c, hthat, hc⟩ => ?_
    subst hthat
    split
    all_goals rename_i heq
    · contradiction
    · refine (h.alongside_readNamed start start').mono (fun hfit => ⟨hfit.1, ?_⟩) fun h => h
      exact hfit.2.2.imp_right fun hnames => hnames.2 (Option.some.inj heq)
    · exact .pure fun hfit =>
        ⟨h.enter (by simp) (by simp) rfl start start' h.verbose, hfit.1⟩
    · refine Alongside.bind ((alongside_skipComment start start').mono (fun hfit => ⟨hfit.1, ?_⟩)
        fun h => h) fun _ _ => .pure fun hfit => ⟨h, hfit⟩
      exact hfit.2.1 (Option.some.inj heq)
    · exact .pure fun hfit =>
        ⟨h.enter (by simp) (by simp) rfl start start' h.verbose, hfit.1⟩
    · exact .pure fun hfit =>
        ⟨h.enter (by simp) (by simp) rfl start start' h.verbose, hfit.1⟩
    · exact (h.alongside_readBehind start start').mono And.left fun h => h
    · obtain rfl := Piece.plain.inj (Option.some.inj heq)
      exact absurd rfl hc.1
    · exact .pure fun hfit =>
        ⟨h.enter (by simp) (by simp) rfl start start' h.verbose, hfit.1⟩
    · obtain rfl := Option.some.inj heq
      dsimp only
      refine .ite (fun _ => ?_) fun _ => .of_refuses (refuses_failBack _ _)
      refine (h.alongside_readModed _ start start').mono (fun hfit => ⟨hfit.1, ?_⟩) fun h => h
      exact hfit.2.2.imp_right And.left

end Reading.Nests

/-! ### Parentheses -/

section Parentheses

variable {r r₁ : Reading} {s t : Source} {start : Nat} {rest : List Piece}

/-- A question mark announces something. -/
theorem gives_readParenthesis_iff (hs : s.pieces = plain '?' :: rest) :
    (r.readParenthesis start).Gives s r₁ t ↔
      rest.head? ≠ some dangling ∧ (r.readExtension start).Gives ⟨rest, s.offset + 1⟩ r₁ t :=
  gives_accept_bind_iff hs

/-- Without one it is the start of a group. -/
theorem gives_readParenthesis_iff_of_ne (hs : s.pieces.head? ≠ some (plain '?')) :
    (r.readParenthesis start).Gives s r₁ t ↔ r₁ = r.enterCapture start ∧ t = s :=
  (gives_accept_bind_iff_of_ne hs).trans gives_pure_iff

theorem gives_readExtension_condition_iff (hs : s.pieces = plain '(' :: rest) :
    (r.readExtension start).Gives s r₁ t ↔
      rest.head? ≠ some dangling ∧ (r.readCondition start).Gives ⟨rest, s.offset + 1⟩ r₁ t :=
  gives_take_bind_iff hs

/-- Parentheses that only keep terms together. -/
theorem gives_readExtension_plain_iff (hs : s.pieces = plain ':' :: rest) :
    (r.readExtension start).Gives s r₁ t ↔ rest.head? ≠ some dangling ∧
      r₁ = r.enter (.plain Modes.none Modes.none) start r.frame.verbose ∧
        t = ⟨rest, s.offset + 1⟩ := by
  refine Iff.trans (gives_take_bind_iff hs) ?_
  exact and_congr_right fun _ => gives_pure_iff

end Parentheses

namespace Reading.Nests

variable {r r' : Reading}

/-- A parenthesis that starts no condition. -/
theorem alongside_readParenthesis (h : r.Nests k base around r') (start start' : Nat) :
    Alongside excused
      (fun p p' => Beside k tail false p p' ∧ p.take 2 ≠ [plain '?', plain '('] ∧
        (∀ rest, p = plain '?' :: plain '#' :: rest → inertUntil ')' rest = true) ∧
          (excused ∨ setsModes (plain '(' :: p) = false ∧ namesGroup (plain '(' :: p) = false))
      (r.readParenthesis start) (r'.readParenthesis start') (Carries k base around tail) := by
  rintro s s' t r₁ ⟨hbeside, hcondition, hcomment, hbare⟩ hm
  by_cases hmark : s.pieces.head? = some (plain '?')
  · obtain ⟨rest, hs⟩ := List.head?_eq_some_iff.mp hmark
    obtain ⟨hhead, hm⟩ := (gives_readParenthesis_iff hs).mp hm
    rw [hs] at hbeside hcondition hcomment hbare
    obtain ⟨others, hs', hothers⟩ := hbeside.step ⟨by decide, by decide⟩ hhead
    have hannounces : rest.head? ≠ some (plain '(') := by
      intro hopen
      obtain ⟨more, rfl⟩ := List.head?_eq_some_iff.mp hopen
      exact hcondition rfl
    have hextension : Alongside excused (Announced excused k tail) _ _ _ :=
      h.alongside_readExtension start start'
    have hrest := @hextension ⟨rest, s.offset + 1⟩ ⟨others, s'.offset + 1⟩ t r₁
      ⟨hothers, hannounces, fun more hmore => hcomment more (congrArg _ hmore), ?_⟩ hm
    · rcases hrest with ⟨r₁', t', hm', hfit⟩ | ⟨hexcused, hrefuses⟩
      · exact .inl ⟨r₁', t', (gives_readParenthesis_iff hs').mpr ⟨hothers.head_moved, hm'⟩, hfit⟩
      · refine .inr ⟨hexcused, fun r₁' t' hm' => ?_⟩
        exact hrefuses r₁' t' ((gives_readParenthesis_iff hs').mp hm').2
    · refine hbare.imp_right fun ⟨hmodes, hnames⟩ => ⟨hmodes, fun hname => ?_⟩
      dsimp only at hname
      rw [eq_cons_cons_of_take hname] at hnames
      contradiction
  · have hmark' := mt (hbeside.head_eq_iff (by decide)).mp hmark
    obtain ⟨rfl, rfl⟩ := (gives_readParenthesis_iff_of_ne hmark).mp hm
    exact .inl ⟨_, s', (gives_readParenthesis_iff_of_ne hmark').mpr ⟨rfl, rfl⟩,
      h.enterCapture start start', hbeside⟩

end Reading.Nests

end Lookahead.Pattern
