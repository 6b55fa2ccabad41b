import Lookahead.Pattern.Width
import Lookahead.Proofs.Pattern.Prefix

/-!
Patterns that look only at what follows. A term that is made of characters, sets, alternatives and
greedy repetitions neither knows where in the text it is nor what groups have matched. Its ways are
then given by the numbers of characters that it can take from the text that is left
(`Term.lengths`), the preferred one first, and a theory of such numbers needs no states. A single
character, two of them and a run of them are matched as the functions of the same names say
(`Term.takes_run`), because those tell the preferred number.

Two estimates of them can be computed from the term: it takes at least as many characters as its
width says (`Direct.atLeast`), and it takes only characters that occur in it (`Direct.within`). They
are enough to tell which alternatives of a choice have to be looked at for a given character.
-/

namespace Lookahead.Pattern

/-- The numbers of characters that can be taken from a text, the preferred one first. -/
abbrev Lengths := List Char → List Nat

namespace Lengths

def one (test : Nat → Bool) : Lengths
  | [] => []
  | c :: _ => if test c.toNat then [1] else []

def andThen (first second : Lengths) : Lengths := fun rest =>
  (first rest).flatMap fun n => (second (rest.drop n)).map (n + ·)

def exactly (body : Lengths) : Nat → Lengths
  | 0 => fun _ => [0]
  | n + 1 => body.andThen (exactly body n)

def mostFirst (body : Lengths) : Nat → Lengths
  | 0, _ => [0]
  | n + 1, rest =>
    (body rest).flatMap (fun k =>
      if 0 < k then (mostFirst body n (rest.drop k)).map (k + ·) else [k]) ++ [0]

/-- At least so many times, and then as often as possible first. -/
def repeated (least : Nat) (most : Option Nat) (body : Lengths) : Lengths :=
  (exactly body least).andThen fun rest =>
    mostFirst body (match most with
      | some most => min (most - least) (rest.length + 1)
      | none => rest.length + 1) rest

end Lengths

namespace Term

/-- A match of the term depends on the characters that follow alone. -/
inductive Direct : Term → Prop
  | empty : Direct empty
  | literal (negated : Bool) (code : Nat) : Direct (literal negated code)
  | any : Direct any
  | set (negated : Bool) (members : List Member) : Direct (set negated members)
  | cat {first second : Term} (h₁ : Direct first) (h₂ : Direct second) : Direct (cat first second)
  | either {first second : Term} (h₁ : Direct first) (h₂ : Direct second) :
      Direct (either first second)
  | repeated (least : Nat) (most : Option Nat) {body : Term} (h : Direct body) :
      Direct (repeated .greedy least most body)

def lengths (m : Modes) : Term → Lengths
  | empty => fun _ => [0]
  | literal negated code => .one fun x => literalHolds m code x != negated
  | any => .one fun x => m.dotAll || x != 0x0A
  | set negated members => .one fun x => setHolds m members x != negated
  | cat first second => (first.lengths m).andThen (second.lengths m)
  | either first second => fun rest => first.lengths m rest ++ second.lengths m rest
  | repeated _ least most body => (body.lengths m).repeated least most
  | _ => fun _ => []

end Term

/-! ### Lengths and ways -/

theorem codeAt?_eq_head? (text : Array Char) (pos : Nat) :
    codeAt? text pos = (text.toList.drop pos).head?.map Char.toNat := by
  rw [codeAt?, List.head?_drop, Array.getElem?_toList]

/-- The ways take so many characters and change nothing else. -/
def Ways.Measures (text : Array Char) (ways : Ways) (lengths : Lengths) : Prop :=
  ∀ s : State, ways s = (lengths (text.toList.drop s.pos)).map fun n => s.moveTo (s.pos + n)

namespace Ways.Measures

variable {text : Array Char} {first second body : Ways} {l l₁ l₂ : Lengths}

theorem one (text : Array Char) (test : Nat → Bool) :
    Measures text (oneCharWays text test) (.one test) := by
  intro s
  rw [oneCharWays, codeAt?_eq_head?]
  cases text.toList.drop s.pos with
  | nil => rfl
  | cons c rest =>
      simp only [Lengths.one, List.head?_cons, Option.map_some]
      split <;> rfl

theorem stay (text : Array Char) : Measures text (fun s => [s]) fun _ => [0] := by
  intro s
  simp [State.moveTo]

theorem append (h₁ : Measures text first l₁) (h₂ : Measures text second l₂) :
    Measures text (fun s => first s ++ second s) fun rest => l₁ rest ++ l₂ rest := by
  intro s
  dsimp only
  rw [h₁, h₂, List.map_append]

theorem from_moveTo (h : Measures text second l) (s : State) (n : Nat) :
    second (s.moveTo (s.pos + n)) =
      ((l ((text.toList.drop s.pos).drop n)).map (n + ·)).map fun k => s.moveTo (s.pos + k) := by
  rw [h, List.drop_drop, List.map_map]
  refine List.map_congr_left fun k _ => ?_
  simp [State.moveTo, Nat.add_assoc]

theorem andThen (h₁ : Measures text first l₁) (h₂ : Measures text second l₂) :
    Measures text (fun s => (first s).flatMap second) (l₁.andThen l₂) := by
  intro s
  dsimp only
  rw [h₁, List.flatMap_map, Lengths.andThen, List.map_flatMap]
  exact List.flatMap_congr fun n _ => h₂.from_moveTo s n

theorem exactly (h : Measures text body l) (n : Nat) :
    Measures text (exactlyWays body n) (l.exactly n) := by
  induction n with
  | zero => exact stay text
  | succ n ih => exact h.andThen ih

theorem mostFirst (h : Measures text body l) (n : Nat) :
    Measures text (mostFirstWays body n) (l.mostFirst n) := by
  induction n with
  | zero => exact stay text
  | succ n ih =>
      intro s
      rw [mostFirstWays, Lengths.mostFirst, List.map_append, h, List.flatMap_map, List.map_flatMap]
      congr 1
      refine List.flatMap_congr fun k _ => ?_
      by_cases hk : 0 < k
      · have hlt : s.pos < (s.moveTo (s.pos + k)).pos := Nat.lt_add_of_pos_right hk
        rw [if_pos hlt, if_pos hk]
        exact ih.from_moveTo s k
      · have hnot : ¬ s.pos < (s.moveTo (s.pos + k)).pos := by
          simp only [State.moveTo]
          omega
        rw [if_neg hnot, if_neg hk]
        rfl

theorem repeated (h : Measures text body l) (least : Nat) (most : Option Nat) :
    Measures text (repeatWays text .greedy least most body) (l.repeated least most) := by
  have hmore : Measures text
      (fun s => mostFirstWays body (extraRounds text least most s.pos) s) fun rest =>
        l.mostFirst (match most with
          | some most => min (most - least) (rest.length + 1)
          | none => rest.length + 1) rest := by
    intro s
    dsimp only
    rw [h.mostFirst]
    have hlength : (text.toList.drop s.pos).length = text.size - s.pos := by simp
    rw [hlength]
    cases most <;> rfl
  exact (h.exactly least).andThen hmore

end Ways.Measures

namespace Term

variable {m : Modes} {t : Term} {rest : List Char} {n : Nat}

theorem Direct.measures (h : t.Direct) (text : Array Char) (m : Modes) :
    Ways.Measures text (t.ways text m) (t.lengths m) := by
  induction h with
  | empty => exact .stay text
  | literal | any | set => exact .one text _
  | cat _ _ ih₁ ih₂ => exact ih₁.andThen ih₂
  | either _ _ ih₁ ih₂ => exact ih₁.append ih₂
  | repeated least most _ ih => exact ih.repeated least most

/-- The preferred match of a direct term is as long as its first length. -/
theorem Direct.takes (h : t.Direct) (m : Modes) :
    Takes m t fun rest => (t.lengths m rest).head? := by
  intro text s _
  rw [h.measures text m, List.head?_map]

/-- Nothing is taken from behind the end. -/
theorem Direct.le_length (h : t.Direct) (hn : n ∈ t.lengths m rest) : n ≤ rest.length := by
  have hmem : State.moveTo { pos := 0 } n ∈ t.ways rest.toArray m { pos := 0 } := by
    rw [h.measures rest.toArray m]
    exact List.mem_map.mpr ⟨n, by simpa using hn, by simp⟩
  exact (forward_ways rest.toArray t m { pos := 0 } (Nat.zero_le _) _ hmem).pos_le_size

end Term

/-! ### Preferred lengths -/

namespace Lengths

variable {first second : Lengths} {rest : List Char} {n k : Nat}

/-- What comes after the preferred length is preferred in its turn. -/
theorem head?_andThen (h₁ : (first rest).head? = some n)
    (h₂ : (second (rest.drop n)).head? = some k) :
    (first.andThen second rest).head? = some (n + k) := by
  obtain ⟨others, hfirst⟩ := List.head?_eq_some_iff.mp h₁
  obtain ⟨others', hsecond⟩ := List.head?_eq_some_iff.mp h₂
  rw [andThen, hfirst, List.flatMap_cons, hsecond]
  rfl

theorem andThen_eq_nil (h : first rest = []) : first.andThen second rest = [] := by
  rw [andThen, h, List.flatMap_nil]

theorem head?_one (test : Nat → Bool) (rest : List Char) :
    (one test rest).head? = oneFirst test rest := by
  cases rest with
  | nil => rfl
  | cons c rest =>
      rw [one, oneFirst]
      split <;> rfl

theorem head?_one_andThen_one (test test' : Nat → Bool) (rest : List Char) :
    ((one test).andThen (one test') rest).head? = twoFirst test test' rest := by
  match rest with
  | [] => rfl
  | [c] => by_cases hc : test c.toNat = true <;> simp [andThen, one, twoFirst, hc]
  | c :: c' :: rest =>
      by_cases hc : test c.toNat = true
      · by_cases hc' : test' c'.toNat = true <;> simp [andThen, one, twoFirst, hc, hc']
      · simp [andThen, one, twoFirst, hc]

/-- A repetition of a single character goes on as long as it can. -/
theorem head?_mostFirst_one (test : Nat → Bool) {rounds : Nat} (h : rest.length ≤ rounds) :
    (mostFirst (one test) rounds rest).head? =
      some (rest.takeWhile fun c => test c.toNat).length := by
  induction rounds generalizing rest with
  | zero =>
      obtain rfl := List.eq_nil_of_length_eq_zero (Nat.le_zero.mp h)
      rfl
  | succ rounds ih =>
      cases rest with
      | nil => rfl
      | cons c rest =>
          have hmore := ih (Nat.le_of_succ_le_succ h)
          rw [mostFirst, one, List.takeWhile_cons]
          by_cases hc : test c.toNat = true
          · rw [if_pos hc, if_pos hc, List.flatMap_singleton, if_pos Nat.one_pos, List.drop_one,
              List.tail_cons, List.head?_append, List.head?_map, hmore, Option.map_some,
              Option.some_or, List.length_cons, Nat.add_comm]
          · rw [if_neg hc, if_neg hc]
            rfl

/-- Nothing more is taken where nothing can be. -/
theorem head?_repeated_zero_of_eq_nil (most : Option Nat) (h : first rest = []) :
    (first.repeated 0 most rest).head? = some 0 := by
  have hmore (rounds : Nat) : first.mostFirst rounds rest = [0] := by
    cases rounds with
    | zero => rfl
    | succ rounds => rw [mostFirst, h, List.flatMap_nil, List.nil_append]
  have hnone : (first.exactly 0 rest).head? = some 0 := rfl
  refine head?_andThen (n := 0) (k := 0) hnone ?_
  rw [List.drop_zero, hmore]
  rfl

theorem head?_many (test : Nat → Bool) (rest : List Char) :
    ((one test).repeated 0 none rest).head? =
      some (rest.takeWhile fun c => test c.toNat).length := by
  have hnone : ((one test).exactly 0 rest).head? = some 0 := rfl
  rw [← Nat.zero_add (List.length _)]
  exact head?_andThen hnone (head?_mostFirst_one test (Nat.le_succ rest.length))

theorem head?_atLeastOne (test : Nat → Bool) {c : Char} (hc : test c.toNat = true)
    (rest : List Char) :
    ((one test).repeated 1 none (c :: rest)).head? =
      some ((c :: rest).takeWhile fun c => test c.toNat).length := by
  have hone : ((one test).exactly 1 (c :: rest)).head? = some 1 := by
    simp [exactly, andThen, one, hc]
  rw [List.takeWhile_cons, if_pos hc, List.length_cons, Nat.add_comm]
  exact head?_andThen hone (head?_mostFirst_one test (Nat.le_succ rest.length))

theorem head?_run (test : Nat → Bool) (rest : List Char) :
    ((one test).repeated 1 none rest).head? = runFirst test rest := by
  cases rest with
  | nil => rfl
  | cons c rest =>
      by_cases hc : test c.toNat = true
      · rw [head?_atLeastOne test hc, runFirst]
        simp [hc]
      · have hnone : (one test).exactly 1 (c :: rest) = [] := andThen_eq_nil (if_neg hc)
        rw [repeated, andThen_eq_nil hnone, runFirst]
        simp [hc]

end Lengths

namespace Term

theorem takes_literal (m : Modes) (negated : Bool) (code : Nat) :
    Takes m (literal negated code) (oneFirst fun x => literalHolds m code x != negated) := by
  have htakes := (Direct.literal negated code).takes m
  simpa only [lengths, Lengths.head?_one] using htakes

theorem takes_twoLiterals (m : Modes) (negated negated' : Bool) (code code' : Nat) :
    Takes m (cat (literal negated code) (literal negated' code'))
      (twoFirst (fun x => literalHolds m code x != negated)
        fun x => literalHolds m code' x != negated') := by
  have htakes := (Direct.cat (.literal negated code) (.literal negated' code')).takes m
  simpa only [lengths, Lengths.head?_one_andThen_one] using htakes

theorem takes_run (m : Modes) (negated : Bool) (members : List Member) :
    Takes m (repeated .greedy 1 none (set negated members))
      (runFirst fun x => setHolds m members x != negated) := by
  have htakes := ((Direct.set negated members).repeated 1 none).takes m
  simpa only [lengths, Lengths.head?_run] using htakes

end Term

/-! ### Estimates -/

namespace Lengths

variable {first second body : Lengths} {a b : Nat} {ok : Nat → Prop} {rest : List Char} {n : Nat}

theorem mem_one_iff {test : Nat → Bool} :
    n ∈ one test rest ↔ ∃ c tail, rest = c :: tail ∧ test c.toNat = true ∧ n = 1 := by
  cases rest with
  | nil => simp [one]
  | cons c tail =>
      by_cases hc : test c.toNat = true <;> simp [one, hc]

theorem mem_andThen_iff :
    n ∈ first.andThen second rest ↔ ∃ i ∈ first rest, ∃ j ∈ second (rest.drop i), i + j = n := by
  simp [andThen]

def AtLeast (lengths : Lengths) (a : Nat) : Prop :=
  ∀ rest, ∀ n ∈ lengths rest, a ≤ n

theorem AtLeast.andThen (h₁ : first.AtLeast a) (h₂ : second.AtLeast b) :
    (first.andThen second).AtLeast (a + b) := by
  intro rest n hn
  obtain ⟨i, hi, j, hj, rfl⟩ := mem_andThen_iff.mp hn
  exact Nat.add_le_add (h₁ _ i hi) (h₂ _ j hj)

theorem AtLeast.repeated (h : body.AtLeast a) (least : Nat) (most : Option Nat) :
    (body.repeated least most).AtLeast (a * least) := by
  have hexactly : (body.exactly least).AtLeast (a * least) := by
    induction least with
    | zero => exact fun _ _ _ => Nat.zero_le _
    | succ least ih =>
        rw [Nat.mul_succ, Nat.add_comm (a * least)]
        exact h.andThen ih
  exact hexactly.andThen (b := 0) fun _ _ _ => Nat.zero_le _

def Within (lengths : Lengths) (ok : Nat → Prop) : Prop :=
  ∀ rest, ∀ n ∈ lengths rest, ∀ c ∈ rest.take n, ok c.toNat

theorem within_nothing (ok : Nat → Prop) : Within (fun _ => [0]) ok := by
  intro rest n hn c hc
  obtain rfl := List.mem_singleton.mp hn
  simp at hc

theorem Within.andThen (h₁ : first.Within ok) (h₂ : second.Within ok) :
    (first.andThen second).Within ok := by
  intro rest n hn c hc
  obtain ⟨i, hi, j, hj, rfl⟩ := mem_andThen_iff.mp hn
  rw [List.take_add, List.mem_append] at hc
  rcases hc with hc | hc
  · exact h₁ _ i hi c hc
  · exact h₂ _ j hj c hc

theorem Within.mostFirst (h : body.Within ok) (rounds : Nat) :
    (body.mostFirst rounds).Within ok := by
  induction rounds with
  | zero => exact within_nothing ok
  | succ rounds ih =>
      intro rest n hn c hc
      rw [Lengths.mostFirst, List.mem_append, List.mem_flatMap] at hn
      rcases hn with ⟨k, hk, hn⟩ | hn
      · split at hn
        · have hround : n ∈ body.andThen (body.mostFirst rounds) rest := by
            obtain ⟨j, hj, rfl⟩ := List.mem_map.mp hn
            exact mem_andThen_iff.mpr ⟨k, hk, j, hj, rfl⟩
          exact h.andThen ih rest n hround c hc
        · obtain rfl := List.mem_singleton.mp hn
          exact h rest n hk c hc
      · exact within_nothing ok rest n hn c hc

theorem Within.repeated (h : body.Within ok) (least : Nat) (most : Option Nat) :
    (body.repeated least most).Within ok := by
  have hexactly : (body.exactly least).Within ok := by
    induction least with
    | zero => exact within_nothing ok
    | succ least ih => exact h.andThen ih
  exact hexactly.andThen fun rest => h.mostFirst _ rest

end Lengths

namespace Term

variable {m : Modes} {t : Term} {rest : List Char} {n : Nat}

theorem Direct.atLeast (h : t.Direct) (m : Modes) : (t.lengths m).AtLeast t.width.least := by
  have hone (test : Nat → Bool) : (Lengths.one test).AtLeast 1 := by
    intro rest n hn
    obtain ⟨c, tail, -, -, rfl⟩ := Lengths.mem_one_iff.mp hn
    exact le_rfl
  induction h with
  | empty => exact fun _ _ _ => Nat.zero_le _
  | literal | any | set => exact hone _
  | cat _ _ ih₁ ih₂ => exact ih₁.andThen ih₂
  | either _ _ ih₁ ih₂ =>
      intro rest n hn
      rcases List.mem_append.mp hn with hn | hn
      · exact Nat.le_trans (Nat.min_le_left _ _) (ih₁ rest n hn)
      · exact Nat.le_trans (Nat.min_le_right _ _) (ih₂ rest n hn)
  | repeated least most _ ih => exact ih.repeated least most

def allows (m : Modes) : Term → Nat → Bool
  | literal negated code, x => literalHolds m code x != negated
  | any, x => m.dotAll || x != 0x0A
  | set negated members, x => setHolds m members x != negated
  | cat first second, x => first.allows m x || second.allows m x
  | either first second, x => first.allows m x || second.allows m x
  | repeated _ _ _ body, x => body.allows m x
  | _, _ => false

theorem Direct.within (h : t.Direct) (m : Modes) :
    (t.lengths m).Within fun x => t.allows m x = true := by
  have hone (test : Nat → Bool) : (Lengths.one test).Within fun x => test x = true := by
    intro rest n hn c hc
    obtain ⟨c', tail, rfl, htest, rfl⟩ := Lengths.mem_one_iff.mp hn
    obtain rfl : c = c' := by simpa using hc
    exact htest
  induction h with
  | empty => exact Lengths.within_nothing _
  | literal | any | set => exact hone _
  | cat _ _ ih₁ ih₂ =>
      refine Lengths.Within.andThen (fun rest n hn c hc => ?_) fun rest n hn c hc => ?_
      · exact (Bool.or_eq_true _ _).mpr (.inl (ih₁ rest n hn c hc))
      · exact (Bool.or_eq_true _ _).mpr (.inr (ih₂ rest n hn c hc))
  | either _ _ ih₁ ih₂ =>
      intro rest n hn c hc
      rcases List.mem_append.mp hn with hn | hn
      · exact (Bool.or_eq_true _ _).mpr (.inl (ih₁ rest n hn c hc))
      · exact (Bool.or_eq_true _ _).mpr (.inr (ih₂ rest n hn c hc))
  | repeated least most _ ih => exact Lengths.Within.repeated ih least most

/-- A term that takes something takes nothing where the first character does not occur in it. -/
theorem Direct.lengths_eq_nil (h : t.Direct) (hpos : 0 < t.width.least) {c : Char}
    (hc : t.allows m c.toNat = false) : t.lengths m (c :: rest) = [] := by
  rw [List.eq_nil_iff_forall_not_mem]
  intro n hn
  have hle := h.atLeast m _ n hn
  have hfirst : c ∈ (c :: rest).take n := by
    rw [List.take_cons (by omega)]
    exact List.mem_cons_self
  rw [h.within m _ n hn c hfirst] at hc
  contradiction

/-! ### Words -/

def word (w : List Char) : Term := seq (w.map fun c => literal false c.toNat)

theorem lengths_word (hm : m.ignoreCase = false) (w rest : List Char) :
    (word w).lengths m rest = if w <+: rest then [w.length] else [] := by
  have hliteral (c : Char) (rest : List Char) :
      (literal false c.toNat).lengths m rest = if [c] <+: rest then [1] else [] := by
    cases rest with
    | nil => simp [lengths, Lengths.one]
    | cons d rest =>
        have hcode : literalHolds m c.toNat d.toNat = decide (c = d) := by
          simp [literalHolds, Modes.folding?, hm, beq_eq_decide, Char.toNat_inj]
        simp [lengths, Lengths.one, hcode, List.cons_prefix_cons]
  match w with
  | [] => simp [word, seq, lengths]
  | [c] => exact hliteral c rest
  | c :: d :: w =>
      have ih := lengths_word hm (d :: w)
      change ((literal false c.toNat).lengths m).andThen ((word (d :: w)).lengths m) rest = _
      rw [Lengths.andThen, hliteral]
      cases rest with
      | nil => simp
      | cons first rest =>
          by_cases hc : c = first
          · subst hc
            rw [if_pos (by simp), List.flatMap_singleton, List.drop_one, List.tail_cons, ih]
            by_cases hw : d :: w <+: rest
            · rw [if_pos hw, if_pos (List.cons_prefix_cons.mpr ⟨rfl, hw⟩)]
              simp [Nat.add_comm]
            · rw [if_neg hw, if_neg fun h => hw (List.cons_prefix_cons.mp h).2]
              rfl
          · rw [if_neg fun h => hc (List.cons_prefix_cons.mp h).1, if_neg fun h =>
              hc (List.cons_prefix_cons.mp h).1]
            rfl

theorem mem_lengths_word_iff (hm : m.ignoreCase = false) {w : List Char} :
    n ∈ (word w).lengths m rest ↔ w <+: rest ∧ n = w.length := by
  rw [lengths_word hm]
  split <;> simp_all

/-! ### A choice of groups -/

variable {parts : List (Nat × Term)}

/-- The length of the first part that takes something, and its number. -/
def firstOf (m : Modes) (parts : List (Nat × Term)) (rest : List Char) : Option (Nat × Nat) :=
  parts.findSome? fun part => (part.2.lengths m rest).head?.map (·, part.1)

theorem firstOf_cons (m : Modes) (part : Nat × Term) (others : List (Nat × Term))
    (rest : List Char) : firstOf m (part :: others) rest =
      ((part.2.lengths m rest).head?.map (·, part.1)).or (firstOf m others rest) := by
  rw [firstOf, List.findSome?_cons, ← firstOf]
  cases (part.2.lengths m rest).head? <;> rfl

theorem takesGroup_choice (hne : parts ≠ []) (h : ∀ part ∈ parts, part.2.Direct) :
    (choice (parts.map fun part => group part.1 part.2)).TakesGroup m (firstOf m parts) := by
  induction parts with
  | nil => contradiction
  | cons part others ih =>
      obtain ⟨hpart, hothers⟩ := List.forall_mem_cons.mp h
      have hfirst := (hpart.takes m).group part.1
      intro text s hs
      rw [firstOf_cons]
      cases others with
      | nil =>
          rw [show firstOf m [] _ = none from rfl, Option.or_none]
          exact hfirst text s hs
      | cons next others => exact hfirst.either (ih (by simp) hothers) text s hs

theorem exists_part_of_firstOf {number : Nat} (h : firstOf m parts rest = some (n, number)) :
    ∃ t, (number, t) ∈ parts ∧ n ∈ t.lengths m rest := by
  obtain ⟨⟨number', t⟩, hmem, hpart⟩ := List.exists_of_findSome?_eq_some h
  obtain ⟨n', hn, heq⟩ := Option.map_eq_some_iff.mp hpart
  cases heq
  exact ⟨t, hmem, List.mem_of_mem_head? hn⟩

end Term

end Lookahead.Pattern
