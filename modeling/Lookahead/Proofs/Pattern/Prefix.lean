import Lookahead.Proofs.Pattern.Search
import Mathlib.Data.List.TakeWhile

/-!
Patterns that decide by what comes first. Of a simple pattern it can be said without running it what
its preferred match is: a function on the text that is left, which tells the length of the match or
that there is none (`Term.Takes`, and `Term.TakesGroup` for alternatives that are groups).

Such a function is *steady* if more text at the end does not change what it says: a match that stops
before the end stays as it is, and where there is something left but no match there is none with
more text either. This is passed on from alternatives to their choice. A pattern with a steady
function finds the same in a longer text, unless what it finds touches the end
(`Compiled.search?_append`).
-/

namespace Lookahead.Pattern

/-! ### Steady functions -/

/-- More text does not change what is said about a text, except about a match up to its end. -/
structure Steady {β : Type} (length : β → Nat) (first : List Char → Option β) : Prop where
  pos : ∀ {rest b}, first rest = some b → 0 < length b
  settled : ∀ {rest b}, first rest = some b → length b < rest.length →
    ∀ more, first (rest ++ more) = some b
  barred : ∀ {rest}, rest ≠ [] → first rest = none → ∀ more, first (rest ++ more) = none

namespace Steady

variable {β : Type} {length : β → Nat} {first second : List Char → Option β}

theorem or (h₁ : Steady length first) (h₂ : Steady length second) :
    Steady length fun rest => (first rest).or (second rest) where
  pos h := by
    rcases Option.or_eq_some_iff.mp h with h | ⟨-, h⟩
    · exact h₁.pos h
    · exact h₂.pos h
  settled := by
    intro rest b h hlt more
    rcases Option.or_eq_some_iff.mp h with h | ⟨hnone, h⟩
    · rw [h₁.settled h hlt more, Option.some_or]
    · have hne : rest ≠ [] := List.ne_nil_of_length_pos (Nat.zero_lt_of_lt hlt)
      rw [h₁.barred hne hnone more, Option.none_or]
      exact h₂.settled h hlt more
  barred := by
    intro rest hne h more
    obtain ⟨hnone₁, hnone₂⟩ := Option.or_eq_none_iff.mp h
    rw [h₁.barred hne hnone₁ more, h₂.barred hne hnone₂ more, Option.or_none]

theorem group {first : List Char → Option Nat} (h : Steady id first) (number : Nat) :
    Steady Prod.fst fun rest => (first rest).map (·, number) where
  pos := by
    intro rest b hb
    obtain ⟨n, hn, rfl⟩ := Option.map_eq_some_iff.mp hb
    exact h.pos hn
  settled := by
    intro rest b hb hlt more
    obtain ⟨n, hn, rfl⟩ := Option.map_eq_some_iff.mp hb
    rw [h.settled hn hlt more, Option.map_some]
  barred := by
    intro rest hne hnone more
    rw [h.barred hne (Option.map_eq_none_iff.mp hnone) more, Option.map_none]

end Steady

/-! ### Functions for terms -/

/-- The preferred match of a term without groups is as long as the function says. -/
def Term.Takes (m : Modes) (t : Term) (first : List Char → Option Nat) : Prop :=
  ∀ (text : Array Char) (s : State), s.pos ≤ text.size →
    (t.ways text m s).head? = (first (text.toList.drop s.pos)).map fun n => s.moveTo (s.pos + n)

/-- The preferred match of a term is a group, and is as long as the function says. -/
def Term.TakesGroup (m : Modes) (t : Term) (first : List Char → Option (Nat × Nat)) : Prop :=
  ∀ (text : Array Char) (s : State), s.pos ≤ text.size →
    (t.ways text m s).head? = (first (text.toList.drop s.pos)).map fun match_ =>
      ((s.openGroup match_.2).moveTo (s.pos + match_.1)).closeGroup match_.2

variable {m : Modes}

def oneFirst (test : Nat → Bool) (rest : List Char) : Option Nat :=
  match rest with
  | c :: _ => if test c.toNat then some 1 else none
  | [] => none

/-- As many characters that pass a test as there are, and at least one. -/
def runFirst (test : Nat → Bool) (rest : List Char) : Option Nat :=
  let run := rest.takeWhile fun c => test c.toNat
  if run = [] then none else some run.length

def twoFirst (test test' : Nat → Bool) (rest : List Char) : Option Nat :=
  match rest with
  | c :: c' :: _ => if test c.toNat && test' c'.toNat then some 2 else none
  | _ => none

theorem steady_oneFirst (test : Nat → Bool) : Steady id (oneFirst test) where
  pos := by
    intro rest n h
    unfold oneFirst at h
    split at h
    · split at h
      · cases h
        exact Nat.one_pos
      · contradiction
    · contradiction
  settled := by
    intro rest n h _ more
    cases rest with
    | nil => contradiction
    | cons c rest => exact h
  barred := by
    intro rest hne h more
    cases rest with
    | nil => contradiction
    | cons c rest => exact h

theorem steady_runFirst (test : Nat → Bool) : Steady id (runFirst test) where
  pos := by
    intro rest n h
    unfold runFirst at h
    dsimp only at h
    split at h
    · contradiction
    · rename_i hne
      cases h
      exact List.length_pos_of_ne_nil hne
  settled := by
    intro rest n h hlt more
    unfold runFirst at h ⊢
    dsimp only at h ⊢
    split at h
    · contradiction
    · rename_i hne
      cases h
      have hrun : (rest ++ more).takeWhile (fun c => test c.toNat) =
          rest.takeWhile fun c => test c.toNat := by
        have hne : (rest.takeWhile fun c => test c.toNat).length ≠ rest.length := Nat.ne_of_lt hlt
        rw [List.takeWhile_append, if_neg hne]
      rw [hrun, if_neg hne]
  barred := by
    intro rest hne h more
    cases rest with
    | nil => contradiction
    | cons c rest =>
        unfold runFirst at h ⊢
        by_cases hc : test c.toNat
        · simp [hc] at h
        · simp [hc]

/-- Two characters are steady together with the first one alone: where the second one could still
come there is a match that touches the end. -/
theorem steady_twoFirst (test test' : Nat → Bool) {first : List Char → Option Nat}
    (h : Steady id first) :
    Steady id fun rest => (twoFirst test test' rest).or ((oneFirst test rest).or (first rest)) := by
  have hothers := (steady_oneFirst test).or h
  have htwo : ∀ (c c' : Char) (rest more : List Char),
      twoFirst test test' (c :: c' :: rest ++ more) = twoFirst test test' (c :: c' :: rest) :=
    fun _ _ _ _ => rfl
  refine ⟨?_, ?_, ?_⟩
  · intro rest n hn
    rcases Option.or_eq_some_iff.mp hn with hn | ⟨-, hn⟩
    · unfold twoFirst at hn
      split at hn
      · split at hn
        · cases hn
          exact Nat.two_pos
        · contradiction
      · contradiction
    · exact hothers.pos hn
  · intro rest n hn hlt more
    match rest with
    | [] => contradiction
    | [c] =>
        have hpos : 0 < n := by
          rcases Option.or_eq_some_iff.mp hn with hn | ⟨-, hn⟩
          · contradiction
          · exact hothers.pos hn
        simp only [id_eq, List.length_singleton] at hlt
        omega
    | c :: c' :: rest =>
        rw [htwo]
        rcases Option.or_eq_some_iff.mp hn with hn | ⟨hnone, hn⟩
        · rw [hn, Option.some_or]
        · rw [hnone, Option.none_or]
          exact hothers.settled hn hlt more
  · intro rest hne hnone more
    obtain ⟨hnone, hnone'⟩ := Option.or_eq_none_iff.mp hnone
    match rest with
    | [] => contradiction
    | [c] =>
        have hc : test c.toNat = false := by
          have hone := (Option.or_eq_none_iff.mp hnone').1
          simpa [oneFirst] using hone
        have htwo' : twoFirst test test' ([c] ++ more) = none := by
          cases more <;> simp [twoFirst, hc]
        rw [htwo', Option.none_or]
        exact hothers.barred hne hnone' more
    | c :: c' :: rest =>
        rw [htwo, hnone, Option.none_or]
        exact hothers.barred hne hnone' more

namespace Term

theorem Takes.either {t u : Term} {first second : List Char → Option Nat} (h₁ : Takes m t first)
    (h₂ : Takes m u second) :
    Takes m (t.either u) fun rest => (first rest).or (second rest) := by
  intro text s hs
  rw [ways, List.head?_append, h₁ text s hs, h₂ text s hs, Option.map_or]

theorem Takes.group {t : Term} {first : List Char → Option Nat} (h : Takes m t first)
    (number : Nat) : TakesGroup m (group number t) fun rest => (first rest).map (·, number) := by
  intro text s hs
  have hbody := h text (s.openGroup number) hs
  rw [ways, List.head?_map, hbody, Option.map_map, Option.map_map]
  rfl

theorem TakesGroup.either {t u : Term} {first second : List Char → Option (Nat × Nat)}
    (h₁ : TakesGroup m t first) (h₂ : TakesGroup m u second) :
    TakesGroup m (t.either u) fun rest => (first rest).or (second rest) := by
  intro text s hs
  rw [ways, List.head?_append, h₁ text s hs, h₂ text s hs, Option.map_or]

end Term

/-! ### Looking for a pattern -/

namespace Compiled

variable {p : Compiled} {first : List Char → Option (Nat × Nat)}

theorem matchAt?_of_takesGroup (h : p.term.TakesGroup p.modes first)
    (hpos : ∀ {rest b}, first rest = some b → 0 < b.1) {text : Array Char} {start : Nat}
    (hstart : start ≤ text.size) :
    p.matchAt? text start = (first (text.toList.drop start)).map fun match_ =>
      { pos := start + match_.1, opened := [(match_.2, start)],
        closed := [(match_.2, start + match_.1)] } := by
  have hhead := h text { pos := start } hstart
  change (p.ways text start).head? = (first (text.toList.drop start)).map _ at hhead
  rw [matchAt?_eq]
  cases hfirst : first (text.toList.drop start) with
  | none =>
      rw [hfirst, Option.map_none, List.head?_eq_none_iff] at hhead
      rw [hhead]
      rfl
  | some match_ =>
      rw [hfirst, Option.map_some, List.head?_eq_some_iff] at hhead
      obtain ⟨others, hways⟩ := hhead
      rw [hways, List.find?_cons_of_pos]
      · rfl
      · have hlt : start < start + match_.1 := Nat.lt_add_of_pos_right (hpos hfirst)
        exact decide_eq_true hlt

/-- A match that stops before the end of the text is found in any longer text too. -/
theorem search?_append (h : p.term.TakesGroup p.modes first) (hsteady : Steady Prod.fst first)
    {text : List Char} (more : List Char) {found : Found text.toArray}
    (hfound : p.search? text.toArray = some found) (hstop : found.stop < text.length) :
    ∃ found', p.search? (text ++ more).toArray = some found' ∧ found'.start = found.start ∧
      found'.stop = found.stop ∧ found'.group = found.group := by
  obtain ⟨s, ⟨hstart, hmatch, hbefore⟩, hpos, hgroup⟩ := search?_eq_some_iff.mp hfound
  have hsize : found.start < text.length := Nat.lt_trans found.start_lt_stop hstop
  have hdrop : ∀ {place : Nat}, place ≤ found.start →
      (text ++ more).toArray.toList.drop place = text.drop place ++ more := by
    intro place hplace
    exact List.drop_append_of_le_length (by omega)
  have hsame : p.matchAt? (text ++ more).toArray found.start = some s := by
    rw [matchAt?_of_takesGroup h hsteady.pos hstart] at hmatch
    obtain ⟨match_, hfirst, rfl⟩ := Option.map_eq_some_iff.mp hmatch
    have hlt : match_.1 < (text.drop found.start).length := by
      rw [List.length_drop]
      simp only at hpos
      omega
    rw [matchAt?_of_takesGroup h hsteady.pos (by simp; omega), hdrop (Nat.le_refl _),
      hsteady.settled hfirst hlt more, Option.map_some]
  have hnone : ∀ place < found.start, p.matchAt? (text ++ more).toArray place = none := by
    intro place hplace
    have hnot := hbefore place hplace
    rw [matchAt?_of_takesGroup h hsteady.pos (by simp; omega), Option.map_eq_none_iff] at hnot
    have hne : text.drop place ≠ [] := by
      rw [ne_eq, List.drop_eq_nil_iff]
      omega
    rw [matchAt?_of_takesGroup h hsteady.pos (by simp; omega), hdrop hplace.le,
      hsteady.barred hne hnot more, Option.map_none]
  refine ⟨⟨found.start, found.stop, found.group, found.start_lt_stop, by simp; omega⟩, ?_, rfl, rfl,
    rfl⟩
  exact search?_eq_some_iff.mpr ⟨s, ⟨by simp; omega, hsame, hnone⟩, hpos, hgroup⟩

end Compiled

end Lookahead.Pattern
