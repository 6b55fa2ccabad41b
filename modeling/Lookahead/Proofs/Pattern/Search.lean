import Lookahead.Proofs.Pattern.Ways
import Mathlib.Data.List.Basic

/-!
Looking for a pattern from left to right. `Compiled.search?` asks at each place for a match that is
not empty. The usual way to look for a pattern is another: take the leftmost match that there is,
empty or not, and go on from its end; and after an empty match only a match that moves on will do
at the same place, or else one further on. `Compiled.matchesFrom` are the stretches of text that are
found like that, one after another.

Both come to the same (`find?_matchesIn_eq_some_iff`): the first stretch that is not empty is the
one that the search finds. An empty match is never in the way, because it is what a place prefers
over all that comes after it there, and these are asked for next.
-/

namespace Lookahead.Pattern.Compiled

variable {p : Compiled} {text : Array Char}

def ways (p : Compiled) (text : Array Char) (start : Nat) : List State :=
  p.term.ways text p.modes { pos := start }

theorem reaches_of_mem_ways {start : Nat} (hstart : start ≤ text.size) {s : State}
    (h : s ∈ p.ways text start) : start ≤ s.pos ∧ s.pos ≤ text.size := by
  have hreaches := Term.forward_ways text p.term p.modes { pos := start } hstart s h
  exact ⟨hreaches.pos_le, hreaches.pos_le_size⟩

theorem findSome?_ite (accepts : State → Prop) [DecidablePred accepts] (l : List State) :
    (l.findSome? fun s => if accepts s then some s else none) = l.find? fun s => accepts s := by
  induction l with
  | nil => rfl
  | cons s l ih =>
      rw [List.findSome?_cons, List.find?_cons, ih]
      by_cases h : accepts s <;> simp [h]

theorem matchAt?_eq (p : Compiled) (text : Array Char) (start : Nat) :
    p.matchAt? text start = (p.ways text start).find? fun s => start < s.pos := by
  rw [matchAt?, Term.run_eq_findSome?]
  exact findSome?_ite _ _

theorem of_matchAt? {start : Nat} (hstart : start ≤ text.size) {s : State}
    (h : p.matchAt? text start = some s) : start < s.pos ∧ s.pos ≤ text.size := by
  rw [matchAt?_eq] at h
  have hlt : start < s.pos := by simpa using List.find?_some h
  exact ⟨hlt, (reaches_of_mem_ways hstart (List.mem_of_find?_eq_some h)).2⟩

/-- The first match that is not empty: the preferred one at the leftmost place that has any. -/
structure Finds (p : Compiled) (text : Array Char) (start : Nat) (s : State) : Prop where
  start_le : start ≤ text.size
  matchAt?_eq : p.matchAt? text start = some s
  before : ∀ place < start, p.matchAt? text place = none

theorem eq_of_matchAt? {start start' : Nat} {s s' : State}
    (h : p.matchAt? text start = some s) (h' : p.matchAt? text start' = some s')
    (hbefore : start' < start → p.matchAt? text start' = none)
    (hbefore' : start < start' → p.matchAt? text start = none) : start = start' ∧ s = s' := by
  have hplace : start = start' := by
    rcases Nat.lt_trichotomy start start' with hlt | heq | hlt
    · simp [hbefore' hlt] at h
    · exact heq
    · simp [hbefore hlt] at h'
  subst hplace
  exact ⟨rfl, Option.some.inj (h.symm.trans h')⟩

/-! ### Place by place -/

theorem findSome?_range'_eq_some_iff {β : Type} {f : Nat → Option β} {first count : Nat} {b : β} :
    (List.range' first count).findSome? f = some b ↔
      ∃ place, first ≤ place ∧ place < first + count ∧ f place = some b ∧
        ∀ earlier, first ≤ earlier → earlier < place → f earlier = none := by
  induction count generalizing first with
  | zero =>
      simp only [List.range'_zero, List.findSome?_nil, reduceCtorEq, false_iff, not_exists]
      rintro place ⟨hle, hlt, -⟩
      omega
  | succ count ih =>
      rw [List.range'_succ, List.findSome?_cons]
      cases hfirst : f first with
      | some c =>
          dsimp only
          constructor
          · intro h
            exact ⟨first, Nat.le_refl _, by omega, hfirst.trans h, fun earlier h₁ h₂ => by omega⟩
          · rintro ⟨place, hle, -, hplace, hbefore⟩
            rcases Nat.eq_or_lt_of_le hle with rfl | hlt
            · exact hfirst.symm.trans hplace
            · have hnone := hbefore first (Nat.le_refl _) hlt
              rw [hfirst] at hnone
              contradiction
      | none =>
          dsimp only
          rw [ih]
          constructor
          · rintro ⟨place, hle, hlt, hplace, hbefore⟩
            refine ⟨place, by omega, by omega, hplace, fun earlier h₁ h₂ => ?_⟩
            rcases Nat.eq_or_lt_of_le h₁ with rfl | h₁
            · exact hfirst
            · exact hbefore earlier h₁ h₂
          · rintro ⟨place, hle, hlt, hplace, hbefore⟩
            have hne : place ≠ first := by
              rintro rfl
              rw [hfirst] at hplace
              contradiction
            exact ⟨place, by omega, by omega, hplace,
              fun earlier h₁ h₂ => hbefore earlier (by omega) h₂⟩

theorem foundAt?_of_matchAt? {start : Nat} (hstart : start ≤ text.size) {s : State}
    (h : p.matchAt? text start = some s) :
    p.foundAt? text start =
      some ⟨start, s.pos, s.lastGroup?, (of_matchAt? hstart h).1, (of_matchAt? hstart h).2⟩ := by
  rw [foundAt?, h]
  exact dif_pos (of_matchAt? hstart h)

theorem foundAt?_of_eq_none {start : Nat} (h : p.matchAt? text start = none) :
    p.foundAt? text start = none := by
  rw [foundAt?, h]

theorem foundAt?_eq_some_iff {start : Nat} (hstart : start ≤ text.size) {found : Found text} :
    p.foundAt? text start = some found ↔
      ∃ s, p.matchAt? text start = some s ∧ found.start = start ∧ found.stop = s.pos ∧
        found.group = s.lastGroup? := by
  cases hmatch : p.matchAt? text start with
  | none => simp [foundAt?_of_eq_none hmatch]
  | some s =>
      rw [foundAt?_of_matchAt? hstart hmatch, Option.some.injEq]
      constructor
      · rintro rfl
        exact ⟨s, rfl, rfl, rfl, rfl⟩
      · rintro ⟨t, ht, hstart', hstop, hgroup⟩
        obtain rfl := Option.some.inj ht
        cases found
        simp_all

theorem foundAt?_eq_none_iff {start : Nat} (hstart : start ≤ text.size) :
    p.foundAt? text start = none ↔ p.matchAt? text start = none := by
  cases hmatch : p.matchAt? text start with
  | none => simp [foundAt?_of_eq_none hmatch]
  | some s => simp [foundAt?_of_matchAt? hstart hmatch]

theorem search?_eq_some_iff {found : Found text} :
    p.search? text = some found ↔
      ∃ s, p.Finds text found.start s ∧ found.stop = s.pos ∧ found.group = s.lastGroup? := by
  unfold search?
  rw [List.range_eq_range', findSome?_range'_eq_some_iff]
  constructor
  · rintro ⟨place, -, hlt, hfound, hbefore⟩
    obtain ⟨s, hmatch, rfl, hstop, hgroup⟩ := (foundAt?_eq_some_iff (by omega)).mp hfound
    refine ⟨s, ⟨by omega, hmatch, fun earlier h => ?_⟩, hstop, hgroup⟩
    exact (foundAt?_eq_none_iff (by omega)).mp (hbefore earlier (Nat.zero_le _) h)
  · rintro ⟨s, ⟨hle, hmatch, hbefore⟩, hstop, hgroup⟩
    refine ⟨found.start, Nat.zero_le _, by omega, ?_, fun earlier _ h => ?_⟩
    · exact (foundAt?_eq_some_iff hle).mpr ⟨s, hmatch, rfl, hstop, hgroup⟩
    · exact (foundAt?_eq_none_iff (by omega)).mpr (hbefore earlier h)

theorem search?_isSome_iff : (p.search? text).isSome = true ↔ ∃ start s, p.Finds text start s := by
  rw [Option.isSome_iff_exists]
  constructor
  · rintro ⟨found, h⟩
    obtain ⟨s, hfinds, -⟩ := search?_eq_some_iff.mp h
    exact ⟨_, s, hfinds⟩
  · rintro ⟨start, s, hfinds⟩
    obtain ⟨hlt, hle⟩ := of_matchAt? hfinds.start_le hfinds.matchAt?_eq
    exact ⟨⟨start, s.pos, s.lastGroup?, hlt, hle⟩, search?_eq_some_iff.mpr ⟨s, hfinds, rfl, rfl⟩⟩

/-! ### Match after match -/

/-- Whether a match at a place counts when the search goes on from another: an empty one at the very
same place does not when it has to move on. -/
def counts (place : Nat) (movesOn : Bool) (start : Nat) (s : State) : Prop :=
  ¬ (movesOn = true ∧ start = place ∧ s.pos = start)

instance (place : Nat) (movesOn : Bool) (start : Nat) :
    DecidablePred (counts place movesOn start) :=
  fun s => inferInstanceAs (Decidable (¬ (movesOn = true ∧ start = place ∧ s.pos = start)))

theorem counts_of_lt {place : Nat} {movesOn : Bool} {start : Nat} {s : State} (h : start < s.pos) :
    counts place movesOn start s := by
  rintro ⟨-, -, hempty⟩
  omega

def nextMatch? (p : Compiled) (text : Array Char) (place : Nat) (movesOn : Bool) :
    Option (Nat × Nat) :=
  (List.range' place (text.size + 1 - place)).findSome? fun start =>
    (p.term.run text p.modes { pos := start } fun s =>
      if counts place movesOn start s then some s else none).map fun s => (start, s.pos)

variable {place : Nat} {movesOn : Bool}

theorem nextMatch?_eq (p : Compiled) (text : Array Char) (place : Nat) (movesOn : Bool) :
    p.nextMatch? text place movesOn =
      (List.range' place (text.size + 1 - place)).findSome? fun start =>
        ((p.ways text start).find? fun s => counts place movesOn start s).map
          fun s => (start, s.pos) := by
  unfold nextMatch?
  congr 1
  funext start
  rw [Term.run_eq_findSome?]
  exact congrArg _ (findSome?_ite _ _)

theorem matchAt?_eq_none_of_find? {start : Nat}
    (h : ((p.ways text start).find? fun s => counts place movesOn start s) = none) :
    p.matchAt? text start = none := by
  rw [matchAt?_eq, List.find?_eq_none]
  intro s hs hlt
  have hnot := List.find?_eq_none.mp h s hs
  simp only [decide_eq_true_eq] at hlt hnot
  exact hnot (counts_of_lt hlt)

theorem matchAt?_eq_none_of_nextMatch? (h : p.nextMatch? text place movesOn = none) {start : Nat}
    (hle : place ≤ start) (hsize : start ≤ text.size) : p.matchAt? text start = none := by
  rw [nextMatch?_eq, List.findSome?_eq_none_iff] at h
  have hmem : start ∈ List.range' place (text.size + 1 - place) := by
    rw [List.mem_range'_1]
    omega
  exact matchAt?_eq_none_of_find? (Option.map_eq_none_iff.mp (h start hmem))

/-- The next match lies in the text and counts. No match before it is not empty, and if it is not
empty itself then it is the preferred one of those. -/
theorem of_nextMatch? {start stop : Nat}
    (h : p.nextMatch? text place movesOn = some (start, stop)) :
    (place ≤ start ∧ start ≤ stop ∧ stop ≤ text.size) ∧
      (movesOn = true → start = place → start < stop) ∧
      (start < stop → ∃ s, p.matchAt? text start = some s ∧ s.pos = stop) ∧
      ∀ earlier, place ≤ earlier → earlier < start → p.matchAt? text earlier = none := by
  rw [nextMatch?_eq, findSome?_range'_eq_some_iff] at h
  obtain ⟨found, hle, hlt, hfound, hbefore⟩ := h
  obtain ⟨s, hfind, heq⟩ := Option.map_eq_some_iff.mp hfound
  obtain ⟨rfl, rfl⟩ := Prod.mk.inj heq
  have hbounds := reaches_of_mem_ways (by omega) (List.mem_of_find?_eq_some hfind)
  have hcounts : counts place movesOn found s := by simpa using List.find?_some hfind
  refine ⟨⟨hle, hbounds⟩, fun hmoves hplace => ?_, fun hne => ⟨s, ?_, rfl⟩, fun earlier h₁ h₂ => ?_⟩
  · rcases Nat.eq_or_lt_of_le hbounds.1 with hempty | hlt
    · exact absurd ⟨hmoves, hplace, hempty.symm⟩ hcounts
    · exact hlt
  · -- a way that does not count is empty, so the first that counts is the first that is not empty
    obtain ⟨-, before, after, hsplit, hrejected⟩ := List.find?_eq_some_iff_append.mp hfind
    rw [matchAt?_eq, List.find?_eq_some_iff_append]
    refine ⟨by simpa using hne, before, after, hsplit, fun t ht => ?_⟩
    have hnot := hrejected t ht
    simp only [Bool.not_eq_true', decide_eq_false_iff_not] at hnot ⊢
    exact fun hlt => hnot (counts_of_lt hlt)
  · exact matchAt?_eq_none_of_find? (Option.map_eq_none_iff.mp (hbefore earlier h₁ h₂))

/-- The stretches of text that a pattern matches, one after another from a place on. -/
def matchesFrom (p : Compiled) (text : Array Char) (place : Nat) (movesOn : Bool) :
    List (Nat × Nat) :=
  match _h : p.nextMatch? text place movesOn with
  | none => []
  | some (start, stop) => (start, stop) :: matchesFrom p text stop (start == stop)
termination_by (text.size + 1 - place, if movesOn then 0 else 1)
decreasing_by
  obtain ⟨hbounds, hmoves, -⟩ := of_nextMatch? _h
  rcases Nat.eq_or_lt_of_le (Nat.le_trans hbounds.1 hbounds.2.1) with heq | hlt
  · -- an empty match at the very place, after which the search has to move on
    obtain rfl : start = stop := by omega
    cases movesOn with
    | true => exact absurd (hmoves rfl heq.symm) (Nat.lt_irrefl _)
    | false =>
        subst heq
        simp [Prod.lex_def]
  · simp only [Prod.lex_def]
    omega

def matchesIn (p : Compiled) (text : Array Char) : List (Nat × Nat) := p.matchesFrom text 0 false

theorem find?_matchesFrom_eq_some_iff {start stop : Nat} :
    ((p.matchesFrom text place movesOn).find? fun m => m.1 < m.2) = some (start, stop) ↔
      (∃ s, p.matchAt? text start = some s ∧ s.pos = stop) ∧ place ≤ start ∧ start ≤ text.size ∧
        ∀ earlier, place ≤ earlier → earlier < start → p.matchAt? text earlier = none := by
  fun_induction matchesFrom p text place movesOn with
  | case1 place movesOn hnext =>
      simp only [List.find?_nil, reduceCtorEq, false_iff]
      rintro ⟨⟨s, hmatch, -⟩, hle, hsize, -⟩
      rw [matchAt?_eq_none_of_nextMatch? hnext hle hsize] at hmatch
      contradiction
  | case2 place movesOn first last hnext ih =>
      obtain ⟨⟨hplace, hle, hsize⟩, -, hmatch, hbefore⟩ := of_nextMatch? hnext
      rw [List.find?_cons]
      by_cases hne : first < last
      · obtain ⟨s, hs, rfl⟩ := hmatch hne
        simp only [hne, decide_true, Option.some.injEq, Prod.mk.injEq]
        constructor
        · rintro ⟨rfl, rfl⟩
          exact ⟨⟨s, hs, rfl⟩, hplace, by omega, hbefore⟩
        · rintro ⟨⟨t, ht, rfl⟩, hplace', -, hbefore'⟩
          obtain ⟨rfl, rfl⟩ := eq_of_matchAt? hs ht (hbefore start hplace') (hbefore' first hplace)
          exact ⟨rfl, rfl⟩
      · obtain rfl : first = last := by omega
        simp only [hne, decide_false]
        rw [ih]
        constructor
        · rintro ⟨hstart, hfirst, hsize', hbefore'⟩
          refine ⟨hstart, by omega, hsize', fun earlier h₁ h₂ => ?_⟩
          rcases Nat.lt_or_ge earlier first with hlt | hge
          · exact hbefore earlier h₁ hlt
          · exact hbefore' earlier hge h₂
        · rintro ⟨⟨s, hs, hstop⟩, hplace', hsize', hbefore'⟩
          have hfirst : first ≤ start := by
            by_contra hlt
            rw [hbefore start hplace' (by omega)] at hs
            contradiction
          exact ⟨⟨s, hs, hstop⟩, hfirst, hsize', fun earlier h₁ h₂ =>
            hbefore' earlier (by omega) h₂⟩

/-- The first stretch that is not empty is the one that the search is after. -/
theorem find?_matchesIn_eq_some_iff {start stop : Nat} :
    ((p.matchesIn text).find? fun m => m.1 < m.2) = some (start, stop) ↔
      ∃ s, p.Finds text start s ∧ s.pos = stop := by
  rw [matchesIn, find?_matchesFrom_eq_some_iff]
  constructor
  · rintro ⟨⟨s, hs, hstop⟩, -, hsize, hbefore⟩
    exact ⟨s, ⟨hsize, hs, fun earlier h => hbefore earlier (Nat.zero_le _) h⟩, hstop⟩
  · rintro ⟨s, ⟨hsize, hs, hbefore⟩, hstop⟩
    exact ⟨⟨s, hs, hstop⟩, Nat.zero_le _, hsize, fun earlier _ h => hbefore earlier h⟩

end Lookahead.Pattern.Compiled
