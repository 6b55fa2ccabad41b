import Lookahead.Pattern.Search

/-!
All ways in which a term matches. The matcher tries one way after another and is asked again when
what follows fails, so what it does depends on what follows. Without that, a term simply has a list
of ways to match from a state on, the preferred one first (`Term.ways`), and the matcher searches
that list for the first way after which the rest matches (`Term.run_eq_findSome?`). Whatever is
shown about matching from here on is shown about the list.

Most operations on terms are operations on lists: one after another is `flatMap`, alternatives are
`++`, and to match something for good is to keep the head. A way never leads back in the text or
beyond its end, and it closes no group that it has not opened (`State.Reaches`).
-/

namespace Lookahead.Pattern

/-- The states in which a match can end, the preferred one first. -/
abbrev Ways := State → List State

theorem findSome?_flatMap {α β γ : Type} (f : α → List β) (g : β → Option γ) (l : List α) :
    (l.flatMap f).findSome? g = l.findSome? fun a => (f a).findSome? g := by
  induction l with
  | nil => rfl
  | cons a l ih =>
      rw [List.flatMap_cons, List.findSome?_append, ih, List.findSome?_cons]
      cases (f a).findSome? g <;> rfl

/-! ### One character -/

def oneCharWays (text : Array Char) (test : Nat → Bool) : Ways := fun s =>
  match codeAt? text s.pos with
  | some code => if test code then [s.moveTo (s.pos + 1)] else []
  | none => []

theorem oneChar_eq (text : Array Char) (test : Nat → Bool) (s : State) (next : Next) :
    oneChar text test s next = (oneCharWays text test s).findSome? next := by
  unfold oneChar oneCharWays
  cases codeAt? text s.pos with
  | none => rfl
  | some code =>
      dsimp only
      split <;> simp

/-! ### Repetitions -/

def exactlyWays (body : Ways) : Nat → Ways
  | 0, s => [s]
  | n + 1, s => (body s).flatMap (exactlyWays body n)

def mostFirstWays (body : Ways) : Nat → Ways
  | 0, s => [s]
  | n + 1, s =>
    (body s).flatMap (fun t => if s.pos < t.pos then mostFirstWays body n t else [t]) ++ [s]

def fewestFirstWays (body : Ways) : Nat → Ways
  | 0, s => [s]
  | n + 1, s =>
    s :: (body s).flatMap fun t => if s.pos < t.pos then fewestFirstWays body n t else [t]

def committedWays (body : Ways) : Ways := fun s => (body s).head?.toList

def asManyAsWays (body : Ways) : Nat → Ways
  | 0, s => [s]
  | n + 1, s =>
    match (body s).head? with
    | none => [s]
    | some t => if s.pos < t.pos then asManyAsWays body n t else [t]

def repeatWays (text : Array Char) (greed : Greed) (least : Nat) (most : Option Nat)
    (body : Ways) : Ways := fun s =>
  match greed with
  | .greedy =>
    (exactlyWays body least s).flatMap fun s =>
      mostFirstWays body (extraRounds text least most s.pos) s
  | .lazy =>
    (exactlyWays body least s).flatMap fun s =>
      fewestFirstWays body (extraRounds text least most s.pos) s
  | .possessive =>
    (exactlyWays (committedWays body) least s).flatMap fun s =>
      asManyAsWays body (extraRounds text least most s.pos) s

/-- The run asks what follows about the ways, one after another. -/
def Run.Searches (body : Run) (ways : Ways) : Prop :=
  ∀ (s : State) (next : Next), body s next = (ways s).findSome? next

namespace Run.Searches

variable {body : Run} {ways : Ways}

theorem exactly (h : body.Searches ways) (n : Nat) :
    Run.Searches (Pattern.exactly body n) (exactlyWays ways n) := by
  intro s next
  induction n generalizing s next with
  | zero => simp [Pattern.exactly, exactlyWays]
  | succ n ih =>
      rw [Pattern.exactly, exactlyWays, h, findSome?_flatMap]
      congr 1
      funext t
      exact ih t next

theorem mostFirst (h : body.Searches ways) (n : Nat) :
    Run.Searches (Pattern.mostFirst body n) (mostFirstWays ways n) := by
  intro s next
  induction n generalizing s next with
  | zero => simp [Pattern.mostFirst, mostFirstWays]
  | succ n ih =>
      rw [Pattern.mostFirst, mostFirstWays, h, List.findSome?_append, findSome?_flatMap]
      congr 1
      · congr 1
        funext t
        split
        · exact ih t next
        · simp
      · simp

theorem fewestFirst (h : body.Searches ways) (n : Nat) :
    Run.Searches (Pattern.fewestFirst body n) (fewestFirstWays ways n) := by
  intro s next
  induction n generalizing s next with
  | zero => simp [Pattern.fewestFirst, fewestFirstWays]
  | succ n ih =>
      rw [Pattern.fewestFirst, fewestFirstWays, h, ← List.singleton_append, List.findSome?_append,
        findSome?_flatMap]
      congr 1
      · simp
      · congr 1
        funext t
        split
        · exact ih t next
        · simp

theorem head? (h : body.Searches ways) (s : State) : body s some = (ways s).head? := by
  rw [h]
  cases ways s <;> simp

theorem committed (h : body.Searches ways) :
    Run.Searches (Pattern.committed body) (committedWays ways) := by
  intro s next
  rw [Pattern.committed, committedWays, h.head?]
  cases (ways s).head? <;> simp

theorem asManyAs (h : body.Searches ways) (n : Nat) :
    Run.Searches (Pattern.asManyAs body n) (asManyAsWays ways n) := by
  intro s next
  induction n generalizing s next with
  | zero => simp [Pattern.asManyAs, asManyAsWays]
  | succ n ih =>
      rw [Pattern.asManyAs, asManyAsWays, h.head?]
      cases (ways s).head? with
      | none => simp
      | some t =>
          dsimp only
          split
          · exact ih t next
          · simp

theorem repeatRun (h : body.Searches ways) (text : Array Char) (greed : Greed) (least : Nat)
    (most : Option Nat) :
    Run.Searches (Pattern.repeatRun text greed least most body)
      (repeatWays text greed least most ways) := by
  intro s next
  cases greed with
  | greedy =>
      rw [Pattern.repeatRun, repeatWays, h.exactly, findSome?_flatMap]
      congr 1
      funext t
      exact h.mostFirst _ t next
  | lazy =>
      rw [Pattern.repeatRun, repeatWays, h.exactly, findSome?_flatMap]
      congr 1
      funext t
      exact h.fewestFirst _ t next
  | possessive =>
      rw [Pattern.repeatRun, repeatWays, h.committed.exactly, findSome?_flatMap]
      congr 1
      funext t
      exact h.asManyAs _ t next

end Run.Searches

/-! ### Terms -/

def Term.ways (text : Array Char) : Term → Modes → Ways
  | empty, _, s => [s]
  | literal negated code, m, s =>
    oneCharWays text (fun x => literalHolds m code x != negated) s
  | any, m, s => oneCharWays text (fun x => m.dotAll || x != 0x0A) s
  | set negated members, m, s =>
    oneCharWays text (fun x => setHolds m members x != negated) s
  | place p, m, s => if p.holds text m s.pos then [s] else []
  | cat first second, m, s => (first.ways text m s).flatMap (second.ways text m)
  | either first second, m, s => first.ways text m s ++ second.ways text m s
  | group number body, m, s =>
    (body.ways text m (s.openGroup number)).map fun t => t.closeGroup number
  | moded on off body, m, s => body.ways text (m.within on off) s
  | atomic body, m, s => committedWays (body.ways text m) s
  | ahead negated body, m, s =>
    match (body.ways text m s).head? with
    | some t => if negated then [] else [t.moveTo s.pos]
    | none => if negated then [s] else []
  | behind negated width body, m, s =>
    if s.pos < width.least then (if negated then [s] else [])
    else
      match (body.ways text m (s.moveTo (s.pos - width.least))).head? with
      | some t => if negated then [] else [t.moveTo s.pos]
      | none => if negated then [s] else []
  | backref number _, m, s =>
    match s.span? number with
    | none => []
    | some (a, b) =>
      if sameText text m a (b - a) s.pos then [s.moveTo (s.pos + (b - a))] else []
  | conditional number present absent, m, s =>
    if (s.span? number).isSome then present.ways text m s else absent.ways text m s
  | repeated greed least most body, m, s => repeatWays text greed least most (body.ways text m) s

/-- Matching is a search in the ways. -/
theorem Term.run_eq_findSome? (text : Array Char) (t : Term) (m : Modes) :
    (t.run text m).Searches (t.ways text m) := by
  intro s next
  induction t generalizing m s next with
  | empty => simp [run, ways]
  | literal negated code => exact oneChar_eq text _ s next
  | any => exact oneChar_eq text _ s next
  | set negated members => exact oneChar_eq text _ s next
  | place p =>
      rw [run, ways]
      split <;> simp
  | cat first second ih₁ ih₂ =>
      rw [run, ways, ih₁, findSome?_flatMap]
      congr 1
      funext t
      exact ih₂ m t next
  | either first second ih₁ ih₂ => rw [run, ways, ih₁, ih₂, List.findSome?_append]
  | group number body ih =>
      rw [run, ways, ih, List.findSome?_map]
      rfl
  | moded on off body ih => exact ih (m.within on off) s next
  | atomic body ih => exact Run.Searches.committed (fun s next => ih m s next) s next
  | ahead negated body ih =>
      have hhead := Run.Searches.head? (fun s next => ih m s next) s
      rw [run, ways, hhead]
      cases ((body.ways text m) s).head? <;> cases negated <;> simp
  | behind negated width body ih =>
      have hhead := Run.Searches.head? (fun s next => ih m s next) (s.moveTo (s.pos - width.least))
      rw [run, ways, hhead]
      split
      · cases negated <;> simp
      · cases ((body.ways text m) (s.moveTo (s.pos - width.least))).head? <;>
          cases negated <;> simp
  | backref number width =>
      rw [run, ways]
      cases s.span? number with
      | none => simp
      | some span =>
          dsimp only
          split <;> simp
  | conditional number present absent ih₁ ih₂ =>
      rw [run, ways]
      split
      · exact ih₁ m s next
      · exact ih₂ m s next
  | repeated greed least most body ih =>
      exact Run.Searches.repeatRun (fun s next => ih m s next) text greed least most s next

/-! ### Where a way leads -/

/-- A state that a match can get to: further on in the text, with the same groups and more, none of
which was closed without being opened. -/
structure State.Reaches (text : Array Char) (s t : State) : Prop where
  pos_le : s.pos ≤ t.pos
  pos_le_size : t.pos ≤ text.size
  opened : ∀ number ∈ s.opened.map Prod.fst, number ∈ t.opened.map Prod.fst
  closed : ∀ number ∈ t.closed.map Prod.fst,
    number ∈ s.closed.map Prod.fst ∨ number ∈ t.opened.map Prod.fst

namespace State.Reaches

variable {text : Array Char} {s t u : State}

theorem refl (h : s.pos ≤ text.size) : s.Reaches text s :=
  ⟨Nat.le_refl _, h, fun _ hn => hn, fun _ hn => .inl hn⟩

theorem trans (hst : s.Reaches text t) (htu : t.Reaches text u) : s.Reaches text u where
  pos_le := Nat.le_trans hst.pos_le htu.pos_le
  pos_le_size := htu.pos_le_size
  opened number hn := htu.opened number (hst.opened number hn)
  closed number hn := by
    rcases htu.closed number hn with hn | hn
    · rcases hst.closed number hn with hn | hn
      · exact .inl hn
      · exact .inr (htu.opened number hn)
    · exact .inr hn

theorem moveTo {from' : State} (h : from'.Reaches text t) (hopened : from'.opened = s.opened)
    (hclosed : from'.closed = s.closed) {pos : Nat} (hle : s.pos ≤ pos) (hsize : pos ≤ text.size) :
    s.Reaches text (t.moveTo pos) where
  pos_le := hle
  pos_le_size := hsize
  opened number hn := h.opened number (hopened ▸ hn)
  closed number hn := hclosed ▸ h.closed number hn

theorem group {number : Nat} (h : (s.openGroup number).Reaches text t) :
    s.Reaches text (t.closeGroup number) where
  pos_le := h.pos_le
  pos_le_size := h.pos_le_size
  opened other hn := h.opened other (List.mem_cons_of_mem _ hn)
  closed other hn := by
    rcases List.mem_cons.mp hn with heq | hn
    · exact .inr (h.opened other (heq ▸ List.mem_cons_self))
    · exact h.closed other hn

theorem of_mem_check {c : Prop} [Decidable c] (hs : s.pos ≤ text.size)
    (h : t ∈ if c then [s] else []) : s.Reaches text t := by
  split at h
  · obtain rfl := List.mem_singleton.mp h
    exact .refl hs
  · simp at h

theorem of_mem_look {from' : State} {found : Option State} {negated : Bool}
    (hfound : ∀ u ∈ found, from'.Reaches text u) (hopened : from'.opened = s.opened)
    (hclosed : from'.closed = s.closed) (hs : s.pos ≤ text.size)
    (h : t ∈ match found with
      | some u => if negated then [] else [u.moveTo s.pos]
      | none => if negated then [s] else []) : s.Reaches text t := by
  cases found with
  | none => exact of_mem_check hs h
  | some u =>
      dsimp only at h
      split at h
      · simp at h
      · obtain rfl := List.mem_singleton.mp h
        exact (hfound u rfl).moveTo hopened hclosed (Nat.le_refl _) hs

end State.Reaches

def Ways.Forward (text : Array Char) (ways : Ways) : Prop :=
  ∀ s : State, s.pos ≤ text.size → ∀ t ∈ ways s, s.Reaches text t

namespace Ways.Forward

variable {text : Array Char} {first second body : Ways}

theorem flatMap (h₁ : Forward text first) (h₂ : Forward text second) :
    Forward text fun s => (first s).flatMap second := by
  intro s hs u hu
  obtain ⟨t, ht, hu⟩ := List.mem_flatMap.mp hu
  have hst := h₁ s hs t ht
  exact hst.trans (h₂ t hst.pos_le_size u hu)

theorem exactly (h : Forward text body) (n : Nat) : Forward text (exactlyWays body n) := by
  induction n with
  | zero =>
      intro s hs t ht
      obtain rfl := List.mem_singleton.mp ht
      exact .refl hs
  | succ n ih => exact h.flatMap ih

theorem round (h : Forward text body) {more : Ways} (hmore : Forward text more) (s : State) :
    s.pos ≤ text.size →
      ∀ u ∈ (body s).flatMap (fun t => if s.pos < t.pos then more t else [t]),
        s.Reaches text u := by
  intro hs u hu
  obtain ⟨t, ht, hu⟩ := List.mem_flatMap.mp hu
  have hst := h s hs t ht
  split at hu
  · exact hst.trans (hmore t hst.pos_le_size u hu)
  · obtain rfl := List.mem_singleton.mp hu
    exact hst

theorem mostFirst (h : Forward text body) (n : Nat) : Forward text (mostFirstWays body n) := by
  induction n with
  | zero => exact h.exactly 0
  | succ n ih =>
      intro s hs u hu
      rcases List.mem_append.mp hu with hu | hu
      · exact h.round ih s hs u hu
      · obtain rfl := List.mem_singleton.mp hu
        exact .refl hs

theorem fewestFirst (h : Forward text body) (n : Nat) : Forward text (fewestFirstWays body n) := by
  induction n with
  | zero => exact h.exactly 0
  | succ n ih =>
      intro s hs u hu
      rcases List.mem_cons.mp hu with rfl | hu
      · exact .refl hs
      · exact h.round ih s hs u hu

theorem committed (h : Forward text body) : Forward text (committedWays body) := by
  intro s hs t ht
  exact h s hs t (List.mem_of_mem_head? (Option.mem_toList.mp ht))

theorem asManyAs (h : Forward text body) (n : Nat) : Forward text (asManyAsWays body n) := by
  induction n with
  | zero => exact h.exactly 0
  | succ n ih =>
      intro s hs u hu
      unfold asManyAsWays at hu
      cases hhead : (body s).head? with
      | none =>
          rw [hhead] at hu
          obtain rfl := List.mem_singleton.mp hu
          exact .refl hs
      | some t =>
          rw [hhead] at hu
          have hst := h s hs t (List.mem_of_mem_head? hhead)
          dsimp only at hu
          split at hu
          · exact hst.trans (ih t hst.pos_le_size u hu)
          · obtain rfl := List.mem_singleton.mp hu
            exact hst

theorem repeatWays (h : Forward text body) (greed : Greed) (least : Nat) (most : Option Nat) :
    Forward text (Pattern.repeatWays text greed least most body) := by
  intro s hs
  cases greed with
  | greedy => exact (h.exactly least).flatMap (fun s hs => h.mostFirst _ s hs) s hs
  | lazy => exact (h.exactly least).flatMap (fun s hs => h.fewestFirst _ s hs) s hs
  | possessive => exact (h.committed.exactly least).flatMap (fun s hs => h.asManyAs _ s hs) s hs

theorem oneChar (text : Array Char) (test : Nat → Bool) : Forward text (oneCharWays text test) := by
  intro s hs t ht
  unfold oneCharWays at ht
  cases hcode : codeAt? text s.pos with
  | none => simp [hcode] at ht
  | some code =>
      have hlt : s.pos < text.size := by
        obtain ⟨char, hchar, -⟩ := Option.map_eq_some_iff.mp hcode
        exact (Array.getElem?_eq_some_iff.mp hchar).1
      rw [hcode] at ht
      dsimp only at ht
      split at ht
      · obtain rfl := List.mem_singleton.mp ht
        exact (State.Reaches.refl hs).moveTo rfl rfl (Nat.le_succ _) hlt
      · simp at ht

end Ways.Forward

theorem Term.forward_ways (text : Array Char) (t : Term) (m : Modes) :
    Ways.Forward text (t.ways text m) := by
  induction t generalizing m with
  | empty =>
      intro s hs u hu
      obtain rfl := List.mem_singleton.mp hu
      exact .refl hs
  | literal negated code => exact Ways.Forward.oneChar text _
  | any => exact Ways.Forward.oneChar text _
  | set negated members => exact Ways.Forward.oneChar text _
  | place p =>
      intro s hs u hu
      rw [ways] at hu
      exact .of_mem_check hs hu
  | cat first second ih₁ ih₂ => exact (ih₁ m).flatMap (ih₂ m)
  | either first second ih₁ ih₂ =>
      intro s hs u hu
      rcases List.mem_append.mp hu with hu | hu
      · exact ih₁ m s hs u hu
      · exact ih₂ m s hs u hu
  | group number body ih =>
      intro s hs u hu
      obtain ⟨t, ht, rfl⟩ := List.mem_map.mp hu
      exact (ih m (s.openGroup number) hs t ht).group
  | moded on off body ih => exact ih (m.within on off)
  | atomic body ih => exact (ih m).committed
  | ahead negated body ih =>
      intro s hs u hu
      rw [ways] at hu
      exact .of_mem_look (fun t ht => ih m s hs t (List.mem_of_mem_head? ht)) rfl rfl hs hu
  | behind negated width body ih =>
      intro s hs u hu
      rw [ways] at hu
      split at hu
      · exact .of_mem_check hs hu
      · have hback : (s.moveTo (s.pos - width.least)).pos ≤ text.size :=
          Nat.le_trans (Nat.sub_le _ _) hs
        exact .of_mem_look (fun t ht => ih m _ hback t (List.mem_of_mem_head? ht)) rfl rfl hs hu
  | backref number width =>
      intro s hs u hu
      rw [ways] at hu
      cases hspan : s.span? number with
      | none => simp [hspan] at hu
      | some span =>
          simp only [hspan] at hu
          split at hu
          · rename_i hsame
            obtain rfl := List.mem_singleton.mp hu
            have hle : s.pos + (span.2 - span.1) ≤ text.size := by
              simp only [sameText, Bool.and_eq_true, decide_eq_true_eq] at hsame
              exact hsame.1
            exact (State.Reaches.refl hs).moveTo rfl rfl (Nat.le_add_right _ _) hle
          · simp at hu
  | conditional number present absent ih₁ ih₂ =>
      intro s hs u hu
      rw [ways] at hu
      split at hu
      · exact ih₁ m s hs u hu
      · exact ih₂ m s hs u hu
  | repeated greed least most body ih => exact (ih m).repeatWays greed least most

end Lookahead.Pattern
