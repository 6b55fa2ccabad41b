import Lookahead.Pattern.Alternation
import Lookahead.Pattern.Width
import Lookahead.Proofs.Pattern.Ways
import Mathlib.Data.List.Basic

/-!
The same pattern with other group numbers. Inside a combination of patterns the groups of each come
after those of the ones before and after the group that is put around it, so all their numbers are
higher by the same amount. `Term.shift` is a term with its numbers moved, and the first section says
that reading does not care: whatever terms are put together, they can be moved before or after.

A match does not care either, as long as the numbers that it starts with stay apart. A state of the
pattern alone and the same state inside the outer group (`State.inside`) know the same stretches for
the same groups, and the ways from one are the ways from the other (`Term.ways_shift`).
-/

namespace Lookahead.Pattern

def Term.shift (k : Nat) : Term → Term
  | empty => empty
  | literal negated code => literal negated code
  | any => any
  | set negated members => set negated members
  | place p => place p
  | cat first second => cat (first.shift k) (second.shift k)
  | either first second => either (first.shift k) (second.shift k)
  | group number body => group (number + k) (body.shift k)
  | moded on off body => moded on off (body.shift k)
  | atomic body => atomic (body.shift k)
  | ahead negated body => ahead negated (body.shift k)
  | behind negated width body => behind negated width (body.shift k)
  | backref number width => backref (number + k) width
  | conditional number present absent =>
    conditional (number + k) (present.shift k) (absent.shift k)
  | repeated greed least most body => repeated greed least most (body.shift k)

namespace Term

variable {k : Nat}

/-! ### Putting terms together -/

@[simp] theorem shift_seq (k : Nat) (terms : List Term) :
    seq (terms.map (shift k)) = (seq terms).shift k := by
  induction terms with
  | nil => rfl
  | cons t rest ih =>
      cases rest with
      | nil => rfl
      | cons u rest =>
          rw [List.map_cons, List.map_cons, seq, ← List.map_cons, ih]
          · rfl
          · simp

@[simp] theorem shift_choice (k : Nat) (terms : List Term) :
    choice (terms.map (shift k)) = (choice terms).shift k := by
  induction terms with
  | nil => rfl
  | cons t rest ih =>
      cases rest with
      | nil => rfl
      | cons u rest =>
          rw [List.map_cons, List.map_cons, choice, ← List.map_cons, ih]
          · rfl
          · simp

@[simp] theorem width_shift (k : Nat) (t : Term) : (t.shift k).width = t.width := by
  induction t with
  | cat _ _ ih₁ ih₂ => simp [shift, width, ih₁, ih₂]
  | either _ _ ih₁ ih₂ => simp [shift, width, ih₁, ih₂]
  | conditional _ _ _ ih₁ ih₂ => simp [shift, width, ih₁, ih₂]
  | repeated _ _ _ _ ih => simp [shift, width, ih]
  | group _ _ ih => simp [shift, width, ih]
  | moded _ _ _ ih => simp [shift, width, ih]
  | atomic _ ih => simp [shift, width, ih]
  | _ => rfl

@[simp] theorem isPlain_shift (k : Nat) (t : Term) : (t.shift k).isPlain = t.isPlain := by
  cases t <;> rfl

theorem shift_eq_shift_iff {t u : Term} (h : t.isPlain = true) :
    u.shift k = t.shift k ↔ u = t := by
  cases t <;> simp [isPlain] at h <;> cases u <;> simp [shift]

theorem sharedHead?_shift (k : Nat) (branches : List (List Term)) :
    sharedHead? (branches.map (List.map (shift k))) =
      (sharedHead? branches).map fun shared =>
        (shared.1.shift k, shared.2.map (List.map (shift k))) := by
  match branches with
  | [] => rfl
  | [] :: _ => rfl
  | (head :: tail) :: others =>
      cases hplain : head.isPlain with
      | false => simp [sharedHead?, hplain]
      | true =>
          have hbranch : ∀ branch : List Term,
              ((branch.map (shift k)).head? == some (head.shift k)) =
                (branch.head? == some head) := by
            intro branch
            cases branch with
            | nil => rfl
            | cons first rest =>
                have hiff : (first.shift k == head.shift k) = (first == head) := by
                  rw [Bool.eq_iff_iff, beq_iff_eq, beq_iff_eq]
                  exact shift_eq_shift_iff hplain
                simpa using hiff
          have hall : ∀ branches : List (List Term),
              (branches.map (List.map (shift k))).all
                  (fun branch => branch.head? == some (head.shift k)) =
                branches.all fun branch => branch.head? == some head := by
            intro branches
            rw [List.all_map]
            congr 1
            funext branch
            exact hbranch branch
          have hhead := hall ((head :: tail) :: others)
          rw [List.map_cons, List.map_cons] at hhead ⊢
          simp only [sharedHead?, isPlain_shift, hplain, Bool.true_and]
          rw [hhead]
          split
          · simp
          · rfl

@[simp] theorem setMembers?_shift (k : Nat) (branch : List Term) :
    setMembers? (branch.map (shift k)) = setMembers? branch := by
  match branch with
  | [] => rfl
  | [t] => cases t <;> rfl
  | _ :: _ :: _ => simp [setMembers?]

theorem branchTerm_shift (k : Nat) (branches : List (List Term)) :
    branchTerm (branches.map (List.map (shift k))) = (branchTerm branches).shift k := by
  have hmembers : (branches.map (List.map (shift k))).mapM setMembers? =
      branches.mapM setMembers? := by
    rw [List.mapM_map]
    congr 1
    funext branch
    exact setMembers?_shift k branch
  have hseq : (branches.map (List.map (shift k))).map seq = (branches.map seq).map (shift k) := by
    simp
  unfold branchTerm
  rw [hmembers, hseq, shift_choice]
  split <;> rfl

theorem alternation_eq_cons {branches rest : List (List Term)} {head : Term}
    (hseveral : ∀ branch, branches ≠ [branch]) (h : sharedHead? branches = some (head, rest)) :
    alternation branches = head :: alternation rest := by
  rw [alternation]
  · split
    · rename_i head' rest' h'
      rw [h, Option.some.injEq, Prod.mk.injEq] at h'
      obtain ⟨rfl, rfl⟩ := h'
      rfl
    · rename_i h'
      rw [h] at h'
      contradiction
  · exact hseveral

theorem alternation_eq_branchTerm {branches : List (List Term)}
    (hseveral : ∀ branch, branches ≠ [branch]) (h : sharedHead? branches = none) :
    alternation branches = [branchTerm branches] := by
  rw [alternation]
  · split
    · rename_i head rest h'
      rw [h] at h'
      contradiction
    · rfl
  · exact hseveral

/-- Alternatives are put together in the same way whatever the numbers of their groups are. -/
theorem alternation_shift (k : Nat) (branches : List (List Term)) :
    alternation (branches.map (List.map (shift k))) = (alternation branches).map (shift k) := by
  have hseveral' : ∀ {branches : List (List Term)}, (∀ branch, branches ≠ [branch]) →
      ∀ branch, branches.map (List.map (shift k)) ≠ [branch] := by
    intro branches hseveral branch h
    obtain ⟨original, rfl, -⟩ := List.map_eq_singleton_iff.mp h
    exact hseveral original rfl
  fun_induction alternation branches with
  | case1 branch => simp [alternation]
  | case2 branches hseveral head rest hshared ih =>
      have hshared' := sharedHead?_shift k branches
      rw [hshared, Option.map_some] at hshared'
      rw [alternation_eq_cons (hseveral' hseveral) hshared', ih, List.map_cons]
  | case3 branches hseveral hshared =>
      have hshared' := sharedHead?_shift k branches
      rw [hshared, Option.map_none] at hshared'
      rw [alternation_eq_branchTerm (hseveral' hseveral) hshared', branchTerm_shift, List.map_cons,
        List.map_nil]

end Term

/-! ### Matching -/

/-- No group was closed that was not opened. -/
structure State.Sound (text : Array Char) (s : State) : Prop where
  pos_le : s.pos ≤ text.size
  closed : ∀ number ∈ s.closed.map Prod.fst, number ∈ s.opened.map Prod.fst

theorem State.Sound.of_reaches {text : Array Char} {s t : State} (hs : s.Sound text)
    (h : s.Reaches text t) : t.Sound text where
  pos_le := h.pos_le_size
  closed number hn := by
    rcases h.closed number hn with hn | hn
    · exact h.opened number (hs.closed number hn)
    · exact hn

def shiftGroups {β : Type} (k : Nat) (groups : List (Nat × β)) : List (Nat × β) :=
  groups.map fun entry => (entry.1 + k, entry.2)

@[simp] theorem lookup_shiftGroups {β : Type} (k number : Nat) (groups : List (Nat × β)) :
    (shiftGroups k groups).lookup (number + k) = groups.lookup number := by
  induction groups with
  | nil => rfl
  | cons entry rest ih =>
      obtain ⟨other, value⟩ := entry
      by_cases h : number = other
      · simp [shiftGroups, h]
      · have h' : ¬ number + k = other + k := by omega
        rw [shiftGroups, List.map_cons, List.lookup_cons, List.lookup_cons, beq_false_of_ne h,
          beq_false_of_ne h']
        exact ih

namespace State

/-- A state of a pattern alone, inside the group with number `k` that was opened at `start`. -/
def inside (k start : Nat) (s : State) : State where
  pos := s.pos
  opened := shiftGroups k s.opened ++ [(k, start)]
  closed := shiftGroups k s.closed

variable {k start : Nat} {s : State}

@[simp] theorem pos_inside (k start : Nat) (s : State) : (s.inside k start).pos = s.pos := rfl

@[simp] theorem moveTo_inside (k start : Nat) (s : State) (pos : Nat) :
    (s.inside k start).moveTo pos = (s.moveTo pos).inside k start := rfl

@[simp] theorem openGroup_inside (k start : Nat) (s : State) (number : Nat) :
    (s.inside k start).openGroup (number + k) = (s.openGroup number).inside k start := rfl

theorem lookup_eq_none_of_not_mem {groups : List (Nat × Nat)} {number : Nat}
    (h : number ∉ groups.map Prod.fst) : groups.lookup number = none := by
  rw [List.lookup_eq_none_iff]
  intro entry hentry
  exact bne_iff_ne.mpr fun heq => h (heq ▸ List.mem_map_of_mem hentry)

/-- Groups have the same stretches under their new numbers. The outer group is open, so that its
number has none, whoever asks for it. -/
theorem span?_inside {text : Array Char} (hs : s.Sound text) (number : Nat) :
    (s.inside k start).span? (number + k) = s.span? number := by
  unfold span? inside
  dsimp only
  rw [lookup_shiftGroups, List.lookup_append, lookup_shiftGroups]
  cases hclosed : s.closed.lookup number with
  | none => cases s.opened.lookup number <;> simp
  | some pos =>
      cases hopened : s.opened.lookup number with
      | some pos' => rfl
      | none =>
          have hmem : number ∈ s.closed.map Prod.fst := by
            by_contra hnot
            rw [lookup_eq_none_of_not_mem hnot] at hclosed
            contradiction
          obtain ⟨entry, hentry, hnumber⟩ := List.mem_map.mp (hs.closed number hmem)
          have hne := List.lookup_eq_none_iff.mp hopened entry hentry
          simp [hnumber] at hne

end State

/-- Ways of a pattern alone, and those of the pattern inside the group with number `k`. -/
def Ways.Within (text : Array Char) (k start : Nat) (ways inner : Ways) : Prop :=
  ∀ s : State, s.Sound text → inner (s.inside k start) = (ways s).map (State.inside k start)

namespace Ways.Within

variable {text : Array Char} {k start : Nat} {first first' second second' body body' : Ways}

theorem flatMap (hforward : Forward text first) (h₁ : Within text k start first first')
    (h₂ : Within text k start second second') :
    Within text k start (fun s => (first s).flatMap second)
      (fun s => (first' s).flatMap second') := by
  intro s hs
  dsimp only
  rw [h₁ s hs, List.flatMap_map, List.map_flatMap]
  apply List.flatMap_congr
  intro t ht
  exact h₂ t (hs.of_reaches (hforward s hs.pos_le t ht))

theorem exactly (hforward : Forward text body) (h : Within text k start body body') (n : Nat) :
    Within text k start (exactlyWays body n) (exactlyWays body' n) := by
  induction n with
  | zero => exact fun s hs => rfl
  | succ n ih => exact flatMap hforward h ih

theorem round (hforward : Forward text body) (h : Within text k start body body')
    {more more' : Ways} (hmore : Within text k start more more') (s : State) (hs : s.Sound text) :
    ((body' (s.inside k start)).flatMap fun t =>
        if (s.inside k start).pos < t.pos then more' t else [t]) =
      ((body s).flatMap fun t => if s.pos < t.pos then more t else [t]).map
        (State.inside k start) := by
  rw [h s hs, List.flatMap_map, List.map_flatMap]
  apply List.flatMap_congr
  intro t ht
  rw [State.pos_inside, State.pos_inside]
  split
  · exact hmore t (hs.of_reaches (hforward s hs.pos_le t ht))
  · rfl

theorem mostFirst (hforward : Forward text body) (h : Within text k start body body') (n : Nat) :
    Within text k start (mostFirstWays body n) (mostFirstWays body' n) := by
  induction n with
  | zero => exact fun s hs => rfl
  | succ n ih =>
      intro s hs
      rw [mostFirstWays, mostFirstWays, round hforward h ih s hs, List.map_append]
      rfl

theorem fewestFirst (hforward : Forward text body) (h : Within text k start body body') (n : Nat) :
    Within text k start (fewestFirstWays body n) (fewestFirstWays body' n) := by
  induction n with
  | zero => exact fun s hs => rfl
  | succ n ih =>
      intro s hs
      rw [fewestFirstWays, fewestFirstWays, round hforward h ih s hs, List.map_cons]

theorem committed (h : Within text k start body body') :
    Within text k start (committedWays body) (committedWays body') := by
  intro s hs
  rw [committedWays, committedWays, h s hs, List.head?_map]
  cases (body s).head? <;> rfl

theorem asManyAs (hforward : Forward text body) (h : Within text k start body body') (n : Nat) :
    Within text k start (asManyAsWays body n) (asManyAsWays body' n) := by
  induction n with
  | zero => exact fun s hs => rfl
  | succ n ih =>
      intro s hs
      rw [asManyAsWays, asManyAsWays, h s hs, List.head?_map]
      cases hhead : (body s).head? with
      | none => rfl
      | some t =>
          have ht := hs.of_reaches (hforward s hs.pos_le t (List.mem_of_mem_head? hhead))
          rw [Option.map_some]
          dsimp only
          rw [State.pos_inside, State.pos_inside]
          split
          · exact ih t ht
          · rfl

theorem repeatWays (hforward : Forward text body) (h : Within text k start body body')
    (greed : Greed) (least : Nat) (most : Option Nat) :
    Within text k start (Pattern.repeatWays text greed least most body)
      (Pattern.repeatWays text greed least most body') := by
  cases greed with
  | greedy =>
      have hrounds : Within text k start
          (fun s => mostFirstWays body (extraRounds text least most s.pos) s)
          (fun s => mostFirstWays body' (extraRounds text least most s.pos) s) :=
        fun s hs => mostFirst hforward h _ s hs
      exact flatMap (hforward.exactly least) (exactly hforward h least) hrounds
  | lazy =>
      have hrounds : Within text k start
          (fun s => fewestFirstWays body (extraRounds text least most s.pos) s)
          (fun s => fewestFirstWays body' (extraRounds text least most s.pos) s) :=
        fun s hs => fewestFirst hforward h _ s hs
      exact flatMap (hforward.exactly least) (exactly hforward h least) hrounds
  | possessive =>
      have hrounds : Within text k start
          (fun s => asManyAsWays body (extraRounds text least most s.pos) s)
          (fun s => asManyAsWays body' (extraRounds text least most s.pos) s) :=
        fun s hs => asManyAs hforward h _ s hs
      have hleast := exactly hforward.committed h.committed least
      exact flatMap (hforward.committed.exactly least) hleast hrounds

theorem oneChar (text : Array Char) (k start : Nat) (test : Nat → Bool) :
    Within text k start (oneCharWays text test) (oneCharWays text test) := by
  intro s hs
  unfold oneCharWays
  rw [State.pos_inside]
  cases codeAt? text s.pos with
  | none => rfl
  | some code =>
      dsimp only
      split <;> rfl

end Ways.Within

/-- A match inside the outer group is a match of the pattern alone. -/
theorem Term.ways_shift (text : Array Char) (k start : Nat) (t : Term) (m : Modes) :
    Ways.Within text k start (t.ways text m) ((t.shift k).ways text m) := by
  induction t generalizing m with
  | empty => exact fun s hs => rfl
  | literal negated code => exact Ways.Within.oneChar text k start _
  | any => exact Ways.Within.oneChar text k start _
  | set negated members => exact Ways.Within.oneChar text k start _
  | place p =>
      intro s hs
      by_cases h : p.holds text m s.pos = true
      · simp [shift, ways, h]
      · simp [shift, ways, h]
  | cat first second ih₁ ih₂ =>
      exact Ways.Within.flatMap (first.forward_ways text m) (ih₁ m) (ih₂ m)
  | either first second ih₁ ih₂ =>
      intro s hs
      simp only [shift, ways]
      rw [ih₁ m s hs, ih₂ m s hs, List.map_append]
  | group number body ih =>
      intro s hs
      have hopen : (s.openGroup number).Sound text :=
        ⟨hs.pos_le, fun other hn => List.mem_cons_of_mem _ (hs.closed other hn)⟩
      simp only [shift, ways]
      rw [State.openGroup_inside, ih m _ hopen, List.map_map, List.map_map]
      rfl
  | moded on off body ih => exact ih (m.within on off)
  | atomic body ih => exact (ih m).committed
  | ahead negated body ih =>
      intro s hs
      simp only [shift, ways]
      rw [ih m s hs, List.head?_map]
      cases (body.ways text m s).head? <;> cases negated <;> rfl
  | behind negated width body ih =>
      intro s hs
      have hback : (s.moveTo (s.pos - width.least)).Sound text :=
        ⟨Nat.le_trans (Nat.sub_le _ _) hs.pos_le, hs.closed⟩
      simp only [shift, ways]
      rw [State.pos_inside, State.moveTo_inside, ih m _ hback, List.head?_map]
      split
      · cases negated <;> rfl
      · cases (body.ways text m (s.moveTo (s.pos - width.least))).head? <;> cases negated <;> rfl
  | backref number width =>
      intro s hs
      simp only [shift, ways]
      rw [State.span?_inside hs]
      cases s.span? number with
      | none => rfl
      | some span =>
          dsimp only
          rw [State.pos_inside]
          split <;> rfl
  | conditional number present absent ih₁ ih₂ =>
      intro s hs
      simp only [shift, ways]
      rw [State.span?_inside hs]
      split
      · exact ih₁ m s hs
      · exact ih₂ m s hs
  | repeated greed least most body ih =>
      exact Ways.Within.repeatWays (body.forward_ways text m) (ih m) greed least most

end Lookahead.Pattern
