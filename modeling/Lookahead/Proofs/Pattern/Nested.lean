import Lookahead.Pattern.Reader
import Lookahead.Proofs.Pattern.Characters
import Mathlib.Data.List.Forall2

/-!
A pattern that is read inside a group. The frames of a pattern that is read alone have the same
frames next to them when the pattern is read as a part of a combined one: what is the whole pattern
there is a group here, with one more frame around it, and all groups have other numbers
(`Reading.Nests`).

Every operation on a reading keeps this, and so does everything that is scanned on the way, as far
as the pieces on both sides fit together. The numbers in references and conditions do not, so those
are given to the operations here and compared with the texts elsewhere.
-/

namespace Lookahead.Pattern

open Piece Scan Term

/-! ### Frames -/

/-- What a construct is when the pattern that it belongs to is read inside the group `k`. -/
def Opening.nested (k : Nat) : Opening → Opening
  | whole => capture k
  | plain on off => plain on off
  | capture number => capture (number + k)
  | atomic => atomic
  | ahead negated => ahead negated
  | behind negated outermost => behind negated outermost
  | present number => present (number + k)
  | absent number terms => absent (number + k) (terms.map (shift k))

/-- The same terms on both sides. Only a reference, which is a term of its own alone, has
parentheses around it inside, so it is spliced there. -/
inductive Item.Nests (k : Nat) : Item → Item → Prop
  | single (t : Term) : Nests k (.single t) (.single (t.shift k))
  | spliced (terms : List Term) : Nests k (.spliced terms) (.spliced (terms.map (shift k)))
  | reference (number : Nat) (width : Width) :
      Nests k (.single (.backref number width)) (.spliced [.backref (number + k) width])

theorem Item.Nests.terms {k : Nat} {item item' : Item} (h : item.Nests k item') :
    item'.terms = item.terms.map (shift k) := by
  cases h <;> rfl

structure Frame.Nests (k : Nat) (f f' : Frame) : Prop where
  opening : f'.opening = f.opening.nested k
  verbose : f'.verbose = f.verbose
  branches : f'.branches = f.branches.map (List.map (shift k))
  items : List.Forall₂ (Item.Nests k) f.items f'.items

/-- The open frames on both sides, innermost ones first. The frame of the whole pattern, in which
spaces count, has another one around it, which is not touched. -/
inductive Stack (k : Nat) (base : Frame) : List Frame → List Frame → Prop
  | outermost {f f' : Frame} (hwhole : f.opening = .whole) (hverbose : f.verbose = false)
      (hf : f.Nests k f') : Stack k base [f] [f', base]
  | inner {f f' : Frame} {outer outer' : List Frame} (hinner : f.opening ≠ .whole)
      (hf : f.Nests k f') (houter : Stack k base outer outer') :
      Stack k base (f :: outer) (f' :: outer')

/-- The groups of a pattern, and those of the combined pattern before and inside of it. -/
structure Groups.Nests (k : Nat) (around g g' : Groups) : Prop where
  next : g'.next = g.next + k
  next_pos : 0 < g.next
  names : g'.names = around.names ++ g.names.map fun entry => (entry.1, entry.2 + k)
  fresh : ∀ name ∈ g.names.map Prod.fst, around.names.lookup name = none
  widths : g'.widths = shiftGroups k g.widths ++ around.widths
  limit : g'.limit = g.limit.map (· + k)

/-- A look behind that is inside of no other one. -/
def Frame.looksBehind (f : Frame) : Bool :=
  match f.opening with
  | .behind _ outermost => outermost
  | _ => false

/-- A pattern that has been read in part, alone and inside the group `k`. There is a limit as long
as a look behind is open, and a group that is asked for is one of the pattern or one before it. -/
structure Reading.Nests (k : Nat) (base : Frame) (around : Groups) (r r' : Reading) : Prop where
  stack : Stack k base (r.frame :: r.outer) (r'.frame :: r'.outer)
  groups : Groups.Nests k around r.groups r'.groups
  limited : (r.frame :: r.outer).countP Frame.looksBehind = r.groups.limit.toList.length
  asked : ∀ a ∈ r'.asked, a.1 < k ∨ ∃ b ∈ r.asked, a.1 = b.1 + k
  modes : r.modes = initialModes
  modes' : r'.modes = initialModes

variable {k : Nat} {base : Frame} {around : Groups}

namespace Frame.Nests

variable {f f' : Frame}

theorem terms (h : f.Nests k f') : f'.terms = f.terms.map (shift k) := by
  have hitems : ∀ {items items' : List Item}, List.Forall₂ (Item.Nests k) items items' →
      items'.flatMap Item.terms = (items.flatMap Item.terms).map (shift k) := by
    intro items items' hall
    induction hall with
    | nil => rfl
    | cons hitem _ ih =>
        rw [List.flatMap_cons, List.flatMap_cons, List.map_append, hitem.terms, ih]
  exact hitems (List.forall₂_reverse_iff.mpr h.items)

theorem allTerms (h : f.Nests k f') : f'.allTerms = f.allTerms.map (shift k) := by
  rw [Frame.allTerms, Frame.allTerms, h.terms, h.branches, ← List.map_cons, ← List.map_reverse,
    alternation_shift]

theorem push (h : f.Nests k f') {item item' : Item}
    (hitem : item.Nests k item') : (f.push item).Nests k (f'.push item') where
  opening := h.opening
  verbose := h.verbose
  branches := h.branches
  items := .cons hitem h.items

theorem nextBranch (h : f.Nests k f') : f.nextBranch.Nests k f'.nextBranch where
  opening := h.opening
  verbose := h.verbose
  branches := by
    change f'.terms :: f'.branches = _
    rw [h.terms, h.branches]
    rfl
  items := .nil

theorem fresh (opening : Opening) (start start' : Nat) (verbose : Bool) :
    Frame.Nests k { opening, start, verbose }
      { opening := opening.nested k, start := start', verbose } where
  opening := rfl
  verbose := rfl
  branches := rfl
  items := .nil

end Frame.Nests

namespace Stack

variable {f f' g g' : Frame} {outer outer' : List Frame}

theorem head (h : Stack k base (f :: outer) (f' :: outer')) : f.Nests k f' := by
  cases h with
  | outermost _ _ hf => exact hf
  | inner _ hf _ => exact hf

theorem replace (h : Stack k base (f :: outer) (f' :: outer'))
    (hwhole : g.opening = .whole ↔ f.opening = .whole) (hverbose : g.verbose = f.verbose)
    (hg : g.Nests k g') : Stack k base (g :: outer) (g' :: outer') := by
  cases h with
  | outermost hf hplain _ => exact .outermost (hwhole.mpr hf) (hverbose.trans hplain) hg
  | inner hf _ houter => exact .inner (fun h => hf (hwhole.mp h)) hg houter

/-- The frame of the whole pattern has one frame around it on the other side. -/
theorem of_singleton (h : Stack k base [f] (f' :: outer')) :
    outer' = [base] ∧ f.opening = .whole ∧ f.verbose = false ∧ f.Nests k f' := by
  cases h with
  | outermost hwhole hverbose hf => exact ⟨rfl, hwhole, hverbose, hf⟩
  | inner _ _ houter => cases houter

/-- A frame that is not the outermost one has one around it on both sides. -/
theorem pop (h : Stack k base (f :: g :: outer) (f' :: outer')) :
    ∃ g' others, outer' = g' :: others ∧ f.opening ≠ .whole ∧ f.Nests k f' ∧
      Stack k base (g :: outer) (g' :: others) := by
  cases h with
  | inner hinner hf houter =>
      cases houter with
      | outermost hwhole hverbose hg =>
          exact ⟨_, _, rfl, hinner, hf, .outermost hwhole hverbose hg⟩
      | inner hinner' hg houter => exact ⟨_, _, rfl, hinner, hf, .inner hinner' hg houter⟩

end Stack

/-! ### Groups -/

namespace Groups.Nests

variable {g g' : Groups} {number : Nat}

/-- A width that is known alone is known inside too. -/
theorem lookup_widths (h : Groups.Nests k around g g') {width : Width}
    (hwidth : g.widths.lookup number = some width) :
    g'.widths.lookup (number + k) = some width := by
  rw [h.widths, List.lookup_append, lookup_shiftGroups, hwidth]
  rfl

theorem lookup_names (h : Groups.Nests k around g g') {name : String}
    (hname : g.names.lookup name = some number) :
    g'.names.lookup name = some (number + k) := by
  have hmoved : ∀ names : List (String × Nat),
      (names.map fun entry => (entry.1, entry.2 + k)).lookup name =
        (names.lookup name).map (· + k) := by
    intro names
    induction names with
    | nil => rfl
    | cons entry rest ih =>
        rw [List.map_cons, List.lookup_cons, List.lookup_cons, ih]
        split <;> rfl
  have hmem : name ∈ g.names.map Prod.fst := by
    obtain ⟨before, rest, heq, -⟩ := List.lookup_eq_some_iff.mp hname
    rw [heq]
    simp
  rw [h.names, List.lookup_append, h.fresh name hmem, hmoved, hname]
  rfl

theorem count (h : Groups.Nests k around g g') :
    Groups.Nests k around { g with next := g.next + 1 } { g' with next := g'.next + 1 } where
  next := by
    change g'.next + 1 = g.next + 1 + k
    rw [h.next]
    omega
  next_pos := Nat.succ_pos _
  names := h.names
  fresh := h.fresh
  widths := h.widths
  limit := h.limit

theorem name (h : Groups.Nests k around g g') {name : String}
    (hname : g'.names.lookup name = none) :
    Groups.Nests k around { g with names := g.names ++ [(name, g.next)] }
      { g' with names := g'.names ++ [(name, g'.next)] } where
  next := h.next
  next_pos := h.next_pos
  names := by
    change g'.names ++ [(name, g'.next)] = _
    rw [h.names, h.next, List.map_append, List.append_assoc]
    rfl
  fresh other hother := by
    rw [h.names, List.lookup_append, Option.or_eq_none_iff] at hname
    rw [List.map_append, List.mem_append] at hother
    rcases hother with hother | hother
    · exact h.fresh other hother
    · obtain rfl := List.mem_singleton.mp hother
      exact hname.1
  widths := h.widths
  limit := h.limit

theorem close (h : Groups.Nests k around g g') (number : Nat) (width : Width) :
    Groups.Nests k around { g with widths := (number, width) :: g.widths }
      { g' with widths := (number + k, width) :: g'.widths } where
  next := h.next
  next_pos := h.next_pos
  names := h.names
  fresh := h.fresh
  widths := by
    change (number + k, width) :: g'.widths = _
    rw [h.widths]
    rfl
  limit := h.limit

theorem setLimit (h : Groups.Nests k around g g') {limit limit' : Option Nat}
    (hlimit : limit' = limit.map (· + k)) :
    Groups.Nests k around { g with limit } { g' with limit := limit' } where
  next := h.next
  next_pos := h.next_pos
  names := h.names
  fresh := h.fresh
  widths := h.widths
  limit := hlimit

end Groups.Nests

/-! ### Readings -/

namespace Reading.Nests

variable {r r' : Reading}

theorem verbose (h : r.Nests k base around r') : r'.frame.verbose = r.frame.verbose :=
  h.stack.head.verbose

theorem replace (h : r.Nests k base around r') {f f' : Frame}
    (hwhole : f.opening = .whole ↔ r.frame.opening = .whole)
    (hverbose : f.verbose = r.frame.verbose) (hbehind : f.looksBehind = r.frame.looksBehind)
    (hf : f.Nests k f') :
    Reading.Nests k base around { r with frame := f } { r' with frame := f' } where
  stack := h.stack.replace hwhole hverbose hf
  groups := h.groups
  limited := by
    have hlimited := h.limited
    rw [List.countP_cons] at hlimited ⊢
    rw [hbehind]
    exact hlimited
  asked := h.asked
  modes := h.modes
  modes' := h.modes'

theorem regroup (h : r.Nests k base around r') {g g' : Groups}
    (hg : Groups.Nests k around g g') (hlimit : g.limit = r.groups.limit) :
    Reading.Nests k base around { r with groups := g } { r' with groups := g' } where
  stack := h.stack
  groups := hg
  limited := by
    dsimp only
    rw [hlimit]
    exact h.limited
  asked := h.asked
  modes := h.modes
  modes' := h.modes'

theorem push (h : r.Nests k base around r') {item item' : Item} (hitem : item.Nests k item') :
    (r.push item).Nests k base around (r'.push item') :=
  h.replace Iff.rfl rfl rfl (h.stack.head.push hitem)

theorem pushTerm (h : r.Nests k base around r') {t t' : Term} (ht : t' = t.shift k) :
    (r.pushTerm t).Nests k base around (r'.pushTerm t') :=
  h.push (ht ▸ .single t)

theorem enter (h : r.Nests k base around r') {opening opening' : Opening}
    (hwhole : opening ≠ .whole) (hbehind : ∀ negated, opening ≠ .behind negated true)
    (hopening : opening' = opening.nested k) (start start' : Nat) {verbose verbose' : Bool}
    (hverbose : verbose' = verbose) :
    (r.enter opening start verbose).Nests k base around (r'.enter opening' start' verbose') where
  stack := by
    subst hopening hverbose
    exact .inner hwhole (.fresh opening start start' verbose') h.stack
  groups := h.groups
  limited := by
    have hnot : Frame.looksBehind { opening, start, verbose } = false := by
      unfold Frame.looksBehind
      split
      · rename_i negated outermost heq
        cases outermost with
        | false => rfl
        | true => exact absurd heq (hbehind negated)
      · rfl
    change ({ opening, start, verbose } :: r.frame :: r.outer).countP Frame.looksBehind = _
    rw [List.countP_cons_of_neg (by rw [hnot]; exact Bool.false_ne_true)]
    exact h.limited
  asked := h.asked
  modes := h.modes
  modes' := h.modes'

theorem enterCapture (h : r.Nests k base around r') (start start' : Nat) :
    (r.enterCapture start).Nests k base around (r'.enterCapture start') := by
  refine (h.regroup h.groups.count rfl).enter (by simp) (by simp) ?_ start start' h.verbose
  rw [h.groups.next]
  rfl

theorem enterBehind (h : r.Nests k base around r') (negated : Bool) (start start' : Nat) :
    (r.enterBehind negated start).Nests k base around (r'.enterBehind negated start') where
  stack := by
    refine .inner nofun ⟨?_, h.verbose, rfl, .nil⟩ h.stack
    change Opening.behind negated r'.groups.limit.isNone = _
    rw [h.groups.limit, Option.isNone_map]
    rfl
  groups := by
    refine h.groups.setLimit ?_
    rw [h.groups.limit, h.groups.next]
    cases r.groups.limit <;> rfl
  limited := by
    have hlimited := h.limited
    have hbehind : (r.enterBehind negated start).frame.looksBehind = r.groups.limit.isNone := rfl
    change (_ :: r.frame :: r.outer).countP Frame.looksBehind = 1
    rw [List.countP_cons, hlimited, hbehind]
    cases r.groups.limit <;> rfl
  asked := h.asked
  modes := h.modes
  modes' := h.modes'

theorem bar (h : r.Nests k base around r') : r.bar.Nests k base around r'.bar := by
  have hf := h.stack.head
  unfold Reading.bar
  rw [hf.opening]
  cases hr : r.frame.opening with
  | present number =>
      have hbehind : r.frame.looksBehind = false := by rw [Frame.looksBehind, hr]
      refine h.replace (by simp [hr]) rfl hbehind.symm ⟨?_, hf.verbose, hf.branches, .nil⟩
      dsimp only
      rw [hf.terms]
      rfl
  | _ => exact h.replace Iff.rfl rfl rfl hf.nextBranch

/-- Closing a frame gives the same term to the next one out. -/
theorem leave (h : r.Nests k base around r') (houter : r.outer ≠ []) :
    r.leave.Nests k base around r'.leave := by
  obtain ⟨groups, modes, asked, frame, outer⟩ := r
  obtain ⟨groups', modes', asked', frame', outer'⟩ := r'
  cases outer with
  | nil => exact absurd rfl houter
  | cons next outer =>
      obtain ⟨hstack, hgroups, hlimited, hasked, hmodes, hmodes'⟩ := h
      obtain ⟨next', others, rfl, hinner, hf, hstack⟩ := hstack.pop
      have hterms := hf.allTerms
      have hbody : seq frame'.allTerms = (seq frame.allTerms).shift k := by
        rw [hterms, shift_seq]
      rw [List.countP_cons] at hlimited
      -- what is left when the frame is gone, with the groups as they are then
      have hleft : ∀ {g g' : Groups}, Groups.Nests k around g g' →
          (next :: outer).countP Frame.looksBehind = g.limit.toList.length →
          Reading.Nests k base around ⟨g, modes, asked, next, outer⟩
            ⟨g', modes', asked', next', others⟩ :=
        fun hg hlimit => ⟨hstack, hg, hlimit, hasked, hmodes, hmodes'⟩
      unfold Reading.leave
      rw [Frame.looksBehind] at hlimited
      dsimp only at hlimited ⊢
      rw [hf.opening]
      generalize frame.opening = opening at hinner hlimited ⊢
      cases opening with
      | whole => exact absurd rfl hinner
      | plain on off =>
          dsimp only [Opening.nested]
          split
          · rw [hterms]
            exact (hleft hgroups hlimited).push (.spliced _)
          · exact (hleft hgroups hlimited).pushTerm (by rw [hbody]; rfl)
      | capture number =>
          dsimp only [Opening.nested]
          rw [hbody, width_shift]
          exact (hleft (hgroups.close number _) hlimited).pushTerm rfl
      | behind negated outermost =>
          dsimp only [Opening.nested]
          rw [hbody, width_shift]
          refine (hleft (hgroups.setLimit ?_) ?_).pushTerm rfl
          · rw [hgroups.limit]
            cases outermost <;> rfl
          · cases outermost with
            | false => exact hlimited
            | true =>
                -- the limit was set for this look behind, and for no other one
                dsimp only at hlimited ⊢
                cases hlimit : groups.limit with
                | none =>
                    rw [hlimit] at hlimited
                    simp at hlimited
                | some limit =>
                    rw [hlimit] at hlimited
                    simpa using hlimited
      | absent number present =>
          exact (hleft hgroups hlimited).pushTerm (by rw [hbody, shift_seq]; rfl)
      | _ => exact (hleft hgroups hlimited).pushTerm (by rw [hbody]; rfl)

end Reading.Nests

end Lookahead.Pattern
