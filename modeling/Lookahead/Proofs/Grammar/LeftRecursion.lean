import Lookahead.Proofs.Grammar.Slots
import Mathlib.Data.List.Chain
import Mathlib.Data.List.Perm.Subperm
import Mathlib.Data.List.TakeWhile
import Mathlib.Logic.Relation

/-!
The search for left recursion is exact. Sending a non-terminal to the first symbol of what it falls
back to is a partial function, so from each name there is one way to go on, and it ends or it runs
into a cycle. The builder of a table walks along it from every name, and remembers the names that
it has come by: from those the way is known to end.

`Ends` says of a name that its way ends, as accessibility, so that a single look ahead carries it
back over a whole path (`ends_of_isChain`). `IsCycle` is the shape of what is reported otherwise.
The walk gets a number of steps, and `walk_spec` shows that they are enough: the names of a path
differ from each other, and there are no more of them than there are alternatives to follow.
-/

namespace Lookahead.Grammar

/-- The non-terminal falls back to an alternative that begins with the second name. -/
def Leftmost (g : Grammar) (name next : String) : Prop := g.leftmost? name = some next

/-- No non-terminal is the first symbol of itself, over any number of alternatives. -/
def NoLeftRecursion (g : Grammar) : Prop := ∀ name, ¬ Relation.TransGen g.Leftmost name name

def Ends (g : Grammar) : String → Prop := Acc fun next name => g.Leftmost name next

/-- The names lead from one to the next and from the last but one back to the first, and are
different until then. -/
structure IsCycle (g : Grammar) (names : List String) : Prop where
  closed : ∃ first inner, names = first :: inner ++ [first] ∧ (first :: inner).Nodup
  isChain : names.IsChain g.Leftmost

variable {g : Grammar} {safe path starts names : List String} {name next current : String}

theorem Ends.of_none (h : g.leftmost? name = none) : g.Ends name :=
  .intro name fun next hnext => by simp [Leftmost, h] at hnext

theorem Ends.of_next (h : g.Leftmost name next) (hnext : g.Ends next) : g.Ends name := by
  refine .intro name fun other hother => ?_
  obtain rfl : next = other := Option.some.inj (h.symm.trans hother)
  exact hnext

theorem ends_of_isChain (h : (path ++ [current]).IsChain g.Leftmost) (hend : g.Ends current) :
    ∀ name ∈ path, g.Ends name :=
  h.backwards_concat_induction _ _ (fun _ _ => Ends.of_next) hend

/-- A way that ends is not part of a cycle. -/
theorem Ends.not_transGen (h : g.Ends name) : ¬ Relation.TransGen g.Leftmost name name := by
  induction h with
  | intro name _ ih =>
      intro hcycle
      obtain ⟨next, hstep, hback⟩ := Relation.TransGen.head'_iff.mp hcycle
      exact ih next hstep (.tail' hback hstep)

theorem transGen_of_isChain {first last : String} {inner : List String}
    (h : (first :: inner ++ [last]).IsChain g.Leftmost) :
    Relation.TransGen g.Leftmost first last := by
  cases inner with
  | nil => exact .single (List.isChain_cons_cons.mp h).1
  | cons second others =>
      rw [List.cons_append, List.cons_append, List.isChain_cons_cons] at h
      have hrest := List.relationReflTransGen_of_exists_isChain_cons _ h.2
        (List.getLast_concat (l := second :: others))
      exact .head' h.1 hrest

theorem IsCycle.exists_transGen (h : g.IsCycle names) :
    ∃ name, Relation.TransGen g.Leftmost name name := by
  obtain ⟨⟨first, inner, rfl, -⟩, hchain⟩ := h
  exact ⟨first, transGen_of_isChain hchain⟩

/-! ### One walk -/

theorem mem_names_of_leftmost (h : g.Leftmost name next) : name ∈ g.nonterminalLeads.names := by
  obtain ⟨body, hbody, -⟩ := Option.bind_eq_some_iff.mp h
  obtain ⟨before, after, heq, -⟩ := List.lookup_eq_some_iff.mp hbody
  have hmem : (name, body) ∈ g.nonterminalLeads :=
    List.mem_filterMap.mpr ⟨(⟨name, .nonterminal⟩, body), by simp [heq], by simp⟩
  exact List.mem_map_of_mem hmem

/-- A walk under way: the path leads to the current name, and no name occurs on it twice. -/
structure OnWay (g : Grammar) (path : List String) (current : String) : Prop where
  isChain : (path ++ [current]).IsChain g.Leftmost
  nodup : path.Nodup

theorem onWay_nil (g : Grammar) (current : String) : g.OnWay [] current := ⟨.singleton _, .nil⟩

theorem OnWay.step (h : g.OnWay path current) (hstep : g.Leftmost current next)
    (hnew : current ∉ path) : g.OnWay (path ++ [current]) next where
  isChain := h.isChain.append (.singleton next) fun last hlast first hfirst => by
    obtain rfl : current = last := by simpa using hlast
    obtain rfl : next = first := by simpa using hfirst
    exact hstep
  nodup := by
    rw [← List.concat_eq_append, List.nodup_concat]
    exact ⟨hnew, h.nodup⟩

/-- There are no more names on a path than alternatives to follow. -/
theorem OnWay.length_le (h : g.OnWay path current) :
    path.length ≤ g.nonterminalLeads.length := by
  have hsub : path ⊆ g.nonterminalLeads.names := by
    intro name hname
    obtain ⟨before, after, rfl⟩ := List.append_of_mem hname
    have hchain := h.isChain
    rw [List.append_assoc, List.cons_append] at hchain
    obtain ⟨next, rest, hnext⟩ : ∃ next rest, after ++ [current] = next :: rest :=
      List.exists_cons_of_ne_nil (by simp)
    rw [hnext] at hchain
    exact mem_names_of_leftmost (List.isChain_append_cons_cons.mp hchain).2.1
  have hle := (h.nodup.subperm hsub).length_le
  rwa [Table.names, List.length_map] at hle

theorem OnWay.transGen (h : g.OnWay path current) (hmem : current ∈ path) :
    Relation.TransGen g.Leftmost current current := by
  obtain ⟨before, after, rfl⟩ := List.append_of_mem hmem
  have hchain := h.isChain
  rw [List.append_assoc] at hchain
  exact transGen_of_isChain hchain.right_of_append

/-- The current name has been met before: what lies between is a cycle. -/
theorem OnWay.isCycle (h : g.OnWay path current) (hmem : current ∈ path) :
    g.IsCycle (path.dropWhile (· != current) ++ [current]) := by
  have hsuffix : path.dropWhile (· != current) <:+ path := List.dropWhile_suffix _
  have hhead := List.head?_dropWhile_not (· != current) path
  cases hdrop : path.dropWhile (· != current) with
  | nil =>
      have := List.dropWhile_eq_nil_iff.mp hdrop current hmem
      simp at this
  | cons first inner =>
      rw [hdrop] at hsuffix hhead
      obtain rfl : first = current := by simpa using hhead
      refine ⟨⟨first, inner, rfl, h.nodup.sublist hsuffix.sublist⟩, h.isChain.suffix ?_⟩
      obtain ⟨before, heq⟩ := hsuffix
      exact ⟨before, by rw [← heq, List.append_assoc]⟩

/-- What a walk from a name finds: a cycle, or a path that ends, as does every name on it. -/
def Walk.Sound (g : Grammar) (start : String) : Walk → Prop
  | .cycle names => g.IsCycle names
  | .clear path => g.Ends start ∧ ∀ name ∈ path, g.Ends name

theorem walk_spec {n : Nat} (hway : g.OnWay path current) (hsafe : ∀ name ∈ safe, g.Ends name)
    (hn : g.nonterminalLeads.length < path.length + n) :
    (walk g safe n path current).Sound g current := by
  induction n generalizing path current with
  | zero =>
      have := hway.length_le
      omega
  | succ n ih =>
      -- when the way from the current name ends, so does that of all the names before it
      have hclear : g.Ends current → (Walk.clear path).Sound g current := fun hend =>
        ⟨hend, ends_of_isChain hway.isChain hend⟩
      unfold walk
      cases hnext : g.leftmost? current with
      | none => exact hclear (.of_none hnext)
      | some next =>
          dsimp only
          split
          · rename_i hmem
            exact hclear (hsafe current hmem)
          · split
            · rename_i hmem
              exact hway.isCycle hmem
            · rename_i hnew
              have hfound := ih (hway.step hnext hnew) (by simp; omega)
              cases hwalk : walk g safe n (path ++ [current]) next with
              | cycle names =>
                  rw [hwalk] at hfound
                  exact hfound
              | clear path' =>
                  rw [hwalk] at hfound
                  exact ⟨.of_next hnext hfound.1, hfound.2⟩

/-! ### Walks from all names -/

/-- A cycle that is reported is one, and if none is reported, the way ends from every start. -/
theorem cycleFrom?_spec (hsafe : ∀ name ∈ safe, g.Ends name) :
    match cycleFrom? g safe starts with
    | some names => g.IsCycle names
    | none => ∀ name ∈ starts, g.Ends name := by
  induction starts generalizing safe with
  | nil => simp [cycleFrom?]
  | cons start rest ih =>
      have hfound := walk_spec (onWay_nil g start) hsafe
        (n := g.nonterminalLeads.length + 1) (by simp)
      unfold cycleFrom?
      cases hwalk : walk g safe (g.nonterminalLeads.length + 1) [] start with
      | cycle names =>
          rw [hwalk] at hfound
          exact hfound
      | clear path =>
          rw [hwalk] at hfound
          have hrest := ih (List.forall_mem_append.mpr ⟨hsafe, hfound.2⟩)
          dsimp only
          cases hmore : cycleFrom? g (safe ++ path) rest with
          | some names =>
              rw [hmore] at hrest
              exact hrest
          | none =>
              rw [hmore] at hrest
              exact List.forall_mem_cons.mpr ⟨hfound.1, hrest⟩

/-- What is reported is a cycle. -/
theorem isCycle_of_leftRecursion? (h : g.leftRecursion? = some names) : g.IsCycle names := by
  have hspec := @cycleFrom?_spec g [] g.nonterminalLeads.names (by simp)
  rw [leftRecursion?] at h
  rwa [h] at hspec

/-- Left recursion is reported exactly when there is some. -/
theorem leftRecursion?_eq_none_iff : g.leftRecursion? = none ↔ g.NoLeftRecursion := by
  have hspec : match g.leftRecursion? with
      | some names => g.IsCycle names
      | none => ∀ name ∈ g.nonterminalLeads.names, g.Ends name :=
    cycleFrom?_spec (by simp)
  cases hsearch : g.leftRecursion? with
  | none =>
      rw [hsearch] at hspec
      refine iff_of_true rfl fun name hcycle => ?_
      obtain ⟨next, hstep, -⟩ := Relation.TransGen.head'_iff.mp hcycle
      exact (hspec name (mem_names_of_leftmost hstep)).not_transGen hcycle
  | some names =>
      rw [hsearch] at hspec
      obtain ⟨name, hcycle⟩ := IsCycle.exists_transGen hspec
      exact iff_of_false (by simp) fun h => h name hcycle

end Lookahead.Grammar
