import Lookahead.Proofs.Grammar.Validation
import Mathlib.Data.List.Dedup

/-!
Alternatives that lookahead cannot tell apart are all reported, and each of them once. They are
filed one after another: the first one of its slot is kept, and a later one is put beside it and
must not take its place. `Catalog.repeats` says what comes of that without any filing. It goes
through the alternatives as they are written, and looks for each of them only at those before it.

The two are compared while alternatives are added at the end (`filed_concat`, `repeats_concat`),
since filing goes from the front. What the slots hold is known by what is looked up in them
(`lookup_filed`), and between them the slots and the reports account for every alternative
(`length_filed`).
-/

namespace Lookahead

def Catalog.slotOf (c : Catalog) (entry : String × Body) : Slot := ⟨entry.1, c.leadOf entry.2⟩

/-- The first of some alternatives that needs the same slot as another one. -/
def Catalog.firstLike? (c : Catalog) (alternatives : List (String × Body))
    (entry : String × Body) : Option (String × Body) :=
  alternatives.find? fun first => c.slotOf first = c.slotOf entry

/-- The alternatives that are not the first ones for their slot, in order, each together with the
first one. -/
def Catalog.repeats (c : Catalog) (alternatives : List (String × Body)) : List Ambiguity :=
  alternatives.zipIdx.filterMap fun placed =>
    (c.firstLike? (alternatives.take placed.2) placed.1).map
      fun first => ⟨c.slotOf placed.1, first.2, placed.1.2⟩

namespace Grammar

variable {c : Catalog} {productions : Productions}

/-! ### The last alternative -/

theorem repeats_concat (c : Catalog) (alternatives : List (String × Body))
    (entry : String × Body) :
    c.repeats (alternatives ++ [entry]) =
      c.repeats alternatives ++ ((c.firstLike? alternatives entry).map
        fun first => ⟨c.slotOf entry, first.2, entry.2⟩).toList := by
  unfold Catalog.repeats
  rw [List.zipIdx_append, List.filterMap_append]
  congr 1
  · refine List.filterMap_congr fun placed hplaced => ?_
    rw [List.take_append_of_le_length (List.mem_zipIdx' hplaced).1.le]
  · cases hfirst : c.firstLike? alternatives entry <;> simp [hfirst]

def filed (c : Catalog) (alternatives : List (String × Body)) : Filing :=
  file (alternatives.map fun entry => (c.slotOf entry, entry.2))

theorem filed_concat (c : Catalog) (alternatives : List (String × Body)) (entry : String × Body) :
    filed c (alternatives ++ [entry]) = (filed c alternatives).add (c.slotOf entry) entry.2 := by
  simp [filed, file]

theorem file_placed (c : Catalog) (productions : Productions) :
    file (placed c (c.storedAll productions)) = filed c (productions.alternatives c.epsilon) := by
  rw [placed_storedAll]
  rfl

/-! ### Slots and reports -/

theorem lookup_add (f : Filing) (slot other : Slot) (body : Body) :
    (f.add slot body).slots.lookup other =
      (f.slots.lookup other).or (if slot = other then some body else none) := by
  unfold Filing.add
  split
  · rename_i first hfirst
    by_cases hslot : slot = other
    · rw [← hslot, hfirst, Option.some_or]
    · simp [hslot]
  · by_cases hslot : slot = other
    · simp [List.lookup_append, hslot]
    · have hother : [(slot, body)].lookup other = none :=
        List.lookup_eq_none_iff.mpr (by simpa using Ne.symm hslot)
      simp [List.lookup_append, hother, hslot]

/-- The first alternative for a slot is the one that is kept. -/
theorem lookup_filed (c : Catalog) (alternatives : List (String × Body)) (slot : Slot) :
    (filed c alternatives).slots.lookup slot =
      (alternatives.find? fun entry => c.slotOf entry = slot).map Prod.snd := by
  induction alternatives using List.reverseRecOn with
  | nil => rfl
  | append_singleton alternatives entry ih =>
      rw [filed_concat, lookup_add, ih, List.find?_append, Option.map_or]
      by_cases hslot : c.slotOf entry = slot <;> simp [hslot]

theorem ambiguities_filed (c : Catalog) (alternatives : List (String × Body)) :
    (filed c alternatives).ambiguities = c.repeats alternatives := by
  induction alternatives using List.reverseRecOn with
  | nil => rfl
  | append_singleton alternatives entry ih =>
      have hfirst := lookup_filed c alternatives (c.slotOf entry)
      rw [← Catalog.firstLike?] at hfirst
      rw [filed_concat, repeats_concat, ← ih, Filing.add, hfirst]
      cases c.firstLike? alternatives entry <;> simp

/-- Every alternative is kept or reported. -/
theorem length_filed (c : Catalog) (alternatives : List (String × Body)) :
    (filed c alternatives).ambiguities.length + (filed c alternatives).slots.length =
      alternatives.length := by
  induction alternatives using List.reverseRecOn with
  | nil => rfl
  | append_singleton alternatives entry ih =>
      rw [filed_concat, Filing.add]
      split
      · simp only [List.length_append, List.length_singleton]
        omega
      · simp only [List.length_append, List.length_singleton]
        omega

theorem nodup_filed (c : Catalog) (alternatives : List (String × Body)) :
    ((filed c alternatives).slots.map Prod.fst).Nodup := by
  induction alternatives using List.reverseRecOn with
  | nil => exact List.nodup_nil
  | append_singleton alternatives entry ih =>
      rw [filed_concat, Filing.add]
      split
      · exact ih
      · rename_i hfree
        rw [List.map_append, List.map_singleton, ← List.concat_eq_append, List.nodup_concat]
        refine ⟨fun hmem => ?_, ih⟩
        obtain ⟨kept, hkept, hslot⟩ := List.mem_map.mp hmem
        have hne := List.lookup_eq_none_iff.mp hfree kept hkept
        simp [hslot] at hne

/-- There are as many slots as there are ways to begin, counted for each non-terminal. -/
theorem length_slots_filed (c : Catalog) (alternatives : List (String × Body)) :
    (filed c alternatives).slots.length = (alternatives.map c.slotOf).dedup.length := by
  have hmem : ∀ slot, slot ∈ (filed c alternatives).slots.map Prod.fst ↔
      slot ∈ (alternatives.map c.slotOf).dedup := by
    intro slot
    have hlookup := congrArg Option.isSome (lookup_filed c alternatives slot)
    rw [Option.isSome_map, Bool.eq_iff_iff, List.lookup_isSome_iff, List.find?_isSome] at hlookup
    simp only [beq_iff_eq, decide_eq_true_eq, eq_comm (a := slot)] at hlookup
    rw [List.mem_dedup, List.mem_map, List.mem_map]
    exact hlookup
  have hperm := (List.perm_ext_iff_of_nodup (nodup_filed c alternatives)
    (List.nodup_dedup _)).mpr hmem
  simpa using hperm.length_eq

/-! ### Building -/

/-- Two alternatives of one non-terminal clash when they need one slot. -/
theorem slotOf_eq_iff {name : String} {one other : Body} :
    c.slotOf (name, one) = c.slotOf (name, other) ↔ Body.Clash c.nonterminals one other := by
  rw [clash_iff, Catalog.slotOf, Catalog.slotOf, Slot.mk.injEq, and_iff_right rfl]

/-- There is something to report when two alternatives of a non-terminal clash. -/
theorem repeats_ne_nil_iff {alternatives : List (String × Body)} :
    c.repeats alternatives ≠ [] ↔ ∃ name one other,
      [(name, one), (name, other)].Sublist alternatives ∧ Body.Clash c.nonterminals one other := by
  have hnil : c.repeats alternatives = [] ↔ (alternatives.map c.slotOf).Nodup := by
    rw [← ambiguities_filed, filed, file_ambiguities_eq_nil_iff, List.map_map]
    rfl
  rw [ne_eq, hnil, List.Nodup, List.pairwise_map, List.pairwise_iff_forall_sublist]
  constructor
  · intro h
    simp only [not_forall, not_not] at h
    obtain ⟨⟨name, one⟩, ⟨name', other⟩, hsublist, hslot⟩ := h
    obtain rfl : name = name' := congrArg Slot.nonterminal hslot
    exact ⟨name, one, other, hsublist, slotOf_eq_iff.mp hslot⟩
  · rintro ⟨name, one, other, hsublist, hclash⟩ h
    exact h hsublist (slotOf_eq_iff.mpr hclash)

/-- **Every ambiguity is reported once.** Let the productions be over known symbols, and let each
non-terminal have an alternative. The builder reports ambiguities precisely when two alternatives of
a non-terminal clash. The report has an entry for each alternative that is not the first one for its
slot, in order, together with the first one; so together with the ways to begin there are as many
entries as alternatives. -/
theorem build_ambiguous_exact (hnames : productions.names.Nodup) (hknows : c.Knows productions)
    (hinhabited : ∀ name ∈ c.nonterminals, ∃ bodies, (name, bodies) ∈ productions ∧ bodies ≠ []) :
    let alternatives := productions.alternatives c.epsilon
    ((∃ found, build c productions = .error (.ambiguous found)) ↔ ∃ name one other,
      [(name, one), (name, other)].Sublist alternatives ∧ Body.Clash c.nonterminals one other) ∧
    ∀ found, build c productions = .error (.ambiguous found) →
      found = c.repeats alternatives ∧
      found.length + (alternatives.map c.slotOf).dedup.length = alternatives.length := by
  intro alternatives
  have hbare := (bare?_eq_none_iff (c := c) hnames).mpr hinhabited
  have hreport : (file (placed c (c.storedAll productions))).ambiguities =
      c.repeats alternatives := by
    rw [file_placed, ambiguities_filed]
  have hbuild : ∀ found, build c productions = .error (.ambiguous found) ↔
      c.repeats alternatives ≠ [] ∧ found = c.repeats alternatives := by
    intro found
    by_cases hnil : c.repeats alternatives = []
    · have hnodup := file_ambiguities_eq_nil_iff.mp (hreport.trans hnil)
      rw [build_eq_error_iff_of_nodup hknows hbare hnodup]
      simp [hnil]
    · rw [build_of_ambiguous hknows hbare (by rwa [hreport]), hreport]
      simp [hnil, eq_comm]
  refine ⟨?_, fun found hfound => ?_⟩
  · rw [← repeats_ne_nil_iff]
    exact ⟨fun ⟨found, hfound⟩ => ((hbuild found).mp hfound).1,
      fun hne => ⟨_, (hbuild _).mpr ⟨hne, rfl⟩⟩⟩
  · obtain ⟨-, rfl⟩ := (hbuild found).mp hfound
    refine ⟨rfl, ?_⟩
    rw [← ambiguities_filed, ← length_slots_filed, length_filed]

/-- Four ways to begin, with the end of the input written for an empty alternative, and four
repetitions of three of them. -/
theorem build_ambiguous_exact_letters :
    let c := marked letterTerminals ["S", "T"] letterTerminals[0] letterTerminals[1]
    let written : Productions :=
      [("S", [["a"], ["T", "b"], ["END"], ["a"], ["T"], [], ["a", "b"]]), ("T", [["b"]])]
    written.names.Nodup ∧ c.Knows written ∧
    (∀ name ∈ c.nonterminals, ∃ bodies, (name, bodies) ∈ written ∧ bodies ≠ []) ∧
    (∃ found, build c written = .error (.ambiguous found)) ∧
    ∀ found, build c written = .error (.ambiguous found) →
      found = [⟨⟨"S", .terminal "a"⟩, ["a"], ["a"]⟩, ⟨⟨"S", .nonterminal⟩, ["T", "b"], ["T"]⟩,
        ⟨⟨"S", .empty⟩, [], []⟩, ⟨⟨"S", .terminal "a"⟩, ["a"], ["a", "b"]⟩] ∧
      found.length + 4 = 8 := by
  intro c written
  have hnames : written.names.Nodup := by decide
  have hknows : c.Knows written := by
    unfold Catalog.Knows
    decide
  have hinhabited : ∀ name ∈ c.nonterminals, ∃ bodies, (name, bodies) ∈ written ∧ bodies ≠ [] := by
    simp [c, written, marked]
  obtain ⟨hiff, hfound⟩ := build_ambiguous_exact hnames hknows hinhabited
  have hclash : [("S", ["a"]), ("S", ["a"])].Sublist (written.alternatives c.epsilon) := by decide
  have hrepeats : c.repeats (written.alternatives c.epsilon) =
      [⟨⟨"S", .terminal "a"⟩, ["a"], ["a"]⟩, ⟨⟨"S", .nonterminal⟩, ["T", "b"], ["T"]⟩,
        ⟨⟨"S", .empty⟩, [], []⟩, ⟨⟨"S", .terminal "a"⟩, ["a"], ["a", "b"]⟩] := by
    decide +kernel
  have hways : ((written.alternatives c.epsilon).map c.slotOf).dedup.length = 4 := by
    decide +kernel
  have hlength : (written.alternatives c.epsilon).length = 8 := rfl
  refine ⟨hnames, hknows, hinhabited, hiff.mpr ⟨"S", ["a"], ["a"], hclash, .terminal (by decide)⟩,
    fun found h => ?_⟩
  obtain ⟨heq, hcount⟩ := hfound found h
  rw [hrepeats] at heq
  rw [hways, hlength] at hcount
  exact ⟨heq, hcount⟩

end Grammar

end Lookahead
