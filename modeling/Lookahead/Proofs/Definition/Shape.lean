import Lookahead.Definition
import Lookahead.Proofs.Checks
import Mathlib.Data.List.Forall2
import Mathlib.Data.Set.List

/-!
Which documents are definitions. `Document.IsDefinition` says it by the shape alone, in terms of
what is found under the keys of an object: a key may be missing, or it has a value, and a value of
the wrong kind is never the same as none. `Definition.WrittenAs` says which definition is written
down in such a document.

Reading is a chain of checks. Each function in it has one lemma that says when it has a result, in
the words of the two predicates, and so a document is read as a definition when it has the shape of
one and the definition is written down in it (`ofDocument_eq_ok_iff`). The order of the checks only
matters to the message of a fault, and is not seen from here on.
-/

namespace Lookahead

/-! ### Shapes -/

namespace Document

variable {d : Document} {P : Document → Prop}

theorem asString?_eq_some_iff {text : String} : d.asString? = some text ↔ d = .string text := by
  cases d <;> simp [asString?]

theorem asBool?_eq_some_iff {value : Bool} : d.asBool? = some value ↔ d = .bool value := by
  cases d <;> simp [asBool?]

theorem asList?_eq_some_iff {items : List Document} :
    d.asList? = some items ↔ d = .list items := by
  cases d <;> simp [asList?]

theorem asObject?_eq_some_iff {fields : Table Document} :
    d.asObject? = some fields ↔ d = .object fields := by
  cases d <;> simp [asObject?]

/-- A list is read member by member when each result can only come from one member. -/
theorem mapM_eq_some_iff {α β : Type} {f : α → Option β} {g : β → α}
    (h : ∀ a b, f a = some b ↔ a = g b) {items : List α} {results : List β} :
    items.mapM f = some results ↔ items = results.map g := by
  induction items generalizing results with
  | nil => cases results <;> simp
  | cons item rest ih =>
      cases results with
      | nil => simp [List.mapM_cons, Option.bind_eq_some_iff]
      | cons b bs => simp [List.mapM_cons, Option.bind_eq_some_iff, ih, h]

theorem mapM_asString?_eq_some_iff {items : List Document} {texts : List String} :
    items.mapM asString? = some texts ↔ items = texts.map .string :=
  mapM_eq_some_iff fun _ _ => asString?_eq_some_iff

theorem asStrings?_eq_some_iff {texts : List String} :
    d.asStrings? = some texts ↔ d = .list (texts.map .string) := by
  simp [asStrings?, Option.bind_eq_some_iff, asList?_eq_some_iff, mapM_asString?_eq_some_iff]

def IsString (d : Document) : Prop := ∃ text, d = .string text

def IsBool (d : Document) : Prop := ∃ value, d = .bool value

def IsListOf (P : Document → Prop) (d : Document) : Prop :=
  ∃ items, d = .list items ∧ ∀ item ∈ items, P item

def IsObjectOf (P : Document → Prop) (d : Document) : Prop :=
  ∃ fields : Table Document, d = .object fields ∧ ∀ entry ∈ fields, P entry.2

structure TerminalShape (fields : Table Document) : Prop where
  name : ∃ name, fields.get? "name" = some (.string name) ∧ name ≠ ""
  pattern : ∀ d, fields.get? "pattern" = some d → d.IsString
  patterns : ∀ d, fields.get? "patterns" = some d → d.IsListOf IsString
  epsilon : ∀ d, fields.get? "epsilon" = some d → d.IsBool
  unmatched : ∀ d, fields.get? "unmatched" = some d → d.IsBool
  keys : ∀ key ∈ fields.names, key ∈ ["name", "pattern", "patterns", "epsilon", "unmatched"]

def IsTerminal (d : Document) : Prop := ∃ fields, d = .object fields ∧ TerminalShape fields

/-- The shape of a definition. Other keys than these two are of no consequence. -/
structure DefinitionShape (fields : Table Document) : Prop where
  terminals : ∃ d, fields.get? "terminals" = some d ∧ d.IsListOf IsTerminal
  productions : ∀ d, fields.get? "productions" = some d →
    d.IsObjectOf (IsListOf (IsListOf IsString))

def IsDefinition (d : Document) : Prop := ∃ fields, d = .object fields ∧ DefinitionShape fields

end Document

open Document

/-! ### What is written down -/

/-- The terminal that the fields of an object describe. The single pattern comes before the others,
and a mark that is not given is off. -/
structure Terminal.WrittenAs (t : Terminal) (fields : Table Document) : Prop where
  name : fields.get? "name" = some (.string t.name)
  named : t.name ≠ ""
  patterns : ∃ (single : Option String) (listed : List String),
    t.patterns = single.toList ++ listed ∧
    fields.get? "pattern" = single.map .string ∧
    (fields.get? "patterns").getD (.list []) = .list (listed.map .string)
  epsilon : (fields.get? "epsilon").getD (.bool false) = .bool t.epsilon
  unmatched : (fields.get? "unmatched").getD (.bool false) = .bool t.unmatched
  keys : ∀ key ∈ fields.names, key ∈ ["name", "pattern", "patterns", "epsilon", "unmatched"]

def Terminal.WrittenIn (t : Terminal) (d : Document) : Prop :=
  ∃ fields, d = .object fields ∧ t.WrittenAs fields

def alternativesDocument (bodies : List Body) : Document :=
  .list (bodies.map fun body => .list (body.map .string))

def productionsDocument (productions : Productions) : Document :=
  .object (productions.map fun entry => (entry.1, alternativesDocument entry.2))

/-- The definition that the fields of an object describe: the terminals one by one in their order,
and the productions as they are, of which there are none when they are not given. -/
structure Definition.WrittenAs (definition : Definition) (fields : Table Document) : Prop where
  terminals : ∃ items, fields.get? "terminals" = some (.list items) ∧
    List.Forall₂ Terminal.WrittenIn definition.terminals items
  productions : (fields.get? "productions").getD (.object []) =
    productionsDocument definition.productions

namespace Definition

variable {d : Document} {fields : Table Document} {t : Terminal} {index : Nat}

theorem require_eq_ok_iff {α : Type} {fault : DefinitionFault} {found : Option α} {a : α} :
    require fault found = .ok a ↔ found = some a := by
  cases found <;> simp [require]

/-! ### Terminals -/

theorem nameOf?_eq_some_iff {name : String} :
    nameOf? fields = some name ↔ fields.get? "name" = some (.string name) ∧ name ≠ "" := by
  simp [nameOf?, Option.filter_eq_some_iff, Option.bind_eq_some_iff, asString?_eq_some_iff]

theorem markOf?_eq_some_iff {key : String} {mark : Bool} :
    markOf? fields key = some mark ↔
      (fields.get? key).getD (.bool false) = .bool mark := by
  rw [markOf?, asBool?_eq_some_iff]

theorem unknownKeysOf_eq_nil_iff :
    unknownKeysOf fields = [] ↔ ∀ key ∈ fields.names, key ∈ terminalKeys := by
  simp [unknownKeysOf, ascending, List.eq_nil_iff_forall_not_mem]

theorem exists_writtenPatterns?_iff {patterns : List String} :
    (∃ written, writtenPatterns? fields = some written ∧
      written.mapM asString? = some patterns) ↔
    ∃ (single : Option String) (listed : List String), patterns = single.toList ++ listed ∧
      fields.get? "pattern" = single.map .string ∧
      (fields.get? "patterns").getD (.list []) = .list (listed.map .string) := by
  simp only [writtenPatterns?, Option.map_eq_some_iff, asList?_eq_some_iff,
    mapM_asString?_eq_some_iff]
  constructor
  · rintro ⟨_, ⟨items, hitems, rfl⟩, hwritten⟩
    cases hsingle : fields.get? "pattern" with
    | none =>
        rw [hsingle, Option.toList_none, List.nil_append] at hwritten
        exact ⟨none, patterns, rfl, rfl, hwritten ▸ hitems⟩
    | some d =>
        rw [hsingle, Option.toList_some, List.singleton_append] at hwritten
        obtain ⟨first, others, rfl, rfl, rfl⟩ := List.map_eq_cons_iff.mp hwritten.symm
        exact ⟨some first, others, rfl, rfl, hitems⟩
  · rintro ⟨single, listed, rfl, hsingle, hlisted⟩
    refine ⟨_, ⟨_, hlisted, rfl⟩, ?_⟩
    rw [hsingle, List.map_append]
    cases single <;> rfl

theorem readTerminal_eq_ok_iff : readTerminal index d = .ok t ↔ t.WrittenIn d := by
  simp only [Terminal.WrittenIn, readTerminal, bind_eq_ok, require_eq_ok_iff, asObject?_eq_some_iff]
  constructor
  · rintro ⟨fields, rfl, name, hname, written, hwritten, patterns, hpatterns, h⟩
    obtain ⟨hname, hnamed⟩ := nameOf?_eq_some_iff.mp hname
    by_cases hkeys : unknownKeysOf fields = []
    · rw [if_neg (not_not_intro hkeys)] at h
      simp only [bind_eq_ok, require_eq_ok_iff, markOf?_eq_some_iff] at h
      obtain ⟨epsilon, hepsilon, unmatched, hunmatched, heq⟩ := h
      cases heq
      exact ⟨fields, rfl, hname, hnamed,
        exists_writtenPatterns?_iff.mp ⟨written, hwritten, hpatterns⟩, hepsilon, hunmatched,
        unknownKeysOf_eq_nil_iff.mp hkeys⟩
    · rw [if_pos hkeys] at h
      contradiction
  · rintro ⟨fields, rfl, h⟩
    obtain ⟨written, hwritten, hpatterns⟩ := exists_writtenPatterns?_iff.mpr h.patterns
    refine ⟨fields, rfl, t.name, nameOf?_eq_some_iff.mpr ⟨h.name, h.named⟩, written, hwritten,
      t.patterns, hpatterns, ?_⟩
    rw [if_neg (not_not_intro (unknownKeysOf_eq_nil_iff.mpr h.keys))]
    simp only [bind_eq_ok, require_eq_ok_iff, markOf?_eq_some_iff]
    exact ⟨t.epsilon, h.epsilon, t.unmatched, h.unmatched, rfl⟩

theorem readTerminals_eq_ok_iff {items : List Document} {terminals : List Terminal} :
    readTerminals index items = .ok terminals ↔
      List.Forall₂ Terminal.WrittenIn terminals items := by
  induction items generalizing index terminals with
  | nil => simp [readTerminals, pure, Except.pure, eq_comm]
  | cons item rest ih =>
      simp only [readTerminals, bind_eq_ok, readTerminal_eq_ok_iff, ih, List.forall₂_cons_right_iff]
      constructor
      · rintro ⟨t, ht, others, hothers, heq⟩
        cases heq
        exact ⟨t, others, ht, hothers, rfl⟩
      · rintro ⟨t, others, ht, hothers, rfl⟩
        exact ⟨t, ht, others, hothers, rfl⟩

/-! ### Productions -/

theorem readAlternatives_eq_ok_iff {nonterminal : String} {bodies : List Body} :
    readAlternatives nonterminal d = .ok bodies ↔ d = alternativesDocument bodies := by
  simp only [readAlternatives, bind_eq_ok, require_eq_ok_iff, asList?_eq_some_iff,
    mapM_eq_some_iff (fun _ _ => asStrings?_eq_some_iff)]
  constructor
  · rintro ⟨items, rfl, rfl⟩
    rfl
  · exact fun h => ⟨_, h, rfl⟩

theorem readProductions_eq_ok_iff {productions : Productions} :
    readProductions fields = .ok productions ↔
      .object fields = productionsDocument productions := by
  rw [readProductions, mapM_eq_ok, productionsDocument, Document.object.injEq]
  induction fields generalizing productions with
  | nil => cases productions <;> simp
  | cons entry rest ih =>
      cases productions with
      | nil => simp
      | cons production others =>
          obtain ⟨key, d⟩ := entry
          obtain ⟨nonterminal, bodies⟩ := production
          rw [List.map_cons, List.map_cons, List.map_cons, List.cons.injEq, List.cons.injEq]
          refine and_congr ?_ ih
          simp only [bind_eq_ok, readAlternatives_eq_ok_iff, pure, Except.pure, Except.ok.injEq,
            Prod.mk.injEq]
          constructor
          · rintro ⟨_, hd, rfl, rfl⟩
            exact ⟨rfl, hd⟩
          · rintro ⟨rfl, hd⟩
            exact ⟨bodies, hd, rfl, rfl⟩

theorem ofDocument_eq_ok_iff {definition : Definition} :
    ofDocument d = .ok definition ↔ ∃ fields, d = .object fields ∧ definition.WrittenAs fields := by
  simp only [ofDocument, bind_eq_ok, require_eq_ok_iff, asObject?_eq_some_iff,
    Option.bind_eq_some_iff, asList?_eq_some_iff, readTerminals_eq_ok_iff,
    readProductions_eq_ok_iff]
  constructor
  · rintro ⟨fields, rfl, items, ⟨_, hitems, rfl⟩, terminals, hterminals, expanded, hexpanded,
      productions, hproductions, heq⟩
    cases heq
    exact ⟨fields, rfl, ⟨items, hitems, hterminals⟩, hexpanded.trans hproductions⟩
  · rintro ⟨fields, rfl, ⟨items, hitems, hterminals⟩, hproductions⟩
    exact ⟨fields, rfl, items, ⟨_, hitems, rfl⟩, definition.terminals, hterminals, _, hproductions,
      definition.productions, rfl, rfl⟩

/-! ### Shape and contents -/

theorem exists_forall₂_iff {α β : Type} {R : α → β → Prop} {items : List β} :
    (∃ origins, List.Forall₂ R origins items) ↔ ∀ item ∈ items, ∃ a, R a item := by
  induction items with
  | nil => simp
  | cons item rest ih => simp [List.forall₂_cons_right_iff, ← ih]

theorem exists_eq_map_iff {α β : Type} {g : α → β} {items : List β} :
    (∃ origins : List α, items = origins.map g) ↔ ∀ item ∈ items, ∃ a, item = g a := by
  have hrange := Set.ext_iff.mp (Set.range_list_map g) items
  simpa only [Set.mem_range, Set.mem_ofPred_eq, eq_comm] using hrange

theorem isListOf_iff {α : Type} {P : Document → Prop} {g : α → Document}
    (h : ∀ d, P d ↔ ∃ a, d = g a) :
    d.IsListOf P ↔ ∃ origins : List α, d = .list (origins.map g) := by
  simp only [IsListOf, h, ← exists_eq_map_iff]
  constructor
  · rintro ⟨_, rfl, origins, rfl⟩
    exact ⟨origins, rfl⟩
  · rintro ⟨origins, rfl⟩
    exact ⟨_, rfl, origins, rfl⟩

theorem isListOf_isString_iff :
    d.IsListOf IsString ↔ ∃ texts : List String, d = .list (texts.map .string) :=
  isListOf_iff fun _ => Iff.rfl

theorem isObjectOf_alternatives_iff :
    d.IsObjectOf (IsListOf (IsListOf IsString)) ↔
      ∃ productions, d = productionsDocument productions := by
  have halternatives (d : Document) :
      d.IsListOf (IsListOf IsString) ↔ ∃ bodies, d = alternativesDocument bodies :=
    isListOf_iff fun _ => isListOf_isString_iff
  have hentry (entry : String × Document) : (∃ bodies, entry.2 = alternativesDocument bodies) ↔
      ∃ production : String × List Body,
        entry = (production.1, alternativesDocument production.2) := by
    constructor
    · rintro ⟨bodies, h⟩
      exact ⟨(entry.1, bodies), Prod.ext rfl h⟩
    · rintro ⟨production, rfl⟩
      exact ⟨production.2, rfl⟩
  simp only [IsObjectOf, halternatives, hentry, ← exists_eq_map_iff]
  constructor
  · rintro ⟨_, rfl, productions, rfl⟩
    exact ⟨productions, rfl⟩
  · rintro ⟨productions, rfl⟩
    exact ⟨_, rfl, productions, rfl⟩

theorem forall_eq_some_iff_getD {P : Document → Prop} (standIn : Document) (h : P standIn)
    (found : Option Document) : (∀ d, found = some d → P d) ↔ P (found.getD standIn) := by
  cases found <;> simp [h]

theorem forall_isString_iff {found : Option Document} :
    (∀ d, found = some d → d.IsString) ↔ ∃ single : Option String, found = single.map .string := by
  cases found with
  | none => exact ⟨fun _ => ⟨none, rfl⟩, fun _ => nofun⟩
  | some d =>
      constructor
      · intro h
        obtain ⟨text, rfl⟩ := h d rfl
        exact ⟨some text, rfl⟩
      · rintro ⟨single, hsingle⟩ _ ⟨⟩
        obtain ⟨text, -, rfl⟩ := Option.map_eq_some_iff.mp hsingle.symm
        exact ⟨text, rfl⟩

theorem terminalShape_iff : TerminalShape fields ↔ ∃ t : Terminal, t.WrittenAs fields := by
  have hmark (key : String) := forall_eq_some_iff_getD (P := IsBool) (.bool false)
    ⟨false, rfl⟩ (fields.get? key)
  have hlist := (forall_eq_some_iff_getD (P := IsListOf IsString) (.list [])
    ⟨[], rfl, nofun⟩ (fields.get? "patterns")).trans isListOf_isString_iff
  constructor
  · intro h
    obtain ⟨name, hname, hnamed⟩ := h.name
    obtain ⟨single, hsingle⟩ := forall_isString_iff.mp h.pattern
    obtain ⟨listed, hlisted⟩ := hlist.mp h.patterns
    obtain ⟨epsilon, hepsilon⟩ := (hmark "epsilon").mp h.epsilon
    obtain ⟨unmatched, hunmatched⟩ := (hmark "unmatched").mp h.unmatched
    exact ⟨{ name, patterns := single.toList ++ listed, epsilon, unmatched }, hname, hnamed,
      ⟨single, listed, rfl, hsingle, hlisted⟩, hepsilon, hunmatched, h.keys⟩
  · rintro ⟨t, h⟩
    obtain ⟨single, listed, -, hsingle, hlisted⟩ := h.patterns
    exact ⟨⟨t.name, h.name, h.named⟩, forall_isString_iff.mpr ⟨single, hsingle⟩,
      hlist.mpr ⟨listed, hlisted⟩, (hmark "epsilon").mpr ⟨_, h.epsilon⟩,
      (hmark "unmatched").mpr ⟨_, h.unmatched⟩, h.keys⟩

theorem definitionShape_iff :
    DefinitionShape fields ↔ ∃ definition : Definition, definition.WrittenAs fields := by
  have hterminal (item : Document) : IsTerminal item ↔ ∃ t : Terminal, t.WrittenIn item := by
    simp only [IsTerminal, Terminal.WrittenIn, terminalShape_iff]
    exact ⟨fun ⟨entries, h, t, ht⟩ => ⟨t, entries, h, ht⟩,
      fun ⟨t, entries, h, ht⟩ => ⟨entries, h, t, ht⟩⟩
  have hproductions := (forall_eq_some_iff_getD (.object [])
    ⟨[], rfl, nofun⟩ (fields.get? "productions")).trans isObjectOf_alternatives_iff
  constructor
  · intro h
    obtain ⟨_, hlist, items, rfl, hitems⟩ := h.terminals
    simp only [hterminal, ← exists_forall₂_iff] at hitems
    obtain ⟨terminals, hterminals⟩ := hitems
    obtain ⟨productions, hwritten⟩ := hproductions.mp h.productions
    exact ⟨{ terminals, productions }, ⟨items, hlist, hterminals⟩, hwritten⟩
  · rintro ⟨definition, ⟨items, hlist, hterminals⟩, hwritten⟩
    have hitems : ∀ item ∈ items, IsTerminal item := by
      simp only [hterminal, ← exists_forall₂_iff]
      exact ⟨definition.terminals, hterminals⟩
    exact ⟨⟨_, hlist, items, rfl, hitems⟩, hproductions.mpr ⟨_, hwritten⟩⟩

/-- **The loader accepts the shape of a definition and nothing else.** A document is read as a
definition when it is an object with a list of terminals and perhaps an object of productions, each
of them in its shape, and else it is refused with a fault of the definition. What is read from it is
what is written down there: the terminals in their order, each with its single pattern before the
others and with its marks, and the productions in theirs. -/
theorem ofDocument_exact (d : Document) :
    ((∃ definition, ofDocument d = .ok definition) ↔ d.IsDefinition) ∧
    (¬ d.IsDefinition → ∃ fault, ofDocument d = .error fault) ∧
    ∀ definition, ofDocument d = .ok definition →
      ∃ fields, d = .object fields ∧ definition.WrittenAs fields := by
  have hshape : (∃ definition, ofDocument d = .ok definition) ↔ d.IsDefinition := by
    simp only [ofDocument_eq_ok_iff, IsDefinition, definitionShape_iff]
    exact ⟨fun ⟨definition, fields, h, hwritten⟩ => ⟨fields, h, definition, hwritten⟩,
      fun ⟨fields, h, definition, hwritten⟩ => ⟨definition, fields, h, hwritten⟩⟩
  refine ⟨hshape, fun hnot => ?_, fun definition => ofDocument_eq_ok_iff.mp⟩
  cases hd : ofDocument d with
  | error fault => exact ⟨fault, rfl⟩
  | ok definition => exact absurd (hshape.mp ⟨definition, hd⟩) hnot

-- a key with the null value is there, and is not a string
example : ofDocument (.object [("terminals", .list [
    .object [("name", .string "WORD"), ("pattern", .null)]])]) =
    .error (.patternNotAString "WORD") := by rfl

end Definition

end Lookahead
