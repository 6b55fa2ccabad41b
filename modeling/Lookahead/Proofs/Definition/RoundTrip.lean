import Lookahead.Proofs.Definition.Shape
import Lookahead.Text.AsciiName

/-!
Definitions written down and read again. `Definition.toDocument` leaves out what is not needed: an
empty list of patterns, a mark that is off; and a single pattern is written among the others. What
it writes is all the same a document in which the definition is written down, and only one
definition is read from such a document. A definition has to be one that was read, though: nothing
keeps the name of a terminal from being empty otherwise.
-/

namespace Lookahead

open Document

/-! ### Fields that may be left out -/

namespace Table

variable {α : Type} {name key : String}

theorem get?_append (t u : Table α) (name : String) :
    get? (t ++ u) name = (get? t name).or (get? u name) := by
  induction t with
  | nil => rfl
  | cons entry rest ih =>
      rw [List.cons_append, get?_cons, get?_cons, ih]
      split <;> rfl

theorem get?_given (given : Prop) [Decidable given] (key : String) (value : α) (name : String) :
    get? (if given then [(key, value)] else []) name =
      if given ∧ name = key then some value else none := by
  by_cases h : given <;> simp [h, get?_cons]

theorem get?_unless (absent : Prop) [Decidable absent] (key : String) (value : α)
    (name : String) : get? (if absent then [] else [(key, value)]) name =
      if ¬ absent ∧ name = key then some value else none := by
  rw [← ite_not, get?_given]

end Table

namespace Definition

open Table

variable {t : Terminal} {d : Document} {definition : Definition}

theorem writtenIn_terminalDocument (hnamed : t.name ≠ "") :
    t.WrittenIn (terminalDocument t) := by
  refine ⟨_, rfl, ?_⟩
  constructor
  · rfl
  · exact hnamed
  · refine ⟨none, t.patterns, rfl, ?_, ?_⟩
    · simp [get?_cons, get?_append, get?_given, get?_unless]
    · by_cases hpatterns : t.patterns = []
      · simp [get?_cons, get?_append, get?_given, hpatterns]
      · simp [get?_cons, hpatterns]
  · cases hmark : t.epsilon <;> simp [get?_cons, get?_append, get?_given, get?_unless]
  · cases hmark : t.unmatched <;> simp [get?_cons, get?_append, get?_given, get?_unless]
  · intro key hkey
    have hgiven : key = "name" ∨ key = "patterns" ∨ key = "epsilon" ∨ key = "unmatched" := by
      grind [names]
    rcases hgiven with rfl | rfl | rfl | rfl <;> decide

theorem writtenAs_toDocument (hnamed : ∀ t ∈ definition.terminals, t.name ≠ "") :
    ∃ fields, definition.toDocument = .object fields ∧ definition.WrittenAs fields := by
  refine ⟨_, rfl, ⟨_, rfl, ?_⟩, rfl⟩
  rw [List.forall₂_map_right_iff, List.forall₂_same]
  exact fun t ht => writtenIn_terminalDocument (hnamed t ht)

/-- The terminals of a definition that was read have names. -/
theorem name_ne_of_ofDocument (h : ofDocument d = .ok definition) :
    ∀ t ∈ definition.terminals, t.name ≠ "" := by
  obtain ⟨fields, -, ⟨items, -, hterminals⟩, -⟩ := ofDocument_eq_ok_iff.mp h
  have hnamed : List.Forall₂ (fun (t : Terminal) (_ : Document) => t.name ≠ "" ∧ True)
      definition.terminals items :=
    hterminals.imp fun t item ⟨entries, _, ht⟩ => ⟨ht.named, trivial⟩
  exact ((List.forall₂_and_left _ _).mp hnamed).1

/-- **Saving and reloading a definition is the identity.** A definition that was read from a
document is written to one from which it is read again: with the same terminals, patterns, marks and
productions in the same order, so that it is written and built just as before. -/
theorem ofDocument_toDocument [Text.CharacterNames] (h : ofDocument d = .ok definition) :
    ∃ reloaded, ofDocument definition.toDocument = .ok reloaded ∧ reloaded = definition ∧
      reloaded.toDocument = definition.toDocument ∧
      ∀ chunkSize, (∃ l, reloaded.build chunkSize = .ok l) ↔
        ∃ l, definition.build chunkSize = .ok l := by
  have hnamed := name_ne_of_ofDocument h
  have hreloaded : ofDocument definition.toDocument = .ok definition :=
    ofDocument_eq_ok_iff.mpr (writtenAs_toDocument hnamed)
  exact ⟨definition, hreloaded, rfl, rfl, fun _ => Iff.rfl⟩

/-- A document that gives patterns in both places, an empty list of patterns and marks that are off,
and has no productions. Each of these is written in another way than it was given. -/
theorem ofDocument_toDocument_words :
    let d : Document := .object [("terminals", .list [
      .object [("name", .string "END"), ("epsilon", .bool true), ("patterns", .list [])],
      .object [("unmatched", .bool true), ("name", .string "OTHER"), ("epsilon", .bool false)],
      .object [("name", .string "WORD"), ("patterns", .list [.string "[A-Z]+", .string "_"]),
        ("pattern", .string "[a-z]+")]])]
    let definition : Definition := {
      terminals := [
        { name := "END", epsilon := true }, { name := "OTHER", unmatched := true },
        { name := "WORD", patterns := ["[a-z]+", "[A-Z]+", "_"] }]
      productions := [] }
    ofDocument d = .ok definition ∧ definition.toDocument ≠ d ∧
    ofDocument definition.toDocument = .ok definition := by
  intro d definition
  have hd : ofDocument d = .ok definition := eq_ok_of_toOption (by decide +kernel)
  obtain ⟨reloaded, hreloaded, heq, -⟩ := ofDocument_toDocument hd
  have hfields : (definition.toDocument.field? "productions").isSome ≠
      (d.field? "productions").isSome := by decide
  exact ⟨hd, fun h => hfields (by rw [h]), heq ▸ hreloaded⟩

end Definition

end Lookahead
