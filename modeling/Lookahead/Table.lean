/-!
Tables whose order counts: lists of named entries, in the order in which the names were first
given. Productions, prediction tables and the objects of a document are such tables. A name that
is given again keeps its place and takes the new value, so a name stands in a built table once.
-/

namespace Lookahead

/-- Named entries in the order of their first mention. -/
abbrev Table (α : Type) := List (String × α)

namespace Table

variable {α β : Type}

def names (t : Table α) : List String := t.map Prod.fst

def get? : Table α → String → Option α
  | [], _ => none
  | entry :: rest, name => if name = entry.1 then some entry.2 else get? rest name

/-- Gives a name a value: in its place if it has one, else at the end. -/
def put (name : String) (value : α) : Table α → Table α
  | [] => [(name, value)]
  | entry :: rest =>
    if entry.1 = name then (name, value) :: rest else entry :: put name value rest

def ofPairs (pairs : List (String × α)) : Table α :=
  pairs.foldl (fun t entry => put entry.1 entry.2 t) []

@[simp] theorem get?_nil (name : String) : get? ([] : Table α) name = none := rfl

theorem get?_cons (entry : String × α) (rest : Table α) (name : String) :
    get? (entry :: rest) name = if name = entry.1 then some entry.2 else get? rest name := rfl

theorem mem_of_get? {t : Table α} {name : String} {value : α} (h : get? t name = some value) :
    (name, value) ∈ t := by
  induction t with
  | nil => simp at h
  | cons entry rest ih =>
    rw [get?_cons] at h
    split at h
    · rename_i heq
      cases h
      exact heq ▸ List.mem_cons_self
    · exact List.mem_cons_of_mem _ (ih h)

theorem get?_eq_some_iff {t : Table α} (h : (names t).Nodup) {name : String} {value : α} :
    get? t name = some value ↔ (name, value) ∈ t := by
  refine ⟨mem_of_get?, fun hmem => ?_⟩
  induction t with
  | nil => simp at hmem
  | cons entry rest ih =>
    obtain ⟨hfirst, hrest⟩ := List.nodup_cons.1 h
    rw [get?_cons]
    split
    · rename_i heq
      rcases List.mem_cons.1 hmem with hmem | hmem
      · exact hmem ▸ rfl
      · exact absurd (heq ▸ List.mem_map_of_mem hmem) hfirst
    · rename_i hne
      rcases List.mem_cons.1 hmem with hmem | hmem
      · exact absurd (hmem ▸ rfl) hne
      · exact ih hrest hmem

@[simp] theorem names_nil : names ([] : Table α) = [] := rfl

@[simp] theorem names_cons (entry : String × α) (rest : Table α) :
    names (entry :: rest) = entry.1 :: names rest := rfl

end Table

end Lookahead
