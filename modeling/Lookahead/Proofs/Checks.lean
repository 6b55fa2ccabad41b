/-!
Checks that run one after another. Building a catalog, a lexicon or a grammar is a chain of checks
in which the first fault ends everything, so a result says that every check was passed. These
lemmas take such a chain apart, one bind or one traversal at a time.
-/

namespace Lookahead

variable {ε α β : Type}

/-- A chain has a result when its first part has one and the rest has one for that. -/
theorem bind_eq_ok {first : Except ε α} {next : α → Except ε β} {b : β} :
    first >>= next = .ok b ↔ ∃ a, first = .ok a ∧ next a = .ok b := by
  cases first <;> simp [bind, Except.bind]

/-- It has a fault when its first part has one, or else the rest. -/
theorem bind_eq_error {first : Except ε α} {next : α → Except ε β} {e : ε} :
    first >>= next = .error e ↔ first = .error e ∨ ∃ a, first = .ok a ∧ next a = .error e := by
  cases first <;> simp [bind, Except.bind]

theorem map_eq_ok {f : α → β} {result : Except ε α} {b : β} :
    result.map f = .ok b ↔ ∃ a, result = .ok a ∧ f a = b := by
  cases result <;> simp [Except.map]

/-- A fault does not depend on what is made of a result. -/
theorem map_eq_error {f : α → β} {result : Except ε α} {e : ε} :
    result.map f = .error e ↔ result = .error e := by
  cases result <;> simp [Except.map]

/-- How a fault is told does not matter to a result. -/
theorem mapError_eq_ok {ε' : Type} {f : ε → ε'} {result : Except ε α} {a : α} :
    result.mapError f = .ok a ↔ result = .ok a := by
  cases result with
  | error fault => exact ⟨nofun, nofun⟩
  | ok b =>
      constructor
      · exact fun h => congrArg Except.ok (Except.ok.inj h)
      · exact fun h => congrArg Except.ok (Except.ok.inj h)

theorem eq_ok_of_toOption {result : Except ε α} {a : α} (h : result.toOption = some a) :
    result = .ok a := by
  cases result with
  | error fault => contradiction
  | ok b =>
      obtain rfl := Option.some.inj h
      rfl

/-- A traversal has a result when every member has one, and then it is the list of those. -/
theorem mapM_eq_ok {f : α → Except ε β} {items : List α} {results : List β} :
    items.mapM f = .ok results ↔ List.map f items = results.map .ok := by
  induction items generalizing results with
  | nil => cases results <;> simp [pure, Except.pure]
  | cons item rest ih =>
      rw [List.mapM_cons]
      simp only [bind_eq_ok, ih, pure, Except.pure, Except.ok.injEq, List.map_cons]
      constructor
      · rintro ⟨b, hb, bs, hbs, rfl⟩
        rw [hb, hbs, List.map_cons]
      · intro h
        cases results with
        | nil => simp at h
        | cons b bs =>
            rw [List.map_cons, List.cons.injEq] at h
            exact ⟨b, h.1, bs, h.2, rfl⟩

end Lookahead
