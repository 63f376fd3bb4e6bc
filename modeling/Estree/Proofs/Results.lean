/-!
# Results without their errors

Loading and emission end in a value or in an error, and much of what is said of them is about the
value alone: which nodes load, which texts are written. A computation in several steps has a value
only if each step has one, and what is left of a result when its error does not matter is the value,
if there is one.

Main results:

* `exists_of_map_eq_ok`, `exists_of_bind_eq_ok`: the value of a computation comes from its first
  step.
* `map_eq_ok_congr`: computations with the same values go on to the same values.
* `toOption_eq_some_iff`, `toOption_map`, `toOption_mapError`: what is left without the error.
-/

namespace Estree

variable {ε δ α β : Type}

/-- A mapped result comes from a result. -/
theorem exists_of_map_eq_ok {x : Except ε α} {g : α → β} {b : β} (h : x.map g = .ok b) :
    ∃ a, x = .ok a ∧ g a = b := by
  cases x with
  | error e => cases h
  | ok a => exact ⟨a, rfl, Except.ok.inj h⟩

/-- Computations with the same results have the same mapped ones. -/
theorem map_eq_ok_congr {x y : Except ε α} (h : ∀ a, x = .ok a ↔ y = .ok a) (g : α → β) (b : β) :
    x.map g = .ok b ↔ y.map g = .ok b := by
  constructor
  · intro hb
    obtain ⟨a, ha, rfl⟩ := exists_of_map_eq_ok hb
    rw [(h a).mp ha]
    rfl
  · intro hb
    obtain ⟨a, ha, rfl⟩ := exists_of_map_eq_ok hb
    rw [(h a).mpr ha]
    rfl

/-- A result of two steps comes from a result of the first. -/
theorem exists_of_bind_eq_ok {x : Except ε α} {f : α → Except ε β} {b : β} (h : x.bind f = .ok b) :
    ∃ a, x = .ok a ∧ f a = .ok b := by
  cases x with
  | error e => cases h
  | ok a => exact ⟨a, rfl, h⟩

/-- Forgetting errors keeps the results. -/
theorem toOption_eq_some_iff {x : Except ε α} {a : α} : x.toOption = some a ↔ x = .ok a := by
  cases x <;> simp [Except.toOption]

/-- The value of a mapped result is mapped. -/
theorem toOption_map (x : Except ε α) (g : α → β) : (x.map g).toOption = x.toOption.map g := by
  cases x <;> rfl

/-- What is done to the error does not matter. -/
theorem toOption_mapError (f : ε → δ) (x : Except ε α) :
    (x.mapError f).toOption = x.toOption := by
  cases x <;> rfl

end Estree
