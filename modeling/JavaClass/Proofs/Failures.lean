/-
  Results and failures.

  A computation that can fail yields a result or the reason why there is none (`failure?`).  Steps
  behind each other succeed if each of them does; otherwise the first that fails decides, so the
  reason is found by going through the reasons of the steps in order.
-/
import Mathlib.Data.List.Forall2

namespace JavaClass

/-- Why there is no result, if there is none. -/
def failure? {ε α : Type} : Except ε α → Option ε
  | .ok _ => none
  | .error e => some e

section
variable {ε α β : Type} {step : α → Except ε β}

theorem failure?_eq_some {result : Except ε α} {e : ε} :
    failure? result = some e ↔ result = .error e := by
  cases result <;> simp [failure?]

theorem failure?_eq_none {result : Except ε α} :
    failure? result = none ↔ ∃ a, result = .ok a := by
  cases result <;> simp [failure?]

/-- What follows a result can only succeed if there is one. -/
theorem bind_eq_ok_iff {result : Except ε α} {next : α → Except ε β} {b : β} :
    (result >>= next) = .ok b ↔ ∃ a, result = .ok a ∧ next a = .ok b := by
  cases result with
  | error e =>
    constructor
    · intro h
      nomatch h
    · rintro ⟨a, ha, -⟩
      nomatch ha
  | ok a =>
    constructor
    · intro h
      exact ⟨a, rfl, h⟩
    · rintro ⟨a', ha, h⟩
      cases ha
      exact h

/-- A failure comes from a result, or else from what follows it. -/
theorem failure?_bind {result : Except ε α} {next : α → Except ε β} {later : Option ε}
    (h : ∀ a, failure? (next a) = later) :
    failure? (result >>= next) = (failure? result).or later := by
  cases result with
  | error e => rfl
  | ok a => exact h a

/-- What is made of a result fails as the result does. -/
theorem failure?_map (f : α → β) (result : Except ε α) :
    failure? (result >>= fun a => pure (f a)) = failure? result := by
  cases result <;> rfl

/-- Of steps in a row, the first that fails decides. -/
theorem failure?_mapM (as : List α) :
    failure? (as.mapM step) = as.findSome? fun a => failure? (step a) := by
  induction as with
  | nil => rfl
  | cons a as ih =>
    rw [List.mapM_cons, List.findSome?_cons, ← ih]
    cases step a with
    | error e => rfl
    | ok b => cases as.mapM step <;> rfl

/-- Steps in a row succeed with the result of each. -/
theorem mapM_eq_ok_iff {as : List α} {bs : List β} :
    as.mapM step = .ok bs ↔ List.Forall₂ (fun a b => step a = .ok b) as bs := by
  induction as generalizing bs with
  | nil =>
    rw [List.mapM_nil, List.forall₂_nil_left_iff]
    exact ⟨fun h => (Except.ok.inj h).symm, fun h => h ▸ rfl⟩
  | cons a as ih =>
    rw [List.mapM_cons, List.forall₂_cons_left_iff, bind_eq_ok_iff]
    constructor
    · rintro ⟨b, hb, hrest⟩
      obtain ⟨bs', hbs, hall⟩ := bind_eq_ok_iff.mp hrest
      exact ⟨b, bs', hb, ih.mp hbs, (Except.ok.inj hall).symm⟩
    · rintro ⟨b, bs', hb, hbs, rfl⟩
      exact ⟨b, hb, bind_eq_ok_iff.mpr ⟨bs', ih.mpr hbs, rfl⟩⟩

end

end JavaClass
