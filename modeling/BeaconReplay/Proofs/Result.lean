import Mathlib
import BeaconReplay.Chain.Rule

/-!
# Sequencing of results

Steps of rules and decoders are results that are sequenced. These lemmas open a sequence whose
first part is known, and take a sequence apart whose result is known.
-/
namespace BeaconReplay.Result

variable {ε α β : Type} {x : Except ε α} {f : α → Except ε β}

@[simp] theorem ok_bind (a : α) (f : α → Except ε β) : (Except.ok a >>= f) = f a := rfl

@[simp] theorem error_bind (e : ε) (f : α → Except ε β) :
    (Except.error e >>= f) = Except.error e := rfl

@[simp] theorem pure_eq_ok (a : α) : (pure a : Except ε α) = Except.ok a := rfl

@[simp] theorem throw_eq_error (e : ε) : (throw e : Except ε α) = Except.error e := rfl

@[simp] theorem map_ok (g : α → β) (a : α) : (Except.ok a : Except ε α).map g = .ok (g a) := rfl

theorem map_eq_ok_iff {g : α → β} {b : β} : x.map g = .ok b ↔ ∃ a, x = .ok a ∧ g a = b := by
  cases x <;> simp [Except.map]

/-- Behind a check, a sequence succeeds if the check and what stands behind it do. -/
theorem check_bind_eq_ok_iff {check : Except ε Unit} {y : Except ε β} {b : β} :
    (check >>= fun _ => y) = .ok b ↔ check = .ok () ∧ y = .ok b := by
  cases check <;> simp

/-- A sequence succeeds if its first part does and the part behind it does with its result. -/
theorem bind_eq_ok_iff {b : β} : (x >>= f) = .ok b ↔ ∃ a, x = .ok a ∧ f a = .ok b := by
  cases x <;> simp

/-- Behind a first part, only what follows from its results matters. -/
theorem bind_congr {g : α → Except ε β} (h : ∀ a, x = .ok a → f a = g a) :
    (x >>= f) = (x >>= g) := by
  cases x with
  | error e => rfl
  | ok a => exact h a rfl

/-- A sequence fails with the fault of its first part or with that of the part behind it. -/
theorem bind_eq_error_iff {e : ε} :
    (x >>= f) = .error e ↔ x = .error e ∨ ∃ a, x = .ok a ∧ f a = .error e := by
  cases x <;> simp

end BeaconReplay.Result
