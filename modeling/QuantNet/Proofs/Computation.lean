import QuantNet.Graph.Handle

/-!
# Computations that may fail

How the outcome of a sequence of steps follows from the outcomes of the steps: for computations with
an outcome alone, and for computations that change a state on the way.
-/

namespace QuantNet

/-! ## Outcomes -/

section Outcomes

variable {ε δ β γ : Type} {cause : ε} {result : γ}

@[simp]
theorem except_ok_bind (input : β) (next : β → Except ε γ) :
    (Except.ok input >>= next) = next input :=
  rfl

@[simp]
theorem except_error_bind (cause : ε) (next : β → Except ε γ) :
    (Except.error cause >>= next) = .error cause :=
  rfl

@[simp]
theorem except_pure_eq (value : β) : (pure value : Except ε β) = .ok value :=
  rfl

@[simp]
theorem except_throw_eq (cause : ε) : (throw cause : Except ε β) = .error cause :=
  rfl

@[simp]
theorem except_bind_eq_ok {value : Except ε β} {next : β → Except ε γ} :
    (value >>= next) = .ok result ↔ ∃ input, value = .ok input ∧ next input = .ok result := by
  cases value <;> simp

theorem except_pure_eq_ok {value result : β} :
    (pure value : Except ε β) = .ok result ↔ value = result := by
  simp

theorem except_throw_ne_ok : (throw cause : Except ε γ) ≠ .ok result := by
  simp

@[simp]
theorem except_mapError_ok (result : γ) (wording : ε → δ) :
    (Except.ok result : Except ε γ).mapError wording = .ok result :=
  rfl

@[simp]
theorem except_mapError_error (cause : ε) (wording : ε → δ) :
    (Except.error cause : Except ε γ).mapError wording = .error (wording cause) :=
  rfl

@[simp]
theorem except_mapError_eq_ok {value : Except ε γ} {wording : ε → δ} :
    value.mapError wording = .ok result ↔ value = .ok result := by
  cases value <;> simp

end Outcomes

/-! ## Readings within operations -/

section Readings

variable {ε β : Type} {reading : Except Fault β} {result : β} {cause : ε}

/-- A reading that is part of an operation succeeds as it does on its own. -/
@[simp]
theorem lift_eq_ok :
    (liftM reading : Except (Failure ε) β) = .ok result ↔ reading = .ok result :=
  except_mapError_eq_ok

/-- A reading that is part of an operation may be a fault of it, and is no reason to refuse it. -/
theorem lift_ne_error : (liftM reading : Except (Failure ε) β) ≠ .error (.error cause) := by
  intro refused
  cases reading with
  | error fault => cases refused
  | ok result => cases refused

end Readings

/-! ## States -/

section States

variable {ε σ β γ : Type} {state middle final : σ} {first : EStateM ε σ β} {answer : β}
  {failure : ε} {result : γ}

theorem bind_of_ok (next : β → EStateM ε σ γ) (done : first state = .ok answer middle) :
    (first >>= next) state = next answer middle := by
  simp only [bind, EStateM.bind, done]

theorem bind_of_error (next : β → EStateM ε σ γ) (failed : first state = .error failure middle) :
    (first >>= next) state = .error failure middle := by
  simp only [bind, EStateM.bind, failed]

theorem bind_eq_ok_iff {next : β → EStateM ε σ γ} :
    (first >>= next) state = .ok result final ↔
      ∃ answer middle, first state = .ok answer middle ∧ next answer middle = .ok result final := by
  cases begun : first state with
  | ok answer middle =>
      rw [bind_of_ok next begun]
      constructor
      · intro done
        exact ⟨answer, middle, rfl, done⟩
      · intro steps
        obtain ⟨_, _, same, done⟩ := steps
        cases same
        exact done
  | error failure middle =>
      rw [bind_of_error next begun]
      constructor
      · intro done
        cases done
      · intro steps
        obtain ⟨_, _, same, _⟩ := steps
        cases same

end States

end QuantNet
