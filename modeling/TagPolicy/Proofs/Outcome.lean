/-!
Steps that may fail, taken apart: a chain of steps succeeds exactly when each of them does.
-/

namespace TagPolicy.Outcome

variable {ε α β : Type}

theorem bind_eq_ok {first : Except ε α} {next : α → Except ε β} {result : β} :
    (first >>= next) = .ok result ↔ ∃ value, first = .ok value ∧ next value = .ok result := by
  cases first with
  | error fault => simp [bind, Except.bind]
  | ok value => simp [bind, Except.bind]

theorem map_eq_ok {first : Except ε α} {next : α → β} {result : β} :
    first.map next = .ok result ↔ ∃ value, first = .ok value ∧ next value = result := by
  cases first with
  | error fault => simp [Except.map]
  | ok value => simp [Except.map]

@[simp] theorem ok_bind {value : α} {next : α → Except ε β} :
    ((Except.ok value : Except ε α) >>= next) = next value := rfl

@[simp] theorem pure_eq_ok {value result : α} :
    (pure value : Except ε α) = .ok result ↔ value = result := by
  simp [pure, Except.pure]

theorem eq_ok_of_toOption {outcome : Except ε α} {result : α}
    (same : outcome.toOption = some result) : outcome = .ok result := by
  cases outcome with
  | error fault => cases same
  | ok value =>
      cases same
      rfl

def Ensures (good : α → Prop) : Except ε α → Prop
  | .ok value => good value
  | .error _ => True

end TagPolicy.Outcome
