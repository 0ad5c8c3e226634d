/-!
# Steps that may fail

Equations for sequences of steps that end with a value or with a fault.
-/

namespace PocketCalculator

variable {ε ε' α β : Type}

@[simp] theorem ok_bind (a : α) (f : α → Except ε β) : (Except.ok a >>= f) = f a := rfl

@[simp] theorem error_bind (e : ε) (f : α → Except ε β) :
    ((Except.error e : Except ε α) >>= f) = .error e := rfl

@[simp] theorem ok_map (f : α → β) (a : α) : (f <$> (Except.ok a : Except ε α)) = .ok (f a) := rfl

@[simp] theorem error_map (f : α → β) (e : ε) :
    (f <$> (Except.error e : Except ε α)) = .error e := rfl

theorem bind_ok_eq (x : Except ε α) : (do let y ← x; .ok y) = x := by
  cases x with
  | error e => rfl
  | ok a => rfl

theorem bind_eq_ok {x : Except ε α} {f : α → Except ε β} {b : β} :
    (x >>= f) = .ok b ↔ ∃ a, x = .ok a ∧ f a = .ok b := by
  cases x with
  | error e => simp
  | ok a => simp

theorem map_eq_ok {x : Except ε α} {f : α → β} {b : β} :
    (f <$> x) = .ok b ↔ ∃ a, x = .ok a ∧ f a = b := by
  cases x with
  | error e => simp
  | ok a => simp

theorem mapError_eq_ok {x : Except ε α} {f : ε → ε'} {a : α} :
    x.mapError f = .ok a ↔ x = .ok a := by
  cases x with
  | error e =>
    show Except.error (f e) = .ok a ↔ _
    simp
  | ok b =>
    show Except.ok b = .ok a ↔ _
    simp

theorem toOption_eq_some {x : Except ε α} {a : α} : x.toOption = some a ↔ x = .ok a := by
  cases x with
  | error e => simp [Except.toOption]
  | ok b => simp [Except.toOption]

theorem bind_eq_error {x : Except ε α} {f : α → Except ε β} {e : ε} :
    (x >>= f) = .error e ↔ x = .error e ∨ ∃ a, x = .ok a ∧ f a = .error e := by
  cases x with
  | error e => simp
  | ok a => simp

/-! ### What an outcome satisfies -/

/-- A value satisfies `P`, a failure `Q`. -/
def Ensures (x : Except ε α) (P : α → Prop) (Q : ε → Prop) : Prop :=
  match x with
  | .ok a => P a
  | .error e => Q e

namespace Ensures

variable {x : Except ε α} {P : α → Prop} {Q : ε → Prop}

theorem of_ok {a : α} (h : Ensures x P Q) (hx : x = .ok a) : P a := by
  subst hx
  exact h

theorem of_error {e : ε} (h : Ensures x P Q) (hx : x = .error e) : Q e := by
  subst hx
  exact h

theorem intro (hok : ∀ a, x = .ok a → P a) (herror : ∀ e, x = .error e → Q e) :
    Ensures x P Q := by
  cases x with
  | error e => exact herror e rfl
  | ok a => exact hok a rfl

theorem bind {f : α → Except ε β} {R : β → Prop} (h : Ensures x P Q)
    (hf : ∀ a, P a → Ensures (f a) R Q) : Ensures (x >>= f) R Q := by
  cases x with
  | error e => exact h
  | ok a => exact hf a h

theorem map {f : α → β} {R : β → Prop} (h : Ensures x P Q) (hf : ∀ a, P a → R (f a)) :
    Ensures (f <$> x) R Q := by
  cases x with
  | error e => exact h
  | ok a => exact hf a h

end Ensures

end PocketCalculator
