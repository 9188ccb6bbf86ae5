import Mathlib.Data.List.Basic

/-!
# Partial computations that log what they do

A `Logged` computation appends events to a log and may fail, in which case the log has what was done
before the failure. Forgetting the log leaves a computation in `Option` (`value_bind`), and a
property of all events is proved one step at a time (`All.bind`), with the result of each step at
hand for the next one.
-/

/-- The events of a computation and its result, if it has one. -/
structure Logged (ε α : Type) where
  log : List ε
  value : Option α

namespace Logged

variable {ε α β : Type}

/-- Run a computation, and then the rest on its result. -/
protected def bind (x : Logged ε α) (f : α → Logged ε β) : Logged ε β :=
  match x.value with
  | none => { log := x.log, value := none }
  | some a => { log := x.log ++ (f a).log, value := (f a).value }

instance : Monad (Logged ε) where
  pure a := { log := [], value := some a }
  bind := Logged.bind

/-- Log an event and return a value. -/
def emit (e : ε) (a : α) : Logged ε α := { log := [e], value := some a }

/-- Fail without an event. -/
def fail : Logged ε α := { log := [], value := none }

@[simp] theorem value_pure (a : α) : (pure a : Logged ε α).value = some a := rfl

@[simp] theorem value_emit (e : ε) (a : α) : (emit e a).value = some a := rfl

@[simp] theorem value_fail : (fail : Logged ε α).value = none := rfl

@[simp] theorem value_bind (x : Logged ε α) (f : α → Logged ε β) :
    (x >>= f).value = x.value.bind fun a => (f a).value := by
  show (x.bind f).value = _
  unfold Logged.bind
  cases x.value <;> rfl

@[simp] theorem value_ite (c : Prop) [Decidable c] (x y : Logged ε α) :
    (if c then x else y).value = if c then x.value else y.value := apply_ite value c x y

/-- Every event of a computation has the property. -/
def All (p : ε → Prop) (x : Logged ε α) : Prop := ∀ e ∈ x.log, p e

variable {p : ε → Prop}

theorem All.pure (a : α) : All p (Pure.pure a : Logged ε α) := by
  intro e he
  cases he

theorem All.emit {e : ε} (he : p e) (a : α) : All p (emit e a) := by
  intro e' he'
  rw [List.mem_singleton.mp he']
  exact he

theorem All.fail : All p (fail : Logged ε α) := by
  intro e he
  cases he

/-- One step, and the rest for each result of that step. -/
theorem All.bind {x : Logged ε α} {f : α → Logged ε β} (hx : All p x)
    (hf : ∀ a, x.value = some a → All p (f a)) : All p (x >>= f) := by
  show All p (x.bind f)
  unfold Logged.bind
  cases hvalue : x.value with
  | none => exact hx
  | some a =>
      intro e he
      rcases List.mem_append.mp he with he | he
      · exact hx e he
      · exact hf a hvalue e he

end Logged
