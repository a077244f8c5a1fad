-- SUMMARY: Fallible operations on a mutable state: peeling lemmas.
import Mathlib.Data.List.Basic

/-!
# Fallible operations on a mutable state

A call that takes a state by mutable reference and answers a value or an error is an action of
`EStateM ε σ`: an error keeps the writes made before it. The lemmas below take a sequence of such
calls apart by its outcome.
-/

namespace Fallible

variable {ε σ α β : Type}

/-- The value of an option, or the given error. -/
def okOr (o : Option α) (e : ε) : EStateM ε σ α :=
  match o with
  | some a => pure a
  | none => throw e

theorem result_bind_eq_ok {x : Except ε α} {f : α → Except ε β} {b : β} :
    (x >>= f) = .ok b ↔ ∃ a, x = .ok a ∧ f a = .ok b := by
  cases x with
  | error e =>
    constructor
    · intro h
      cases h
    · rintro ⟨a, h, -⟩
      cases h
  | ok a =>
    constructor
    · intro h
      exact ⟨a, rfl, h⟩
    · rintro ⟨a, h, hf⟩
      cases h
      exact hf

/-- A check in front of a result lets exactly its own success through. -/
theorem check_bind_eq_ok {x : Except ε Unit} {f : Unit → Except ε α} {a : α} :
    (x >>= f) = .ok a ↔ x = .ok () ∧ f () = .ok a := by
  rw [result_bind_eq_ok]
  constructor
  · rintro ⟨u, hx, hf⟩
    exact ⟨hx, hf⟩
  · rintro ⟨hx, hf⟩
    exact ⟨(), hx, hf⟩

/-- Goes on only if the condition holds. -/
def ensure (c : Prop) [Decidable c] (e : ε) : EStateM ε σ PUnit :=
  if c then pure ⟨⟩ else throw e

/-! ## Running the primitive calls -/

theorem run_get_bind (f : σ → EStateM ε σ α) (s : σ) : (get >>= f).run s = (f s).run s := rfl

theorem run_okOr_some_bind (a : α) (e : ε) (f : α → EStateM ε σ β) (s : σ) :
    (okOr (some a) e >>= f).run s = (f a).run s := rfl

theorem run_ensure_bind (c : Prop) [Decidable c] (e : ε) (f : PUnit → EStateM ε σ α) (s : σ) :
    (ensure c e >>= f).run s = if c then (f ⟨⟩).run s else .error e s := by
  unfold ensure
  split <;> rfl

/-! ## Outcomes of a sequence -/

theorem run_bind_of_ok {x : EStateM ε σ α} {f : α → EStateM ε σ β} {s t : σ} {a : α}
    (h : x.run s = .ok a t) : (x >>= f).run s = (f a).run t := by
  rw [EStateM.run_bind, h]

theorem run_bind_of_error {x : EStateM ε σ α} {f : α → EStateM ε σ β} {s t : σ} {e : ε}
    (h : x.run s = .error e t) : (x >>= f).run s = .error e t := by
  rw [EStateM.run_bind, h]

/-! ## States left behind -/

/-- The state a call leaves, whatever it answers. -/
def finalState : EStateM.Result ε σ α → σ
  | .ok _ t => t
  | .error _ t => t

@[simp] theorem finalState_ok (a : α) (t : σ) :
    finalState (.ok a t : EStateM.Result ε σ α) = t := rfl

@[simp] theorem finalState_error (e : ε) (t : σ) :
    finalState (.error e t : EStateM.Result ε σ α) = t := rfl

end Fallible
