import Mathlib.Tactic

/-!
# Fallible computations

How an `Except` computation that succeeded is taken apart: the lemmas peel a `do` block one
step at a time, so that proofs about decoders never unfold the monad.
-/

namespace Except

universe u v

variable {ε δ : Type v} {α β : Type u}

@[simp] lemma ok_bind (a : α) (f : α → Except ε β) : (Except.ok a >>= f) = f a := rfl

@[simp] lemma error_bind (e : ε) (f : α → Except ε β) :
    ((.error e : Except ε α) >>= f) = .error e := rfl

variable {x : Except ε α} {c : Prop} {e : ε}

lemma bind_eq_ok_iff {f : α → Except ε β} {b : β} :
    (x >>= f) = .ok b ↔ ∃ a, x = .ok a ∧ f a = .ok b := by
  cases x with
  | error e => simp
  | ok a => simp

@[simp] lemma pure_eq_ok (a : α) : (pure a : Except ε α) = .ok a := rfl

@[simp] lemma mapError_eq_ok_iff {g : ε → δ} {a : α} : x.mapError g = .ok a ↔ x = .ok a := by
  cases x <;> simp [Except.mapError]

lemma toOption_eq_some_iff {a : α} : x.toOption = some a ↔ x = .ok a := by
  cases x <;> simp [Except.toOption]

/-- Fail with `e` unless `c` holds. -/
def ensure (c : Prop) [Decidable c] (e : ε) : Except ε Unit :=
  if c then .ok () else .error e

@[simp] lemma ensure_eq_ok_iff [Decidable c] {u : Unit} : ensure c e = .ok u ↔ c := by
  unfold ensure
  split_ifs with h <;> simp [h]

@[simp] lemma ensure_of [Decidable c] (h : c) : ensure c e = (.ok () : Except ε Unit) := if_pos h

end Except
