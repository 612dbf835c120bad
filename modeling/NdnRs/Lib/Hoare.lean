import Mathlib.Tactic

/-!
# Pre- and postconditions of stateful programs that can fail

A program changes a state and ends with a result or with an error; an error keeps the state as the
program left it. A triple says what holds of the result and the state at the end, and what holds of
the error and the state it leaves behind: the second part is what a caller can rely on after a
program has been stopped half way.
-/

namespace Hoare

universe u

variable {ε σ α β : Type u}

/-- From every state with `P`, the program ends with a result and a state that meet `Q`, or with an
error and a state that meet `E`. -/
def Triple (P : σ → Prop) (x : EStateM ε σ α) (Q : α → σ → Prop) (E : ε → σ → Prop) : Prop :=
  ∀ s, P s →
    match x s with
    | .ok a s' => Q a s'
    | .error e s' => E e s'

namespace Triple

variable {P : σ → Prop} {Q Q' : α → σ → Prop} {E E' : ε → σ → Prop} {x : EStateM ε σ α} {s s' : σ}
  {a : α} {e : ε}

lemma of_ok (h : Triple P x Q E) (hs : P s) (hx : x s = .ok a s') : Q a s' := by
  have := h s hs
  rwa [hx] at this

lemma of_error (h : Triple P x Q E) (hs : P s) (hx : x s = .error e s') : E e s' := by
  have := h s hs
  rwa [hx] at this

lemma pure (h : ∀ s, P s → Q a s) : Triple P (.pure a : EStateM ε σ α) Q E :=
  h

lemma modify {f : σ → σ} {Q : PUnit → σ → Prop} (h : ∀ s, P s → Q ⟨⟩ (f s)) :
    Triple P (modifyGet (fun s => (.unit, f s)) : EStateM ε σ PUnit) Q E :=
  h

/-- **Sequences.** What the first program ensures is what the second may assume. -/
theorem bind {R : α → σ → Prop} {f : α → EStateM ε σ β} {Q : β → σ → Prop}
    (hx : Triple P x R E) (hf : ∀ a, Triple (R a) (f a) Q E) : Triple P (x >>= f) Q E := by
  intro s hs
  have hxs := hx s hs
  have hbind : (x >>= f) s = EStateM.bind x f s := rfl
  rw [hbind, EStateM.bind]
  cases hcase : x s with
  | ok a s' =>
    rw [hcase] at hxs
    exact hf a s' hxs
  | error e s' =>
    rw [hcase] at hxs
    exact hxs

/-- The state can be read before a program is run. -/
theorem get {f : σ → EStateM ε σ β} {Q : β → σ → Prop}
    (h : ∀ t, P t → Triple (fun s => s = t) (f t) Q E) : Triple P (.get >>= f) Q E := by
  intro s hs
  exact h s hs s rfl

lemma forall_state (h : ∀ t, P t → Triple (fun s => s = t) x Q E) : Triple P x Q E :=
  fun s hs => h s hs s rfl

/-- **Branches.** -/
theorem ite {c : Prop} [Decidable c] {y : EStateM ε σ α} (hx : c → Triple P x Q E)
    (hy : ¬ c → Triple P y Q E) : Triple P (if c then x else y) Q E := by
  split_ifs with hc
  · exact hx hc
  · exact hy hc

lemma assume {φ : Prop} (h : φ → Triple P x Q E) : Triple (fun s => φ ∧ P s) x Q E :=
  fun s hs => h hs.1 s hs.2

/-- **Consequence.** -/
theorem consequence {P' : σ → Prop} (h : Triple P x Q E) (hP : ∀ s, P' s → P s)
    (hQ : ∀ a s, Q a s → Q' a s) (hE : ∀ e s, E e s → E' e s) : Triple P' x Q' E' := by
  intro s hs
  have hxs := h s (hP s hs)
  cases hcase : x s with
  | ok a s' =>
    rw [hcase] at hxs
    exact hQ a s' hxs
  | error e s' =>
    rw [hcase] at hxs
    exact hE e s' hxs

end Triple

end Hoare
