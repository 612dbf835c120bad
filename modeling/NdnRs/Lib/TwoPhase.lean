import Mathlib.Logic.Function.Basic
import NdnRs.Lib.Run

/-!
# Look, then act

Threads share a state without a lock around their operations: an operation looks at the state and,
in a later step, acts on what it saw. When operations on one key do not overlap, what an operation
saw is still there when it acts.
-/

namespace TwoPhase

variable {T S Op K V : Type} [DecidableEq T]

/-- The shared state, and the operation between its two steps of each thread, with what it saw. -/
structure State (T S Op V : Type) where
  shared : S
  pending : T → Option (Op × V)

def idle (shared : S) : State T S Op V := ⟨shared, fun _ => none⟩

inductive Event (T Op : Type) where
  | look (t : T) (op : Op)
  | act (t : T)

/-- One step. An operation that has nothing to do ends with its look; a thread runs one operation at
a time. -/
def step (look : S → Op → Option V) (act : S → Op → V → S) (s : State T S Op V) :
    Event T Op → State T S Op V
  | .look t op =>
    if (s.pending t).isSome then s
    else { s with pending := Function.update s.pending t ((look s.shared op).map (op, ·)) }
  | .act t =>
    match s.pending t with
    | none => s
    | some (op, v) => ⟨act s.shared op v, Function.update s.pending t none⟩

/-- No operation looks while another one on its key is between its steps. -/
def Exclusive (key : Op → K) (s : State T S Op V) : Event T Op → Prop
  | .look _ op => ∀ t op' v, s.pending t = some (op', v) → key op' ≠ key op
  | .act _ => True

/-- What operations between their steps saw is still there, and they are on different keys. -/
structure Current (key : Op → K) (look : S → Op → Option V) (s : State T S Op V) : Prop where
  seen : ∀ t op v, s.pending t = some (op, v) → look s.shared op = some v
  apart : ∀ t t' op op' v v', s.pending t = some (op, v) → s.pending t' = some (op', v') →
    key op = key op' → t = t'

variable {key : Op → K} {look : S → Op → Option V} {act : S → Op → V → S} {s : State T S Op V}

@[simp] lemma shared_step_look (t : T) (op : Op) :
    (step look act s (.look t op)).shared = s.shared := by
  simp only [step]
  split <;> rfl

lemma shared_step_act (t : T) : (step look act s (.act t)).shared =
    (s.pending t).elim s.shared fun p => act s.shared p.1 p.2 := by
  simp only [step]
  cases s.pending t <;> rfl

section

variable (hloc : ∀ s op v op', key op ≠ key op' → look (act s op v) op' = look s op')
include hloc

lemma Current.step (h : Current key look s) {e : Event T Op} (hexcl : Exclusive key s e) :
    Current key look (step look act s e) := by
  cases e with
  | look t op =>
    by_cases hbusy : (s.pending t).isSome
    · simpa [TwoPhase.step, hbusy] using h
    -- the new operation saw what is there, and no other one has its key
    have hcas : ∀ t' op' v, (TwoPhase.step look act s (.look t op)).pending t' = some (op', v) →
        (t' = t ∧ op' = op ∧ look s.shared op = some v) ∨
          (t' ≠ t ∧ s.pending t' = some (op', v)) := by
      intro t' op' v hp
      by_cases ht : t' = t
      · subst ht
        simp only [TwoPhase.step, hbusy, Bool.false_eq_true, if_false, Function.update_self,
          Option.map_eq_some_iff, Prod.mk.injEq] at hp
        obtain ⟨_, hlook, rfl, rfl⟩ := hp
        exact .inl ⟨rfl, rfl, hlook⟩
      · exact .inr ⟨ht, by simpa [TwoPhase.step, hbusy, ht] using hp⟩
    refine ⟨fun t' op' v hp => ?_, fun t₁ t₂ op₁ op₂ v₁ v₂ h₁ h₂ hkey => ?_⟩
    · rw [shared_step_look]
      rcases hcas t' op' v hp with ⟨-, rfl, hlook⟩ | ⟨-, hold⟩
      · exact hlook
      · exact h.seen t' op' v hold
    · rcases hcas _ _ _ h₁ with ⟨rfl, rfl, -⟩ | ⟨-, hold₁⟩ <;>
        rcases hcas _ _ _ h₂ with ⟨rfl, rfl, -⟩ | ⟨-, hold₂⟩
      · rfl
      · exact absurd hkey.symm (hexcl _ _ _ hold₂)
      · exact absurd hkey (hexcl _ _ _ hold₁)
      · exact h.apart _ _ _ _ _ _ hold₁ hold₂ hkey
  | act t =>
    cases hp : s.pending t with
    | none => simpa [TwoPhase.step, hp] using h
    | some p =>
      obtain ⟨op, v⟩ := p
      have hcas : ∀ t' op' v', (TwoPhase.step look act s (.act t)).pending t' = some (op', v') →
          t' ≠ t ∧ s.pending t' = some (op', v') := by
        intro t' op' v'
        by_cases ht : t' = t <;> simp [TwoPhase.step, hp, ht]
      refine ⟨fun t' op' v' hp' => ?_, fun t₁ t₂ op₁ op₂ v₁ v₂ h₁ h₂ hkey => ?_⟩
      · obtain ⟨hne, hold⟩ := hcas _ _ _ hp'
        rw [shared_step_act, hp, Option.elim_some,
            hloc _ _ _ _ fun hkey => hne (h.apart _ _ _ _ _ _ hold hp hkey.symm)]
        exact h.seen _ _ _ hold
      · exact h.apart _ _ _ _ _ _ (hcas _ _ _ h₁).2 (hcas _ _ _ h₂).2 hkey

/-- **Runs without overlap.** At every point of a run in which operations on one key do not overlap,
what the operations between their steps saw is still there. -/
theorem current_of_admits {shared : S} {events : List (Event T Op)}
    (h : Run.Admits (step look act) (Exclusive key) (idle shared) events) :
    Current key look (events.foldl (step look act) (idle shared)) :=
  h.foldl_induction ⟨nofun, nofun⟩ fun _ _ _ hs hexcl => hs.step hloc hexcl

end

end TwoPhase
