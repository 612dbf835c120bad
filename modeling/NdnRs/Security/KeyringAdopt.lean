import NdnRs.Lib.TwoPhase
import NdnRs.Security.TrustContext

/-!
# Adopting contexts concurrently (`ndn-security/src/keyring.rs`)

`adopt` compares versions under one access to the map and inserts under another, so that a second
thread can insert in between.

## Main results

* `adopt_advances` — versions go up, if calls do not overlap.
-/

namespace NdnRs.Keyring

def versionOf (self : Keyring) (ns : Name) : Option ℕ := (self.get? ns).map (·.version)

/-- The first access of `adopt`: a context older than the held one is refused. -/
def checkVersion (self : Keyring) (ctx : SignedTrustContext) : Option Unit :=
  if (self.get? ctx.ns).any (ctx.version < ·.version) then none else some ()

/-- The second access of `adopt`, which then returns `true`. -/
def insertChecked (self : Keyring) (ctx : SignedTrustContext) (_ : Unit) : Keyring :=
  self.insert ctx

variable (self : Keyring)

/-- The two accesses of a call, one right after the other, are `adopt`. -/
lemma adopt_eq (ctx : SignedTrustContext) :
    self.adopt ctx = ((self.checkVersion ctx).map (self.insertChecked ctx)).getD self := by
  unfold adopt checkVersion insertChecked
  cases self.get? ctx.ns with
  | none => simp
  | some held => by_cases h : ctx.version < held.version <;> simp [h]

lemma get?_insert_self (ctx : SignedTrustContext) : (self.insert ctx).get? ctx.ns = some ctx := by
  simp [get?, insert]

lemma get?_insert_of_ne {ctx : SignedTrustContext} {ns : Name} (h : ctx.ns ≠ ns) :
    (self.insert ctx).get? ns = self.get? ns := by
  rw [get?, get?, insert, List.find?_cons_of_neg (by simpa using h), List.find?_filter]
  congr 1
  funext other
  by_cases hns : other.ns = ns
  · simp [hns, Ne.symm h]
  · simp [hns]

section

open TwoPhase

variable {T : Type} [DecidableEq T]

/-- A keyring and the calls of `adopt` between their accesses. -/
abbrev Adopting (T : Type) := TwoPhase.State T Keyring SignedTrustContext Unit

abbrev adoptStep : Adopting T → Event T SignedTrustContext → Adopting T :=
  TwoPhase.step checkVersion insertChecked

/-- The step decreases no held version, and a call that inserts, and so returns `true`, replaces no
greater version. -/
def Advances (s : Adopting T) (e : Event T SignedTrustContext) : Prop :=
  (∀ ns v, s.shared.versionOf ns = some v →
      ∃ v', (adoptStep s e).shared.versionOf ns = some v' ∧ v ≤ v') ∧
    ∀ t ctx v, e = .act t → s.pending t = some (ctx, ()) → s.shared.versionOf ctx.ns = some v →
      v ≤ ctx.version

lemma le_version_of_checkVersion {self : Keyring} {ctx : SignedTrustContext} {v : ℕ}
    (h : self.checkVersion ctx = some ()) (hv : self.versionOf ctx.ns = some v) :
    v ≤ ctx.version := by
  obtain ⟨held, hheld, rfl⟩ := Option.map_eq_some_iff.1 hv
  simpa [checkVersion, hheld] using h

/-- **Anti-rollback.** In every run in which calls of `adopt` on one namespace do not overlap, no
step decreases the version held for a namespace, and no call replaces a greater version. -/
theorem adopt_advances (self : Keyring) (events : List (Event T SignedTrustContext))
    (e : Event T SignedTrustContext)
    (h : Run.Admits adoptStep (Exclusive SignedTrustContext.ns) (idle self) (events ++ [e])) :
    Advances (events.foldl adoptStep (idle self)) e := by
  have hcur : Current SignedTrustContext.ns checkVersion (events.foldl adoptStep (idle self)) := by
    refine current_of_admits (fun kr ctx _ ctx' hns => ?_) (Run.admits_append.1 h).1
    rw [checkVersion, checkVersion, insertChecked, kr.get?_insert_of_ne hns]
  generalize events.foldl adoptStep (idle self) = s at hcur ⊢
  have hact : ∀ t ctx v, s.pending t = some (ctx, ()) → s.shared.versionOf ctx.ns = some v →
      v ≤ ctx.version := fun t ctx v hp => le_version_of_checkVersion (hcur.seen t ctx () hp)
  refine ⟨fun ns v hv => ?_, fun t ctx v _ => hact t ctx v⟩
  cases e with
  | look t ctx => exact ⟨v, by rwa [shared_step_look], le_rfl⟩
  | act t =>
    rw [shared_step_act]
    cases hp : s.pending t with
    | none => exact ⟨v, hv, le_rfl⟩
    | some p =>
      obtain ⟨ctx, _⟩ := p
      rw [Option.elim_some, insertChecked]
      by_cases hns : ctx.ns = ns
      · subst hns
        exact ⟨ctx.version, by rw [versionOf, get?_insert_self]; rfl, hact t ctx v hp hv⟩
      · exact ⟨v, by rwa [versionOf, get?_insert_of_ne _ hns], le_rfl⟩

namespace Sample

def version (v : ℕ) : SignedTrustContext := { SignedTrustContext.hierarchical [] with version := v }

end Sample

/-- Two calls one after the other. -/
theorem adopt_advances_twice :
    Advances ([.look true (Sample.version 1), .act true, .look false (Sample.version 2)].foldl
      adoptStep (idle Keyring.new)) (.act false) :=
  adopt_advances Keyring.new _ _ ⟨nofun, trivial, nofun, trivial, trivial⟩

/-- **A rollback.** Both calls compare with an empty keyring; the one with the older version inserts
last and returns `true`. -/
theorem rolled_back :
    let s := [.look true (Sample.version 1), .look false (Sample.version 2), .act false].foldl
      adoptStep (idle Keyring.new : Adopting Bool)
    s.shared.versionOf [] = some 2 ∧ (adoptStep s (.act true)).shared.versionOf [] = some 1 := by
  decide

end

end NdnRs.Keyring
