import NdnRs.Lib.TwoPhase
import NdnRs.Wire.Name

/-!
# One-time tokens (`ndn-cert/src/challenge/token.rs`)

`check_and_consume` reads a token under one access to the shared map and removes it under another,
without looking at what the removal returns.

## Main results

* `redeemed_once` — a token is accepted once, if its calls do not overlap.
-/

namespace NdnRs

open List Function

structure TokenMeta where
  expiresAtNs : Option ℕ
  scope : Option Name

inductive TokenCheck where
  | ok
  | notFound
  | expired
  | outOfScope (scope : Name)
  deriving DecidableEq

/-- A call of `consume_for`, or of `consume`, which has no request name, with the time it reads. -/
structure TokenCall where
  token : Str
  nowNs : ℕ
  requestName : Option Name
  deriving DecidableEq

/-- The shared map, and beside it the calls that were answered `Ok`. -/
structure TokenStore where
  tokens : Str → Option TokenMeta
  redeemed : List TokenCall

/-- A request name that a token is good for. -/
def TokenMeta.InScope (self : TokenMeta) (requestName : Option Name) : Prop :=
  ∀ scope, self.scope = some scope → ∃ name, requestName = some name ∧ scope <+: name

/-- The decision of `check_and_consume` on the token that it read. -/
def TokenMeta.check (self : TokenMeta) (call : TokenCall) : TokenCheck :=
  if self.expiresAtNs.any (· < call.nowNs) then .expired
  else
    match self.scope with
    | none => .ok
    | some scope =>
      if call.requestName.any (·.hasPrefix scope) then .ok else .outOfScope scope

lemma TokenMeta.inScope_of_check {self : TokenMeta} {call : TokenCall} (h : self.check call = .ok) :
    self.InScope call.requestName := by
  intro scope hscp
  simp only [check, hscp] at h
  split_ifs at h with _ hpre
  obtain ⟨name, hname, hpre⟩ := (Option.any_eq_true ..).1 hpre
  exact ⟨name, hname, Name.hasPrefix_iff.1 hpre⟩

namespace TokenStore

/-- The first access of `check_and_consume`: the answer, if the token is then removed. -/
def lookup (self : TokenStore) (call : TokenCall) : Option TokenCheck :=
  ((self.tokens call.token).map (·.check call)).filter fun c => c = .ok || c = .expired

/-- The second access of `check_and_consume`. -/
def remove (self : TokenStore) (call : TokenCall) (check : TokenCheck) : TokenStore where
  tokens := update self.tokens call.token none
  redeemed := if check = .ok then self.redeemed ++ [call] else self.redeemed

open TwoPhase

variable {T : Type} [DecidableEq T]

/-- A token store and the calls between their accesses. -/
abbrev Redeeming (T : Type) := TwoPhase.State T TokenStore TokenCall TokenCheck

abbrev redeemStep : Redeeming T → Event T TokenCall → Redeeming T := TwoPhase.step lookup remove

/-- What the table, the calls between their accesses and the answers have of the tokens added. -/
structure FromAdded (added : Str → Option TokenMeta) (s : Redeeming T) : Prop where
  tokens : ∀ token m, s.shared.tokens token = some m → added token = some m
  pending : ∀ t call, s.pending t = some (call, .ok) →
    ∃ m, added call.token = some m ∧ m.InScope call.requestName
  redeemed : ∀ call ∈ s.shared.redeemed, ∃ m, added call.token = some m ∧ m.InScope call.requestName

variable {s : Redeeming T}

lemma FromAdded.step {added : Str → Option TokenMeta} (h : FromAdded added s)
    (e : Event T TokenCall) : FromAdded added (redeemStep s e) := by
  cases e with
  | look t call =>
    simp only [redeemStep, TwoPhase.step]
    split
    · exact h
    refine ⟨h.tokens, fun t' call' hp => ?_, h.redeemed⟩
    by_cases ht : t' = t
    · simp only [ht, update_self, Option.map_eq_some_iff, Prod.mk.injEq] at hp
      obtain ⟨_, hlook, rfl, rfl⟩ := hp
      obtain ⟨m, hm, hchk⟩ :=
        Option.map_eq_some_iff.1 (Option.eq_some_of_filter_eq_some hlook)
      exact ⟨m, h.tokens _ _ hm, m.inScope_of_check hchk⟩
    · exact h.pending t' call' (by simpa [ht] using hp)
  | act t =>
    cases hp : s.pending t with
    | none => simpa [TwoPhase.step, hp] using h
    | some p =>
      obtain ⟨call, check⟩ := p
      simp only [redeemStep, TwoPhase.step, hp]
      refine ⟨fun token m hm => ?_, fun t' call' hp' => ?_, fun call' hmem => ?_⟩
      · by_cases htok : token = call.token
        · simp [remove, htok] at hm
        · exact h.tokens token m (by simpa [remove, htok] using hm)
      · by_cases ht : t' = t
        · simp [ht] at hp'
        · exact h.pending t' call' (by simpa [ht] using hp')
      simp only [remove] at hmem
      split_ifs at hmem with hok
      · rcases mem_append.1 hmem with hmem | hmem
        · exact h.redeemed call' hmem
        · rw [mem_singleton.1 hmem]
          exact h.pending t call (hok ▸ hp)
      · exact h.redeemed call' hmem

/-- The tokens of answered calls are gone from the table, and were answered once. -/
structure Spent (s : Redeeming T) : Prop where
  gone : ∀ call ∈ s.shared.redeemed, s.shared.tokens call.token = none
  nodup : (s.shared.redeemed.map TokenCall.token).Nodup

lemma Spent.step (h : Spent s) (hcur : Current TokenCall.token lookup s)
    (e : Event T TokenCall) : Spent (redeemStep s e) := by
  cases e with
  | look t call => exact ⟨by simpa using h.gone, by simpa using h.nodup⟩
  | act t =>
    cases hp : s.pending t with
    | none => simpa [TwoPhase.step, hp] using h
    | some p =>
      obtain ⟨call, check⟩ := p
      have hfres : ∀ call' ∈ s.shared.redeemed, call'.token ≠ call.token := by
        intro call' hmem htok
        have hseen := hcur.seen t call check hp
        simp [lookup, ← htok, h.gone call' hmem] at hseen
      have hshar : (redeemStep s (.act t)).shared = s.shared.remove call check := by
        rw [shared_step_act, hp, Option.elim_some]
      constructor <;> rw [hshar] <;> simp only [remove]
      · intro call' hmem
        by_cases htok : call'.token = call.token
        · rw [htok, update_self]
        rw [update_of_ne htok]
        split_ifs at hmem
        · rcases mem_append.1 hmem with hmem | hmem
          · exact h.gone call' hmem
          · exact absurd (mem_singleton.1 hmem ▸ rfl) htok
        · exact h.gone call' hmem
      · split_ifs
        · rw [map_append, map_singleton, ← concat_eq_append]
          refine h.nodup.concat fun hmem => ?_
          obtain ⟨call', hmem', htok⟩ := mem_map.1 hmem
          exact hfres call' hmem' htok
        · exact h.nodup

/-- **Tokens are good in their scope, and once.** In every run, `Ok` is given only to a request name
under the scope of the token as it was added. In every run in which calls for one token do not
overlap, it is given at most once for a token. -/
theorem redeemed_once (added : Str → Option TokenMeta) (events : List (Event T TokenCall)) :
    (∀ call ∈ (events.foldl redeemStep (idle ⟨added, []⟩)).shared.redeemed,
      ∃ m, added call.token = some m ∧ m.InScope call.requestName) ∧
    (Run.Admits redeemStep (Exclusive TokenCall.token) (idle ⟨added, []⟩) events →
      ((events.foldl redeemStep (idle ⟨added, []⟩)).shared.redeemed.map
        TokenCall.token).Nodup) := by
  have hloc : ∀ (store : TokenStore) (call : TokenCall) (check : TokenCheck) (call' : TokenCall),
      call.token ≠ call'.token → (store.remove call check).lookup call' = store.lookup call' := by
    intro store call check call' htok
    simp [lookup, remove, htok.symm]
  constructor
  · have hfrom : FromAdded added (events.foldl redeemStep (idle ⟨added, []⟩)) :=
      foldlRecOn _ _ ⟨fun _ _ h => h, nofun, nofun⟩ fun s hs e _ => hs.step e
    exact hfrom.redeemed
  intro h
  have hinv := h.foldl_induction
    (motive := fun s => Current TokenCall.token lookup s ∧ Spent s)
    ⟨⟨nofun, nofun⟩, nofun, nodup_nil⟩
    fun s e _ hs hexcl => ⟨hs.1.step hloc hexcl, hs.2.step hs.1 e⟩
  exact hinv.2.nodup

namespace Sample

/-- The token `t`, without a scope and without an end. -/
def added (token : Str) : Option TokenMeta := if token = ['t'] then some ⟨none, none⟩ else none

def call : TokenCall := ⟨['t'], 0, none⟩

def start : Redeeming Bool := idle ⟨added, []⟩

end Sample

open Sample in
/-- `redeemed_once` for two calls for one token, one after the other. -/
theorem redeemed_once_apart :
    Run.Admits redeemStep (Exclusive TokenCall.token) start
      [.look true call, .act true, .look false call, .act false] ∧
    (([.look true call, .act true, .look false call, .act false].foldl redeemStep
      start).shared.redeemed.map TokenCall.token).Nodup := by
  have hadm : Run.Admits redeemStep (Exclusive TokenCall.token) start
      [.look true call, .act true, .look false call, .act false] := by
    refine ⟨nofun, trivial, ?_, trivial, trivial⟩
    rintro (_ | _) op v hpending <;> cases hpending
  exact ⟨hadm, (redeemed_once added _).2 hadm⟩

open Sample in
/-- **A token redeemed twice.** Both calls find the token before either removes it. -/
theorem redeemed_twice :
    ([.look true call, .look false call, .act true, .act false].foldl redeemStep
      start).shared.redeemed = [call, call] := by
  decide

end TokenStore

end NdnRs
