import NdnRs.Forwarding.PitMatch

/-!
# The in-records of a PIT entry

What the table holds grows in one place only: where an Interest is entered. So a property of entries
that survives the loss of records holds all along a run iff it survives every Interest that is
entered. Two fail for an Interest that joins a pending classical one: its record is added without a
look at the face's older one, and without extending the entry's deadline.

## Main results

* `covers_iff` — when no record is swept early.
* `onePerFace_iff` — when a face has one record.
-/

namespace NdnRs.Pit

open Bytes List InRecord

open PitCheckStage PitMatchStage

variable {P : Platform}

/-! ## An Interest that is entered -/

section

variable {a : Arrival} {ps : PersistentState} {entry : PitEntry}

lemma onExisting_of_loop (h : isLoop a entry = true) (persistent : Option PersistentState) :
    (onExisting a persistent entry).1 = { entry with forwardCancelled := true } := by
  unfold onExisting
  rw [if_pos h]

lemma onExisting_none (h : isLoop a entry = false) :
    (onExisting a none entry).1 = entry.addInRecordWithPersistent (recordOf a none) := by
  rw [onExisting, if_neg (by rw [h]; exact Bool.false_ne_true)]

lemma onExisting_some_inRecords (h : isLoop a entry = false) :
    (onExisting a (some ps) entry).1.inRecords =
      entry.inRecords.filter (fun r => r.faceId ≠ a.faceId) ++ [recordOf a (some ps)] := by
  rw [onExisting, if_neg (by rw [h]; exact Bool.false_ne_true)]
  rfl

lemma onExisting_some_expiresAt (h : isLoop a entry = false) :
    (onExisting a (some ps) entry).1.expiresAt = max entry.expiresAt ps.reapAt := by
  rw [onExisting, if_neg (by rw [h]; exact Bool.false_ne_true)]
  rfl

lemma onNew_inRecords (a : Arrival) (persistent : Option PersistentState) :
    (onNew a persistent).inRecords = [recordOf a persistent] := by
  cases persistent <;> rfl

lemma mem_entered {pit : Pit} {persistent : Option PersistentState} {r : InRecord}
    (hr : r ∈ (entered P pit a persistent).inRecords) :
    r = recordOf a persistent ∨
      ∃ entry, pit.get (tokenOf P a persistent) = some entry ∧ r ∈ entry.inRecords := by
  unfold entered at hr
  cases hget : pit.get (tokenOf P a persistent) with
  | none =>
    simp only [hget, onNew_inRecords] at hr
    exact .inl (mem_singleton.mp hr)
  | some entry =>
    simp only [hget] at hr
    cases hloop : isLoop a entry with
    | true =>
      rw [onExisting_of_loop hloop] at hr
      exact .inr ⟨entry, rfl, hr⟩
    | false =>
      cases persistent with
      | none =>
        rw [onExisting_none hloop] at hr
        rcases mem_append.mp hr with hold | hnew
        · exact .inr ⟨entry, rfl, hold⟩
        · exact .inl (mem_singleton.mp hnew)
      | some ps =>
        rw [onExisting_some_inRecords hloop] at hr
        rcases mem_append.mp hr with hold | hnew
        · exact .inr ⟨entry, rfl, mem_of_mem_filter hold⟩
        · exact .inl (mem_singleton.mp hnew)

end

/-! ## Properties of all entries -/

def AllEntries (Q : PitEntry → Prop) (pit : Pit) : Prop :=
  ∀ token entry, pit.get token = some entry → Q entry

/-- The Interest joins this pending entry as a classical one. -/
structure Aggregates (P : Platform) (tables : Tables) (a : Arrival) (entry : PitEntry) : Prop where
  reaches : Reaches P tables a none
  get_eq : tables.pit.get (nameToken P (keyName a.interest) .classical) = some entry
  no_loop : isLoop a entry = false

/-- The property survives the loss of records, holds of new entries, survives a subscription, and
survives a classical Interest that joins the entry iff `G` holds. -/
structure Settles (Q : PitEntry → Prop) (G : Arrival → PitEntry → Prop) : Prop where
  kept : ∀ {entry entry'}, Remains entry entry' → Q entry → Q entry'
  new : ∀ a persistent, Q (onNew a persistent)
  renewed : ∀ a ps {entry}, isLoop a entry = false → Q entry → Q (onExisting a (some ps) entry).1
  aggregated : ∀ a {entry}, isLoop a entry = false → Q entry →
    (Q (onExisting a none entry).1 ↔ G a entry)

section

variable {Q : PitEntry → Prop} {G : Arrival → PitEntry → Prop} {pit pit' : Pit} {tables : Tables}

lemma allEntries_empty (dnl : Option DeadNonceList) : AllEntries Q (Tables.empty dnl).pit := by
  intro token entry hget
  cases hget

lemma AllEntries.lose (hQ : ∀ {entry entry'}, Remains entry entry' → Q entry → Q entry')
    (h : AllEntries Q pit) (hl : PitLoses pit pit') : AllEntries Q pit' := by
  intro token entry' hget'
  obtain ⟨entry, hget, hrem⟩ := hl.get token entry' hget'
  exact hQ hrem (h token entry hget)

lemma allEntries_congr (h : pit'.entries = pit.entries) : AllEntries Q pit' ↔ AllEntries Q pit := by
  simp only [AllEntries, Pit.get, h]

lemma allEntries_set_iff (h : AllEntries Q pit) {token : UInt64} {entry : PitEntry} :
    AllEntries Q (pit.set token entry) ↔ Q entry := by
  constructor
  · intro hset
    exact hset token entry (by rw [Pit.get_set, if_pos rfl])
  intro hent token' entry' hget
  rw [Pit.get_set] at hget
  split_ifs at hget with heq
  · cases hget
    exact hent
  · exact h token' entry' hget

variable {a : Arrival} {persistent : Option PersistentState}

lemma Reaches.unique {persistent' : Option PersistentState} (h : Reaches P tables a persistent)
    (h' : Reaches P tables a persistent') : persistent = persistent' :=
  Except.ok.inj (h.passed.symm.trans h'.passed)

/-- **One event.** A property that survives the loss of records holds of every entry after an event
iff it holds of the entry of the Interest. -/
lemma allEntries_step_iff (hQ : ∀ {entry entry'}, Remains entry entry' → Q entry → Q entry')
    (h : AllEntries Q tables.pit) (event : Event) :
    AllEntries Q (step P tables event).pit ↔ ∀ a, event = .interest a → ∀ persistent,
      Reaches P tables a persistent → Q (entered P tables.pit a persistent) := by
  by_cases hintr : ∃ a, event = .interest a
  · obtain ⟨a, rfl⟩ := hintr
    rcases checkProcess_entries (P := P) tables a with ⟨persistent, hrch, hes⟩ | ⟨hnone, hes⟩
    · rw [step, allEntries_congr hes, allEntries_set_iff h]
      constructor
      · rintro hent _ ⟨⟩ persistent' hrch'
        rw [← hrch.unique hrch']
        exact hent
      · intro hall
        exact hall a rfl persistent hrch
    · rw [step, allEntries_congr hes]
      refine iff_of_true h ?_
      rintro _ ⟨⟩ persistent hrch
      exact absurd hrch (hnone persistent)
  · refine iff_of_true ?_ fun a heq => absurd ⟨a, heq⟩ hintr
    exact h.lose hQ (step_loses tables event fun a heq => hintr ⟨a, heq⟩)

/-- The property of an entry survives an event if new entries have it and Interests that join one
leave it. -/
lemma AllEntries.step (hQ : ∀ {entry entry'}, Remains entry entry' → Q entry → Q entry')
    (h : AllEntries Q tables.pit) {event : Event}
    (hevt : ∀ a, event = .interest a → ∀ persistent, Reaches P tables a persistent →
      Q (onNew a persistent) ∧ ∀ entry, tables.pit.get (tokenOf P a persistent) = some entry →
        isLoop a entry = false → Q (onExisting a persistent entry).1) :
    AllEntries Q (step P tables event).pit := by
  refine (allEntries_step_iff hQ h event).mpr fun a ha persistent hrch => ?_
  obtain ⟨hnew, hold⟩ := hevt a ha persistent hrch
  unfold entered
  cases hget : tables.pit.get (tokenOf P a persistent) with
  | none => exact hnew
  | some entry =>
    cases hloop : isLoop a entry with
    | true =>
      simp only
      refine hQ ?_ (h _ entry hget)
      rw [onExisting_of_loop hloop]
      exact ⟨.of_subperm rfl rfl rfl rfl rfl (.refl _), id⟩
    | false => exact hold entry hget hloop

/-- **One event**, for a property that only a classical Interest can break. -/
lemma Settles.step_iff (hs : Settles Q G) (h : AllEntries Q tables.pit) (event : Event) :
    AllEntries Q (step P tables event).pit ↔
      ∀ a entry, event = .interest a → Aggregates P tables a entry → G a entry := by
  constructor
  · intro hall a entry hevt haggr
    have hQ := (allEntries_step_iff hs.kept h event).mp hall a hevt none haggr.reaches
    have htok : tokenOf P a none = nameToken P (keyName a.interest) .classical := rfl
    rw [entered, htok, haggr.get_eq] at hQ
    exact (hs.aggregated a haggr.no_loop (h _ entry haggr.get_eq)).mp hQ
  · intro hall
    refine h.step hs.kept fun a hevt persistent hrch => ⟨hs.new a persistent, ?_⟩
    intro entry hget hloop
    have hent := h _ entry hget
    cases persistent with
    | some ps => exact hs.renewed a ps hloop hent
    | none => exact (hs.aggregated a hloop hent).mpr (hall a entry hevt ⟨hrch, hget, hloop⟩)

/-- **All along a run.** The property holds of all entries after every event iff it is not broken by
an Interest that joins a classical entry. -/
theorem Settles.forall_prefix_iff (hs : Settles Q G) (dnl : Option DeadNonceList)
    (events : List Event) :
    (∀ done, done <+: events → AllEntries Q (done.foldl (step P) (.empty dnl)).pit) ↔
      Run.Admits (step P)
        (fun tables event => ∀ a entry, event = .interest a → Aggregates P tables a entry →
          G a entry) (.empty dnl) events :=
  Run.forall_prefix_iff_admits (s := Tables.empty dnl) (fun _ => True)
    (fun tables => AllEntries Q tables.pit) (fun _ event _ h => hs.step_iff h event)
    (fun _ _ _ _ => trivial) trivial (allEntries_empty dnl) events

end

/-! ## One record per face -/

def OnePerFace (entry : PitEntry) : Prop := (entry.inRecords.map faceId).Nodup

instance (entry : PitEntry) : Decidable (OnePerFace entry) :=
  inferInstanceAs (Decidable (List.Nodup _))

/-- The face of the Interest has no record in the entry. -/
def NewFace (a : Arrival) (entry : PitEntry) : Prop :=
  a.faceId ∉ entry.inRecords.map faceId

lemma onePerFace_settles : Settles OnePerFace NewFace where
  kept := by
    intro entry entry' hl h
    obtain ⟨faces, hperm, hsub⟩ := hl.faces
    exact hperm.nodup_iff.mp (h.sublist hsub)
  new := by
    intro a persistent
    rw [OnePerFace, onNew_inRecords]
    exact nodup_singleton _
  renewed := by
    intro a ps entry hloop h
    rw [OnePerFace, onExisting_some_inRecords hloop, map_append]
    -- the face's older record has gone
    apply List.Nodup.append
    · exact h.sublist (filter_sublist.map _)
    · exact nodup_singleton _
    · simp [recordOf]
  aggregated := by
    intro a entry hloop h
    rw [OnePerFace, onExisting_none hloop, PitEntry.addInRecordWithPersistent, map_append,
      nodup_append_comm]
    exact nodup_cons.trans (and_iff_left h)

/-- The faces of the records are among these. -/
def FacesIn (faces : Finset ℕ) (entry : PitEntry) : Prop :=
  ∀ faceId ∈ entry.inRecords.map InRecord.faceId, faceId ∈ faces

variable {faces : Finset ℕ} {entry : PitEntry} {tables : Tables} {r : InRecord}

lemma FacesIn.remain {entry' : PitEntry} (hl : Remains entry entry')
    (h : FacesIn faces entry) : FacesIn faces entry' :=
  fun faceId hface => h faceId (hl.faces.subset hface)

lemma facesIn_run {events : List Event} (hfac : ∀ a, .interest a ∈ events → a.faceId ∈ faces)
    (h : AllEntries (FacesIn faces) tables.pit) :
    AllEntries (FacesIn faces) (events.foldl (step P) tables).pit := by
  refine foldlRecOn (motive := fun tables => AllEntries (FacesIn faces) tables.pit) events (step P)
    h fun tables h event hevt => (allEntries_step_iff FacesIn.remain h event).mpr ?_
  rintro a rfl persistent - faceId hface
  obtain ⟨r, hr, rfl⟩ := mem_map.mp hface
  rcases mem_entered hr with rfl | ⟨entry, hget, hold⟩
  · exact hfac a hevt
  · exact h _ entry hget _ (mem_map_of_mem hold)

lemma OnePerFace.length_le (h : OnePerFace entry)
    (hfac : FacesIn faces entry) : entry.inRecords.length ≤ faces.card := by
  rw [← length_map InRecord.faceId, ← toFinset_card_of_nodup h]
  refine Finset.card_le_card fun faceId hface => ?_
  exact hfac faceId (mem_toFinset.mp hface)

/-- **When an entry has one record per face.** After every event of a run all entries have at most
one record per face, and so at most as many records as there are faces with Interests, iff no
classical Interest joins an entry in which its face has a record. -/
theorem onePerFace_iff (P : Platform) (dnl : Option DeadNonceList) (events : List Event) :
    (∀ done, done <+: events → ∀ token entry,
      (done.foldl (step P) (.empty dnl)).pit.get token = some entry →
        OnePerFace entry ∧ ∀ faces : Finset ℕ, (∀ a, .interest a ∈ done → a.faceId ∈ faces) →
          entry.inRecords.length ≤ faces.card) ↔
      Run.Admits (step P)
        (fun tables event => ∀ a entry, event = .interest a → Aggregates P tables a entry →
          NewFace a entry) (.empty dnl) events := by
  rw [← onePerFace_settles.forall_prefix_iff dnl events]
  constructor
  · intro hall done hdone token entry hget
    exact (hall done hdone token entry hget).1
  · intro hall done hdone token entry hget
    have hone := hall done hdone token entry hget
    refine ⟨hone, fun faces hfac => hone.length_le ?_⟩
    exact facesIn_run hfac (allEntries_empty dnl) token entry hget

section
open Sample

/-- Face 1 asks for `/a`, and a second later again, with a fresh nonce. -/
def Sample.askAgain : List Event :=
  [.interest (arrival (interest nameA false 7 none) 1 0),
    .interest (arrival (interest nameA false 8 none) 1 1000000000)]

/-- **A retransmission adds a record.** Face 1 asks for `/a` twice, and the entry has two records of
face 1. -/
theorem retransmission_adds_record :
    ∃ entry, (run askAgain).pit.get (nameToken platform nameA .classical) = some entry ∧
      ¬ OnePerFace entry ∧ entry.inRecords.map InRecord.faceId = [1, 1] := by
  all_goals decide

end

/-! ## Deadlines -/

/-- When the record ends: a subscription when it is reaped, any other with its InterestLifetime. -/
def InRecord.deadline (r : InRecord) : ℕ :=
  match r.persistent with
  | some ps => ps.reapAt
  | none => r.expiresAt

def Covers (entry : PitEntry) : Prop := ∀ r ∈ entry.inRecords, r.deadline ≤ entry.expiresAt

instance (entry : PitEntry) : Decidable (Covers entry) :=
  inferInstanceAs (Decidable (∀ _ ∈ _, _))

/-- The Interest ends no later than the entry. -/
def EndsWithin (a : Arrival) (entry : PitEntry) : Prop :=
  a.arrival + lifetimeOf a.interest * 1000000 ≤ entry.expiresAt

lemma InRecord.deadline_of_none (h : r.persistent = none) : r.deadline = r.expiresAt := by
  rw [deadline, h]

lemma InRecord.deadline_of_some {ps : PersistentState} (h : r.persistent = some ps) :
    r.deadline = ps.reapAt := by
  rw [deadline, h]

lemma recordOf_expiresAt (a : Arrival) (persistent : Option PersistentState) :
    (recordOf a persistent).expiresAt = a.arrival + lifetimeOf a.interest * 1000000 := rfl

lemma onNew_none_expiresAt (a : Arrival) :
    (onNew a none).expiresAt = a.arrival + lifetimeOf a.interest * 1000000 := rfl

lemma addInRecord_expiresAt (entry : PitEntry) (r : InRecord) :
    (entry.addInRecordWithPersistent r).expiresAt = entry.expiresAt := rfl

lemma Spent.deadline_eq {r' : InRecord} (h : Spent r r') : r'.deadline = r.deadline := by
  obtain ⟨n, rfl⟩ := h
  unfold deadline
  cases r.persistent <;> rfl

lemma covers_settles : Settles Covers EndsWithin where
  kept := by
    intro entry entry' hl h r' hr'
    obtain ⟨r, hr, hspen⟩ := hl.spent r' hr'
    rw [hspen.deadline_eq, hl.expires_eq]
    exact h r hr
  new := by
    intro a persistent r hr
    rw [onNew_inRecords] at hr
    rw [mem_singleton.mp hr]
    cases persistent with
    | none => rw [deadline_of_none rfl, recordOf_expiresAt, onNew_none_expiresAt]
    | some ps =>
      exact le_refl ps.reapAt
  renewed := by
    intro a ps entry hloop h r hr
    rw [onExisting_some_inRecords hloop] at hr
    rw [onExisting_some_expiresAt hloop]
    rcases mem_append.mp hr with hold | hnew
    · exact le_max_of_le_left (h r (mem_of_mem_filter hold))
    · rw [mem_singleton.mp hnew, deadline_of_some rfl]
      exact le_max_right _ _
  aggregated := by
    intro a entry hloop h
    rw [onExisting_none hloop]
    constructor
    · intro hall
      have hends := hall (recordOf a none) (mem_append_right _ (mem_singleton.mpr rfl))
      rw [deadline_of_none rfl, recordOf_expiresAt, addInRecord_expiresAt] at hends
      exact hends
    · intro hends r hr
      rcases mem_append.mp hr with hold | hnew
      · exact h r hold
      · rw [mem_singleton.mp hnew, deadline_of_none rfl, recordOf_expiresAt]
        exact hends

/-! ### The sweep -/

variable {token : UInt64}

lemma foldl_expireEntry_get (now : ℕ) {tokens : List UInt64}
    (hmem : token ∉ tokens) (tables : Tables) :
    (tokens.foldl (expireEntry P now) tables).pit.get token = tables.pit.get token := by
  induction tokens generalizing tables with
  | nil => rfl
  | cons token' tokens ih =>
    rw [mem_cons, not_or] at hmem
    rw [foldl_cons, ih hmem.2, expireEntry]
    cases tables.pit.get token' with
    | none => rfl
    | some entry => rw [reap_pit, Pit.get_remove, if_neg hmem.1]

lemma runExpiryTask_get_of_lt (htoks : DistinctTokens tables.pit)
    (hget : tables.pit.get token = some entry) {now : ℕ} (hnow : now < entry.expiresAt)
    (reapOrphans : Bool) : (runExpiryTask P tables now reapOrphans).pit.get token = some entry := by
  set pit := if reapOrphans then tables.pit.reapOrphans now else tables.pit with hpit
  have hes : pit.entries = tables.pit.entries := by
    rw [hpit]
    split_ifs <;> rfl
  have hnot : token ∉ pit.expiredTokens now := by
    intro hmem
    rw [Pit.expiredTokens, hes] at hmem
    obtain ⟨⟨token', entry'⟩, hfil, rfl⟩ := mem_map.mp hmem
    obtain ⟨hmem', hdue⟩ := mem_filter.mp hfil
    cases hget.symm.trans ((Assoc.lookup_eq_some_iff htoks).mpr hmem')
    exact absurd (of_decide_eq_true hdue) (not_le.mpr hnow)
  have hkept := foldl_expireEntry_get (P := P) now hnot { tables with pit := pit }
  exact hkept.trans ((get_of_entries hes token).trans hget)

lemma step_tokens (h : DistinctTokens tables.pit) (event : Event) :
    DistinctTokens (step P tables event).pit := by
  by_cases hintr : ∃ a, event = .interest a
  · obtain ⟨a, rfl⟩ := hintr
    rcases checkProcess_entries (P := P) tables a with ⟨persistent, -, hes⟩ | ⟨-, hes⟩
    · exact (PitLoses.of_entries hes).tokens (h.set _ _)
    · exact (PitLoses.of_entries hes).tokens h
  · exact (step_loses tables event fun a heq => hintr ⟨a, heq⟩).tokens h

lemma foldl_tokens (tables : Tables) (events : List Event) (h : DistinctTokens tables.pit) :
    DistinctTokens (events.foldl (step P) tables).pit :=
  foldlRecOn (motive := fun tables => DistinctTokens tables.pit) events (step P) h
    fun _ h event _ => step_tokens h event

/-- **When no record is swept early.** After every event of a run no record outlives its entry iff
no classical Interest joins an entry that ends before the Interest's own lifetime; and then every
record that a sweep erases has come to its end. -/
theorem covers_iff (P : Platform) (dnl : Option DeadNonceList) (events : List Event) :
    ((∀ done, done <+: events → ∀ token entry,
      (done.foldl (step P) (.empty dnl)).pit.get token = some entry →
        ∀ r ∈ entry.inRecords, r.deadline ≤ entry.expiresAt) ↔
      Run.Admits (step P)
        (fun tables event => ∀ a entry, event = .interest a → Aggregates P tables a entry →
          EndsWithin a entry) (.empty dnl) events) ∧
    (Run.Admits (step P)
        (fun tables event => ∀ a entry, event = .interest a → Aggregates P tables a entry →
          EndsWithin a entry) (.empty dnl) events →
      ∀ done now reapOrphans, done ++ [.expiry now reapOrphans] <+: events → ∀ token entry,
        (done.foldl (step P) (.empty dnl)).pit.get token = some entry →
          ((done ++ [.expiry now reapOrphans]).foldl (step P) (.empty dnl)).pit.get token = none →
            ∀ r ∈ entry.inRecords, r.deadline ≤ now) := by
  have hiff := covers_settles.forall_prefix_iff (P := P) dnl events
  refine ⟨hiff, fun hadm done now reapOrphans hdone token entry hget hgone r hr => ?_⟩
  have hcov := hiff.mpr hadm done ((prefix_append _ _).trans hdone) token entry hget r hr
  have htoks := foldl_tokens (P := P) (.empty dnl) done nodup_nil
  rw [foldl_append] at hgone
  refine hcov.trans (not_lt.mp fun hnow => ?_)
  exact nomatch (runExpiryTask_get_of_lt htoks hget hnow reapOrphans).symm.trans hgone

section
open Sample

/-- Face 1 asks for `/a`, a second later face 2, both for four seconds. -/
def Sample.askLater : List Event :=
  [.interest (arrival (interest nameA false 7 none) 1 0),
    .interest (arrival (interest nameA false 8 none) 2 1000000000)]

/-- **A record swept early.** The record of face 2 ends after five seconds, and the sweep after four
erases it with its entry. -/
theorem sweep_erases_early :
    (∃ entry, (run askLater).pit.get (nameToken platform nameA .classical) = some entry ∧
      ∃ r ∈ entry.inRecords, r.faceId = 2 ∧ r.deadline = 5000000000 ∧
        entry.expiresAt = 4000000000) ∧
    (run (askLater ++ [.expiry 4000000000 false])).pit.get
      (nameToken platform nameA .classical) = none := by
  all_goals decide

end

end NdnRs.Pit
