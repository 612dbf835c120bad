import NdnRs.Forwarding.PitCredit

/-!
# Lost faces and parked budgets (`ndn-store/src/pit.rs`, `ndn-engine/src/stages/pit.rs`)

When a face is lost, its records leave the table, and what was left of its subscriptions' budgets
is parked under their ids. A subscription that comes again under such an id takes the budget back,
before the stage looks whether the Interest loops.

## Main results

* `removeFaceInPhases_spec` — what is left, and parked.
* `loop_drop_frame_iff` — when a loop changes nothing.
-/

namespace NdnRs

open Bytes Tlv List

namespace Pit

open PitCheckStage

/-! ## The removal of a face -/

/-- The state of the scan in `remove_face`. -/
structure FaceScan where
  pit : Pit
  toRemove : List UInt64
  toPrune : List UInt64

/-- The scan, on the entry at one token. -/
def scanEntry (faceId : ℕ) (s : FaceScan) (token : UInt64) : FaceScan :=
  match s.pit.get token with
  | none => s
  | some entry =>
    let anyIn := entry.inRecords.any fun r => r.faceId = faceId
    let anyOut := entry.outRecords.any fun r => r.faceId = faceId
    let s := if anyIn then { s with pit := s.pit.parkDyingRecords entry faceId } else s
    if entry.inRecords ≠ [] ∧ entry.inRecords.all fun r => r.faceId = faceId then
      { s with toRemove := s.toRemove ++ [token] }
    else if anyIn || anyOut then { s with toPrune := s.toPrune ++ [token] }
    else s

/-- The first loop of `remove_face`. -/
def scanFace (self : Pit) (faceId : ℕ) : FaceScan :=
  (self.entries.map Prod.fst).foldl (scanEntry faceId) ⟨self, [], []⟩

/-- The last loop of `remove_face`, on one token. -/
def pruneAt (faceId : ℕ) (self : Pit) (token : UInt64) : Pit :=
  match self.get token with
  | none => self
  | some entry => self.set token (entry.prune faceId)

/-- `Pit::remove_face`, with the number of entries removed. -/
def removeFaceInPhases (self : Pit) (faceId : ℕ) : Pit × ℕ :=
  let scan := self.scanFace faceId
  let pit := scan.toRemove.foldl remove scan.pit
  (scan.toPrune.foldl (pruneAt faceId) pit, scan.toRemove.length)

/-! ## What is to be left -/

/-- The budgets that die with a face, under an id: those of the face's subscriptions with that id
that have credit. -/
def dyingBudgets (faceId : ℕ) (records : List InRecord) (id : Bytes) : Set OrphanedSubscription :=
  {o | ∃ r ∈ records, r.faceId = faceId ∧ 0 < o.dataCountRemaining ∧
    r.persistent = some ⟨o.dataCountRemaining, o.reapAt, some id⟩}

/-- The budget parked under an id, if any. -/
def parkedBudget (pit : Pit) (id : Bytes) : Set OrphanedSubscription :=
  {o | pit.orphans.lookup id = some o}

/-- The index holds, for each id, the largest budget and the latest deadline among those of a set,
and nothing if the set is empty. -/
structure Parks (budgets : Bytes → Set OrphanedSubscription) (pit : Pit) : Prop where
  none_iff : ∀ id, pit.orphans.lookup id = none ↔ budgets id = ∅
  isGreatest : ∀ id o, pit.orphans.lookup id = some o →
    IsGreatest (OrphanedSubscription.dataCountRemaining '' budgets id) o.dataCountRemaining ∧
    IsGreatest (OrphanedSubscription.reapAt '' budgets id) o.reapAt

/-- **What the removal of a face leaves of a table.** No entry has a record of the face; an entry is
gone iff all its in-records, and it had some, were those of the face; the other records and
everything else in an entry are as before, except that `upstream_lost` is set where an out-record
was lost; and each id has the largest budget and the latest deadline among the one parked before and
those that die with the face. -/
structure RemovesFace (faceId : ℕ) (pit pit' : Pit) : Prop where
  clean : ∀ token entry', pit'.get token = some entry' →
    (∀ r ∈ entry'.inRecords, r.faceId ≠ faceId) ∧ ∀ r ∈ entry'.outRecords, r.faceId ≠ faceId
  gone_iff : ∀ token entry, pit.get token = some entry →
    (pit'.get token = none ↔ AllOn faceId entry)
  kept : ∀ token entry', pit'.get token = some entry' → ∃ entry, pit.get token = some entry ∧
    entry' = { entry with
      inRecords := entry.inRecords.filter fun r => r.faceId ≠ faceId
      outRecords := entry.outRecords.filter fun r => r.faceId ≠ faceId
      upstreamLost := entry'.upstreamLost } ∧
    (entry'.upstreamLost = true ↔
      entry.upstreamLost = true ∨ ∃ r ∈ entry.outRecords, r.faceId = faceId)
  parked : Parks (fun id => parkedBudget pit id ∪
    {o | ∃ token entry, pit.get token = some entry ∧
      o ∈ dyingBudgets faceId entry.inRecords id}) pit'

/-! ## Entries -/

section Entries

variable {faceId : ℕ} {pit : Pit} {entry : PitEntry}

lemma eq_prune_of_survivor {entry entry' : PitEntry} (h : survivor faceId entry = some entry') :
    entry' = entry.prune faceId := by
  rw [survivor] at h
  split_ifs at h
  exact (Option.some.inj h).symm

variable (tokens : List UInt64) (pit : Pit)

lemma get_foldl_remove (token : UInt64) :
    (tokens.foldl Pit.remove pit).get token = if token ∈ tokens then none else pit.get token := by
  induction tokens generalizing pit with
  | nil => simp
  | cons t tokens ih =>
    rw [foldl_cons, ih, Pit.get_remove]
    by_cases ht : token = t
    all_goals simp [ht]

lemma orphans_foldl_remove : (tokens.foldl Pit.remove pit).orphans = pit.orphans :=
  Run.foldl_unchanged Pit.orphans (fun pit t => (rfl : (pit.remove t).orphans = _)) tokens pit

lemma get_pruneAt (t token : UInt64) :
    (pit.pruneAt faceId t).get token =
      if token = t then (pit.get token).map (.prune faceId) else pit.get token := by
  rw [Pit.pruneAt]
  split_ifs with ht
  · subst ht
    cases hget : pit.get token with
    | none => simp [hget]
    | some entry => simp [Pit.get_set]
  · cases pit.get t with
    | none => rfl
    | some entry => simp [Pit.get_set, ht]

lemma get_foldl_pruneAt (token : UInt64) :
    (tokens.foldl (.pruneAt faceId) pit).get token =
      if token ∈ tokens then (pit.get token).map (.prune faceId) else pit.get token := by
  induction tokens generalizing pit with
  | nil => simp
  | cons t tokens ih =>
    rw [foldl_cons, ih, get_pruneAt]
    by_cases ht : token = t
    · -- a token that comes again finds its entry pruned already
      subst ht
      cases pit.get token with
      | none => simp
      | some entry => simp [prune_prune]
    · simp [ht]

lemma orphans_foldl_pruneAt : (tokens.foldl (.pruneAt faceId) pit).orphans = pit.orphans := by
  refine Run.foldl_unchanged Pit.orphans (fun pit t => ?_) tokens pit
  rw [Pit.pruneAt]
  cases pit.get t with
  | none => rfl
  | some entry => rfl

end Entries

/-! ## Budgets -/

section Budgets

variable {faceId : ℕ} {pit pit' : Pit} {budgets budgets' : Bytes → Set OrphanedSubscription}

lemma Parks.congr (h : Parks budgets pit) (hbud : ∀ id o, o ∈ budgets id ↔ o ∈ budgets' id)
    (horph : pit'.orphans = pit.orphans) : Parks budgets' pit' := by
  have heq : budgets = budgets' := funext fun id => Set.ext (hbud id)
  subst heq
  exact ⟨fun id => by rw [horph]; exact h.none_iff id,
    fun id o ho => h.isGreatest id o (by rw [← horph]; exact ho)⟩

lemma parks_self (pit : Pit) : Parks (parkedBudget pit) pit := by
  refine ⟨fun id => ?_, fun id o ho => ?_⟩
  · rw [Set.eq_empty_iff_forall_notMem]
    constructor
    · intro hnone o ho
      rw [parkedBudget, Set.mem_ofPred_eq, hnone] at ho
      cases ho
    · intro hemp
      cases hlk : pit.orphans.lookup id with
      | none => rfl
      | some o => exact absurd hlk (hemp o)
  · have hone : parkedBudget pit id = {o} := by
      ext o'
      rw [parkedBudget, Set.mem_ofPred_eq, ho, Option.some.injEq, Set.mem_singleton_iff, eq_comm]
    rw [hone, Set.image_singleton, Set.image_singleton]
    exact ⟨isGreatest_singleton, isGreatest_singleton⟩

variable {o : OrphanedSubscription}

lemma isGreatest_image_insert {f : OrphanedSubscription → ℕ} {s : Set OrphanedSubscription} {m : ℕ}
    (h : IsGreatest (f '' s) m) : IsGreatest (f '' (s ∪ {o})) (max m (f o)) := by
  rw [Set.image_union, Set.image_singleton]
  exact h.union isGreatest_singleton

/-- What `park_orphan` leaves under an id: the budget, or the larger of it and the one there. -/
def mergedWith (o : OrphanedSubscription) (old : Option OrphanedSubscription) :
    OrphanedSubscription :=
  old.elim o fun existing =>
    ⟨max existing.dataCountRemaining o.dataCountRemaining, max existing.reapAt o.reapAt⟩

lemma lookup_parkOrphan (id id' : Bytes) (hcred : 0 < o.dataCountRemaining) :
    (pit.parkOrphan id o.dataCountRemaining o.reapAt).orphans.lookup id' =
      if id' = id then some (mergedWith o (pit.orphans.lookup id)) else pit.orphans.lookup id' := by
  rw [Pit.parkOrphan, if_neg hcred.ne']
  refine (Assoc.lookup_insert id id' _ pit.orphans).trans ?_
  cases pit.orphans.lookup id with
  | none => rfl
  | some existing => rfl

/-- **One more budget.** `park_orphan` takes it into the set of its id. -/
lemma Parks.parkOrphan (h : Parks budgets pit) (id : Bytes) (hcred : 0 < o.dataCountRemaining) :
    Parks (fun id' => budgets id' ∪ {o' | id' = id ∧ o' = o})
      (pit.parkOrphan id o.dataCountRemaining o.reapAt) := by
  have hoth : ∀ id', id' ≠ id → budgets id' ∪ {o' | id' = id ∧ o' = o} = budgets id' := by
    intro id' hne
    ext o'
    simp [hne]
  have hself : budgets id ∪ {o' | id = id ∧ o' = o} = budgets id ∪ {o} := by
    ext o'
    simp
  refine ⟨fun id' => ?_, fun id' o' ho' => ?_⟩
  · rw [lookup_parkOrphan id id' hcred]
    by_cases hid : id' = id
    · subst hid
      rw [if_pos rfl, hself]
      refine iff_of_false (by simp) ?_
      exact (Set.nonempty_iff_ne_empty.mp ⟨o, .inr rfl⟩)
    · rw [if_neg hid, hoth id' hid]
      exact h.none_iff id'
  · rw [lookup_parkOrphan id id' hcred] at ho'
    by_cases hid : id' = id
    · subst hid
      rw [if_pos rfl, Option.some.injEq] at ho'
      rw [hself]
      cases hold : pit.orphans.lookup id' with
      | none =>
        rw [hold] at ho'
        subst ho'
        rw [(h.none_iff id').mp hold, Set.empty_union, Set.image_singleton, Set.image_singleton]
        exact ⟨isGreatest_singleton, isGreatest_singleton⟩
      | some existing =>
        rw [hold] at ho'
        subst ho'
        obtain ⟨hcnt, hreap⟩ := h.isGreatest id' existing hold
        exact ⟨isGreatest_image_insert hcnt, isGreatest_image_insert hreap⟩
    · rw [if_neg hid] at ho'
      simp only [hoth id' hid]
      exact h.isGreatest id' o' ho'

/-- **The budgets of an entry.** `park_dying_records` takes in those that die with the face. -/
lemma Parks.parkDyingRecords (h : Parks budgets pit) (entry : PitEntry) :
    Parks (fun id => budgets id ∪ dyingBudgets faceId entry.inRecords id)
      (pit.parkDyingRecords entry faceId) := by
  unfold Pit.parkDyingRecords
  generalize entry.inRecords = records
  induction records generalizing pit budgets with
  | nil => exact h.congr (fun id o => by simp [dyingBudgets]) rfl
  | cons r records ih =>
    rw [foldl_cons]
    -- a record parks its budget if it is the face's, has an id and has credit
    by_cases hface : r.faceId ≠ faceId
    · rw [if_pos hface]
      refine (ih h).congr (fun id o => ?_) rfl
      simp [dyingBudgets, hface]
    rw [if_neg hface]
    have hface' : r.faceId = faceId := not_not.mp hface
    rcases hps : r.persistent with - | ⟨remaining, reapAt, - | id⟩
    · refine (ih h).congr (fun id o => ?_) rfl
      simp [dyingBudgets, hps]
    · refine (ih h).congr (fun id o => ?_) rfl
      simp [dyingBudgets, hps]
    by_cases hcred : 0 < remaining
    · have hpark := h.parkOrphan id (o := ⟨remaining, reapAt⟩) hcred
      refine (ih hpark).congr (fun id' o => ?_) rfl
      simp only [dyingBudgets, Set.mem_union, Set.mem_ofPred_eq, mem_cons, or_and_right,
        exists_or, exists_eq_left, hface', true_and, hps, or_assoc]
      refine or_congr_right (or_congr_left ?_)
      rw [Option.some.injEq, PersistentState.mk.injEq, Option.some.injEq]
      constructor
      · rintro ⟨rfl, rfl⟩
        exact ⟨hcred, rfl, rfl, rfl⟩
      · rintro ⟨-, rfl, rfl, rfl⟩
        exact ⟨rfl, rfl⟩
    · have hzero : remaining = 0 := Nat.eq_zero_of_not_pos hcred
      have hpark : pit.parkOrphan id remaining reapAt = pit := by
        rw [Pit.parkOrphan, if_pos hzero]
      simp only [hpark]
      refine (ih h).congr (fun id' o => ?_) rfl
      simp only [dyingBudgets, Set.mem_union, Set.mem_ofPred_eq, mem_cons, or_and_right,
        exists_or, exists_eq_left, hps]
      refine or_congr_right (.symm (or_iff_right ?_))
      rintro ⟨-, hpos, heq⟩
      rw [Option.some.injEq, PersistentState.mk.injEq] at heq
      omega

end Budgets

/-! ## The removal of a face is what it should be -/

section Removal

variable {faceId : ℕ} {pit pit' : Pit}

lemma RemovesFace.of_survivors
    (hget : ∀ token, pit'.get token = (pit.get token).bind (survivor faceId))
    (hpar : Parks (fun id => parkedBudget pit id ∪ {o | ∃ token entry, pit.get token = some entry ∧
        o ∈ dyingBudgets faceId entry.inRecords id}) pit') : RemovesFace faceId pit pit' := by
  have hkept : ∀ token entry', pit'.get token = some entry' →
      ∃ entry, pit.get token = some entry ∧ entry' = entry.prune faceId := by
    intro token entry' h
    rw [hget, Option.bind_eq_some_iff] at h
    obtain ⟨entry, hent, hsur⟩ := h
    exact ⟨entry, hent, eq_prune_of_survivor hsur⟩
  refine ⟨fun token entry' h => ?_, fun token entry h => ?_, fun token entry' h => ?_, hpar⟩
  · obtain ⟨entry, -, rfl⟩ := hkept token entry' h
    simp [PitEntry.prune]
  · rw [hget, h, Option.bind_some, survivor]
    split_ifs with hall
    · exact iff_of_true rfl hall
    · exact iff_of_false (by simp) hall
  · obtain ⟨entry, hent, rfl⟩ := hkept token entry' h
    refine ⟨entry, hent, rfl, ?_⟩
    simp [PitEntry.prune]

/-- An entry has some record of a face. -/
def Touches (faceId : ℕ) (entry : PitEntry) : Prop :=
  ((entry.inRecords.any fun r => r.faceId = faceId) ||
    entry.outRecords.any fun r => r.faceId = faceId) = true

instance (faceId : ℕ) (entry : PitEntry) : Decidable (Touches faceId entry) :=
  inferInstanceAs (Decidable (_ = true))

variable {entry : PitEntry} {s : Pit.FaceScan}

lemma touches_iff {faceId : ℕ} : Touches faceId entry ↔
    ((entry.inRecords.any fun r => r.faceId = faceId) ||
      entry.outRecords.any fun r => r.faceId = faceId) = true :=
  Iff.rfl

/-- **The scan**, after some tokens: the entries are as before, the budgets of their entries are
parked, and every token is noted whose entry is to go or to lose a record. -/
structure Scanned (faceId : ℕ) (pit : Pit) (done : List UInt64) (s : Pit.FaceScan) : Prop where
  entries : s.pit.entries = pit.entries
  parked : Parks (fun id => parkedBudget pit id ∪
    {o | ∃ token ∈ done, ∃ entry, pit.get token = some entry ∧
      o ∈ dyingBudgets faceId entry.inRecords id}) s.pit
  toRemove_iff : ∀ token, token ∈ s.toRemove ↔
    token ∈ done ∧ ∃ entry, pit.get token = some entry ∧ AllOn faceId entry
  toPrune_iff : ∀ token, token ∈ s.toPrune ↔
    token ∈ done ∧ ∃ entry, pit.get token = some entry ∧ ¬ AllOn faceId entry ∧ Touches faceId entry

section Noted

variable {done noted : List UInt64} {t : UInt64} {q : PitEntry → Prop}
  (h : ∀ token, token ∈ noted ↔ token ∈ done ∧ ∃ entry, pit.get token = some entry ∧ q entry)

include h in
private lemma noted_of_none (hget : pit.get t = none) (token : UInt64) :
    token ∈ noted ↔ token ∈ done ++ [t] ∧ ∃ entry, pit.get token = some entry ∧ q entry := by
  rw [h, mem_append, mem_singleton]
  refine and_congr_left ?_
  rintro ⟨entry, hsome, -⟩
  refine (or_iff_left ?_).symm
  rintro rfl
  rw [hget] at hsome
  cases hsome

include h in
private lemma noted_of_some {entry : PitEntry} [Decidable (q entry)]
    (hget : pit.get t = some entry) (token : UInt64) :
    (token ∈ if q entry then noted ++ [t] else noted) ↔
      token ∈ done ++ [t] ∧ ∃ entry, pit.get token = some entry ∧ q entry := by
  by_cases htok : token = t
  · subst htok
    have hq : (∃ entry, pit.get token = some entry ∧ q entry) ↔ q entry := by simp [hget]
    rw [hq]
    split_ifs with hent
    · simp [hent]
    · simp [h, hq, hent]
  · have hif : (token ∈ if q entry then noted ++ [t] else noted) ↔ token ∈ noted := by
      split_ifs <;> simp [htok]
    rw [hif, h, mem_append, mem_singleton, or_iff_left htok]

end Noted

lemma Parks.scanned {budgets : Bytes → Set OrphanedSubscription} (h : Parks budgets pit)
    (faceId : ℕ) (entry : PitEntry) :
    Parks (fun id => budgets id ∪ dyingBudgets faceId entry.inRecords id)
      (if (entry.inRecords.any fun r => r.faceId = faceId) then
        pit.parkDyingRecords entry faceId else pit) := by
  split_ifs with hany
  · exact h.parkDyingRecords entry
  · refine h.congr (fun id o => (or_iff_left ?_).symm) rfl
    rintro ⟨r, hr, hface, -⟩
    exact hany (any_eq_true.mpr ⟨r, hr, decide_eq_true hface⟩)

lemma entries_scanned (pit : Pit) (faceId : ℕ) (entry : PitEntry) :
    (if (entry.inRecords.any fun r => r.faceId = faceId) then
      pit.parkDyingRecords entry faceId else pit).entries = pit.entries := by
  split_ifs
  · exact parkDyingRecords_entries pit entry faceId
  · rfl

lemma scanEntry_of_get {t : UInt64} (hget : s.pit.get t = some entry) :
    Pit.scanEntry faceId s t =
      ⟨if (entry.inRecords.any fun r => r.faceId = faceId) then
          s.pit.parkDyingRecords entry faceId else s.pit,
        if AllOn faceId entry then s.toRemove ++ [t] else s.toRemove,
        if ¬ AllOn faceId entry ∧ Touches faceId entry then s.toPrune ++ [t] else s.toPrune⟩ := by
  rw [Pit.scanEntry, hget]
  simp only [← allOn_iff, ← touches_iff]
  by_cases hin : (entry.inRecords.any fun r => r.faceId = faceId) = true
  all_goals
    by_cases hall : AllOn faceId entry
    all_goals
      by_cases htch : Touches faceId entry
      all_goals simp [hin, hall, htch]

lemma Scanned.step {done : List UInt64} (h : Scanned faceId pit done s)
    (t : UInt64) : Scanned faceId pit (done ++ [t]) (Pit.scanEntry faceId s t) := by
  have hget : s.pit.get t = pit.get t := get_of_entries h.entries t
  cases hent : pit.get t with
  | none =>
    have hscan : Pit.scanEntry faceId s t = s := by rw [Pit.scanEntry, hget, hent]
    rw [hscan]
    refine ⟨h.entries, h.parked.congr (fun id o => or_congr_right ?_) rfl,
      noted_of_none h.toRemove_iff hent, noted_of_none h.toPrune_iff hent⟩
    simp [or_and_right, exists_or, hent]
  | some entry =>
    rw [hent] at hget
    rw [scanEntry_of_get hget]
    refine ⟨(entries_scanned s.pit faceId entry).trans h.entries,
      (h.parked.scanned faceId entry).congr (fun id o => ?_) rfl,
      noted_of_some h.toRemove_iff hent, noted_of_some h.toPrune_iff hent⟩
    simp [or_and_right, exists_or, hent, or_assoc]

lemma scanned_scanFace (faceId : ℕ) (pit : Pit) :
    Scanned faceId pit (pit.entries.map Prod.fst) (pit.scanFace faceId) := by
  refine Run.foldl_passed ?_ (fun _ _ t h => h.step t) _
  refine ⟨rfl, (parks_self pit).congr (fun id o => ?_) rfl, ?_, ?_⟩
  all_goals simp

/-- The three loops of `remove_face` leave at a token what the one loop of `removeFace` leaves. -/
lemma get_removeFaceInPhases (pit : Pit) (faceId : ℕ) (token : UInt64) :
    (pit.removeFaceInPhases faceId).1.get token = (pit.removeFace faceId).get token := by
  have h := scanned_scanFace faceId pit
  rw [Pit.removeFaceInPhases, get_foldl_pruneAt, get_foldl_remove, get_of_entries h.entries,
    get_removeFace]
  cases hent : pit.get token with
  | none => simp
  | some entry =>
    have htok := mem_tokens_of_get hent
    have hrmv : token ∈ (pit.scanFace faceId).toRemove ↔ AllOn faceId entry := by
      rw [h.toRemove_iff]
      simp [htok, hent]
    have hprun : token ∈ (pit.scanFace faceId).toPrune ↔
        ¬ AllOn faceId entry ∧ Touches faceId entry := by
      rw [h.toPrune_iff]
      simp [htok, hent]
    rw [Option.bind_some, survivor]
    by_cases hall : AllOn faceId entry
    · rw [if_pos (hrmv.mpr hall), if_pos hall]
      simp
    rw [if_neg fun hmem => hall (hrmv.mp hmem), if_neg hall]
    by_cases htch : Touches faceId entry
    · rw [if_pos (hprun.mpr ⟨hall, htch⟩), Option.map_some]
    · rw [if_neg fun hmem => htch (hprun.mp hmem).2]
      rw [Touches, Bool.not_eq_true, Bool.or_eq_false_iff] at htch
      rw [prune_eq_self htch.1 htch.2]

/-- **The removal of a face**, for every table: `remove_face` leaves what it should. -/
theorem removeFaceInPhases_spec (pit : Pit) (faceId : ℕ) :
    RemovesFace faceId pit (pit.removeFaceInPhases faceId).1 := by
  have h := scanned_scanFace faceId pit
  apply RemovesFace.of_survivors
  · intro token
    rw [get_removeFaceInPhases, get_removeFace]
  · refine h.parked.congr (fun id o => or_congr_right ?_) ?_
    · constructor
      · rintro ⟨token, -, entry, hent, ho⟩
        exact ⟨token, entry, hent, ho⟩
      · rintro ⟨token, entry, hent, ho⟩
        exact ⟨token, mem_tokens_of_get hent, entry, hent, ho⟩
    · rw [Pit.removeFaceInPhases, orphans_foldl_pruneAt, orphans_foldl_remove]

end Removal

/-! ## Budgets taken back -/

section Taken

variable {P : Platform}

open Sample

/-- The id whose parked budget an Interest takes: that of a request within the bounds that was
validated. -/
def takenId (a : Arrival) : Option Bytes :=
  a.interest.subscriptionRequest.bind fun req =>
    if requestOk req && a.validated then req.subscriptionId else none

/-- An Interest takes a parked budget out of the index. -/
def TakesOrphan (pit : Pit) (a : Arrival) : Prop :=
  ∃ id, takenId a = some id ∧ (pit.orphans.lookup id).isSome = true

/-- What `check_persistent` does to the index. -/
lemma lookup_orphans_checkPersistent (pit : Pit) (a : Arrival) (id : Bytes) :
    (checkPersistent pit a).1.orphans.lookup id =
      if takenId a = some id then none else pit.orphans.lookup id := by
  rw [checkPersistent, takenId]
  cases a.interest.subscriptionRequest with
  | none => simp
  | some req =>
    rw [Option.bind_some]
    cases hok : requestOk req
    · simp [hok]
    cases hval : a.validated
    · simp [hok]
    · cases hid : req.subscriptionId with
      | none => simp [hok, hid]
      | some id' =>
        simp [hok, hid, Pit.takeOrphan, Assoc.lookup_erase, eq_comm]

variable {a : Arrival} {persistent : Option PersistentState} {pit : Pit}

/-- `check_persistent` drops for one reason. -/
lemma eq_of_checkPersistent_error {reason : DropReason}
    (h : (checkPersistent pit a).2 = .error reason) : reason = .invalidPersistentRequest := by
  unfold checkPersistent at h
  split at h
  · cases h
  · split_ifs at h
    · cases h
      rfl
    · split at h
      all_goals cases h

lemma orphans_checkPersistent_iff (pit : Pit) (a : Arrival) :
    (∀ id, (checkPersistent pit a).1.orphans.lookup id = pit.orphans.lookup id) ↔
      ¬ TakesOrphan pit a := by
  constructor
  · rintro h ⟨id, htak, hsome⟩
    rw [← h id, lookup_orphans_checkPersistent, if_pos htak] at hsome
    cases hsome
  intro h id
  rw [lookup_orphans_checkPersistent]
  split_ifs with htak
  · by_contra hne
    refine h ⟨id, htak, ?_⟩
    rw [Option.isSome_iff_ne_none]
    exact .symm hne
  · rfl

/-- Both tables have the same in-records at each token. -/
def SameInRecords (pit pit' : Pit) : Prop :=
  ∀ token, (pit'.get token).map PitEntry.inRecords = (pit.get token).map PitEntry.inRecords

lemma onExisting_loop {entry : PitEntry} (h : (onExisting a persistent entry).2 = .loop) :
    (onExisting a persistent entry).1.inRecords = entry.inRecords := by
  unfold onExisting at h ⊢
  split_ifs at h ⊢ with hloop
  · rfl
  · cases persistent with
    | some ps => cases h
    | none =>
      simp only at h
      split_ifs at h

lemma checkEntry_loop {token : UInt64} (h : (checkEntry pit token a persistent).2 = .loop) :
    (checkEntry pit token a persistent).1.orphans = pit.orphans ∧
      SameInRecords pit (checkEntry pit token a persistent).1 := by
  rw [checkEntry] at h ⊢
  cases hget : pit.get token with
  | none =>
    rw [hget] at h
    cases h
  | some entry =>
    rw [hget] at h
    have hloop : (onExisting a persistent entry).2 = .loop := h
    refine ⟨rfl, fun token' => ?_⟩
    simp only [Pit.get_set]
    split_ifs with htok
    · rw [htok, hget, Option.map_some, Option.map_some, onExisting_loop hloop]
    · rfl

lemma admitInterest_loop {tables : Tables}
    (h : (admitInterest P tables a persistent).2 = .drop .loopDetected) :
    (admitInterest P tables a persistent).1.pit.orphans = tables.pit.orphans ∧
      SameInRecords tables.pit (admitInterest P tables a persistent).1.pit := by
  unfold admitInterest at h ⊢
  simp only at h ⊢
  split_ifs at h ⊢ with hdead
  · exact ⟨rfl, fun token => rfl⟩
  refine checkEntry_loop ?_
  generalize (checkEntry _ _ _ _).2 = result at h ⊢
  cases result with
  | loop => rfl
  | aggregated => cases h
  | inserted => cases h
  | reForward => cases h

/-- **A loop and what it leaves.** An Interest that is dropped as a loop leaves every in-record as
it was; it leaves the parked budgets as they were iff the replay guard dropped it, or it takes
none. -/
theorem loop_drop_frame_iff (tables : Tables) (a : Arrival)
    (h : (PitCheckStage.process P tables a).2 = .drop .loopDetected) :
    SameInRecords tables.pit (PitCheckStage.process P tables a).1.pit ∧
      ((∀ id, (PitCheckStage.process P tables a).1.pit.orphans.lookup id =
          tables.pit.orphans.lookup id) ↔
        (a.interest.sigInfo.isSome ∧ a.replayed = true) ∨ ¬ TakesOrphan tables.pit a) := by
  rw [PitCheckStage.process] at h ⊢
  by_cases hrpl : a.interest.sigInfo.isSome ∧ a.replayed = true
  · rw [if_pos hrpl] at h ⊢
    exact ⟨fun token => rfl, iff_of_true (fun id => rfl) (.inl hrpl)⟩
  rw [if_neg hrpl] at h ⊢
  have hes := (checkPersistent_spec tables.pit a).1
  have horph := orphans_checkPersistent_iff tables.pit a
  rcases hchk : checkPersistent tables.pit a with ⟨pit, reason | persistent⟩
  all_goals rw [hchk] at h hes horph
  · -- a request out of bounds is dropped for another reason
    have hreas := eq_of_checkPersistent_error (congrArg Prod.snd hchk)
    rw [hreas] at h
    cases h
  · obtain ⟨hsame, hin⟩ := admitInterest_loop h
    refine ⟨fun token => ?_, ?_⟩
    · rw [hin token, Pit.get, Pit.get]
      exact congrArg _ (congrArg _ hes)
    · rw [or_iff_right hrpl, hsame]
      exact horph

/-- A request for `count` Data within `seconds`, under an id. -/
def Sample.requestUnder (id : Bytes) (count seconds : ℕ) : Bytes :=
  writeTlv SubscriptionRequest.tlvSubscriptionRequest
    ([1] ++ beBytes 4 count ++ beBytes 4 seconds ++ id)

/-- A face subscribes to `/a` for five Data under the id `9`. -/
def Sample.subscribeUnder (faceId nonce time : ℕ) : Arrival :=
  signed (requestUnder [9] 5 60) faceId nonce time

/-- Faces 1 and 2 subscribe under the same id, and face 1 is lost. -/
def Sample.parked : Tables :=
  run [.interest (subscribeUnder 1 7 0), .interest (subscribeUnder 2 8 1), .faceRemoved 1 2]

/-- `loop_drop_frame_iff` for a subscription under another id that comes with a nonce in use: the
parked budget stays. -/
theorem loop_drop_frame_parked :
    parked.pit.orphans.lookup [9] = some ⟨5, 60000000000⟩ ∧
    SameInRecords parked.pit
      (PitCheckStage.process platform parked (signed (requestUnder [8] 5 60) 3 8 3)).1.pit ∧
    ∀ id, (PitCheckStage.process platform parked
      (signed (requestUnder [8] 5 60) 3 8 3)).1.pit.orphans.lookup id =
        parked.pit.orphans.lookup id := by
  have hloop : (PitCheckStage.process platform parked
      (signed (requestUnder [8] 5 60) 3 8 3)).2 = .drop .loopDetected := by
    decide
  obtain ⟨hsame, hkept⟩ := loop_drop_frame_iff parked _ hloop
  refine ⟨by decide, hsame, hkept.mpr (.inr ?_)⟩
  rintro ⟨id, htak, hsome⟩
  obtain rfl : [8] = id := Option.some.inj (htak.symm.trans (by decide)).symm
  exact absurd hsome (by decide)

/-- **A loop that loses a budget.** Faces 1 and 2 subscribe to `/a` under one id, and the budget of
face 1 is parked when the face is lost. The Interest of face 1 comes back on face 3: it is dropped
as a loop, and the parked budget of five Data is gone. -/
theorem loop_drop_loses_budget :
    (PitCheckStage.process platform parked (subscribeUnder 3 7 3)).2 = .drop .loopDetected ∧
    parked.pit.orphans.lookup [9] = some ⟨5, 60000000000⟩ ∧
    (PitCheckStage.process platform parked (subscribeUnder 3 7 3)).1.pit.orphans.lookup [9] =
      none := by
  all_goals decide

end Taken

end Pit

end NdnRs
