import NdnRs.Forwarding.PitStages
import NdnRs.Lib.Run

/-!
# What holds of every reachable PIT

Only an arriving Interest adds to the table; all else takes away. So every entry stays keyed by the
Interests that were added to it, as long as no two keys share a token.

## Implementation notes

`EntryOk` has a parameter `mirrored`. With it, the invariant also says that the entry's nonces will
be remembered under the entry's key, which takes one more assumption on the Interests of the run.
-/

namespace NdnRs.Pit

open Bytes SwapRemove List Except PitEntry
open scoped List

variable {P : Platform}

/-! ## Entries that only lose records -/

/-- `entry'` is `entry` with fewer in-records, or with less credit in them. -/
structure Shrinks (entry entry' : PitEntry) : Prop where
  name_eq : entry'.name = entry.name
  persistent_eq : entry'.persistent.isSome = entry.persistent.isSome
  nonces_eq : entry'.noncesSeen = entry.noncesSeen
  inserted_eq : entry'.inserted = entry.inserted
  records : ∀ r' ∈ entry'.inRecords, ∃ r ∈ entry.inRecords, r'.interest = r.interest ∧
    r'.selector = r.selector ∧ r'.persistent.isSome = r.persistent.isSome

variable (entry : PitEntry) {a b c : PitEntry} (tables : Tables) (pit : Pit) (faceId : ℕ)
  {token : UInt64}

lemma Shrinks.refl : Shrinks entry entry :=
  ⟨rfl, rfl, rfl, rfl, fun r hr => ⟨r, hr, rfl, rfl, rfl⟩⟩

lemma Shrinks.trans (h : Shrinks a b) (h' : Shrinks b c) : Shrinks a c := by
  refine ⟨h'.name_eq.trans h.name_eq, h'.persistent_eq.trans h.persistent_eq,
    h'.nonces_eq.trans h.nonces_eq, h'.inserted_eq.trans h.inserted_eq, ?_⟩
  intro r'' hr''
  obtain ⟨r', hr', hi', hs', hp'⟩ := h'.records r'' hr''
  obtain ⟨r, hr, hi, hs, hp⟩ := h.records r' hr'
  exact ⟨r, hr, hi'.trans hi, hs'.trans hs, hp'.trans hp⟩

/-- `r'` is `r` with less credit. -/
def Spent (r r' : InRecord) : Prop :=
  ∃ n, r' = { r with persistent := r.persistent.map fun ps =>
    { ps with dataCountRemaining := ps.dataCountRemaining - n } }

lemma Spent.refl (r : InRecord) : Spent r r := ⟨0, by simp⟩

lemma Spent.trans {a b c : InRecord} (h : Spent a b) (h' : Spent b c) : Spent a c := by
  obtain ⟨n, rfl⟩ := h
  obtain ⟨m, rfl⟩ := h'
  exact ⟨n + m, by simp [Function.comp_def, Nat.sub_sub]⟩

lemma Spent.isSome_eq {r r' : InRecord} (h : Spent r r') :
    r'.persistent.isSome = r.persistent.isSome := by
  obtain ⟨n, rfl⟩ := h
  simp

/-- `entry'` is `entry` with fewer in-records, or with less credit in them, and nothing that decides
how long it lives has changed. -/
structure Loses (entry entry' : PitEntry) : Prop extends Shrinks entry entry' where
  expires_eq : entry'.expiresAt = entry.expiresAt
  faces : entry'.inRecords.map InRecord.faceId <+~ entry.inRecords.map InRecord.faceId
  spent : ∀ r' ∈ entry'.inRecords, ∃ r ∈ entry.inRecords, Spent r r'

lemma Loses.of_spent {entry entry' : PitEntry} (hname : entry'.name = entry.name)
    (hpers : entry'.persistent.isSome = entry.persistent.isSome)
    (hncs : entry'.noncesSeen = entry.noncesSeen) (hins : entry'.inserted = entry.inserted)
    (hexp : entry'.expiresAt = entry.expiresAt)
    (hfac : entry'.inRecords.map InRecord.faceId <+~ entry.inRecords.map InRecord.faceId)
    (hspen : ∀ r' ∈ entry'.inRecords, ∃ r ∈ entry.inRecords, Spent r r') : Loses entry entry' := by
  refine ⟨⟨hname, hpers, hncs, hins, ?_⟩, hexp, hfac, hspen⟩
  intro r' hr'
  obtain ⟨r, hr, h⟩ := hspen r' hr'
  have hsome := h.isSome_eq
  obtain ⟨n, rfl⟩ := h
  exact ⟨r, hr, rfl, rfl, hsome⟩

lemma Loses.of_subperm {entry entry' : PitEntry} (hname : entry'.name = entry.name)
    (hpers : entry'.persistent = entry.persistent) (hncs : entry'.noncesSeen = entry.noncesSeen)
    (hins : entry'.inserted = entry.inserted) (hexp : entry'.expiresAt = entry.expiresAt)
    (hrecs : entry'.inRecords <+~ entry.inRecords) : Loses entry entry' :=
  .of_spent hname (by rw [hpers]) hncs hins hexp (subperm_map _ hrecs)
    fun r hr => ⟨r, hrecs.subset hr, .refl r⟩

lemma Loses.refl : Loses entry entry :=
  .of_subperm rfl rfl rfl rfl rfl (.refl _)

lemma Loses.trans (h : Loses a b) (h' : Loses b c) : Loses a c := by
  refine ⟨h.toShrinks.trans h'.toShrinks, h'.expires_eq.trans h.expires_eq,
    h'.faces.trans h.faces, ?_⟩
  intro r'' hr''
  obtain ⟨r', hr', hspen'⟩ := h'.spent r'' hr''
  obtain ⟨r, hr, hspen⟩ := h.spent r' hr'
  exact ⟨r, hr, hspen.trans hspen'⟩

/-- `entry'` is what is left of `entry` in the table: it may lose records, but not all of them. -/
structure Remains (entry entry' : PitEntry) : Prop extends Loses entry entry' where
  nonempty : entry.inRecords ≠ [] → entry'.inRecords ≠ []

lemma Remains.refl : Remains entry entry := ⟨.refl entry, id⟩

lemma Remains.trans (h : Remains a b) (h' : Remains b c) : Remains a c :=
  ⟨h.toLoses.trans h'.toLoses, h'.nonempty ∘ h.nonempty⟩

/-- Every entry of `pit'` is an entry of `pit` with fewer in-records. -/
def PitShrinks (pit pit' : Pit) : Prop :=
  ∀ token entry', pit'.get token = some entry' →
    ∃ entry, pit.get token = some entry ∧ Shrinks entry entry'

lemma get_of_entries {pit pit' : Pit} (h : pit'.entries = pit.entries) (token : UInt64) :
    pit'.get token = pit.get token := by
  rw [Pit.get, h, Pit.get]

lemma mem_tokens_of_get {pit : Pit} {entry : PitEntry}
    (h : pit.get token = some entry) : token ∈ pit.entries.map Prod.fst := by
  by_contra hnot
  rw [Pit.get, Assoc.lookup_eq_none_iff.mpr hnot] at h
  cases h

def DistinctTokens (pit : Pit) : Prop := (pit.entries.map Prod.fst).Nodup

lemma DistinctTokens.set {pit : Pit} (h : DistinctTokens pit) (token : UInt64) (entry : PitEntry) :
    DistinctTokens (pit.set token entry) :=
  Assoc.nodup_keys_insert token entry h

lemma DistinctTokens.remove {pit : Pit} (h : DistinctTokens pit) (token : UInt64) :
    DistinctTokens (pit.remove token) :=
  h.sublist (filter_sublist.map _)

/-- Every entry of `pit'` is an entry of `pit` that has only lost records and credit. -/
structure PitLoses (pit pit' : Pit) : Prop where
  get : ∀ token entry', pit'.get token = some entry' →
    ∃ entry, pit.get token = some entry ∧ Remains entry entry'
  tokens : DistinctTokens pit → DistinctTokens pit'

namespace PitLoses

variable {pit : Pit} {pit' : Pit}

lemma shrinks (h : PitLoses pit pit') : PitShrinks pit pit' := by
  intro token entry' hget'
  obtain ⟨entry, hget, hrem⟩ := h.get token entry' hget'
  exact ⟨entry, hget, hrem.toShrinks⟩

lemma refl (pit : Pit) : PitLoses pit pit :=
  ⟨fun _ entry h => ⟨entry, h, .refl entry⟩, id⟩

lemma trans {a b c : Pit} (h : PitLoses a b) (h' : PitLoses b c) : PitLoses a c := by
  refine ⟨?_, h'.tokens ∘ h.tokens⟩
  intro token entry'' hget''
  obtain ⟨entry', hget', hrem'⟩ := h'.get token entry'' hget''
  obtain ⟨entry, hget, hrem⟩ := h.get token entry' hget'
  exact ⟨entry, hget, hrem.trans hrem'⟩

lemma foldl {σ α : Type} (pit : σ → Pit) {f : σ → α → σ}
    (hf : ∀ s a, PitLoses (pit s) (pit (f s a))) (l : List α) (s : σ) :
    PitLoses (pit s) (pit (l.foldl f s)) := by
  induction l generalizing s with
  | nil => exact refl (pit s)
  | cons a l ih => exact (hf s a).trans (ih (f s a))

lemma remove (pit : Pit) (token : UInt64) : PitLoses pit (pit.remove token) := by
  refine ⟨fun token' entry' h => ?_, fun h => h.remove token⟩
  rw [Pit.get_remove] at h
  split_ifs at h
  exact ⟨entry', h, .refl entry'⟩

lemma set {token : UInt64} {entry entry' : PitEntry} (hget : pit.get token = some entry)
    (h : Remains entry entry') : PitLoses pit (pit.set token entry') := by
  refine ⟨fun token' entry'' hget'' => ?_, fun h => h.set token entry'⟩
  rw [Pit.get_set] at hget''
  split_ifs at hget'' with heq
  · cases hget''
    rw [heq]
    exact ⟨entry, hget, h⟩
  · exact ⟨entry'', hget'', .refl entry''⟩

lemma remove_set (pit : Pit) (token : UInt64) (entry : PitEntry) :
    PitLoses pit ((pit.set token entry).remove token) := by
  refine ⟨fun token' entry' h => ?_, fun h => (h.set token entry).remove token⟩
  rw [Pit.get_remove] at h
  split_ifs at h with heq
  rw [Pit.get_set, if_neg heq] at h
  exact ⟨entry', h, .refl entry'⟩

lemma of_entries (h : pit'.entries = pit.entries) : PitLoses pit pit' := by
  refine ⟨fun token entry hget => ?_, fun htoks => ?_⟩
  · rw [get_of_entries h] at hget
    exact ⟨entry, hget, .refl entry⟩
  · rw [DistinctTokens, h]
    exact htoks

end PitLoses

section Match

open PitMatchStage

lemma spend_spent (cbpOnly entryLevel : Bool) (r : InRecord) :
    Spent r (spend cbpOnly entryLevel r).1 := by
  unfold spend
  split_ifs
  · exact .refl r
  cases hps : r.persistent with
  | none => exact .refl r
  | some ps =>
    simp only
    split_ifs
    · exact ⟨1, by simp [hps]⟩
    · exact .refl r

lemma not_isExhausted_spend {cbpOnly entryLevel : Bool} {r : InRecord}
    (h : ¬ (r.persistent.isSome && (!cbpOnly || r.selector.canBePrefix)) = true) :
    isExhausted (spend cbpOnly entryLevel r) = false := by
  unfold spend
  split_ifs with hskip
  · simp [isExhausted]
  · have hnone : r.persistent = none := by
      rw [← Option.not_isSome_iff_eq_none]
      intro hsome
      cases cbpOnly <;> simp_all
    simp [isExhausted, hnone]

lemma consumePersistent_loses (cbpOnly : Bool) (entry : PitEntry) :
    Loses entry (consumePersistent cbpOnly entry).1 := by
  have hsub : (consumePersistent cbpOnly entry).1.inRecords <+~
      (entry.inRecords.map (spend cbpOnly entry.persistent.isSome)).map Prod.fst :=
    foldl_swapRemove_subperm _ _
  refine .of_spent rfl (by simp [consumePersistent]) rfl rfl rfl ?_ ?_
  · refine (subperm_map InRecord.faceId hsub).trans (List.Perm.subperm (List.Perm.of_eq ?_))
    rw [map_map, map_map]
    refine map_congr_left fun r _ => ?_
    obtain ⟨n, hspen⟩ := spend_spent cbpOnly entry.persistent.isSome r
    simp only [Function.comp_apply, hspen]
  · intro r' hr'
    have hmem := hsub.subset hr'
    rw [map_map, mem_map] at hmem
    obtain ⟨r, hr, rfl⟩ := hmem
    exact ⟨r, hr, spend_spent cbpOnly entry.persistent.isSome r⟩

lemma consumePersistent_nonempty {cbpOnly : Bool} {entry : PitEntry}
    (hkept : (consumePersistent cbpOnly entry).2.2 = false) (hne : entry.inRecords ≠ []) :
    (consumePersistent cbpOnly entry).1.inRecords ≠ [] := by
  intro hnil
  unfold consumePersistent at hkept hnil
  simp only at hkept hnil
  rw [hnil] at hkept
  cases hany : anyPerRecord cbpOnly entry with
  | true => simp [hany] at hkept
  | false =>
    -- no persistent record takes part, so no position is removed
    have hnone : exhausted (entry.inRecords.map (spend cbpOnly entry.persistent.isSome)) = [] := by
      refine filter_eq_nil_iff.mpr fun i _ => ?_
      rw [getElem?_map]
      cases hr : entry.inRecords[i]? with
      | none => simp
      | some r =>
        have hmem := mem_of_getElem? hr
        have hcnt := any_eq_false.mp hany r hmem
        simp [not_isExhausted_spend hcnt]
    rw [hnone] at hnil
    exact hne (by simpa using hnil)

lemma drain_loses (p : InRecord → Bool) (entry : PitEntry) :
    Loses entry { entry with inRecords := (drain p entry.inRecords).2 } :=
  .of_subperm rfl rfl rfl rfl rfl (drain_snd_subperm p entry.inRecords)

lemma reap_pit (tables : Tables) (token : UInt64) (entry : PitEntry) (now : ℕ) :
    (reap P tables token entry now).pit = tables.pit.remove token := rfl

variable (now : ℕ) {token : UInt64}

lemma consumePersistentEntry_loses {tables : Tables} (c : Collected)
    (cbpOnly : Bool) {entry : PitEntry} (hget : tables.pit.get token = some entry) :
    PitLoses tables.pit (consumePersistentEntry P now tables c token cbpOnly entry).1.pit := by
  unfold consumePersistentEntry
  simp only
  split_ifs with hreap
  · exact .remove_set _ token _
  · refine .set hget ⟨consumePersistent_loses cbpOnly entry, ?_⟩
    exact consumePersistent_nonempty (Bool.eq_false_iff.mpr hreap)

lemma consumePrefixEntry_loses {tables : Tables} (c : Collected)
    {entry : PitEntry} (hget : tables.pit.get token = some entry) :
    PitLoses tables.pit (consumePrefixEntry P now tables c token entry).1.pit := by
  unfold consumePrefixEntry
  simp only
  split_ifs with hemp
  · exact .remove_set _ token _
  · refine .set hget ⟨drain_loses (fun r => r.selector.canBePrefix) entry, fun _ => ?_⟩
    exact isEmpty_eq_false_iff.mp (Bool.eq_false_iff.mpr hemp)

lemma consumeEntry_loses (tables : Tables) (c : Collected) (token : UInt64) (cbpOnly : Bool) :
    PitLoses tables.pit (consumeEntry P now tables c token cbpOnly).1.pit := by
  unfold consumeEntry
  cases hget : tables.pit.get token with
  | none => exact .refl _
  | some entry =>
    simp only
    split_ifs
    · exact consumePersistentEntry_loses now c cbpOnly hget
    · exact consumePrefixEntry_loses now c hget
    · exact .remove _ token

lemma matchProcess_loses (tables : Tables) (name : Name) (now : ℕ) :
    PitLoses tables.pit (PitMatchStage.process P tables name now).1.pit := by
  have hstep : ∀ (s : Tables × Collected) (l : UInt64 × Bool),
      PitLoses s.1.pit (consumeEntry P now s.1 s.2 l.1 l.2).1.pit :=
    fun s l => consumeEntry_loses now s.1 s.2 l.1 l.2
  exact PitLoses.foldl (fun s => s.1.pit) hstep (lookups P name) (tables, ⟨[], [], []⟩)

end Match

/-! ## The other operations -/

lemma expireEntry_loses (now : ℕ) (tables : Tables) (token : UInt64) :
    PitLoses tables.pit (expireEntry P now tables token).pit := by
  unfold expireEntry
  cases tables.pit.get token with
  | none => exact .refl _
  | some entry => exact .remove _ token

lemma runExpiryTask_loses (now : ℕ) (reapOrphans : Bool) :
    PitLoses tables.pit (runExpiryTask P tables now reapOrphans).pit := by
  have hpit : PitLoses tables.pit
      (if reapOrphans then tables.pit.reapOrphans now else tables.pit) := by
    split_ifs
    · exact .of_entries rfl
    · exact .refl _
  apply hpit.trans
  exact .foldl Tables.pit (expireEntry_loses now) _ { tables with pit := _ }

lemma parkDyingRecords_entries (entry : PitEntry) (faceId : ℕ) :
    (pit.parkDyingRecords entry faceId).entries = pit.entries := by
  refine Run.foldl_unchanged Pit.entries (fun pit r => ?_) _ _
  split_ifs
  · rfl
  · split
    · unfold Pit.parkOrphan
      split_ifs <;> rfl
    · rfl

section FaceRemoval

variable {entry faceId}

/-- What the two loops behind the scan do to an entry that stays. -/
def PitEntry.prune (faceId : ℕ) (self : PitEntry) : PitEntry :=
  let lostUpstream := self.outRecords.any fun r => r.faceId = faceId
  { self with
    inRecords := self.inRecords.filter fun r => r.faceId ≠ faceId
    outRecords := self.outRecords.filter fun r => r.faceId ≠ faceId
    upstreamLost := self.upstreamLost || lostUpstream }

/-- All in-records of an entry, and there are some, are those of a face. -/
def AllOn (faceId : ℕ) (entry : PitEntry) : Prop :=
  entry.inRecords ≠ [] ∧ ∀ r ∈ entry.inRecords, r.faceId = faceId

lemma allOn_iff : AllOn faceId entry ↔
    (entry.inRecords ≠ [] ∧ entry.inRecords.all fun r => r.faceId = faceId) := by
  simp [AllOn]

instance (faceId : ℕ) : DecidablePred (AllOn faceId) := fun _ => decidable_of_iff' _ allOn_iff

/-- What becomes of an entry. -/
def survivor (faceId : ℕ) (entry : PitEntry) : Option PitEntry :=
  if AllOn faceId entry then none else some (entry.prune faceId)

lemma prune_eq_self (hin : (entry.inRecords.any fun r => r.faceId = faceId) = false)
    (hout : (entry.outRecords.any fun r => r.faceId = faceId) = false) :
    entry.prune faceId = entry := by
  have hin' : entry.inRecords.filter (fun r => r.faceId ≠ faceId) = entry.inRecords := by
    refine filter_eq_self.mpr fun r hr => ?_
    simpa using any_eq_false.mp hin r hr
  have hout' : entry.outRecords.filter (fun r => r.faceId ≠ faceId) = entry.outRecords := by
    refine filter_eq_self.mpr fun r hr => ?_
    simpa using any_eq_false.mp hout r hr
  rw [PitEntry.prune, hin', hout', hout, Bool.or_false]

lemma any_prune_inRecords :
    ((entry.prune faceId).inRecords.any fun r => r.faceId = faceId) = false := by
  simp [PitEntry.prune]

lemma any_prune_outRecords :
    ((entry.prune faceId).outRecords.any fun r => r.faceId = faceId) = false := by
  simp [PitEntry.prune]

lemma prune_prune : (entry.prune faceId).prune faceId = entry.prune faceId :=
  prune_eq_self any_prune_inRecords any_prune_outRecords

lemma survivor_bind_survivor :
    (survivor faceId entry).bind (survivor faceId) = survivor faceId entry := by
  by_cases hall : AllOn faceId entry
  · rw [survivor, if_pos hall]
    rfl
  · have hpruned : ¬ AllOn faceId (entry.prune faceId) := by
      rintro ⟨hne, hon⟩
      obtain ⟨r, hr⟩ := exists_mem_of_ne_nil _ hne
      exact absurd (hon r hr) (by simpa using (mem_filter.mp hr).2)
    rw [survivor, if_neg hall, Option.bind_some, survivor, if_neg hpruned, prune_prune]

variable {token : UInt64}

/-- `remove_face` on one entry removes it, or takes the face's records out of it. -/
lemma removeFaceEntry_entries (hget : pit.get token = some entry) :
    AllOn faceId entry ∧ (pit.removeFaceEntry faceId token).entries = (pit.remove token).entries ∨
      ¬ AllOn faceId entry ∧ Remains entry (entry.prune faceId) ∧
        ((pit.removeFaceEntry faceId token).entries = pit.entries ∧
            entry.prune faceId = entry ∨
          (pit.removeFaceEntry faceId token).entries =
            (pit.set token (entry.prune faceId)).entries) := by
  unfold Pit.removeFaceEntry
  rw [hget]
  simp only [← allOn_iff]
  -- parking budgets leaves the entries alone
  generalize hpar : (if (entry.inRecords.any fun r => decide (r.faceId = faceId)) = true then
    pit.parkDyingRecords entry faceId else pit) = parked
  have hes : parked.entries = pit.entries := by
    rw [← hpar]
    split_ifs
    · exact parkDyingRecords_entries pit entry faceId
    · rfl
  by_cases hall : AllOn faceId entry
  · refine .inl ⟨hall, ?_⟩
    rw [if_pos hall, Pit.remove, hes]
    rfl
  have hremains : Remains entry (entry.prune faceId) := by
    refine ⟨.of_subperm rfl rfl rfl rfl rfl filter_sublist.subperm, fun hne hnil => ?_⟩
    refine hall ⟨hne, fun r hr => ?_⟩
    simpa using filter_eq_nil_iff.mp hnil r hr
  refine .inr ⟨hall, hremains, ?_⟩
  rw [if_neg hall]
  split_ifs with hany
  · refine .inr ?_
    rw [Pit.set, hes]
    rfl
  · rw [Bool.not_eq_true, Bool.or_eq_false_iff] at hany
    exact .inl ⟨hes, prune_eq_self hany.1 hany.2⟩

lemma get_removeFaceEntry (token' : UInt64) : (pit.removeFaceEntry faceId token).get token' =
    if token' = token then (pit.get token').bind (survivor faceId) else pit.get token' := by
  split_ifs with htok
  · subst htok
    cases hget : pit.get token' with
    | none => rw [Pit.removeFaceEntry, hget, hget, Option.bind_none]
    | some entry =>
      rw [Option.bind_some, survivor]
      rcases removeFaceEntry_entries pit hget with ⟨hall, hes⟩ | ⟨hall, -, ⟨hes, hsame⟩ | hes⟩
      · rw [if_pos hall, get_of_entries hes, Pit.get_remove, if_pos rfl]
      · rw [if_neg hall, get_of_entries hes, hget, hsame]
      · rw [if_neg hall, get_of_entries hes, Pit.get_set, if_pos rfl]
  · cases hget : pit.get token with
    | none => rw [Pit.removeFaceEntry, hget]
    | some entry =>
      rcases removeFaceEntry_entries pit hget with ⟨-, hes⟩ | ⟨-, -, ⟨hes, -⟩ | hes⟩
      · rw [get_of_entries hes, Pit.get_remove, if_neg htok]
      · rw [get_of_entries hes]
      · rw [get_of_entries hes, Pit.get_set, if_neg htok]

/-- **What `remove_face` leaves at a token.** -/
lemma get_removeFace : (pit.removeFace faceId).get token =
    (pit.get token).bind (survivor faceId) := by
  have hfold : ∀ (tokens : List UInt64) (pit : Pit),
      (tokens.foldl (Pit.removeFaceEntry faceId) pit).get token =
        if token ∈ tokens then (pit.get token).bind (survivor faceId) else pit.get token := by
    intro tokens
    induction tokens with
    | nil => simp
    | cons t tokens ih =>
      intro pit
      rw [foldl_cons, ih, get_removeFaceEntry]
      by_cases htok : token = t
      · -- a token that comes again finds its entry pruned already
        subst htok
        cases pit.get token with
        | none => simp
        | some entry => simp [survivor_bind_survivor]
      · simp [htok]
  rw [Pit.removeFace, hfold]
  split_ifs with hmem
  · rfl
  · cases hget : pit.get token with
    | none => rfl
    | some entry => exact absurd (mem_tokens_of_get hget) hmem

end FaceRemoval

lemma removeFaceEntry_loses (pit : Pit) (token : UInt64) :
    PitLoses pit (pit.removeFaceEntry faceId token) := by
  cases hget : pit.get token with
  | none =>
    rw [Pit.removeFaceEntry, hget]
    exact .refl _
  | some entry =>
    rcases removeFaceEntry_entries pit hget with ⟨-, hes⟩ | ⟨-, hrem, ⟨hes, -⟩ | hes⟩
    · exact (PitLoses.remove pit token).trans (PitLoses.of_entries hes)
    · exact .of_entries hes
    · exact (PitLoses.set hget hrem).trans (PitLoses.of_entries hes)

lemma addOutRecord_remains (nonce sentAt : ℕ) :
    Remains entry (entry.addOutRecord faceId nonce sentAt) := by
  unfold addOutRecord
  split_ifs
  all_goals exact ⟨.of_subperm rfl rfl rfl rfl rfl (.refl _), id⟩

/-- **Only Interests add to the table**, and only they put off the end of an entry. -/
theorem step_loses (event : Event) (h : ∀ a, event ≠ .interest a) :
    PitLoses tables.pit (step P tables event).pit := by
  cases event with
  | interest a => exact absurd rfl (h a)
  | data d now => exact matchProcess_loses tables d.name now
  | expiry now reapOrphans => exact runExpiryTask_loses tables now reapOrphans
  | forwarded token faceId nonce now =>
    unfold step
    cases hget : tables.pit.get token with
    | none =>
      simp only [hget]
      exact .refl _
    | some entry =>
      simp only [hget]
      exact .set hget (addOutRecord_remains entry faceId nonce now)
  | discarded token now => exact .remove _ token
  | faceRemoved faceId now =>
    exact .foldl id (removeFaceEntry_loses faceId) _ tables.pit

theorem step_shrinks (event : Event) (h : ∀ a, event ≠ .interest a) :
    PitShrinks tables.pit (step P tables event).pit :=
  (step_loses tables event h).shrinks

/-! ## The invariant -/

open PitCheckStage

/-- The name under which `insert_dead_nonces` remembers the nonces of an entry. -/
def deadKeyName (entry : PitEntry) : Name :=
  if entry.persistent.isSome then stripDigestComponents entry.name else entry.name

/-- What holds of the entry at a token: it is keyed by `key` and `disc`, all its records come from
Interests with that key and of that kind, and the Interests added to it were within the bounds for
requests. With `mirrored`, its nonces will be remembered under the key. -/
structure EntryOk (P : Platform) (mirrored : Prop) (token : UInt64) (entry : PitEntry) (key : Name)
    (disc : PitKeyDiscriminator) : Prop where
  token_eq : token = nameToken P key disc
  persistent_iff : entry.persistent.isSome = true ↔ disc = .persistentAttach
  record_persistent_iff : ∀ r ∈ entry.inRecords,
    (r.persistent.isSome = true ↔ disc = .persistentAttach)
  record_key : ∀ r ∈ entry.inRecords, keyName r.interest = key
  record_selector : ∀ r ∈ entry.inRecords, r.selector = r.interest.selectors
  record_name : ∀ r ∈ entry.inRecords, r.interest.name ≠ []
  inserted_key : ∀ i ∈ entry.inserted, keyName i = key
  inserted_nonce : ∀ i ∈ entry.inserted, nonceOf i ∈ entry.noncesSeen
  inserted_ok : ∀ i ∈ entry.inserted, ∀ req, i.subscriptionRequest = some req → requestOk req = true
  dead_key : mirrored → deadKeyName entry = key

/-- The invariant of the table: every entry is in order, and its key is one of `keys`. -/
def PitOk (P : Platform) (mirrored : Prop) (keys : Set Name) (pit : Pit) : Prop :=
  ∀ token entry, pit.get token = some entry →
    ∃ key ∈ keys, ∃ disc, EntryOk P mirrored token entry key disc

def NoCollision (P : Platform) (keys : Set Name) : Prop :=
  ∀ n ∈ keys, ∀ n' ∈ keys, ∀ disc disc', nameToken P n disc = nameToken P n' disc' →
    n = n' ∧ disc = disc'

section Invariant

variable {mirrored : Prop} {keys : Set Name} {token : UInt64} {entry entry' : PitEntry} {key : Name}
  {disc : PitKeyDiscriminator}

lemma EntryOk.shrink (h : EntryOk P mirrored token entry key disc) (hs : Shrinks entry entry') :
    EntryOk P mirrored token entry' key disc where
  token_eq := h.token_eq
  persistent_iff := by
    rw [hs.persistent_eq]
    exact h.persistent_iff
  record_persistent_iff := by
    intro r' hr'
    obtain ⟨r, hr, -, -, hp⟩ := hs.records r' hr'
    rw [hp]
    exact h.record_persistent_iff r hr
  record_key := by
    intro r' hr'
    obtain ⟨r, hr, hi, -, -⟩ := hs.records r' hr'
    rw [hi]
    exact h.record_key r hr
  record_selector := by
    intro r' hr'
    obtain ⟨r, hr, hi, hsel, -⟩ := hs.records r' hr'
    rw [hi, hsel]
    exact h.record_selector r hr
  record_name := by
    intro r' hr'
    obtain ⟨r, hr, hi, -, -⟩ := hs.records r' hr'
    rw [hi]
    exact h.record_name r hr
  inserted_key := by
    rw [hs.inserted_eq]
    exact h.inserted_key
  inserted_nonce := by
    rw [hs.inserted_eq, hs.nonces_eq]
    exact h.inserted_nonce
  inserted_ok := by
    rw [hs.inserted_eq]
    exact h.inserted_ok
  dead_key := by
    intro hm
    rw [deadKeyName, hs.persistent_eq, hs.name_eq]
    exact h.dead_key hm

lemma PitOk.shrink {pit pit' : Pit} (h : PitOk P mirrored keys pit) (hs : PitShrinks pit pit') :
    PitOk P mirrored keys pit' := by
  intro token entry' hget'
  obtain ⟨entry, hget, hshr⟩ := hs token entry' hget'
  obtain ⟨key, hkey, disc, hent⟩ := h token entry hget
  exact ⟨key, hkey, disc, hent.shrink hshr⟩

lemma PitOk.set {pit : Pit} (h : PitOk P mirrored keys pit) (hkey : key ∈ keys)
    (hent : EntryOk P mirrored token entry key disc) :
    PitOk P mirrored keys (pit.set token entry) := by
  intro token' entry' hget'
  rw [Pit.get_set] at hget'
  split_ifs at hget' with heq
  · cases hget'
    rw [heq]
    exact ⟨key, hkey, disc, hent⟩
  · exact h token' entry' hget'

/-- Adding the record of an Interest of the entry's key and kind keeps the entry in order. -/
lemma EntryOk.add (h : EntryOk P mirrored token entry key disc) {r : InRecord}
    (hdisc : r.persistent.isSome = true ↔ disc = .persistentAttach)
    (hkey : keyName r.interest = key) (hsel : r.selector = r.interest.selectors)
    (hname : r.interest.name ≠ []) (hnc : r.nonce = nonceOf r.interest)
    (hreq : ∀ req, r.interest.subscriptionRequest = some req → requestOk req = true) :
    EntryOk P mirrored token (entry.addInRecordWithPersistent r) key disc := by
  refine ⟨h.token_eq, h.persistent_iff, ?_, ?_, ?_, ?_, ?_, ?_, ?_, h.dead_key⟩
  · intro r' hr'
    rcases mem_inRecords_add.mp hr' with hr' | rfl
    · exact h.record_persistent_iff r' hr'
    · exact hdisc
  · intro r' hr'
    rcases mem_inRecords_add.mp hr' with hr' | rfl
    · exact h.record_key r' hr'
    · exact hkey
  · intro r' hr'
    rcases mem_inRecords_add.mp hr' with hr' | rfl
    · exact h.record_selector r' hr'
    · exact hsel
  · intro r' hr'
    rcases mem_inRecords_add.mp hr' with hr' | rfl
    · exact h.record_name r' hr'
    · exact hname
  · intro i hi
    rcases mem_inserted_add.mp hi with hi | rfl
    · exact h.inserted_key i hi
    · exact hkey
  · intro i hi
    apply mem_noncesSeen_add.mpr
    rcases mem_inserted_add.mp hi with hi | rfl
    · exact .inl (h.inserted_nonce i hi)
    · exact .inr hnc.symm
  · intro i hi
    rcases mem_inserted_add.mp hi with hi | rfl
    · exact h.inserted_ok i hi
    · exact hreq

end Invariant

/-! ## Interests -/

def Arrival.degraded (a : Arrival) : Bool :=
  a.interest.subscriptionRequest.isSome && !a.validated

/-- What a run supposes of an Interest: it was decoded from a packet, and its key is one of `keys`.
With `mirrored`, an Interest with an invalid request and a digest at the end of its name finds an
entry under its key. -/
structure Supposed (P : Platform) (mirrored : Prop) (keys : Set Name) (pit : Pit) (a : Arrival) :
    Prop where
  decoded : ∃ raw, Interest.decode raw = .ok a.interest
  key_mem : keyName a.interest ∈ keys
  mirrors : mirrored → a.degraded = true → stripDigestComponents a.interest.name = a.interest.name ∨
    (pit.get (nameToken P (keyName a.interest) .classical)).isSome = true

/-- `checkPersistent` leaves the entries alone; when it lets an Interest pass, the request of the
Interest is within the bounds, and its state is persistent if the request was validated. -/
lemma checkPersistent_spec (a : Arrival) :
    (checkPersistent pit a).1.entries = pit.entries ∧
      ∀ persistent, (checkPersistent pit a).2 = .ok persistent →
        (∀ req, a.interest.subscriptionRequest = some req → requestOk req = true) ∧
        (persistent.isSome = true ↔
          a.interest.subscriptionRequest.isSome = true ∧ a.validated = true) := by
  unfold checkPersistent
  cases hreq : a.interest.subscriptionRequest with
  | none =>
    refine ⟨rfl, fun persistent h => ?_⟩
    cases h
    simp
  | some req =>
    by_cases hok : requestOk req = false
    · simp only [hok, if_true]
      exact ⟨trivial, fun persistent h => nomatch h⟩
    rw [Bool.not_eq_false] at hok
    have hall : ∀ req', some req = some req' → requestOk req' = true := by
      intro req' heq
      cases heq
      exact hok
    cases hval : a.validated with
    | false =>
      simp only [hok, Bool.true_eq_false, if_false, Bool.false_eq_true]
      refine ⟨trivial, fun persistent h => ?_⟩
      cases h
      exact ⟨hall, by simp⟩
    | true =>
      simp only [hok, Bool.true_eq_false, if_false, if_true]
      cases req.subscriptionId with
      | none =>
        refine ⟨rfl, fun persistent h => ?_⟩
        cases h
        exact ⟨hall, by simp⟩
      | some id =>
        refine ⟨rfl, fun persistent h => ?_⟩
        cases h
        exact ⟨hall, by simp⟩

lemma discOf_eq_iff (persistent : Option PersistentState) :
    discOf persistent = .persistentAttach ↔ persistent.isSome = true := by
  unfold discOf
  split_ifs with h
  · simp [h]
  · simp [h]

/-- The Interest gets as far as the table, with this state of its subscription. -/
structure Reaches (P : Platform) (tables : Tables) (a : Arrival)
    (persistent : Option PersistentState) : Prop where
  fresh : ¬ (a.interest.sigInfo.isSome ∧ a.replayed = true)
  passed : (checkPersistent tables.pit a).2 = .ok persistent
  alive : ∀ dnl, tables.deadNonceList = some dnl →
    dnl.contains ⟨NameHashes.fullNameHash P (keyName a.interest), nonceOf a.interest⟩ a.arrival
      = false

def tokenOf (P : Platform) (a : Arrival) (persistent : Option PersistentState) : UInt64 :=
  nameToken P (keyName a.interest) (discOf persistent)

/-- The entry of an Interest after it was entered. -/
def entered (P : Platform) (pit : Pit) (a : Arrival) (persistent : Option PersistentState) :
    PitEntry :=
  match pit.get (tokenOf P a persistent) with
  | some entry => (onExisting a persistent entry).1
  | none => onNew a persistent

lemma checkEntry_fst (a : Arrival) (persistent : Option PersistentState) :
    (checkEntry pit (tokenOf P a persistent) a persistent).1 =
      pit.set (tokenOf P a persistent) (entered P pit a persistent) := by
  unfold checkEntry entered
  cases pit.get (tokenOf P a persistent) with
  | none => rfl
  | some entry => rfl

lemma entered_congr {pit pit' : Pit} (h : pit'.entries = pit.entries) (a : Arrival)
    (persistent : Option PersistentState) :
    entered P pit' a persistent = entered P pit a persistent := by
  rw [entered, entered, get_of_entries h]

/-- **What an Interest does to the table**: it is entered at its token, or nothing changes. -/
lemma checkProcess_entries (a : Arrival) :
    (∃ persistent, Reaches P tables a persistent ∧
      (process P tables a).1.pit.entries =
        (tables.pit.set (tokenOf P a persistent) (entered P tables.pit a persistent)).entries) ∨
    (∀ persistent, ¬ Reaches P tables a persistent) ∧
      (process P tables a).1.pit.entries = tables.pit.entries := by
  obtain ⟨hes, -⟩ := checkPersistent_spec tables.pit a
  unfold process
  split_ifs with hrpl
  · exact .inr ⟨fun _ h => h.fresh hrpl, rfl⟩
  split
  · next pit' reason heq =>
    rw [heq] at hes
    refine .inr ⟨fun _ h => ?_, hes⟩
    have hpsd := h.passed
    rw [heq] at hpsd
    cases hpsd
  · next pit' persistent heq =>
    rw [heq] at hes
    unfold admitInterest
    simp only
    split_ifs with hdead
    · refine .inr ⟨fun _ h => ?_, hes⟩
      split at hdead
      · next dnl hdnl =>
        rw [h.alive dnl hdnl] at hdead
        cases hdead
      · cases hdead
    · refine .inl ⟨persistent, ⟨hrpl, by rw [heq], fun dnl hdnl => ?_⟩, ?_⟩
      · rw [hdnl] at hdead
        exact Bool.eq_false_iff.mpr hdead
      · have hfst := congrArg Pit.entries (checkEntry_fst (P := P) pit' a persistent)
        rw [entered_congr hes, Pit.set, hes] at hfst
        exact hfst

lemma name_ne_nil_of_decode {raw : Bytes} {i : Interest} (h : Interest.decode raw = .ok i) :
    i.name ≠ [] := by
  obtain ⟨⟨⟨typ, value⟩, rest⟩, _, h⟩ := bind_eq_ok_iff.mp h
  obtain ⟨_, _, h⟩ := bind_eq_ok_iff.mp h
  obtain ⟨⟨⟨nameTyp, nameVal⟩, body⟩, _, h⟩ := bind_eq_ok_iff.mp h
  obtain ⟨_, _, h⟩ := bind_eq_ok_iff.mp h
  obtain ⟨name, _, h⟩ := bind_eq_ok_iff.mp h
  obtain ⟨_, hne, h⟩ := bind_eq_ok_iff.mp h
  obtain ⟨hasAppParams, _, h⟩ := bind_eq_ok_iff.mp h
  obtain ⟨_, _, h⟩ := bind_eq_ok_iff.mp h
  cases h
  exact ensure_eq_ok_iff.mp hne

section Admission

variable {mirrored : Prop} {keys : Set Name} {pit : Pit} {a : Arrival}
  {persistent : Option PersistentState}

section

variable (ha : Supposed P mirrored keys pit a)
  (hreq : ∀ req, a.interest.subscriptionRequest = some req → requestOk req = true)
include ha hreq

lemma onNew_ok
    (hpers : persistent.isSome = true ↔
      a.interest.subscriptionRequest.isSome = true ∧ a.validated = true)
    (hget : pit.get (nameToken P (keyName a.interest) (discOf persistent)) = none) :
    EntryOk P mirrored (nameToken P (keyName a.interest) (discOf persistent))
      (onNew a persistent) (keyName a.interest) (discOf persistent) := by
  obtain ⟨raw, hraw⟩ := ha.decoded
  have hdead : mirrored → persistent = none → a.interest.name = keyName a.interest := by
    intro hm hnone
    unfold keyName
    split_ifs with hsome
    · have hdeg : a.degraded = true := by
        simp only [hnone, Option.isSome_none, Bool.false_eq_true, hsome, true_and, false_iff,
          Bool.not_eq_true] at hpers
        simp [Arrival.degraded, hsome, hpers]
      rcases ha.mirrors hm hdeg with hstr | hent
      · exact hstr.symm
      · have hgone : pit.get (nameToken P (keyName a.interest) .classical) = none := by
          rw [hnone] at hget
          exact hget
        rw [hgone] at hent
        cases hent
    · rfl
  apply EntryOk.add
  · cases persistent with
    | none => exact ⟨rfl, by simp [new, discOf], by simp [new],
        by simp [new], by simp [new], by simp [new],
        by simp [new], by simp [new], by simp [new],
        fun hm => hdead hm rfl⟩
    | some ps =>
      refine ⟨rfl, by simp [discOf], by simp [new],
        by simp [new], by simp [new], by simp [new],
        by simp [new], by simp [new], by simp [new], fun _ => ?_⟩
      have hsome : a.interest.subscriptionRequest.isSome = true := (hpers.mp rfl).1
      simp [deadKeyName, keyName, hsome, new]
  · exact (discOf_eq_iff persistent).symm
  · rfl
  · rfl
  · exact name_ne_nil_of_decode hraw
  · rfl
  · exact hreq

lemma onExisting_ok {token : UInt64} {entry : PitEntry} {disc : PitKeyDiscriminator}
    (hdisc : discOf persistent = disc)
    (hent : EntryOk P mirrored token entry (keyName a.interest) disc) :
    EntryOk P mirrored token (onExisting a persistent entry).1 (keyName a.interest) disc := by
  obtain ⟨raw, hraw⟩ := ha.decoded
  have hname := name_ne_nil_of_decode hraw
  have hiff : persistent.isSome = true ↔ disc = .persistentAttach := by
    rw [← hdisc, discOf_eq_iff]
  unfold onExisting
  split_ifs with hloop
  · exact hent.shrink { Shrinks.refl entry with }
  cases persistent with
  | none =>
    exact hent.add hiff rfl rfl hname rfl hreq
  | some ps =>
    have hflt : Shrinks entry
        { entry with inRecords := entry.inRecords.filter fun r => r.faceId ≠ a.faceId } :=
      ⟨rfl, rfl, rfl, rfl, fun r hr => ⟨r, mem_of_mem_filter hr, rfl, rfl, rfl⟩⟩
    have hadd := (hent.shrink hflt).add (r := recordOf a (some ps)) hiff rfl rfl hname rfl hreq
    exact hadd.shrink { Shrinks.refl _ with }

end

lemma entered_ok (hkeys : NoCollision P keys) (hpit : PitOk P mirrored keys pit)
    (ha : Supposed P mirrored keys pit a)
    (hreq : ∀ req, a.interest.subscriptionRequest = some req → requestOk req = true)
    (hpers : persistent.isSome = true ↔
      a.interest.subscriptionRequest.isSome = true ∧ a.validated = true) :
    EntryOk P mirrored (tokenOf P a persistent) (entered P pit a persistent)
      (keyName a.interest) (discOf persistent) := by
  unfold entered
  cases hget : pit.get (tokenOf P a persistent) with
  | some entry =>
    obtain ⟨key, hkey, disc, hent⟩ := hpit _ entry hget
    obtain ⟨rfl, hdisc⟩ := hkeys _ ha.key_mem key hkey _ disc hent.token_eq
    rw [← hdisc] at hent
    exact onExisting_ok ha hreq rfl hent
  | none => exact onNew_ok ha hreq hpers hget

lemma checkProcess_ok {tables : Tables} (hkeys : NoCollision P keys)
    (hpit : PitOk P mirrored keys tables.pit) (ha : Supposed P mirrored keys tables.pit a) :
    PitOk P mirrored keys (process P tables a).1.pit := by
  rcases checkProcess_entries tables a with ⟨persistent, hrch, hes⟩ | ⟨-, hes⟩
  · obtain ⟨hreq, hpers⟩ := (checkPersistent_spec tables.pit a).2 persistent hrch.passed
    have hset := hpit.set ha.key_mem (entered_ok hkeys hpit ha hreq hpers)
    exact hset.shrink (PitLoses.of_entries hes).shrinks
  · exact hpit.shrink (PitLoses.of_entries hes).shrinks

end Admission

/-! ## Runs -/

/-- What a run supposes of an event. -/
def Supposes (P : Platform) (mirrored : Prop) (keys : Set Name) (tables : Tables) (event : Event) :
    Prop :=
  ∀ a, event = .interest a → Supposed P mirrored keys tables.pit a

def Tables.empty (deadNonceList : Option DeadNonceList) : Tables := ⟨⟨[], []⟩, deadNonceList⟩

section

variable {mirrored : Prop} {keys : Set Name} {tables : Tables} (hkeys : NoCollision P keys)
include hkeys

lemma step_ok {event : Event} (hpit : PitOk P mirrored keys tables.pit)
    (hevt : Supposes P mirrored keys tables event) :
    PitOk P mirrored keys (step P tables event).pit := by
  by_cases hintr : ∃ a, event = .interest a
  · obtain ⟨a, rfl⟩ := hintr
    exact checkProcess_ok hkeys hpit (hevt a rfl)
  · exact hpit.shrink (step_shrinks tables event fun a heq => hintr ⟨a, heq⟩)

/-- **Every reachable table is in order.** -/
theorem reach_ok {dnl : Option DeadNonceList}
    (hrch : Run.Reach (step P) (Supposes P mirrored keys) (.empty dnl) tables) :
    PitOk P mirrored keys tables.pit := by
  refine hrch.invariant (fun tables => PitOk P mirrored keys tables.pit) ?_ ?_
  · intro token entry hget
    cases hget
  · intro tables event hpit hevt
    exact step_ok hkeys hpit hevt

end

end NdnRs.Pit
