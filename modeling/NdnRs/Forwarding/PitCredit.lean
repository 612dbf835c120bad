import NdnRs.Forwarding.PitRecords

/-!
# What a Data takes from a subscription

A subscription has credit in its in-record, and its entry has credit of its own, from the first
subscriber. A Data takes credit from both. Under a longer name only the records with CanBePrefix
take part, but the credit of the entry is taken all the same, and the entry goes with it.

## Main results

* `longer_data_frame_iff` — when a longer Data changes nothing.
-/

namespace NdnRs.Pit

open Bytes SwapRemove Tlv List
open scoped List

open PitCheckStage PitMatchStage

variable {P : Platform}

/-! ## The lookups of a subscription -/

lemma flatMap_ite_singleton {α β : Type} [DecidableEq α] {l : List α} (hl : l.Nodup) (a : α)
    (b : β) : (l.flatMap fun x => if x = a then [b] else []) = if a ∈ l then [b] else [] := by
  induction l with
  | nil => rfl
  | cons x l ih =>
    obtain ⟨hx, hl⟩ := nodup_cons.mp hl
    rw [flatMap_cons, ih hl]
    by_cases heq : x = a
    · subst heq
      simp [hx]
    · simp [heq, Ne.symm heq]

section Lookups

variable {keys : Set Name} {d : Data} {key p : Name}

section

variable (hkeys : NoCollision P keys) (hd : PrefixesIn keys d)
include hkeys hd

section

variable (hkey : key <+: d.name) (hne : key ≠ [])
include hkey hne

lemma nameToken_eq_persistent_iff (hp : p <+: d.name) (hpne : p ≠ []) (disc : PitKeyDiscriminator) :
    nameToken P p disc = nameToken P key .persistentAttach ↔
      p = key ∧ disc = .persistentAttach := by
  constructor
  · exact hkeys p (hd p hp hpne) key (hd key hkey hne) disc .persistentAttach
  · rintro ⟨rfl, rfl⟩
    rfl

lemma filter_pair (hp : p <+: d.name) (hpne : p ≠ []) (cbpOnly : Bool) :
    ([(nameToken P p .persistentAttach, cbpOnly), (nameToken P p .classical, cbpOnly)].filter
      fun l => l.1 = nameToken P key .persistentAttach) =
    if p = key then [(nameToken P key .persistentAttach, cbpOnly)] else [] := by
  rw [filter_cons, filter_cons, filter_nil]
  simp only [decide_eq_true_eq, nameToken_eq_persistent_iff hkeys hd hkey hne hp hpne,
    reduceCtorEq, and_true, and_false, if_false]
  split_ifs with heq
  · rw [heq]
  · rfl

lemma filter_stripped :
    ((strippedToken P d.name).toList.map fun token => (token, false)).filter
      (fun l => l.1 = nameToken P key .persistentAttach) = [] := by
  refine filter_eq_nil_iff.mpr fun l hl heq => ?_
  obtain ⟨token, htok, rfl⟩ := mem_map.mp hl
  obtain ⟨key', c, -, hsnoc, hne', rfl⟩ :=
    strippedToken_eq_some_iff.mp (Option.mem_toList.mp htok)
  have hpre : key' <+: d.name := ⟨[c], hsnoc.symm⟩
  have hiff := nameToken_eq_persistent_iff hkeys hd hkey hne hpre hne' .classical
  cases (hiff.mp (of_decide_eq_true heq)).2

/-- Of the lookups of proper prefixes, the one at the token of a subscription. -/
lemma filter_walk :
    (((range d.name.length).drop 1).reverse.flatMap fun n =>
      [(nameToken P (d.name.take n) .persistentAttach, true),
        (nameToken P (d.name.take n) .classical, true)]).filter
      (fun l => l.1 = nameToken P key .persistentAttach) =
    if key ≠ d.name then [(nameToken P key .persistentAttach, true)] else [] := by
  have hone : ∀ n ∈ ((range d.name.length).drop 1).reverse,
      ([(nameToken P (d.name.take n) .persistentAttach, true),
        (nameToken P (d.name.take n) .classical, true)].filter
          fun l => l.1 = nameToken P key .persistentAttach) =
      if n = key.length then [(nameToken P key .persistentAttach, true)] else [] := by
    intro n hn
    rw [mem_reverse, range_eq_range', drop_range', mem_range'_1] at hn
    have hpne : d.name.take n ≠ [] := by
      rw [← length_pos_iff, length_take]
      omega
    have htake : d.name.take n = key ↔ n = key.length := by
      constructor
      · rintro rfl
        rw [length_take]
        omega
      · rintro rfl
        exact (prefix_iff_eq_take.mp hkey).symm
    rw [filter_pair hkeys hd hkey hne (List.take_prefix n d.name) hpne]
    simp only [htake]
  have hmem : key.length ∈ ((range d.name.length).drop 1).reverse ↔ key ≠ d.name := by
    have hpos := length_pos_iff.mpr hne
    have hle := hkey.length_le
    rw [mem_reverse, range_eq_range', drop_range', mem_range'_1]
    constructor
    · rintro hlt rfl
      omega
    · intro hprop
      have hlt := lt_of_le_of_ne hle fun h => hprop (hkey.eq_of_length h)
      omega
  have hnd : ((range d.name.length).drop 1).reverse.Nodup :=
    nodup_reverse.mpr ((nodup_range).sublist (drop_sublist _ _))
  rw [filter_flatMap, flatMap_congr hone, flatMap_ite_singleton hnd]
  simp only [hmem]

/-- **A subscription's entry is looked up once**: exactly if the Data has its name, and as a prefix
if the name of the Data is longer. -/
lemma filter_lookups_persistent :
    ((lookups P d.name).filter fun l => l.1 = nameToken P key .persistentAttach).map Prod.snd =
      [decide (key ≠ d.name)] := by
  have hname : d.name ≠ [] := by
    rintro hnil
    rw [hnil, prefix_nil] at hkey
    exact hne hkey
  rw [lookups_eq, filter_append, filter_append, filter_stripped hkeys hd hkey hne,
    filter_walk hkeys hd hkey hne, filter_pair hkeys hd hkey hne (prefix_refl _) hname]
  by_cases hprop : key = d.name
  · simp [hprop]
  · simp [hprop, Ne.symm hprop]

end

lemma prefix_of_lookup (hname : d.name ≠ []) (hp : p ∈ keys) {disc : PitKeyDiscriminator}
    {token : UInt64} {cbpOnly : Bool} (h : Lookup P d.name token cbpOnly)
    (htok : token = nameToken P p disc) : p ≠ [] ∧ p <+: d.name := by
  cases h with
  | exact disc' =>
    obtain ⟨rfl, -⟩ := hkeys _ (hd _ (prefix_refl _) hname) p hp disc' disc htok
    exact ⟨hname, prefix_refl _⟩
  | stripped key' c hc hsnoc hne =>
    have hpre : key' <+: d.name := ⟨[c], hsnoc.symm⟩
    obtain ⟨rfl, -⟩ := hkeys _ (hd _ hpre hne) p hp .classical disc htok
    exact ⟨hne, hpre⟩
  | proper key' disc' hpre hne hprop =>
    obtain ⟨rfl, -⟩ := hkeys _ (hd _ hpre hne) p hp disc' disc htok
    exact ⟨hne, hpre⟩

end

end Lookups

/-! ## One lookup -/

section OneLookup

variable {cbpOnly entryLevel : Bool} {entry : PitEntry} {r r' : InRecord}

/-- What a lookup leaves of a record. -/
def afterRecord (cbpOnly entryLevel : Bool) (r : InRecord) : Option InRecord :=
  if isExhausted (spend cbpOnly entryLevel r) then none else some (spend cbpOnly entryLevel r).1

lemma consumePersistent_perm (cbpOnly : Bool) (entry : PitEntry) :
    (consumePersistent cbpOnly entry).1.inRecords ~
      entry.inRecords.filterMap (afterRecord cbpOnly entry.persistent.isSome) := by
  set spent := entry.inRecords.map (spend cbpOnly entry.persistent.isSome) with hspen
  have hleft : (consumePersistent cbpOnly entry).1.inRecords =
      ((positions isExhausted spent spent.length).reverse.foldl swapRemove spent).map Prod.fst :=
    foldl_swapRemove_map Prod.fst spent _
  rw [hleft]
  refine ((foldl_positions_length_perm isExhausted spent).map Prod.fst).trans (.of_eq ?_)
  rw [hspen]
  induction entry.inRecords with
  | nil => rfl
  | cons r rs ih =>
    rw [map_cons, filter_cons, filterMap_cons, afterRecord]
    cases isExhausted (spend cbpOnly entry.persistent.isSome r) with
    | true => exact ih
    | false => exact congrArg (_ :: ·) ih

/-- The lookup does not take the entry away by the entry's own credit. -/
def Lasts (cbpOnly : Bool) (entry : PitEntry) : Prop :=
  anyPerRecord cbpOnly entry = true ∨ ∀ ps, entry.persistent = some ps → 2 ≤ ps.dataCountRemaining

def Held (entry : Option PitEntry) (r : InRecord) : Prop := ∃ e, entry = some e ∧ r ∈ e.inRecords

lemma not_held_none (r : InRecord) : ¬ Held none r := by
  rintro ⟨e, he, -⟩
  cases he

lemma held_some_iff : Held (some entry) r ↔ r ∈ entry.inRecords := by
  constructor
  · rintro ⟨e, he, hr⟩
    cases he
    exact hr
  · exact fun hr => ⟨entry, rfl, hr⟩

lemma consumePersistent_reap (cbpOnly : Bool) (entry : PitEntry) :
    (consumePersistent cbpOnly entry).2.2 =
      if anyPerRecord cbpOnly entry then
        !(consumePersistent cbpOnly entry).1.inRecords.any fun r => r.persistent.isSome
      else (entry.persistent.map fun p => p.dataCountRemaining - 1) = some 0 := by
  unfold consumePersistent
  simp only [Option.map_map]
  rfl

/-- **The records of a subscription's entry after a lookup.** Each is left as it is, loses a credit,
or goes with its last one. -/
lemma held_afterLookup_iff (hsome : entry.persistent.isSome = true)
    (hrecs : ∀ r ∈ entry.inRecords, r.persistent.isSome = true) (hlas : Lasts cbpOnly entry) :
    Held (afterLookup cbpOnly entry) r' ↔
      ∃ r ∈ entry.inRecords, afterRecord cbpOnly true r = some r' := by
  have hmem : r' ∈ (consumePersistent cbpOnly entry).1.inRecords ↔
      ∃ r ∈ entry.inRecords, afterRecord cbpOnly true r = some r' := by
    rw [(consumePersistent_perm cbpOnly entry).mem_iff, mem_filterMap, hsome]
  unfold afterLookup
  simp only [hsome, Bool.or_true, if_true]
  rw [← hmem]
  cases hreap : (consumePersistent cbpOnly entry).2.2 with
  | false => exact held_some_iff
  | true =>
    refine iff_of_false (not_held_none r') fun hr' => ?_
    rw [consumePersistent_reap] at hreap
    split_ifs at hreap with hany
    · -- a record that is left is persistent
      obtain ⟨r, hr, hspen⟩ := (consumePersistent_loses cbpOnly entry).spent r' hr'
      have hsome' := hspen.isSome_eq.trans (hrecs r hr)
      rw [Bool.not_eq_true', any_eq_false] at hreap
      exact hreap r' hr' hsome'
    · obtain ⟨ps, hps⟩ := Option.isSome_iff_exists.mp hsome
      have htwo := (hlas.resolve_left hany) ps hps
      rw [hps] at hreap
      simp only [Option.map_some, Option.some.injEq, decide_eq_true_eq] at hreap
      omega

lemma anyPerRecord_eq_false (h : ∀ r ∈ entry.inRecords, r.selector.canBePrefix = false) :
    anyPerRecord true entry = false := by
  refine any_eq_false.mpr fun r hr => ?_
  simp [h r hr]

lemma afterLookup_true_ne_self (hsome : entry.persistent.isSome = true)
    (hcbp : ∀ r ∈ entry.inRecords, r.selector.canBePrefix = false) :
    afterLookup true entry ≠ some entry := by
  obtain ⟨ps, hps⟩ := Option.isSome_iff_exists.mp hsome
  unfold afterLookup
  simp only [hsome, Bool.or_true, if_true]
  rw [consumePersistent_reap, if_neg (Bool.eq_false_iff.mp (anyPerRecord_eq_false hcbp))]
  split_ifs with hreap
  · exact nofun
  intro heq
  have hcred := congrArg PitEntry.persistent (Option.some.inj heq)
  simp only [consumePersistent, hps, Option.map_some, Option.some.injEq,
    decide_eq_true_eq] at hcred hreap
  have hcnt := congrArg PersistentState.dataCountRemaining hcred
  simp only at hcnt
  omega

lemma IsClassical.afterLookup_true_self (h : IsClassical entry) (hne : entry.inRecords ≠ [])
    (hcbp : ∀ r ∈ entry.inRecords, r.selector.canBePrefix = false) :
    afterLookup true entry = some entry := by
  have hdrain : (drain (fun r => r.selector.canBePrefix) entry.inRecords).2 = entry.inRecords := by
    rw [drain, drainFrom_of_forall_not hcbp]
  have hemp : entry.inRecords.isEmpty = false := isEmpty_eq_false_iff.mpr hne
  simp only [afterLookup, h.not_persistent, Bool.false_eq_true, if_false, if_true, hdrain, hemp]

lemma afterLookups_self {cbpOnlys : List Bool}
    (h : ∀ cbpOnly ∈ cbpOnlys, afterLookup cbpOnly entry = some entry) :
    afterLookups (some entry) cbpOnlys = some entry := by
  induction cbpOnlys with
  | nil => rfl
  | cons cbpOnly cbpOnlys ih =>
    obtain ⟨hhead, htail⟩ := forall_mem_cons.mp h
    show afterLookups (afterLookup cbpOnly entry) cbpOnlys = some entry
    rw [hhead]
    exact ih htail

end OneLookup

/-! ## Data with longer names -/

section Frame

variable {keys : Set Name} {tables : Tables} {d : Data}

lemma nonempty_step (h : AllEntries (fun entry => entry.inRecords ≠ []) tables.pit)
    (event : Event) : AllEntries (fun entry => entry.inRecords ≠ []) (step P tables event).pit := by
  refine h.step Remains.nonempty fun a _ persistent _ => ⟨by simp [onNew_inRecords], ?_⟩
  intro entry _ hloop
  cases persistent with
  | none => simp [onExisting_none hloop, PitEntry.addInRecordWithPersistent]
  | some ps => simp [onExisting_some_inRecords hloop]

lemma reach_nonempty {dnl : Option DeadNonceList}
    (hrch : Run.Reach (step P) (Supposes P False keys) (.empty dnl) tables) :
    AllEntries (fun entry => entry.inRecords ≠ []) tables.pit :=
  hrch.invariant (fun tables => AllEntries _ tables.pit) (allEntries_empty dnl)
    fun _ event h _ => nonempty_step h event

/-- **What a longer name leaves alone.** In every reachable table, where tokens do not collide, a
Data leaves an entry at a shorter name without CanBePrefix as it is, unless the name is a prefix of
the Data's and the entry is a subscription's, or all that the Data's name has in addition is a
digest. -/
theorem longer_data_frame_iff {dnl : Option DeadNonceList} (hkeys : NoCollision P keys)
    (hreach : Run.Reach (step P) (Supposes P False keys) (.empty dnl) tables)
    (hd : PrefixesIn keys d) {p : Name} {disc : PitKeyDiscriminator} {entry : PitEntry}
    (hp : p ∈ keys) (hget : tables.pit.get (nameToken P p disc) = some entry)
    (hcbp : ∀ r ∈ entry.inRecords, r.selector.canBePrefix = false)
    (hlonger : p.length < d.name.length) (now : ℕ) :
    (PitMatchStage.process P tables d.name now).1.pit.get (nameToken P p disc) = some entry ↔
      ¬ (p ≠ [] ∧ p <+: d.name ∧
        (disc = .persistentAttach ∨ ∃ c, IsDigest c ∧ d.name = p ++ [c])) := by
  have hname : d.name ≠ [] := by
    intro hnil
    rw [hnil] at hlonger
    cases hlonger
  have hprop : p ≠ d.name := by
    rintro rfl
    exact absurd hlonger (lt_irrefl _)
  obtain ⟨key, hkey, disc', hent⟩ := reach_ok hkeys hreach _ entry hget
  obtain ⟨rfl, rfl⟩ := hkeys p hp key hkey disc disc' hent.token_eq
  have hlk : ∀ cbpOnly, (nameToken P p disc, cbpOnly) ∈ lookups P d.name →
      (cbpOnly = false ∧ disc = .classical ∧ ∃ c, IsDigest c ∧ d.name = p ++ [c]) ∨
        (cbpOnly = true ∧ p <+: d.name) := by
    intro cbpOnly hmem
    rcases lookup_key hkeys hd hname hkey hent (mem_lookups_iff.mp hmem) with
      ⟨-, heq⟩ | hstr | ⟨htrue, hpre, -⟩
    · exact absurd heq hprop
    · exact .inl hstr
    · exact .inr ⟨htrue, hpre⟩
  rw [process_fst]
  by_cases hpre : p ≠ [] ∧ p <+: d.name
  · rw [consumeAll_get, hget]
    cases disc with
    | persistentAttach =>
      refine iff_of_false ?_ (not_not.mpr ⟨hpre.1, hpre.2, .inl rfl⟩)
      rw [filter_lookups_persistent hkeys hd hpre.2 hpre.1, decide_eq_true hprop]
      exact afterLookup_true_ne_self (hent.persistent_iff.mpr rfl) hcbp
    | classical =>
      have hclas := hent.isClassical
      by_cases hdig : ∃ c, IsDigest c ∧ d.name = p ++ [c]
      · obtain ⟨c, hc, hsnoc⟩ := hdig
        have hmem := mem_lookups_iff.mpr (Lookup.stripped (P := P) p c hc hsnoc hpre.1)
        rw [hclas.afterLookups_of_false_mem (mem_filter_lookups.mpr hmem)]
        exact iff_of_false nofun (not_not.mpr ⟨hpre.1, hpre.2, .inr ⟨c, hc, hsnoc⟩⟩)
      · refine iff_of_true (afterLookups_self fun cbpOnly hmem => ?_) ?_
        · rcases hlk cbpOnly (mem_filter_lookups.mp hmem) with ⟨-, -, hsnoc⟩ | ⟨rfl, -⟩
          · exact absurd hsnoc hdig
          · exact hclas.afterLookup_true_self (reach_nonempty hreach _ entry hget) hcbp
        · rintro ⟨-, -, hdisc | hsnoc⟩
          · cases hdisc
          · exact hdig hsnoc
  · rw [consumeAll_get_of_not_mem, hget]
    · exact iff_of_true rfl fun h => hpre ⟨h.1, h.2.1⟩
    · intro cbpOnly hmem
      exact hpre (prefix_of_lookup hkeys hd hname hp (mem_lookups_iff.mp hmem) rfl)

section
open Sample

/-- A request for `count` Data within `seconds`. -/
def Sample.requestFor (count seconds : ℕ) : Bytes :=
  writeTlv SubscriptionRequest.tlvSubscriptionRequest ([1] ++ beBytes 4 count ++ beBytes 4 seconds)

/-- An Interest for `/a` with parameters, signed with ECDSA, which passes the validator. -/
def Sample.signed (params : Bytes) (faceId nonce time : ℕ) : Arrival where
  interest :=
    ⟨writeTlv TlvType.interest (Name.encodeToTlv nameADigest ++
      writeTlv TlvType.nonce (beBytes 4 nonce) ++ writeTlv TlvType.appParameters params ++
      writeTlv TlvType.interestSignatureInfo (writeTlv TlvType.signatureType [3] ++
        writeTlv TlvType.keyLocator (Name.encodeToTlv nameA)) ++
      writeTlv TlvType.interestSignatureValue [0x30, 6, 2, 1, 7, 2, 1, 8]), nameADigest⟩
  faceId := faceId
  arrival := time
  lpPitToken := none
  pointToPoint := false
  replayed := false
  validated := true

/-- A face subscribes to `/a` for so many Data, at a time in nanoseconds. -/
def Sample.subscribe (count seconds faceId nonce time : ℕ) : Arrival :=
  signed (requestFor count seconds) faceId nonce time

/-- Face 1 asks for `/a`, without CanBePrefix. -/
def Sample.plainA : Arrival := arrival (interest nameA false 7 none) 1 0

/-- The premises of `longer_data_frame_iff` hold of a run in which `/a` is pending without
CanBePrefix and the Data is for `/a/b`. -/
theorem longer_data_frame_plain :
    (run [.interest plainA]).pit.get (nameToken platform nameA .classical) =
      some (onNew plainA none) ∧
    (PitMatchStage.process platform (run [.interest plainA])
        (data nameAB).name 1).1.pit.get (nameToken platform nameA .classical) =
      some (onNew plainA none) := by
  have hget : (run [.interest plainA]).pit.get (nameToken platform nameA .classical) =
      some (onNew plainA none) := by
    decide
  have hrch : Run.Reach (step platform) (Supposes platform False {nameA, nameAB}) start
      (run [.interest plainA]) := by
    refine Run.Reach.refl.foldl ⟨supposes_interest ?_, trivial⟩
    exact supposed_plain (by decide) (by decide) (.inl rfl) 1 0
  refine ⟨hget, (longer_data_frame_iff noCollision_nameAB hrch prefixesIn_nameAB (.inl rfl) hget
    (by decide) (by decide) 1).mpr ?_⟩
  have hlast : ∀ c, (data nameAB).name = nameA ++ [c] → ¬ IsDigest c := by
    intro c hc
    have hb : (data nameAB).name = nameA ++ [.ofText "b"] := by
      decide
    cases append_cancel_left (hc.symm.trans hb)
    decide
  rintro ⟨-, -, hdisc | ⟨c, hc, hname⟩⟩
  · cases hdisc
  · exact hlast c hname hc

/-- **A longer name takes the credit of an exact subscription.** Face 1 subscribes to `/a`, without
CanBePrefix, for two Data. Two Data for `/a/b` go to no face; the first leaves the entry with a
credit of one, the second removes it. -/
theorem longer_data_takes_credit :
    let subscribed := run [.interest (subscribe 2 60 1 7 0)]
    let once := PitMatchStage.process platform subscribed (data nameAB).name 1
    let twice := PitMatchStage.process platform once.1 (data nameAB).name 2
    (∃ entry, subscribed.pit.get (nameToken platform nameA .persistentAttach) = some entry ∧
      (∀ r ∈ entry.inRecords, r.selector.canBePrefix = false) ∧
      entry.persistent.map PersistentState.dataCountRemaining = some 2) ∧
    (once.1.pit.get (nameToken platform nameA .persistentAttach)).map
      (fun entry => entry.persistent.map PersistentState.dataCountRemaining) = some (some 1) ∧
    once.2.outFaces = [] ∧ twice.2.outFaces = [] ∧
    twice.1.pit.get (nameToken platform nameA .persistentAttach) = none := by
  all_goals decide

end

end Frame

end NdnRs.Pit
