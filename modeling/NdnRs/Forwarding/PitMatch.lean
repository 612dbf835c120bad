import NdnRs.Forwarding.PitLookup
import NdnRs.Packet.DataRegion

/-!
# Which pending Interests a Data satisfies

The match stage looks a Data up under its own name, under its name without a digest at the end, and
under the proper prefixes of its name. The check stage files an Interest under its full name, unless
the Interest carries a request for a subscription.

## Main results

* `match_outFaces_complete` — which Interests surely get a Data.
* `servesFullName_iff` — when the Interests for its full name do.
* `sparesOtherNames_iff` — when those for other names stay.
-/

namespace NdnRs.Pit

open Bytes SwapRemove Tlv List TlvType

open PitCheckStage PitMatchStage

variable {P : Platform}

/-! ## A forwarder to run -/

namespace Sample

def ByExpiry (a b : NonceFingerprint × ℕ) : Prop := a.2 ≤ b.2

instance : DecidableRel ByExpiry := fun a b => inferInstanceAs (Decidable (a.2 ≤ b.2))

instance : Std.Total ByExpiry := ⟨fun a b => le_total a.2 b.2⟩

instance : IsTrans _ ByExpiry := ⟨fun _ _ _ h h' => le_trans (α := ℕ) h h'⟩

/-- A platform with simple hashes. -/
def platform : Platform where
  hashComponent c := c.typ * 0x10001 + UInt64.ofNat (leNat c.value) * 31
  hashToken hash disc := hash * 2 + (if disc = .persistentAttach then 1 else 0)
  sortByExpiry l := l.insertionSort ByExpiry
  sortByExpiry_perm := List.perm_insertionSort ByExpiry
  sortByExpiry_sorted := List.pairwise_insertionSort ByExpiry

/-- The wire of an Interest: name, CanBePrefix, nonce and ApplicationParameters. -/
def interestWire (name : Name) (canBePrefix : Bool) (nonce : ℕ) (params : Option Bytes) : Bytes :=
  writeTlv interest
    (Name.encodeToTlv name ++ (if canBePrefix then writeTlv TlvType.canBePrefix [] else []) ++
      writeTlv TlvType.nonce (beBytes 4 nonce) ++
      (params.map (writeTlv appParameters)).getD [])

def dataWire (name : Name) : Bytes :=
  writeTlv data (writeTlvs (Data.signedBody name [1] (List.replicate 32 0)))

def interest (name : Name) (canBePrefix : Bool) (nonce : ℕ) (params : Option Bytes) : Interest :=
  ⟨interestWire name canBePrefix nonce params, name⟩

def data (name : Name) : Data :=
  (Data.decode (dataWire name)).toOption.getD ⟨[], 0, 0, 0, 0, []⟩

/-- An Interest that arrives on a face at a time; a signature that it carries is invalid. -/
def arrival (i : Interest) (faceId time : ℕ) : Arrival :=
  ⟨i, faceId, time, none, false, false, false⟩

def nameA : Name := [.ofText "a"]

def nameAB : Name := [.ofText "a", .ofText "b"]

def nameADigest : Name := nameA ++ [⟨parametersSha256, .replicate 32 5⟩]

def start : Tables := .empty (some (.withLifetimeAndCapacity 6000000000 100))

def run (events : List Event) : Tables := events.foldl (step platform) start

variable {mirrored : Prop} {keys : Set Name}

lemma supposes_interest {tables : Tables} {a : Arrival}
    (h : Supposed P mirrored keys tables.pit a) :
    Supposes P mirrored keys tables (.interest a) := by
  rintro _ ⟨⟩
  exact h

lemma supposed_plain {pit : Pit} {i : Interest} (hdec : Interest.decode i.raw = .ok i)
    (hreq : i.subscriptionRequest = none) (hkey : i.name ∈ keys) (faceId time : ℕ) :
    Supposed P mirrored keys pit (arrival i faceId time) := by
  refine ⟨⟨i.raw, hdec⟩, ?_, fun _ hdeg => ?_⟩
  · show keyName i ∈ keys
    rw [keyName, hreq]
    exact hkey
  have hnot : (arrival i faceId time).degraded = false := by
    show (i.subscriptionRequest.isSome && !false) = false
    rw [hreq]
    rfl
  rw [hnot] at hdeg
  cases hdeg

end Sample

/-! ## Completeness -/

section Main

variable {keys : Set Name} {tables : Tables} {d : Data} {token : UInt64} {entry : PitEntry}
  {r : InRecord}

def PrefixesIn (keys : Set Name) (d : Data) : Prop := ∀ p, p <+: d.name → p ≠ [] → p ∈ keys

lemma prefixesIn_of_inits (h : ∀ p ∈ d.name.inits, p ≠ [] → p ∈ keys) : PrefixesIn keys d :=
  fun p hp hne => h p ((mem_inits p d.name).mpr hp) hne

/-- The record's Interest asks for the Data by a name without a digest: by the Data's name, or by a
proper prefix of it with CanBePrefix. -/
structure AsksFor (r : InRecord) (d : Data) : Prop where
  live : r.Live
  no_digest : ¬ HasTrailingDigest r.interest.name
  names : r.interest.name = d.name ∨
    (r.interest.name <+: d.name ∧ r.interest.name ≠ d.name ∧ r.selector.canBePrefix = true)

variable {i : Interest} {disc : PitKeyDiscriminator} {cbpOnly : Bool}

lemma keyName_of_no_digest (h : ¬ HasTrailingDigest i.name) : keyName i = i.name := by
  unfold keyName
  rw [stripDigestComponents_of_not h, ite_self]

variable {mirrored : Prop}

lemma lookup_key {key : Name} (hkeys : NoCollision P keys) (hd : PrefixesIn keys d)
    (hname : d.name ≠ []) (hkey : key ∈ keys) (hent : EntryOk P mirrored token entry key disc)
    (h : Lookup P d.name token cbpOnly) :
    (cbpOnly = false ∧ key = d.name) ∨
      (cbpOnly = false ∧ disc = .classical ∧ ∃ c, IsDigest c ∧ d.name = key ++ [c]) ∨
      (cbpOnly = true ∧ key <+: d.name ∧ key ≠ d.name) := by
  have htok := hent.token_eq
  cases h with
  | exact disc' =>
    obtain ⟨heq, -⟩ := hkeys _ (hd _ (prefix_refl _) hname) key hkey disc' disc htok
    exact .inl ⟨rfl, heq.symm⟩
  | stripped key' c hc hsnoc hne =>
    have hpre : key' <+: d.name := ⟨[c], hsnoc.symm⟩
    obtain ⟨rfl, rfl⟩ := hkeys _ (hd _ hpre hne) key hkey .classical disc htok
    exact .inr (.inl ⟨rfl, rfl, c, hc, hsnoc⟩)
  | proper key' disc' hpre hne hprop =>
    obtain ⟨rfl, -⟩ := hkeys _ (hd _ hpre hne) key hkey disc' disc htok
    exact .inr (.inr ⟨rfl, hpre, hprop⟩)

/-- **A Data reaches every face that waits for it.** In every reachable table, where tokens do not
collide, a Data goes once to every face with a record that asks for it. -/
theorem match_outFaces_complete {dnl : Option DeadNonceList} (hkeys : NoCollision P keys)
    (hreach : Run.Reach (step P) (Supposes P False keys) (.empty dnl) tables)
    (hd : PrefixesIn keys d) (now : ℕ) :
    (PitMatchStage.process P tables d.name now).2.outFaces.Nodup ∧
      ∀ token entry r, tables.pit.get token = some entry → r ∈ entry.inRecords → AsksFor r d →
        r.faceId ∈ (PitMatchStage.process P tables d.name now).2.outFaces := by
  rw [process_outFaces]
  refine ⟨(consumeAll_collected collected_nil_ok _).1.nodup, ?_⟩
  intro token entry r hget hr hasks
  obtain ⟨key, hkey, disc, hent⟩ := reach_ok hkeys hreach token entry hget
  have hkeyName : key = r.interest.name := by
    rw [← hent.record_key r hr, keyName_of_no_digest hasks.no_digest]
  have hne : key ≠ [] := by
    rw [hkeyName]
    exact hent.record_name r hr
  have htok := hent.token_eq
  apply consumeAll_collects collected_nil_ok hget hent hr hasks.live
  · rcases hasks.names with heq | ⟨hpre, hprop, -⟩
    · refine ⟨false, mem_lookups_iff.mpr ?_⟩
      rw [htok, hkeyName, heq]
      exact .exact disc
    · refine ⟨true, mem_lookups_iff.mpr ?_⟩
      rw [htok]
      rw [← hkeyName] at hpre hprop
      exact .proper key disc hpre hne hprop
  · intro hmem
    rcases hasks.names with heq | ⟨-, -, hcbp⟩
    · -- a prefix lookup cannot be at the token of the full name
      have hname : d.name ≠ [] := by
        rw [← heq, ← hkeyName]
        exact hne
      rcases lookup_key hkeys hd hname hkey hent (mem_lookups_iff.mp hmem) with
        ⟨hfal, -⟩ | ⟨hfal, -⟩ | ⟨-, -, hprop⟩
      · cases hfal
      · cases hfal
      · exact absurd (hkeyName.trans heq) hprop
    · exact hcbp

section
open Sample

/-- Face 1 asks for `/a` with CanBePrefix. -/
def Sample.first : Arrival := arrival (interest nameA true 7 none) 1 0

/-- Face 2 asks for `/a/b`. -/
def Sample.second : Arrival := arrival (interest nameAB false 8 none) 2 1

def Sample.askAB : List Event := [.interest first, .interest second]

lemma Sample.noCollision_nameAB : NoCollision platform {nameA, nameAB} := by
  rintro n (rfl | rfl) n' (rfl | rfl) disc disc'
  all_goals cases disc <;> cases disc' <;> decide

lemma Sample.prefixesIn_nameAB : PrefixesIn {nameA, nameAB} (data nameAB) := by
  have hinit : ∀ p ∈ (data nameAB).name.inits, p ≠ [] → p = nameA ∨ p = nameAB := by
    decide
  exact prefixesIn_of_inits hinit

lemma Sample.reach_askAB :
    Run.Reach (step platform) (Supposes platform False {nameA, nameAB}) start (run askAB) := by
  refine Run.Reach.refl.foldl ⟨supposes_interest ?_, supposes_interest ?_, trivial⟩
  · exact supposed_plain (by decide) (by decide) (.inl rfl) 1 0
  · exact supposed_plain (by decide) (by decide) (.inr rfl) 2 1

/-- The premises of `match_outFaces_complete` hold of a run in which the Data for `/a/b` has two
faces waiting for it. -/
theorem match_outFaces_complete_askAB :
    (PitMatchStage.process platform (run askAB) (data nameAB).name 2).2.outFaces.Nodup ∧
    1 ∈ (PitMatchStage.process platform (run askAB) (data nameAB).name 2).2.outFaces ∧
    2 ∈ (PitMatchStage.process platform (run askAB) (data nameAB).name 2).2.outFaces := by
  obtain ⟨hnd, hall⟩ :=
    match_outFaces_complete noCollision_nameAB reach_askAB prefixesIn_nameAB 2
  refine ⟨hnd, ?_, ?_⟩
  · exact hall (nameToken platform nameA .classical) (onNew first none) (recordOf first none)
      (by decide) (mem_singleton.mpr rfl)
      ⟨nofun, by decide, .inr ⟨by decide, by decide, by decide⟩⟩
  · exact hall (nameToken platform nameAB .classical) (onNew second none) (recordOf second none)
      (by decide) (mem_singleton.mpr rfl) ⟨nofun, by decide, .inl (by decide)⟩

end

/-! ## Interests by full name -/

def fullName (d : Data) : Name := d.name ++ [⟨implicitSha256, Sha256.digest d.raw⟩]

/-- A pending classical record, with where it is. -/
structure Pending (pit : Pit) (token : UInt64) (entry : PitEntry) (r : InRecord) : Prop where
  get_eq : pit.get token = some entry
  mem : r ∈ entry.inRecords
  classical : r.persistent = none

/-- The record is no longer pending. -/
def Gone (pit : Pit) (token : UInt64) (r : InRecord) : Prop :=
  ∀ entry, pit.get token = some entry → r ∉ entry.inRecords

/-- The Data goes to the face of every record that asks for it by its full name, and takes the
record away. -/
def ServesFullName (P : Platform) (tables : Tables) (d : Data) (now : ℕ) : Prop :=
  ∀ token entry r, Pending tables.pit token entry r → r.interest.name = fullName d →
    r.faceId ∈ (process P tables d.name now).2.outFaces ∧
      Gone (process P tables d.name now).1.pit token r

lemma Pending.entryOk (h : Pending tables.pit token entry r)
    (hpit : PitOk P mirrored keys tables.pit) :
    keyName r.interest ∈ keys ∧ EntryOk P mirrored token entry (keyName r.interest) .classical := by
  obtain ⟨key, hkey, disc, hent⟩ := hpit token entry h.get_eq
  rw [hent.record_key r h.mem]
  refine ⟨hkey, ?_⟩
  cases disc with
  | classical => exact hent
  | persistentAttach =>
    have hsome := (hent.record_persistent_iff r h.mem).mpr rfl
    rw [h.classical] at hsome
    cases hsome

lemma isDigest_implicit (value : Bytes) : IsDigest ⟨implicitSha256, value⟩ := .inr rfl

lemma keyName_fullName {d : Data} (h : i.name = fullName d) :
    keyName i = if i.subscriptionRequest.isSome then d.name else fullName d := by
  unfold keyName
  rw [h, fullName, stripDigestComponents_snoc (isDigest_implicit _)]

lemma not_prefix_fullName (d : Data) : ¬ fullName d <+: d.name := by
  intro h
  have hlen := h.length_le
  rw [fullName, length_append, length_singleton] at hlen
  omega

lemma not_lookup_fullName
    (hkeys : NoCollision P keys) (hd : PrefixesIn keys d) (hname : d.name ≠ [])
    (hkey : fullName d ∈ keys) (hent : EntryOk P mirrored token entry (fullName d) disc) :
    ¬ Lookup P d.name token cbpOnly := by
  intro h
  apply not_prefix_fullName d
  rcases lookup_key hkeys hd hname hkey hent h with
    ⟨-, heq⟩ | ⟨-, -, c, -, heq⟩ | ⟨-, hpre, -⟩
  · rw [heq]
  · exact ⟨[c], heq.symm⟩
  · exact hpre

lemma name_ne_nil_of_data {raw : Bytes} {d : Data} (h : Data.decode raw = .ok d) : d.name ≠ [] := by
  obtain ⟨_, _, _, _, name, _, _, _, hne, _, rfl⟩ := Data.decode_eq_ok_iff.mp h
  exact hne

/-- **Interests by full name.** In a reachable table, where tokens do not collide, a Data serves the
pending classical Interests for its full name exactly if each of them carries a request for a
subscription. -/
theorem servesFullName_iff {dnl : Option DeadNonceList} {raw : Bytes} (hkeys : NoCollision P keys)
    (hreach : Run.Reach (step P) (Supposes P False keys) (.empty dnl) tables)
    (hdecode : Data.decode raw = .ok d) (hd : PrefixesIn keys d) (now : ℕ) :
    ServesFullName P tables d now ↔
      ∀ token entry r, Pending tables.pit token entry r → r.interest.name = fullName d →
        r.interest.subscriptionRequest.isSome = true := by
  have hpit := reach_ok hkeys hreach
  have hname := name_ne_nil_of_data hdecode
  constructor
  · intro hser token entry r hpend hfull
    obtain ⟨hkey, hent⟩ := hpend.entryOk hpit
    rw [keyName_fullName hfull] at hkey hent
    by_contra hpln
    rw [if_neg hpln] at hkey hent
    -- nothing is looked up at the record's token, so the record stays
    refine (hser token entry r hpend hfull).2 entry ?_ hpend.mem
    rw [process_fst, consumeAll_get_of_not_mem, hpend.get_eq]
    intro cbpOnly hmem
    exact not_lookup_fullName hkeys hd hname hkey hent (mem_lookups_iff.mp hmem)
  · intro hreq token entry r hpend hfull
    obtain ⟨hkey, hent⟩ := hpend.entryOk hpit
    rw [keyName_fullName hfull, if_pos (hreq token entry r hpend hfull)] at hkey hent
    have htok := hent.token_eq
    have hexac : (token, false) ∈ lookups P d.name := by
      rw [mem_lookups_iff, htok]
      exact .exact .classical
    constructor
    · rw [process_outFaces]
      refine consumeAll_collects collected_nil_ok hpend.get_eq hent hpend.mem ?_ ⟨false, hexac⟩ ?_
      · intro ps hps
        rw [hpend.classical] at hps
        cases hps
      intro hmem
      rcases lookup_key hkeys hd hname hkey hent (mem_lookups_iff.mp hmem) with
        ⟨hfal, -⟩ | ⟨hfal, -⟩ | ⟨-, -, hprop⟩
      · cases hfal
      · cases hfal
      · exact absurd rfl hprop
    · intro entry' hget'
      rw [process_fst, consumeAll_exact_get ?_ hexac] at hget'
      · cases hget'
      · intro entry'' hget''
        cases hget''.symm.trans hpend.get_eq
        exact hent.isClassical

section
open Sample

/-- A request for a subscription: one Data within a minute. -/
def Sample.request : Bytes :=
  writeTlv SubscriptionRequest.tlvSubscriptionRequest ([1] ++ beBytes 4 1 ++ beBytes 4 60)

/-- The full name of the Data for `/a`. -/
def Sample.fullA : Name :=
  nameA ++ [⟨implicitSha256,
    beBytes 32 0x63ae75134ccc39c5709fcaf34cc868079f84cb62dc8786929357f23d40f31bc5⟩]

lemma Sample.fullName_nameA : fullName (data nameA) = fullA := by
  decide

/-- The full name of the Data for `/a` with a parameters digest. -/
def Sample.fullADigest : Name :=
  nameADigest ++ [⟨implicitSha256,
    beBytes 32 0x00f70abf9aec646c259f8672625ce0820730d3f292a3ef1e761c55734aa6a81c⟩]

lemma Sample.fullName_nameADigest : fullName (data nameADigest) = fullADigest := by
  decide +kernel

def Sample.askDegraded : Arrival := arrival (interest fullADigest false 9 (some request)) 3 0

def Sample.pendingDegraded : Tables := run [.interest askDegraded]

def Sample.askFullName : Arrival := arrival (interest fullA false 9 none) 2 0

def Sample.pendingFullName : Tables := run [.interest askFullName]

lemma Sample.noCollision_nameADigest : NoCollision platform {nameA, nameADigest} := by
  rintro n (rfl | rfl) n' (rfl | rfl) disc disc'
  all_goals cases disc <;> cases disc' <;> decide

/-- The premises of `servesFullName_iff` hold of a run in which an Interest with a request is
pending for the full name of the Data. -/
theorem servesFullName_iff_askDegraded :
    (∃ token entry r, Pending pendingDegraded.pit token entry r ∧
      r.interest.name = fullName (data nameADigest)) ∧
    ServesFullName platform pendingDegraded (data nameADigest) 1 := by
  have hrch : Run.Reach (step platform) (Supposes platform False {nameA, nameADigest}) start
      pendingDegraded := by
    refine Run.Reach.refl.foldl ⟨supposes_interest ⟨⟨askDegraded.interest.raw, ?_⟩, ?_,
      False.elim⟩, trivial⟩
    · decide
    · have hkey : keyName askDegraded.interest = nameADigest := by
        decide
      exact .inr hkey
  have hpref : PrefixesIn {nameA, nameADigest} (data nameADigest) := by
    have hinit : ∀ p ∈ (data nameADigest).name.inits, p ≠ [] → p = nameA ∨ p = nameADigest := by
      decide
    exact prefixesIn_of_inits hinit
  have hdec : Data.decode (dataWire nameADigest) = .ok (data nameADigest) := by
    decide
  have hpend : Pending pendingDegraded.pit
      (nameToken platform nameADigest .classical) (onNew askDegraded none)
      (recordOf askDegraded none) :=
    ⟨by decide, mem_singleton.mpr rfl, rfl⟩
  refine ⟨⟨_, _, _, hpend, fullName_nameADigest.symm⟩,
    (servesFullName_iff noCollision_nameADigest hrch hdec hpref 1).mpr ?_⟩
  intro token entry r hpend hname
  have hall : ∀ e ∈ pendingDegraded.pit.entries, ∀ r ∈ e.2.inRecords,
      r.interest.subscriptionRequest.isSome = true := by
    decide
  have hnd : (pendingDegraded.pit.entries.map Prod.fst).Nodup := by
    decide
  exact hall (token, entry) ((Assoc.lookup_eq_some_iff hnd).mp hpend.get_eq) r hpend.mem

/-- **An Interest by full name is never answered.** Face 2 asks for a Data by its full name; the
Data arrives, goes to no face and leaves the record pending. -/
theorem full_name_interest_unserved :
    NoCollision platform {nameA, fullA} ∧
    Run.Reach (step platform) (Supposes platform False {nameA, fullA}) start pendingFullName ∧
    Data.decode (dataWire nameA) = .ok (data nameA) ∧
    (∃ token entry r, Pending pendingFullName.pit token entry r ∧
      r.interest.name = fullName (data nameA)) ∧
    (PitMatchStage.process platform pendingFullName (data nameA).name 1).2.outFaces =
      [] ∧
    (PitMatchStage.process platform pendingFullName (data nameA).name 1).1 =
      pendingFullName ∧
    ¬ ServesFullName platform pendingFullName (data nameA) 1 := by
  have hpend : Pending pendingFullName.pit (nameToken platform fullA .classical)
      (onNew askFullName none) (recordOf askFullName none) :=
    ⟨by decide, mem_singleton.mpr rfl, rfl⟩
  have hout : (PitMatchStage.process platform pendingFullName
      (data nameA).name 1).2.outFaces = [] := by
    decide
  refine ⟨?_, ?_, by decide, ⟨_, _, _, hpend, fullName_nameA.symm⟩, hout, by decide, ?_⟩
  · rintro n (rfl | rfl) n' (rfl | rfl) disc disc'
    all_goals cases disc <;> cases disc' <;> decide
  · refine Run.Reach.refl.foldl ⟨supposes_interest ?_, trivial⟩
    exact supposed_plain (by decide) (by decide) (.inr rfl) 2 0
  · intro hser
    have hmem := (hser _ _ _ hpend fullName_nameA.symm).1
    cases hmem

end

/-! ## Plain Interests -/

/-- A pending record of an Interest with neither a request for a subscription nor CanBePrefix. -/
structure PlainPending (pit : Pit) (token : UInt64) (entry : PitEntry) (r : InRecord) : Prop
    extends Pending pit token entry r where
  no_request : r.interest.subscriptionRequest = none
  no_prefix : r.selector.canBePrefix = false

/-- The Data takes away the plain records for its name or its full name only. -/
def SparesOtherNames (P : Platform) (tables : Tables) (d : Data) (now : ℕ) : Prop :=
  ∀ token entry r, PlainPending tables.pit token entry r →
    Gone (process P tables d.name now).1.pit token r →
    r.interest.name = d.name ∨ r.interest.name = fullName d

/-- **Plain Interests.** In a reachable table, where tokens do not collide, a Data takes away plain
records for its own name only, exactly if none is for its name without a digest at its end. -/
theorem sparesOtherNames_iff {dnl : Option DeadNonceList} {raw : Bytes} (hkeys : NoCollision P keys)
    (hreach : Run.Reach (step P) (Supposes P False keys) (.empty dnl) tables)
    (hdecode : Data.decode raw = .ok d) (hd : PrefixesIn keys d) (now : ℕ) :
    SparesOtherNames P tables d now ↔
      ∀ token entry r, PlainPending tables.pit token entry r →
        ∀ c, IsDigest c → d.name ≠ r.interest.name ++ [c] := by
  have hpit := reach_ok hkeys hreach
  have hname := name_ne_nil_of_data hdecode
  have hplainKey : ∀ r : InRecord, r.interest.subscriptionRequest = none →
      keyName r.interest = r.interest.name := by
    intro r hreq
    rw [keyName, hreq]
    rfl
  constructor
  · intro hspr token entry r hpln c hc hsnoc
    obtain ⟨hkey, hent⟩ := hpln.entryOk hpit
    rw [hplainKey r hpln.no_request] at hkey hent
    -- the lookup of the stripped name takes the whole entry away
    have hstr : (token, false) ∈ lookups P d.name := by
      rw [mem_lookups_iff, hent.token_eq]
      exact .stripped r.interest.name c hc hsnoc (hent.record_name r hpln.mem)
    have hgone : Gone (PitMatchStage.process P tables d.name now).1.pit token r := by
      intro entry' hget'
      rw [process_fst, consumeAll_exact_get ?_ hstr] at hget'
      · cases hget'
      · intro entry'' hget''
        cases hget''.symm.trans hpln.get_eq
        exact hent.isClassical
    have hlen := congrArg length hsnoc
    rw [length_append, length_singleton] at hlen
    rcases hspr token entry r hpln hgone with heq | heq
    · rw [heq] at hlen
      omega
    · rw [heq, fullName, length_append, length_singleton] at hlen
      omega
  · intro hnone token entry r hpln hgone
    obtain ⟨hkey, hent⟩ := hpln.entryOk hpit
    rw [hplainKey r hpln.no_request] at hkey hent
    by_contra hoth
    have hnot : (token, false) ∉ lookups P d.name := by
      intro hmem
      rcases lookup_key hkeys hd hname hkey hent (mem_lookups_iff.mp hmem) with
        ⟨-, heq⟩ | ⟨-, -, c, hc, heq⟩ | ⟨hfal, -⟩
      · exact hoth (.inl heq)
      · exact hnone token entry r hpln c hc heq
      · cases hfal
    obtain ⟨entry', hget', hr'⟩ := consumeAll_prefix_get (P := P) (s := (tables, ⟨[], [], []⟩))
      hpln.get_eq hent.isClassical hpln.mem hpln.no_prefix hnot
    exact hgone entry' hget' hr'

section
open Sample

/-- The premises of `sparesOtherNames_iff` hold of a run in which `/a/b` is pending when its Data
arrives. -/
theorem sparesOtherNames_iff_askAB :
    (∃ token entry r, PlainPending (run askAB).pit token entry r) ∧
    SparesOtherNames platform (run askAB) (data nameAB) 2 := by
  have hdec : Data.decode (dataWire nameAB) = .ok (data nameAB) := by
    decide
  have hpln : PlainPending (run askAB).pit (nameToken platform nameAB .classical)
      (onNew second none) (recordOf second none) :=
    ⟨⟨by decide, mem_singleton.mpr rfl, rfl⟩, by decide, by decide⟩
  refine ⟨⟨_, _, _, hpln⟩,
    (sparesOtherNames_iff noCollision_nameAB reach_askAB hdec prefixesIn_nameAB 2).mpr ?_⟩
  · intro token entry r _ c hc hsnoc
    have hlast : ¬ HasTrailingDigest (data nameAB).name := by
      decide
    apply hlast
    rw [hsnoc]
    exact ⟨c, getLast?_concat .., hc⟩

def Sample.askA : Arrival := arrival (interest nameA false 8 none) 2 0

def Sample.pendingA : Tables := run [.interest askA]

/-- **A Data for a longer name takes a plain Interest away.** Face 2 asks for `/a`, without
CanBePrefix; a Data whose name is `/a` and a digest is sent to it, and the record is gone. -/
theorem digest_data_takes_plain_interest :
    NoCollision platform {nameA, nameADigest} ∧
    Run.Reach (step platform) (Supposes platform False {nameA, nameADigest}) start pendingA ∧
    Data.decode (dataWire nameADigest) = .ok (data nameADigest) ∧
    (data nameADigest).name = nameADigest ∧
    (∃ token entry r, PlainPending pendingA.pit token entry r ∧
      r.interest.name = nameA) ∧
    (PitMatchStage.process platform pendingA (data nameADigest).name 1).2.outFaces =
      [2] ∧
    (PitMatchStage.process platform pendingA (data nameADigest).name 1).1.pit.entries = [] ∧
    ¬ SparesOtherNames platform pendingA (data nameADigest) 1 := by
  have hpln : PlainPending pendingA.pit (nameToken platform nameA .classical)
      (onNew askA none) (recordOf askA none) :=
    ⟨⟨by decide, mem_singleton.mpr rfl, rfl⟩, by decide, by decide⟩
  have hes : (PitMatchStage.process platform pendingA
      (data nameADigest).name 1).1.pit.entries = [] := by
    decide
  refine ⟨noCollision_nameADigest, ?_, by decide, by decide, ⟨_, _, _, hpln, rfl⟩, by decide, hes,
    ?_⟩
  · refine Run.Reach.refl.foldl ⟨supposes_interest ?_, trivial⟩
    exact supposed_plain (by decide) (by decide) (.inl rfl) 2 0
  intro hspr
  have hgone : Gone (PitMatchStage.process platform pendingA
      (data nameADigest).name 1).1.pit (nameToken platform nameA .classical)
      (recordOf askA none) := by
    intro entry hget
    rw [Pit.get, hes] at hget
    cases hget
  have hnam : nameA = (data nameADigest).name ∨ nameA = fullName (data nameADigest) :=
    hspr _ _ _ hpln hgone
  revert hnam
  decide

end

end Main

end NdnRs.Pit
