import NdnRs.Forwarding.PathControl
import NdnRs.Forwarding.PitMatch
import NdnRs.Store.LruCs

/-!
# The Interest pipeline up to the Content Store (`ndn-engine/src/dispatcher/pipeline.rs`)

The PIT check comes first, the Content Store after it. On a hit the whole PIT entry is erased and
the Data goes to the face of the Interest, also when the Interest was sent on into an entry that
other faces wait in.

## Implementation notes

The Content Store is any function of the Interest. The observer of names in use is left out: it
changes none of these tables.

## Main results

* `sparesOthers_iff` — when a hit leaves the others' records.
-/

namespace NdnRs.Pit

open Tlv Bytes PitCheckStage Pit.Sample

/-! ## The dispatcher -/

inductive LinkType where
  | pointToPoint
  | multiAccess
  | adHoc
  deriving DecidableEq

inductive FaceScope where
  | isLocal
  | nonLocal
  deriving DecidableEq

/-- What the dispatcher asks of a face. -/
structure Face where
  linkType : LinkType
  scope : FaceScope
  usesLpFraming : Bool

def contentStoreFace : ℕ := 254

/-- `PacketContext`, as far as these stages use it; the tag that the Content Store leaves is
`csEntry`. -/
structure PacketContext where
  rawBytes : Bytes
  name : Option Name
  faceId : ℕ
  pitToken : Option UInt64
  outFaces : List ℕ
  outPitTokens : List (Option Bytes)
  csHit : Bool
  csEntry : Option CsEntry
  deriving DecidableEq

/-- A packet handed to a face, with the fields of its link header. -/
structure Sent where
  faceId : ℕ
  bytes : Bytes
  pitToken : Option Bytes
  incomingFaceId : Option ℕ
  deriving DecidableEq

/-- What the dispatcher reads while an Interest passes: the faces, which of them take local fields,
the outbound rate limit for Data, the path-control handler and the Content Store. -/
structure Dispatcher where
  faceTable : ℕ → Option Face
  localFieldsEnabled : ℕ → Bool
  rateLimit : Option (ℕ → Name → ℕ → Bool)
  pathControl : Option (PathControl → Interest → ℕ → Option (List ℕ))
  cs : Interest → Option CsEntry

/-- The outcome of `CsLookupStage::process`. -/
inductive CsLookup where
  | continue (ctx : PacketContext)
  | satisfy (ctx : PacketContext)

/-- `CsLookupStage::process`, on an Interest. -/
def CsLookupStage.process (cs : Interest → Option CsEntry) (interest : Interest)
    (ctx : PacketContext) : CsLookup :=
  match cs interest with
  | some entry =>
    .satisfy { ctx with
      csHit := true
      outFaces := ctx.outFaces ++ [ctx.faceId]
      csEntry := some entry }
  | none => .continue ctx

def isLocalhostName (name : Name) : Bool :=
  name.head?.map NameComponent.value = some (Str.bytes "localhost".toList)

/-- The token that `PitCheckStage::process` leaves in the context, if it gets that far. -/
def pitTokenOf (P : Platform) (pit : Pit) (a : Arrival) : Option UInt64 :=
  match (checkPersistent pit a).2 with
  | .ok persistent =>
    some (pitToken P (NameHashes.fullNameHash P (keyName a.interest)) (discOf persistent))
  | .error _ => none

/-- Where `interest_pipeline` ends: with a path-control message passed on or dropped, with a drop at
the PIT check, with an answer from the Content Store, or by going on to the strategy. -/
inductive Outcome where
  | control (sent : List Sent)
  | dropped (reason : DropReason)
  | satisfied (sent : List Sent)
  | continued (ctx : PacketContext)
  deriving DecidableEq

namespace Dispatcher

variable (P : Platform) (self : Dispatcher)

/-- `check_rate_limit_outbound`, for Data. -/
def checkRateLimitOutbound (face : ℕ) (name : Option Name) (wireBytes : ℕ) : Bool :=
  match self.rateLimit, name with
  | some checkOutbound, some name => checkOutbound face name wireBytes
  | _, _ => true

/-- The loop of `satisfy`, on the out-face at a position. -/
def satisfyFace (ctx : PacketContext) (dataBytes : Bytes) (out : ℕ × ℕ) : Option Sent :=
  let (face, i) := out
  let info := self.faceTable face
  if ctx.csHit = false ∧ face = ctx.faceId ∧ info.map Face.linkType ≠ some .adHoc then none
  else if ctx.name.any isLocalhostName ∧ info.map Face.scope = some .nonLocal then none
  else if self.checkRateLimitOutbound face ctx.name dataBytes.length = false then none
  else
    let usesLp := (info.map Face.usesLpFraming).getD false
    some
      { faceId := face
        bytes := dataBytes
        pitToken := (ctx.outPitTokens[i]?).join
        incomingFaceId :=
          if usesLp && self.localFieldsEnabled face then
            some (if ctx.csHit then contentStoreFace else ctx.faceId)
          else none }

def satisfy (ctx : PacketContext) : List Sent :=
  let dataBytes :=
    if ctx.csHit then (ctx.csEntry.map CsEntry.data).getD ctx.rawBytes else ctx.rawBytes
  ctx.outFaces.zipIdx.filterMap (self.satisfyFace ctx dataBytes)

/-- The path-control branch: the faces to pass the message on to, if it is one. -/
def control (a : Arrival) : Option (List ℕ) :=
  match self.pathControl, PathControl.parse a.interest.name with
  | some decide, some pc => some ((decide pc a.interest a.faceId).getD [])
  | _, _ => none

/-- The context of an arriving Interest behind the PIT check. -/
def contextOf (pit : Pit) (a : Arrival) : PacketContext :=
  { rawBytes := a.interest.raw
    name := some a.interest.name
    faceId := a.faceId
    pitToken := pitTokenOf P pit a
    outFaces := []
    outPitTokens := []
    csHit := false
    csEntry := none }

/-- The table after a hit: the entry of the Interest is erased. -/
def eraseEntry (tables : Tables) (ctx : PacketContext) : Tables :=
  match ctx.pitToken with
  | some token => { tables with pit := tables.pit.remove token }
  | none => tables

/-- `interest_pipeline`, up to the Content Store. -/
def interestPipeline (tables : Tables) (a : Arrival) : Tables × Outcome :=
  match self.control a with
  | some faces => (tables, .control (faces.map fun face => ⟨face, a.interest.raw, none, none⟩))
  | none =>
    match process P tables a with
    | (checked, .drop reason) => (checked, .dropped reason)
    | (checked, .continue) =>
      match CsLookupStage.process self.cs a.interest (contextOf P tables.pit a) with
      | .continue ctx => (checked, .continued ctx)
      | .satisfy ctx => (eraseEntry checked ctx, .satisfied (self.satisfy ctx))

end Dispatcher

/-! ## The others in the entry -/

/-- The in-records of other faces in the entry at a token. -/
def othersAt (pit : Pit) (token : UInt64) (faceId : ℕ) : List InRecord :=
  match pit.get token with
  | some entry => entry.inRecords.filter fun r => r.faceId ≠ faceId
  | none => []

section Others

variable {P : Platform} {tables : Tables} {a : Arrival}

lemma mem_othersAt {pit : Pit} {token : UInt64} {faceId : ℕ} {r : InRecord} :
    r ∈ othersAt pit token faceId ↔
      ∃ entry, pit.get token = some entry ∧ r ∈ entry.inRecords ∧ r.faceId ≠ faceId := by
  rw [othersAt]
  cases pit.get token with
  | none => simp
  | some entry => simp

lemma filter_addInRecord (a : Arrival) (persistent : Option PersistentState) (entry : PitEntry) :
    ((entry.addInRecordWithPersistent (recordOf a persistent)).inRecords.filter
      fun r => r.faceId ≠ a.faceId) = entry.inRecords.filter fun r => r.faceId ≠ a.faceId := by
  have hself : (recordOf a persistent).faceId = a.faceId := rfl
  simp [PitEntry.addInRecordWithPersistent, hself]

lemma filter_onExisting (a : Arrival) (persistent : Option PersistentState) (entry : PitEntry) :
    ((onExisting a persistent entry).1.inRecords.filter fun r => r.faceId ≠ a.faceId) =
      entry.inRecords.filter fun r => r.faceId ≠ a.faceId := by
  unfold onExisting
  split_ifs
  · rfl
  cases persistent with
  | some ps =>
    refine (filter_addInRecord a (some ps) _).trans ?_
    rw [List.filter_filter]
    simp only [Bool.and_self]
  | none => exact filter_addInRecord a none entry

lemma othersAt_checkEntry (pit : Pit) (token : UInt64) (a : Arrival)
    (persistent : Option PersistentState) :
    othersAt (checkEntry pit token a persistent).1 token a.faceId =
      othersAt pit token a.faceId := by
  unfold checkEntry othersAt
  cases hget : pit.get token with
  | none =>
    simp only [Pit.get_set, if_true]
    refine (filter_addInRecord a persistent _).trans ?_
    cases persistent <;> rfl
  | some entry =>
    simp only [Pit.get_set, if_true]
    exact filter_onExisting a persistent entry

lemma othersAt_checkPersistent (pit : Pit) (a : Arrival) (token : UInt64) (faceId : ℕ) :
    othersAt (checkPersistent pit a).1 token faceId = othersAt pit token faceId := by
  rw [othersAt, othersAt, Pit.get, Pit.get, (checkPersistent_spec pit a).1]

/-- **The PIT check and the others.** An Interest that passes the PIT check has a token, and the
in-records of other faces in the entry there are those from before. -/
lemma othersAt_process (h : (process P tables a).2 = .continue) :
    ∃ token, pitTokenOf P tables.pit a = some token ∧
      othersAt (process P tables a).1.pit token a.faceId = othersAt tables.pit token a.faceId := by
  unfold process at h ⊢
  split_ifs at h ⊢
  rw [pitTokenOf]
  have hoth := othersAt_checkPersistent tables.pit a
  generalize checkPersistent tables.pit a = result at h hoth
  obtain ⟨pit, reason | persistent⟩ := result
  · cases h
  refine ⟨_, rfl, ?_⟩
  simp only [admitInterest] at h ⊢
  split_ifs at h ⊢
  rw [← hoth, ← othersAt_checkEntry pit _ a persistent]

end Others

namespace Dispatcher

variable {P : Platform} {self : Dispatcher} {tables : Tables} {a : Arrival} {sent : List Sent}
  {token : UInt64}

/-! ## Answers from the Content Store -/

/-- When an Interest is answered from the Content Store, everyone else who waits in its entry is
served too, or still waits there. -/
def SparesOthers (P : Platform) (self : Dispatcher) (tables : Tables) (a : Arrival) : Prop :=
  ∀ sent token, (self.interestPipeline P tables a).2 = .satisfied sent →
    pitTokenOf P tables.pit a = some token →
    ∀ r ∈ othersAt (process P tables a).1.pit token a.faceId,
      (∃ s ∈ sent, s.faceId = r.faceId) ∨
        r ∈ othersAt (self.interestPipeline P tables a).1.pit token a.faceId

lemma mem_outFaces_of_mem_satisfy {ctx : PacketContext} {s : Sent} (h : s ∈ self.satisfy ctx) :
    s.faceId ∈ ctx.outFaces := by
  rw [satisfy, List.mem_filterMap] at h
  obtain ⟨⟨face, i⟩, hmem, hs⟩ := h
  have hface : s.faceId = face := by
    simp only [satisfyFace] at hs
    split_ifs at hs <;> cases hs <;> rfl
  rw [hface]
  exact List.fst_mem_of_mem_zipIdx hmem

/-- **What an answer from the Content Store does.** The Interest had passed the PIT check; the Data
goes to its own face at most, and its entry is gone. -/
lemma interestPipeline_satisfied (h : (self.interestPipeline P tables a).2 = .satisfied sent) :
    (process P tables a).2 = .continue ∧
    (∀ s ∈ sent, s.faceId = a.faceId) ∧
    ∀ token, pitTokenOf P tables.pit a = some token →
      (self.interestPipeline P tables a).1.pit.get token = none := by
  unfold interestPipeline at h ⊢
  cases hcon : self.control a with
  | some faces =>
    rw [hcon] at h
    cases h
  | none =>
    rw [hcon] at h
    rcases hchk : process P tables a with ⟨checked, - | reason⟩
    swap
    · rw [hchk] at h
      cases h
    rw [hchk] at h
    refine ⟨rfl, ?_⟩
    simp only [CsLookupStage.process] at h ⊢
    cases hcs : self.cs a.interest with
    | none =>
      rw [hcs] at h
      cases h
    | some entry =>
      rw [hcs] at h
      simp only [Outcome.satisfied.injEq] at h ⊢
      constructor
      · intro s hs
        rw [← h] at hs
        have hface := mem_outFaces_of_mem_satisfy hs
        simpa [contextOf] using hface
      · intro token htok
        simp only [eraseEntry, contextOf, htok]
        rw [Pit.get_remove, if_pos rfl]

/-- **When an answer from the Content Store spares the others.** Exactly if the entry at the token
of the Interest has in-records of its own face only: whoever else waits there is neither served nor
kept. -/
theorem sparesOthers_iff (hanswered : (self.interestPipeline P tables a).2 = .satisfied sent)
    (htoken : pitTokenOf P tables.pit a = some token) :
    SparesOthers P self tables a ↔
      ∀ entry, tables.pit.get token = some entry → ∀ r ∈ entry.inRecords, r.faceId = a.faceId := by
  obtain ⟨hcon, hown, hera⟩ := interestPipeline_satisfied hanswered
  obtain ⟨token', htok', hoth⟩ := othersAt_process hcon
  rw [htoken] at htok'
  cases htok'
  constructor
  · intro hspr entry hget r hr
    by_contra hne
    have hother : r ∈ othersAt tables.pit token a.faceId := mem_othersAt.mpr ⟨entry, hget, hr, hne⟩
    rw [← hoth] at hother
    rcases hspr sent token hanswered htoken r hother with ⟨s, hs, hface⟩ | hpend
    · exact hne (hface ▸ hown s hs)
    · rw [othersAt, hera token htoken] at hpend
      cases hpend
  · intro hown sent' token' hans' htok' r hr
    rw [htoken] at htok'
    cases htok'
    rw [hoth] at hr
    obtain ⟨entry, hget, hmem, hne⟩ := mem_othersAt.mp hr
    exact absurd (hown entry hget r hmem) hne

/-! ## A consumer that is forgotten -/

namespace Sample

/-- The wire of an Interest for `/a` with a nonce, and with MustBeFresh or without. -/
def freshWire (mustBeFresh : Bool) (nonce : ℕ) : Bytes :=
  writeTlv TlvType.interest
    (Name.encodeToTlv nameA ++
      (if mustBeFresh then writeTlv TlvType.mustBeFresh [] else []) ++
      writeTlv TlvType.nonce (beBytes 4 nonce))

/-- The Interest for `/a`, on a face at a time. -/
def arrival (mustBeFresh : Bool) (nonce faceId time : ℕ) : Arrival :=
  Pit.Sample.arrival ⟨freshWire mustBeFresh nonce, Pit.Sample.nameA⟩ faceId time

/-- A Content Store with a Data for `/a` that has gone stale. -/
def store : LruCs := ((LruCs.new 100).insert [6, 0] nameA 0).1

/-- A dispatcher with that store, without rate limits and without path control. -/
def dispatcher (now : ℕ) : Dispatcher where
  faceTable _ := none
  localFieldsEnabled _ := false
  rateLimit := none
  pathControl := none
  cs interest := (store.get interest now).1

def tokenA : UInt64 := nameToken platform nameA .classical

/-- Face 1 asks for a fresh `/a`, which the store does not have, and the Interest is sent on to
face 9. -/
def asked : Tables :=
  step platform
    ((dispatcher 1).interestPipeline platform start (arrival true 1 1 1)).1
    (.forwarded tokenA 9 1 1)

/-- The dispatcher after the suppression window. -/
def late : Dispatcher := dispatcher 20000000

/-- Face 2 asks for any `/a`, after the suppression window. -/
def later : Arrival := arrival false 2 2 20000000

/-- Face 1 asks for any `/a`, at the same time. -/
def again : Arrival := arrival false 2 1 20000000

end Sample

open Sample in
/-- `sparesOthers_iff` at the entry in which face 1 waits: an answer to face 1 itself spares the
others, an answer to face 2 does not. -/
theorem sparesOthers_iff_asked :
    (asked.pit.get tokenA).map (fun entry => entry.inRecords.map (·.faceId)) =
      some [1] ∧
    SparesOthers platform late asked again ∧
    ¬ SparesOthers platform late asked later := by
  have hfaces : (asked.pit.get tokenA).map
      (fun entry => entry.inRecords.map (·.faceId)) = some [1] := by decide
  have hagain : (late.interestPipeline platform asked
      again).2 = .satisfied [⟨1, [6, 0], none, none⟩] := by decide
  have hlater : (late.interestPipeline platform asked
      later).2 = .satisfied [⟨2, [6, 0], none, none⟩] := by decide
  have htoken : ∀ a ∈ [again, later],
      pitTokenOf platform asked.pit a = some tokenA := by decide
  obtain ⟨entry, hget, hrecs⟩ := Option.map_eq_some_iff.mp hfaces
  refine ⟨hfaces, (sparesOthers_iff hagain (htoken _ (by simp))).mpr fun entry' hget' r hr => ?_,
    fun hspr => ?_⟩
  · rw [hget] at hget'
    cases hget'
    exact List.mem_singleton.mp (hrecs ▸ List.mem_map_of_mem hr)
  · have hown := (sparesOthers_iff hlater (htoken _ (by simp))).mp hspr entry hget
    obtain ⟨r, hr, hface⟩ := List.mem_map.mp (hrecs ▸ List.mem_singleton_self 1)
    exact absurd (hface.symm.trans (hown r hr)) (by decide)

open Sample in
/-- **A consumer that is forgotten.** Face 1 waits for a fresh Data. The Interest of face 2 is sent
on into its entry and answered from the Content Store: the Data goes to face 2, the entry is erased,
and face 1 is neither served nor waiting. -/
theorem consumer_forgotten :
    (late.interestPipeline platform asked later).2 = .satisfied [⟨2, [6, 0], none, none⟩] ∧
    (late.interestPipeline platform asked later).1.pit.entries = [] ∧
    (othersAt asked.pit tokenA 2).map InRecord.faceId = [1] ∧
    ¬ SparesOthers platform late asked later := by
  have hsent : (late.interestPipeline platform asked
      later).2 = .satisfied [⟨2, [6, 0], none, none⟩] := by decide
  have hes : (late.interestPipeline platform asked later).1.pit.entries = [] := by decide
  refine ⟨hsent, hes, by decide, fun hspr => ?_⟩
  have hoth : ∃ r ∈ othersAt (process platform asked
      later).1.pit tokenA 2, r.faceId = 1 := by decide
  obtain ⟨r, hr, hface⟩ := hoth
  rcases hspr _ tokenA hsent (by decide) r hr with ⟨s, hs, hs'⟩ | hpend
  · rw [List.mem_singleton.mp hs, hface] at hs'
    cases hs'
  · cases hpend

end Dispatcher

end NdnRs.Pit
