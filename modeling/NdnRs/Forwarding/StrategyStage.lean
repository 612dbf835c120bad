import NdnRs.Forwarding.DecodeStage
import NdnRs.Forwarding.InterestPipeline

/-!
# The strategy stage (`ndn-engine/src/stages/strategy.rs`)

An Interest that is not answered goes upstream. A link header may name its next hop; else the FIB
entry and the strategy of its name decide. A Forward decision is filtered three times before it
becomes a Send action: by the scope of the name, by the out-records of the PIT entry, and by the
host that the Interest came from. A ForwardAfter decision leaves a task to a timer, and none of the
filters is applied to it.

## Implementation notes

A strategy is any function of its context; measurements, signals and the values of enrichers are
what it closes over. The suppression interval that the source keeps in a PIT entry is here in a
table of its own, by token.
-/

namespace NdnRs

open Bytes

namespace StrategyStage

open Pit (FaceScope OutRecord PitEntry Tables)
open TlvDecodeStage (DecodedPacket Tags)

/-! ## What the stage reads -/

structure Face where
  scope : FaceScope
  remoteUri : Option Str

abbrev FaceTable := List (FaceId × Face)

def FaceTable.get (self : FaceTable) (id : FaceId) : Option Face := self.lookup id

def FaceTable.faceIds (self : FaceTable) : List FaceId := self.map Prod.fst

inductive NackReason where
  | noRoute
  | duplicate
  | congestion
  | notYet
  deriving DecidableEq

inductive ForwardingAction where
  | forward (faces : List FaceId)
  | forwardAfter (faces : List FaceId) (delay : ℕ)
  | nack (reason : NackReason)
  | suppress
  | broadcast
  deriving DecidableEq

structure StrategyContext where
  name : Name
  inFace : FaceId
  fibEntry : Option FibEntry
  pitToken : Option UInt64
  triedFaces : List FaceId
  suppressedFaces : List FaceId
  entryRetxSuppressed : Bool
  prevHopLocation : Option GeoFix
  dataLocation : Option GeoFix

/-- `ErasedStrategy`. -/
structure Strategy where
  decideSync : StrategyContext → Option (List ForwardingAction)
  afterReceiveInterest : StrategyContext → List ForwardingAction

/-- `PacketContext`, as far as the stage uses it. -/
structure PacketContext where
  rawBytes : Bytes
  packet : DecodedPacket
  name : Option Name
  faceId : FaceId
  arrival : ℕ
  pitToken : Option UInt64
  outFaces : List FaceId
  tags : Tags
  deriving DecidableEq

/-- `DropReason`, as far as the stage uses it. -/
inductive DropReason where
  | malformedPacket
  | unknownFace
  | suppressed
  | other
  deriving DecidableEq

/-- `Action`, as far as the stage uses it. -/
inductive Action where
  | continue (ctx : PacketContext)
  | send (ctx : PacketContext) (faces : List FaceId)
  | drop (reason : DropReason)
  | nack (ctx : PacketContext) (reason : NackReason)
  deriving DecidableEq

structure State where
  pit : Pit
  retxSuppressIntervalNs : UInt64 → ℕ

/-- The task that a ForwardAfter decision leaves to a timer. -/
structure Scheduled where
  faces : List FaceId
  delay : ℕ
  rawBytes : Bytes
  pitToken : Option UInt64

structure Outcome where
  state : State
  action : Action
  scheduled : Option Scheduled := none

end StrategyStage

open StrategyStage in
structure StrategyStage where
  strategyTable : Trie NameComponent Strategy
  defaultStrategy : Strategy
  fib : Fib
  faceTable : FaceTable
  networkRegion : List Name

namespace StrategyStage

open Pit (FaceScope OutRecord PitEntry Tables)
open TlvDecodeStage (DecodedPacket Tags)

/-! ## Names, regions and hosts -/

variable (self : StrategyStage) (s : State) (ctx : PacketContext) (interest : Interest)
  (name : Name)

def isLocalhostName : Bool :=
  name.head?.map NameComponent.value = some (Str.bytes "localhost".toList)

def isLocalhopName : Bool :=
  name.head?.map NameComponent.value = some (Str.bytes "localhop".toList)

def ndnLocal : Name := [.ofText "ndn", .ofText "local"]

def isLinkLocal : Bool := name.hasPrefix ndnLocal

def isInProducerRegion (regions hint : List Name) : Bool :=
  regions.any fun region => hint.any fun deleg => region.hasPrefix deleg

def hostOfRemoteUri (uri : Str) : Str :=
  let afterScheme :=
    match Str.splitOnce "://".toList uri with
    | none => uri
    | some (_, rest) =>
      match Str.splitOnce "://".toList rest with
      | none => rest
      | some (second, _) => second
  match Str.splitOnce "]".toList afterScheme with
  | some (address, _) => address ++ "]".toList
  | none =>
    match Str.rsplitOnce ':' afterScheme with
    | some (host, _) => host
    | none => afterScheme

def peerHost (faceTable : FaceTable) (faceId : FaceId) : Option Str :=
  ((faceTable.get faceId).bind Face.remoteUri).map hostOfRemoteUri

inductive NextHopOverride where
  | none
  | forward (faceId : FaceId)
  | dropFaceGone

def nextHopOverride (tags : Tags) (faceExists : FaceId → Bool) : NextHopOverride :=
  match tags.nextHopFaceId with
  | .none => .none
  | some faceId => if faceExists faceId then .forward faceId else .dropFaceGone

/-! ## The decision -/

def retxSuppressInitialNs : ℕ := 10000000

def retxSuppressMaxNs : ℕ := 250000000

def retxSuppressMultiplier : ℕ := 2

/-- The interval of an entry, which is not set at first. -/
def currentInterval (retxSuppressIntervalNs : ℕ) : ℕ :=
  if retxSuppressIntervalNs = 0 then retxSuppressInitialNs else retxSuppressIntervalNs

/-- `PitEntry::note_forward_decision`, on the interval of the entry. -/
def noteForwardDecision (retxSuppressIntervalNs : ℕ) : ℕ :=
  min (min (currentInterval retxSuppressIntervalNs * retxSuppressMultiplier) (2 ^ 64 - 1))
    retxSuppressMaxNs

def suppressedUpstreams (entry : PitEntry) (now : ℕ) : List FaceId :=
  (entry.outRecords.filter fun r => now - r.sentAt < retxSuppressInitialNs).map OutRecord.faceId

/-- `PitEntry::entry_retx_suppressed`, with the interval of the entry. -/
def entryRetxSuppressed (entry : PitEntry) (retxSuppressIntervalNs now : ℕ) : Bool :=
  match (entry.outRecords.map OutRecord.sentAt).max? with
  | none => false
  | some lastOut => now - lastOut < currentInterval retxSuppressIntervalNs

def fibLookupName (interestName : Name) : Name :=
  match interest.forwardingHint with
  | none => interestName
  | some [] => interestName
  | some (first :: rest) =>
    let hint := first :: rest
    if isInProducerRegion self.networkRegion hint then interestName
    else (hint.find? fun deleg => (self.fib.lpm deleg).isSome).getD first

/-- The context that the strategy is called with. -/
def strategyContext (name fibName : Name) (now : ℕ) : StrategyContext :=
  let entry := ctx.pitToken.bind fun token =>
    (s.pit.get token).map fun entry => (entry, s.retxSuppressIntervalNs token)
  { name := name
    inFace := ctx.faceId
    fibEntry := self.fib.lpm fibName
    pitToken := ctx.pitToken
    triedFaces := (entry.map fun e => e.1.outRecords.map OutRecord.faceId).getD []
    suppressedFaces := (entry.map fun e => suppressedUpstreams e.1 now).getD []
    entryRetxSuppressed := (entry.map fun e => entryRetxSuppressed e.1 e.2 now).getD false
    prevHopLocation := ctx.tags.prevHopLocation
    dataLocation := ctx.tags.dataLocation }

/-- The first action of the strategy, with Broadcast expanded to the faces other than that of the
Interest. -/
def decide (now : ℕ) : Option ForwardingAction :=
  let fibName := self.fibLookupName interest name
  let sctx := self.strategyContext s ctx name fibName now
  let strategy := (Trie.lpm fibName self.strategyTable).getD self.defaultStrategy
  let actions := (strategy.decideSync sctx).getD (strategy.afterReceiveInterest sctx)
  match actions.head? with
  | some .broadcast => some (.forward (self.faceTable.faceIds.filter fun f => f ≠ ctx.faceId))
  | other => other

/-! ## Forward -/

/-- Whether only local faces may be used. -/
def restrictToLocal : Bool :=
  let inFaceScope := ((self.faceTable.get ctx.faceId).map Face.scope).getD .nonLocal
  isLinkLocal name || isLocalhostName name || (isLocalhopName name && inFaceScope = .nonLocal)

/-- The faces that the scope of the name leaves. -/
def effectiveFaces (faces : List FaceId) : List FaceId :=
  if self.restrictToLocal ctx name then
    faces.filter fun f => (self.faceTable.get f).map Face.scope = some .isLocal
  else faces

/-- The entry has an out-record of the face with the nonce. -/
def hasOutRecord (entry : PitEntry) (nonce : ℕ) (faceId : FaceId) : Bool :=
  entry.outRecords.any fun r => r.faceId = faceId ∧ r.lastNonce = nonce

/-- The loop over the faces, on one of them: it goes on unless the entry has a record of it, and
gets a record. -/
def recordFace (token : UInt64) (nonce now : ℕ) (s : Pit × List FaceId) (faceId : FaceId) :
    Pit × List FaceId :=
  match s.1.get token with
  | some entry =>
    if hasOutRecord entry nonce faceId then s
    else (s.1.set token (entry.addOutRecord faceId nonce now), s.2 ++ [faceId])
  | none => (s.1, s.2 ++ [faceId])

/-- The faces that the out-records leave, with their own records made. -/
def survivingFaces (pit : Pit) (ctx : PacketContext) (interest : Interest)
    (effective : List FaceId) : Pit × List FaceId :=
  match interest.nonce, ctx.pitToken with
  | some nonce, some token => effective.foldl (recordFace token nonce ctx.arrival) (pit, [])
  | _, _ => (pit, effective)

/-- The face is on the host that the Interest came from. -/
def atIngressHost (faceId : FaceId) : Bool :=
  match peerHost self.faceTable ctx.faceId with
  | some ingressHost => peerHost self.faceTable faceId = some ingressHost
  | none => false

/-- The entry at the token of the Interest is told of the decision. -/
def noteDecision : State :=
  match ctx.pitToken with
  | some token =>
    if (s.pit.get token).isSome then
      { s with
        retxSuppressIntervalNs := Function.update s.retxSuppressIntervalNs token
          (noteForwardDecision (s.retxSuppressIntervalNs token)) }
    else s
  | none => s

def forward (faces : List FaceId) : Outcome :=
  let effective := self.effectiveFaces ctx name faces
  if effective = [] then { state := s, action := .nack ctx .noRoute }
  else
    let (pit, surviving) := survivingFaces s.pit ctx interest effective
    let s := { s with pit := pit }
    let surviving := surviving.filter fun f => !self.atIngressHost ctx f
    if surviving = [] then { state := s, action := .drop .suppressed }
    else
      let ctx' := { ctx with outFaces := ctx.outFaces ++ surviving }
      { state := noteDecision s ctx, action := .send ctx' ctx'.outFaces }

/-- What is done with the decision. -/
def act :
    Option ForwardingAction → Outcome
  | some (.forward faces) => self.forward s ctx interest name faces
  | some (.forwardAfter faces delay) =>
    { state := s
      action := .drop .other
      scheduled := some ⟨faces, delay, ctx.rawBytes, ctx.pitToken⟩ }
  | some (.nack reason) => { state := s, action := .nack ctx reason }
  | some .suppress => { state := s, action := .drop .suppressed }
  -- `decide` has expanded it
  | some .broadcast => { state := s, action := .nack ctx .noRoute }
  | none => { state := s, action := .nack ctx .noRoute }

def process (now : ℕ) : Outcome :=
  match ctx.packet with
  | .interest interest =>
    match ctx.name with
    | none => { state := s, action := .drop .malformedPacket }
    | some name =>
      match nextHopOverride ctx.tags fun f => (self.faceTable.get f).isSome with
      | .forward faceId =>
        let ctx := { ctx with outFaces := ctx.outFaces ++ [faceId] }
        { state := s, action := .send ctx ctx.outFaces }
      | .dropFaceGone => { state := s, action := .drop .unknownFace }
      | .none => self.act s ctx interest name (self.decide s ctx interest name now)
  | _ => { state := s, action := .continue ctx }

/-! ## Transmissions -/

/-- Whether a task goes on when its timer fires: the entry is still there and was not cancelled. -/
def Scheduled.proceeds (task : Scheduled) (pit : Pit) : Bool :=
  match task.pitToken with
  | some token => ((pit.get token).map fun e => !e.forwardCancelled).getD false
  | none => true

/-- The task of a ForwardAfter decision, when its timer fires: the faces that the Interest is sent
on, with the PIT and the faces of that time. -/
def Scheduled.wake (task : Scheduled) (pit : Pit) (faceTable : FaceTable) : List FaceId :=
  if task.proceeds pit then task.faces.filter fun f => (faceTable.get f).isSome else []

/-- `dispatch_action` on a Send action: the faces that the Interest is handed to, with the verdict
of the outbound rate limit on each of them. -/
def dispatchSend (faceTable : FaceTable) (checkRateLimitOutbound : FaceId → Bool)
    (ctx : PacketContext) (faces : List FaceId) : List FaceId :=
  let isLocalhost := ctx.name.any isLocalhostName
  faces.filter fun f =>
    !(isLocalhost && (faceTable.get f).map Face.scope = some .nonLocal) && checkRateLimitOutbound f

end StrategyStage

end NdnRs
