import NdnRs.Packet.Data

/-!
# Interest packets (`ndn-packet/src/interest.rs`)

An Interest keeps its wire bytes and its name; the signature fields of a signed Interest are
decoded from the wire on demand.
-/

namespace NdnRs

open Bytes Tlv TlvType Except

structure Interest where
  raw : Bytes
  name : Name
  deriving DecidableEq

namespace Interest

def new (name : Name) : Interest := ⟨[], name⟩

/-- `elem_index` of `validate_interest_body_structure`. -/
def elemIndex (typ : ℕ) : Option ℕ :=
  if typ = canBePrefix then some 2
  else if typ = mustBeFresh then some 3
  else if typ = forwardingHint then some 4
  else if typ = nonce then some 5
  else if typ = interestLifetime then some 6
  else if typ = hopLimit then some 7
  else if typ = appParameters then some 8
  else if typ = interestSignatureInfo then some 9
  else if typ = interestSignatureValue then some 10
  else none

/-- The variables of the loop in `validate_interest_body_structure`. -/
structure BodyState where
  lastElement : ℕ
  hasAppParams : Bool

/-- The body of the loop in `validate_interest_body_structure`. -/
def bodyStep (s : BodyState) (typ : ℕ) (val : Bytes) : Except PacketError BodyState :=
  match elemIndex typ with
  | some elem => do
    ensure (s.lastElement < elem)
      (.malformedPacket "Interest body element out of spec order or duplicated")
    let s : BodyState := ⟨elem, s.hasAppParams || typ = appParameters⟩
    if typ = nonce then do
      ensure (val.length = 4)
        (.malformedPacket s!"Interest Nonce must be exactly 4 bytes; got {val.length}")
      return s
    else if typ = interestSignatureInfo then do
      let _ ← SignatureInfo.decode val
      return s
    else
      return s
  | none => do
    ensure (isCriticalTlvType typ = false)
      (.malformedPacket "unknown critical TLV-TYPE in Interest body")
    return s

/-- `validate_interest_body_structure`: whether ApplicationParameters are present. -/
def validateInterestBodyStructure (body : Bytes) : Except PacketError Bool := do
  let s ← forEachTlv .tlv bodyStep ⟨1, false⟩ body
  return s.hasAppParams

/-- `validate_psdc_structure`: at most one parameters digest, and one when there are
ApplicationParameters. -/
def validatePsdcStructure (name : Name) (hasAppParams : Bool) : Except PacketError Unit := do
  let psdcCount := name.countP fun c => c.typ = parametersSha256
  ensure (psdcCount ≤ 1) (.malformedPacket
    "Interest Name has more than one ParametersSha256DigestComponent")
  ensure (¬ (hasAppParams = true ∧ psdcCount = 0)) (.malformedPacket
    "Interest with ApplicationParameters must contain a ParametersSha256DigestComponent")

def decode (raw : Bytes) : Except PacketError Interest := do
  let ((typ, value), _) ← (readTlv raw).mapError .tlv
  ensure (typ = interest) (.unknownPacketType typ)
  let ((nameTyp, nameVal), inner) ← (readTlv value).mapError .tlv
  ensure (nameTyp = TlvType.name) (.unknownPacketType nameTyp)
  let name ← (Name.decode nameVal).mapError .ofNameError
  ensure (name ≠ []) (.malformedPacket "Interest Name must have at least one component")
  let hasAppParams ← validateInterestBodyStructure inner
  validatePsdcStructure name hasAppParams
  return ⟨raw, name⟩

/-! ## Accessors -/

variable (self : Interest)

/-- The first element of type `target` inside the outer element; an Interest that was never
encoded, or whose wire does not parse up to that element, has none. -/
def findField (target : ℕ) : Option Bytes :=
  if self.raw.isEmpty then none
  else
    match Data.findField self.raw target with
    | .ok found => found
    | .error _ => none

def appParameters : Option Bytes := self.findField TlvType.appParameters

/-- `Interest::hop_limit`; a value that is not one byte counts as absent. -/
def hopLimit : Option UInt8 :=
  match self.findField TlvType.hopLimit with
  | some [val] => some val
  | _ => none

/-- `Interest::forwarding_hint`: the delegation names; none, or an unreadable one, counts as
absent. -/
def forwardingHint : Option (List Name) :=
  match self.findField TlvType.forwardingHint with
  | some val =>
    match forEachTlv PacketError.tlv
      (fun names t v => if t = TlvType.name then do
          let name ← (Name.decode v).mapError PacketError.ofNameError
          return names ++ [name]
        else return names)
      [] val with
    | .ok [] => none
    | .ok names => some names
    | .error _ => none
  | none => none

/-- `Interest::sig_info`; an unreadable InterestSignatureInfo counts as absent. -/
def sigInfo : Option SignatureInfo :=
  match self.findField interestSignatureInfo with
  | some val => (SignatureInfo.decode val).toOption
  | none => none

def sigValue : Option Bytes := self.findField interestSignatureValue

/-- `Interest::reflexive_name`: the components stand in the element without a NAME header; an
empty or unreadable name counts as absent. -/
def reflexiveName : Option Name :=
  match self.findField TlvType.reflexiveName with
  | some val =>
    match Name.decode val with
    | .ok [] => none
    | .ok name => some name
    | .error _ => none
  | none => none

/-- The first loop of `compute_interest_signed_region`: the bytes of every name component other
than the parameters digest. The element just read is what lies between the two remainders. -/
def signedNameComponents (nameValue : Bytes) : Except TlvError Bytes := do
  let (_, out) ← walkTlv id
    (fun (pending, out) typ _ rest =>
      let element := pending.take (pending.length - rest.length)
      return .yield (rest, if typ = parametersSha256.toNat then out else out ++ element))
    (nameValue, ([] : Bytes)) nameValue
  return out

/-- The variables of the second loop of `compute_interest_signed_region`. -/
structure RegionState where
  pending : Bytes
  appParamsTlv : Option Bytes
  sigInfoTlv : Option Bytes

/-- The second loop of `compute_interest_signed_region`: the ApplicationParameters element and
the InterestSignatureInfo element, where it stops. -/
def signedBodyElements (body : Bytes) : Except TlvError RegionState :=
  walkTlv id
    (fun s typ _ rest =>
      let element := s.pending.take (s.pending.length - rest.length)
      return if typ = TlvType.appParameters then
          .yield { s with pending := rest, appParamsTlv := some element }
        else if typ = TlvType.interestSignatureInfo then
          .done { s with pending := rest, sigInfoTlv := some element }
        else .yield { s with pending := rest })
    ⟨body, none, none⟩ body

def computeInterestSignedRegion (raw : Bytes) : Except TlvError (Option Bytes) :=
  if raw.isEmpty then .ok none
  else do
    let ((outerTyp, interestValue), _) ← readTlv raw
    if outerTyp ≠ TlvType.interest then return none
    else do
      let ((nameTyp, nameValue), inner) ← readTlv interestValue
      if nameTyp ≠ TlvType.name then return none
      else do
        let nameComponentsBytes ← signedNameComponents nameValue
        let s ← signedBodyElements inner
        match s.appParamsTlv, s.sigInfoTlv with
        | some ap, some si => return some (nameComponentsBytes ++ ap ++ si)
        | _, _ => return none

def signedRegion : Option Bytes :=
  match computeInterestSignedRegion self.raw with
  | .ok region => region
  | .error _ => none

end Interest

end NdnRs
