import NdnRs.Packet.Signature

/-!
# Data packets (`ndn-packet/src/data.rs`)

A Data packet keeps its wire bytes together with the offsets of its signed region and of its
SignatureValue; the other fields are decoded from the wire on demand.
-/

namespace NdnRs

open Bytes Tlv TlvType Except

/-- A Data packet: its wire bytes, the offsets of the signed region and of the SignatureValue
element inside them, and its name. -/
structure Data where
  raw : Bytes
  signedStart : ℕ
  signedEnd : ℕ
  sigValueStart : ℕ
  sigValueEnd : ℕ
  name : Name
  deriving DecidableEq

namespace Data

/-- `elem_index` of `validate_data_body_structure`: the place of a body element in the order the
specification prescribes. -/
def elemIndex (typ : ℕ) : Option ℕ :=
  if typ = metaInfo then some 2
  else if typ = content then some 3
  else if typ = signatureInfo then some 4
  else if typ = signatureValue then some 5
  else none

/-- The variables of the loop in `validate_data_body_structure`. -/
structure BodyState where
  lastElement : ℕ
  lastSigType : Option SignatureType

/-- The fixed-width check on a SignatureValue. -/
def checkSigValueLen (lastSigType : Option SignatureType) (val : Bytes) : Except PacketError Unit :=
  match lastSigType with
  | none => .ok ()
  | some sigType =>
    match sigType.requiredSignatureValueLen with
    | none => .ok ()
    | some expected => ensure (val.length = expected) (.malformedPacket
        s!"SignatureValue length {val.length} != expected {expected} for {sigType.debug}")

/-- The body of the loop in `validate_data_body_structure`. -/
def bodyStep (s : BodyState) (typ : ℕ) (val : Bytes) : Except PacketError BodyState :=
  match elemIndex typ with
  | some elem => do
    ensure (s.lastElement < elem)
      (.malformedPacket "Data body element out of spec order or duplicated")
    if typ = signatureInfo then do
      let info ← SignatureInfo.decode val
      return ⟨elem, some info.sigType⟩
    else if typ = signatureValue then do
      checkSigValueLen s.lastSigType val
      return ⟨elem, s.lastSigType⟩
    else
      return ⟨elem, s.lastSigType⟩
  | none => do
    ensure (isCriticalTlvType typ = false)
      (.malformedPacket "unknown critical TLV-TYPE in Data body")
    return s

/-- `validate_data_body_structure`, on the elements behind the name. -/
def validateDataBodyStructure (body : Bytes) : Except PacketError Unit := do
  let _ ← forEachTlv .tlv bodyStep ⟨1, none⟩ body
  return ()

/-- `scan_for_sig_value`: the offsets in `raw` of the first SignatureValue element at or behind
`start`. The loop state is the offset of the next element and the answer. -/
def scanForSigValue (raw : Bytes) (start : ℕ) : Except TlvError (ℕ × Option (ℕ × ℕ)) :=
  walkTlv id
    (fun (pos, found) typ _ rest =>
      let next := raw.length - rest.length
      return if typ = signatureValue then .done (next, some (pos, next))
        else .yield (next, found))
    (start, none) (raw.drop start)

/-- The offsets that `Data::decode` keeps of `scan_for_sig_value`: an error of the scan is
ignored and leaves both at zero. -/
def sigValueOffsets (raw : Bytes) (start : ℕ) : ℕ × ℕ :=
  match scanForSigValue raw start with
  | .ok (_, some offsets) => offsets
  | _ => (0, 0)

/-- The packet `Data::decode` builds once its checks have passed: everything in front of the
outer value counts as the outer header. -/
def ofParts (raw value : Bytes) (name : Name) : Data :=
  let outerHeaderLen := raw.length - value.length
  let (sigValueStart, sigValueEnd) := sigValueOffsets raw outerHeaderLen
  { raw := raw
    signedStart := outerHeaderLen
    signedEnd := if sigValueStart > 0 then sigValueStart else raw.length
    sigValueStart := sigValueStart
    sigValueEnd := sigValueEnd
    name := name }

def decode (raw : Bytes) : Except PacketError Data := do
  let ((typ, value), _) ← (readTlv raw).mapError .tlv
  ensure (typ = data) (.unknownPacketType typ)
  let ((nameTyp, nameVal), inner) ← (readTlv value).mapError .tlv
  ensure (nameTyp = TlvType.name) (.unknownPacketType nameTyp)
  let name ← (Name.decode nameVal).mapError .ofNameError
  ensure (name ≠ []) (.malformedPacket "Data Name must have at least one component")
  validateDataBodyStructure inner
  return ofParts raw value name

/-! ## Accessors -/

def signedRegion (self : Data) : Bytes :=
  (self.raw.take self.signedEnd).drop self.signedStart

/-- `Data::sig_value`; empty when the packet carries no signature. -/
def sigValue (self : Data) : Bytes :=
  if self.sigValueStart = 0 ∨ self.sigValueEnd = 0 then []
  else
    match readTlv ((self.raw.take self.sigValueEnd).drop self.sigValueStart) with
    | .ok ((_, val), _) => (self.raw.take self.sigValueEnd).drop (self.sigValueEnd - val.length)
    | .error _ => []

/-- The first element of type `target` inside the outer element of the wire. -/
def findField (raw : Bytes) (target : ℕ) : Except TlvError (Option Bytes) := do
  let ((_, value), _) ← readTlv raw
  findTlv target value

lemma findField_writeTlvs {es : List (ℕ × Bytes)} (hok : ∀ e ∈ es, ElementOk e)
    (hlen : (writeTlvs es).length < 2 ^ 64) (target : ℕ) :
    findField (writeTlv data (writeTlvs es)) target =
      .ok ((es.find? fun e => e.1 = target).map Prod.snd) := by
  rw [findField, readTlv_writeTlv_self (by decide) hlen, ok_bind]
  exact findTlv_writeTlvs target hok

def content (self : Data) : Option Bytes :=
  match findField self.raw TlvType.content with
  | .ok found => found
  | .error _ => none

/-- `Data::sig_info`; an unreadable SignatureInfo counts as absent. -/
def sigInfo (self : Data) : Option SignatureInfo :=
  match findField self.raw TlvType.signatureInfo with
  | .ok (some val) => (SignatureInfo.decode val).toOption
  | _ => none

/-! ## What decoding has checked -/

variable {raw : Bytes} {d : Data}

/-- **Data decoding, exactly.** The wire starts with a DATA element; that element starts with a
non-empty name and goes on with a well-formed body. Bytes behind the outer element are not
looked at here, but they do shift the offsets. -/
theorem decode_eq_ok_iff :
    decode raw = .ok d ↔
      ∃ value rest nameVal body name,
        readTlv raw = .ok ((data, value), rest) ∧
        readTlv value = .ok ((TlvType.name, nameVal), body) ∧
        Name.decode nameVal = .ok name ∧ name ≠ [] ∧
        validateDataBodyStructure body = .ok () ∧
        d = ofParts raw value name := by
  unfold decode
  refine ⟨fun h => ?_, ?_⟩
  · obtain ⟨⟨⟨typ, value⟩, rest⟩, hraw, h⟩ := Except.bind_eq_ok_iff.mp h
    obtain ⟨_, htyp, h⟩ := Except.bind_eq_ok_iff.mp h
    obtain ⟨⟨⟨nameTyp, nameVal⟩, body⟩, hval, h⟩ := Except.bind_eq_ok_iff.mp h
    obtain ⟨_, hnameTyp, h⟩ := Except.bind_eq_ok_iff.mp h
    obtain ⟨name, hname, h⟩ := Except.bind_eq_ok_iff.mp h
    obtain ⟨_, hne, h⟩ := Except.bind_eq_ok_iff.mp h
    obtain ⟨_, hbody, hd⟩ := Except.bind_eq_ok_iff.mp h
    simp only [Except.mapError_eq_ok_iff, Except.ensure_eq_ok_iff] at hraw htyp hval
    simp only [Except.mapError_eq_ok_iff, Except.ensure_eq_ok_iff] at hnameTyp hname hne
    subst htyp hnameTyp
    exact ⟨value, rest, nameVal, body, name, hraw, hval, hname, hne, hbody, (Except.ok.inj hd).symm⟩
  · rintro ⟨value, rest, nameVal, body, name, hraw, hval, hname, hne, hbody, rfl⟩
    simp only [hraw, hval, hname, hbody, Except.mapError, Except.ok_bind, Except.ensure_of, hne,
      ne_eq, not_false_eq_true]
    rfl

lemma raw_of_decode (h : decode raw = .ok d) : d.raw = raw := by
  obtain ⟨value, _, _, _, name, _, _, _, _, _, rfl⟩ := decode_eq_ok_iff.mp h
  rfl

end Data

end NdnRs
