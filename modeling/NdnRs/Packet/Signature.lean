import NdnRs.Wire.Name

/-!
# Signature fields of packets (`ndn-packet/src/signature.rs`)

The SignatureInfo element says which algorithm produced a packet's signature and where the key
is to be found. Both are chosen by whoever wrote the packet.
-/

namespace NdnRs

open Bytes Tlv Except

/-! ## Errors and TLV types of packets -/

/-- Errors of packet decoding (`PacketError`). -/
inductive PacketError where
  | tlv (e : TlvError)
  | unknownPacketType (typ : ℕ)
  | malformedPacket (message : String)
  | keyLocatorRule (sigTypeCode : ℕ)
  deriving DecidableEq

/-- A number as `{:#x}` prints it. -/
def hexText (n : ℕ) : Str := "0x".toList ++ Nat.toDigits 16 n

def TlvError.display : TlvError → Str
  | .unexpectedEof => "unexpected end of buffer".toList
  | .unknownCriticalType t => "unknown critical TLV type ".toList ++ hexText t
  | .invalidLength typ expected got =>
    "TLV type ".toList ++ hexText typ ++ ": expected length ".toList ++ Str.decimal expected ++
      ", got ".toList ++ Str.decimal got
  | .invalidUtf8 typ => "TLV type ".toList ++ hexText typ ++ " contains invalid UTF-8".toList
  | .missingField name => "required field '".toList ++ name.toList ++ "' missing".toList
  | .duplicateField t => "TLV type ".toList ++ hexText t ++ " appeared more than once".toList
  | .nonMinimalVarNumber => "VarNumber not in shortest encoding form".toList
  | .typeOutOfRange =>
    "TLV-TYPE exceeds spec u32 range (9-byte form is for LENGTH only)".toList

def PacketError.display : PacketError → Str
  | .tlv e => "TLV error: ".toList ++ e.display
  | .unknownPacketType t => "unknown packet type ".toList ++ hexText t
  | .malformedPacket message => "malformed packet: ".toList ++ message.toList
  | .keyLocatorRule code =>
    "KeyLocator rule violated for SignatureType ".toList ++ Str.decimal code

/-- The conversion `From<NameError> for PacketError`. -/
def PacketError.ofNameError (e : NameError) : PacketError := .malformedPacket e.message

namespace TlvType

def interest : ℕ := 0x05
def data : ℕ := 0x06
def canBePrefix : ℕ := 0x21
def mustBeFresh : ℕ := 0x12
def forwardingHint : ℕ := 0x1e
def nonce : ℕ := 0x0a
def interestLifetime : ℕ := 0x0c
def hopLimit : ℕ := 0x22
def appParameters : ℕ := 0x24
def metaInfo : ℕ := 0x14
def content : ℕ := 0x15
def signatureInfo : ℕ := 0x16
def signatureValue : ℕ := 0x17
def contentType : ℕ := 0x18
def freshnessPeriod : ℕ := 0x19
def signatureType : ℕ := 0x1b
def keyLocator : ℕ := 0x1c
def keyDigest : ℕ := 0x1d
def reflexiveName : ℕ := 0x0402
def validityPeriod : ℕ := 0xFD
def notBefore : ℕ := 0xFE
def notAfter : ℕ := 0xFF
def interestSignatureInfo : ℕ := 0x2C
def interestSignatureValue : ℕ := 0x2E
def signatureNonce : ℕ := 0x26
def signatureTime : ℕ := 0x28
def signatureSeqNum : ℕ := 0x2A

end TlvType

/-- `is_critical_tlv_type`: types up to 31 and odd types must be understood. -/
def isCriticalTlvType (typ : ℕ) : Bool := typ ≤ 31 || typ % 2 = 1

/-- `decode_nni`: a NonNegativeInteger of 1, 2, 4 or 8 bytes. -/
def decodeNni (buf : Bytes) : Except PacketError ℕ :=
  if buf.length = 1 ∨ buf.length = 2 ∨ buf.length = 4 ∨ buf.length = 8 then .ok (beNat buf)
  else .error (.malformedPacket s!"NonNegativeInteger must be 1/2/4/8 octets; got {buf.length}")

/-! ## Signature types -/

/-- The algorithm that a packet says produced its signature. -/
inductive SignatureType where
  | digestSha256
  | signatureSha256WithRsa
  | signatureSha256WithEcdsa
  | signatureHmacWithSha256
  | signatureEd25519
  | other (code : ℕ)
  deriving DecidableEq

namespace SignatureType

def code : SignatureType → ℕ
  | .digestSha256 => 0
  | .signatureSha256WithRsa => 1
  | .signatureSha256WithEcdsa => 3
  | .signatureHmacWithSha256 => 4
  | .signatureEd25519 => 5
  | .other c => c

def fromCode (code : ℕ) : SignatureType :=
  if code = 0 then .digestSha256
  else if code = 1 then .signatureSha256WithRsa
  else if code = 3 then .signatureSha256WithEcdsa
  else if code = 4 then .signatureHmacWithSha256
  else if code = 5 then .signatureEd25519
  else .other code

@[simp] lemma code_fromCode (c : ℕ) : (fromCode c).code = c := by
  unfold fromCode
  split_ifs <;> simp_all [code]

def debug : SignatureType → String
  | .digestSha256 => "DigestSha256"
  | .signatureSha256WithRsa => "SignatureSha256WithRsa"
  | .signatureSha256WithEcdsa => "SignatureSha256WithEcdsa"
  | .signatureHmacWithSha256 => "SignatureHmacWithSha256"
  | .signatureEd25519 => "SignatureEd25519"
  | .other c => s!"Other({c})"

def requiredSignatureValueLen : SignatureType → Option ℕ
  | .digestSha256 => some 32
  | .signatureHmacWithSha256 => some 32
  | .signatureEd25519 => some 64
  | .other 6 => some 32
  | .other 7 => some 32
  | .signatureSha256WithRsa => none
  | .signatureSha256WithEcdsa => none
  | .other _ => none

end SignatureType

/-! ## SignatureInfo -/

/-- Where the signing key is to be found: by name or by digest. -/
inductive KeyLocator where
  | name (n : Name)
  | keyDigest (digest : Bytes)
  deriving DecidableEq

/-- A decoded SignatureInfo element. -/
structure SignatureInfo where
  sigType : SignatureType
  keyLocator : Option KeyLocator
  sigNonce : Option Bytes
  sigTime : Option ℕ
  sigSeqNum : Option ℕ
  deriving DecidableEq

namespace SignatureInfo

def keyLocatorName (self : SignatureInfo) : Option Name :=
  match self.keyLocator with
  | some (.name n) => some n
  | _ => none

/-- The variables of the decoding loop: a `SignatureInfo` whose type may still be missing. -/
structure Fields where
  sigTypeOpt : Option SignatureType
  keyLocator : Option KeyLocator
  sigNonce : Option Bytes
  sigTime : Option ℕ
  sigSeqNum : Option ℕ

/-- The branch of the decoding loop for a KEY_LOCATOR element. An empty one, or one that holds
neither a name nor a digest, leaves the locator as it was. -/
def decodeKeyLocator (previous : Option KeyLocator) (val : Bytes) :
    Except PacketError (Option KeyLocator) :=
  if val.isEmpty then .ok previous
  else do
    let ((kt, kv), _) ← (readTlv val).mapError .tlv
    if kt = TlvType.name then do
      let name ← (Name.decode kv).mapError .ofNameError
      return some (.name name)
    else if kt = TlvType.keyDigest then
      return some (.keyDigest kv)
    else
      return previous

/-- The body of the loop in `SignatureInfo::decode`. -/
def decodeStep (s : Fields) (typ : ℕ) (val : Bytes) : Except PacketError Fields :=
  if typ = TlvType.signatureType then do
    let code ← decodeNni val
    return { s with sigTypeOpt := some (.fromCode code) }
  else if typ = TlvType.keyLocator then do
    let keyLocator ← decodeKeyLocator s.keyLocator val
    return { s with keyLocator := keyLocator }
  else if typ = TlvType.signatureNonce then
    return { s with sigNonce := some val }
  else if typ = TlvType.signatureTime then do
    let ms ← decodeNni val
    return { s with sigTime := some ms }
  else if typ = TlvType.signatureSeqNum then do
    let n ← decodeNni val
    return { s with sigSeqNum := some n }
  else if typ = TlvType.validityPeriod then
    return s
  else if isCriticalTlvType typ then
    throw (.malformedPacket "unknown critical TLV-TYPE in SignatureInfo body")
  else
    return s

/-- The rule for the presence of a key locator: codes 0 and 6 must not have one, codes 1, 3, 4,
5 and 7 must. -/
def KeyLocatorRule (code : ℕ) (keyLocator : Option KeyLocator) : Prop :=
  ((code = 0 ∨ code = 6) → keyLocator = none) ∧
  ((code = 1 ∨ code = 3 ∨ code = 4 ∨ code = 5 ∨ code = 7) → keyLocator ≠ none)

instance (code : ℕ) (keyLocator : Option KeyLocator) :
    Decidable (KeyLocatorRule code keyLocator) := by
  unfold KeyLocatorRule
  infer_instance

/-- The check at the end of `SignatureInfo::decode`; a missing type is not constrained. -/
def checkKeyLocator (s : Fields) : Except PacketError Unit :=
  match s.sigTypeOpt with
  | some st => ensure (KeyLocatorRule st.code s.keyLocator) (.keyLocatorRule st.code)
  | none => .ok ()

def decode (value : Bytes) : Except PacketError SignatureInfo := do
  let s ← forEachTlv .tlv decodeStep ⟨none, none, none, none, none⟩ value
  checkKeyLocator s
  return {
    sigType := s.sigTypeOpt.getD (.other 0)
    keyLocator := s.keyLocator
    sigNonce := s.sigNonce
    sigTime := s.sigTime
    sigSeqNum := s.sigSeqNum }

lemma decode_eq_ok_iff {value : Bytes} {info : SignatureInfo} :
    decode value = .ok info ↔
      ∃ s, forEachTlv .tlv decodeStep ⟨none, none, none, none, none⟩ value = .ok s ∧
        checkKeyLocator s = .ok () ∧
        info = ⟨s.sigTypeOpt.getD (.other 0), s.keyLocator, s.sigNonce, s.sigTime,
          s.sigSeqNum⟩ := by
  unfold decode
  constructor
  · intro h
    obtain ⟨s, hs, h⟩ := bind_eq_ok_iff.mp h
    obtain ⟨u, hu, h⟩ := bind_eq_ok_iff.mp h
    exact ⟨s, hs, hu, (Except.ok.inj h).symm⟩
  · rintro ⟨s, hs, hu, rfl⟩
    rw [hs, ok_bind, hu, ok_bind]
    rfl

end SignatureInfo

end NdnRs
