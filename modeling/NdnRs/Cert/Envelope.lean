import NdnRs.Cert.Challenge
import NdnRs.Wire.NameUri

/-!
# Enrollment messages (`ndn-cert/src/tlv.rs`, `ecdh.rs`)

The bodies of NEW and CHALLENGE messages. CHALLENGE bodies travel in AES-GCM envelopes under a
session key that NEW agrees on.
-/

namespace NdnRs

open Bytes Tlv Str

/-! ## Element types -/

namespace CertTlv

def parameterKey : ℕ := 0x85
def parameterValue : ℕ := 0x87
def ecdhPub : ℕ := 0x91
def certRequest : ℕ := 0x93
def salt : ℕ := 0x95
def requestId : ℕ := 0x97
def challenge : ℕ := 0x99
def status : ℕ := 0x9B
def iv : ℕ := 0x9D
def encryptedPayload : ℕ := 0x9F
def selectedChallenge : ℕ := 0xA1
def challengeStatus : ℕ := 0xA3
def remainingTries : ℕ := 0xA5
def remainingTime : ℕ := 0xA7
def issuedCertName : ℕ := 0xA9
def errorCode : ℕ := 0xAB
def errorInfo : ℕ := 0xAD
def authTag : ℕ := 0xAF

def parseError (e : TlvError) : CertError :=
  .invalidRequest ("TLV parse error: ".toList ++ e.display)

def require {α : Type} (found : Option α) (message : String) : Except CertError α :=
  match found with
  | some val => .ok val
  | none => .error (.invalidRequest message.toList)

end CertTlv

open CertTlv

/-! ## Envelopes -/

/-- The key agreement and the cipher of the crypto crates. A key pair is its secret. -/
structure SessionCrypto where
  /-- The uncompressed public point of a secret. -/
  publicKeyBytes : Bytes → Bytes
  /-- ECDH and HKDF: secret, peer's point, salt, request id; a peer's point that is no point is an
  error. -/
  deriveSessionKey : Bytes → Bytes → Bytes → Bytes → Except CertError Bytes
  /-- AES-GCM encryption: key, IV, associated data, plaintext; ciphertext and tag. -/
  encrypt : Bytes → Bytes → Bytes → Bytes → Option (Bytes × Bytes)
  /-- AES-GCM decryption: key, IV, associated data, ciphertext, tag. -/
  decrypt : Bytes → Bytes → Bytes → Bytes → Bytes → Option Bytes

/-- `advance_iv_counter`: the last four bytes count blocks and stop at their maximum. -/
def advanceIvCounter (iv : Bytes) (payloadLen : ℕ) : Bytes :=
  let increment := (payloadLen + 15) / 16 % 2 ^ 32
  iv.take 8 ++ beBytes 4 (min (beNat (iv.drop 8) + increment) (2 ^ 32 - 1))

/-- The variables of the loop in `open_envelope`. -/
structure EnvelopeFields where
  iv : Option Bytes
  authTag : Option Bytes
  ciphertext : Option Bytes

/-- The body of the loop in `open_envelope`: the last element of a type counts, and an IV or a tag
of the wrong length is skipped. -/
def envelopeStep (s : EnvelopeFields) (typ : ℕ) (val : Bytes) : Except CertError EnvelopeFields :=
  .ok (if typ = iv ∧ val.length = 12 then { s with iv := some val }
    else if typ = authTag ∧ val.length = 16 then { s with authTag := some val }
    else if typ = encryptedPayload then { s with ciphertext := some val }
    else s)

namespace SessionCrypto

variable (sc : SessionCrypto)

/-- `SessionKey::seal_envelope`: the envelope and the advanced IV. -/
def sealEnvelope (key plaintext aad ivState : Bytes) : Except CertError (Bytes × Bytes) :=
  match sc.encrypt key ivState aad plaintext with
  | none => .error (.invalidRequest "AES-GCM encryption failed".toList)
  | some (ct, tag) =>
    .ok (writeTlv iv ivState ++ writeTlv authTag tag ++
      writeTlv encryptedPayload ct, advanceIvCounter ivState plaintext.length)

/-- `SessionKey::open_envelope`: the plaintext, and the IV of the envelope. -/
def openEnvelope (key envelope aad : Bytes) : Except CertError (Bytes × Bytes) := do
  let s ← forEachTlv
    (fun e => .invalidRequest ("envelope TLV parse error: ".toList ++ e.display))
    envelopeStep ⟨none, none, none⟩ envelope
  let iv ← require s.iv "envelope missing IV"
  let authTag ← require s.authTag "envelope missing AuthTag"
  let ciphertext ← require s.ciphertext "envelope missing EncryptedPayload"
  match sc.decrypt key iv aad ciphertext authTag with
  | none => .error (.invalidRequest "AES-GCM decryption failed (bad tag)".toList)
  | some plaintext => .ok (plaintext, iv)

end SessionCrypto

/-! ## NEW -/

structure NewRequestTlv where
  ecdhPub : Bytes
  certRequest : Bytes

namespace NewRequestTlv

def encode (self : NewRequestTlv) : Bytes :=
  writeTlv CertTlv.ecdhPub self.ecdhPub ++ writeTlv CertTlv.certRequest self.certRequest

def step (s : Option Bytes × Option Bytes) (typ : ℕ) (val : Bytes) :
    Except CertError (Option Bytes × Option Bytes) :=
  .ok (if typ = CertTlv.ecdhPub then (some val, s.2)
    else if typ = CertTlv.certRequest then (s.1, some val)
    else s)

def decode (buf : Bytes) : Except CertError NewRequestTlv := do
  let (ecdhPub, certRequest) ← forEachTlv parseError step (none, none) buf
  let ecdhPub ← require ecdhPub "missing ecdh-pub"
  let certRequest ← require certRequest "missing cert-request"
  return ⟨ecdhPub, certRequest⟩

end NewRequestTlv

def encodeNewResponse (ecdhPub salt requestId : Bytes) (challenges : List Str) : Bytes :=
  writeTlv CertTlv.ecdhPub ecdhPub ++ writeTlv CertTlv.salt salt ++
    writeTlv CertTlv.requestId requestId ++
    challenges.flatMap fun challenge => writeTlv CertTlv.challenge challenge.bytes

/-! ## CHALLENGE -/

/-- The loop of `decode_challenge_plaintext`; every round reads at least one byte. -/
def challengePlaintextLoop : ℕ → Option Str × Json.Fields → Bytes →
    Except CertError (Option Str × Json.Fields)
  | 0, s, _ => .ok s
  | fuel + 1, (challengeType, params), buf =>
    if buf.isEmpty then .ok (challengeType, params)
    else
      match readTlv buf with
      | .error _ => .error (.invalidRequest "malformed CHALLENGE plaintext".toList)
      | .ok ((typ, val), rest) =>
        if typ = selectedChallenge then
          match fromUtf8 val with
          | none => .error (.invalidRequest "SelectedChallenge not UTF-8".toList)
          | some text => challengePlaintextLoop fuel (some text, params) rest
        else if typ = parameterKey then
          match fromUtf8 val with
          | none => .error (.invalidRequest "ParameterKey not UTF-8".toList)
          | some key =>
            match readTlv rest with
            | .error _ => .error (.invalidRequest "ParameterKey without ParameterValue".toList)
            | .ok ((valTyp, valVal), rest) =>
              if valTyp ≠ parameterValue then
                .error (.invalidRequest ("expected ParameterValue (".toList ++
                  hexText parameterValue ++ "), got ".toList ++ hexText valTyp))
              else
                match fromUtf8 valVal with
                | none => .error (.invalidRequest "ParameterValue not UTF-8".toList)
                | some value =>
                  challengePlaintextLoop fuel (challengeType, Assoc.insert key (.str value) params)
                    rest
        else challengePlaintextLoop fuel (challengeType, params) rest

def decodeChallengePlaintext (plaintext : Bytes) : Except CertError (Str × Json.Fields) := do
  let (challengeType, params) ← challengePlaintextLoop plaintext.length (none, []) plaintext
  let challengeType ← require challengeType "CHALLENGE plaintext missing SelectedChallenge"
  return (challengeType, params)

structure ChallengeResponseTlv where
  status : ℕ
  challengeStatus : Option Str
  remainingTries : Option ℕ
  remainingTimeSecs : Option ℕ
  issuedCertName : Option Str
  errorCode : Option ℕ
  errorInfo : Option Str

namespace ChallengeResponseTlv

def statusPending : ℕ := 2

def statusSuccess : ℕ := 3

def statusFailure : ℕ := 4

def optional {α : Type} (typ : ℕ) (value : α → Bytes) : Option α → Bytes
  | none => []
  | some a => writeTlv typ (value a)

/-- The element with the name of the issued certificate, left out when the name does not parse. -/
def encodeCertName : Option Str → Bytes
  | none => []
  | some uri =>
    match Name.fromStr uri with
    | .error _ => []
    | .ok name => writeTlv CertTlv.issuedCertName name.encodeToTlv

def encode (self : ChallengeResponseTlv) : Bytes :=
  writeTlv CertTlv.status (beBytes 1 self.status) ++
    optional CertTlv.challengeStatus Str.bytes self.challengeStatus ++
    optional CertTlv.remainingTries (beBytes 1) self.remainingTries ++
    optional remainingTime (beBytes 4) self.remainingTimeSecs ++
    encodeCertName self.issuedCertName ++
    optional CertTlv.errorCode (beBytes 1) self.errorCode ++
    optional CertTlv.errorInfo Str.bytes self.errorInfo

/-- The answer to a failed challenge or a denied issuance. -/
def failure (reason : Str) : ChallengeResponseTlv :=
  ⟨statusFailure, none, none, none, none, some 7, some reason⟩

/-- The answer to a round that needs another one. -/
def pending (message : Str) (tries time : ℕ) : ChallengeResponseTlv :=
  ⟨statusPending, some message, some tries, some time, none, none, none⟩

def success (certName : Str) : ChallengeResponseTlv :=
  ⟨statusSuccess, none, none, none, some certName, none, none⟩

end ChallengeResponseTlv

/-! ## REVOKE -/

/-- The body of the loop in `RevokeRequestTlv::decode`. -/
def revokeRequestStep (s : Option Str × Option Bytes) (typ : ℕ) (val : Bytes) :
    Except CertError (Option Str × Option Bytes) :=
  if typ = issuedCertName then
    match fromUtf8 val with
    | none => .error (.invalidRequest "invalid cert-name UTF-8".toList)
    | some certName => .ok (some certName, s.2)
  else if typ = authTag then .ok (s.1, some val)
  else .ok s

/-- `RevokeRequestTlv::decode`: the certificate name and the signature. -/
def decodeRevokeRequest (buf : Bytes) : Except CertError (Str × Bytes) := do
  let (certName, signature) ← forEachTlv parseError revokeRequestStep (none, none) buf
  let certName ← require certName "missing cert-name"
  let signature ← require signature "missing signature"
  return (certName, signature)

end NdnRs
