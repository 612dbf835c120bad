import NdnRs.Lib.Sha256
import NdnRs.Packet.Signature

/-!
# Signature verification (`ndn-security/src/verifier.rs`, `spki.rs`, `hmac_sha256.rs`)

`verify_by_sig_type` dispatches on the algorithm that the packet declares. The primitives come
from third-party crates and are the fields of a `Crypto`; HMAC is implemented in this repository
on top of SHA-256 and is modelled as it is written there.
-/

namespace NdnRs

open Bytes

/-- Errors of trust decisions (`TrustError`). -/
inductive TrustError where
  | invalidSignature
  | invalidKey
  | certNotFound (name : Str)
  | chainTooDeep (limit : ℕ)
  | chainCycle (name : Str)
  | schemaMismatch
  | keyStore (message : Str)
  | unsupportedSignatureType (code : ℕ) (name : String)
  | revoked (name : Str)
  deriving DecidableEq

inductive VerifyOutcome where
  | valid
  | invalid
  deriving DecidableEq

def VerifyOutcome.ofBool (b : Bool) : VerifyOutcome := if b then .valid else .invalid

@[simp] lemma VerifyOutcome.ofBool_eq_valid {b : Bool} :
    VerifyOutcome.ofBool b = .valid ↔ b = true := by
  cases b <;> simp [VerifyOutcome.ofBool]

/-- The primitives of the crypto crates. Key and signature parsers are the predicates that say
which byte strings they accept; a `…Verify` is only consulted on parsed arguments. -/
structure Crypto where
  /-- `sha2::Sha256::digest`. -/
  sha256 : Bytes → Bytes
  /-- A SHA-256 digest has 32 bytes. -/
  sha256_length : ∀ m, (sha256 m).length = 32
  /-- `blake3::hash`. -/
  blake3 : Bytes → Bytes
  /-- `blake3::keyed_hash`, key first. -/
  blake3Keyed : Bytes → Bytes → Bytes
  /-- `ed25519_dalek::VerifyingKey::from_bytes` accepts these 32 bytes. -/
  ed25519Key : Bytes → Bool
  /-- `VerifyingKey::verify`: key, message, signature. -/
  ed25519Verify : Bytes → Bytes → Bytes → Bool
  /-- `RsaPublicKey::from_public_key_der` accepts the key. -/
  rsaKey : Bytes → Bool
  /-- The PKCS#1 v1.5 signature parser accepts the signature. -/
  rsaSig : Bytes → Bool
  /-- PKCS#1 v1.5 / SHA-256 verification: key, message, signature. -/
  rsaVerify : Bytes → Bytes → Bytes → Bool
  /-- The P-256 `VerifyingKey::from_public_key_der` accepts the key. -/
  ecdsaKey : Bytes → Bool
  /-- The DER signature parser accepts the signature. -/
  ecdsaSig : Bytes → Bool
  /-- P-256 / SHA-256 verification: key, message, signature. -/
  ecdsaVerify : Bytes → Bytes → Bytes → Bool

/-! ## The Ed25519 key envelope -/

namespace Spki

def ed25519SpkiPrefix : Bytes :=
  [0x30, 0x2A, 0x30, 0x05, 0x06, 0x03, 0x2B, 0x65, 0x70, 0x03, 0x21, 0x00]

/-- `wrap_ed25519`, on a 32-byte key. -/
def wrapEd25519 (rawKey : Bytes) : Bytes := ed25519SpkiPrefix ++ rawKey

def isEd25519Spki (bytes : Bytes) : Bool :=
  bytes.length = 44 && bytes.take 12 = ed25519SpkiPrefix

def unwrapEd25519 (spki : Bytes) : Option Bytes :=
  if isEd25519Spki spki then some (spki.drop 12) else none

lemma unwrapEd25519_wrapEd25519 {rawKey : Bytes} (h : rawKey.length = 32) :
    unwrapEd25519 (wrapEd25519 rawKey) = some rawKey := by
  have hlen : (wrapEd25519 rawKey).length = 44 := by simp [wrapEd25519, ed25519SpkiPrefix, h]
  have htake : (wrapEd25519 rawKey).take 12 = ed25519SpkiPrefix := by
    simp [wrapEd25519, ed25519SpkiPrefix]
  rw [unwrapEd25519, isEd25519Spki, hlen, htake]
  simp [wrapEd25519, ed25519SpkiPrefix]

lemma length_of_unwrapEd25519 {spki key : Bytes} (h : unwrapEd25519 spki = some key) :
    key.length = 32 := by
  unfold unwrapEd25519 isEd25519Spki at h
  split_ifs at h with hspki
  simp only [Option.some.injEq] at h
  subst h
  simp only [Bool.and_eq_true, decide_eq_true_eq] at hspki
  rw [List.length_drop, hspki.1]

end Spki

namespace Crypto

variable (cr : Crypto)

/-! ## HMAC -/

/-- `block_key` of `hmac_sha256::sign`: the key, hashed when longer than a block, padded with
zeros to 64 bytes. -/
def hmacBlockKey (key : Bytes) : Bytes :=
  let k := if key.length > 64 then cr.sha256 key else key
  k ++ List.replicate (64 - k.length) 0

def hmacSign (key msg : Bytes) : Bytes :=
  let blockKey := cr.hmacBlockKey key
  let ipad := blockKey.map (· ^^^ 0x36)
  let opad := blockKey.map (· ^^^ 0x5c)
  cr.sha256 (opad ++ cr.sha256 (ipad ++ msg))

/-- The comparison loop of `hmac_sha256::verify`. -/
def tagDiff (expected tag : Bytes) : UInt8 :=
  (expected.zip tag).foldl (fun diff (e, t) => diff ||| (e ^^^ t)) 0

def hmacVerify (key msg tag : Bytes) : Bool :=
  let expected := cr.hmacSign key msg
  if tag.length ≠ expected.length then false else tagDiff expected tag = 0

private lemma foldl_diff_eq_zero {expected tag : Bytes} (hlen : tag.length = expected.length)
    (acc : UInt8) :
    (expected.zip tag).foldl (fun diff (e, t) => diff ||| (e ^^^ t)) acc = 0 ↔
      acc = 0 ∧ expected = tag := by
  induction expected generalizing tag acc with
  | nil =>
    obtain rfl : tag = [] := List.length_eq_zero_iff.mp (by simpa using hlen)
    simp
  | cons e es ih =>
    cases tag with
    | nil => simp at hlen
    | cons t ts =>
      have hlen' : ts.length = es.length := by simpa using hlen
      simp only [List.zip_cons_cons, List.foldl_cons, ih hlen', UInt8.or_eq_zero_iff,
        UInt8.xor_eq_zero_iff, List.cons.injEq, and_assoc]

lemma hmacVerify_iff {key msg tag : Bytes} :
    cr.hmacVerify key msg tag = true ↔ tag = cr.hmacSign key msg := by
  unfold hmacVerify
  by_cases hlen : tag.length = (cr.hmacSign key msg).length
  · have hdiff : tagDiff (cr.hmacSign key msg) tag = 0 ↔ cr.hmacSign key msg = tag := by
      rw [tagDiff, foldl_diff_eq_zero hlen]
      simp
    simp [hlen, hdiff, eq_comm]
  · have hne : tag ≠ cr.hmacSign key msg := fun h => hlen (congrArg List.length h)
    simp [hlen, hne]

/-! ## The verifiers -/

variable (sigType : SignatureType) (region sigValue publicKey : Bytes)

def ed25519Verifier : Except TrustError VerifyOutcome :=
  if ¬ (publicKey.length = 32 ∧ cr.ed25519Key publicKey = true) then .error .invalidKey
  else if sigValue.length ≠ 64 then .error .invalidSignature
  else .ok (.ofBool (cr.ed25519Verify publicKey region sigValue))

/-- The shape that `RsaSha256Verifier` and `EcdsaSha256Verifier` share: parse the key, parse the
signature, verify. -/
def derVerifier (keyOk sigOk : Bytes → Bool) (verify : Bytes → Bytes → Bytes → Bool)
    (region sigValue publicKey : Bytes) : Except TrustError VerifyOutcome :=
  if ¬ keyOk publicKey = true then .error .invalidKey
  else if ¬ sigOk sigValue = true then .error .invalidSignature
  else .ok (.ofBool (verify publicKey region sigValue))

def rsaSha256Verifier : Bytes → Bytes → Bytes → Except TrustError VerifyOutcome :=
  derVerifier cr.rsaKey cr.rsaSig cr.rsaVerify

def ecdsaSha256Verifier : Bytes → Bytes → Bytes → Except TrustError VerifyOutcome :=
  derVerifier cr.ecdsaKey cr.ecdsaSig cr.ecdsaVerify

def digestSha256Verifier : Except TrustError VerifyOutcome :=
  .ok (.ofBool (cr.sha256 region = sigValue))

def hmacSha256Verifier : Except TrustError VerifyOutcome :=
  .ok (.ofBool (cr.hmacVerify publicKey region sigValue))

def blake3DigestVerifier : Except TrustError VerifyOutcome :=
  .ok (.ofBool (sigValue.length = 32 && cr.blake3 region = sigValue))

def blake3KeyedVerifier : Except TrustError VerifyOutcome :=
  if publicKey.length ≠ 32 then .error .invalidKey
  else .ok (.ofBool (sigValue.length = 32 && cr.blake3Keyed publicKey region = sigValue))

/-- The key that the Ed25519 branch of `verify_by_sig_type` uses: a 44-byte envelope is
stripped. -/
def ed25519RawKey : Bytes := (Spki.unwrapEd25519 publicKey).getD publicKey

def verifyBySigType : Except TrustError VerifyOutcome :=
  match sigType with
  | .digestSha256 => cr.digestSha256Verifier region sigValue
  | .signatureEd25519 => cr.ed25519Verifier region sigValue (ed25519RawKey publicKey)
  | .signatureHmacWithSha256 => cr.hmacSha256Verifier region sigValue publicKey
  | .signatureSha256WithRsa => cr.rsaSha256Verifier region sigValue publicKey
  | .signatureSha256WithEcdsa => cr.ecdsaSha256Verifier region sigValue publicKey
  | .other c =>
    if c = 6 then cr.blake3DigestVerifier region sigValue
    else if c = 7 then cr.blake3KeyedVerifier region sigValue publicKey
    else .error (.unsupportedSignatureType c s!"Other({c})")

/-- The signature verifies under the algorithm that was declared for it. -/
def Verifies : Prop :=
  cr.verifyBySigType sigType region sigValue publicKey = .ok .valid

instance (sigType : SignatureType) (region sigValue publicKey : Bytes) :
    Decidable (cr.Verifies sigType region sigValue publicKey) := by
  unfold Verifies
  infer_instance

variable {cr} {region sigValue publicKey : Bytes}

lemma verifies_hmac_iff : cr.Verifies .signatureHmacWithSha256 region sigValue publicKey ↔
    sigValue = cr.hmacSign publicKey region := by
  simp [Verifies, verifyBySigType, hmacSha256Verifier, hmacVerify_iff]

lemma verifies_blake3_iff : cr.Verifies (.other 6) region sigValue publicKey ↔
    sigValue.length = 32 ∧ sigValue = cr.blake3 region := by
  simp [Verifies, verifyBySigType, blake3DigestVerifier, eq_comm (a := cr.blake3 region)]

lemma verifies_blake3Keyed_iff : cr.Verifies (.other 7) region sigValue publicKey ↔
    publicKey.length = 32 ∧ sigValue.length = 32 ∧ sigValue = cr.blake3Keyed publicKey region := by
  by_cases hkey : publicKey.length = 32
  · simp [Verifies, verifyBySigType, blake3KeyedVerifier, hkey,
      eq_comm (a := cr.blake3Keyed publicKey region)]
  · simp [Verifies, verifyBySigType, blake3KeyedVerifier, hkey]

lemma verifies_digestSha256_iff : cr.Verifies .digestSha256 region sigValue publicKey ↔
    sigValue = cr.sha256 region := by
  simp [Verifies, verifyBySigType, digestSha256Verifier, eq_comm (a := cr.sha256 region)]

/-- Primitives for evaluating the model: SHA-256 itself, and a given table of Ed25519 signatures.
The other primitives accept nothing. -/
def sample (ed25519Verify : Bytes → Bytes → Bytes → Bool) : Crypto where
  sha256 := Sha256.digest
  sha256_length := Sha256.digest_length
  blake3 := fun _ => []
  blake3Keyed := fun _ _ => []
  ed25519Key := fun _ => true
  ed25519Verify := ed25519Verify
  rsaKey := fun _ => false
  rsaSig := fun _ => false
  rsaVerify := fun _ _ _ => false
  ecdsaKey := fun _ => false
  ecdsaSig := fun _ => false
  ecdsaVerify := fun _ _ _ => false

end Crypto

end NdnRs
