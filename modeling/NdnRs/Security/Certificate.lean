import NdnRs.Packet.Data
import NdnRs.Security.Iso8601
import NdnRs.Security.Verifier
import NdnRs.Wire.NameUri

/-!
# Certificates (`ndn-security/src/cert_cache.rs`, `cert_fetcher.rs`)

A certificate is decoded from a Data packet. The cache indexes certificates by name and by the
digest of their key; the fetcher fills it with whatever the network answers.
-/

namespace NdnRs

open Bytes Tlv TlvType

/-- A certificate: a key bound to a name, with the fields needed to check who issued it. -/
structure Certificate where
  name : Name
  publicKey : Bytes
  validFrom : ℕ
  validUntil : ℕ
  issuer : Option Name
  signedRegion : Option Bytes
  sigValue : Option Bytes
  sigType : SignatureType
  deriving DecidableEq

/-! ## Decoding -/

/-- The loop over a ValidityPeriod: dates that do not parse leave the default. -/
def decodeValidityDates (vp : Bytes) : ℕ × ℕ :=
  scanTlv
    (fun (notBefore, notAfter) vtype vval =>
      if vtype = TlvType.notBefore then ((Iso8601.parseIsoBasic vval).getD notBefore, notAfter)
      else if vtype = TlvType.notAfter then
        (notBefore, (Iso8601.parseIsoBasic vval).getD notAfter)
      else (notBefore, notAfter))
    (0, 2 ^ 64 - 1) vp

/-- The first element of type `target`, among those that can be read, on which `f` answers. -/
def scanFirst {α : Type} (target : ℕ) (f : Bytes → Option α) (buf : Bytes) : Option α :=
  scanTlv
    (fun found typ val =>
      match found with
      | some r => some r
      | none => if typ = target then f val else none)
    none buf

/-- `decode_validity_period`: both ends of the period, unbounded when absent or malformed. -/
def decodeValidityPeriod (signedRegion : Bytes) : ℕ × ℕ :=
  (scanFirst signatureInfo
    (scanFirst validityPeriod fun vp => some (decodeValidityDates vp))
    signedRegion).getD (0, 2 ^ 64 - 1)

namespace Certificate

/-- The key that `Certificate::decode` reads from the Content: an Ed25519 envelope is opened, any
other non-empty content is the key. -/
def keyOfContent (content : Bytes) : Except TrustError Bytes :=
  match Spki.unwrapEd25519 content with
  | some key => .ok key
  | none => if content ≠ [] then .ok content else .error .invalidKey

/-- The certificate that a Data packet describes, around a given key. -/
def ofData (data : Data) (publicKey : Bytes) : Certificate :=
  let (validFrom, validUntil) := decodeValidityPeriod data.signedRegion
  { name := data.name
    publicKey := publicKey
    validFrom := validFrom
    validUntil := validUntil
    issuer := data.sigInfo.bind SignatureInfo.keyLocatorName
    signedRegion := some data.signedRegion
    sigValue := some data.sigValue
    sigType := (data.sigInfo.map SignatureInfo.sigType).getD .signatureEd25519 }

def decode (data : Data) : Except TrustError Certificate :=
  match data.content with
  | none => .error .invalidKey
  | some content =>
    match keyOfContent content with
    | .error e => .error e
    | .ok publicKey => .ok (ofData data publicKey)

def isValidAt (self : Certificate) (nowNs : ℕ) : Bool :=
  self.validFrom ≤ nowNs && nowNs ≤ self.validUntil

lemma decode_eq_ok_iff {data : Data} {cert : Certificate} :
    decode data = .ok cert ↔
      ∃ content publicKey, data.content = some content ∧
        keyOfContent content = .ok publicKey ∧ cert = ofData data publicKey := by
  unfold decode
  cases data.content with
  | none => simp
  | some content =>
    cases hkey : keyOfContent content with
    | error e => simp [hkey]
    | ok publicKey => simp [hkey, eq_comm]

end Certificate

/-! ## The certificate cache -/

/-- `CertCache`: certificates by name, and names by the SHA-256 digest of the key. -/
structure CertCache where
  byName : Name → Option Certificate
  byDigest : Bytes → Option Name

namespace CertCache

def new : CertCache := ⟨fun _ => none, fun _ => none⟩

def get (self : CertCache) (keyName : Name) : Option Certificate := self.byName keyName

def getByKeyDigest (self : CertCache) (digest : Bytes) : Option Certificate :=
  if digest.length = 32 then (self.byDigest digest).bind self.byName else none

/-- `CertCache::insert`: both indices are overwritten. -/
def insert (cr : Crypto) (self : CertCache) (cert : Certificate) : CertCache :=
  { byName := Function.update self.byName cert.name (some cert)
    byDigest := Function.update self.byDigest (cr.sha256 cert.publicKey) (some cert.name) }

variable {cr : Crypto} {self : CertCache} {cert c : Certificate}

@[simp] lemma get_new (n : Name) : new.get n = none := rfl

lemma get_insert (n : Name) :
    (self.insert cr cert).get n = if n = cert.name then some cert else self.get n := by
  simp [get, insert, Function.update_apply]

lemma get_insert_eq_some {n : Name} (h : (self.insert cr cert).get n = some c) :
    (c = cert ∧ c.name = n) ∨ self.get n = some c := by
  rw [get_insert] at h
  split_ifs at h with hn
  · obtain rfl := Option.some.inj h
    exact .inl ⟨rfl, hn.symm⟩
  · exact .inr h

end CertCache

/-! ## The certificate fetcher -/

inductive FetchReply where
  | timeout
  | noData
  | data (d : Data)

namespace CertFetcher

/-- `CertFetcher::do_fetch`: the answer is decoded and cached under the name it carries. Nothing
is verified here. -/
def doFetch (cr : Crypto) (cache : CertCache) (reply : FetchReply) (certName : Name) :
    Except TrustError Certificate × CertCache :=
  match reply with
  | .timeout => (.error (.certNotFound ("timeout fetching ".toList ++ certName.display)), cache)
  | .noData => (.error (.certNotFound certName.display), cache)
  | .data d =>
    match Certificate.decode d with
    | .error e => (.error e, cache)
    | .ok cert => (.ok cert, cache.insert cr cert)

/-- `CertFetcher::fetch` of one caller. A caller that finds a fetch of the same name in flight
gets the result of that fetch. -/
def fetch (cr : Crypto) (cache : CertCache) (reply : FetchReply) (certName : Name) :
    Except TrustError Certificate × CertCache :=
  match cache.get certName with
  | some cert => (.ok cert, cache)
  | none => doFetch cr cache reply certName

end CertFetcher

end NdnRs
