import NdnRs.Security.Certificate

/-!
# Issuing certificates (`ndn-security/src/manager.rs`)

The security manager keeps trust anchors and signers. A certificate is issued by writing a Data
packet for the subject, signing it, and decoding the result.

## Implementation notes

The certificate cache, into which an issued certificate also goes, is left out: issuing does not
read it. Arithmetic on nanoseconds wraps at 64 bits, as in a release build.
-/

namespace NdnRs

open Bytes Tlv Except Certificate TlvType Spki

namespace TlvType

def additionalDescription : ℕ := 0x0102
def descriptionEntry : ℕ := 0x0200
def descriptionKey : ℕ := 0x0201
def descriptionValue : ℕ := 0x0202

end TlvType

/-- `Signer`: the algorithm and key name it puts into packets, and signing itself. -/
structure Signer where
  sigType : SignatureType
  keyName : Name
  sign : Bytes → Except TrustError Bytes

/-- `SecurityManager`: the ambient trust anchors in iteration order, and the signers by name. -/
structure SecurityManager where
  anchors : List (Name × Certificate)
  keys : Name → Option Signer

/-! ## The wire form of a certificate -/

/-- The value of the SignatureInfo element of an issued certificate. -/
def certSignatureInfo (signer : Signer) (validFromNs validUntilNs : ℕ)
    (additionalDescription : Option Bytes) : Bytes :=
  writeTlv signatureType [UInt8.ofNat signer.sigType.code] ++
    writeTlv keyLocator signer.keyName.encodeToTlv ++
    writeTlv validityPeriod
      (writeTlv notBefore (Iso8601.formatIsoBasic validFromNs) ++
        writeTlv notAfter (Iso8601.formatIsoBasic validUntilNs)) ++
    match additionalDescription with
    | none => []
    | some desc => writeTlv TlvType.additionalDescription desc

/-- The MetaInfo value: content type KEY, one hour of freshness. -/
def certMetaInfo : Bytes :=
  writeTlv contentType (beBytes 8 2) ++ writeTlv freshnessPeriod (beBytes 8 3600000)

/-- The Content of a certificate: Ed25519 keys are wrapped, other keys are taken as they are. -/
def certContent (subjectPublicKey : Bytes) : Bytes :=
  if subjectPublicKey.length = 32 then wrapEd25519 subjectPublicKey else subjectPublicKey

/-- The elements of a certificate behind its Content, up to the signature. -/
def certSignedRegion (subjectCertName : Name) (subjectPublicKey signatureInfo : Bytes) : Bytes :=
  subjectCertName.encodeToTlv ++ (writeTlv metaInfo certMetaInfo ++
    (writeTlv TlvType.content (certContent subjectPublicKey) ++
      writeTlv TlvType.signatureInfo signatureInfo))

/-- `encode_cert_data_with_description`. A byte vector longer than `isize::MAX` cannot be
allocated; the abort is an error here. -/
def encodeCertDataWithDescription (subjectCertName : Name) (subjectPublicKey : Bytes)
    (signer : Signer) (validFromNs validUntilNs : ℕ) (additionalDescription : Option Bytes) :
    Except TrustError Bytes := do
  let region := certSignedRegion subjectCertName subjectPublicKey
    (certSignatureInfo signer validFromNs validUntilNs additionalDescription)
  let signature ← signer.sign region
  let wire := writeTlv TlvType.data (region ++ writeTlv signatureValue signature)
  Except.ensure (wire.length < 2 ^ 63) (.keyStore "capacity overflow".toList)
  return wire

/-! ## What the wire form decodes to -/

variable {key info signature : Bytes} {name : Name}

lemma Certificate.keyOfContent_certContent {content : Bytes} (h : keyOfContent content = .ok key) :
    keyOfContent (certContent key) = .ok key := by
  by_cases hlen : key.length = 32
  · rw [certContent, if_pos hlen, keyOfContent, unwrapEd25519_wrapEd25519 hlen]
  -- no envelope was opened, so the key is the content itself
  have hunw : unwrapEd25519 content = none := by
    cases hcase : unwrapEd25519 content with
    | none => rfl
    | some k =>
      rw [keyOfContent, hcase] at h
      obtain rfl := ok.inj h
      exact absurd (length_of_unwrapEd25519 hcase) hlen
  have hkey : key = content := by
    rw [keyOfContent, hunw] at h
    by_cases hne : content ≠ []
    · rw [if_pos hne] at h
      exact (ok.inj h).symm
    · simp [hne] at h
  rw [certContent, if_neg hlen, hkey]
  rw [hkey] at h
  exact h

/-- The elements of the Data packet of a certificate between the name and the signature. -/
def certBody (key info : Bytes) : List (ℕ × Bytes) :=
  [(metaInfo, certMetaInfo), (TlvType.content, certContent key), (signatureInfo, info)]

def certElements (key info signature : Bytes) : List (ℕ × Bytes) :=
  certBody key info ++ [(signatureValue, signature)]

lemma certSignedRegion_append (name : Name) (key info signature : Bytes) :
    certSignedRegion name key info ++ writeTlv TlvType.signatureValue signature =
      writeTlvs ((TlvType.name, name.encodeComponents) :: certElements key info signature) := by
  simp [certElements, certBody, certSignedRegion, Name.encodeToTlv]

lemma elementOk_certElements (hlen : (writeTlvs ((TlvType.name, name.encodeComponents) ::
      certElements key info signature)).length < 2 ^ 64) :
    ∀ e ∈ (TlvType.name, name.encodeComponents) :: certElements key info signature,
      ElementOk e := by
  refine elementOk_of_length (fun e he => ?_) hlen
  simp only [certElements, certBody, List.cons_append, List.nil_append, List.mem_cons,
    List.not_mem_nil, or_false] at he
  rcases he with rfl | rfl | rfl | rfl | rfl
  all_goals
    simp [TlvType.name, metaInfo, TlvType.content, signatureInfo, signatureValue]

/-- The Data packet of a certificate has the subject's name and the Content written. -/
lemma Data.decode_certWire {d : Data} (hname : name.WireOk)
    (hlen : (writeTlvs ((TlvType.name, name.encodeComponents) ::
      certElements key info signature)).length < 2 ^ 64)
    (h : Data.decode (writeTlv TlvType.data (writeTlvs ((TlvType.name, name.encodeComponents) ::
      certElements key info signature))) = .ok d) :
    d.name = name ∧ d.content = some (certContent key) := by
  have hok := elementOk_certElements hlen
  constructor
  · obtain ⟨value, _, nameVal, after, name', hval, hnameVal, hname', -, -, rfl⟩ :=
      Data.decode_eq_ok_iff.mp h
    rw [readTlv_writeTlv_self (by decide) hlen, ok.injEq, Prod.mk.injEq, Prod.mk.injEq] at hval
    obtain ⟨⟨-, rfl⟩, -⟩ := hval
    have hfst := (List.forall_mem_cons.1 hok).1
    rw [writeTlvs_cons, readTlv_writeTlv _ hfst.1 hfst.2, ok.injEq, Prod.mk.injEq,
      Prod.mk.injEq] at hnameVal
    obtain ⟨⟨-, rfl⟩, -⟩ := hnameVal
    rw [Name.decode_encodeComponents hname, ok.injEq] at hname'
    exact hname'.symm
  · rw [Data.content, Data.raw_of_decode h, Data.findField_writeTlvs hok hlen]
    rfl

namespace SecurityManager

variable (self : SecurityManager)

def trustAnchor (keyName : Name) : Option Certificate :=
  (self.anchors.find? fun entry => entry.1 = keyName).map Prod.snd

def trustAnchorNames : List Name := self.anchors.map Prod.fst

def getSignerSync (keyName : Name) : Except TrustError Signer :=
  match self.keys keyName with
  | some signer => .ok signer
  | none => .error (.certNotFound keyName.display)

/-- `certify_with_additional_description`, at the given time. -/
def certifyWithAdditionalDescription (nowNs : ℕ) (subjectKeyName : Name)
    (subjectPublicKey : Bytes) (issuerKeyName : Name) (validityMs : ℕ)
    (additionalDescription : Option Bytes) : Except TrustError Certificate := do
  let issuerSigner ← self.getSignerSync issuerKeyName
  let validUntil := (nowNs + validityMs * 1000000) % 2 ^ 64
  let wire ← encodeCertDataWithDescription subjectKeyName subjectPublicKey issuerSigner nowNs
    validUntil additionalDescription
  let data ← (Data.decode wire).mapError fun e =>
    .keyStore ("failed to decode issued cert: ".toList ++ e.display)
  Certificate.decode data

variable {self : SecurityManager} {nowNs validityMs : ℕ} {subject issuer : Name}
  {description : Option Bytes} {cert : Certificate}

/-- The wire form that an issued certificate was decoded from. -/
lemma exists_wire_of_certify
    (h : self.certifyWithAdditionalDescription nowNs subject key issuer validityMs description =
      .ok cert) :
    ∃ signer signature data,
      (writeTlvs ((TlvType.name, subject.encodeComponents) :: certElements key (certSignatureInfo
        signer nowNs ((nowNs + validityMs * 1000000) % 2 ^ 64) description) signature)).length <
        2 ^ 64 ∧
      Data.decode (writeTlv TlvType.data (writeTlvs ((TlvType.name, subject.encodeComponents) ::
        certElements key (certSignatureInfo signer nowNs
          ((nowNs + validityMs * 1000000) % 2 ^ 64) description) signature))) = .ok data ∧
      decode data = .ok cert := by
  obtain ⟨signer, -, h⟩ := bind_eq_ok_iff.mp h
  obtain ⟨wire, hwire, h⟩ := bind_eq_ok_iff.mp h
  obtain ⟨data, hdata, hcert⟩ := bind_eq_ok_iff.mp h
  rw [mapError_eq_ok_iff] at hdata
  obtain ⟨signature, -, hwire⟩ := bind_eq_ok_iff.mp hwire
  obtain ⟨_, hlen, hwire⟩ := bind_eq_ok_iff.mp hwire
  rw [ensure_eq_ok_iff] at hlen
  obtain rfl := ok.inj hwire
  rw [certSignedRegion_append] at hlen hdata
  have hle := length_le_length_writeTlv TlvType.data (writeTlvs
    ((TlvType.name, subject.encodeComponents) :: certElements key (certSignatureInfo signer nowNs
      ((nowNs + validityMs * 1000000) % 2 ^ 64) description) signature))
  exact ⟨signer, signature, data, by omega, hdata, hcert⟩

/-- **An issued certificate binds what it was issued for.** The subject's name and the key survive
the round trip through the wire form; the key has to be one that certificates carry. -/
theorem certify_binds {content : Bytes}
    (hname : subject.WireOk) (hkey : keyOfContent content = .ok key)
    (h : self.certifyWithAdditionalDescription nowNs subject key issuer validityMs description =
      .ok cert) :
    cert.name = subject ∧ cert.publicKey = key := by
  obtain ⟨signer, signature, data, hlen, hdata, hcert⟩ := exists_wire_of_certify h
  obtain ⟨hdnam, hdcon⟩ := Data.decode_certWire hname hlen hdata
  obtain ⟨content', key', hctn', hkey', rfl⟩ := decode_eq_ok_iff.mp hcert
  rw [hdcon, Option.some.injEq] at hctn'
  subst hctn'
  rw [keyOfContent_certContent hkey, ok.injEq] at hkey'
  exact ⟨hdnam, hkey'.symm⟩

end SecurityManager

end NdnRs
