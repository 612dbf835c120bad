import NdnRs.Packet.Interest
import NdnRs.Security.TrustContext

/-!
# Single-hop validation (`ndn-security/src/validator/mod.rs`)

## Main definitions

* `validate`, `validateInterest` — a packet is checked against the certificate that is cached for
  its key locator.

## Implementation notes

The clock is a parameter, read once per call. The counters of verified and rejected packets have no
influence on any decision and are left out.
-/

namespace NdnRs

/-- The trust path used to validate a packet. -/
inductive TrustPath where
  | certChain (names : List Name)
  | localFace (uid : ℕ)
  | digestSha256
  deriving DecidableEq

/-- A Data packet whose signature has been verified. -/
structure SafeData where
  inner : Data
  trustPath : TrustPath
  verifiedAt : ℕ
  deriving DecidableEq

inductive ValidationResult where
  | valid (safe : SafeData)
  | invalid (e : TrustError)
  | pending
  deriving DecidableEq

inductive InterestValidationOutcome where
  | valid
  | invalid (e : TrustError)
  | pending
  deriving DecidableEq

/-- A decision before it is wrapped for Data or Interest. -/
inductive Verdict where
  | valid (path : TrustPath)
  | invalid (e : TrustError)
  | pending
  deriving DecidableEq

/-- What one signature check looks at. -/
structure Signed where
  region : Bytes
  sigValue : Bytes
  sigType : SignatureType
  deriving DecidableEq

/-- `Validator`; `hasFetcher` says whether a `CertFetcher` is configured. -/
structure Validator where
  keyring : Keyring
  certCache : CertCache
  maxChain : ℕ
  hasFetcher : Bool

/-- `verify_by_sig_type` on a signed thing and a key. -/
def Crypto.verify (cr : Crypto) (s : Signed) (publicKey : Bytes) :
    Except TrustError VerifyOutcome :=
  cr.verifyBySigType s.sigType s.region s.sigValue publicKey

/-- The signature verifies with the key under the algorithm declared for it. -/
def Signed.VerifiesWith (cr : Crypto) (s : Signed) (publicKey : Bytes) : Prop :=
  cr.verify s publicKey = .ok .valid

instance (cr : Crypto) (s : Signed) (publicKey : Bytes) : Decidable (s.VerifiesWith cr publicKey) :=
  inferInstanceAs (Decidable (_ = _))

variable {s : Signed} {verdict : Verdict}

/-- The verdict on the outcome of the last signature check. -/
def Verdict.ofOutcome (path : TrustPath) : Except TrustError VerifyOutcome → Verdict
  | .ok .valid => .valid path
  | .ok .invalid => .invalid .invalidSignature
  | .error e => .invalid e

@[simp] lemma Verdict.ofOutcome_eq_valid_iff {path path' : TrustPath}
    {out : Except TrustError VerifyOutcome} :
    Verdict.ofOutcome path out = .valid path' ↔ out = .ok .valid ∧ path' = path := by
  unfold Verdict.ofOutcome
  split <;> simp_all [eq_comm]

/-- A verdict on a Data packet: the packet handed out is decoded again from its wire. -/
def Verdict.toResult (now : ℕ) (data : Data) : Verdict → ValidationResult
  | .valid path =>
    match Data.decode data.raw with
    | .error _ => .invalid .invalidSignature
    | .ok inner => .valid ⟨inner, path, now⟩
  | .invalid e => .invalid e
  | .pending => .pending

/-- A verdict on a signed Interest. -/
def Verdict.toOutcome : Verdict → InterestValidationOutcome
  | .valid _ => .valid
  | .invalid e => .invalid e
  | .pending => .pending

lemma Verdict.toResult_eq_valid_iff {now : ℕ} {data : Data} {safe : SafeData} :
    verdict.toResult now data = .valid safe ↔
      verdict = .valid safe.trustPath ∧ Data.decode data.raw = .ok safe.inner ∧
        safe.verifiedAt = now := by
  cases verdict with
  | valid path =>
    cases hdec : Data.decode data.raw with
    | error e => simp [Verdict.toResult, hdec]
    | ok inner =>
      obtain ⟨inner', path', at'⟩ := safe
      simp only [Verdict.toResult, hdec, ValidationResult.valid.injEq, SafeData.mk.injEq,
        Verdict.valid.injEq, Except.ok.injEq]
      constructor
      all_goals
        rintro ⟨rfl, rfl, rfl⟩
        exact ⟨rfl, rfl, rfl⟩
  | invalid e => simp [Verdict.toResult]
  | pending => simp [Verdict.toResult]

lemma Verdict.toOutcome_eq_valid_iff :
    verdict.toOutcome = .valid ↔ ∃ path, verdict = .valid path := by
  cases verdict <;> simp [Verdict.toOutcome]

/-- What is signed in a Data packet, under the algorithm its SignatureInfo declares. -/
def Data.signed (data : Data) (info : SignatureInfo) : Signed :=
  ⟨data.signedRegion, data.sigValue, info.sigType⟩

/-- What is signed in an Interest; `none` unless it carries all of SignatureInfo, signed region and
SignatureValue. -/
def Interest.signed? (interest : Interest) : Option (SignatureInfo × Signed) := do
  let info ← interest.sigInfo
  let region ← interest.signedRegion
  let sigValue ← interest.sigValue
  return (info, ⟨region, sigValue, info.sigType⟩)

lemma Interest.signed?_eq_some {interest : Interest} {info : SignatureInfo}
    (h : interest.signed? = some (info, s)) :
    interest.sigInfo = some info ∧ s.sigType = info.sigType := by
  simp only [Interest.signed?, Option.bind_eq_bind, Option.bind_eq_some_iff, Option.pure_def,
    Option.some.injEq, Prod.mk.injEq] at h
  obtain ⟨info', hinfo, region, -, sigValue, -, rfl, rfl⟩ := h
  exact ⟨hinfo, rfl⟩

namespace Validator

def new (schema : TrustSchema) : Validator :=
  ⟨.withAmbient (.ambient schema), .new, 5, false⟩

/-- The key name that a key locator stands for; a digest is looked up in the cache. -/
def locatorKey (v : Validator) (onMiss : Verdict) : Option KeyLocator → Except Verdict Name
  | some (.name n) => .ok n
  | some (.keyDigest digest) =>
    match v.certCache.getByKeyDigest digest with
    | some cert => .ok cert.name
    | none => .error onMiss
  | none => .error (.invalid .invalidSignature)

def expiredMessage (keyName : Name) : Str :=
  "expired or not-yet-valid: ".toList ++ keyName.display

/-- The common part of `validate_inner` and `validate_interest`. -/
def singleHop (cr : Crypto) (v : Validator) (now : ℕ) (name : Name) (info : SignatureInfo)
    (s : Signed) : Verdict :=
  -- DigestSha256 carries no key locator: an integrity check only
  if info.sigType = .digestSha256 then .ofOutcome .digestSha256 (cr.verify s [])
  else
    match v.locatorKey .pending info.keyLocator with
    | .error verdict => verdict
    | .ok keyName =>
      if (v.keyring.contextFor name).authorizes name keyName = false then
        .invalid .schemaMismatch
      else
        match v.certCache.get keyName with
        | none => .pending
        | some cert =>
          if cert.isValidAt now = false then .invalid (.certNotFound (expiredMessage keyName))
          else .ofOutcome (.certChain [keyName]) (cr.verify s cert.publicKey)

def validate (cr : Crypto) (v : Validator) (now : ℕ) (data : Data) : ValidationResult :=
  match data.sigInfo with
  | none => .invalid .invalidSignature
  | some info => (singleHop cr v now data.name info (data.signed info)).toResult now data

def validateInterest (cr : Crypto) (v : Validator) (now : ℕ) (interest : Interest) :
    InterestValidationOutcome :=
  match interest.signed? with
  | none => .invalid .invalidSignature
  | some (info, s) => (singleHop cr v now interest.name info s).toOutcome

def addTrustAnchor (cr : Crypto) (v : Validator) (now : ℕ) (cert : Certificate) : Validator :=
  if cert.isValidAt now then
    { v with
      certCache := v.certCache.insert cr cert
      keyring := v.keyring.addAmbientAnchor now cert }
  else v

section AddTrustAnchor

variable {cr : Crypto} {v : Validator} {now : ℕ} {cert found : Certificate} {name : Name}

lemma anchors_addTrustAnchor
    (h : (v.addTrustAnchor cr now cert).keyring.ambient.anchors name = some found) :
    found = cert ∨ v.keyring.ambient.anchors name = some found := by
  rw [addTrustAnchor] at h
  split at h
  · exact SignedTrustContext.anchors_addAnchor h
  · exact .inr h

lemma get_addTrustAnchor (h : (v.addTrustAnchor cr now cert).certCache.get name = some found) :
    found = cert ∨ v.certCache.get name = some found := by
  rw [addTrustAnchor] at h
  split at h
  · exact (CertCache.get_insert_eq_some h).imp_left And.left
  · exact .inr h

end AddTrustAnchor

def adoptContext (v : Validator) (ctx : SignedTrustContext) : Validator :=
  { v with keyring := v.keyring.adopt ctx }

/-- `Validator::set_schema`: replaces the ambient schema. -/
def setSchema (v : Validator) (schema : TrustSchema) : Validator :=
  { v with keyring := { v.keyring with ambient := { v.keyring.ambient with schema := schema } } }

/-! ## When a packet is accepted -/

/-- The signer that a single-hop acceptance rests on: the key that the locator names is authorized
for the packet's name, and a certificate valid now is cached for it. -/
def Signer (v : Validator) (now : ℕ) (name : Name) (info : SignatureInfo) (keyName : Name)
    (cert : Certificate) : Prop :=
  v.locatorKey .pending info.keyLocator = .ok keyName ∧
    (v.keyring.contextFor name).authorizes name keyName = true ∧
    v.certCache.get keyName = some cert ∧ cert.isValidAt now = true

variable {cr : Crypto} {v : Validator} {now : ℕ}

lemma locatorKey_eq_error {onMiss verdict : Verdict} {locator : Option KeyLocator}
    (h : v.locatorKey onMiss locator = .error verdict) :
    verdict = onMiss ∨ verdict = .invalid .invalidSignature := by
  unfold locatorKey at h
  split at h
  · cases h
  · split at h
    · cases h
    · exact .inl (Except.error.inj h).symm
  · exact .inr (Except.error.inj h).symm

variable {info : SignatureInfo}

lemma singleHop_eq_valid_iff {name : Name} {path : TrustPath}
    (hdig : info.sigType ≠ .digestSha256) :
    singleHop cr v now name info s = .valid path ↔
      ∃ keyName cert, v.Signer now name info keyName cert ∧ s.VerifiesWith cr cert.publicKey ∧
        path = .certChain [keyName] := by
  unfold singleHop Signer
  rw [if_neg hdig]
  cases hkey : v.locatorKey .pending info.keyLocator with
  | error verdict =>
    have hver : verdict ≠ .valid path := by
      rcases locatorKey_eq_error hkey with rfl | rfl <;> simp
    simp [hver]
  | ok keyName =>
    cases hauth : (v.keyring.contextFor name).authorizes name keyName with
    | false => simp [hauth]
    | true =>
      cases hcert : v.certCache.get keyName with
      | none => simp [hauth, hcert]
      | some cert =>
        cases hvld : cert.isValidAt now with
        | false => simp [hauth, hcert, hvld]
        | true => simp [hauth, hcert, hvld, Signed.VerifiesWith]

/-- **Acceptance by `validate`.** -/
theorem validate_eq_valid_iff {data : Data} {safe : SafeData}
    (hinfo : data.sigInfo = some info) (hdig : info.sigType ≠ .digestSha256) :
    validate cr v now data = .valid safe ↔
      (∃ keyName cert, v.Signer now data.name info keyName cert ∧
        (data.signed info).VerifiesWith cr cert.publicKey ∧
        safe.trustPath = .certChain [keyName]) ∧
      Data.decode data.raw = .ok safe.inner ∧ safe.verifiedAt = now := by
  rw [validate, hinfo]
  simp only [Verdict.toResult_eq_valid_iff, singleHop_eq_valid_iff hdig]

/-- **Acceptance by `validate_interest`.** -/
theorem validateInterest_eq_valid_iff {interest : Interest}
    (hsig : interest.signed? = some (info, s)) (hdig : info.sigType ≠ .digestSha256) :
    validateInterest cr v now interest = .valid ↔
      ∃ keyName cert, v.Signer now interest.name info keyName cert ∧
        s.VerifiesWith cr cert.publicKey := by
  rw [validateInterest, hsig]
  simp only [Verdict.toOutcome_eq_valid_iff, singleHop_eq_valid_iff hdig]
  constructor
  · rintro ⟨-, keyName, cert, hsgr, hver, -⟩
    exact ⟨keyName, cert, hsgr, hver⟩
  · rintro ⟨keyName, cert, hsgr, hver⟩
    exact ⟨_, keyName, cert, hsgr, hver, rfl⟩

end Validator

end NdnRs
