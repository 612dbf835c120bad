import NdnRs.Cert.Envelope
import NdnRs.Cert.Policy
import NdnRs.Security.Manager

/-!
# The certificate authority (`ndn-cert/src/ca.rs`)

## Main definitions

* `handleNew` — a requester sends NEW with a certificate request and gets a session.
* `handleChallenge` — it then answers the session's challenge in CHALLENGE messages until the
  authority issues a certificate or gives up.

## Implementation notes

Randomness and clock readings are arguments. The tables are maps by text and are only looked up,
so they are functions. `handle_challenge` waits for the challenge's `begin` and `verify`; those are
the points where it is cut into parts. A key agreement or encryption failure in the crypto crates
is an error result of `SessionCrypto`.
-/

namespace NdnRs

open Bytes Tlv Except TlvType Function CertTlv

/-- What the authority uses of other crates: the signature primitives, the session ciphers, and
the JSON serializer. -/
structure CaCrates where
  crypto : Crypto
  session : SessionCrypto
  /-- `serde_json::to_vec` of an attestation set. -/
  attestationJson : AttestationSet → Option Bytes

/-- `CaConfig`; durations in nanoseconds. The `info` text is only printed. -/
structure CaConfig (σ : Type) where
  caPrefix : Name
  defaultValidity : ℕ
  maxValidity : ℕ
  challenges : List (ChallengeHandler σ)
  policy : NamespacePolicy
  issuance : IssuancePolicy
  emitAttestations : Bool

structure PendingRequest where
  certRequest : CertRequest
  challengeState : Option ChallengeState
  challengeType : Option Str
  createdAt : ℕ
  sessionKey : Bytes
  requestIdBytes : Bytes
  encryptionIv : Bytes
  decryptionIv : Option Bytes

/-- `CaState`, without its configuration. -/
structure CaState where
  manager : SecurityManager
  pending : Str → Option PendingRequest
  revoked : Str → Bool
  servedCerts : Str → Option Bytes

/-- `Duration::as_millis`, cut to 64 bits. -/
def asMillisU64 (duration : ℕ) : ℕ := duration / 1000000 % 2 ^ 64

def bytesToHex (bytes : Bytes) : Str := bytes.flatMap (Str.hexByte false)

def serializeCert (cert : Certificate) : Bytes :=
  match cert.signedRegion, cert.sigValue with
  | some signedRegion, some sigValue =>
    writeTlv data (signedRegion ++ writeTlv signatureValue sigValue)
  | _, _ => []

def attestationDescriptionKey : Str := "ndn.challenge-attestations".toList

def encodeAdditionalDescription (crates : CaCrates) (set : AttestationSet) : Option Bytes :=
  (crates.attestationJson set).map fun json =>
    writeTlv descriptionEntry
      (writeTlv descriptionKey attestationDescriptionKey.bytes ++ writeTlv descriptionValue json)

/-! ## NEW -/

/-- What a call of `handle_new` draws and reads: the clock at both readings, the key pair, the
salt, the request id and the IV's random half. -/
structure NewInputs where
  nowSecs : ℕ
  createdAt : ℕ
  secret : Bytes
  salt : Bytes
  requestId : Bytes
  ivRandom : Bytes

structure Session where
  data : Data
  cert : Certificate
  deriving DecidableEq

/-- The key name that is requested: the certificate name without issuer and version. -/
def requestedKeyName (certName : Name) : Name :=
  if 2 ≤ certName.length then certName.take (certName.length - 2) else certName

/-- The `CertRequest` that NEW stores. -/
def Session.request (self : Session) : CertRequest :=
  { name := (requestedKeyName self.cert.name).display
    publicKey := Base64.encode self.cert.publicKey
    notBefore := self.cert.validFrom / 1000000
    notAfter := self.cert.validUntil / 1000000 }

/-- The certificate in the body of NEW. -/
def readCertRequest (newReq : NewRequestTlv) : Except CertError Session := do
  let certData ← (Data.decode newReq.certRequest).mapError fun _ => .invalidRequest
    "cert_request is not a valid NDN Data packet (expected self-signed Certificate)".toList
  let clientCert ← (Certificate.decode certData).mapError fun _ =>
    .invalidRequest "cert_request does not decode as NDN Certificate".toList
  return ⟨certData, clientCert⟩

/-- The verdict of a namespace policy as a result. -/
def PolicyDecision.toResult : PolicyDecision → Except CertError Unit
  | .allow => .ok ()
  | .deny reason => .error (.policyDenied reason)

section

variable {σ : Type} (crates : CaCrates) (cfg : CaConfig σ)

def CaConfig.challengeTypes : List Str := cfg.challenges.map ChallengeHandler.challengeType

/-- `handle_new` up to the table: the certificate request, the session's entry, and the answer. -/
def openSession (inputs : NewInputs) (body : Bytes) :
    Except CertError (Session × PendingRequest × Bytes) := do
  let newReq ← NewRequestTlv.decode body
  let session ← readCertRequest newReq
  -- the requester is not known yet: the policy decides without a certificate
  (cfg.policy.evaluate (requestedKeyName session.cert.name) none cfg.caPrefix).toResult
  ensure (cfg.challenges.isEmpty = false) (.invalidRequest "CA has no challenge handlers".toList)
  let sessionKey ← crates.session.deriveSessionKey inputs.secret newReq.ecdhPub inputs.salt
    inputs.requestId
  return (session,
    { certRequest := session.request
      challengeState := none
      challengeType := none
      createdAt := inputs.createdAt
      sessionKey := sessionKey
      requestIdBytes := inputs.requestId
      encryptionIv := inputs.ivRandom ++ [0, 0, 0, 0]
      decryptionIv := none },
    encodeNewResponse (crates.session.publicKeyBytes inputs.secret) inputs.salt inputs.requestId
      cfg.challengeTypes)

namespace CaState

variable (self : CaState)

def cleanupExpired (nowSecs ttlSecs : ℕ) : CaState :=
  { self with
    pending := fun id =>
      (self.pending id).filter fun entry => entry.createdAt ≥ nowSecs - ttlSecs }

def handleNew (inputs : NewInputs) (body : Bytes) : Except CertError Bytes × CaState :=
  let self := self.cleanupExpired inputs.nowSecs 60
  match openSession crates cfg inputs body with
  | .error e => (.error e, self)
  | .ok (_, entry, response) =>
    (.ok response,
      { self with
        pending := update self.pending (bytesToHex inputs.requestId) (some entry) })

/-- Changes the entry of a session, when there. -/
def modifyPending (id : Str) (f : PendingRequest → PendingRequest) : CaState :=
  { self with pending := update self.pending id ((self.pending id).map f) }

def removePending (id : Str) : CaState :=
  { self with pending := update self.pending id none }

end CaState

/-! ## CHALLENGE -/

/-- The variables of `handle_challenge` once the message is open: the session's entry as it was
read, the IV of the envelope, and the handler that will run. -/
structure OpenedChallenge (σ : Type) where
  requestId : Str
  entry : PendingRequest
  decryptionIv : Bytes
  challengeType : Str
  parameters : Json.Fields
  handler : ChallengeHandler σ

/-- A session stays with the challenge that it began. -/
def checkLocked (lockedType : Option Str) (challengeType : Str) : Except CertError Unit :=
  match lockedType with
  | none => .ok ()
  | some locked =>
    ensure (locked = challengeType)
      (.invalidRequest ("challenge type locked to '".toList ++ locked ++
        "' for this request".toList))

/-- The handler of a challenge type: the first one offered. -/
def CaConfig.findHandler (challengeType : Str) : Except CertError (ChallengeHandler σ) :=
  match cfg.challenges.find? fun h => h.challengeType = challengeType with
  | some handler => .ok handler
  | none => .error (.invalidRequest ("unsupported challenge type: ".toList ++ challengeType))

structure IssueClock where
  stampSecs : ℕ
  nowNs : ℕ

namespace CaState

variable (self : CaState) (c : OpenedChallenge σ)

/-- `handle_challenge` up to the handler. -/
def openChallenge (requestId : Str) (body : Bytes) : Except CertError (OpenedChallenge σ) :=
  match self.pending requestId with
  | none => .error (.requestNotFound requestId)
  | some entry => do
    let (plaintext, iv) ← crates.session.openEnvelope entry.sessionKey body entry.requestIdBytes
    let (challengeType, parameters) ← decodeChallengePlaintext plaintext
    checkLocked entry.challengeType challengeType
    let handler ← cfg.findHandler challengeType
    return ⟨requestId, entry, iv, challengeType, parameters, handler⟩

/-- The call of `begin`, for a session without a state; the state it returns is kept. -/
def beginChallenge (w : σ) : Except CertError ChallengeState × CaState × σ :=
  match c.entry.challengeState with
  | some state => (.ok state, self, w)
  | none =>
    match c.handler.begin c.entry.certRequest w with
    | (.error e, w) => (.error e, self, w)
    | (.ok state, w) =>
      (.ok state, self.modifyPending c.requestId fun entry =>
        { entry with challengeState := some state, challengeType := some c.challengeType }, w)

/-- The validity that `issue_certificate_with_validity` asks for, in milliseconds. -/
def validityMs (req : CertRequest) (policyValidity : ℕ) : ℕ :=
  let policyMs := min (asMillisU64 policyValidity) (asMillisU64 cfg.maxValidity)
  let requestedMs := req.notAfter - req.notBefore
  if requestedMs > 0 then min requestedMs policyMs else policyMs

def issueCertificateWithValidity (nowNs : ℕ) (req : CertRequest) (policyValidity : ℕ)
    (additionalDescription : Option Bytes) : Except CertError Certificate := do
  let subjectName ← (Name.fromStr req.name).mapError fun _ => .name req.name
  let publicKey ← require (Base64.decode req.publicKey) "invalid public key base64"
  ensure (self.revoked req.name = false)
    (.policyDenied ("certificate ".toList ++ req.name ++ " has been revoked".toList))
  let caKeyName ← require self.manager.trustAnchorNames.head?
    "CA has no signing key configured"
  (self.manager.certifyWithAdditionalDescription nowNs subjectName publicKey caKeyName
    (validityMs cfg req policyValidity) additionalDescription).mapError .security

/-- The decision on a session whose challenge is satisfied: a certificate, or the reason of the
issuance policy. -/
def issue (entry : PendingRequest) (challengeType : Str) (attestation : Option AttestationSet)
    (clock : IssueClock) : Except CertError (Except Str Certificate) :=
  let attestationSet :=
    (attestation.getD (.single (.ofKind challengeType))).stamp clock.stampSecs
  match cfg.issuance.decide ⟨entry.certRequest, challengeType, some attestationSet, cfg.caPrefix,
    cfg.defaultValidity, cfg.maxValidity⟩ with
  | .deny reason => .ok (.error reason)
  | .issue validity =>
    let attestationAd :=
      if cfg.emitAttestations then encodeAdditionalDescription crates attestationSet else none
    match issueCertificateWithValidity cfg self clock.nowNs entry.certRequest validity
      attestationAd with
    | .error e => .error e
    | .ok cert => .ok (.ok cert)

/-- The answer in an envelope for the session, and the advanced IV. -/
def sealResponse (entry : PendingRequest) (encIv : Bytes) (response : ChallengeResponseTlv) :
    Except CertError (Bytes × Bytes) :=
  crates.session.sealEnvelope entry.sessionKey response.encode entry.requestIdBytes encIv

/-- `handle_challenge` behind the handler: the tables and the answer. The answer is sealed with the
session key that was read at the start. -/
def concludeChallenge (outcome : ChallengeOutcome)
    (clock : IssueClock) : Except CertError Bytes × CaState :=
  match outcome with
  | .denied reason =>
    ((sealResponse crates c.entry c.entry.encryptionIv (.failure reason)).map Prod.fst,
      self.removePending c.requestId)
  | .pending message tries time nextState =>
    let self := self.modifyPending c.requestId fun entry =>
      { entry with challengeState := some nextState, decryptionIv := some c.decryptionIv }
    match sealResponse crates c.entry c.entry.encryptionIv (.pending message tries time) with
    | .error e => (.error e, self)
    | .ok (envelope, encIv) =>
      (.ok envelope,
        self.modifyPending c.requestId fun entry => { entry with encryptionIv := encIv })
  | .approved attestation =>
    match self.pending c.requestId with
    | none => (.error (.requestNotFound c.requestId), self)
    | some entry =>
      let self := self.removePending c.requestId
      match issue crates cfg self entry c.challengeType attestation clock with
      | .error e => (.error e, self)
      | .ok (.error reason) =>
        ((sealResponse crates c.entry entry.encryptionIv (.failure reason)).map Prod.fst, self)
      | .ok (.ok cert) =>
        ((sealResponse crates c.entry entry.encryptionIv (.success cert.name.display)).map Prod.fst,
          { self with
            servedCerts := update self.servedCerts cert.name.display (some (serializeCert cert)) })

/-- The certificate that `concludeChallenge` issues, if it does. -/
def issuedCert (outcome : ChallengeOutcome) (clock : IssueClock) : Option Certificate :=
  match outcome with
  | .approved attestation =>
    (self.pending c.requestId).bind fun entry =>
      match issue crates cfg (self.removePending c.requestId) entry c.challengeType attestation
        clock with
      | .ok (.ok cert) => some cert
      | _ => none
  | _ => none

/-- `handle_challenge`, when nothing runs in between. -/
def handleChallenge (requestId : Str) (body : Bytes) (clock : IssueClock)
    (w : σ) : Except CertError Bytes × CaState × σ :=
  match openChallenge crates cfg self requestId body with
  | .error e => (.error e, self, w)
  | .ok c =>
    match self.beginChallenge c w with
    | (.error e, self, w) => (.error e, self, w)
    | (.ok state, self, w) =>
      match c.handler.verify state c.parameters w with
      | (.error e, w) => (.error e, self, w)
      | (.ok outcome, w) =>
        let (answer, self) := concludeChallenge crates cfg self c outcome clock
        (answer, self, w)

/-! ## REVOKE -/

/-- `do_revoke`: the request must name a trust anchor and be signed with its key. -/
def handleRevoke (body : Bytes) : ℕ × CaState :=
  match decodeRevokeRequest body with
  | .error _ => (2, self)
  | .ok (certName, signature) =>
    match Name.fromStr certName with
    | .error _ => (1, self)
    | .ok certNameParsed =>
      match self.manager.trustAnchor certNameParsed with
      | none => (1, self)
      | some anchor =>
        match crates.crypto.ed25519Verifier certName.bytes signature anchor.publicKey with
        | .ok .valid => (0, { self with revoked := update self.revoked certName true })
        | _ => (2, self)

end CaState

/-! ## What NEW has checked -/

/-- The certificate request of a session: it was read from a Data packet, and the namespace policy
allows its key name without a requester certificate. -/
structure Session.Accepted (session : Session) : Prop where
  decoded : ∃ wire, Data.decode wire = .ok session.data
  certificate : Certificate.decode session.data = .ok session.cert
  allowed : cfg.policy.evaluate (requestedKeyName session.cert.name) none cfg.caPrefix = .allow

variable {crates cfg} {session : Session}

lemma readCertRequest_eq_ok_iff {newReq : NewRequestTlv} :
    readCertRequest newReq = .ok session ↔
      Data.decode newReq.certRequest = .ok session.data ∧
        Certificate.decode session.data = .ok session.cert := by
  unfold readCertRequest
  constructor
  · intro h
    obtain ⟨data', hdata, h⟩ := Except.bind_eq_ok_iff.mp h
    obtain ⟨cert', hcert, h⟩ := Except.bind_eq_ok_iff.mp h
    rw [Except.mapError_eq_ok_iff] at hdata hcert
    obtain ⟨rfl, rfl⟩ := h
    exact ⟨hdata, hcert⟩
  · rintro ⟨hdata, hcert⟩
    simp only [hdata, hcert, Except.mapError, Except.ok_bind, Except.pure_eq_ok]

/-- **A session that NEW opens.** Its certificate request comes from the body, was accepted, and is
what the session's entry stores. -/
lemma openSession_eq_ok {inputs : NewInputs} {body response : Bytes} {entry : PendingRequest}
    (h : openSession crates cfg inputs body = .ok (session, entry, response)) :
    (∃ newReq, NewRequestTlv.decode body = .ok newReq ∧ readCertRequest newReq = .ok session) ∧
      session.Accepted cfg ∧ entry.certRequest = session.request := by
  obtain ⟨newReq, hnew, h⟩ := bind_eq_ok_iff.mp h
  obtain ⟨session', hses, h⟩ := bind_eq_ok_iff.mp h
  obtain ⟨_, hpol, h⟩ := bind_eq_ok_iff.mp h
  obtain ⟨_, -, h⟩ := bind_eq_ok_iff.mp h
  obtain ⟨sessionKey, -, h⟩ := bind_eq_ok_iff.mp h
  simp only [pure_eq_ok, ok.injEq, Prod.mk.injEq] at h
  obtain ⟨rfl, rfl, -⟩ := h
  obtain ⟨hdata, hcert⟩ := readCertRequest_eq_ok_iff.mp hses
  refine ⟨⟨newReq, hnew, hses⟩, ⟨⟨_, hdata⟩, hcert, ?_⟩, rfl⟩
  rcases hdec : cfg.policy.evaluate (requestedKeyName session'.cert.name) none cfg.caPrefix
    with _ | reason
  · rfl
  · rw [hdec] at hpol
    cases hpol

/-! ## What an issued certificate binds -/

lemma CertTlv.require_eq_ok_iff {α : Type} {found : Option α} {message : String} {a : α} :
    require found message = .ok a ↔ found = some a := by
  cases found with
  | none => simp [require]
  | some b => simp [require]

namespace CaState

variable {cert : Certificate} (self : CaState) {c : OpenedChallenge σ} {clock : IssueClock}

/-- A certificate for a stored request carries the key name and the key of the certificate in
NEW: the textual forms in between lose nothing. -/
lemma issueCertificate_binds {self : CaState} {nowNs validity : ℕ} {session : Session}
    {description : Option Bytes} (hses : session.Accepted cfg)
    (h : issueCertificateWithValidity cfg self nowNs session.request validity description =
      .ok cert) :
    cert.name = requestedKeyName session.cert.name ∧ cert.publicKey = session.cert.publicKey := by
  obtain ⟨subject, hsub, h⟩ := bind_eq_ok_iff.mp h
  obtain ⟨publicKey, hkey, h⟩ := bind_eq_ok_iff.mp h
  obtain ⟨_, -, h⟩ := bind_eq_ok_iff.mp h
  obtain ⟨caKeyName, -, h⟩ := bind_eq_ok_iff.mp h
  rw [mapError_eq_ok_iff] at hsub h
  have hsub' : subject = requestedKeyName session.cert.name := by
    rw [Session.request, Name.fromStr_display, ok.injEq] at hsub
    exact hsub.symm
  have hkey' : publicKey = session.cert.publicKey := by
    rw [require_eq_ok_iff, Session.request, Base64.decode_encode, Option.some.injEq] at hkey
    exact hkey.symm
  obtain ⟨content, key, -, hctn, hcert⟩ := Certificate.decode_eq_ok_iff.mp hses.certificate
  have hcertKey : session.cert.publicKey = key := by rw [hcert]; rfl
  have hwire : (requestedKeyName session.cert.name).WireOk := by
    obtain ⟨wire, hdec⟩ := hses.decoded
    obtain ⟨_, _, nameVal, _, name, -, -, hname, -, -, hdata⟩ := Data.decode_eq_ok_iff.mp hdec
    have hcertName : session.cert.name = name := by rw [hcert, hdata]; rfl
    intro comp hcomp
    refine (Name.decode_eq_ok_iff.mp hname).1 comp ?_
    rw [← hcertName]
    unfold requestedKeyName at hcomp
    split_ifs at hcomp
    · exact List.mem_of_mem_take hcomp
    · exact hcomp
  subst hsub' hkey'
  exact SecurityManager.certify_binds hwire (hctn.trans (by rw [hcertKey])) h

/-- **An issued certificate binds what its session was opened for.** -/
lemma issue_binds {self : CaState} {entry : PendingRequest} {challengeType : Str}
    {attestation : Option AttestationSet} {session : Session}
    (hses : session.Accepted cfg) (hent : entry.certRequest = session.request)
    (h : issue crates cfg self entry challengeType attestation clock = .ok (.ok cert)) :
    cert.name = requestedKeyName session.cert.name ∧ cert.publicKey = session.cert.publicKey := by
  unfold issue at h
  simp only at h
  split at h
  · cases h
  split at h
  · cases h
  · next hiss =>
    simp only [ok.injEq] at h
    subst h
    rw [hent] at hiss
    exact issueCertificate_binds hses hiss

lemma issuedCert_eq_some {self : CaState} {outcome : ChallengeOutcome}
    (h : issuedCert crates cfg self c outcome clock = some cert) :
    ∃ attestation entry, outcome = .approved attestation ∧
      self.pending c.requestId = some entry ∧
      issue crates cfg (self.removePending c.requestId) entry c.challengeType attestation clock =
        .ok (.ok cert) := by
  cases outcome with
  | pending message tries time nextState => cases h
  | denied reason => cases h
  | approved attestation =>
    obtain ⟨entry, hent, h⟩ := Option.bind_eq_some_iff.mp h
    refine ⟨attestation, entry, rfl, hent, ?_⟩
    split at h
    · next hiss =>
      rw [Option.some.injEq] at h
      rw [hiss, h]
    · cases h

lemma openChallenge_eq_ok {self : CaState} {requestId : Str} {body : Bytes}
    (h : openChallenge crates cfg self requestId body = .ok c) :
    c.requestId = requestId ∧ c.handler ∈ cfg.challenges := by
  unfold openChallenge at h
  split at h
  · cases h
  obtain ⟨⟨plaintext, iv⟩, -, h⟩ := bind_eq_ok_iff.mp h
  obtain ⟨⟨challengeType, parameters⟩, -, h⟩ := bind_eq_ok_iff.mp h
  obtain ⟨_, -, h⟩ := bind_eq_ok_iff.mp h
  obtain ⟨handler, hfind, h⟩ := bind_eq_ok_iff.mp h
  simp only [pure_eq_ok, ok.injEq] at h
  subst h
  unfold CaConfig.findHandler at hfind
  split at hfind
  · next found hfnd =>
    rw [ok.injEq] at hfind
    subst hfind
    exact ⟨rfl, List.mem_of_find?_eq_some hfnd⟩
  · cases hfind

/-! ## Requests of sessions stay -/

/-- Every session of the later state was there before, with the same certificate request. -/
def Keeps (self self' : CaState) : Prop :=
  ∀ id entry', self'.pending id = some entry' →
    ∃ entry, self.pending id = some entry ∧ entry'.certRequest = entry.certRequest

lemma Keeps.refl : self.Keeps self := fun _ entry h => ⟨entry, h, rfl⟩

lemma Keeps.trans {a b c : CaState} (h : a.Keeps b) (h' : b.Keeps c) : a.Keeps c := by
  intro id entry hent
  obtain ⟨mid, hmid, hreq⟩ := h' id entry hent
  obtain ⟨first, hfst, hreq'⟩ := h id mid hmid
  exact ⟨first, hfst, hreq.trans hreq'⟩

lemma keeps_cleanupExpired (nowSecs ttlSecs : ℕ) :
    self.Keeps (self.cleanupExpired nowSecs ttlSecs) := by
  intro id entry h
  exact ⟨entry, (Option.filter_eq_some_iff.mp h).1, rfl⟩

lemma keeps_removePending (id : Str) : self.Keeps (self.removePending id) := by
  intro id' entry h
  by_cases hid : id' = id
  · subst hid
    simp [removePending] at h
  · exact ⟨entry, by simpa [removePending, hid] using h, rfl⟩

lemma keeps_modifyPending (id : Str) {f : PendingRequest → PendingRequest}
    (hf : ∀ entry, (f entry).certRequest = entry.certRequest) :
    self.Keeps (self.modifyPending id f) := by
  intro id' entry' h
  by_cases hid : id' = id
  · subst hid
    simp only [modifyPending, update_self, Option.map_eq_some_iff] at h
    obtain ⟨entry, hent, rfl⟩ := h
    exact ⟨entry, hent, hf entry⟩
  · exact ⟨entry', by simpa [modifyPending, hid] using h, rfl⟩

lemma keeps_beginChallenge (c : OpenedChallenge σ) (w : σ) :
    self.Keeps (self.beginChallenge c w).2.1 := by
  unfold beginChallenge
  split
  · exact .refl self
  · split
    · exact .refl self
    · exact self.keeps_modifyPending _ fun _ => rfl

lemma keeps_concludeChallenge (c : OpenedChallenge σ) (outcome : ChallengeOutcome)
    (clock : IssueClock) : self.Keeps (concludeChallenge crates cfg self c outcome clock).2 := by
  cases outcome with
  | denied reason => exact self.keeps_removePending _
  | pending message tries time nextState =>
    have hfst := self.keeps_modifyPending c.requestId (f := fun entry =>
      { entry with challengeState := some nextState, decryptionIv := some c.decryptionIv })
      fun _ => rfl
    simp only [concludeChallenge]
    split
    · exact hfst
    · exact hfst.trans (keeps_modifyPending _ _ fun _ => rfl)
  | approved attestation =>
    simp only [concludeChallenge]
    split
    · exact .refl self
    · split
      all_goals exact self.keeps_removePending _

lemma keeps_handleRevoke (body : Bytes) : self.Keeps (handleRevoke crates self body).2 := by
  unfold handleRevoke
  repeat' split
  all_goals exact .refl self

end CaState

end

end NdnRs
