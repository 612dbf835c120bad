import NdnRs.Cert.CaRun
import NdnRs.Cert.Possession
import NdnRs.Security.SignatureScheme

/-!
# Who gets certificates

Nothing in the code checks the signature of a certificate request, and the policy is only ever asked
without a requester certificate, before the challenge. The results are therefore about runs whose
messages meet a condition.

## Main results

* `issued_self_signed` — a certified key is the one that signed its request.
* `issued_to_holder` — on possession of a certificate, a name that it covers is certified.
-/

namespace NdnRs.CaRun

open Bytes Tlv List Option TlvType Name CertTlv ChallengeResponseTlv Possession

/-! ## A sample authority

The authority `/op/CA` trusts the certificate `/op/dev1/KEY/k1` in a possession challenge. Keys,
signatures, key agreement and envelopes are real ones, given as tables. -/

namespace Sample

open Validator (infoValue signedWire)

def holderKey : Bytes :=
  beBytes 32 0xd75a980182b10ab7d54bfed3c964073a0ee172f3daa62325af021a68f707511a

def requesterKey : Bytes :=
  beBytes 32 0xfc51cd8e6218a1a38da47ed00230f0580816ed13ba3303ac5deb911548908025

def victimKey : Bytes :=
  beBytes 32 0x3d4017c3e843895a92b70aa74d1b7ebc9c982ccf2ec4968cc0cd55f12af4660c

def caKey : Bytes :=
  beBytes 32 0x278117fc144c72340f67d0f2316e8386ceffbf2b2428c9c51fef7c597f1d426e

/-- `/op/dev1/KEY/k1`, trusted by the possession challenge. -/
def holder : Certificate :=
  ⟨[.ofText "op", .ofText "dev1", .ofText "KEY", .ofText "k1"], holderKey, 0, 2 ^ 64 - 1, none,
    none, none, .signatureEd25519⟩

/-- `/op/dev1/sub/KEY/s1`, below the holder's identity. -/
def subName : Name :=
  [.ofText "op", .ofText "dev1", .ofText "sub", .ofText "KEY", .ofText "s1"]

/-- `/op/dev2/KEY/s1`, a key name of another device. -/
def siblingName : Name := [.ofText "op", .ofText "dev2", .ofText "KEY", .ofText "s1"]

def requestRegion (keyName : Name) (key : Bytes) : Bytes :=
  encodeToTlv (keyName ++ [.ofText "cert-request", .version 1]) ++
    writeTlv content (Spki.wrapEd25519 key) ++
    writeTlv signatureInfo (infoValue 5 keyName)

/-- The requester's signature in the request for `subName`. -/
def subRequestSig : Bytes :=
  beBytes 32 0x267fbf3a79b669a260c2e295639a64840c949e250edc8cf2b4cbdb960b8c2a8c ++
    beBytes 32 0xd324b32ab307f8174d4c46c61d701cfba68d19194ad8bf3ade8ace63d4968504

/-- The requester's signature in the request for `siblingName`. -/
def siblingRequestSig : Bytes :=
  beBytes 32 0x1d2f4f1d4ca04fa488412fb1d86ce001d5a5343733d8335f27c6a8a26c16ebff ++
    beBytes 32 0xc8aa4ff05360b8ab5d01ceb1bdad0e0806e528aee25b7ed53a9c4b5ea81ed907

/-- The holder's signature over the nonce `/op/dev1/sub/KEY/s1`. -/
def subPossessionSig : Bytes :=
  beBytes 32 0x16d35defc2adcc9f79caf03c8c048eb0587f1e334d544ca3ef99b3dce93f4964 ++
    beBytes 32 0x64b7c1962c91ae8cb3a9e730e58deac867c4e7acc718e849d57c754a82823302

/-- The holder's signature over the nonce `/op/dev2/KEY/s1`. -/
def siblingPossessionSig : Bytes :=
  beBytes 32 0x2b47e2526f3ba36bff04ad22182566b7e86cb265ffeb8deb22edcc320021f818 ++
    beBytes 32 0xec0a9ec699c8d3e5ac327d1823ba86959088ff0760af3fcf242be43912a3740c

/-- The signatures above are the valid ones. -/
def crypto : Crypto :=
  .sample fun key region sig =>
    (key, region, sig) ∈
      [(requesterKey, requestRegion subName requesterKey, subRequestSig),
        (requesterKey, requestRegion siblingName requesterKey, siblingRequestSig),
        (holderKey, subName.display.bytes, subPossessionSig),
        (holderKey, siblingName.display.bytes, siblingPossessionSig)]

def inputs : NewInputs :=
  { nowSecs := 1700000000
    createdAt := 1700000000
    secret :=
      beBytes 32 0x74469b406bd410e7c2ea9e2a59c3e6e2b1f722868efa73705cb8cf722e3b2c0e
    salt := (List.range 32).map UInt8.ofNat
    requestId := [0, 1, 2, 3, 4, 5, 6, 7]
    ivRandom := .replicate 8 2 }

def clientPoint : Bytes :=
  beBytes 32 0x0418690149ce26627815f35ca0b970c771376f10a572339aa9316e36ff811718 ++
    beBytes 32 0x5b4cfff7551ac716f244828b96f7dfdc17f075d3eefadb0aa5f49bd4d981aaeb ++
    beBytes 1 0x99

def caPoint : Bytes :=
  beBytes 32 0x04827282c4a50e75247a3c837e3c6ed195923059f4568489c036d2e4055c0d6a ++
    beBytes 32 0xe92a3debb89c8c8131d81f21b6e492dee3413631adde5adc18ba0bc7b352d04b ++
    beBytes 1 0x57

def sessionKey : Bytes :=
  beBytes 16 0x00285eb1a720dc6670366f500280e962

structure Sealed where
  iv : Bytes
  plaintext : Bytes
  ciphertext : Bytes
  tag : Bytes

def challengePlaintext (signature : Bytes) : Bytes :=
  writeTlv selectedChallenge (Str.bytes "possession".toList) ++
    writeTlv parameterKey (Str.bytes "cert_name".toList) ++
    writeTlv parameterValue holder.name.display.bytes ++
    writeTlv parameterKey (Str.bytes "signature".toList) ++
    writeTlv parameterValue (Base64.encode signature).bytes

/-- The round that proves possession for `subName`, sealed. -/
def subRound : Sealed where
  iv := .replicate 8 1 ++ [0, 0, 0, 0]
  plaintext := challengePlaintext subPossessionSig
  ciphertext :=
      beBytes 32 0xae522c877d46f90c8000b7f3b92dff7314ee39e05187811c5a0f21b9644877cf ++
      beBytes 32 0x1fca3baf15e8a3f4b61d06abdbd0dabf164d214b133372cb4828ac26db5c00b8 ++
      beBytes 32 0xc133e6cd2f6988cc0c776a908e8d9789e7d90af27daaec2ca330e400602be96d ++
      beBytes 32 0x79c796aca5697f47b19b2b71007a47ab38d41b8d353eecfc59213ee94cd80e6b ++
      beBytes 11 0xbac2b4f5f672f11b5bcbb4
  tag :=
      beBytes 16 0xeebad0da95bffe632234ca9b6745519f

/-- The round that proves possession for `siblingName`, sealed. -/
def siblingRound : Sealed where
  iv := .replicate 8 1 ++ [0, 0, 0, 0]
  plaintext := challengePlaintext siblingPossessionSig
  ciphertext :=
      beBytes 32 0xae522c877d46f90c8000b7f3b92dff7314ee39e05187811c5a0f21b9644877cf ++
      beBytes 32 0x1fca3baf15e8a3f4b61d06abdbd0dabf164d214b133e36e3454af955984978f7 ++
      beBytes 32 0xab08dbbc7e448ac92e700190a2b6909ff6b97bb865d4ac72944ecc2a5755fc55 ++
      beBytes 32 0x61f0dedcb548566a90c4064909296f883ecb119e2a0f9dc2681141c963be733d ++
      beBytes 11 0x87efd1f28850ef1c11ce92
  tag :=
      beBytes 16 0x9bb38d056a16a531c28a4d09bcab73ff

/-- The authority's answer with the certificate name `subName`, sealed. -/
def subAnswer : Sealed where
  iv := .replicate 8 2 ++ [0, 0, 0, 0]
  plaintext := (success subName.display).encode
  ciphertext :=
      beBytes 31 0x152d1efc3c68c6b399e32ccf7110c8c4fce41c243b80b0f1ca1aeb301c3f59
  tag :=
      beBytes 16 0x28872bf7e3e9a6778e6e8fe24d6c3cbf

/-- The authority's answer with the certificate name `siblingName`, sealed. -/
def siblingAnswer : Sealed where
  iv := .replicate 8 2 ++ [0, 0, 0, 0]
  plaintext := (success siblingName.display).encode
  ciphertext :=
      beBytes 26 0x152d1efc3368cdb399e32ccf7110c8c4ffe41c1c0bbbb0f0f26e
  tag :=
      beBytes 16 0x6cb7f29308407cd5752d03610d4e0909

def sealedMessages : List Sealed := [subRound, siblingRound, subAnswer, siblingAnswer]

/-- The key agreement and the encryptions that occur. -/
def session : SessionCrypto where
  publicKeyBytes _ := caPoint
  deriveSessionKey secret peer salt requestId :=
    if secret = inputs.secret ∧ peer = clientPoint ∧ salt = inputs.salt ∧
      requestId = inputs.requestId then .ok sessionKey
    else .error (.invalidRequest "invalid peer ECDH public key".toList)
  encrypt key iv aad plaintext :=
    if key = sessionKey ∧ aad = inputs.requestId then
      (sealedMessages.find? fun m => m.iv = iv ∧ m.plaintext = plaintext).map fun m =>
        (m.ciphertext, m.tag)
    else none
  decrypt key iv aad ciphertext tag :=
    if key = sessionKey ∧ aad = inputs.requestId then
      (sealedMessages.find? fun m => m.iv = iv ∧ m.ciphertext = ciphertext ∧ m.tag = tag).map
        Sealed.plaintext
    else none

def crates : CaCrates := ⟨crypto, session, fun _ => none⟩

def caKeyName : Name := [.ofText "op", .ofText "KEY", .ofText "ca"]

def clock : IssueClock := ⟨1700000000, 1700000000 * 10 ^ 9⟩

/-- The authority signs one certificate for each of the runs below. -/
def signer : Signer where
  sigType := .signatureEd25519
  keyName := caKeyName
  sign region :=
    let info := certSignatureInfo ⟨.signatureEd25519, caKeyName, fun _ => .error .invalidKey⟩
      clock.nowNs (clock.nowNs + 86400 * 10 ^ 9) none
    if region = certSignedRegion subName requesterKey info then
      .ok (beBytes 32 0x6c468ea13f5b178c5c7c076936ee0e71668c51034c1a086f8662142d633329bb ++
        beBytes 32 0x8679b62269c0c505de135cbbae0296dfbb145795b88a721b06431053797fdb09)
    else if region = certSignedRegion subName victimKey info then
      .ok (beBytes 32 0x21ebe8001e09176a3bce7714372fc27f77c9a383493622535f7a9f98e1dc6b0a ++
        beBytes 32 0x60dd39b27003a976eb07827de45126d7fbf7630f9d35c2542ad428bf90df2907)
    else if region = certSignedRegion siblingName requesterKey info then
      .ok (beBytes 32 0xe42b036450645bba1e9d5c68315899b716dba0a946fa29be4b589e3691482225 ++
        beBytes 32 0x2c6c8f16f17f3b0ca10766e122d54c407682d70a58f26fa92ace238726d0f307)
    else .error .invalidKey

def manager : SecurityManager where
  anchors := [(caKeyName, ⟨caKeyName, caKey, 0, 2 ^ 64 - 1, none, none, none, .signatureEd25519⟩)]
  keys name := if name = caKeyName then some signer else none

/-- The hierarchical policy, the possession challenge, and certificates for one day. -/
def config : CaConfig Unit where
  caPrefix := [.ofText "op", .ofText "CA"]
  defaultValidity := 86400 * 10 ^ 9
  maxValidity := 86400 * 10 ^ 9
  challenges := [possessionChallenge crypto [holder]]
  policy := BuiltinPolicy.hierarchical.policy
  issuance := acceptAllIssuance
  emitAttestations := false

def world : Unit := ()

def newBody (keyName : Name) (key signature : Bytes) : Bytes :=
  NewRequestTlv.encode ⟨clientPoint, writeTlv data
    (requestRegion keyName key ++ writeTlv signatureValue signature)⟩

def challengeBody (m : Sealed) : Bytes :=
  writeTlv iv m.iv ++ writeTlv authTag m.tag ++ writeTlv encryptedPayload m.ciphertext

/-- NEW, then one CHALLENGE up to the answer of its handler. -/
def opening (body : Bytes) (round : Sealed) : List (Event Unit) :=
  [.new inputs body, .receive 0 (bytesToHex inputs.requestId) (challengeBody round), .begin 0,
    .verify 0]

/-- One enrollment: NEW, then one CHALLENGE. -/
def enrollment (body : Bytes) (round : Sealed) : List (Event Unit) :=
  opening body round ++ [.conclude 0 clock]

def run (events : List (Event Unit)) : State Unit :=
  events.foldl (step crates config) (init manager world)

lemma reach_enrollment {guard : State Unit → Event Unit → Prop} {body : Bytes} {round : Sealed}
    (h : Run.Admits (step crates config) guard (init manager world) (opening body round))
    (hcon : guard (run (opening body round)) (.conclude 0 clock)) :
    Reach crates config guard manager world (run (enrollment body round)) := by
  exact (Run.Reach.refl.foldl h).snoc _ hcon

end Sample

/-! ## Possession of the certified key -/

section

variable {σ : Type} {crates : CaCrates} {cfg : CaConfig σ} {s : State σ}

/-- The certificate request is signed with the key that it is for: a signature that only the owner
of the private key can make. -/
def SelfSigned (cr : Crypto) (session : Session) : Prop :=
  ∃ info, session.data.sigInfo = some info ∧
    (session.data.signed info).AsymmetricVerifies cr session.cert.publicKey

/-- The certificate request of a NEW, when there is one, is signed with the key that it is for. -/
def RequestsSelfSigned (cr : Crypto) : State σ → Event σ → Prop
  | _, .new _ body => ∀ newReq session, NewRequestTlv.decode body = .ok newReq →
      readCertRequest newReq = .ok session → SelfSigned cr session
  | _, _ => True

/-- A property of the certificate requests on record, each with its request id. -/
structure RecordedInv (P : Str → Session → Prop) (s : State σ) : Prop where
  sessions : ∀ id session, s.sessions id = some session → P id session
  issued : ∀ r ∈ s.issued, ∀ session, r.session = some session → P r.challenge.requestId session

/-- A step keeps a property of the requests on record that the request of a NEW has. -/
lemma RecordedInv.step {P : Str → Session → Prop} (h : RecordedInv P s) {event : Event σ}
    (hnew : ∀ inputs body newReq session, event = .new inputs body →
      NewRequestTlv.decode body = .ok newReq → readCertRequest newReq = .ok session →
      P (bytesToHex inputs.requestId) session) :
    RecordedInv P (step crates cfg s event) := by
  cases event with
  | new inputs body =>
    refine ⟨?_, h.issued⟩
    simp only [CaRun.step]
    rcases hopen : openSession crates cfg inputs body with e | ⟨session, entry, response⟩
    · exact h.sessions
    obtain ⟨⟨newReq, hdec, hread⟩, -, -⟩ := openSession_eq_ok hopen
    intro id session' hses'
    by_cases hid : id = bytesToHex inputs.requestId
    · subst hid
      simp only [Function.update_self, some.injEq] at hses'
      subst hses'
      exact hnew inputs body newReq session rfl hdec hread
    · simp only [Function.update_of_ne hid] at hses'
      exact h.sessions id session' hses'
  | conclude slot clock =>
    simp only [CaRun.step]
    split
    · next c state outcome _ =>
      refine ⟨h.sessions, ?_⟩
      intro r hr session hses
      rcases mem_append.mp hr with hr | hr
      · exact h.issued r hr session hses
      unfold record at hr
      split at hr
      · cases hr
      · rw [mem_singleton] at hr
        subst hr
        exact h.sessions _ session hses
    · exact h
  | begin slot =>
    simp only [CaRun.step]
    split
    · exact ⟨h.sessions, h.issued⟩
    · exact h
  | verify slot =>
    simp only [CaRun.step]
    split
    · exact ⟨h.sessions, h.issued⟩
    · exact h
  | receive slot requestId body => exact ⟨h.sessions, h.issued⟩
  | revoke body => exact ⟨h.sessions, h.issued⟩
  | cleanup nowSecs ttlSecs => exact ⟨h.sessions, h.issued⟩
  | manage manager => exact ⟨h.sessions, h.issued⟩
  | environment world => exact ⟨h.sessions, h.issued⟩

lemma recordedInv_init {P : Str → Session → Prop} (manager : SecurityManager) (world : σ) :
    RecordedInv P (init manager world) := by
  refine ⟨?_, ?_⟩
  · intro id session hses
    cases hses
  · intro r hr
    cases hr

/-- **Certified keys.** In every run whose certificate requests are self-signed, every issued
certificate binds the key of its session's certificate request, whose possession the request
proves, to exactly the key name that the namespace policy allowed. -/
theorem issued_self_signed {manager : SecurityManager} {world : σ}
    (h : Reach crates cfg (RequestsSelfSigned crates.crypto) manager world s) :
    ∀ r ∈ s.issued, ∃ session, r.session = some session ∧
      Certificate.decode session.data = .ok session.cert ∧
      session.cert.publicKey = r.cert.publicKey ∧ SelfSigned crates.crypto session ∧
      r.cert.name = requestedKeyName session.cert.name ∧
      cfg.policy.evaluate r.cert.name none cfg.caPrefix = .allow := by
  have hself : RecordedInv (fun _ => SelfSigned crates.crypto) s := by
    refine h.invariant (RecordedInv fun _ => SelfSigned crates.crypto)
      (recordedInv_init manager world) fun _ event hinv hgrd => hinv.step ?_
    rintro inputs body newReq session rfl hnew hread
    exact hgrd newReq session hnew hread
  intro r hr
  obtain ⟨-, session, hses, hacc, hname, hkey⟩ := (sessions_inv h).issued r hr
  refine ⟨session, hses, hacc.certificate, hkey.symm, hself.issued r hr session hses, hname, ?_⟩
  rw [hname]
  exact hacc.allowed

end

namespace Sample

/-- An enrollment for `subName` with a self-signed request. -/
def subEvents : List (Event Unit) :=
  enrollment (newBody subName requesterKey subRequestSig) subRound

/-- The certificate request in the body of NEW. -/
def requested (body : Bytes) : Option Session :=
  (NewRequestTlv.decode body).toOption.bind fun newReq => (readCertRequest newReq).toOption

variable {session : Session}

lemma requested_eq_some {body : Bytes} {newReq : NewRequestTlv}
    (hnew : NewRequestTlv.decode body = .ok newReq) (hread : readCertRequest newReq = .ok session) :
    requested body = some session := by
  rw [requested, hnew]
  show (readCertRequest newReq).toOption = some session
  rw [hread]
  rfl

def ed25519Signed (session : Session) : Bool :=
  session.data.sigInfo.isSome &&
    crypto.verifyBySigType .signatureEd25519 session.data.signedRegion session.data.sigValue
      session.cert.publicKey = .ok .valid

lemma selfSigned_of_ed25519Signed (h : ed25519Signed session = true) :
    SelfSigned crypto session := by
  rw [ed25519Signed, Bool.and_eq_true, isSome_iff_exists, decide_eq_true_eq] at h
  obtain ⟨⟨info, hinfo⟩, hver⟩ := h
  exact ⟨info, hinfo, .signatureEd25519, rfl, hver⟩

lemma run_sub :
    (requested (newBody subName requesterKey subRequestSig)).all (fun session =>
      ed25519Signed session && decide (requestedKeyName session.cert.name = subName)) = true ∧
    (run subEvents).issued.map (fun r => (r.cert.name, r.cert.publicKey)) =
      [(subName, requesterKey)] := by
  decide +kernel

lemma requestsSelfSigned_sub (s : State Unit) :
    RequestsSelfSigned crypto s (.new inputs (newBody subName requesterKey subRequestSig)) := by
  intro newReq session hnew hread
  have hall := run_sub.1
  rw [requested_eq_some hnew hread, all_some, Bool.and_eq_true] at hall
  exact selfSigned_of_ed25519Signed hall.1

/-- An enrollment for the same name with somebody else's key and a signature of zeros. -/
def victimEvents : List (Event Unit) :=
  enrollment (newBody subName victimKey (.replicate 64 0)) subRound

lemma issued_victim : (run victimEvents).issued.map
      (fun r => (r.cert.name, r.cert.publicKey, r.session)) =
        [(subName, victimKey, requested (newBody subName victimKey (replicate 64 0)))] ∧
    ((requested (newBody subName victimKey (replicate 64 0))).map
      fun session => (session.cert.publicKey, session.data.sigValue)) =
        some (victimKey, replicate 64 0) := by
  decide +kernel

end Sample

open Sample in
/-- The premise of `issued_self_signed` holds of an enrollment with a self-signed request. -/
theorem issued_self_signed_sub :
    (∃ r ∈ (run subEvents).issued, r.cert.name = subName) ∧
    ∀ r ∈ (run subEvents).issued, ∃ session, r.session = some session ∧
      Certificate.decode session.data = .ok session.cert ∧
      session.cert.publicKey = r.cert.publicKey ∧ SelfSigned crates.crypto session ∧
      r.cert.name = requestedKeyName session.cert.name ∧
      config.policy.evaluate r.cert.name none config.caPrefix = .allow := by
  refine ⟨?_, ?_⟩
  · obtain ⟨r, rest, hlist, hr, -⟩ := map_eq_cons_iff.mp run_sub.2
    exact ⟨r, by simp [hlist], (Prod.mk.inj hr).1⟩
  · have hrch : Reach crates config (RequestsSelfSigned crypto) manager world (run subEvents) :=
      reach_enrollment ⟨requestsSelfSigned_sub _, trivial, trivial, trivial, trivial⟩ trivial
    exact issued_self_signed hrch

open Sample in
/-- **A certificate for somebody else's key.** The requester proves possession of a certificate of
its own; the certificate request carries another party's key and a signature of zeros, which
verifies under no asymmetric scheme of that key. The authority certifies the key. -/
theorem victim_key_certified :
    ∃ s, Reach crates config (fun _ _ => True) manager world s ∧
      ∃ r ∈ s.issued, r.cert.publicKey = victimKey ∧
        ∃ session, r.session = some session ∧ session.cert.publicKey = victimKey ∧
          ¬ SelfSigned crates.crypto session := by
  refine ⟨run victimEvents, ?_, ?_⟩
  · exact reach_enrollment ⟨trivial, trivial, trivial, trivial, trivial⟩ trivial
  obtain ⟨hiss, hdec⟩ := issued_victim
  obtain ⟨r, rest, hlist, hr, -⟩ := map_eq_cons_iff.mp hiss
  obtain ⟨-, hr⟩ := Prod.mk.inj hr
  obtain ⟨hkey, hses⟩ := Prod.mk.inj hr
  obtain ⟨session, hreq, hpar⟩ := map_eq_some_iff.mp hdec
  obtain ⟨hpub, hsig⟩ := Prod.mk.inj hpar
  refine ⟨r, by simp [hlist], hkey, session, hses.trans hreq, hpub, ?_⟩
  rintro ⟨info, -, t, hasym, hver⟩
  obtain ⟨-, htab⟩ := Crypto.sample_verifies hasym hver
  -- no valid signature is made of zeros
  have hzer : session.data.sigValue ∈
      [subRequestSig, siblingRequestSig, subPossessionSig, siblingPossessionSig] := by
    simp only [decide_eq_true_eq, mem_cons, not_mem_nil, or_false, Prod.mk.injEq] at htab ⊢
    rcases htab with h | h | h | h
    · exact .inl h.2.2
    · exact .inr (.inl h.2.2)
    · exact .inr (.inr (.inl h.2.2))
    · exact .inr (.inr (.inr h.2.2))
  rw [hsig] at hzer
  exact absurd hzer (by decide)

/-! ## Possession of a trusted certificate -/

section

variable {σ : Type} {crates : CaCrates} {cfg : CaConfig σ} {s : State σ}

/-- The messages of requesters that keep to their own names, where `asked` says which key name each
request id stands for: a NEW asks for the key name of its request id, and a CHALLENGE for a
possession handler names a certificate that covers the key name of its request id. -/
def AsksCovered (crates : CaCrates) (cfg : CaConfig σ) (policy : BuiltinPolicy)
    (trusted : List Certificate) (asked : Str → Name) : State σ → Event σ → Prop
  | _, .new inputs body => ∀ newReq session, NewRequestTlv.decode body = .ok newReq →
      readCertRequest newReq = .ok session →
      requestedKeyName session.cert.name = asked (bytesToHex inputs.requestId)
  | s, .receive _ requestId body => ∀ c,
      CaState.openChallenge crates cfg s.ca requestId body = .ok c →
      c.handler = possessionChallenge crates.crypto trusted →
      ∀ cert, (certName c.parameters).bind (trustedCert trusted) = some cert →
        policy.Covers cert (asked requestId)
  | _, _ => True

/-- The certificate that a message names to a possession handler covers the key name of its request
id. -/
def NamesCovered (policy : BuiltinPolicy) (cr : Crypto) (trusted : List Certificate)
    (asked : Str → Name) (c : OpenedChallenge σ) : Prop :=
  c.handler = possessionChallenge cr trusted →
    ∀ cert, (certName c.parameters).bind (trustedCert trusted) = some cert →
      policy.Covers cert (asked c.requestId)

/-- A certificate issued on possession goes to the holder of a certificate that covers the key name
of its request id. -/
def HolderOk (policy : BuiltinPolicy) (cr : Crypto) (trusted : List Certificate)
    (asked : Str → Name) (r : Issued σ) : Prop :=
  r.challenge.handler = possessionChallenge cr trusted →
    ∃ cert, Possession.Proves cr trusted r.state r.challenge.parameters cert ∧
      policy.Covers cert (asked r.challenge.requestId)

/-- What the messages of such requesters maintain from CHALLENGE to certificate. -/
structure CoveredInv (policy : BuiltinPolicy) (cr : Crypto) (trusted : List Certificate)
    (asked : Str → Name) (s : State σ) : Prop where
  tasks : ∀ slot task, s.tasks slot = some task →
    NamesCovered policy cr trusted asked task.message
  issued : ∀ r ∈ s.issued, HolderOk policy cr trusted asked r

variable {policy : BuiltinPolicy} {trusted : List Certificate} {asked : Str → Name}

lemma CoveredInv.holderOk (hinv : Inv cfg s)
    (h : CoveredInv policy crates.crypto trusted asked s) {slot : ℕ} {clock : IssueClock}
    {c : OpenedChallenge σ} {state : ChallengeState} {outcome : ChallengeOutcome}
    (htask : s.tasks slot = some (.verified c state outcome)) {r : Issued σ}
    (hr : r ∈ record crates cfg s c state outcome clock) :
    HolderOk policy crates.crypto trusted asked r := by
  unfold record at hr
  cases hcert : CaState.issuedCert crates cfg s.ca c outcome clock with
  | none => simp [hcert] at hr
  | some cert =>
    simp only [hcert, mem_singleton] at hr
    subst hr
    obtain ⟨attestation, entry, rfl, -, -⟩ := CaState.issuedCert_eq_some hcert
    intro hhan
    -- the handler approved, so possession of the certificate that the message names was proved
    obtain ⟨-, w, hvfy⟩ := hinv.tasks slot _ htask
    have hhan' : c.handler = possessionChallenge crates.crypto trusted := hhan
    rw [hhan'] at hvfy
    obtain ⟨holder, hprov⟩ := proves_of_verify hvfy
    exact ⟨holder, hprov, h.tasks slot _ htask hhan holder hprov.1⟩

lemma CoveredInv.step (hinv : Inv cfg s) (h : CoveredInv policy crates.crypto trusted asked s)
    {event : Event σ} (hgrd : AsksCovered crates cfg policy trusted asked s event) :
    CoveredInv policy crates.crypto trusted asked (step crates cfg s event) := by
  cases event with
  | receive slot requestId body =>
    refine ⟨forall_tasks_update h.tasks slot ?_, h.issued⟩
    intro t ht
    obtain ⟨c, hopen, rfl⟩ := eq_ok_of_toOption_map ht
    intro hhan cert hcert
    have hcov := hgrd c hopen hhan cert hcert
    rw [← (CaState.openChallenge_eq_ok hopen).1] at hcov
    exact hcov
  | begin slot =>
    simp only [CaRun.step]
    split
    · next c htask =>
      refine ⟨forall_tasks_update h.tasks slot ?_, h.issued⟩
      intro t ht
      obtain ⟨state, -, rfl⟩ := eq_ok_of_toOption_map ht
      exact h.tasks slot (.opened c) htask
    · exact h
  | verify slot =>
    simp only [CaRun.step]
    split
    · next c state htask =>
      refine ⟨forall_tasks_update h.tasks slot ?_, h.issued⟩
      intro t ht
      obtain ⟨outcome, -, rfl⟩ := eq_ok_of_toOption_map ht
      exact h.tasks slot (.begun c state) htask
    · exact h
  | conclude slot clock =>
    simp only [CaRun.step]
    split
    · next c state outcome htask =>
      refine ⟨forall_tasks_update h.tasks slot (by simp), ?_⟩
      intro r hr
      rcases mem_append.mp hr with hr | hr
      · exact h.issued r hr
      · exact h.holderOk hinv htask hr
    · exact h
  | new inputs body => exact ⟨h.tasks, h.issued⟩
  | revoke body => exact ⟨h.tasks, h.issued⟩
  | cleanup nowSecs ttlSecs => exact ⟨h.tasks, h.issued⟩
  | manage manager => exact ⟨h.tasks, h.issued⟩
  | environment world => exact ⟨h.tasks, h.issued⟩

lemma coveredInv_init {cr : Crypto} (manager : SecurityManager) (world : σ) :
    CoveredInv policy cr trusted asked (init manager world) := by
  refine ⟨?_, ?_⟩
  · intro slot task htask
    cases htask
  · intro r hr
    cases hr

/-- **Certificates issued on possession.** Under one of the repository's namespace policies, in
every run in which a CHALLENGE names to a possession handler only certificates that cover the key
name which the NEW of its session asked for, every certificate issued on possession has a name that
the policy allows to the holder of the certificate proved; under the hierarchical policy it lies
below the holder's identity. -/
theorem issued_to_holder {policy : BuiltinPolicy} {trusted : List Certificate}
    {asked : Str → Name} {manager : SecurityManager} {world : σ}
    (hpolicy : cfg.policy = policy.policy)
    (h : Reach crates cfg (AsksCovered crates cfg policy trusted asked) manager world s) :
    ∀ r ∈ s.issued, r.challenge.handler = possessionChallenge crates.crypto trusted →
      ∃ cert, Possession.Proves crates.crypto trusted r.state r.challenge.parameters cert ∧
        cfg.policy.evaluate r.cert.name (some cert) cfg.caPrefix = .allow ∧
        (policy = .hierarchical → stripKeySuffix cert.name <+: r.cert.name) := by
  have hcovered : Inv cfg s ∧ CoveredInv policy crates.crypto trusted asked s := by
    refine h.invariant (fun s => Inv cfg s ∧ CoveredInv policy crates.crypto trusted asked s)
      ⟨inv_init manager world, coveredInv_init manager world⟩ fun _ event hinv hgrd =>
        ⟨step_inv hinv.1 event, hinv.2.step hinv.1 hgrd⟩
  have hasked :
      RecordedInv (fun id session => requestedKeyName session.cert.name = asked id) s := by
    refine h.invariant
      (RecordedInv fun id session => requestedKeyName session.cert.name = asked id)
      (recordedInv_init manager world) fun _ event hinv hgrd => hinv.step ?_
    rintro inputs body newReq session rfl hnew hread
    exact hgrd newReq session hnew hread
  intro r hr hhan
  obtain ⟨cert, hprov, hcov⟩ := hcovered.2.issued r hr hhan
  -- the certificate has the name that the NEW of its session asked for
  obtain ⟨-, session, hses, -, hname, -⟩ := hcovered.1.issued r hr
  rw [← hasked.issued r hr session hses, ← hname] at hcov
  refine ⟨cert, hprov, ?_, ?_⟩
  · rw [hpolicy]
    exact (policy.evaluate_some_eq_allow_iff _ _ cert).mpr hcov
  · intro hhier
    subst hhier
    exact hcov

end

namespace Sample

variable {s : State Unit}

lemma asksCovered_new (s : State Unit) : AsksCovered crates config .hierarchical [holder]
    (fun _ => subName) s (.new inputs (newBody subName requesterKey subRequestSig)) := by
  intro newReq session hnew hread
  have hall := run_sub.1
  rw [requested_eq_some hnew hread, all_some, Bool.and_eq_true, decide_eq_true_eq] at hall
  exact hall.2

lemma asksCovered_receive (s : State Unit) (slot : ℕ) (requestId : Str) (body : Bytes) :
    AsksCovered crates config .hierarchical [holder] (fun _ => subName) s
      (.receive slot requestId body) := by
  intro c _ _ cert hcert
  obtain ⟨certName, -, hfind⟩ := bind_eq_some_iff.mp hcert
  have hmem : cert ∈ [holder] := mem_of_find?_eq_some hfind
  rw [mem_singleton] at hmem
  subst hmem
  show stripKeySuffix holder.name <+: subName
  decide

lemma reach_sub : Reach crates config
    (AsksCovered crates config .hierarchical [holder] fun _ => subName) manager world
    (run subEvents) :=
  reach_enrollment ⟨asksCovered_new _, asksCovered_receive _ _ _ _, trivial, trivial, trivial⟩
    trivial

lemma handler_eq {guard : State Unit → Event Unit → Prop}
    (h : Reach crates config guard manager world s) {r : Issued Unit} (hr : r ∈ s.issued) :
    r.challenge.handler = possessionChallenge crypto [holder] :=
  mem_singleton.mp ((sessions_inv h).issued r hr).1

/-- The holder's enrollment for a key name of another device, with a self-signed request. -/
def siblingEvents : List (Event Unit) :=
  enrollment (newBody siblingName requesterKey siblingRequestSig) siblingRound

lemma issued_sibling : (run siblingEvents).issued.map (fun r => (r.cert.name,
      (certName r.challenge.parameters).bind (trustedCert [holder]),
      (textParameter r.challenge.parameters "signature".toList).bind Base64.decode,
      Possession.nonce r.state)) =
    [(siblingName, some holder, some siblingPossessionSig, siblingName.display)] := by
  decide +kernel

end Sample

open Sample in
/-- The premises of `issued_to_holder` hold of the holder's enrollment below its own identity, with
every request id standing for `subName`. -/
theorem issued_to_holder_sub :
    (∃ r ∈ (run subEvents).issued, r.cert.name = subName ∧
      r.challenge.handler = possessionChallenge crypto [holder]) ∧
    ∀ r ∈ (run subEvents).issued,
      r.challenge.handler = possessionChallenge crates.crypto [holder] →
      ∃ cert, Possession.Proves crates.crypto [holder] r.state r.challenge.parameters cert ∧
        config.policy.evaluate r.cert.name (some cert) config.caPrefix = .allow ∧
        (BuiltinPolicy.hierarchical = .hierarchical →
          stripKeySuffix cert.name <+: r.cert.name) := by
  refine ⟨?_, issued_to_holder rfl reach_sub⟩
  obtain ⟨r, rest, hlist, hr, -⟩ := map_eq_cons_iff.mp run_sub.2
  have hmem : r ∈ (run subEvents).issued := by simp [hlist]
  exact ⟨r, hmem, (Prod.mk.inj hr).1, handler_eq reach_sub hmem⟩

open Sample in
/-- **A certificate for another device.** The holder of `/op/dev1/KEY/k1` proves possession and gets
a certificate for `/op/dev2/KEY/s1`, for which the policy's answer to this holder is a denial. The
certificate request is self-signed. -/
theorem sibling_certified :
    ∃ s, Reach crates config (fun _ _ => True) manager world s ∧
      ∃ r ∈ s.issued, r.challenge.handler = possessionChallenge crypto [holder] ∧
        Possession.Proves crypto [holder] r.state r.challenge.parameters holder ∧
        r.cert.name = siblingName ∧
        config.policy.evaluate r.cert.name (some holder) config.caPrefix ≠ .allow ∧
        ¬ stripKeySuffix holder.name <+: r.cert.name := by
  have hrch : Reach crates config (fun _ _ => True) manager world (run siblingEvents) :=
    reach_enrollment ⟨trivial, trivial, trivial, trivial, trivial⟩ trivial
  refine ⟨run siblingEvents, hrch, ?_⟩
  obtain ⟨r, rest, hlist, hr, -⟩ := map_eq_cons_iff.mp issued_sibling
  have hmem : r ∈ (run siblingEvents).issued := by simp [hlist]
  obtain ⟨hname, hr⟩ := Prod.mk.inj hr
  obtain ⟨hcert, hr⟩ := Prod.mk.inj hr
  obtain ⟨hsig, hnc⟩ := Prod.mk.inj hr
  refine ⟨r, hmem, handler_eq hrch hmem, ⟨hcert, siblingPossessionSig, hsig, ?_⟩, hname, ?_, ?_⟩
  · rw [hnc]
    decide +kernel
  · rw [hname]
    decide
  · rw [hname]
    decide

end NdnRs.CaRun
