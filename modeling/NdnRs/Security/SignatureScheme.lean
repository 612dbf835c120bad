import NdnRs.Security.ChainWalk

/-!
# Declared algorithms and the keys they are used with

The algorithm of a signature check is the one that the signed packet declares, while the key comes
from a certificate. Where that key is public, only the owner of the private key can pass a check
under a declared RSA, ECDSA or Ed25519 algorithm, and everybody can pass any other.

## Main results

* `Request.genuine_iff_declared` — which accepted signatures are genuine.
-/

namespace NdnRs

open Bytes Tlv Crypto TlvType SignatureType

/-- The algorithms that verify with a public key. -/
def SignatureType.isAsymmetric : SignatureType → Bool
  | .signatureSha256WithRsa => true
  | .signatureSha256WithEcdsa => true
  | .signatureEd25519 => true
  | _ => false

/-- The signature verifies with the key under one of the asymmetric schemes, whatever algorithm the
packet declares. A key parses under its own scheme only. -/
def Signed.AsymmetricVerifies (cr : Crypto) (s : Signed) (publicKey : Bytes) : Prop :=
  ∃ t : SignatureType, t.isAsymmetric = true ∧ cr.Verifies t s.region s.sigValue publicKey

lemma Crypto.sample_verifies {table : Bytes → Bytes → Bytes → Bool} {t : SignatureType}
    {region sig publicKey : Bytes} (hasym : t.isAsymmetric = true)
    (h : (sample table).Verifies t region sig publicKey) :
    sig.length = 64 ∧ table (ed25519RawKey publicKey) region sig = true := by
  cases t with
  | signatureEd25519 =>
    rw [Crypto.Verifies, verifyBySigType, ed25519Verifier] at h
    split at h
    · cases h
    · split at h
      · cases h
      · rename_i hlen
        rw [Except.ok.injEq, VerifyOutcome.ofBool_eq_valid] at h
        exact ⟨not_not.1 hlen, h⟩
  | signatureSha256WithRsa =>
    simp [Crypto.Verifies, verifyBySigType, rsaSha256Verifier, derVerifier, sample] at h
  | signatureSha256WithEcdsa =>
    simp [Crypto.Verifies, verifyBySigType, ecdsaSha256Verifier, derVerifier, sample] at h
  | digestSha256 => exact absurd hasym (by decide)
  | signatureHmacWithSha256 => exact absurd hasym (by decide)
  | other c => exact absurd hasym (by simp [isAsymmetric])

/-- What can be computed without private keys: `computes key region sig` says that `sig` can be
computed from a public key and a region. -/
structure Outsider (cr : Crypto) where
  computes : Bytes → Bytes → Bytes → Prop
  /-- Hashes are computable by anyone. -/
  sha256 : ∀ key region, computes key region (cr.sha256 region)
  blake3 : ∀ key region, computes key region (cr.blake3 region)
  /-- Keyed hashes are computable by anyone who knows the key bytes. -/
  hmac : ∀ key region, computes key region (cr.hmacSign key region)
  blake3Keyed : ∀ key region, computes key region (cr.blake3Keyed key region)
  /-- The asymmetric schemes are unforgeable. -/
  unforgeable : ∀ key region sig, computes key region sig →
    ∀ t : SignatureType, t.isAsymmetric = true → ¬ cr.Verifies t region sig key

namespace Outsider

variable {cr : Crypto}

/-- A signature that verifies under an asymmetric scheme of the key and that nobody can compute
without the private key. -/
def Genuine (out : Outsider cr) (s : Signed) (publicKey : Bytes) : Prop :=
  s.AsymmetricVerifies cr publicKey ∧ ¬ out.computes publicKey s.region s.sigValue

variable {s : Signed} {publicKey : Bytes}

/-- A check under an algorithm that is not asymmetric accepts only what anyone can compute. -/
lemma computes_of_not_isAsymmetric (out : Outsider cr) (hver : s.VerifiesWith cr publicKey)
    (hasym : s.sigType.isAsymmetric = false) : out.computes publicKey s.region s.sigValue := by
  obtain ⟨region, sigValue, sigType⟩ := s
  change cr.Verifies sigType region sigValue publicKey at hver
  cases sigType with
  | digestSha256 =>
    rw [verifies_digestSha256_iff.1 hver]
    exact out.sha256 publicKey region
  | signatureSha256WithRsa => exact absurd hasym (by simp [isAsymmetric])
  | signatureSha256WithEcdsa => exact absurd hasym (by simp [isAsymmetric])
  | signatureHmacWithSha256 =>
    rw [verifies_hmac_iff.1 hver]
    exact out.hmac publicKey region
  | signatureEd25519 => exact absurd hasym (by simp [isAsymmetric])
  | other c =>
    by_cases hpln : c = 6
    · subst hpln
      rw [(verifies_blake3_iff.1 hver).2]
      exact out.blake3 publicKey region
    · by_cases hkyd : c = 7
      · subst hkyd
        rw [(verifies_blake3Keyed_iff.1 hver).2.2]
        exact out.blake3Keyed publicKey region
      · simp [Crypto.Verifies, verifyBySigType, hpln, hkyd] at hver

/-- **An accepted signature is genuine exactly when it was declared asymmetric.** -/
lemma genuine_iff (out : Outsider cr) (hver : s.VerifiesWith cr publicKey) :
    out.Genuine s publicKey ↔ s.sigType.isAsymmetric = true := by
  constructor
  · rintro ⟨-, hcom⟩
    by_contra hasym
    exact hcom (out.computes_of_not_isAsymmetric hver (by simpa using hasym))
  · intro hasym
    refine ⟨⟨s.sigType, hasym, hver⟩, fun hcom => ?_⟩
    exact out.unforgeable _ _ _ hcom s.sigType hasym hver

/-- An outsider who can compute hashes and keyed hashes and nothing else. -/
def sample (table : Bytes → Bytes → Bytes → Bool) : Outsider (sample table) where
  computes key region sig :=
    sig = (Crypto.sample table).sha256 region ∨ sig = (Crypto.sample table).blake3 region ∨
      sig = (Crypto.sample table).hmacSign key region ∨
      sig = (Crypto.sample table).blake3Keyed key region
  sha256 _ _ := .inl rfl
  blake3 _ _ := .inr (.inl rfl)
  hmac _ _ := .inr (.inr (.inl rfl))
  blake3Keyed _ _ := .inr (.inr (.inr rfl))
  unforgeable := by
    intro key region sig hcomputes t hasym hverifies
    -- hashes have 32 bytes here, or none, and Ed25519 signatures have 64
    have hlen : sig.length ≠ 64 := by
      rcases hcomputes with rfl | rfl | rfl | rfl
      · rw [(Crypto.sample table).sha256_length]
        decide
      · exact (by decide : ([] : Bytes).length ≠ 64)
      · rw [Crypto.hmacSign, (Crypto.sample table).sha256_length]
        decide
      · exact (by decide : ([] : Bytes).length ≠ 64)
    exact hlen (sample_verifies hasym hverifies).1

end Outsider

namespace Validator

/-! ## The four entry points -/

/-- A call of one of the validator's entry points. -/
inductive Request where
  | validate (data : Data)
  | validateInterest (interest : Interest)
  | validateChain (data : Data)
  | validateInterestChain (interest : Interest)

namespace Request

variable (cr : Crypto) (v : Validator) (now : ℕ) (net : Name → FetchReply)

def Accepted : Request → Prop
  | .validate data => ∃ safe, Validator.validate cr v now data = .valid safe
  | .validateInterest interest => Validator.validateInterest cr v now interest = .valid
  | .validateChain data => ∃ safe, (Validator.validateChain cr v now net data).1 = .valid safe
  | .validateInterestChain interest =>
    (Validator.validateInterestChain cr v now net interest).1 = .valid

def sigInfo : Request → Option SignatureInfo
  | .validate data => data.sigInfo
  | .validateInterest interest => interest.sigInfo
  | .validateChain data => data.sigInfo
  | .validateInterestChain interest => interest.sigInfo

/-- The signatures that the call looks at, with the keys found for them: the packet's own, and for
the chain-walking calls those of the certificates up to an anchor. -/
def Hops (info : SignatureInfo) : Request → List Hop → Prop
  | .validate data, hops => ∃ keyName cert, v.Signer now data.name info keyName cert ∧
      hops = [⟨data.signed info, keyName, cert⟩]
  | .validateInterest interest, hops => ∃ s keyName cert, interest.signed? = some (info, s) ∧
      v.Signer now interest.name info keyName cert ∧ hops = [⟨s, keyName, cert⟩]
  | .validateChain data, hops =>
      ChainFor cr v now net (.invalid .invalidSignature) data.name info (data.signed info) hops
  | .validateInterestChain interest, hops => ∃ s, interest.signed? = some (info, s) ∧
      ChainFor cr v now net .pending interest.name info s hops

end Request

variable {cr : Crypto} {v : Validator} {now : ℕ} {net : Name → FetchReply} {s : Signed}
  {info : SignatureInfo} {hops : List Hop}

lemma Anchored.verifies {ctx : SignedTrustContext} {depth : ℕ} {cache : CertCache}
    {seen : List Name} {keyName : Name}
    (h : Anchored cr v ctx now net depth cache seen s keyName hops) :
    ∀ hop ∈ hops, hop.signed.VerifiesWith cr hop.cert.publicKey := by
  induction h with
  | anchor _ _ _ _ hver => simpa using hver
  | issued _ _ _ _ _ hver _ _ ih =>
    intro hop hmem
    rcases List.mem_cons.1 hmem with rfl | hmem
    · exact hver
    · exact ih hop hmem

lemma ChainFor.verifies {onMiss : Verdict} {name : Name}
    (h : ChainFor cr v now net onMiss name info s hops) :
    ∀ hop ∈ hops, hop.signed.VerifiesWith cr hop.cert.publicKey := by
  obtain ⟨firstKey, -, -, hanc⟩ := h
  exact hanc.verifies

/-- An accepted packet that is not DigestSha256-signed has its hops, all of which verify. -/
lemma Request.exists_hops {r : Request} (hinfo : r.sigInfo = some info)
    (hdig : info.sigType ≠ .digestSha256) (hacc : r.Accepted cr v now net) :
    ∃ hops, r.Hops cr v now net info hops ∧
      ∀ hop ∈ hops, hop.signed.VerifiesWith cr hop.cert.publicKey := by
  cases r with
  | validate data =>
    obtain ⟨safe, hsafe⟩ := hacc
    obtain ⟨⟨keyName, cert, hsgr, hver, -⟩, -⟩ :=
      (validate_eq_valid_iff hinfo hdig).1 hsafe
    exact ⟨_, ⟨keyName, cert, hsgr, rfl⟩, by simpa using hver⟩
  | validateInterest interest =>
    cases hs : interest.signed? with
    | none => simp [Accepted, Validator.validateInterest, hs] at hacc
    | some p =>
      obtain ⟨info', s⟩ := p
      obtain rfl : info' = info :=
        Option.some.inj ((Interest.signed?_eq_some hs).1.symm.trans hinfo)
      obtain ⟨keyName, cert, hsgr, hver⟩ :=
        (validateInterest_eq_valid_iff hs hdig).1 hacc
      exact ⟨_, ⟨s, keyName, cert, hs, hsgr, rfl⟩, by simpa using hver⟩
  | validateChain data =>
    obtain ⟨safe, hsafe⟩ := hacc
    obtain ⟨⟨hops, hchn, -⟩, -⟩ := (validateChain_eq_valid_iff hinfo hdig).1 hsafe
    exact ⟨hops, hchn, hchn.verifies⟩
  | validateInterestChain interest =>
    cases hs : interest.signed? with
    | none => simp [Accepted, Validator.validateInterestChain, hs] at hacc
    | some p =>
      obtain ⟨info', s⟩ := p
      obtain rfl : info' = info :=
        Option.some.inj ((Interest.signed?_eq_some hs).1.symm.trans hinfo)
      obtain ⟨hops, hchn⟩ := (validateInterestChain_eq_valid_iff hs hdig).1 hacc
      exact ⟨hops, ⟨s, hs, hchn⟩, hchn.verifies⟩

/-- **Acceptance with public keys.** Let one of the four entry points accept a packet that is not
DigestSha256-signed. Then every signature it rests on (the packet's and those of the certificates
on the chain) is genuine if and only if every one of them declares RSA, ECDSA or Ed25519.

**Proof sketch.** Acceptance says that each signature verifies under its declared algorithm. For an
asymmetric one that is genuineness. Any other accepted value is a hash, or a hash keyed with the
public key, of the signed region: it can be computed by anyone. -/
theorem Request.genuine_iff_declared (out : Outsider cr) (r : Request) (info : SignatureInfo)
    (hinfo : r.sigInfo = some info) (hdigest : info.sigType ≠ .digestSha256)
    (haccepted : r.Accepted cr v now net) :
    ∃ hops, r.Hops cr v now net info hops ∧
      ((∀ hop ∈ hops, out.Genuine hop.signed hop.cert.publicKey) ↔
        ∀ hop ∈ hops, hop.signed.sigType.isAsymmetric = true) := by
  obtain ⟨hops, hhops, hver⟩ := exists_hops hinfo hdigest haccepted
  refine ⟨hops, hhops, forall₂_congr fun hop hmem => ?_⟩
  exact out.genuine_iff (hver hop hmem)

/-! ## A packet computed from public data -/

/-- A key that parses under one of the asymmetric schemes. -/
def AsymmetricKey (cr : Crypto) (publicKey : Bytes) : Prop :=
  ((ed25519RawKey publicKey).length = 32 ∧ cr.ed25519Key (ed25519RawKey publicKey) = true) ∨
  cr.rsaKey publicKey = true ∨ cr.ecdsaKey publicKey = true

/-- Every trust anchor and every cached certificate holds a public key. -/
def AsymmetricKeys (cr : Crypto) (v : Validator) : Prop :=
  (∀ ctx ∈ v.keyring.ambient :: v.keyring.contexts, ∀ name cert,
    ctx.anchors name = some cert → AsymmetricKey cr cert.publicKey) ∧
  ∀ name cert, v.certCache.get name = some cert → AsymmetricKey cr cert.publicKey

/-- The SignatureInfo value with an algorithm code and a key name. -/
def infoValue (code : UInt8) (keyName : Name) : Bytes :=
  writeTlv signatureType [code] ++ writeTlv keyLocator (Name.encodeToTlv keyName)

/-- A Data wire whose SignatureValue is a function of its signed region. -/
def signedWire (name : Name) (content info : Bytes) (sign : Bytes → Bytes) : Bytes :=
  let region := Name.encodeToTlv name ++ writeTlv TlvType.content content ++
    writeTlv signatureInfo info
  writeTlv data (region ++ writeTlv signatureValue (sign region))

def received (wire : Bytes) : Data :=
  (Data.decode wire).toOption.getD ⟨wire, 0, 0, 0, 0, []⟩

/-- A Data wire computed from a name, a content, the name of a key and the public key: it is signed
with the HMAC of its region under the bytes of the public key. -/
def hmacForgery (cr : Crypto) (name keyName : Name) (publicKey content : Bytes) : Bytes :=
  signedWire name content (infoValue 4 keyName) (cr.hmacSign publicKey)

namespace Sample

def publicKey : Bytes :=
  beBytes 32 0xd75a980182b10ab7d54bfed3c964073a0ee172f3daa62325af021a68f707511a

def keyName : Name := [.ofText "op", .ofText "KEY", .ofText "k1"]

def name : Name := [.ofText "op", .ofText "door"]

def anchor : Certificate :=
  ⟨keyName, publicKey, 0, 2 ^ 64 - 1, none, none, none, .signatureEd25519⟩

/-- What the owner of the key has signed: `/op/door` with content `[0]`. -/
def ownerRegion : Bytes :=
  [7, 10, 8, 2, 111, 112, 8, 4, 100, 111, 111, 114, 21, 1, 0, 22, 20, 27, 1, 5, 28, 15, 7, 13, 8, 2,
   111, 112, 8, 3, 75, 69, 89, 8, 2, 107, 49]

def ownerSig : Bytes :=
  beBytes 32 0x99be5a2c2eb2bf7d271c4616d8dc30a78dd6d65808387c8c82b2862ee8230632 ++
    beBytes 32 0x4a2a7eb1347d1012839fcb0ffcab9acb5659f1b3dc4bfaeb57ca499a4709e20e

/-- Primitives under which the owner's signature is the only one. -/
def crypto : Crypto :=
  .sample fun key region sig => key = publicKey && region = ownerRegion && sig = ownerSig

def validator : Validator := (Validator.new .hierarchical).addTrustAnchor crypto 1 anchor

def forgedData : Data := received (hmacForgery crypto name keyName publicKey [1])

def outsider : Outsider crypto := .sample _

lemma validator_asymmetricKeys : AsymmetricKeys crypto validator := by
  have hkey : AsymmetricKey crypto anchor.publicKey := .inl ⟨by decide, by decide⟩
  refine ⟨fun ctx hctx name cert hcert => ?_, fun name cert hcert => ?_⟩
  · rw [List.mem_singleton.1 hctx] at hcert
    rcases anchors_addTrustAnchor hcert with rfl | hcert
    · exact hkey
    · cases hcert
  · rcases get_addTrustAnchor hcert with rfl | hcert
    · exact hkey
    · cases hcert

end Sample

open Sample in
/-- **A packet computed from names and a public key is accepted.** The validator holds public keys
only; the packet is decoded from a wire that is a function of two names, a content and the public
key; `validate` and `validate_chain` accept it, and its signature verifies under no asymmetric
scheme. -/
theorem hmac_forgery_accepted :
    AsymmetricKeys crypto validator ∧
    Data.decode (hmacForgery crypto name keyName publicKey [1]) = .ok forgedData ∧
    forgedData.sigInfo = some ⟨.signatureHmacWithSha256, some (.name keyName), none, none, none⟩ ∧
    Validator.validate crypto validator 1 forgedData =
      .valid ⟨forgedData, .certChain [keyName], 1⟩ ∧
    (Validator.validateChain crypto validator 1 (fun _ => .timeout) forgedData).1 =
      .valid ⟨forgedData, .certChain [keyName], 1⟩ ∧
    ¬ Signed.AsymmetricVerifies crypto
      ⟨forgedData.signedRegion, forgedData.sigValue, .signatureHmacWithSha256⟩ publicKey := by
  have hrun : Data.decode (hmacForgery crypto name keyName publicKey [1]) = .ok forgedData ∧
      forgedData.sigInfo = some ⟨.signatureHmacWithSha256, some (.name keyName), none, none, none⟩ ∧
      Validator.validate crypto validator 1 forgedData =
        .valid ⟨forgedData, .certChain [keyName], 1⟩ ∧
      (Validator.validateChain crypto validator 1 (fun _ => .timeout) forgedData).1 =
        .valid ⟨forgedData, .certChain [keyName], 1⟩ ∧
      forgedData.sigValue = crypto.hmacSign publicKey forgedData.signedRegion := by
    decide +kernel
  obtain ⟨hdec, hinfo, hvld, hchn, hsig⟩ := hrun
  refine ⟨validator_asymmetricKeys, hdec, hinfo, hvld, hchn, ?_⟩
  rintro ⟨t, hasym, hver⟩
  exact outsider.unforgeable _ _ _ (hsig ▸ outsider.hmac publicKey forgedData.signedRegion) t hasym
    hver

end Validator

end NdnRs
