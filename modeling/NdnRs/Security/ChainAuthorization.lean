import NdnRs.Security.SignatureScheme

/-!
# Authorization along a chain

`walk_to_anchor` asks the governing context whether the first key may sign the packet. It does not
ask again for the keys that sign the certificates behind it.

## Main results

* `chainAuthorized_iff` — when every signer is authorized.
-/

namespace NdnRs.Validator

open Bytes Tlv

/-- What a chain has to satisfy for the schema to hold at every hop: the first key may sign the
packet, each further key may sign the certificate before it, and under the hierarchy floor each
issuer's identity is a prefix of the name of the certificate it issued. -/
structure ChainAuthorized (ctx : SignedTrustContext) (name : Name) (hops : List Hop) : Prop where
  first : ∀ hop ∈ hops.head?, ctx.authorizes name hop.keyName = true
  next : hops.IsChain fun hop hop' => ctx.authorizes hop.cert.name hop'.keyName = true
  floor : ctx.enforceHierarchy = true →
    hops.IsChain fun hop hop' => keyIdentity hop'.keyName <+: hop.cert.name

/-- The certificates that `walk_to_anchor` resolves, in the cache or else from the network, as it
follows issuers from a key name. No signature is looked at, and anchors end the search. -/
def resolvedCerts (cr : Crypto) (v : Validator) (ctx : SignedTrustContext)
    (net : Name → FetchReply) : ℕ → CertCache → Name → List Certificate
  | 0, _, _ => []
  | depth + 1, cache, keyName =>
    match ctx.anchors keyName with
    | some _ => []
    | none =>
      match resolveCert cr v.hasFetcher net cache keyName with
      | (none, _) => []
      | (some cert, cache) =>
        match cert.issuer with
        | none => [cert]
        | some issuer => cert :: resolvedCerts cr v ctx net depth cache issuer

/-- The context authorizes the certificate for the issuer that it names. -/
def IssuerAuthorized (ctx : SignedTrustContext) (cert : Certificate) : Prop :=
  ∀ issuer, cert.issuer = some issuer → ctx.authorizes cert.name issuer = true

variable {cr : Crypto} {v : Validator} {ctx : SignedTrustContext} {now : ℕ}
  {net : Name → FetchReply}

section Anchored

variable {depth : ℕ} {cache : CertCache} {seen : List Name} {s : Signed} {keyName : Name}
  {hops : List Hop}

section

variable (h : Anchored cr v ctx now net depth cache seen s keyName hops)
include h

lemma Anchored.head : ∃ hop tail, hops = hop :: tail ∧ hop.keyName = keyName := by
  cases h with
  | anchor => exact ⟨_, _, rfl, rfl⟩
  | issued => exact ⟨_, _, rfl, rfl⟩

lemma Anchored.last : ∃ hop ∈ hops.getLast?, ctx.anchors hop.keyName = some hop.cert := by
  induction h with
  | anchor _ _ hanc _ _ => exact ⟨_, rfl, hanc⟩
  | issued _ _ _ _ _ _ _ htail ih =>
    obtain ⟨hop, hmem, hanc⟩ := ih
    obtain ⟨first, tail, rfl, -⟩ := htail.head
    exact ⟨hop, by rwa [List.getLast?_cons_cons], hanc⟩

/-- The certificates of a chain, the anchor apart, are those that the walk resolves. -/
lemma Anchored.certs_eq :
    hops.dropLast.map (·.cert) = resolvedCerts cr v ctx net depth cache keyName := by
  induction h with
  | anchor _ _ hanc _ _ => simp [resolvedCerts, hanc]
  | issued _ _ hanc hrsv _ _ hnext htail ih =>
    obtain ⟨first, tail, rfl, -⟩ := htail.head
    rw [List.dropLast_cons_cons, List.map_cons, ih]
    simp [resolvedCerts, hanc, hrsv, (nextHop_eq_ok_iff.1 hnext).1]

lemma Anchored.isChain_iff :
    (hops.IsChain fun hop hop' => ctx.authorizes hop.cert.name hop'.keyName = true) ↔
      ∀ cert ∈ resolvedCerts cr v ctx net depth cache keyName, IssuerAuthorized ctx cert := by
  induction h with
  | anchor _ _ hanc _ _ => simp [resolvedCerts, hanc]
  | issued _ _ hanc hrsv _ _ hnext htail ih =>
    obtain ⟨first, tail, rfl, hfst⟩ := htail.head
    rw [List.isChain_cons_cons, ih, hfst]
    simp [resolvedCerts, hanc, hrsv, IssuerAuthorized, (nextHop_eq_ok_iff.1 hnext).1]

end

end Anchored

private lemma isChain_identity {hops : List Hop} (hflr : ctx.enforceHierarchy = true)
    (h : hops.IsChain fun hop hop' => ctx.authorizes hop.cert.name hop'.keyName = true) :
    hops.IsChain fun hop hop' => keyIdentity hop'.keyName <+: hop.cert.name :=
  h.imp fun _ _ hauth => SignedTrustContext.identity_of_authorizes hflr hauth

lemma chainFor_of_certChain {data : Data} {safe : SafeData} {names : List Name}
    (hacc : (validateChain cr v now net data).1 = .valid safe)
    (hpath : safe.trustPath = .certChain names) :
    ∃ info hops, data.sigInfo = some info ∧
      ChainFor cr v now net (.invalid .invalidSignature) data.name info (data.signed info) hops ∧
      names = hops.map (·.keyName) := by
  cases hinfo : data.sigInfo with
  | none => simp [validateChain, hinfo] at hacc
  | some info =>
    by_cases hdig : info.sigType = .digestSha256
    · simp [validateChain, hinfo, chainVerdict, hdig, Verdict.toResult_eq_valid_iff, hpath] at hacc
    · obtain ⟨⟨hops, hchn, hnam⟩, -⟩ :=
        (validateChain_eq_valid_iff hinfo hdig).1 hacc
      rw [hpath, TrustPath.certChain.injEq] at hnam
      exact ⟨info, hops, rfl, hchn, hnam⟩

/-- **Authorization along an accepted chain.** Let `validate_chain` accept a Data packet with a
certificate chain. The certificates in front of the last one are those that the walk resolves, and
the last one is an anchor of the context that governs the name. The chain is authorized at every
hop if and only if that context authorizes each certificate resolved for the issuer that it names.

**Proof sketch.** The first key was checked by the code. By induction on the chain, the key behind a
certificate is the issuer that the certificate names. -/
theorem chainAuthorized_iff (data : Data) (safe : SafeData) (names : List Name)
    (haccepted : (validateChain cr v now net data).1 = .valid safe)
    (hpath : safe.trustPath = .certChain names) :
    ∃ info firstKey hops, data.sigInfo = some info ∧
      v.locatorKey (.invalid .invalidSignature) info.keyLocator = .ok firstKey ∧
      names = hops.map (·.keyName) ∧
      hops.dropLast.map (·.cert) = resolvedCerts cr v (v.keyring.contextFor data.name) net
        v.maxChain v.certCache firstKey ∧
      (∃ hop ∈ hops.getLast?,
        (v.keyring.contextFor data.name).anchors hop.keyName = some hop.cert) ∧
      (ChainAuthorized (v.keyring.contextFor data.name) data.name hops ↔
        ∀ cert ∈ resolvedCerts cr v (v.keyring.contextFor data.name) net v.maxChain v.certCache
          firstKey, IssuerAuthorized (v.keyring.contextFor data.name) cert) := by
  obtain ⟨info, hops, hinfo, ⟨firstKey, hkey, hauth, hanc⟩, hnam⟩ :=
    chainFor_of_certChain haccepted hpath
  refine ⟨info, firstKey, hops, hinfo, hkey, hnam, hanc.certs_eq, hanc.last, ?_⟩
  rw [← hanc.isChain_iff]
  refine ⟨fun h => h.next, fun h => ⟨fun hop hhop => ?_, h, fun hflr => ?_⟩⟩
  · obtain ⟨first, tail, rfl, hfst⟩ := hanc.head
    obtain rfl : first = hop := by simpa using hhop
    rw [hfst]
    exact hauth
  · exact isChain_identity hflr h

/-! ## A certificate issued outside of the issuer's namespace -/

namespace Leaf

/-- The keys of the organisation, of `alice` and of the key that `alice` certifies as `bob`'s. -/
def rootKey : Bytes :=
  beBytes 32 0x17806f3f20fcbc6910d6e792c5f27d7dffea4f1252afdfa527d742a868ed8783

def aliceKey : Bytes :=
  beBytes 32 0xd5bf4a3fcce717b0388bcc2749ebc148ad9969b23f45ee1b605fd58778576ac4

def bobKey : Bytes :=
  beBytes 32 0xecc1b58727f3f12b3194881a9ecb9de0b28ce7b207230d8e930fe1bce75e256c

def org : Name := [.ofText "org"]

def rootName : Name := [.ofText "org", .ofText "KEY", .ofText "root"]

def aliceName : Name := [.ofText "org", .ofText "alice", .ofText "KEY", .ofText "a1"]

def bobName : Name := [.ofText "org", .ofText "bob", .ofText "KEY", .ofText "b1"]

def doorName : Name := [.ofText "org", .ofText "bob", .ofText "door"]

/-- The organisation's signature on `alice`'s certificate. -/
def aliceSig : Bytes :=
  beBytes 32 0x34ce6ceb864cafa918570341cbf2a8aa0ab251c056de35aff7f39f437e13de4c ++
    beBytes 32 0x949b1f89354a570a9efc12e688db2a3e8557d2245897ab7a6a1d55191f5d4804

/-- The signature by `alice` on a certificate for a name of `bob`. -/
def bobSig : Bytes :=
  beBytes 32 0x6dd91951fd854c6de9dafbb67c138fe4d7eba827b35c7c2e6a8c62caf7bc3e53 ++
    beBytes 32 0xaeba4225f55958a304225839c91bde18fe98c516c373dd56dba30780589c5a01

/-- The signature on `/org/bob/door` with the key so certified. -/
def doorSig : Bytes :=
  beBytes 32 0xbddbc43a663f503e67e97710ece64e6804d7488cb98f57c072e390146ac70314 ++
    beBytes 32 0x59f530f00bd6b908c6f3c4fba521e42f665854a4228917b334fd1b6ae2e8150d

/-- The packet with a name, a content, a key locator and an Ed25519 signature. -/
def packet (name : Name) (content : Bytes) (keyName : Name) (sig : Bytes) : Data :=
  received (signedWire name content (infoValue 5 keyName) fun _ => sig)

def aliceCert : Data := packet aliceName (Spki.wrapEd25519 aliceKey) rootName aliceSig

def bobCert : Data := packet bobName (Spki.wrapEd25519 bobKey) aliceName bobSig

def door : Data := packet doorName [1] bobName doorSig

/-- The three signatures that have been made. -/
def crypto : Crypto :=
  .sample fun key region sig =>
    (key = rootKey && region = aliceCert.signedRegion && sig = aliceSig) ||
    (key = aliceKey && region = bobCert.signedRegion && sig = bobSig) ||
    (key = bobKey && region = door.signedRegion && sig = doorSig)

/-- The hierarchical context of `/org`, with its anchor. -/
def context : SignedTrustContext :=
  (SignedTrustContext.hierarchical org).addAnchor 1
    ⟨rootName, rootKey, 0, 2 ^ 64 - 1, none, none, none, .signatureEd25519⟩

def validator : Validator :=
  { (Validator.new .new).adoptContext context with hasFetcher := true }

/-- The network serves the two certificates under their names. -/
def network (name : Name) : FetchReply :=
  if name = bobName then .data bobCert else if name = aliceName then .data aliceCert else .timeout

def safe : SafeData := ⟨door, .certChain [bobName, aliceName, rootName], 1⟩

def outsider : Outsider crypto := .sample _

end Leaf

open Leaf in
/-- The premises of `Request.genuine_iff_declared` hold of a packet accepted through three hops. -/
theorem genuine_iff_declared_door :
    ∃ hops, (Request.validateChain door).Hops crypto validator 1 network
        ⟨.signatureEd25519, some (.name bobName), none, none, none⟩ hops ∧
      ((∀ hop ∈ hops, outsider.Genuine hop.signed hop.cert.publicKey) ↔
        ∀ hop ∈ hops, hop.signed.sigType.isAsymmetric = true) :=
  Request.genuine_iff_declared outsider (.validateChain door) _ (by decide +kernel) (by decide)
    ⟨safe, by decide +kernel⟩

open Leaf in
/-- The premises of `chainAuthorized_iff` hold of the same packet. -/
theorem chainAuthorized_iff_door :
    ∃ info firstKey hops, door.sigInfo = some info ∧
      validator.locatorKey (.invalid .invalidSignature) info.keyLocator = .ok firstKey ∧
      [bobName, aliceName, rootName] = hops.map Hop.keyName ∧
      hops.dropLast.map Hop.cert = resolvedCerts crypto validator
        (validator.keyring.contextFor door.name) network validator.maxChain validator.certCache
        firstKey ∧
      (∃ hop ∈ hops.getLast?,
        (validator.keyring.contextFor door.name).anchors hop.keyName = some hop.cert) ∧
      (ChainAuthorized (validator.keyring.contextFor door.name) door.name hops ↔
        ∀ cert ∈ resolvedCerts crypto validator (validator.keyring.contextFor door.name) network
          validator.maxChain validator.certCache firstKey,
          IssuerAuthorized (validator.keyring.contextFor door.name) cert) :=
  chainAuthorized_iff (v := validator) door safe [bobName, aliceName, rootName]
    (show (validateChain crypto validator 1 network door).1 = .valid safe by decide +kernel) rfl

open Leaf in
/-- **The holder of a leaf certificate can issue outside of its namespace.** In a hierarchical
context, `alice` certifies a key for a name of `bob`, and `validate_chain` accepts a packet of
`bob`'s signed with it, although the context does not authorize `alice`'s key for that
certificate. -/
theorem leaf_issues_outside_namespace :
    (validateChain crypto validator 1 network door).1 = .valid safe ∧
    safe.trustPath = .certChain [bobName, aliceName, rootName] ∧
    network bobName = .data bobCert ∧ bobCert.name = bobName ∧
    (validator.keyring.contextFor door.name).enforceHierarchy = true ∧
    (validator.keyring.contextFor door.name).authorizes bobName aliceName = false ∧
    ¬ keyIdentity aliceName <+: bobName := by
  exact ⟨by decide +kernel, rfl, if_pos rfl, by decide +kernel, by decide +kernel,
    by decide +kernel, by decide +kernel⟩

end NdnRs.Validator
