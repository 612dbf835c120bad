import NdnRs.Lib.Run
import NdnRs.Security.ChainAuthorization

/-!
# Where cached certificates come from

The certificate cache of a validator is filled by the operator, by the fetcher with whatever the
network answers, and by the reflexive pull of a registrant's certificate
(`ndn-mgmt/src/lib.rs`). `validate` and `validate_interest` trust any certificate they find there.

## Main results

* `signer_provenance` — when accepted signers chain to an anchor.
* `validateChain_eq_run` — a chain walk is a run of fetches.
-/

namespace NdnRs

open Bytes Tlv Validator CertFetcher

/-- `reflexive_prefetch_localhop_cert`: the reply to the pull wraps a certificate in its content.
Every failure leaves the cache as it is. -/
def reflexivePrefetch (cr : Crypto) (cache : CertCache) (wrapper : Option Data) : CertCache :=
  match wrapper.bind Data.content with
  | none => cache
  | some content =>
    match Data.decode content with
    | .error _ => cache
    | .ok certData =>
      match Certificate.decode certData with
      | .error _ => cache
      | .ok cert => cache.insert cr cert

/-- What a pull delivers, when it delivers a certificate. -/
def pulledCert (wrapper : Option Data) : Option Certificate := do
  let content ← wrapper.bind Data.content
  let certData ← (Data.decode content).toOption
  (Certificate.decode certData).toOption

lemma reflexivePrefetch_eq (cr : Crypto) (cache : CertCache) (wrapper : Option Data) :
    reflexivePrefetch cr cache wrapper =
      match pulledCert wrapper with
      | none => cache
      | some cert => cache.insert cr cert := by
  unfold reflexivePrefetch pulledCert
  cases wrapper.bind Data.content with
  | none => rfl
  | some content =>
    cases hdata : Data.decode content with
    | error e => simp [hdata, Except.toOption]
    | ok certData =>
      cases hcert : Certificate.decode certData with
      | error e => simp [hdata, hcert, Except.toOption]
      | ok cert => simp [hdata, hcert, Except.toOption]

/-- What a fetch inserts: the certificate in the reply, unless the name is cached already. -/
def fetchedCert (cache : CertCache) (reply : FetchReply) (name : Name) : Option Certificate :=
  match cache.get name, reply with
  | none, .data d => (Certificate.decode d).toOption
  | _, _ => none

lemma fetch_cache_eq (cr : Crypto) (cache : CertCache) (reply : FetchReply) (name : Name) :
    (CertFetcher.fetch cr cache reply name).2 =
      match fetchedCert cache reply name with
      | none => cache
      | some cert => cache.insert cr cert := by
  unfold CertFetcher.fetch fetchedCert
  cases cache.get name with
  | some cert => rfl
  | none =>
    cases reply with
    | timeout => rfl
    | noData => rfl
    | data d =>
      cases hdec : Certificate.decode d with
      | error e => simp [doFetch, hdec, Except.toOption]
      | ok cert => simp [doFetch, hdec, Except.toOption]

/-! ## Chains of valid signatures -/

/-- A certificate that is an anchor of the context, or that carries a valid signature by the key of
a certificate of its issuer that chains to an anchor. -/
inductive ChainsToAnchor (cr : Crypto) (ctx : SignedTrustContext) : Certificate → Prop
  | anchor {cert : Certificate} (h : ctx.anchors cert.name = some cert) : ChainsToAnchor cr ctx cert
  | issued {cert issuer : Certificate} {s : Signed} (hname : cert.issuer = some issuer.name)
      (hsigned : cert.signed? = some s) (hverifies : s.AsymmetricVerifies cr issuer.publicKey)
      (hissuer : ChainsToAnchor cr ctx issuer) : ChainsToAnchor cr ctx cert

/-- More anchors vouch for no fewer certificates. -/
lemma ChainsToAnchor.mono {cr : Crypto} {ctx ctx' : SignedTrustContext} {cert : Certificate}
    (hanc : ∀ name cert, ctx.anchors name = some cert → ctx'.anchors name = some cert)
    (h : ChainsToAnchor cr ctx cert) : ChainsToAnchor cr ctx' cert := by
  induction h with
  | anchor h => exact .anchor (hanc _ _ h)
  | issued hname hsigned hver _ ih => exact .issued hname hsigned hver ih

/-! ## Runs -/

/-- What can happen to a validator's keyring and cache. -/
inductive CacheEvent where
  /-- The operator inserts a certificate into the cache. -/
  | install (cert : Certificate)
  /-- The operator adds a trust anchor. -/
  | addTrustAnchor (now : ℕ) (cert : Certificate)
  /-- The operator adopts a context. -/
  | adoptContext (ctx : SignedTrustContext)
  /-- The operator replaces the ambient schema. -/
  | setSchema (schema : TrustSchema)
  /-- A fetch of a certificate, with the network's reply. -/
  | fetch (name : Name) (reply : FetchReply)
  /-- A reflexive pull, with the reply if there is one. -/
  | reflexivePull (wrapper : Option Data)

structure CacheNode where
  validator : Validator
  installed : List Certificate

namespace CacheNode

variable (cr : Crypto)

def apply (v : Validator) : CacheEvent → Validator
  | .install cert => { v with certCache := v.certCache.insert cr cert }
  | .addTrustAnchor now cert => v.addTrustAnchor cr now cert
  | .adoptContext ctx => v.adoptContext ctx
  | .setSchema schema => v.setSchema schema
  | .fetch name reply => { v with certCache := (CertFetcher.fetch cr v.certCache reply name).2 }
  | .reflexivePull wrapper => { v with certCache := reflexivePrefetch cr v.certCache wrapper }

/-- What an event of the operator installs. -/
def installs : CacheEvent → List Certificate
  | .install cert => [cert]
  | .addTrustAnchor now cert => if cert.isValidAt now then [cert] else []
  | _ => []

/-- What an event of the network delivers into the cache. -/
def delivers (cache : CertCache) : CacheEvent → Option Certificate
  | .fetch name reply => fetchedCert cache reply name
  | .reflexivePull wrapper => pulledCert wrapper
  | _ => none

def step (s : CacheNode) (e : CacheEvent) : CacheNode :=
  ⟨apply cr s.validator e, installs e ++ s.installed⟩

/-- A validator at the start of a run, with any keyring and nothing cached. -/
def start (keyring : Keyring) (maxChain : ℕ) (hasFetcher : Bool) : CacheNode :=
  ⟨⟨keyring, .new, maxChain, hasFetcher⟩, []⟩

/-- In every context that would let its key sign some name, the certificate chains to an anchor. -/
def Vouched (k : Keyring) (cert : Certificate) : Prop :=
  ∀ name, (k.contextFor name).authorizes name cert.name = true →
    ChainsToAnchor cr (k.contextFor name) cert

/-- The certificate is signed with the key of a certificate of the issuer that it names. -/
def IssuedBy (cert issuer : Certificate) : Prop :=
  cert.issuer = some issuer.name ∧
    ∃ s, cert.signed? = some s ∧ s.AsymmetricVerifies cr issuer.publicKey

/-- The issuer of a delivered certificate is known to a context: as an anchor, or as a certificate
that the network delivered before and that is cached, whose key the context lets sign something. -/
def KnownIssuer (s : CacheNode) (ctx : SignedTrustContext) (issuer : Certificate) : Prop :=
  ctx.anchors issuer.name = some issuer ∨
    ((∃ name, s.validator.certCache.get name = some issuer) ∧ issuer ∉ s.installed ∧
      ∃ name, s.validator.keyring.contextFor name = ctx ∧ ctx.authorizes name issuer.name = true)

/-- The check that could be made of a certificate as it is delivered, and that neither `do_fetch`
nor `reflexive_prefetch_localhop_cert` makes: in every context that would let its key sign some
name it is an anchor, or signed by an issuer known there. -/
def Checked (s : CacheNode) (cert : Certificate) : Prop :=
  ∀ name, (s.validator.keyring.contextFor name).authorizes name cert.name = true →
    (s.validator.keyring.contextFor name).anchors cert.name = some cert ∨
      ∃ issuer, IssuedBy cr cert issuer ∧
        KnownIssuer s (s.validator.keyring.contextFor name) issuer

/-- The guard: what the network delivers would pass the check, an anchor is not replaced by another
certificate of its name, and contexts and schemas are set while nothing is cached that the network
delivered. -/
def Guarded (s : CacheNode) : CacheEvent → Prop
  | .install _ => True
  | .fetch name reply => ∀ cert, fetchedCert s.validator.certCache reply name = some cert →
      Checked cr s cert
  | .reflexivePull wrapper => ∀ cert, pulledCert wrapper = some cert → Checked cr s cert
  | .addTrustAnchor _ cert => ∀ old, s.validator.keyring.ambient.anchors cert.name = some old →
      old = cert
  | .adoptContext _ | .setSchema _ => ∀ name cert, s.validator.certCache.get name = some cert →
      cert ∈ s.installed

variable {cr} {e : CacheEvent} {name : Name} {cert : Certificate} {s : CacheNode}

/-- What is cached after an event: an operator's certificate, one that the network delivered, or one
that was cached before. -/
lemma get_apply {v : Validator} (h : (apply cr v e).certCache.get name = some cert) :
    ((cert ∈ installs e ∨ delivers v.certCache e = some cert) ∧ cert.name = name) ∨
      v.certCache.get name = some cert := by
  cases e with
  | install c =>
    rcases CertCache.get_insert_eq_some h with ⟨rfl, hname⟩ | h
    · exact .inl ⟨.inl (List.mem_singleton.2 rfl), hname⟩
    · exact .inr h
  | addTrustAnchor now c =>
    rw [apply, Validator.addTrustAnchor] at h
    split at h
    · rename_i hvld
      rcases CertCache.get_insert_eq_some h with ⟨rfl, hname⟩ | h
      · refine .inl ⟨.inl ?_, hname⟩
        rw [installs, if_pos hvld]
        exact List.mem_singleton.2 rfl
      · exact .inr h
    · exact .inr h
  | adoptContext ctx => exact .inr h
  | setSchema schema => exact .inr h
  | fetch fetched reply =>
    rw [apply, fetch_cache_eq] at h
    split at h
    · exact .inr h
    · rename_i c hc
      rcases CertCache.get_insert_eq_some h with ⟨rfl, hname⟩ | h
      · exact .inl ⟨.inr hc, hname⟩
      · exact .inr h
  | reflexivePull wrapper =>
    rw [apply, reflexivePrefetch_eq] at h
    split at h
    · exact .inr h
    · rename_i c hc
      rcases CertCache.get_insert_eq_some h with ⟨rfl, hname⟩ | h
      · exact .inl ⟨.inr hc, hname⟩
      · exact .inr h

variable (cr) in
/-- What every state of a guarded run satisfies: certificates are cached under their names, and each
was installed by the operator or is vouched for by the keyring. -/
structure Inv (s : CacheNode) : Prop where
  name_eq : ∀ name cert, s.validator.certCache.get name = some cert → cert.name = name
  trusted : ∀ name cert, s.validator.certCache.get name = some cert →
    cert ∈ s.installed ∨ Vouched cr s.validator.keyring cert

/-- A new anchor in the ambient context leaves certificates vouched for. -/
lemma Vouched.addTrustAnchor {v : Validator} {now : ℕ} {c : Certificate}
    (hnew : ∀ old, v.keyring.ambient.anchors c.name = some old → old = c)
    (h : Vouched cr v.keyring cert) : Vouched cr (v.addTrustAnchor cr now c).keyring cert := by
  rw [Validator.addTrustAnchor]
  split
  swap
  · exact h
  rename_i hvalid
  have hamb : v.keyring.ambient.addAnchor now c = v.keyring.ambient.insertAnchor c := if_pos hvalid
  intro name hauth
  have hname := h name
  simp only [Keyring.contextFor, Keyring.addAmbientAnchor] at hname hauth ⊢
  cases hctx : v.keyring.contexts.foldl (Keyring.betterMatch name) none with
  | some ctx =>
    rw [hctx] at hname hauth
    exact hname hauth
  | none =>
    rw [hctx] at hname hauth
    rw [hamb] at hauth ⊢
    refine (hname hauth).mono fun name' cert' hanc => ?_
    rw [Option.getD_none] at hanc ⊢
    rw [SignedTrustContext.anchors_insertAnchor]
    by_cases heq : name' = c.name
    · subst heq
      rw [Function.update_self, hnew cert' hanc]
    · rw [Function.update_of_ne heq, hanc]

private lemma trusted_before (hinv : Inv cr s) (hgrd : Guarded cr s e)
    (h : s.validator.certCache.get name = some cert) :
    cert ∈ s.installed ∨ Vouched cr (apply cr s.validator e).keyring cert := by
  cases e with
  | install c => exact hinv.trusted name cert h
  | fetch fetched reply => exact hinv.trusted name cert h
  | reflexivePull wrapper => exact hinv.trusted name cert h
  | addTrustAnchor now c =>
    exact (hinv.trusted name cert h).imp_right (Vouched.addTrustAnchor hgrd)
  | adoptContext ctx => exact .inl (hgrd name cert h)
  | setSchema schema => exact .inl (hgrd name cert h)

/-- A chain grows by a certificate that passes the check. -/
lemma Inv.vouched_of_checked (hinv : Inv cr s) (h : Checked cr s cert) :
    Vouched cr s.validator.keyring cert := by
  intro name hauth
  rcases h name hauth with hanc | ⟨issuer, ⟨hissuer, signed, hsigned, hver⟩, hknown⟩
  · exact .anchor hanc
  refine .issued hissuer hsigned hver ?_
  rcases hknown with hanc | ⟨⟨name', hget⟩, hnot, name'', hctx, hauth'⟩
  · exact .anchor hanc
  · rw [← hctx] at hauth' ⊢
    exact (hinv.trusted name' issuer hget).resolve_left hnot name'' hauth'

private lemma vouched_of_delivers (hinv : Inv cr s) (hgrd : Guarded cr s e)
    (h : delivers s.validator.certCache e = some cert) :
    Vouched cr (apply cr s.validator e).keyring cert := by
  cases e with
  | fetch name reply => exact hinv.vouched_of_checked (hgrd cert h)
  | reflexivePull wrapper => exact hinv.vouched_of_checked (hgrd cert h)
  | install c => cases h
  | addTrustAnchor now c => cases h
  | adoptContext ctx => cases h
  | setSchema schema => cases h

lemma Inv.step (hinv : Inv cr s) (hgrd : Guarded cr s e) : Inv cr (.step cr s e) := by
  refine ⟨fun name cert h => ?_, fun name cert h => ?_⟩
  · rcases get_apply h with ⟨-, hname⟩ | h
    · exact hname
    · exact hinv.name_eq name cert h
  · rcases get_apply h with ⟨hins | hdlv, -⟩ | h
    · exact .inl (List.mem_append_left _ hins)
    · exact .inr (vouched_of_delivers hinv hgrd hdlv)
    · exact (trusted_before hinv hgrd h).imp_left (List.mem_append_right _)

lemma Inv.start (keyring : Keyring) (maxChain : ℕ) (hasFetcher : Bool) :
    Inv cr (.start keyring maxChain hasFetcher) :=
  ⟨fun _ _ h => absurd h (by simp [CacheNode.start]),
    fun _ _ h => absurd h (by simp [CacheNode.start])⟩

lemma Inv.signer (hinv : Inv cr s) {now : ℕ} {keyName : Name} {info : SignatureInfo}
    (h : s.validator.Signer now name info keyName cert) :
    cert ∈ s.installed ∨ ChainsToAnchor cr (s.validator.keyring.contextFor name) cert := by
  obtain ⟨-, hauth, hget, -⟩ := h
  rw [← hinv.name_eq keyName cert hget] at hauth
  exact (hinv.trusted keyName cert hget).imp_right fun hvouc => hvouc name hauth

/-- **Where accepted signers come from.** Take any run from an empty cache in which every
certificate that the network delivers is signed by an issuer known by then (and no change of the
keyring interferes). In every state reached, `validate` and `validate_interest` accept a packet
that is not DigestSha256-signed only if the certificate of its signer was installed by the operator
or chains through valid signatures to an anchor of the context that governs the packet's name. -/
theorem signer_provenance (keyring : Keyring) (maxChain : ℕ) (hasFetcher : Bool) (s : CacheNode)
    (hreach : Run.Reach (CacheNode.step cr) (Guarded cr) (start keyring maxChain hasFetcher) s) :
    (∀ now data info safe, Data.sigInfo data = some info → info.sigType ≠ .digestSha256 →
      s.validator.validate cr now data = .valid safe →
      ∃ keyName cert, s.validator.Signer now data.name info keyName cert ∧
        (cert ∈ s.installed ∨ ChainsToAnchor cr (s.validator.keyring.contextFor data.name) cert)) ∧
    (∀ now interest info signed, Interest.signed? interest = some (info, signed) →
      info.sigType ≠ .digestSha256 → s.validator.validateInterest cr now interest = .valid →
      ∃ keyName cert, s.validator.Signer now interest.name info keyName cert ∧
        (cert ∈ s.installed ∨
          ChainsToAnchor cr (s.validator.keyring.contextFor interest.name) cert)) := by
  have hinv : Inv cr s :=
    hreach.invariant (Inv cr) (Inv.start keyring maxChain hasFetcher) fun _ _ hs hgrd =>
      hs.step hgrd
  refine ⟨fun now data info safe hinfo hdig hvld => ?_,
    fun now interest info signed hsig hdig hvld => ?_⟩
  · obtain ⟨⟨keyName, cert, hsgr, -, -⟩, -⟩ :=
      (validate_eq_valid_iff hinfo hdig).1 hvld
    exact ⟨keyName, cert, hsgr, hinv.signer hsgr⟩
  · obtain ⟨keyName, cert, hsgr, -⟩ :=
      (validateInterest_eq_valid_iff hsig hdig).1 hvld
    exact ⟨keyName, cert, hsgr, hinv.signer hsgr⟩

/-! ## Chain walks as runs -/

section ChainWalk

variable {v : Validator} {ctx : SignedTrustContext} {now : ℕ} {net : Name → FetchReply}

/-- The cache after fetching certificates in turn. -/
def fetchAll (cr : Crypto) (net : Name → FetchReply) (names : List Name) (cache : CertCache) :
    CertCache :=
  names.foldl (fun cache name => (CertFetcher.fetch cr cache (net name) name).2) cache

lemma fetchAll_append (names names' : List Name) (cache : CertCache) :
    fetchAll cr net (names ++ names') cache =
      fetchAll cr net names' (fetchAll cr net names cache) :=
  List.foldl_append

lemma resolveCert_cache {hasFetcher : Bool} {cache cache' : CertCache} {name : Name}
    {found : Option Certificate} (h : resolveCert cr hasFetcher net cache name = (found, cache')) :
    ∃ names, cache' = fetchAll cr net names cache := by
  unfold resolveCert at h
  split at h
  · exact ⟨[], (congrArg Prod.snd h).symm⟩
  · split at h
    · exact ⟨[name], (congrArg Prod.snd h).symm⟩
    · exact ⟨[], (congrArg Prod.snd h).symm⟩

lemma walkLoop_cache (depth : ℕ) (s : WalkState) :
    ∃ names, (walkLoop cr v ctx now net depth s).2 = fetchAll cr net names s.cache := by
  induction depth generalizing s with
  | zero => exact ⟨[], rfl⟩
  | succ depth ih =>
    rw [walkLoop]
    split
    · exact ⟨[], rfl⟩
    split
    · exact ⟨[], rfl⟩
    split
    · split
      · exact ⟨[], rfl⟩
      · split <;> exact ⟨[], rfl⟩
    split
    · rename_i cache' hrsv
      exact resolveCert_cache hrsv
    · rename_i cert cache' hrsv
      obtain ⟨names, rfl⟩ := resolveCert_cache hrsv
      split
      · exact ⟨names, rfl⟩
      split
      · exact ⟨names, rfl⟩
      · exact ⟨names, rfl⟩
      split
      · exact ⟨names, rfl⟩
      -- the walk goes on from the cache that the fetch left
      rename_i signed issuer _
      obtain ⟨names', hnam'⟩ := ih ⟨fetchAll cr net names s.cache, s.keyName :: s.seen,
        s.chainNames ++ [s.keyName], signed, issuer⟩
      exact ⟨names ++ names', by rw [hnam', fetchAll_append]⟩

lemma chainVerdict_cache (onMiss : Verdict) (name : Name) (info : SignatureInfo) (s : Signed) :
    ∃ names, (v.chainVerdict cr now net onMiss name info s).2 =
      fetchAll cr net names v.certCache := by
  rw [chainVerdict]
  split
  · exact ⟨[], rfl⟩
  split
  · exact ⟨[], rfl⟩
  rename_i firstKey _
  show ∃ names, (v.walkToAnchor cr now net name firstKey s).2 = _
  rw [walkToAnchor]
  split
  · exact ⟨[], rfl⟩
  · exact walkLoop_cache v.maxChain _

private lemma foldl_fetch (names : List Name) (s : CacheNode) :
    names.foldl (fun s name => .step cr s (.fetch name (net name))) s =
      ⟨{ s.validator with certCache := fetchAll cr net names s.validator.certCache },
        s.installed⟩ := by
  induction names generalizing s with
  | nil => rfl
  | cons name names ih => exact ih _

/-- **A chain validation is a run of fetches**: the validator it leaves behind is the one after
fetching some names one after the other. -/
theorem validateChain_eq_run (s : CacheNode) (now : ℕ) (net : Name → FetchReply) (data : Data) :
    ∃ names : List Name,
      (⟨{ s.validator with certCache := (s.validator.validateChain cr now net data).2 },
        s.installed⟩ : CacheNode) =
      names.foldl (fun s name => .step cr s (.fetch name (net name))) s := by
  have hcac : ∃ names, (s.validator.validateChain cr now net data).2 =
      fetchAll cr net names s.validator.certCache := by
    cases hinfo : data.sigInfo with
    | none => exact ⟨[], by simp [validateChain, hinfo, fetchAll]⟩
    | some info =>
      rw [validateChain, hinfo]
      exact chainVerdict_cache _ data.name info _
  obtain ⟨names, hnam⟩ := hcac
  exact ⟨names, by rw [foldl_fetch, hnam]⟩

end ChainWalk

/-! ## A certificate that nobody vouched for -/

namespace Pulled

open Validator.Leaf (rootName rootKey org packet)

/-- The key of `mallory`, whom the operator does not know. -/
def malloryKey : Bytes :=
  beBytes 32 0x415960d5a615e754a36104f6629acfa9f8093f3e0f5ea7527d95085b7110b8b3

def malloryName : Name := [.ofText "org", .ofText "mallory", .ofText "KEY", .ofText "m1"]

/-- The signature by `mallory` on the certificate for its own key. -/
def certSig : Bytes :=
  beBytes 32 0x94734059d504143da554de12329e8530322df5b3592ed1f4d75b86098f8eacfb ++
    beBytes 32 0x2c121cacb939f64f03035ce5d6a38e32e8e57a7f365a6743d7c95217e436120a

def cmdSig : Bytes :=
  beBytes 32 0x3db92f52895ac24d3008f02a0a382ec0b92b8486596c0cb378da959c8bf90b12 ++
    beBytes 32 0xe41c134c252d7a9dbaa07464ac1676cfa40659772d954064afcc52004f64d20c

def malloryCertData : Data :=
  packet malloryName (Spki.wrapEd25519 malloryKey) malloryName certSig

def malloryCert : Certificate := .ofData malloryCertData malloryKey

def cmd : Data := packet [.ofText "org", .ofText "cmd"] [1] malloryName cmdSig

/-- The reply to a reflexive pull: the certificate, wrapped in a Data packet. -/
def wrapper (certData : Data) : Data :=
  Validator.received (Validator.signedWire [.ofText "r", .ofText "cert"] certData.raw
    (writeTlv TlvType.signatureType [0]) fun _ => .replicate 32 0)

/-- The signatures that have been made: two by `mallory`. -/
def crypto : Crypto :=
  .sample fun key region sig =>
    (key = malloryKey && region = malloryCertData.signedRegion && sig = certSig) ||
    (key = malloryKey && region = cmd.signedRegion && sig = cmdSig)

def anchor : Certificate :=
  ⟨rootName, rootKey, 0, 2 ^ 64 - 1, none, none, none, .signatureEd25519⟩

/-- A validator with the hierarchical schema, at the start and after the operator added the
anchor. -/
def before : CacheNode :=
  start (.withAmbient (.ambient TrustSchema.hierarchical)) 5 false

def anchored : CacheNode := .step crypto before (.addTrustAnchor 1 anchor)

def pulled : CacheNode := .step crypto anchored (.reflexivePull (some (wrapper malloryCertData)))

lemma not_asymmetricVerifies_rootKey (s : Signed) : ¬ s.AsymmetricVerifies crypto rootKey := by
  rintro ⟨t, hasym, hver⟩
  have htab := (Crypto.sample_verifies hasym hver).2
  have hkey : Crypto.ed25519RawKey rootKey ≠ malloryKey := by decide
  simp [hkey] at htab

lemma eq_anchor_of_chainsToAnchor {cert : Certificate}
    (h : ChainsToAnchor crypto pulled.validator.keyring.ambient cert) : cert = anchor := by
  induction h with
  | anchor h =>
    rcases anchors_addTrustAnchor (v := before.validator) h with rfl | h
    · rfl
    · cases h
  | issued _ _ hver _ ih =>
    rw [ih] at hver
    exact absurd hver (not_asymmetricVerifies_rootKey _)

end Pulled

/-! ### Certificates that pass the check -/

namespace Pulled

open Validator.Leaf (aliceCert aliceKey aliceName bobCert bobKey bobName door doorName)

def aliceIssued : Certificate := .ofData aliceCert aliceKey

def bobIssued : Certificate := .ofData bobCert bobKey

/-- The operator adds the anchor, `alice`'s certificate is fetched, and the one that `alice` issued
for a key of `bob` is pulled. -/
def deliveries : List CacheEvent :=
  [.addTrustAnchor 1 anchor, .fetch aliceName (.data aliceCert),
    .reflexivePull (some (wrapper bobCert))]

def delivered : CacheNode := deliveries.foldl (.step Validator.Leaf.crypto) before

/-- A certificate that carries an Ed25519 signature by the key of its issuer. -/
lemma issuedBy_ed25519 {cr : Crypto} {cert issuer : Certificate} (s : Signed)
    (hname : cert.issuer = some issuer.name) (hsigned : cert.signed? = some s)
    (hver : cr.Verifies .signatureEd25519 s.region s.sigValue issuer.publicKey) :
    IssuedBy cr cert issuer :=
  ⟨hname, s, hsigned, .signatureEd25519, rfl, hver⟩

lemma issuedBy_anchor : IssuedBy Validator.Leaf.crypto aliceIssued anchor :=
  issuedBy_ed25519 ⟨aliceCert.signedRegion, aliceCert.sigValue, .signatureEd25519⟩
    (by decide +kernel) (by decide +kernel) (by decide +kernel)

lemma issuedBy_alice : IssuedBy Validator.Leaf.crypto bobIssued aliceIssued :=
  issuedBy_ed25519 ⟨bobCert.signedRegion, bobCert.sigValue, .signatureEd25519⟩
    (by decide +kernel) (by decide +kernel) (by decide +kernel)

/-- The state after some of the deliveries. -/
def afterDeliveries (n : ℕ) : CacheNode :=
  (deliveries.take n).foldl (.step Validator.Leaf.crypto) before

/-- There is one context, and its anchor is that of the operator. -/
lemma anchors_deliveries (name : Name) :
    (afterDeliveries 1).validator.keyring.contextFor name =
        (afterDeliveries 1).validator.keyring.ambient ∧
      (afterDeliveries 1).validator.keyring.ambient.anchors anchor.name = some anchor :=
  ⟨rfl, by decide +kernel⟩

lemma admits_deliveries :
    Run.Admits (.step Validator.Leaf.crypto) (Guarded Validator.Leaf.crypto) before deliveries := by
  refine ⟨nofun, fun cert h name _ => .inr ?_, fun cert h name _ => .inr ?_, trivial⟩
  · -- the root signed the certificate
    have hcert : fetchedCert (afterDeliveries 1).validator.certCache (.data aliceCert) aliceName =
        some aliceIssued := by decide +kernel
    obtain rfl := Option.some.inj (hcert.symm.trans h)
    exact ⟨anchor, issuedBy_anchor, .inl (anchors_deliveries name).2⟩
  · -- the certificate of the one that signed it is cached, and was not installed
    have hcert : pulledCert (some (wrapper bobCert)) = some bobIssued := by decide +kernel
    obtain rfl := Option.some.inj (hcert.symm.trans h)
    have hget : (afterDeliveries 2).validator.certCache.get aliceName = some aliceIssued := by
      decide +kernel
    have hnot : aliceIssued ∉ (afterDeliveries 2).installed := by decide +kernel
    have hauth : ((afterDeliveries 2).validator.keyring.contextFor doorName).authorizes doorName
        aliceIssued.name = true := by decide +kernel
    exact ⟨aliceIssued, issuedBy_alice, .inr ⟨⟨aliceName, hget⟩, hnot, doorName, rfl, hauth⟩⟩

end Pulled

open Pulled in
/-- **Certificates that pass the check.** After a fetch and a pull, a packet is accepted whose
signer was certified by the fetched certificate. -/
theorem signer_provenance_delivered :
    delivered.validator.validate Validator.Leaf.crypto 1 Validator.Leaf.door =
      .valid ⟨Validator.Leaf.door, .certChain [Validator.Leaf.bobName], 1⟩ ∧
    bobIssued ∉ delivered.installed ∧
    (∀ now data info safe, Data.sigInfo data = some info → info.sigType ≠ .digestSha256 →
      delivered.validator.validate Validator.Leaf.crypto now data = .valid safe →
      ∃ keyName cert, delivered.validator.Signer now data.name info keyName cert ∧
        (cert ∈ delivered.installed ∨
          ChainsToAnchor Validator.Leaf.crypto (delivered.validator.keyring.contextFor data.name)
            cert)) :=
  ⟨by decide +kernel, by decide +kernel,
    (signer_provenance (Keyring.withAmbient (SignedTrustContext.ambient TrustSchema.hierarchical)) 5
      false delivered (Run.Reach.refl.foldl admits_deliveries)).1⟩

open Pulled in
/-- **A certificate that nobody vouched for is trusted.** After the operator has added an anchor,
the reflexive pull delivers the certificate that `mallory` signed for itself. `validate` then
accepts a packet signed by `mallory`, whose certificate the operator did not install and which does
not chain to an anchor of the governing context. -/
theorem pulled_certificate_trusted :
    Run.Reach (CacheNode.step crypto) (fun _ _ => True) before pulled ∧
    pulled.validator.validate crypto 1 cmd = .valid ⟨cmd, .certChain [malloryName], 1⟩ ∧
    pulled.validator.certCache.get malloryName = some malloryCert ∧
    malloryCert ∉ pulled.installed ∧
    ¬ ChainsToAnchor crypto (pulled.validator.keyring.contextFor cmd.name) malloryCert := by
  refine ⟨(Run.Reach.refl.snoc _ trivial).snoc _ trivial, by decide +kernel, by decide +kernel,
    by decide +kernel, fun h => ?_⟩
  have hname := congrArg Certificate.name (eq_anchor_of_chainsToAnchor h)
  exact absurd hname (by decide +kernel)

end CacheNode

end NdnRs
