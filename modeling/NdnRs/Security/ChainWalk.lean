import NdnRs.Security.Validator

/-!
# Chain validation (`ndn-security/src/validator/chain.rs`)

## Main definitions

* `validateChain`, `validateInterestChain` — they follow key locators from the packet through
  certificates until an anchor of the governing context ends the walk.

## Implementation notes

The network is a function from certificate names to replies: a walk never asks twice for one name,
since it stops at a name it has seen. The cache is threaded through the walk, because the fetcher
stores a reply under the name the reply carries.
-/

namespace NdnRs

inductive WalkOutcome where
  | anchored (chainNames : List Name)
  | pending
  | invalid (e : TrustError)

/-- The variables of the loop in `walk_to_anchor`. -/
structure WalkState where
  cache : CertCache
  seen : List Name
  chainNames : List Name
  current : Signed
  keyName : Name

/-- What a certificate's own signature check looks at, when it has the fields for one. -/
def Certificate.signed? (cert : Certificate) : Option Signed := do
  let region ← cert.signedRegion
  let sigValue ← cert.sigValue
  return ⟨region, sigValue, cert.sigType⟩

namespace Validator

variable (cr : Crypto) (v : Validator)

/-- `resolve_cert`: the cache first, then the fetcher if there is one. -/
def resolveCert (hasFetcher : Bool) (net : Name → FetchReply) (cache : CertCache)
    (name : Name) : Option Certificate × CertCache :=
  match cache.get name with
  | some cert => (some cert, cache)
  | none =>
    if hasFetcher then
      let (result, cache) := CertFetcher.fetch cr cache (net name) name
      (result.toOption, cache)
    else (none, cache)

/-- The checks on a certificate that must name its own issuer: the signed thing to verify next and
the key name to verify it with. -/
def nextHop (cert : Certificate) : Except TrustError (Signed × Name) :=
  match cert.issuer with
  | none => .error (.certNotFound ("cert has no issuer: ".toList ++ cert.name.display))
  | some issuer =>
    match cert.signedRegion with
    | none => .error (.certNotFound ("cert missing signed region: ".toList ++ cert.name.display))
    | some region =>
      match cert.sigValue with
      | none => .error (.certNotFound ("cert missing sig value: ".toList ++ cert.name.display))
      | some sigValue => .ok (⟨region, sigValue, cert.sigType⟩, issuer)

/-- The loop of `walk_to_anchor`, with the rounds that are left. -/
def walkLoop (cr : Crypto) (v : Validator) (ctx : SignedTrustContext) (now : ℕ)
    (net : Name → FetchReply) : ℕ → WalkState → WalkOutcome × CertCache
  | 0, s => (.invalid (.chainTooDeep v.maxChain), s.cache)
  | depth + 1, s =>
    if s.keyName ∈ s.seen then (.invalid (.chainCycle s.keyName.display), s.cache)
    else if ctx.isRevoked s.keyName then (.invalid (.revoked s.keyName.display), s.cache)
    else
      match ctx.anchors s.keyName with
      | some anchor =>
        if anchor.isValidAt now = false then
          (.invalid (.certNotFound ("expired trust anchor: ".toList ++ s.keyName.display)), s.cache)
        else
          match cr.verify s.current anchor.publicKey with
          | .ok .valid => (.anchored (s.chainNames ++ [s.keyName]), s.cache)
          | .ok .invalid => (.invalid .invalidSignature, s.cache)
          | .error e => (.invalid e, s.cache)
      | none =>
        match resolveCert cr v.hasFetcher net s.cache s.keyName with
        | (none, cache) => (.pending, cache)
        | (some cert, cache) =>
          if cert.isValidAt now = false then
            (.invalid (.certNotFound (expiredMessage s.keyName)), cache)
          else
            match cr.verify s.current cert.publicKey with
            | .ok .invalid => (.invalid .invalidSignature, cache)
            | .error e => (.invalid e, cache)
            | .ok .valid =>
              match nextHop cert with
              | .error e => (.invalid e, cache)
              | .ok (signed, issuer) =>
                walkLoop cr v ctx now net depth
                  { cache := cache
                    seen := s.keyName :: s.seen
                    chainNames := s.chainNames ++ [s.keyName]
                    current := signed
                    keyName := issuer }

/-- `walk_to_anchor`. The context's schema is consulted for the first key only. -/
def walkToAnchor (now : ℕ) (net : Name → FetchReply)
    (contextName firstKey : Name) (first : Signed) : WalkOutcome × CertCache :=
  let ctx := v.keyring.contextFor contextName
  if ctx.authorizes contextName firstKey = false then (.invalid .schemaMismatch, v.certCache)
  else walkLoop cr v ctx now net v.maxChain ⟨v.certCache, [], [], first, firstKey⟩

/-- The verdict on the outcome of a walk. -/
def ofWalk : WalkOutcome → Verdict
  | .anchored chainNames => .valid (.certChain chainNames)
  | .pending => .pending
  | .invalid e => .invalid e

variable {path : TrustPath}

lemma ofWalk_eq_valid_iff {outcome : WalkOutcome} :
    ofWalk outcome = .valid path ↔
      ∃ names, outcome = .anchored names ∧ path = .certChain names := by
  cases outcome <;> simp [ofWalk, eq_comm]

/-- The common part of `validate_chain_inner` and `validate_interest_chain`, which differ in what a
digest that is not cached means. -/
def chainVerdict (now : ℕ) (net : Name → FetchReply)
    (onMiss : Verdict) (name : Name) (info : SignatureInfo) (s : Signed) : Verdict × CertCache :=
  if info.sigType = .digestSha256 then
    (.ofOutcome .digestSha256 (cr.verify s []), v.certCache)
  else
    match v.locatorKey onMiss info.keyLocator with
    | .error verdict => (verdict, v.certCache)
    | .ok firstKey =>
      let (outcome, cache) := walkToAnchor cr v now net name firstKey s
      (ofWalk outcome, cache)

/-- `Validator::validate_chain`, with the cache it leaves behind. -/
def validateChain (now : ℕ) (net : Name → FetchReply)
    (data : Data) : ValidationResult × CertCache :=
  match data.sigInfo with
  | none => (.invalid .invalidSignature, v.certCache)
  | some info =>
    let (verdict, cache) := chainVerdict cr v now net (.invalid .invalidSignature) data.name info
      (data.signed info)
    (verdict.toResult now data, cache)

/-- `Validator::validate_interest_chain`, with the cache it leaves behind. -/
def validateInterestChain (now : ℕ) (net : Name → FetchReply)
    (interest : Interest) : InterestValidationOutcome × CertCache :=
  match interest.signed? with
  | none => (.invalid .invalidSignature, v.certCache)
  | some (info, s) =>
    let (verdict, cache) := chainVerdict cr v now net .pending interest.name info s
    (verdict.toOutcome, cache)

/-! ## Chains to an anchor -/

structure Hop where
  signed : Signed
  keyName : Name
  cert : Certificate

/-- The chains that `walk_to_anchor` accepts, within a number of rounds and from a cache and a set
of names already visited. -/
inductive Anchored (cr : Crypto) (v : Validator) (ctx : SignedTrustContext) (now : ℕ)
    (net : Name → FetchReply) : ℕ → CertCache → List Name → Signed → Name → List Hop → Prop
  | anchor {depth : ℕ} {cache : CertCache} {seen : List Name} {s : Signed} {keyName : Name}
      {anchor : Certificate} (hseen : keyName ∉ seen) (hrevoked : ctx.isRevoked keyName = false)
      (hanchor : ctx.anchors keyName = some anchor) (hvalid : anchor.isValidAt now = true)
      (hverifies : s.VerifiesWith cr anchor.publicKey) :
      Anchored cr v ctx now net (depth + 1) cache seen s keyName [⟨s, keyName, anchor⟩]
  | issued {depth : ℕ} {cache cache' : CertCache} {seen : List Name} {s signed : Signed}
      {keyName issuer : Name} {cert : Certificate} {hops : List Hop} (hseen : keyName ∉ seen)
      (hrevoked : ctx.isRevoked keyName = false) (hanchor : ctx.anchors keyName = none)
      (hresolve : resolveCert cr v.hasFetcher net cache keyName = (some cert, cache'))
      (hvalid : cert.isValidAt now = true) (hverifies : s.VerifiesWith cr cert.publicKey)
      (hnext : nextHop cert = .ok (signed, issuer))
      (htail : Anchored cr v ctx now net depth cache' (keyName :: seen) signed issuer hops) :
      Anchored cr v ctx now net (depth + 1) cache seen s keyName (⟨s, keyName, cert⟩ :: hops)

variable {cr : Crypto} {v : Validator} {ctx : SignedTrustContext} {now : ℕ}
  {net : Name → FetchReply}

lemma nextHop_eq_ok_iff {cert : Certificate} {signed : Signed} {issuer : Name} :
    nextHop cert = .ok (signed, issuer) ↔
      cert.issuer = some issuer ∧ cert.signed? = some signed := by
  unfold nextHop Certificate.signed?
  cases cert.issuer with
  | none => simp
  | some issuer' =>
    cases cert.signedRegion with
    | none => simp
    | some region =>
      cases cert.sigValue with
      | none => simp
      | some sigValue => simp [and_comm]

variable {s : Signed} {info : SignatureInfo}

lemma anchored_succ_iff {depth : ℕ} {cache : CertCache} {seen : List Name}
    {keyName : Name} {hops : List Hop} :
    Anchored cr v ctx now net (depth + 1) cache seen s keyName hops ↔
      keyName ∉ seen ∧ ctx.isRevoked keyName = false ∧
      ((∃ anchor, ctx.anchors keyName = some anchor ∧ anchor.isValidAt now = true ∧
          s.VerifiesWith cr anchor.publicKey ∧ hops = [⟨s, keyName, anchor⟩]) ∨
        (ctx.anchors keyName = none ∧ ∃ cert cache' signed issuer tail,
          resolveCert cr v.hasFetcher net cache keyName = (some cert, cache') ∧
          cert.isValidAt now = true ∧ s.VerifiesWith cr cert.publicKey ∧
          nextHop cert = .ok (signed, issuer) ∧
          Anchored cr v ctx now net depth cache' (keyName :: seen) signed issuer tail ∧
          hops = ⟨s, keyName, cert⟩ :: tail)) := by
  constructor
  · intro h
    cases h with
    | anchor hseen hrev hanc hvld hver =>
      exact ⟨hseen, hrev, .inl ⟨_, hanc, hvld, hver, rfl⟩⟩
    | issued hseen hrev hanc hrsv hvld hver hnext htail =>
      exact ⟨hseen, hrev, .inr ⟨hanc, _, _, _, _, _, hrsv, hvld, hver, hnext, htail, rfl⟩⟩
  · rintro ⟨hseen, hrev, ⟨anchor, hanc, hvld, hver, rfl⟩ |
      ⟨hanc, cert, cache', signed, issuer, tail, hrsv, hvld, hver, hnext, htail,
        rfl⟩⟩
    · exact .anchor hseen hrev hanc hvld hver
    · exact .issued hseen hrev hanc hrsv hvld hver hnext htail

/-- **The loop ends at an anchor exactly along a chain**, and reports the key names of its hops. -/
theorem walkLoop_eq_anchored_iff (depth : ℕ) (s : WalkState) (names : List Name) :
    (walkLoop cr v ctx now net depth s).1 = .anchored names ↔
      ∃ hops, Anchored cr v ctx now net depth s.cache s.seen s.current s.keyName hops ∧
        names = s.chainNames ++ hops.map (·.keyName) := by
  induction depth generalizing s with
  | zero =>
    refine iff_of_false (by simp [walkLoop]) ?_
    rintro ⟨hops, h, -⟩
    cases h
  | succ depth ih =>
    simp only [anchored_succ_iff]
    rw [walkLoop]
    by_cases hseen : s.keyName ∈ s.seen
    · simp [hseen]
    cases hrev : ctx.isRevoked s.keyName with
    | true => simp [hseen]
    | false =>
      cases hanc : ctx.anchors s.keyName with
      | some anchor =>
        cases hvld : anchor.isValidAt now with
        | false => simp [hseen, hvld]
        | true =>
          rcases hvfy : cr.verify s.current anchor.publicKey with e | _ | _ <;>
            simp [hseen, hvld, Signed.VerifiesWith, hvfy, eq_comm (a := names)]
      | none =>
        rcases hrsv : resolveCert cr v.hasFetcher net s.cache s.keyName with ⟨_ | cert, cache'⟩
        · simp [hseen]
        cases hvld : cert.isValidAt now with
        | false => simp [hseen, hvld]
        | true =>
          rcases hvfy : cr.verify s.current cert.publicKey with e | _ | _
          · simp [hseen, hvld, Signed.VerifiesWith, hvfy]
          · rcases hnext : nextHop cert with e | ⟨signed, issuer⟩
            · simp [hseen, hvld, hvfy, hnext]
            · simp [hseen, hvld, Signed.VerifiesWith, hvfy, hnext, ih]
          · simp [hseen, hvld, Signed.VerifiesWith, hvfy]

/-! ## When a packet is accepted -/

/-- The chain that a fetch-enabled acceptance rests on: the first key is the one the locator names
and is authorized for the packet's name, and the chain leads to an anchor of the governing
context. -/
def ChainFor (cr : Crypto) (v : Validator) (now : ℕ) (net : Name → FetchReply) (onMiss : Verdict)
    (name : Name) (info : SignatureInfo) (s : Signed) (hops : List Hop) : Prop :=
  ∃ firstKey, v.locatorKey onMiss info.keyLocator = .ok firstKey ∧
    (v.keyring.contextFor name).authorizes name firstKey = true ∧
    Anchored cr v (v.keyring.contextFor name) now net v.maxChain v.certCache [] s firstKey hops

/-- The shared decision accepts a packet that is not DigestSha256-signed exactly when there is such
a chain. -/
lemma chainVerdict_eq_valid_iff {onMiss : Verdict} {name : Name}
    (hdig : info.sigType ≠ .digestSha256) (hmiss : ∀ path, onMiss ≠ .valid path) :
    (chainVerdict cr v now net onMiss name info s).1 = .valid path ↔
      ∃ hops, ChainFor cr v now net onMiss name info s hops ∧
        path = .certChain (hops.map (·.keyName)) := by
  unfold chainVerdict ChainFor
  rw [if_neg hdig]
  cases hkey : v.locatorKey onMiss info.keyLocator with
  | error verdict =>
    have hver : verdict ≠ .valid path := by
      rcases locatorKey_eq_error hkey with rfl | rfl
      · exact hmiss path
      · simp
    simp [hver]
  | ok firstKey =>
    unfold walkToAnchor
    cases hauth : (v.keyring.contextFor name).authorizes name firstKey with
    | false => simp [hauth, ofWalk]
    | true =>
      have hwalk : ∀ names, (walkLoop cr v (v.keyring.contextFor name) now net v.maxChain
          ⟨v.certCache, [], [], s, firstKey⟩).1 = .anchored names ↔ _ :=
        walkLoop_eq_anchored_iff v.maxChain ⟨v.certCache, [], [], s, firstKey⟩
      simp only [hauth, Bool.true_eq_false, if_false, ofWalk_eq_valid_iff, hwalk, Except.ok.injEq,
        exists_eq_left', true_and]
      constructor
      · rintro ⟨names, ⟨hops, hchn, rfl⟩, hpath⟩
        exact ⟨hops, hchn, hpath⟩
      · rintro ⟨hops, hchn, hpath⟩
        exact ⟨_, ⟨hops, hchn, rfl⟩, hpath⟩

/-- **Acceptance by `validate_chain`.** -/
theorem validateChain_eq_valid_iff {data : Data} {safe : SafeData}
    (hinfo : data.sigInfo = some info) (hdig : info.sigType ≠ .digestSha256) :
    (validateChain cr v now net data).1 = .valid safe ↔
      (∃ hops, ChainFor cr v now net (.invalid .invalidSignature) data.name info
          (data.signed info) hops ∧ safe.trustPath = .certChain (hops.map (·.keyName))) ∧
      Data.decode data.raw = .ok safe.inner ∧ safe.verifiedAt = now := by
  rw [validateChain, hinfo]
  simp only [Verdict.toResult_eq_valid_iff]
  rw [chainVerdict_eq_valid_iff hdig (by simp)]

/-- **Acceptance by `validate_interest_chain`.** -/
theorem validateInterestChain_eq_valid_iff {interest : Interest}
    (hsig : interest.signed? = some (info, s)) (hdig : info.sigType ≠ .digestSha256) :
    (validateInterestChain cr v now net interest).1 = .valid ↔
      ∃ hops, ChainFor cr v now net .pending interest.name info s hops := by
  rw [validateInterestChain, hsig]
  simp only [Verdict.toOutcome_eq_valid_iff]
  constructor
  · rintro ⟨path, h⟩
    obtain ⟨hops, hchn, -⟩ := (chainVerdict_eq_valid_iff hdig (by simp)).1 h
    exact ⟨hops, hchn⟩
  · rintro ⟨hops, hchn⟩
    exact ⟨_, (chainVerdict_eq_valid_iff hdig (by simp)).2 ⟨hops, hchn, rfl⟩⟩

end Validator

end NdnRs
