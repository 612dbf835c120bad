import NdnRs.Lib.Base64
import NdnRs.Lib.Json
import NdnRs.Security.Verifier

/-!
# Challenges (`ndn-cert/src/challenge/mod.rs`, `attestation.rs`)

A challenge is begun once for a certificate request and then verified in rounds. Between rounds the
certificate authority keeps an opaque JSON state that the challenge returned.
-/

namespace NdnRs

/-- `CertError`. A serialization error has no part in the modelled functions. -/
inductive CertError where
  | requestNotFound (id : Str)
  | challengeFailed (message : Str)
  | challengePending (message : Str)
  | policyDenied (reason : Str)
  | invalidRequest (message : Str)
  | security (e : TrustError)
  | name (name : Str)
  deriving DecidableEq

/-- `CertRequest`: key name, base64 key and the requested window in milliseconds. -/
structure CertRequest where
  name : Str
  publicKey : Str
  notBefore : ℕ
  notAfter : ℕ

/-! ## Attestations -/

inductive Combinator where
  | single
  | allOf
  | anyOf
  | nofM (required total : ℕ)
  deriving DecidableEq

structure ChallengeAttestation where
  kind : Str
  performedAt : ℕ
  handlerName : Option Str
  handlerVersion : Option Str
  evidence : Json.Fields
  signature : Option Str

namespace ChallengeAttestation

def ofKind (kind : Str) : ChallengeAttestation := ⟨kind, 0, none, none, [], none⟩

end ChallengeAttestation

structure AttestationSet where
  combinator : Combinator
  leaves : List ChallengeAttestation

namespace AttestationSet

def single (leaf : ChallengeAttestation) : AttestationSet := ⟨.single, [leaf]⟩

def stamp (self : AttestationSet) (ts : ℕ) : AttestationSet :=
  { self with leaves := self.leaves.map fun leaf =>
      if leaf.performedAt = 0 then { leaf with performedAt := ts } else leaf }

end AttestationSet

/-! ## Handlers -/

structure ChallengeState where
  challengeType : Str
  data : Json

inductive ChallengeOutcome where
  | approved (attestation : Option AttestationSet)
  | pending (statusMessage : Str) (remainingTries remainingTimeSecs : ℕ)
      (nextState : ChallengeState)
  | denied (reason : Str)

/-- `ChallengeHandler`: both methods also change what lies outside the authority. -/
structure ChallengeHandler (σ : Type) where
  challengeType : Str
  begin : CertRequest → σ → Except CertError ChallengeState × σ
  verify : ChallengeState → Json.Fields → σ → Except CertError ChallengeOutcome × σ

end NdnRs
