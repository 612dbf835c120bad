import NdnRs.Cert.Challenge
import NdnRs.Security.Certificate

/-!
# The possession challenge (`ndn-cert/src/challenge/possession.rs`)

The requester names a certificate that the authority trusts and signs the nonce of the request with
its key. The nonce is the requested key name.
-/

namespace NdnRs

namespace Possession

def kind : Str := "possession".toList

def nonceKey : Str := "nonce".toList

def nonce (state : ChallengeState) : Str := ((state.data.get nonceKey).bind Json.asStr).getD []

/-- A text parameter of a round. -/
def textParameter (parameters : Json.Fields) (key : Str) : Option Str :=
  (parameters.lookup key).bind Json.asStr

def certName (parameters : Json.Fields) : Option Str := textParameter parameters "cert_name".toList

/-- The first trusted certificate with the given name. -/
def trustedCert (trusted : List Certificate) (certName : Str) : Option Certificate :=
  trusted.find? fun c => c.name.display = certName

def verify (cr : Crypto) (trusted : List Certificate) (state : ChallengeState)
    (parameters : Json.Fields) : Except CertError ChallengeOutcome :=
  match certName parameters with
  | none => .error (.invalidRequest "missing 'cert_name'".toList)
  | some certNameStr =>
    match textParameter parameters "signature".toList with
    | none => .error (.invalidRequest "missing 'signature'".toList)
    | some signatureB64 =>
      match Base64.decode signatureB64 with
      | none => .error (.invalidRequest "invalid base64 signature".toList)
      | some sigBytes =>
        match trustedCert trusted certNameStr with
        | none => .ok (.denied ("certificate not trusted: ".toList ++ certNameStr))
        | some cert =>
          match cr.ed25519Verifier (nonce state).bytes sigBytes cert.publicKey with
          | .error e => .error (.security e)
          | .ok .valid => .ok (.approved none)
          | .ok .invalid => .ok (.denied "signature verification failed".toList)

/-- The round names the trusted certificate, and carries a signature over the nonce that verifies
with its key. -/
def Proves (cr : Crypto) (trusted : List Certificate) (state : ChallengeState)
    (parameters : Json.Fields) (cert : Certificate) : Prop :=
  (certName parameters).bind (trustedCert trusted) = some cert ∧
    ∃ sigBytes, (textParameter parameters "signature".toList).bind Base64.decode = some sigBytes ∧
      cr.ed25519Verifier (nonce state).bytes sigBytes cert.publicKey = .ok .valid

/-- **Approval means possession of a trusted certificate.** -/
lemma proves_of_verify {cr : Crypto} {trusted : List Certificate} {state : ChallengeState}
    {parameters : Json.Fields} {attestation : Option AttestationSet}
    (h : verify cr trusted state parameters = .ok (.approved attestation)) :
    ∃ cert, Proves cr trusted state parameters cert := by
  unfold verify at h
  cases hname : certName parameters with
  | none => simp [hname] at h
  | some certNameStr =>
    cases hsig : textParameter parameters "signature".toList with
    | none => simp only [hname, hsig, reduceCtorEq] at h
    | some signatureB64 =>
      cases hdec : Base64.decode signatureB64 with
      | none => simp only [hname, hsig, hdec, reduceCtorEq] at h
      | some sigBytes =>
        cases hcert : trustedCert trusted certNameStr with
        | none => simp only [hname, hsig, hdec, hcert, Except.ok.injEq, reduceCtorEq] at h
        | some cert =>
          refine ⟨cert, ?_, sigBytes, ?_, ?_⟩
          · rw [hname, Option.bind_some, hcert]
          · rw [hsig, Option.bind_some, hdec]
          simp only [hname, hsig, hdec, hcert] at h
          rcases hver : cr.ed25519Verifier (nonce state).bytes sigBytes cert.publicKey with
            e | (_ | _)
          · simp [hver] at h
          · rfl
          · simp [hver] at h

end Possession

/-- `PossessionChallenge` with the given trusted certificates. -/
def possessionChallenge {σ : Type} (cr : Crypto) (trusted : List Certificate) :
    ChallengeHandler σ where
  challengeType := Possession.kind
  begin req w := (.ok ⟨Possession.kind, .obj [(Possession.nonceKey, .str req.name)]⟩, w)
  verify state parameters w := (Possession.verify cr trusted state parameters, w)

end NdnRs
