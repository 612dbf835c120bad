import NdnRs.Cert.Challenge
import NdnRs.Security.Certificate

/-!
# Issuance policies (`ndn-cert/src/policy.rs`)

Two gates decide about an issued certificate: a `NamespacePolicy` before the challenge, and an
`IssuancePolicy` behind it.
-/

namespace NdnRs

inductive PolicyDecision where
  | allow
  | deny (reason : Str)
  deriving DecidableEq

/-- `NamespacePolicy`: requested name, requester certificate, CA prefix. -/
structure NamespacePolicy where
  evaluate : Name → Option Certificate → Name → PolicyDecision

def keyComponent : NameComponent := .ofText "KEY"

/-- `strip_key_suffix`: the name in front of its last `KEY` component; a name that starts with its
only `KEY`, or has none, is left alone. -/
def stripKeySuffix (name : Name) : Name :=
  match name.reverse.findIdx? (· = keyComponent) with
  | some i =>
    let pos := name.length - 1 - i
    if pos > 0 then name.take pos else name
  | none => name

def stripCaSuffix (name : Name) : Name :=
  if name.getLast? = some (.ofText "CA") then name.dropLast else name

def hierarchicalPolicy : NamespacePolicy where
  evaluate requestedName requesterCert caPrefix :=
    let requesterPrefix :=
      match requesterCert with
      | none => stripCaSuffix caPrefix
      | some cert => stripKeySuffix cert.name
    if requestedName.hasPrefix requesterPrefix then .allow
    else
      .deny (requestedName.display ++ " is not under requester prefix ".toList ++
        requesterPrefix.display)

structure DelegationPolicy where
  rules : List (Name × Name)
  allowNewDevices : Bool

namespace DelegationPolicy

def policy (self : DelegationPolicy) : NamespacePolicy where
  evaluate requestedName requesterCert _ :=
    match requesterCert with
    | none =>
      if self.allowNewDevices then
        if self.rules.any fun (_, allowed) => requestedName.hasPrefix allowed then .allow
        else .deny "no matching rule for new device".toList
      else .deny "new devices not allowed".toList
    | some cert =>
      let requesterIdentity := stripKeySuffix cert.name
      if self.rules.any fun (reqPrefix, allowedPrefix) =>
        requesterIdentity.hasPrefix reqPrefix && requestedName.hasPrefix allowedPrefix then .allow
      else .deny "no matching delegation rule".toList

end DelegationPolicy

inductive BuiltinPolicy where
  | hierarchical
  | delegation (rules : DelegationPolicy)

namespace BuiltinPolicy

/-- The policy as the certificate authority calls it. -/
def policy : BuiltinPolicy → NamespacePolicy
  | .hierarchical => hierarchicalPolicy
  | .delegation rules => rules.policy

/-- The names for which the identity of a certificate may enroll: names below it, or names below
the target of a rule for one of its prefixes. -/
def Covers : BuiltinPolicy → Certificate → Name → Prop
  | .hierarchical, cert, requested => stripKeySuffix cert.name <+: requested
  | .delegation rules, cert, requested =>
    ∃ rule ∈ rules.rules, rule.1 <+: stripKeySuffix cert.name ∧ rule.2 <+: requested

/-- **A requester with a certificate is allowed exactly the names that it covers.** -/
lemma evaluate_some_eq_allow_iff (self : BuiltinPolicy) (requested caPrefix : Name)
    (cert : Certificate) :
    self.policy.evaluate requested (some cert) caPrefix = .allow ↔ self.Covers cert requested := by
  cases self with
  | hierarchical =>
    simp only [policy, hierarchicalPolicy, Covers]
    by_cases h : requested.hasPrefix (stripKeySuffix cert.name) = true
    · simp only [h, if_true, true_iff]
      exact Name.hasPrefix_iff.mp h
    · simp only [h, if_false, reduceCtorEq, false_iff]
      exact fun hpre => h (Name.hasPrefix_iff.mpr hpre)
  | delegation rules =>
    have hany : (rules.rules.any fun (reqPrefix, allowedPrefix) =>
        (stripKeySuffix cert.name).hasPrefix reqPrefix && requested.hasPrefix allowedPrefix) =
          true ↔ Covers (.delegation rules) cert requested := by
      simp [Covers, List.any_eq_true, Name.hasPrefix_iff]
    rw [← hany]
    simp only [policy, DelegationPolicy.policy]
    split_ifs with h
    all_goals simpa using h

end BuiltinPolicy

/-! ## The gate behind the challenge -/

/-- `IssuanceContext`; durations in nanoseconds. -/
structure IssuanceContext where
  certRequest : CertRequest
  challengeType : Str
  attestation : Option AttestationSet
  caPrefix : Name
  defaultValidity : ℕ
  maxValidity : ℕ

inductive IssuanceDecision where
  | issue (validity : ℕ)
  | deny (reason : Str)

structure IssuancePolicy where
  decide : IssuanceContext → IssuanceDecision

def acceptAllIssuance : IssuancePolicy where
  decide ctx := .issue ctx.defaultValidity

end NdnRs
