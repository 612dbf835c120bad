import NdnRs.Cert.ApprovalStore
import NdnRs.Security.SignatureScheme

/-!
# Approvals over the network (`ndn-identity/src/device_approval_net.rs`)

A certificate authority pulls the approval of a pending enrollment from the device that offers it.
The reply wraps a Data packet named after the enrollment, which the authority hands to its
validator; on `Valid` the approval is recorded.

## Main results

* `recorded_approval_genuine_iff` — when an approval is genuine.
-/

namespace NdnRs

open Bytes Tlv TlvType

structure PendingApproval where
  requestId : Str
  certName : Str

/-- The errors of `pull_and_validate_approval`: of the fetch and of the enrollment. -/
inductive IdentityError where
  | app (message : Str)
  | enrollment (message : Str)
  deriving DecidableEq

/-- `ApprovalSink::record_validated`, on states of the sink. -/
structure ApprovalSink (S : Type) where
  recordValidated : S → Str → Str → Bytes → S

/-- The store of pending approvals is a sink. -/
def PendingApprovalStore.sink : ApprovalSink PendingApprovalStore where
  recordValidated s id approver signature := (s.approveValidated id approver signature).2

/-- The approver that is recorded: the key locator name of the approval, if it has one. -/
def approverText (inner : Data) : Str :=
  ((inner.sigInfo.bind SignatureInfo.keyLocatorName).map Name.display).getD []

/-- What the network answers to the pull: the name is the approver's reflexive name with the suffix
`approve`, and the parameters are those of the pending request. -/
abbrev ApprovalNet := Name → PendingApproval → Except Str Data

/-- The first half of `pull_and_validate_approval`: the packet inside the reply to the pull, `none`
when the approver declines. -/
def fetchApproval (network : ApprovalNet) (approverForward : Interest) (pending : PendingApproval) :
    Except IdentityError (Option Data) :=
  match approverForward.reflexiveName with
  | none => .error (.enrollment "approver forward Interest carries no reflexive name".toList)
  | some reflexive =>
    match network (reflexive.append (Str.bytes "approve".toList)) pending with
    | .error e => .error (.app e)
    | .ok reverse =>
      match reverse.content with
      | none => .ok none
      | some innerWire =>
        if innerWire = [] then .ok none
        else
          match Data.decode innerWire with
          | .error e => .error (.enrollment ("decode approval data: ".toList ++ e.display))
          | .ok inner => .ok (some inner)

section Pull

variable {S : Type} (cr : Crypto) (validator : Validator) (now : ℕ) (network : ApprovalNet)
  (sink : ApprovalSink S) (s : S) (approverForward : Interest) (pending : PendingApproval)

/-- `pull_and_validate_approval`, with the sink's state after it. -/
def pullAndValidateApproval : Except IdentityError Bool × S :=
  match fetchApproval network approverForward pending with
  | .error e => (.error e, s)
  | .ok none => (.ok false, s)
  | .ok (some inner) =>
    -- the name binds the approval to this enrollment
    if approvalDataName pending.certName pending.requestId ≠ some inner.name then (.ok false, s)
    else
      match validator.validate cr now inner with
      | .valid _ =>
        (.ok true, sink.recordValidated s pending.requestId (approverText inner) inner.sigValue)
      | .invalid _ => (.ok false, s)
      | .pending => (.ok false, s)

variable {cr validator now network sink s approverForward pending}

/-- **What a pull can do.** It leaves the sink alone, or it records the approval of a delivered
packet that has the enrollment's name and that the validator accepts. -/
lemma pullAndValidateApproval_cases :
    ((pullAndValidateApproval cr validator now network sink s approverForward pending).1 ≠
        .ok true ∧
      (pullAndValidateApproval cr validator now network sink s approverForward pending).2 = s) ∨
    ∃ inner safe, fetchApproval network approverForward pending = .ok (some inner) ∧
      approvalDataName pending.certName pending.requestId = some inner.name ∧
      validator.validate cr now inner = .valid safe ∧
      pullAndValidateApproval cr validator now network sink s approverForward pending =
        (.ok true,
          sink.recordValidated s pending.requestId (approverText inner) inner.sigValue) := by
  unfold pullAndValidateApproval
  cases fetchApproval network approverForward pending with
  | error e => exact .inl ⟨by simp, rfl⟩
  | ok delivered =>
    cases delivered with
    | none => exact .inl ⟨by simp, rfl⟩
    | some inner =>
      by_cases hname : approvalDataName pending.certName pending.requestId = some inner.name
      · simp only [hname, ne_eq, not_true_eq_false, if_false]
        cases hvld : validator.validate cr now inner with
        | invalid e => exact .inl ⟨by simp, rfl⟩
        | pending => exact .inl ⟨by simp, rfl⟩
        | valid safe => exact .inr ⟨inner, safe, rfl, rfl, hvld, rfl⟩
      · exact .inl (by simp [hname])

end Pull

/-! ## Who is behind a recorded approval -/

/-- A packet that `validate` accepts is genuinely signed by an authorized key exactly when it
declares an asymmetric signature. -/
lemma Validator.genuine_iff_of_valid {cr : Crypto} (out : Outsider cr) {v : Validator} {now : ℕ}
    {data : Data} {safe : SafeData} (hvld : v.validate cr now data = .valid safe) :
    ∃ info, data.sigInfo = some info ∧
      ((∃ keyName cert, v.Signer now data.name info keyName cert ∧
        (data.signed info).VerifiesWith cr cert.publicKey ∧
        out.Genuine (data.signed info) cert.publicKey) ↔ info.sigType.isAsymmetric = true) := by
  cases hinfo : data.sigInfo with
  | none => simp [validate, hinfo] at hvld
  | some info =>
    refine ⟨info, rfl, ?_⟩
    constructor
    · rintro ⟨keyName, cert, -, hver, hgen⟩
      exact (out.genuine_iff hver).1 hgen
    intro hasym
    have hdig : info.sigType ≠ .digestSha256 := by
      intro h
      rw [h] at hasym
      exact absurd hasym (by decide)
    obtain ⟨⟨keyName, cert, hsgr, hver, -⟩, -⟩ :=
      (validate_eq_valid_iff hinfo hdig).1 hvld
    exact ⟨keyName, cert, hsgr, hver, (out.genuine_iff hver).2 hasym⟩

/-- **Recorded approvals.** For every validator, pending enrollment, sink and reply: if an approval
is recorded, then it is that of a delivered packet with the enrollment's approval name, and this
packet carries a genuine signature by a key that the trust schema authorizes for the name if and
only if its SignatureInfo declares RSA, ECDSA or Ed25519. -/
theorem recorded_approval_genuine_iff {S : Type} {cr : Crypto} (out : Outsider cr)
    (validator : Validator) (now : ℕ) (network : ApprovalNet) (sink : ApprovalSink S) (s : S)
    (approverForward : Interest) (pending : PendingApproval)
    (hrecorded :
      (pullAndValidateApproval cr validator now network sink s approverForward pending).1 =
        .ok true ∨
      (pullAndValidateApproval cr validator now network sink s approverForward pending).2 ≠ s) :
    ∃ inner info, fetchApproval network approverForward pending = .ok (some inner) ∧
      approvalDataName pending.certName pending.requestId = some inner.name ∧
      inner.sigInfo = some info ∧
      (pullAndValidateApproval cr validator now network sink s approverForward pending).2 =
        sink.recordValidated s pending.requestId (approverText inner) inner.sigValue ∧
      ((∃ keyName cert, validator.Signer now inner.name info keyName cert ∧
        (inner.signed info).VerifiesWith cr cert.publicKey ∧
        out.Genuine (inner.signed info) cert.publicKey) ↔ info.sigType.isAsymmetric = true) := by
  rcases pullAndValidateApproval_cases with ⟨hres, hstat⟩ | hcase
  · rcases hrecorded with h | h
    · exact absurd h hres
    · exact absurd hstat h
  · obtain ⟨inner, safe, hdlv, hname, hvld, heq⟩ := hcase
    obtain ⟨info, hinfo, hiff⟩ := Validator.genuine_iff_of_valid out hvld
    exact ⟨inner, info, hdlv, hname, hinfo, by rw [heq], hiff⟩

/-! ## An approval that anyone can compute -/

namespace ApprovalSample

open Validator (infoValue signedWire received)
open Validator.Sample (publicKey keyName anchor)

def enrollment : PendingApproval := ⟨"req-1".toList, "/op/dev".toList⟩

/-- `/op/dev/ndncert-approve/req-1`, the name of its approval. -/
def approvalName : Name :=
  [.ofText "op", .ofText "dev", .ofText "ndncert-approve", .ofText "req-1"]

/-- What the owner of the key signs to approve it. -/
def ownerRegion : Bytes :=
  Name.encodeToTlv approvalName ++ writeTlv content [] ++
    writeTlv signatureInfo (infoValue 5 keyName)

def ownerSig : Bytes :=
  beBytes 32 0xe407b147fc226185166b3c79c5eda53306c821a86562a2ca5be473c5f390926b ++
    beBytes 32 0x5f49d701d29b989be81bfa2c7d3a78749b54ae32c4b30a52f76fa425fa471205

/-- Primitives under which that signature is the only one. -/
def crypto : Crypto :=
  .sample fun key region sig => key = publicKey && region = ownerRegion && sig = ownerSig

def outsider : Outsider crypto := .sample _

def validator : Validator := (Validator.new .hierarchical).addTrustAnchor crypto 1 anchor

def ownerWire : Bytes := signedWire approvalName [] (infoValue 5 keyName) fun _ => ownerSig

/-- An approval signed with the SHA-256 digest of its region. -/
def digestWire : Bytes :=
  signedWire approvalName [] (writeTlv signatureType [0]) crypto.sha256

/-- A network that answers every pull with the given approval, wrapped in a Data packet that only
carries a digest. -/
def network (innerWire : Bytes) : ApprovalNet := fun name _ =>
  .ok (received (signedWire name innerWire (writeTlv signatureType [0]) crypto.sha256))

/-- The approver's Interest, with the reflexive name `/r`. -/
def forward : Interest :=
  let wire := writeTlv interest
    (Name.encodeToTlv [.ofText "op", .ofText "APPROVE"] ++
      writeTlv reflexiveName (Name.encodeComponents [.ofText "r"]))
  (Interest.decode wire).toOption.getD ⟨[], []⟩

def store : PendingApprovalStore := PendingApprovalStore.new.submit "/op/dev".toList []

/-- The pull, with one or the other approval. -/
def pull (innerWire : Bytes) : Except IdentityError Bool × PendingApprovalStore :=
  pullAndValidateApproval crypto validator 1 (network innerWire) PendingApprovalStore.sink store
    forward enrollment

lemma pull_ownerWire : (pull ownerWire).1 = .ok true := by decide +kernel

end ApprovalSample

open ApprovalSample in
/-- The premise of `recorded_approval_genuine_iff` holds of the owner's approval. -/
theorem recorded_approval_genuine_iff_owner :
    ∃ inner info, fetchApproval (network ownerWire) forward enrollment = .ok (some inner) ∧
      approvalDataName enrollment.certName enrollment.requestId = some inner.name ∧
      inner.sigInfo = some info ∧
      (pull ownerWire).2 = PendingApprovalStore.sink.recordValidated store enrollment.requestId
        (approverText inner) inner.sigValue ∧
      ((∃ keyName cert, validator.Signer 1 inner.name info keyName cert ∧
        (inner.signed info).VerifiesWith crypto cert.publicKey ∧
        outsider.Genuine (inner.signed info) cert.publicKey) ↔ info.sigType.isAsymmetric = true) :=
  recorded_approval_genuine_iff outsider validator 1 (network ownerWire) PendingApprovalStore.sink
    store forward enrollment (.inl pull_ownerWire)

open ApprovalSample Validator in
/-- **An approval that anyone can compute is recorded.** The packet is a function of the enrollment
alone; the pull records it, the request is then approved and marked validated, and no key stands
behind the signature. -/
theorem digest_approval_recorded :
    Data.decode digestWire = .ok (received digestWire) ∧
    (received digestWire).name = approvalName ∧
    (pull digestWire).1 = .ok true ∧
    (store.get enrollment.requestId).map ApprovalRequest.state = some .pending ∧
    ((pull digestWire).2.get enrollment.requestId).map
      (fun r => (r.state, r.approver, r.validated)) = some (.approved, some [], true) ∧
    ¬ ∃ info keyName cert, (received digestWire).sigInfo = some info ∧
      validator.Signer 1 (received digestWire).name info keyName cert := by
  refine ⟨by decide +kernel, by decide +kernel, by decide +kernel, by decide +kernel,
    by decide +kernel, ?_⟩
  rintro ⟨info, keyName, cert, hinfo, hkey, -⟩
  have hsig : (received digestWire).sigInfo = some ⟨.digestSha256, none, none, none, none⟩ := by
    decide
  obtain rfl := Option.some.inj (hsig.symm.trans hinfo)
  cases hkey

end NdnRs
