import NdnRs.Wire.NameUri

/-!
# Pending device approvals (the store of `ndn-cert/src/challenge/device_approval.rs`)

A request for approval is submitted when a challenge begins, and is resolved at most once; here, by
a Data packet that was validated.
-/

namespace NdnRs

open Function

/-- What has become of a request. -/
inductive ApprovalState where
  | pending
  | approved
  | denied (reason : Str)
  deriving DecidableEq

structure ApprovalRequest where
  id : Str
  certName : Str
  description : Str
  state : ApprovalState
  approver : Option Str
  approverPubkey : Bytes
  signedApproval : Bytes
  validated : Bool
  deriving DecidableEq

def approvalDataName (certName requestId : Str) : Option Name :=
  match Name.fromStr certName with
  | .error _ => none
  | .ok name => some ((name.append (Str.bytes "ndncert-approve".toList)).append requestId.bytes)

/-- The id of the `n`-th request. -/
def approvalId (n : ℕ) : Str := "req-".toList ++ Str.decimal n

/-- `PendingApprovalStore`: the requests by id, which are `req-1` up to the latest one. -/
structure PendingApprovalStore where
  nextId : ℕ
  requests : Str → Option ApprovalRequest
  issued : ∀ id r, requests id = some r → r.id = id ∧ ∃ k ≤ nextId, id = approvalId k

namespace PendingApprovalStore

def new : PendingApprovalStore := ⟨0, fun _ => none, by simp⟩

def get (self : PendingApprovalStore) (id : Str) : Option ApprovalRequest := self.requests id

/-! ## Submission -/

def freshId (self : PendingApprovalStore) : Str := approvalId (self.nextId + 1)

/-- The request that a submission enters. -/
def submitted (self : PendingApprovalStore) (certName description : Str) : ApprovalRequest :=
  ⟨self.freshId, certName, description, .pending, none, [], [], false⟩

/-- `PendingApprovalStore::submit`, the store after it; the id is `freshId`. -/
def submit (self : PendingApprovalStore) (certName description : Str) : PendingApprovalStore where
  nextId := self.nextId + 1
  requests := update self.requests self.freshId (some (self.submitted certName description))
  issued := by
    intro id r hr
    rw [update_apply] at hr
    split_ifs at hr with hid
    · obtain rfl := Option.some.inj hr
      exact ⟨hid.symm, self.nextId + 1, le_rfl, hid⟩
    · obtain ⟨hrid, k, hk, heq⟩ := self.issued id r hr
      exact ⟨hrid, k, hk.trans (Nat.le_succ _), heq⟩

/-! ## Resolution -/

/-- The evidence that a cross-process approval records. -/
structure Evidence where
  approver : Str
  approverPubkey : Bytes
  signedApproval : Bytes
  validated : Bool

/-- A request with its new state, and the evidence if there is any. -/
def resolved (state : ApprovalState) (evidence : Option Evidence) (r : ApprovalRequest) :
    ApprovalRequest :=
  match evidence with
  | none => { r with state := state }
  | some e =>
    { r with
      approver := some e.approver
      approverPubkey := e.approverPubkey
      signedApproval := e.signedApproval
      validated := e.validated
      state := state }

lemma id_resolved (state : ApprovalState) (evidence : Option Evidence) (r : ApprovalRequest) :
    (resolved state evidence r).id = r.id := by
  cases evidence <;> rfl

/-- The shape of the four functions that resolve a request: only a pending one is changed, and the
answer says whether there was one. -/
def resolve (self : PendingApprovalStore) (id : Str) (state : ApprovalState)
    (evidence : Option Evidence) : Bool × PendingApprovalStore :=
  match hget : self.requests id with
  | none => (false, self)
  | some r =>
    if r.state = .pending then
      (true,
        { nextId := self.nextId
          requests := update self.requests id (some (resolved state evidence r))
          issued := by
            intro id' r' hr'
            rw [update_apply] at hr'
            split_ifs at hr' with hid
            · obtain rfl := Option.some.inj hr'
              rw [id_resolved, hid]
              exact self.issued id r hget
            · exact self.issued id' r' hr' })
    else (false, self)

def approveValidated (self : PendingApprovalStore) (id approver : Str) (signature : Bytes) :
    Bool × PendingApprovalStore :=
  self.resolve id .approved (some ⟨approver, [], signature, true⟩)

end PendingApprovalStore

end NdnRs
