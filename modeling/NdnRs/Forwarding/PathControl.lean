import NdnRs.Forwarding.Fib
import NdnRs.Lib.Run
import NdnRs.Security.SignatureScheme

/-!
# Path control (`ndn-pathcontrol/src/lib.rs`, `ndn-engine/src/path_control.rs`)

A PathControl message is an Interest that rewrites forwarding state at every hop it passes. Each
forwarder authorizes it, checks that its sequence number is new, changes its FIB and says where the
message goes next.

## Main results

* `routes_rewritten_by_key_owners` — who changes the routes of a prefix.
* `newest_redirect_first_iff` — when the newest redirect leads.
-/

namespace NdnRs

open Bytes Tlv TlvType

/-! ## Messages -/

inductive PathOp where
  | redirect
  | teardown
  | refresh
  deriving DecidableEq

namespace PathOp

/-- `op as u8`. -/
def toU8 : PathOp → UInt8
  | .redirect => 1
  | .teardown => 2
  | .refresh => 3

def fromU8 (b : UInt8) : Option PathOp :=
  if b = 1 then some .redirect
  else if b = 2 then some .teardown
  else if b = 3 then some .refresh
  else none

end PathOp

structure PathControl where
  target : Name
  op : PathOp
  seq : ℕ
  deriving DecidableEq

namespace PathControl

/-- The keyword component `32=PC` that marks a message. -/
def marker : NameComponent := ⟨keyword, Str.bytes "PC".toList⟩

def toName (self : PathControl) : Name :=
  self.target ++ [marker, .generic [self.op.toU8], .generic (beBytes 8 self.seq)]

/-- The index of the marker: third from last, or fourth from last before a trailing parameters
digest. -/
def markerIndex (name : Name) : Option ℕ :=
  let n := name.length
  if n ≥ 3 ∧ name[n - 3]? = some marker then some (n - 3)
  else if n ≥ 4 ∧ name[n - 4]? = some marker ∧
      (name[n - 1]?.map NameComponent.typ) = some parametersSha256 then some (n - 4)
  else none

def parse (name : Name) : Option PathControl := do
  let kw ← markerIndex name
  let opComp ← name[kw + 1]?
  let seqComp ← name[kw + 2]?
  let op ← match opComp.value with
    | [b] => PathOp.fromU8 b
    | _ => none
  if seqComp.value.length = 8 then some ⟨name.take kw, op, beNat seqComp.value⟩ else none

end PathControl

/-- `SeqStore`: the last admitted sequence number of each target and op. -/
abbrev SeqStore := Name → PathOp → Option ℕ

/-- `SeqStore::admit`: the store after an admission, `none` when the number is not newer. -/
def SeqStore.admitSeq (self : SeqStore) (target : Name) (op : PathOp) (seq : ℕ) : Option SeqStore :=
  let admitted := fun t o => if t = target ∧ o = op then some seq else self t o
  match self target op with
  | some last => if seq > last then some admitted else none
  | none => some admitted

/-! ## The handler -/

/-- The state that `decide` mutates. -/
structure PathControlHandler where
  fib : Fib
  seq : SeqStore

/-- One call of `decide`: the validator and the clock as they are at the call, the message, the
Interest that carried it and the face it arrived on. -/
structure PathControlCall where
  validator : Validator
  now : ℕ
  pc : PathControl
  interest : Interest
  inFace : FaceId

namespace PathControlHandler

def authorize (cr : Crypto) (call : PathControlCall) : Bool :=
  call.validator.validateInterest cr call.now call.interest = .valid

/-- The FIB after the op: `Redirect` adds the arrival face to the target's next hops. -/
def applyOp (fib : Fib) (pc : PathControl) (inFace : FaceId) : Fib :=
  match pc.op with
  | .redirect => fib.addNexthop pc.target inFace 0
  | .teardown => fib
  | .refresh => fib

/-- `PathControlHandler::decide`: the faces to propagate to, unless the message is dropped, and the
state after it. Teardown and refresh notify observers, which are not part of this state. -/
def decide (cr : Crypto) (self : PathControlHandler) (call : PathControlCall) :
    Option (List FaceId) × PathControlHandler :=
  if authorize cr call = false then (none, self)
  else
    match self.seq.admitSeq call.pc.target call.pc.op call.pc.seq with
    | none => (none, self)
    | some seq =>
      let oldFaces := match self.fib.lpm call.pc.target with
        | some e => (e.nexthops.map FibNexthop.faceId).filter (· ≠ call.inFace)
        | none => []
      (some oldFaces, ⟨applyOp self.fib call.pc call.inFace, seq⟩)

lemma get_applyOp {fib : Fib} {pc : PathControl} {inFace : FaceId} {name : Name}
    (h : (applyOp fib pc inFace).get name ≠ fib.get name) :
    name = pc.target ∧ pc.op = .redirect := by
  unfold applyOp at h
  split at h
  · rename_i hop
    rw [Fib.get_addNexthop] at h
    split_ifs at h with hname
    · exact ⟨hname, hop⟩
    · exact absurd rfl h
  · exact absurd rfl h
  · exact absurd rfl h

/-- **What a message can do to the FIB.** It changes only the entry of its target, and only when it
is a `Redirect` that the authorizer accepts. -/
lemma get_decide {cr : Crypto} {self : PathControlHandler} {call : PathControlCall} {name : Name}
    (h : (self.decide cr call).2.fib.get name ≠ self.fib.get name) :
    name = call.pc.target ∧ call.pc.op = .redirect ∧
      call.validator.validateInterest cr call.now call.interest = .valid := by
  unfold decide at h
  cases hauth : authorize cr call with
  | false => simp [hauth] at h
  | true =>
    cases hadm : self.seq.admitSeq call.pc.target call.pc.op call.pc.seq with
    | none => simp [hauth, hadm] at h
    | some seq =>
      simp only [hauth, hadm, Bool.true_eq_false, if_false] at h
      obtain ⟨hname, hop⟩ := get_applyOp h
      exact ⟨hname, hop, of_decide_eq_true hauth⟩

end PathControlHandler

/-! ## Runs -/

structure PathControlRun where
  handler : PathControlHandler
  rewrites : List PathControlCall

namespace PathControlRun

variable {cr : Crypto}

/-- One call of `decide`. -/
def step (cr : Crypto) (s : PathControlRun) (call : PathControlCall) : PathControlRun :=
  let handler := (s.handler.decide cr call).2
  ⟨handler, if handler.fib.get call.pc.target = s.handler.fib.get call.pc.target then s.rewrites
    else call :: s.rewrites⟩

/-- The Interest of a call carries a genuine signature by a key that the context governing its name
authorizes for that name, and whose certificate is cached and valid. -/
def ByKeyOwner (out : Outsider cr) (call : PathControlCall) : Prop :=
  ∃ info s keyName cert, call.interest.signed? = some (info, s) ∧
    call.validator.Signer call.now call.interest.name info keyName cert ∧
    s.VerifiesWith cr cert.publicKey ∧ out.Genuine s cert.publicKey

/-- The guard: a `Redirect` comes in an Interest that declares RSA, ECDSA or Ed25519. -/
def DeclaresAsymmetric (_ : PathControlRun) (call : PathControlCall) : Prop :=
  call.pc.op = .redirect → ∀ info, call.interest.sigInfo = some info →
    info.sigType.isAsymmetric = true

lemma byKeyOwner_of_valid (out : Outsider cr) {call : PathControlCall}
    (hvld : call.validator.validateInterest cr call.now call.interest = .valid)
    (hasym : ∀ info, call.interest.sigInfo = some info → info.sigType.isAsymmetric = true) :
    ByKeyOwner out call := by
  cases hsig : call.interest.signed? with
  | none => simp [Validator.validateInterest, hsig] at hvld
  | some p =>
    obtain ⟨info, s⟩ := p
    obtain ⟨hinfo, htype⟩ := Interest.signed?_eq_some hsig
    have hdig : info.sigType ≠ .digestSha256 := by
      intro h
      have := hasym info hinfo
      rw [h] at this
      exact absurd this (by decide)
    obtain ⟨keyName, cert, hsgr, hver⟩ :=
      (Validator.validateInterest_eq_valid_iff hsig hdig).1 hvld
    refine ⟨info, s, keyName, cert, hsig, hsgr, hver, ?_⟩
    rw [out.genuine_iff hver, htype]
    exact hasym info hinfo

/-- What every state of a guarded run satisfies: the FIB differs from the initial one only where a
recorded call changed it, and every recorded call is from a key owner. -/
structure Inv (out : Outsider cr) (fib : Fib) (s : PathControlRun) : Prop where
  recorded : ∀ name, s.handler.fib.get name ≠ fib.get name →
    ∃ call ∈ s.rewrites, call.pc.target = name
  authorized : ∀ call ∈ s.rewrites, ByKeyOwner out call

lemma Inv.step {out : Outsider cr} {fib : Fib} {s : PathControlRun} (hinv : Inv out fib s)
    {call : PathControlCall} (hgrd : DeclaresAsymmetric s call) :
    Inv out fib (.step cr s call) := by
  rw [PathControlRun.step]
  by_cases hchg : (s.handler.decide cr call).2.fib.get call.pc.target =
      s.handler.fib.get call.pc.target
  · rw [if_pos hchg]
    refine ⟨fun name hname => hinv.recorded name fun heq => hname ?_, hinv.authorized⟩
    -- no entry has changed: not that of the target, and no other can
    by_contra hne
    have hdiff : (s.handler.decide cr call).2.fib.get name ≠ s.handler.fib.get name := by
      rwa [heq]
    obtain ⟨rfl, -, -⟩ := PathControlHandler.get_decide hdiff
    exact hdiff hchg
  · rw [if_neg hchg]
    obtain ⟨-, hop, hvld⟩ := PathControlHandler.get_decide hchg
    refine ⟨fun name hname => ?_, fun c hc => ?_⟩
    · by_cases hsame : (s.handler.decide cr call).2.fib.get name = s.handler.fib.get name
      · obtain ⟨c, hc, htgt⟩ := hinv.recorded name (by rwa [← hsame])
        exact ⟨c, List.mem_cons_of_mem _ hc, htgt⟩
      · obtain ⟨rfl, -, -⟩ := PathControlHandler.get_decide hsame
        exact ⟨call, List.mem_cons_self, rfl⟩
    · rcases List.mem_cons.1 hc with rfl | hc
      · exact byKeyOwner_of_valid out hvld (hgrd hop)
      · exact hinv.authorized c hc

/-- **Routes are rewritten by key owners.** Take any run of `decide` from any handler, with any
validator state at each call, in which every `Redirect` comes in an Interest that declares an
asymmetric signature. In every state reached, an entry of the FIB that is not the initial one was
changed by a recorded call, and every recorded call carries a genuine signature by a key that the
context governing the Interest's name authorizes for it. -/
theorem routes_rewritten_by_key_owners (out : Outsider cr) (handler : PathControlHandler)
    (s : PathControlRun)
    (hreach : Run.Reach (PathControlRun.step cr) DeclaresAsymmetric ⟨handler, []⟩ s) :
    (∀ name, s.handler.fib.get name ≠ handler.fib.get name →
      ∃ call ∈ s.rewrites, call.pc.target = name) ∧
    ∀ call ∈ s.rewrites, ByKeyOwner out call := by
  have hinv : Inv out handler.fib s :=
    hreach.invariant (Inv out handler.fib) ⟨fun name h => absurd rfl h, by simp⟩
      fun _ _ hs hgrd => hs.step hgrd
  exact ⟨hinv.recorded, hinv.authorized⟩

/-! ## An Interest that anyone can produce -/

/-- The wire of a signed Interest: name with parameters digest, ApplicationParameters,
InterestSignatureInfo and InterestSignatureValue. The signed region leaves out the digest. -/
def interestWire (cr : Crypto) (name : Name) (params info : Bytes) (sign : Bytes → Bytes) : Bytes :=
  let tail := writeTlv appParameters params ++
    writeTlv interestSignatureInfo info
  let region := name.encodeComponents ++ tail
  let body := tail ++ writeTlv interestSignatureValue (sign region)
  writeTlv interest (Name.encodeToTlv (name ++ [⟨parametersSha256, cr.sha256 body⟩]) ++ body)

namespace Sample

open Validator.Sample (publicKey keyName anchor)

def pc : PathControl := ⟨[.ofText "op", .ofText "site"], .redirect, 1⟩

/-- The Ed25519 signature by the owner of the key on the message. -/
def ownerSig : Bytes :=
  beBytes 32 0x8937f08f127a66e523e10253ff24da00f8e7386bb66614eef68ac5ba559e058a ++
    beBytes 32 0x4474ee98d04a54ab0a8899a632f3e40ee4df63cbdfcfdb1e479142e259b1d408

def ownerRegion : Bytes :=
  pc.toName.encodeComponents ++ writeTlv appParameters [] ++
    writeTlv interestSignatureInfo (Validator.infoValue 5 keyName)

/-- Primitives under which that signature is the only one. -/
def crypto : Crypto :=
  .sample fun key region sig => key = publicKey && region = ownerRegion && sig = ownerSig

def validator : Validator := (Validator.new .hierarchical).addTrustAnchor crypto 1 anchor

def received (wire : Bytes) : Interest := (Interest.decode wire).toOption.getD ⟨[], []⟩

def ownerInterest : Interest :=
  received (interestWire crypto pc.toName [] (Validator.infoValue 5 keyName) fun _ => ownerSig)

/-- The wire of an Interest for the same message, signed with the SHA-256 digest of its region. -/
def digestWire : Bytes :=
  interestWire crypto pc.toName [] (writeTlv signatureType [0]) crypto.sha256

def digestInterest : Interest := received digestWire

def emptyHandler : PathControlHandler := ⟨.new, fun _ _ => none⟩

def call (interest : Interest) : PathControlCall := ⟨validator, 1, pc, interest, 7⟩

lemma interest_call (interest : Interest) : (call interest).interest = interest := rfl

def outsider : Outsider crypto := .sample _

/-- The state after the owner's Interest. -/
def afterOwner : PathControlRun :=
  PathControlRun.step crypto ⟨emptyHandler, []⟩ (call ownerInterest)

lemma ownerInterest_sigInfo : ownerInterest.sigInfo =
    some ⟨.signatureEd25519, some (.name keyName), none, none, none⟩ := by
  decide +kernel

lemma ownerInterest_declares : DeclaresAsymmetric ⟨emptyHandler, []⟩ (call ownerInterest) := by
  intro _ info hinfo
  rw [interest_call, ownerInterest_sigInfo] at hinfo
  rw [← Option.some.inj hinfo]
  decide

end Sample

open Sample in
/-- The premise of `routes_rewritten_by_key_owners` holds of a run with the owner's Interest. -/
theorem routes_rewritten_by_key_owners_owner :
    afterOwner.handler.fib.get pc.target = some ⟨[⟨7, 0⟩]⟩ ∧
    (∀ name, afterOwner.handler.fib.get name ≠ emptyHandler.fib.get name →
      ∃ c ∈ afterOwner.rewrites, c.pc.target = name) ∧
    ∀ c ∈ afterOwner.rewrites, ByKeyOwner outsider c :=
  ⟨by decide +kernel, routes_rewritten_by_key_owners outsider emptyHandler afterOwner
    (Run.Reach.snoc .refl (call ownerInterest) ownerInterest_declares)⟩

open Sample in
/-- **An Interest that anyone can produce rewrites a route.** The Interest is computed from the
message alone; it is recognised as the `Redirect`, and after the call the FIB has an entry for the
target, while no key at all stands behind the signature. -/
theorem digest_interest_rewrites_route :
    Interest.decode digestWire = .ok digestInterest ∧
    PathControl.parse digestInterest.name = some pc ∧
    Run.Reach (PathControlRun.step crypto) (fun _ _ => True) ⟨emptyHandler, []⟩
      (PathControlRun.step crypto ⟨emptyHandler, []⟩ (call digestInterest)) ∧
    emptyHandler.fib.get pc.target = none ∧
    (PathControlRun.step crypto ⟨emptyHandler, []⟩ (call digestInterest)).handler.fib.get
      pc.target = some ⟨[⟨7, 0⟩]⟩ ∧
    ¬ ∃ info s keyName cert, digestInterest.signed? = some (info, s) ∧
      validator.Signer 1 digestInterest.name info keyName cert ∧
      s.VerifiesWith crypto cert.publicKey := by
  refine ⟨by decide +kernel, by decide +kernel, Run.Reach.refl.snoc _ trivial, by decide +kernel,
    by decide +kernel, ?_⟩
  rintro ⟨info, s, keyName, cert, hsigned, ⟨hkey, -⟩, -⟩
  have hsig : digestInterest.sigInfo = some ⟨.digestSha256, none, none, none, none⟩ := by
    decide +kernel
  obtain rfl := Option.some.inj (hsig.symm.trans (Interest.signed?_eq_some hsigned).1)
  cases hkey

end PathControlRun

/-! ## The newest Redirect

Every `Redirect` asks for cost 0, and next hops of one cost stay in the order of their arrival. -/

namespace PathControlHandler

variable {cr : Crypto}

/-- The next hops of a FIB entry, in the order in which best-route tries them. -/
def nexthops (self : PathControlHandler) (target : Name) : List FibNexthop :=
  ((self.fib.get target).map FibEntry.nexthops).getD []

/-- `Redirect` messages for a target that get through: each is authorized and newer than the one
before it. -/
def RedirectsFor (cr : Crypto) (target : Name) : Option ℕ → List PathControlCall → Prop
  | _, [] => True
  | last, call :: calls =>
    authorize cr call = true ∧ call.pc.op = .redirect ∧ call.pc.target = target ∧
      (∀ seq, last = some seq → seq < call.pc.seq) ∧ RedirectsFor cr target (some call.pc.seq) calls

/-- After each message, the first next hop of the target is the face on which it arrived. -/
def NewestFirst (cr : Crypto) (target : Name) : PathControlHandler → List PathControlCall → Prop
  | _, [] => True
  | self, call :: calls =>
    let self := (self.decide cr call).2
    (self.nexthops target).head?.map FibNexthop.faceId = some call.inFace ∧
      NewestFirst cr target self calls

lemma decide_redirect {self : PathControlHandler} {call : PathControlCall}
    (hauth : authorize cr call = true) (hop : call.pc.op = .redirect)
    (hseq : ∀ seq, self.seq call.pc.target .redirect = some seq → seq < call.pc.seq) :
    (self.decide cr call).2.fib = self.fib.addNexthop call.pc.target call.inFace 0 ∧
      (self.decide cr call).2.seq call.pc.target .redirect = some call.pc.seq := by
  simp only [decide, hauth, hop, applyOp, SeqStore.admitSeq, Bool.true_eq_false, if_false]
  cases hlast : self.seq call.pc.target .redirect with
  | none => simp
  | some seq => simp [hseq seq hlast]

/-- A next hop of cost 0 that is put behind others comes first iff they all cost more. -/
lemma head?_sort_append {hops : List FibNexthop} {hop : FibNexthop} (hcost : hop.cost = 0)
    (hne : ∀ h ∈ hops, h ≠ hop) :
    ((hops ++ [hop]).insertionSort fun a b => a.cost ≤ b.cost).head? = some hop ↔
      ∀ h ∈ hops, 0 < h.cost := by
  induction hops with
  | nil => simp
  | cons h hops ih =>
    rw [List.forall_mem_cons] at hne
    rw [List.cons_append, List.insertionSort_cons, List.forall_mem_cons, ← ih hne.2]
    cases (hops ++ [hop]).insertionSort fun a b => a.cost ≤ b.cost with
    | nil => simp [hne.1]
    | cons first rest =>
      rw [List.orderedInsert_cons]
      split_ifs with hle
      · simp only [List.head?_cons, Option.some.injEq, hne.1, false_iff]
        rintro ⟨hpos, rfl⟩
        omega
      · simp only [List.head?_cons, Option.some.injEq]
        exact ⟨fun hfirst => ⟨by omega, hfirst⟩, And.right⟩

section

variable {self : PathControlHandler} {call : PathControlCall} (hauth : authorize cr call = true)
  (hop : call.pc.op = .redirect)
  (hseq : ∀ seq, self.seq call.pc.target .redirect = some seq → seq < call.pc.seq)

include hauth hop hseq

lemma nexthops_redirect : (self.decide cr call).2.nexthops call.pc.target =
    (Fib.addToEntry (self.fib.get call.pc.target) call.inFace 0).nexthops := by
  rw [nexthops, (decide_redirect hauth hop hseq).1, Fib.get_addNexthop, if_pos rfl]
  rfl

lemma mem_nexthops_redirect (hop' : FibNexthop) :
    hop' ∈ (self.decide cr call).2.nexthops call.pc.target ↔
      hop' ∈ self.nexthops call.pc.target ∧ hop'.faceId ≠ call.inFace ∨
        hop' = ⟨call.inFace, 0⟩ := by
  rw [nexthops_redirect hauth hop hseq, Fib.addToEntry, List.mem_insertionSort]
  simp [nexthops]

/-- One `Redirect` puts its face in front iff the next hops on other faces all cost something. -/
lemma redirect_first_iff :
    ((self.decide cr call).2.nexthops call.pc.target).head?.map FibNexthop.faceId =
        some call.inFace ↔
      ∀ hop ∈ self.nexthops call.pc.target, hop.faceId ≠ call.inFace → 0 < hop.cost := by
  -- the only next hop on the arrival face is the new one
  have hhead : ((self.decide cr call).2.nexthops call.pc.target).head?.map FibNexthop.faceId =
      some call.inFace ↔
      ((self.decide cr call).2.nexthops call.pc.target).head? = some ⟨call.inFace, 0⟩ := by
    refine ⟨fun h => ?_, fun h => by rw [h]; rfl⟩
    obtain ⟨first, hfirst, hface⟩ := Option.map_eq_some_iff.1 h
    have hmem := (mem_nexthops_redirect hauth hop hseq first).1 (List.mem_of_mem_head? hfirst)
    rcases hmem with ⟨-, hne⟩ | rfl
    · exact absurd hface hne
    · exact hfirst
  rw [hhead, nexthops_redirect hauth hop hseq, Fib.addToEntry, head?_sort_append rfl]
  · simp [nexthops]
  · rintro h hmem rfl
    simp at hmem

end

/-- **The newest Redirect.** Over any sequence of authorized `Redirect` messages for a target, with
growing sequence numbers and on any faces, the face of the newest one comes first after each of them
iff at the start every next hop on another face than the first message's costs something, and all
messages arrive on one face. -/
theorem newest_redirect_first_iff {target : Name} (self : PathControlHandler)
    (call : PathControlCall) (calls : List PathControlCall)
    (h : RedirectsFor cr target (self.seq target .redirect) (call :: calls)) :
    NewestFirst cr target self (call :: calls) ↔
      (∀ hop ∈ self.nexthops target, hop.faceId ≠ call.inFace → 0 < hop.cost) ∧
        ∀ later ∈ calls, later.inFace = call.inFace := by
  induction calls generalizing self call with
  | nil =>
    obtain ⟨hauth, hop, rfl, hseq, -⟩ := h
    simp only [NewestFirst, and_true, redirect_first_iff hauth hop hseq, List.not_mem_nil,
      false_imp_iff, implies_true]
  | cons next calls ih =>
    obtain ⟨hauth, hop, rfl, hseq, hrest⟩ := h
    have hafter : RedirectsFor cr call.pc.target
        ((self.decide cr call).2.seq call.pc.target .redirect) (next :: calls) := by
      rwa [(decide_redirect hauth hop hseq).2]
    rw [NewestFirst, redirect_first_iff hauth hop hseq, ih _ next hafter, List.forall_mem_cons]
    simp only [mem_nexthops_redirect hauth hop hseq]
    constructor
    · rintro ⟨hcost, hnext, hlater⟩
      -- the first message's face is there with cost 0
      have hface : next.inFace = call.inFace := by
        by_contra hne
        exact absurd (hnext ⟨call.inFace, 0⟩ (.inr rfl) (Ne.symm hne)) (lt_irrefl 0)
      exact ⟨hcost, hface, fun later hmem => (hlater later hmem).trans hface⟩
    · rintro ⟨hcost, hface, hlater⟩
      refine ⟨hcost, ?_, fun later hmem => (hlater later hmem).trans hface.symm⟩
      rintro hop' (⟨hmem, -⟩ | rfl) hne
      · exact hcost hop' hmem (hface ▸ hne)
      · exact absurd hface.symm hne

namespace Sample

open PathControlRun.Sample

open Validator.Sample (publicKey keyName anchor)

/-- The owner's signature on the message with sequence number 2. -/
def secondSig : Bytes :=
  beBytes 32 0xaf25c06726cb7c1e1b72e1e604b8391c73d1037e330701480dafdf11ad0f3937 ++
    beBytes 32 0xb54196bff2b7f00ced89d743692dee790b62b8c241b30d8eb6a97b9a1dccd203

def second : PathControl := { pc with seq := 2 }

def secondRegion : Bytes :=
  second.toName.encodeComponents ++ writeTlv appParameters [] ++
    writeTlv interestSignatureInfo (Validator.infoValue 5 keyName)

/-- Primitives under which the owner's two signatures are the only ones. -/
def ownerCrypto : Crypto :=
  .sample fun key region sig =>
    key = publicKey && (region, sig) ∈ [(ownerRegion, ownerSig), (secondRegion, secondSig)]

/-- A call with the owner's Interest for a message, on a face. -/
def ownerCall (pc : PathControl) (sig : Bytes) (inFace : FaceId) : PathControlCall :=
  ⟨(Validator.new .hierarchical).addTrustAnchor ownerCrypto 1 anchor, 1, pc,
    received (PathControlRun.interestWire ownerCrypto pc.toName [] (Validator.infoValue 5 keyName)
      fun _ => sig), inFace⟩

lemma authorize_ownerCall (f : FaceId) :
    authorize ownerCrypto (ownerCall pc ownerSig f) = true ∧
      authorize ownerCrypto (ownerCall second secondSig f) = true := by
  show authorize ownerCrypto (ownerCall pc ownerSig 0) = true ∧
    authorize ownerCrypto (ownerCall second secondSig 0) = true
  decide +kernel

lemma redirectsFor (f g : FaceId) : RedirectsFor ownerCrypto pc.target none
    [ownerCall pc ownerSig f, ownerCall second secondSig g] := by
  refine ⟨(authorize_ownerCall f).1, rfl, rfl, by simp, (authorize_ownerCall g).2, rfl, rfl, ?_,
    trivial⟩
  rintro _ ⟨⟩
  show 1 < 2
  decide

end Sample

open PathControlRun.Sample Sample in
/-- `newest_redirect_first_iff` for the owner's two messages on one face. -/
theorem newest_redirect_first_iff_one_face :
    NewestFirst ownerCrypto pc.target emptyHandler
      [ownerCall pc ownerSig 7, ownerCall second secondSig 7] := by
  refine (newest_redirect_first_iff emptyHandler _ _ (redirectsFor 7 7)).2 ⟨by decide, ?_⟩
  intro later hlater
  rw [List.mem_singleton.1 hlater]
  rfl

open PathControlRun.Sample Sample in
/-- **The old location stays first.** The owner moves from face 1 to face 2. Both messages are
authorized and the second is newer; after it the target's next hops are face 1, then face 2. -/
theorem old_face_stays_first :
    RedirectsFor ownerCrypto pc.target (emptyHandler.seq pc.target .redirect)
      [ownerCall pc ownerSig 1, ownerCall second secondSig 2] ∧
    ([ownerCall pc ownerSig 1, ownerCall second secondSig 2].foldl
      (fun handler call => (handler.decide ownerCrypto call).2) emptyHandler).nexthops pc.target =
        [⟨1, 0⟩, ⟨2, 0⟩] ∧
    ¬ NewestFirst ownerCrypto pc.target emptyHandler
      [ownerCall pc ownerSig 1, ownerCall second secondSig 2] := by
  have hhops : ([ownerCall pc ownerSig 1, ownerCall second secondSig 2].foldl
      (fun handler call => (handler.decide ownerCrypto call).2) emptyHandler).nexthops pc.target =
        [⟨1, 0⟩, ⟨2, 0⟩] := by
    decide +kernel
  refine ⟨redirectsFor 1 2, hhops, ?_⟩
  rintro ⟨-, hsecond, -⟩
  simp only [List.foldl_cons, List.foldl_nil] at hhops
  rw [hhops] at hsecond
  exact absurd hsecond (by decide)

end PathControlHandler

end NdnRs
