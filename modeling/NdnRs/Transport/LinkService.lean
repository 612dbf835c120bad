import NdnRs.Transport.Retransmit

/-!
# The link service of a network face (`ndn-transport/src/link_service/mod.rs`)

A packet that is too long for the transport is fragmented. The reliability state of the face does
this if it has frames for the packet; otherwise the link service does it itself, and lets the
features of the face add their headers to each fragment. Each of the two numbers fragments with a
counter of its own, and both counters start at zero.

## Implementation notes

Which headers the features add to a frame depends on closures and on queues outside of this model;
they are inputs. A transport is taken to accept each frame.

## Main results

* `sequences_distinct` — when no number is used twice.
-/

namespace NdnRs

open Bytes Tlv Lp Fragment List TlvType

/-! ## Features -/

/-- `TLV_TRACE_CONTEXT`. -/
def TlvType.traceContext : ℕ := 0x520

namespace Lp

/-- The elements of a frame with a header put in its place: before the first one of a greater type,
in place of those of the same type, and with the fragment at the end. -/
def spliceElements (typ : ℕ) (value : Bytes) (es : List (ℕ × Bytes)) : List (ℕ × Bytes) :=
  let headers := es.filter fun e => e.1 ≠ lpFragment ∧ e.1 ≠ typ
  let fragment := (es.filter fun e => e.1 = lpFragment).getLast?
  headers.takeWhile (fun e => e.1 ≤ typ) ++
    ((typ, value) :: headers.dropWhile fun e => e.1 ≤ typ) ++ fragment.toList

/-- `splice_lp_header`, and `splice_into_lp_wire` with the type of a trace context. -/
def spliceLpHeader (lpWire : Bytes) (typ : ℕ) (value : Bytes) : Bytes :=
  if isLpPacket lpWire then
    match readTlv lpWire with
    | .error _ => lpWire
    | .ok ((t0, body), _) =>
      if t0 ≠ lpPacket then lpWire
      else
        match readAll body with
        | .error _ => lpWire
        | .ok es => writeTlv lpPacket (writeTlvs (spliceElements typ value es))
  else lpWire

/-- A header that a feature may add. -/
def spliceSome (lpWire : Bytes) (typ : ℕ) : Option Bytes → Bytes
  | some value => spliceLpHeader lpWire typ value
  | none => lpWire

/-- `splice_congestion_mark`: the mark goes before all other headers. -/
def spliceCongestionMark (lpWire : Bytes) (mark : ℕ) : Option Bytes :=
  if lpWire.head? ≠ some 0x64 then none
  else do
    let (typ, nT) ← (readVaru64 lpWire).toOption
    if typ ≠ 0x64 then none
    else
      let (lenV, nL) ← (readVaru64 (lpWire.drop nT)).toOption
      let payloadStart := nT + nL
      if payloadStart + lenV > lpWire.length then none
      else
        let existingPayload := (lpWire.drop payloadStart).take lenV
        some (writeTlv lpPacket (writeTlv lpCongestionMark (nni mark) ++ existingPayload))

def sequenceOf (raw : Bytes) : Option ℕ :=
  match readTlv raw with
  | .error _ => none
  | .ok ((typ, body), _) =>
    if typ ≠ lpPacket then none
    else
      match findTlv lpSequence body with
      | .error _ => none
      | .ok value => value.map decodeBeU64

end Lp

/-- What the features add to a frame that goes out. -/
structure EgressFields where
  traceContext : Option Bytes := none
  congestionMark : Bool := false
  presence : Option Bytes := none

namespace EgressFields

/-- `on_egress` of the features that write to a frame, in their order. -/
def onEgress (f : EgressFields) (wire : Bytes) : Bytes :=
  let traced := spliceSome wire TlvType.traceContext f.traceContext
  let marked := if f.congestionMark then (spliceCongestionMark traced 1).getD traced else traced
  spliceSome marked TlvType.alPresence f.presence

end EgressFields

/-! ## The link service -/

def Lp.encodeLpPacket (packet : Bytes) : Bytes :=
  if isLpPacket packet then packet
  else writeTlv lpPacket (writeTlvs [(lpFragment, packet)])

/-- `LpLinkService`: the state of the reliability feature, and the counter for fragments of its
own. -/
structure LpLinkService (ρ : Type) where
  link : LpLink ρ
  fragmentSeq : ℕ

namespace LpLinkService

variable {ρ : Type}

def fragCount (packetLen mtu : ℕ) : ℕ := Chunks.count (max (mtu - fragOverhead) 1) packetLen

variable (self : LpLinkService ρ)

def reserveFragmentSeqs (packetLen mtu : ℕ) : LpLinkService ρ × ℕ :=
  let n := max (fragCount packetLen mtu) 1
  ({ self with fragmentSeq := (self.fragmentSeq + n) % 2 ^ 64 }, self.fragmentSeq)

def frameFragments (now : ℕ) (payload : Bytes) (mtu : ℕ) : LpLinkService ρ × List Bytes :=
  let (link, wires) := (self.link.setMtu mtu).onSend now payload
  ({ self with link := link }, wires)

/-- The fragments of the link service itself, with what the features add to each. -/
def ownFragments (payload : Bytes) (mtu : ℕ)
    (egress : ℕ → EgressFields) : LpLinkService ρ × List Bytes :=
  let (self, seq) := self.reserveFragmentSeqs payload.length mtu
  (self, (fragmentPacket payload mtu seq).mapIdx fun i frag => (egress i).onEgress frag)

def fragmentForEgress (now : ℕ) (payload : Bytes) (mtu : ℕ)
    (egress : ℕ → EgressFields) : LpLinkService ρ × List Bytes :=
  let (self, wires) := self.frameFragments now payload mtu
  if wires ≠ [] then (self, wires) else self.ownFragments payload mtu egress

/-- What `send` fragments, and to which MTU: a packet that is too long, or the network packet in a
complete frame that is too long. -/
def toFragment (sendMtu : Option ℕ) (packet : Bytes) : Option (ℕ × Bytes) := do
  let mtu ← sendMtu
  if isLpPacket packet then
    if packet.length > mtu ∧ mtu > fragOverhead then
      let lp ← (LpPacket.decode packet).toOption
      if lp.fragCount.getD 1 ≤ 1 then
        let inner ← lp.fragment
        return (mtu, inner)
      else none
    else none
  else if packet.length + 4 > mtu then return (mtu, packet)
  else none

/-- `LpLinkService::send`, with the MTU of the transport and with what the features add to each
frame. -/
def send (now : ℕ) (sendMtu : Option ℕ) (packet : Bytes)
    (egress : ℕ → EgressFields) : LpLinkService ρ × List Bytes :=
  match toFragment sendMtu packet with
  | some (mtu, payload) => self.fragmentForEgress now payload mtu egress
  | none => (self, [(egress 0).onEgress (encodeLpPacket packet)])

end LpLinkService

/-! ## The Sequences of fragments -/

def seqBlock (base n : ℕ) : List ℕ := (List.range n).map fun i => (base + i) % 2 ^ 64

lemma Lp.sequenceOf_encodeLpReliable {chunk : Bytes} (hsize : chunk.length < 2 ^ 63) (txSeq : ℕ)
    (info : Option (ℕ × ℕ × ℕ)) {acks : List ℕ} (hfew : acks.length ≤ 16) :
    sequenceOf (encodeLpReliable chunk txSeq info acks) = info.map fun x => x.1 % 2 ^ 64 := by
  obtain ⟨-, hlen⟩ := reliableElements_fit hsize txSeq info hfew
  have htyp : ∀ e ∈ reliableElements chunk txSeq info acks, e.1 < 2 ^ 32 := by
    intro e he
    rw [reliableElements_eq, mem_append, mem_singleton] at he
    rcases he with he | rfl
    · exact (reliableHeaders_short info acks txSeq e he).1
    · exact (by decide : lpFragment < 2 ^ 32)
  have hread := readTlv_writeTlv_self (by decide : lpPacket < 2 ^ 32) hlen
  have hfind : (reliableElements chunk txSeq info acks).find?
      (fun e => e.1 = lpSequence) = info.map fun x => (lpSequence, beBytes 8 x.1) := by
    cases info with
    | some info => rfl
    | none =>
      refine find?_eq_none.mpr fun e he => ?_
      simp only [reliableElements, fragElements, nil_append, mem_append, mem_map,
        mem_cons, not_mem_nil, or_false] at he
      rcases he with ⟨ack, -, rfl⟩ | rfl | rfl <;> simp only [decide_eq_true_eq] <;> decide
  rw [sequenceOf, encodeLpReliable, hread]
  dsimp only
  rw [if_neg (by simp), findTlv_writeTlvs _ (elementOk_of_length htyp hlen), hfind]
  cases info with
  | none => rfl
  | some info => exact congrArg some (decodeBeU64_beBytes info.1)

namespace LpReliability

/-- The Sequences that a packet takes: one for each fragment, if there are several. -/
def sequencesTaken (self : LpReliability) (pkt : Bytes) : List ℕ :=
  let fragCount := Chunks.count self.payloadCap pkt.length
  if 1 < fragCount then seqBlock self.nextSeq fragCount else []

lemma sequences_onSend (self : LpReliability) (now : ℕ) {pkt : Bytes}
    (hsize : pkt.length < 2 ^ 63) :
    (self.onSend now pkt).2.filterMap sequenceOf = self.sequencesTaken pkt := by
  rw [sequencesTaken]
  by_cases hroom : 0 < self.payloadCap
  · have hfram : ∀ i, sequenceOf (frame self.payloadCap
        (Chunks.count self.payloadCap pkt.length) self.nextSeq self.acksToSend pkt i
        (txSeqAt self.nextTxSeq i)) =
        if 1 < Chunks.count self.payloadCap pkt.length then some ((self.nextSeq + i) % 2 ^ 64)
        else none := by
      intro i
      have hchun : (chunkAt self.payloadCap pkt i).length < 2 ^ 63 := by
        rw [chunkAt_eq]
        exact (Chunks.length_chunk_le self.payloadCap pkt i).trans_lt hsize
      have hacks : (if i = 0 then self.acksToSend else []).length ≤ 16 := by
        split_ifs
        · exact length_take_le _ _
        · exact Nat.zero_le _
      rw [frame, sequenceOf_encodeLpReliable hchun _ _ hacks]
      split_ifs <;> rfl
    rw [self.onSend_eq now pkt hroom, filterMap_map]
    simp only [Function.comp_def, hfram]
    split_ifs with hmany
    · rw [seqBlock, ← filterMap_eq_map]
      rfl
    · exact filterMap_eq_nil_iff.mpr fun _ _ => rfl
  · have hzero : self.payloadCap = 0 := by omega
    have hnone : (self.onSend now pkt).2 = [] := by rw [onSend, if_pos hzero]
    rw [hnone, hzero, Chunks.count, Nat.div_zero]
    rfl

end LpReliability

/-! ## Sequences along a run -/

/-- What is called on a link service: a packet is sent, with the MTU of the transport and what the
features add to each frame, or something is called on the reliability state. -/
inductive ServiceOp (ρ : Type) where
  | send (now : ℕ) (sendMtu : Option ℕ) (packet : Bytes) (egress : ℕ → EgressFields)
  | link (op : LinkOp ρ)

namespace ServiceOp

variable {ρ : Type}

def IsSlice : ServiceOp ρ → Prop
  | .send _ _ packet _ => packet.length < 2 ^ 63
  | .link op => op.IsSlice

/-- The numbers that a call takes from the counter at most. -/
def cost : ServiceOp ρ → ℕ
  | .send _ _ packet _ => packet.length
  | .link (.onSend _ pkt) => pkt.length
  | .link _ => 0

def totalCost : List (ServiceOp ρ) → ℕ
  | [] => 0
  | op :: ops => op.cost + totalCost ops

end ServiceOp

structure ServiceRun (ρ : Type) where
  service : LpLinkService ρ
  sequences : List ℕ

namespace ServiceRun

variable {ρ : Type}

/-- `LpLinkService::new`. -/
def start (E : RtoEstimator ρ) (mtu : ℕ) (config : ReliabilityConfig ρ) : ServiceRun ρ :=
  ⟨⟨.fromConfig E mtu config, 0⟩, []⟩

/-- One call. A packet that is not fragmented has no Sequence of the service's. -/
def step (E : RtoEstimator ρ) (s : ServiceRun ρ) : ServiceOp ρ → ServiceRun ρ
  | .send now sendMtu packet egress =>
    let (service, wires) := s.service.send now sendMtu packet egress
    if (LpLinkService.toFragment sendMtu packet).isSome then
      ⟨service, s.sequences ++ wires.filterMap sequenceOf⟩
    else { s with service := service }
  | .link op =>
    let (link, wires) := s.service.link.call E op
    ⟨{ s.service with link := link }, s.sequences ++ wires.filterMap sequenceOf⟩

/-- A packet that is fragmented is not left to the link service itself: the reliability state has a
frame for it. -/
def Protected (s : ServiceRun ρ) : ServiceOp ρ → Prop
  | .send _ sendMtu packet _ => ∀ x ∈ LpLinkService.toFragment sendMtu packet,
      (s.service.link.setMtu x.1).toLpReliability.HasFrame x.2
  | .link _ => True

/-- The Sequences sent are distinct and behind the counter. -/
structure Behind (s : ServiceRun ρ) : Prop where
  nodup : s.sequences.Nodup
  lt : ∀ n ∈ s.sequences, n < s.service.link.nextSeq

end ServiceRun

/-! ### What the calls take -/

lemma seqBlock_spec {base n : ℕ} (h : base + n ≤ 2 ^ 64) :
    (seqBlock base n).Nodup ∧ ∀ x ∈ seqBlock base n, base ≤ x ∧ x < base + n := by
  have hbloc : seqBlock base n = (range n).map (base + ·) := by
    refine map_congr_left fun i hi => Nat.mod_eq_of_lt ?_
    have := mem_range.mp hi
    omega
  rw [hbloc]
  refine ⟨nodup_range.map fun _ _ => Nat.add_left_cancel, fun x hx => ?_⟩
  obtain ⟨i, hi, rfl⟩ := mem_map.mp hx
  have := mem_range.mp hi
  omega

namespace LpReliability

variable (self : LpReliability)

lemma nextSeq_onSend (now : ℕ) (pkt : Bytes) :
    (self.onSend now pkt).1.nextSeq =
      if self.payloadCap = 0 then self.nextSeq
      else (self.nextSeq + Chunks.count self.payloadCap pkt.length) % 2 ^ 64 := by
  rw [onSend]
  dsimp only
  split_ifs
  · rfl
  · refine Run.foldl_unchanged (fun s : LpReliability × List Bytes => s.1.nextSeq) ?_ _ _
    exact fun _ _ => rfl

lemma onSend_ne_nil_iff (now : ℕ) (pkt : Bytes) :
    (self.onSend now pkt).2 ≠ [] ↔ self.HasFrame pkt := by
  rw [hasFrame_iff, ← length_pos_iff, length_onSend]
  split_ifs with hzero
  · simp [hzero]
  have hpos := Nat.pos_of_ne_zero hzero
  have hle := Chunks.count_le hpos pkt.length
  have hge := Chunks.le_count_mul hpos pkt.length
  rw [← length_pos_iff]
  refine ⟨fun h => by omega, fun h => ?_⟩
  by_contra hnone
  rw [Nat.eq_zero_of_not_pos hnone, Nat.zero_mul] at hge
  omega

/-- **What a packet takes** when the counter has room for it: a block from the counter, which is
then behind the counter. -/
lemma sequencesTaken_spec {pkt : Bytes} (hroom : self.nextSeq + pkt.length < 2 ^ 64) (now : ℕ) :
    (self.sequencesTaken pkt).Nodup ∧
    (∀ n ∈ self.sequencesTaken pkt, self.nextSeq ≤ n ∧ n < (self.onSend now pkt).1.nextSeq) ∧
    self.nextSeq ≤ (self.onSend now pkt).1.nextSeq ∧
    (self.onSend now pkt).1.nextSeq ≤ self.nextSeq + pkt.length := by
  by_cases hzero : self.payloadCap = 0
  · rw [sequencesTaken, nextSeq_onSend, hzero, Chunks.count, Nat.div_zero]
    simp
  have hcnt := Chunks.count_le (Nat.pos_of_ne_zero hzero) pkt.length
  have hmod : (self.nextSeq + Chunks.count self.payloadCap pkt.length) % 2 ^ 64 =
      self.nextSeq + Chunks.count self.payloadCap pkt.length := Nat.mod_eq_of_lt (by omega)
  obtain ⟨hnd, hbloc⟩ := seqBlock_spec
    (show self.nextSeq + Chunks.count self.payloadCap pkt.length ≤ 2 ^ 64 by omega)
  rw [sequencesTaken, nextSeq_onSend, if_neg hzero, hmod]
  refine ⟨?_, ?_, by omega, by omega⟩
  · split_ifs
    · exact hnd
    · exact nodup_nil
  · split_ifs
    · exact hbloc
    · exact forall_mem_nil _

end LpReliability

/-- Only a packet that is sent moves the counter. -/
lemma LpLink.nextSeq_call {ρ : Type} (E : RtoEstimator ρ) (self : LpLink ρ) {op : LinkOp ρ}
    (hop : ∀ now pkt, op ≠ .onSend now pkt) : (self.call E op).1.nextSeq = self.nextSeq := by
  cases op with
  | onSend now pkt => exact absurd rfl (hop now pkt)
  | onReceive now later raw =>
    have hacks : ∀ e : LpEndpoint ρ, ((extractAcks raw).acks.foldl
        (LpEndpoint.processAck E later) e).nextSeq = e.nextSeq := by
      refine Run.foldl_unchanged (fun e : LpEndpoint ρ => e.nextSeq) (fun e ack => ?_) _
      obtain ⟨estimator, heq⟩ := e.processAck_eq E later ack
      rw [heq]
    rw [call, LpLink.onReceive, LpEndpoint.onReceive]
    rw [hacks]
    cases (extractAcks raw).txSeq with
    | none => rfl
    | some seq =>
      dsimp only
      rw [LpEndpoint.receiveTxSeq]
      dsimp only
      split_ifs <;> rfl
  | takeFastRetransmits now =>
    have h := congrArg (fun link : LpLink ρ => link.nextSeq) (self.others_takeFastRetransmits now)
    exact h
  | checkRetransmit now =>
    have h := congrArg (fun link : LpLink ρ => link.nextSeq) (self.others_checkRetransmit E now)
    exact h
  | flushAcks =>
    rw [call, LpLink.flushAcks, LpEndpoint.flushAcks]
    split_ifs <;> rfl
  | setMtu mtu => rfl
  | applyConfig config => rfl

/-- What `send` fragments is no longer than the packet. -/
lemma LpLinkService.length_toFragment_le {sendMtu : Option ℕ} {packet payload : Bytes} {mtu : ℕ}
    (h : toFragment sendMtu packet = some (mtu, payload)) : payload.length ≤ packet.length := by
  cases sendMtu with
  | none => cases h
  | some mtu' =>
    rw [toFragment] at h
    simp only [Option.bind_eq_bind, Option.bind_some] at h
    split_ifs at h with hlp hlong hlong
    · cases hdec : LpPacket.decode packet with
      | error _ =>
        rw [hdec] at h
        cases h
      | ok lp =>
        rw [hdec] at h
        simp only [Except.toOption, Option.bind_some] at h
        split_ifs at h
        obtain ⟨inner, hinn, heq⟩ := Option.bind_eq_some_iff.mp h
        cases heq
        exact (LpPacket.length_fragment_lt hdec hinn).le
    · cases h
      exact le_rfl

namespace ServiceRun

variable {ρ : Type} {E : RtoEstimator ρ} {s s' : ServiceRun ρ} {now : ℕ}

/-- **A packet that the reliability state frames**: its numbers are new. -/
lemma Behind.framed (h : s.Behind) (rel : LpReliability) {pkt : Bytes}
    (hrel : rel.nextSeq = s.service.link.nextSeq) (hsize : pkt.length < 2 ^ 63)
    (hroom : s.service.link.nextSeq + pkt.length < 2 ^ 64)
    (hnext : s'.service.link.nextSeq = (rel.onSend now pkt).1.nextSeq)
    (hseq : s'.sequences = s.sequences ++ (rel.onSend now pkt).2.filterMap sequenceOf) :
    s'.Behind ∧ s'.service.link.nextSeq ≤ s.service.link.nextSeq + pkt.length := by
  obtain ⟨hnd, hbloc, hge, hle⟩ := rel.sequencesTaken_spec (hrel ▸ hroom) now
  rw [rel.sequences_onSend now hsize] at hseq
  refine ⟨⟨?_, ?_⟩, by omega⟩
  · rw [hseq, nodup_append]
    refine ⟨h.nodup, hnd, ?_⟩
    rintro n hn _ hn' rfl
    have := h.lt n hn
    have := (hbloc n hn').1
    omega
  · intro n hn
    rw [hseq, mem_append] at hn
    rw [hnext]
    rcases hn with hn | hn
    · have := h.lt n hn
      omega
    · exact (hbloc n hn).2

lemma Behind.send (h : s.Behind) {sendMtu : Option ℕ} {packet : Bytes} {egress : ℕ → EgressFields}
    (hsize : packet.length < 2 ^ 63) (hroom : s.service.link.nextSeq + packet.length < 2 ^ 64)
    (hprot : s.Protected (.send now sendMtu packet egress)) :
    (s.step E (.send now sendMtu packet egress)).Behind ∧
      (s.step E (.send now sendMtu packet egress)).service.link.nextSeq ≤
        s.service.link.nextSeq + packet.length := by
  cases hfrag : LpLinkService.toFragment sendMtu packet with
  | none =>
    have hstep : s.step E (.send now sendMtu packet egress) = s := by
      simp [step, LpLinkService.send, hfrag]
    rw [hstep]
    exact ⟨h, Nat.le_add_right _ _⟩
  | some x =>
    obtain ⟨mtu, payload⟩ := x
    have hle := LpLinkService.length_toFragment_le hfrag
    have hne : (s.service.frameFragments now payload mtu).2 ≠ [] :=
      (LpReliability.onSend_ne_nil_iff _ now payload).mpr (hprot (mtu, payload) hfrag)
    have hstep : s.step E (.send now sendMtu packet egress) =
        ⟨(s.service.frameFragments now payload mtu).1, s.sequences ++
          (s.service.frameFragments now payload mtu).2.filterMap sequenceOf⟩ := by
      simp only [step, LpLinkService.send, hfrag, LpLinkService.fragmentForEgress, if_pos hne,
        Option.isSome_some, if_true]
    rw [hstep]
    refine And.imp_right (fun hnext => le_trans hnext (Nat.add_le_add_left hle _)) ?_
    exact h.framed (s.service.link.setMtu mtu).toLpReliability rfl (hle.trans_lt hsize) (by omega)
      rfl rfl

lemma Behind.link (h : s.Behind) {op : LinkOp ρ} (hslic : op.IsSlice)
    (hroom : s.service.link.nextSeq + (ServiceOp.link op).cost < 2 ^ 64) :
    (s.step E (.link op)).Behind ∧ (s.step E (.link op)).service.link.nextSeq ≤
      s.service.link.nextSeq + (ServiceOp.link op).cost := by
  by_cases hop : ∃ now pkt, op = .onSend now pkt
  · obtain ⟨now, pkt, rfl⟩ := hop
    exact h.framed s.service.link.toLpReliability rfl hslic hroom rfl rfl
  have hop' : ∀ now pkt, op ≠ .onSend now pkt := fun now pkt heq => hop ⟨now, pkt, heq⟩
  have hnext := s.service.link.nextSeq_call E hop'
  have hwir : (s.service.link.call E op).2 = [] := by
    cases op <;> first | rfl | exact absurd rfl (hop' _ _)
  have hstep : s.step E (.link op) =
      ⟨{ s.service with link := (s.service.link.call E op).1 }, s.sequences⟩ := by
    simp [step, hwir]
  rw [hstep]
  refine ⟨⟨h.nodup, fun n hn => ?_⟩, hnext.trans_le (Nat.le_add_right _ _)⟩
  show n < (s.service.link.call E op).1.nextSeq
  rw [hnext]
  exact h.lt n hn

lemma Behind.foldl {ops : List (ServiceOp ρ)} (hsls : ∀ op ∈ ops, op.IsSlice)
    (hprot : Run.Admits (step E) Protected s ops) (h : s.Behind)
    (hroom : s.service.link.nextSeq + ServiceOp.totalCost ops < 2 ^ 64) :
    (ops.foldl (step E) s).Behind := by
  induction ops generalizing s with
  | nil => exact h
  | cons op ops ih =>
    rw [forall_mem_cons] at hsls
    rw [ServiceOp.totalCost] at hroom
    have hstep : (s.step E op).Behind ∧
        (s.step E op).service.link.nextSeq ≤ s.service.link.nextSeq + op.cost := by
      cases op with
      | send now sendMtu packet egress =>
        rw [ServiceOp.cost] at hroom ⊢
        exact h.send hsls.1 (by omega) hprot.1
      | link op => exact h.link hsls.1 (by omega)
    exact ih hsls.2 hprot.2 hstep.1 (by omega)

/-- **No Sequence is used twice along a run** in which the reliability state has a frame for every
packet that is fragmented. Packets are slices, and they are together shorter than the 64-bit counter
can count. -/
theorem sequences_distinct (E : RtoEstimator ρ) (mtu : ℕ) (config : ReliabilityConfig ρ)
    (ops : List (ServiceOp ρ)) (hslices : ∀ op ∈ ops, op.IsSlice)
    (hfew : ServiceOp.totalCost ops < 2 ^ 64)
    (hprotected : Run.Admits (step E) Protected (start E mtu config) ops) :
    (ops.foldl (step E) (start E mtu config)).sequences.Nodup :=
  (Behind.foldl hslices hprotected ⟨List.nodup_nil, List.forall_mem_nil _⟩
    ((Nat.zero_add _).trans_lt hfew)).nodup

namespace Sample

def packet : ServiceOp ℕ := .send 0 (some 200) (.replicate 300 6) fun _ => {}

/-- Fifteen frames of the peer are received, and their Acks wait. -/
def fifteen : List (ServiceOp ℕ) :=
  (List.range 15).map fun k => .link (.onReceive 0 0 (encodeLpReliable [0xAA] k none []))

def sequences (ops : List (ServiceOp ℕ)) : List ℕ :=
  (ops.foldl (step AckRun.Sample.fixedRto)
    (start AckRun.Sample.fixedRto 8800 LinkRun.Sample.oneRetry)).sequences

end Sample

/-- `sequences_distinct` for two packets. -/
theorem sequences_distinct_two_packets :
    Sample.sequences [Sample.packet, Sample.packet] = [0, 1, 2, 3] ∧
      (Sample.sequences [Sample.packet, Sample.packet]).Nodup := by
  refine ⟨by decide +kernel, sequences_distinct _ _ _ _ ?_ (by decide +kernel) ?_⟩
  · have hslic : Sample.packet.IsSlice := by
      show (replicate 300 (6 : UInt8)).length < 2 ^ 63
      rw [length_replicate]
      decide
    simp [hslic]
  · have hfrag : LpLinkService.toFragment (some 200) (replicate 300 6) =
        some (200, replicate 300 6) := by
      decide +kernel
    refine ⟨fun x hx => ?_, fun x hx => ?_, trivial⟩ <;>
    · cases hfrag.symm.trans hx
      decide +kernel

/-- **A Sequence that is used twice.** Where the transport takes two hundred bytes, a packet of
three hundred is framed in two fragments with the Sequences 0 and 1. Then fifteen Acks wait, and the
reliability state has no room for payload next to them: the next packet of three hundred bytes is
fragmented by the link service itself, with the Sequences 0 and 1. -/
theorem sequence_reused :
    Sample.sequences ([Sample.packet] ++ Sample.fifteen ++ [Sample.packet]) = [0, 1, 0, 1] := by
  decide +kernel

end ServiceRun

end NdnRs
