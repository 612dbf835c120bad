import NdnRs.Packet.LpAcks
import NdnRs.Transport.Reassembly

/-!
# Acks owed and sent (`ndn-transport/src/reliability.rs`)

The TxSequence of every reliable frame that arrives is owed an Ack. Acks wait in a queue; a packet
that is sent takes up to sixteen of them on its first frame, and `flush_acks` sends the rest by
themselves. `on_send` takes the Acks out of the queue before it knows whether there will be a frame
to put them on.

## Implementation notes

The round-trip estimator computes in floating point; it is a parameter, since nothing here depends
on it but the age of what is kept about received frames. Times are in nanoseconds.

## Main results

* `conserved_iff` — when every Ack owed is queued or sent.
-/

namespace NdnRs

open Bytes Tlv Lp Fragment List TlvType

/-- The round-trip estimator: its state at first, `update_rto` with a time in microseconds, and
`rto_us`. -/
structure RtoEstimator (ρ : Type) where
  initial : ρ
  updateRto : ρ → ℕ → ρ
  rtoUs : ρ → ℕ

/-- `LpReliability`, with what receiving uses. -/
structure LpEndpoint (ρ : Type) extends LpReliability where
  estimator : ρ
  recentRecv : List (ℕ × ℕ)
  recentRecvOrder : List ℕ
  duplicateFrames : ℕ
  fastRetxCandidates : List ℕ

namespace LpEndpoint

variable {ρ : Type} (E : RtoEstimator ρ)

def fromConfig (mtu maxUnacked : ℕ) : LpEndpoint ρ :=
  { nextSeq := 0
    nextTxSeq := 0
    unacked := []
    pendingAcks := []
    mtu := mtu
    maxUnacked := maxUnacked
    unackedEvictions := 0
    estimator := E.initial
    recentRecv := []
    recentRecvOrder := []
    duplicateFrames := 0
    fastRetxCandidates := [] }

def seqNumLossThreshold : ℕ := 3

/-- The loop that drops what was received longer than `rto` ago. -/
def ageRecent (now rto : ℕ) : List ℕ → List (ℕ × ℕ) → List ℕ × List (ℕ × ℕ)
  | [], recent => ([], recent)
  | front :: order, recent =>
    match recent.lookup front with
    | some seen =>
      if now - seen > rto then ageRecent now rto order (Assoc.erase front recent)
      else (front :: order, recent)
    | none => (front :: order, recent)

variable (self : LpEndpoint ρ)

/-- What `on_receive` does with the TxSequence of a frame: an Ack is owed, and the frame is a
duplicate if it was received before. -/
def receiveTxSeq (now seq : ℕ) : LpEndpoint ρ × Bool :=
  let (order, recent) := ageRecent now (E.rtoUs self.estimator * 1000) self.recentRecvOrder
    self.recentRecv
  let self := { self with
    pendingAcks := self.pendingAcks ++ [seq]
    recentRecv := Assoc.insert seq now recent }
  if (recent.lookup seq).isSome then
    ({ self with recentRecvOrder := order, duplicateFrames := self.duplicateFrames + 1 }, true)
  else ({ self with recentRecvOrder := order ++ [seq] }, false)

/-- An Ack for a later frame. -/
def noteGreaterAck (ackSeq : ℕ) (x : ℕ × UnackedEntry) : ℕ × UnackedEntry :=
  if x.1 < ackSeq then (x.1, { x.2 with nGreaterSeqAcks := x.2.nGreaterSeqAcks + 1 }) else x

/-- What `on_receive` does with one Ack: earlier frames have been overtaken once more, and the frame
is not kept any longer. -/
def processAck (now : ℕ) (self : LpEndpoint ρ) (ackSeq : ℕ) : LpEndpoint ρ :=
  let unacked := self.unacked.map (noteGreaterAck ackSeq)
  let lost := unacked.filter fun x =>
    x.1 < ackSeq ∧ x.2.nGreaterSeqAcks = seqNumLossThreshold
  let self := { self with
    unacked := unacked
    fastRetxCandidates := self.fastRetxCandidates ++ lost.map Prod.fst }
  match unacked.lookup ackSeq with
  | some entry =>
    let self := { self with unacked := Assoc.erase ackSeq unacked }
    if entry.isRetx then self
    else
      { self with estimator := E.updateRto self.estimator ((now - entry.firstSent) / 1000) }
  | none => self

/-- `LpReliability::on_receive`, which looks at the clock twice. -/
def onReceive (now later : ℕ) (raw : Bytes) : LpEndpoint ρ × Bool :=
  let fields := extractAcks raw
  let (self, isDuplicate) := match fields.txSeq with
    | some seq => self.receiveTxSeq E now seq
    | none => (self, false)
  (fields.acks.foldl (processAck E later) self, isDuplicate)

def onSend (now : ℕ) (pkt : Bytes) : LpEndpoint ρ × List Bytes :=
  let (rel, wires) := self.toLpReliability.onSend now pkt
  ({ self with toLpReliability := rel }, wires)

def flushAcks : LpEndpoint ρ × Option Bytes :=
  if self.pendingAcks = [] then (self, none)
  else ({ self with pendingAcks := [] }, some (encodeLpAcks self.pendingAcks))

def setMtu (mtu : ℕ) : LpEndpoint ρ := { self with mtu := mtu }

end LpEndpoint

/-! ## Acks on the frames of a packet -/

def Lp.acksOf (wire : Bytes) : List ℕ := (extractAcks wire).acks

variable {chunk : Bytes} {acks : List ℕ}

section

variable (hsize : chunk.length < 2 ^ 63) (txSeq : ℕ) (info : Option (ℕ × ℕ × ℕ))
include hsize

/-- The elements of a frame of `on_send` are not too long to be written. -/
lemma Lp.reliableElements_fit (hfew : acks.length ≤ 16) :
    (∀ e ∈ reliableElements chunk txSeq info acks, e.1 < 2 ^ 64 ∧ e.2.length < 2 ^ 64) ∧
      (writeTlvs (reliableElements chunk txSeq info acks)).length < 2 ^ 64 := by
  have hshor := reliableHeaders_short info acks txSeq
  have hcnt : (fragElements info ++ acks.map (fun ack => (lpAck, nni ack)) ++
      [(lpTxSequence, nni txSeq)]).length ≤ 100 := by
    cases info <;> simp [fragElements] <;> omega
  have hlen := length_writeTlvs_le hshor lpFragment chunk
  rw [reliableElements_eq]
  refine ⟨fun e he => ?_, by omega⟩
  obtain ⟨htyp, hval⟩ := elementOk_frame hshor hsize e he
  exact ⟨by omega, hval⟩

/-- A frame of `on_send` carries the Acks that were put on it. -/
lemma Lp.acksOf_encodeLpReliable (hacks : ∀ ack ∈ acks, ack < 2 ^ 64)
    (hfew : acks.length ≤ 16) : acksOf (encodeLpReliable chunk txSeq info acks) = acks := by
  obtain ⟨hes, hlen⟩ := reliableElements_fit hsize txSeq info hfew
  exact extractAcks_encodeLpReliable hacks hes hlen

end

namespace LpReliability

/-- `on_send` takes Acks out of the queue in any case. -/
lemma pendingAcks_onSend (self : LpReliability) (now : ℕ) (pkt : Bytes) :
    (self.onSend now pkt).1.pendingAcks = self.pendingAcks.drop maxPiggybackedAcks :=
  self.onSend_induction now pkt (motive := fun s => s.1.pendingAcks = _) (fun _ => rfl)
    fun _ _ _ _ _ _ h => h

/-- A frame is longer than the overhead with the Acks that go on it, and there is something to
send. -/
def HasFrame (self : LpReliability) (pkt : Bytes) : Prop :=
  fragOverhead + min maxPiggybackedAcks self.pendingAcks.length * 10 < self.mtu ∧ pkt ≠ []

instance (self : LpReliability) (pkt : Bytes) : Decidable (self.HasFrame pkt) :=
  inferInstanceAs (Decidable (_ ∧ _))

variable {pkt : Bytes}

lemma hasFrame_iff {self : LpReliability} : self.HasFrame pkt ↔ 0 < self.payloadCap ∧ pkt ≠ [] := by
  rw [HasFrame, payloadCap, acksToSend, length_take]
  refine and_congr_left' ?_
  omega

/-- **The Acks on the frames of a packet**: all that were taken out of the queue are on the first
frame, if there is one. -/
lemma acks_onSend (self : LpReliability) (now : ℕ) (hsize : pkt.length < 2 ^ 63)
    (hacks : ∀ ack ∈ self.pendingAcks, ack < 2 ^ 64) :
    (self.onSend now pkt).2.flatMap acksOf =
      if self.HasFrame pkt then self.acksToSend else [] := by
  by_cases hroom : 0 < self.payloadCap
  swap
  · have hzero : self.payloadCap = 0 := by omega
    rw [if_neg fun h => hroom (hasFrame_iff.mp h).1, onSend, if_pos hzero]
    rfl
  have hfrs := self.onSend_eq now pkt hroom
  have hacks' : ∀ ack ∈ self.acksToSend, ack < 2 ^ 64 :=
    fun ack hack => hacks ack (mem_of_mem_take hack)
  have hfram : ∀ i, acksOf (frame self.payloadCap (Chunks.count self.payloadCap pkt.length)
      self.nextSeq self.acksToSend pkt i (txSeqAt self.nextTxSeq i)) =
        if i = 0 then self.acksToSend else [] := by
    intro i
    have hchun := Chunks.length_chunk_le self.payloadCap pkt i
    rw [frame, chunkAt_eq]
    by_cases hi : i = 0
    · rw [if_pos hi]
      exact acksOf_encodeLpReliable (by omega) _ _ hacks' (length_take_le _ _)
    · rw [if_neg hi]
      exact acksOf_encodeLpReliable (by omega) _ _ (forall_mem_nil _) (Nat.zero_le _)
  rw [hfrs, flatMap_map]
  simp only [hfram]
  cases hcnt : Chunks.count self.payloadCap pkt.length with
  | zero =>
    have hle := Chunks.le_count_mul hroom pkt.length
    have hnil : pkt = [] := eq_nil_of_length_eq_zero (by rw [hcnt] at hle; omega)
    rw [if_neg fun h => h.2 hnil]
    rfl
  | succ n =>
    have hne : pkt ≠ [] := by
      rintro rfl
      have hle := Chunks.count_le hroom ([] : Bytes).length
      rw [hcnt] at hle
      simp at hle
    rw [if_pos (hasFrame_iff.mpr ⟨hroom, hne⟩), range_succ_eq_map, flatMap_cons,
      if_pos rfl, flatMap_map]
    simp

end LpReliability

/-! ## Acks along a run -/

/-- What is called on an endpoint, with the times that it sees. -/
inductive LinkCall where
  | onReceive (now later : ℕ) (raw : Bytes)
  | onSend (now : ℕ) (pkt : Bytes)
  | flushAcks
  | setMtu (mtu : ℕ)

structure AckRun (ρ : Type) where
  endpoint : LpEndpoint ρ
  owed : List ℕ
  carried : List ℕ

namespace AckRun

variable {ρ : Type} {E : RtoEstimator ρ}

def start (E : RtoEstimator ρ) (mtu maxUnacked : ℕ) : AckRun ρ :=
  ⟨.fromConfig E mtu maxUnacked, [], []⟩

/-- One call. A frame that is received owes an Ack for its TxSequence, if it has one; the Acks on
the frames that are returned have been carried. -/
def step (E : RtoEstimator ρ) (s : AckRun ρ) : LinkCall → AckRun ρ
  | .onReceive now later raw =>
    { s with
      endpoint := (s.endpoint.onReceive E now later raw).1
      owed := s.owed ++ (extractAcks raw).txSeq.toList }
  | .onSend now pkt =>
    { s with
      endpoint := (s.endpoint.onSend now pkt).1
      carried := s.carried ++ (s.endpoint.onSend now pkt).2.flatMap acksOf }
  | .flushAcks =>
    { s with
      endpoint := s.endpoint.flushAcks.1
      carried := s.carried ++ s.endpoint.flushAcks.2.toList.flatMap acksOf }
  | .setMtu mtu => { s with endpoint := s.endpoint.setMtu mtu }

/-- **Every Ack owed** has been carried by one Ack field, or still waits; in the order in which they
came to be owed. -/
def Conserved (s : AckRun ρ) : Prop := s.owed = s.carried ++ s.endpoint.pendingAcks

/-- A packet that is sent while Acks wait has a frame. -/
def KeepsAcks (s : AckRun ρ) : LinkCall → Prop
  | .onSend _ pkt => s.endpoint.pendingAcks = [] ∨ s.endpoint.toLpReliability.HasFrame pkt
  | _ => True

/-- A packet is a slice, which has fewer than `2 ^ 63` bytes. -/
def IsSlice : LinkCall → Prop
  | .onSend _ pkt => pkt.length < 2 ^ 63
  | _ => True

section

variable {s : AckRun ρ} {call : LinkCall}

lemma pendingAcks_processAck (now : ℕ) (acks : List ℕ) (endpoint : LpEndpoint ρ) :
    (acks.foldl (LpEndpoint.processAck E now) endpoint).pendingAcks = endpoint.pendingAcks := by
  refine Run.foldl_unchanged (·.pendingAcks) (fun endpoint ack => ?_) acks endpoint
  rw [LpEndpoint.processAck]
  cases (endpoint.unacked.map (LpEndpoint.noteGreaterAck ack)).lookup ack with
  | none => rfl
  | some entry =>
    simp only
    split_ifs <;> rfl

/-- **A frame that arrives** owes an Ack for its TxSequence. -/
lemma pendingAcks_onReceive (endpoint : LpEndpoint ρ) (now later : ℕ) (raw : Bytes) :
    (endpoint.onReceive E now later raw).1.pendingAcks =
      endpoint.pendingAcks ++ (extractAcks raw).txSeq.toList := by
  rw [LpEndpoint.onReceive]
  cases (extractAcks raw).txSeq with
  | none => simp [pendingAcks_processAck]
  | some seq =>
    simp only [pendingAcks_processAck, Option.toList_some, LpEndpoint.receiveTxSeq]
    split_ifs <;> rfl

/-- **One call** loses no Ack iff it does not send a packet without a frame while Acks wait. -/
lemma conserved_step_iff (h : s.Conserved) (hslic : IsSlice call)
    (hacks : ∀ ack ∈ s.endpoint.pendingAcks, ack < 2 ^ 64)
    (hfew : s.endpoint.pendingAcks.length < 2 ^ 60) :
    (s.step E call).Conserved ↔ s.KeepsAcks call := by
  rw [Conserved] at h ⊢
  cases call with
  | onReceive now later raw =>
    refine iff_of_true ?_ trivial
    simp only [step, pendingAcks_onReceive, h, append_assoc]
  | onSend now pkt =>
    have hcar := s.endpoint.toLpReliability.acks_onSend now hslic hacks
    have hpend := s.endpoint.toLpReliability.pendingAcks_onSend now pkt
    have hspl := take_append_drop LpReliability.maxPiggybackedAcks s.endpoint.pendingAcks
    simp only [step, LpEndpoint.onSend, hcar, hpend, h, append_assoc, append_cancel_left_eq]
    nth_rewrite 1 [← hspl]
    rw [append_cancel_right_eq]
    by_cases hfram : s.endpoint.toLpReliability.HasFrame pkt
    · rw [if_pos hfram]
      exact iff_of_true rfl (.inr hfram)
    · rw [if_neg hfram, take_eq_nil_iff, KeepsAcks]
      exact or_congr (iff_of_false (by decide) hfram) Iff.rfl |>.trans or_comm
  | flushAcks =>
    refine iff_of_true ?_ trivial
    simp only [step, LpEndpoint.flushAcks]
    split_ifs with hnone
    · simpa using h
    · have hread : acksOf (encodeLpAcks s.endpoint.pendingAcks) = s.endpoint.pendingAcks := by
        rw [acksOf, extractAcks_encodeLpAcks hacks hfew]
      simpa [hread] using h
  | setMtu mtu => exact iff_of_true h trivial

/-- What a run keeps while no Ack is lost: the Acks that wait are 64-bit numbers, and the calls to
come cannot make them more than a queue holds. -/
structure Inv (rest : List LinkCall) (s : AckRun ρ) : Prop where
  slices : ∀ call ∈ rest, IsSlice call
  acks_lt : ∀ ack ∈ s.endpoint.pendingAcks, ack < 2 ^ 64
  few : s.owed.length + rest.length < 2 ^ 60

lemma length_owed_step_le (call : LinkCall) : (s.step E call).owed.length ≤ s.owed.length + 1 := by
  cases call with
  | onReceive now later raw =>
    have hone : (extractAcks raw).txSeq.toList.length ≤ 1 := by
      cases (extractAcks raw).txSeq <;> simp
    rw [step, length_append]
    omega
  | onSend now pkt => exact Nat.le_succ _
  | flushAcks => exact Nat.le_succ _
  | setMtu mtu => exact Nat.le_succ _

lemma acks_lt_step (h : ∀ ack ∈ s.endpoint.pendingAcks, ack < 2 ^ 64) (call : LinkCall) :
    ∀ ack ∈ (s.step E call).endpoint.pendingAcks, ack < 2 ^ 64 := by
  cases call with
  | onReceive now later raw =>
    intro ack hack
    rw [step, pendingAcks_onReceive, mem_append, Option.mem_toList] at hack
    rcases hack with hack | hack
    · exact h ack hack
    · exact extractAcks_txSeq_lt raw ack hack
  | onSend now pkt =>
    intro ack hack
    have hpend := s.endpoint.toLpReliability.pendingAcks_onSend now pkt
    rw [step, LpEndpoint.onSend] at hack
    simp only [hpend] at hack
    exact h ack (mem_of_mem_drop hack)
  | flushAcks =>
    rw [step, LpEndpoint.flushAcks]
    split_ifs
    · exact h
    · exact forall_mem_nil _
  | setMtu mtu => exact h

lemma Inv.step {rest : List LinkCall} (h : Inv (call :: rest) s) : Inv rest (s.step E call) := by
  have hfew := h.few
  have hone := length_owed_step_le (E := E) (s := s) call
  rw [length_cons] at hfew
  exact ⟨fun c hc => h.slices c (mem_cons_of_mem _ hc), acks_lt_step h.acks_lt call, by omega⟩

end

/-- **No Ack is lost along a run** iff each packet that is sent while Acks wait has a frame. After
each call, the TxSequences of the frames received so far are those that the Ack fields of the frames
returned so far carry, followed by those that still wait. Packets are slices, and there are fewer
calls than a queue has places. -/
theorem conserved_iff (E : RtoEstimator ρ) (mtu maxUnacked : ℕ) (calls : List LinkCall)
    (hslices : ∀ call ∈ calls, IsSlice call) (hfew : calls.length < 2 ^ 60) :
    (∀ done, done <+: calls → (done.foldl (step E) (start E mtu maxUnacked)).Conserved) ↔
      Run.Admits (step E) KeepsAcks (start E mtu maxUnacked) calls := by
  refine Run.forall_prefix_iff_admits_of_rest Inv Conserved ?_ ?_ ?_ rfl
  · intro s call rest hinv h
    have hpend : s.endpoint.pendingAcks.length ≤ s.owed.length := by
      rw [h, length_append]
      exact Nat.le_add_left _ _
    have hfew := hinv.few
    exact conserved_step_iff h (hinv.slices call (mem_cons_self ..)) hinv.acks_lt (by omega)
  · exact fun s call rest hinv _ => hinv.step
  · refine ⟨hslices, forall_mem_nil _, ?_⟩
    rw [start, length_nil, Nat.zero_add]
    exact hfew

namespace Sample

def fixedRto : RtoEstimator ℕ := ⟨1000, fun rto _ => rto, id⟩

def frame7 : Bytes := encodeLpReliable [0xAA] 7 none []

end Sample

open Sample in
/-- `conserved_iff` for a packet of one byte, in frames of 1400. -/
theorem conserved_one_packet :
    ([LinkCall.onReceive 0 0 frame7, .onSend 1 [0xAA]].foldl (step fixedRto)
      (start fixedRto 1400 256)).Conserved := by
  refine (conserved_iff fixedRto 1400 256
    [.onReceive 0 0 frame7, .onSend 1 [0xAA]] ?_ (by decide)).mpr
    ⟨trivial, .inr ?_, trivial⟩ _ (prefix_refl _)
  · simp [IsSlice]
  · decide

open Sample in
/-- **Acks that are discarded.** A frame with TxSequence 7 is received. A packet sent in frames of
60 bytes has no room next to the Ack, and an empty packet has no frame: either way the Ack has left
the queue, and no frame carries it. -/
theorem ack_discarded :
    let crowded := [LinkCall.onReceive 0 0 frame7, .onSend 1 [0xAA]].foldl (step fixedRto)
      (start fixedRto 60 256)
    let empty := [LinkCall.onReceive 0 0 frame7, .onSend 1 []].foldl (step fixedRto)
      (start fixedRto 1400 256)
    crowded.owed = [7] ∧ crowded.carried = [] ∧ crowded.endpoint.pendingAcks = [] ∧
    empty.owed = [7] ∧ empty.carried = [] ∧ empty.endpoint.pendingAcks = [] := by
  decide

end AckRun

end NdnRs
