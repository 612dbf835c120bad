import NdnRs.Transport.Retransmit

/-!
# How long the frames of a packet are (`ndn-transport/src/reliability.rs`)

`on_send` leaves fifty bytes of the MTU for headers and ten for each Ack, and fills the rest. The
headers are not of a fixed size: an Ack, for one, takes up to twelve bytes, as the peer chooses its
TxSequences.

## Main results

* `onSend_fits_iff` — when every frame fits into the MTU.
-/

namespace NdnRs

open Bytes Tlv Lp Fragment List TlvType Chunks

namespace Lp

/-- How long `nni` writes a number. -/
def nniSize (v : ℕ) : ℕ :=
  if v < 2 ^ 8 then 1 else if v < 2 ^ 16 then 2 else if v < 2 ^ 32 then 4 else 8

def acksSize : List ℕ → ℕ
  | [] => 0
  | ack :: acks => 4 + nniSize ack + acksSize acks

lemma length_nni (v : ℕ) : (nni v).length = nniSize v := by
  simp only [nni, encodeNonnegInteger, nniSize]
  split_ifs <;> first | rfl | omega

lemma nniSize_le (v : ℕ) : nniSize v ≤ 8 := by
  rw [← length_nni]
  exact length_nni_le v

lemma length_writeTlv_nni (typ v : ℕ) :
    (writeTlv typ (nni v)).length = varu64Size typ + 1 + nniSize v := by
  have hle := nniSize_le v
  have hone : varu64Size (nniSize v) = 1 := if_pos (by omega)
  rw [writeTlv_length, tlvSize, length_nni, hone]

lemma length_writeTlvs_acks (acks : List ℕ) :
    (writeTlvs (acks.map fun ack => (lpAck, nni ack))).length = acksSize acks := by
  induction acks with
  | nil => rfl
  | cons ack acks ih =>
    have htyp : varu64Size lpAck = 3 := by decide
    rw [map_cons, writeTlvs_cons, length_append, ih, length_writeTlv_nni, htyp, acksSize]

lemma length_writeTlvs_frag (seq idx count : ℕ) :
    (writeTlvs (fragElements (some (seq, idx, count)))).length =
      14 + nniSize idx + nniSize count := by
  have hseq : (writeTlv lpSequence (beBytes 8 seq)).length = 10 := by
    rw [writeTlv_length, beBytes_length]
    decide
  have htyp : varu64Size lpFragIndex = 1 ∧ varu64Size lpFragCount = 1 := by decide
  simp only [fragElements, writeTlvs_cons, writeTlvs_nil, length_append, length_nil, hseq,
    length_writeTlv_nni, htyp]
  omega

/-- **The length of a frame** of the reliability layer, by what is on it. -/
lemma length_encodeLpReliable (fragment : Bytes) (txSequence : ℕ) (info : Option (ℕ × ℕ × ℕ))
    (acks : List ℕ) {headers : ℕ}
    (hhead : headers = (writeTlvs (fragElements info)).length + acksSize acks +
      (4 + nniSize txSequence) + (1 + varu64Size fragment.length)) :
    (encodeLpReliable fragment txSequence info acks).length =
      1 + varu64Size (headers + fragment.length) + headers + fragment.length := by
  have htyps : varu64Size lpPacket = 1 ∧ varu64Size lpTxSequence = 3 ∧
      varu64Size lpFragment = 1 := by decide
  have hbody : (writeTlvs (reliableElements fragment txSequence info acks)).length =
      headers + fragment.length := by
    simp only [reliableElements, writeTlvs_append, writeTlvs_cons, writeTlvs_nil,
      length_append, length_nil, length_writeTlvs_acks, length_writeTlv_nni, htyps]
    rw [writeTlv_length, tlvSize, htyps.2.2]
    omega
  rw [encodeLpReliable, writeTlv_length, hbody, tlvSize, htyps.1]
  omega

end Lp

namespace LpReliability

/-- How much of a packet is on the frame at an index. -/
def chunkLen (self : LpReliability) (pkt : Bytes) (i : ℕ) : ℕ :=
  min self.payloadCap (pkt.length - i * self.payloadCap)

/-- The bytes of the frame at an index that are not payload: FragIndex and FragCount with
the Sequence before them, the Acks, the TxSequence, and the types and lengths of the fragment and of
the frame. -/
def headerSize (self : LpReliability) (pkt : Bytes) (i : ℕ) : ℕ :=
  let count := Chunks.count self.payloadCap pkt.length
  let headers := (if count > 1 then 14 + nniSize i + nniSize count else 0) +
    (if i = 0 then acksSize self.acksToSend else 0) +
    (4 + nniSize (txSeqAt self.nextTxSeq i)) + (1 + varu64Size (self.chunkLen pkt i))
  1 + varu64Size (headers + self.chunkLen pkt i) + headers

/-- The headers of each frame of a packet fit the bytes that were left for them, with those that the
payload leaves. -/
def HeadersFit (self : LpReliability) (pkt : Bytes) : Prop :=
  ∀ i < Chunks.count self.payloadCap pkt.length, self.headerSize pkt i ≤
    fragOverhead + self.acksToSend.length * 10 + (self.payloadCap - self.chunkLen pkt i)

instance (self : LpReliability) (pkt : Bytes) : Decidable (self.HeadersFit pkt) :=
  inferInstanceAs (Decidable (∀ i < _, _))

variable {self : LpReliability}

lemma length_chunkAt (pkt : Bytes) (i : ℕ) :
    (chunkAt self.payloadCap pkt i).length = self.chunkLen pkt i := by
  rw [chunkAt_eq, chunk, length_take, length_drop, chunkLen]

lemma length_frame (netSeq : ℕ) (pkt : Bytes) (i : ℕ) :
    (frame self.payloadCap (count self.payloadCap pkt.length) netSeq self.acksToSend pkt i
      (txSeqAt self.nextTxSeq i)).length = self.headerSize pkt i + self.chunkLen pkt i := by
  rw [frame, length_encodeLpReliable _ _ _ _ rfl, length_chunkAt, headerSize]
  have hfrag : (writeTlvs (fragElements
      (if count self.payloadCap pkt.length > 1 then
        some (netSeq + i, i, count self.payloadCap pkt.length) else none))).length =
      if count self.payloadCap pkt.length > 1 then
        14 + nniSize i + nniSize (count self.payloadCap pkt.length) else 0 := by
    split_ifs
    · exact length_writeTlvs_frag _ _ _
    · rfl
  have hacks : acksSize (if i = 0 then self.acksToSend else []) =
      if i = 0 then acksSize self.acksToSend else 0 := by
    split_ifs <;> rfl
  rw [hfrag, hacks]

/-- **The frames of a packet fit the MTU** iff their headers fit what is left for them. -/
theorem onSend_fits_iff (self : LpReliability) (now : ℕ) (pkt : Bytes) :
    (∀ wire ∈ (self.onSend now pkt).2, wire.length ≤ self.mtu) ↔ self.HeadersFit pkt := by
  by_cases hroom : 0 < self.payloadCap
  · have hmtu : self.mtu = fragOverhead + self.acksToSend.length * 10 + self.payloadCap := by
      rw [payloadCap] at hroom ⊢
      omega
    rw [self.onSend_eq now pkt hroom, forall_mem_map]
    simp only [mem_range, length_frame]
    refine forall₂_congr fun i _ => ?_
    have hchun : self.chunkLen pkt i ≤ self.payloadCap := min_le_left _ _
    omega
  · have hzero : self.payloadCap = 0 := by omega
    have hnone : (self.onSend now pkt).2 = [] := by rw [onSend, if_pos hzero]
    have hcnt : Chunks.count self.payloadCap pkt.length = 0 := by
      rw [hzero, Chunks.count, Nat.div_zero]
    rw [hnone, HeadersFit, hcnt]
    exact iff_of_true (forall_mem_nil _) fun i hi => absurd hi i.not_lt_zero

end LpReliability

namespace LinkRun

namespace Sample

def peerFrame (k : ℕ) : Bytes := encodeLpReliable [0xAA] (2 ^ 32 + k) none []

def sixteen : List (LinkOp ℕ) := (List.range 16).map fun k => .onReceive 0 0 (peerFrame k)

end Sample

/-- **A frame that is too long.** Sixteen frames with TxSequences of more than 32 bits are received;
the first frame of the next packet, with an Ack of twelve bytes for each, has 1411 bytes where the
MTU is 1400. -/
theorem frame_too_long :
    let s := Sample.sixteen.foldl (step AckRun.Sample.fixedRto)
      (start AckRun.Sample.fixedRto 1400 Sample.oneRetry)
    s.link.mtu = 1400 ∧
      (s.link.onSend 0 (List.replicate 1500 0)).2.map List.length = [1411, 339] := by
  decide +kernel

end LinkRun

end NdnRs
