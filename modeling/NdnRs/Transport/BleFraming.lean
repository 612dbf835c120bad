import NdnRs.Transport.LinkService

/-!
# Frames for Bluetooth (`ndn-ble-framing/src/lib.rs`)

A packet goes to a characteristic of bounded size either in NDNLPv2 frames or in NDNts frames,
which have one header byte. The NDNLPv2 side takes four bytes for the headers of a packet that
needs no fragments; they are more from 251 bytes on.

## Main results

* `frame_fits_iff` — when every frame fits.
-/

namespace NdnRs

open Bytes Tlv Lp Fragment List TlvType Chunks

inductive BleFraming where
  | ndnlpv2
  | ndnts
  deriving DecidableEq

namespace BleFraming

/-- The loop of `ndnts_frame`, on what is left of the packet. -/
def ndntsFragments (fragPayload : ℕ) (rest : Bytes) (seq : UInt8) (first : Bool) : List Bytes :=
  if 0 < fragPayload ∧ rest ≠ [] then
    ((if first then 0x80 ||| (seq &&& 0x7F) else seq &&& 0x7F) :: rest.take fragPayload) ::
      ndntsFragments fragPayload (rest.drop fragPayload) ((seq + 1) &&& 0x7F) false
  else []
termination_by rest.length
decreasing_by
  have := length_pos_iff.2 (by assumption : 0 < fragPayload ∧ rest ≠ []).2
  rw [length_drop]
  omega

def ndntsFrame (pkt : Bytes) (maxPayload : ℕ) : List Bytes :=
  if pkt.length ≤ maxPayload then [pkt]
  else ndntsFragments (max (maxPayload - 1) 1) pkt 0 true

/-- `frame`, with the sequence number after it. -/
def frame (self : BleFraming) (pkt : Bytes) (bleMtu : ℕ) (seq : UInt64) : List Bytes × UInt64 :=
  match self with
  | .ndnlpv2 =>
    if isLpPacket pkt then ([pkt], seq)
    else if pkt.length + 4 ≤ bleMtu then ([encodeLpPacket pkt], seq)
    else (fragmentPacket pkt bleMtu seq.toNat, seq + 1)
  | .ndnts => (ndntsFrame pkt bleMtu, seq)

/-- The bytes around a packet of a length that goes into a single NDNLPv2 frame: the types and the
lengths of the Fragment and of the LpPacket. -/
def lpHeaders (len : ℕ) : ℕ :=
  1 + varu64Size len + (1 + varu64Size (1 + varu64Size len + len))

lemma length_le_of_mem_ndntsFragments {fragPayload : ℕ} {rest f : Bytes} {seq : UInt8}
    {first : Bool} (hf : f ∈ ndntsFragments fragPayload rest seq first) :
    f.length ≤ fragPayload + 1 := by
  induction rest, seq, first using ndntsFragments.induct fragPayload with
  | case1 rest seq first hrest ih =>
    rw [ndntsFragments, if_pos hrest] at hf
    obtain rfl | hf := mem_cons.1 hf
    · simp
    · exact ih hf
  | case2 rest seq first hrest =>
    rw [ndntsFragments, if_neg hrest] at hf
    exact absurd hf not_mem_nil

lemma length_encodeLpPacket {pkt : Bytes} (hlp : isLpPacket pkt = false) :
    (encodeLpPacket pkt).length = pkt.length + lpHeaders pkt.length := by
  have htyps : varu64Size lpPacket = 1 ∧ varu64Size lpFragment = 1 := by decide
  simp only [encodeLpPacket, hlp, Bool.false_eq_true, if_false, writeTlv_length, writeTlvs_cons,
    writeTlvs_nil, append_nil, tlvSize, htyps, lpHeaders]
  omega

/-- A fragment takes at most fifty bytes more than its chunk. -/
lemma length_le_of_mem_fragmentPacket {pkt f : Bytes} {mtu seq : ℕ} (hmtu : fragOverhead < mtu)
    (hf : f ∈ fragmentPacket pkt mtu seq) : f.length ≤ mtu := by
  obtain ⟨i, -, rfl⟩ := mem_map.1 hf
  have hchunk : (chunkAt (max (mtu - fragOverhead) 1) pkt i).length ≤ mtu - fragOverhead := by
    rw [chunkAt_eq, chunk, length_take]
    omega
  have hnum : ∀ typ v, varu64Size typ = 1 → (writeTlv typ (beBytes 8 v)).length = 10 := by
    intro typ v htyp
    rw [writeTlv_length, beBytes_length, tlvSize, htyp]
    decide
  have htyps : varu64Size lpPacket = 1 ∧ varu64Size lpFragment = 1 := by decide
  simp only [fragmentElements, writeTlvs_cons, writeTlvs_nil, append_nil, writeTlv_length lpPacket,
    length_append, hnum lpSequence _ (by decide), hnum lpFragIndex _ (by decide),
    hnum lpFragCount _ (by decide), writeTlv_length lpFragment, tlvSize, htyps]
  have hinner := varu64Size_le (chunkAt (max (mtu - fragOverhead) 1) pkt i).length
  refine le_trans (Nat.add_le_add_right (Nat.add_le_add_left (varu64Size_le _) 1) _) ?_
  rw [fragOverhead] at hmtu hchunk hinner ⊢
  omega

/-- **Every frame fits**, except for a single NDNLPv2 frame whose headers take more than the four
bytes that were left for them. -/
theorem frame_fits_iff (self : BleFraming) {pkt : Bytes} (hlp : isLpPacket pkt = false)
    {bleMtu : ℕ} (hmtu : 64 ≤ bleMtu) (seq : UInt64) :
    (∀ f ∈ (self.frame pkt bleMtu seq).1, f.length ≤ bleMtu) ↔
      (self = .ndnlpv2 → pkt.length + 4 ≤ bleMtu → pkt.length + lpHeaders pkt.length ≤ bleMtu) := by
  cases self with
  | ndnlpv2 =>
    rw [frame, hlp, if_neg Bool.false_ne_true]
    by_cases hone : pkt.length + 4 ≤ bleMtu
    · simp [hone, length_encodeLpPacket hlp]
    · rw [if_neg hone]
      refine iff_of_true (fun f hf => ?_) fun _ h => absurd h hone
      exact length_le_of_mem_fragmentPacket (by rw [fragOverhead]; omega) hf
  | ndnts =>
    refine iff_of_true (fun f hf => ?_) fun h => by simp at h
    rw [frame, ndntsFrame] at hf
    split_ifs at hf with hone
    · rwa [mem_singleton.1 hf]
    · exact (length_le_of_mem_ndntsFragments hf).trans (by omega)

/-- `frame_fits_iff` for a packet that needs several NDNLPv2 frames. -/
theorem frame_fits_iff_fragments : 1 < (frame .ndnlpv2 (replicate 64 5) 64 0).1.length ∧
    ∀ f ∈ (frame .ndnlpv2 (replicate 64 5) 64 0).1, f.length ≤ 64 := by
  have hlp : isLpPacket (replicate 64 (5 : UInt8)) = false := by decide
  refine ⟨by decide, (frame_fits_iff .ndnlpv2 hlp (by decide) 0).2 fun _ hone => ?_⟩
  rw [length_replicate] at hone
  omega

/-- A packet of 253 bytes needs 261 where 257 are left. -/
theorem ndnlpv2_frame_too_long :
    ∃ f ∈ (frame .ndnlpv2 (replicate 253 5) 257 0).1, 257 < f.length := by
  have hlp : isLpPacket (replicate 253 (5 : UInt8)) = false := by decide
  refine ⟨encodeLpPacket (replicate 253 5), ?_, ?_⟩
  · rw [frame, hlp, if_neg Bool.false_ne_true, if_pos (by rw [length_replicate])]
    exact mem_singleton_self _
  · rw [length_encodeLpPacket hlp, length_replicate]
    decide

end BleFraming

end NdnRs
