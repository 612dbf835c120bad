import NdnRs.Packet.Lp

/-!
# Acks in link-layer packets (`ndn-packet/src/lp/fragment.rs`, `encode.rs`)

The reliability layer reads the TxSequence and the Acks of a frame without decoding the rest, and
sends Acks by themselves when there is no frame to put them on.
-/

namespace NdnRs

open Bytes Tlv List TlvType

/-- What `extract_acks` returns: the TxSequence and the Acks. -/
structure AckFields where
  txSeq : Option ℕ
  acks : List ℕ

namespace Lp

/-- What `extract_acks` does with one element. -/
def ackField (f : AckFields) (e : ℕ × Bytes) : AckFields :=
  if e.1 = 0x0348 then { f with txSeq := some (decodeBeU64 e.2) }
  else if e.1 = 0x0344 then { f with acks := f.acks ++ [decodeBeU64 e.2] }
  else f

/-- The loop of `extract_acks` over the inner bytes, from a position on; it ends where something
cannot be read. Every turn moves the position, so the number of bytes is fuel enough. -/
def acksLoop (inner : Bytes) : ℕ → ℕ → AckFields → AckFields
  | 0, _, f => f
  | fuel + 1, pos, f =>
    if pos < inner.length then
      match readVaru64 (inner.drop pos) with
      | .error _ => f
      | .ok (t, tn) =>
        match readVaru64 (inner.drop (pos + tn)) with
        | .error _ => f
        | .ok (l, ln) =>
          let start := pos + tn + ln
          if start + l ≤ inner.length then
            acksLoop inner fuel (start + l) (ackField f (t, (inner.drop start).take l))
          else f
    else f

def extractAcks (raw : Bytes) : AckFields :=
  if raw.head? ≠ some 0x64 then ⟨none, []⟩
  else
    match readVaru64 raw with
    | .error _ => ⟨none, []⟩
    | .ok (_, typeLen) =>
      match readVaru64 (raw.drop typeLen) with
      | .error _ => ⟨none, []⟩
      | .ok (outerLen, lenLen) =>
        let headerLen := typeLen + lenLen
        if headerLen + outerLen ≤ raw.length then
          let inner := (raw.drop headerLen).take outerLen
          acksLoop inner inner.length 0 ⟨none, []⟩
        else ⟨none, []⟩

def ackElement (ack : ℕ) : ℕ × Bytes := (lpAck, nni ack)

def encodeLpAcks (acks : List ℕ) : Bytes :=
  writeTlv lpPacket (writeTlvs (acks.map ackElement))

/-! ## The reader on any frame -/

variable {f : AckFields} {es : List (ℕ × Bytes)}

lemma ackField_txSeq_lt (hf : ∀ seq ∈ f.txSeq, seq < 2 ^ 64) (e : ℕ × Bytes) :
    ∀ seq ∈ (ackField f e).txSeq, seq < 2 ^ 64 := by
  rw [ackField]
  split_ifs
  · intro seq hseq
    rw [← Option.some.inj hseq]
    exact Nat.mod_lt _ (by norm_num)
  · exact hf
  · exact hf

lemma acksLoop_txSeq_lt (inner : Bytes) (fuel pos : ℕ) (hf : ∀ seq ∈ f.txSeq, seq < 2 ^ 64) :
    ∀ seq ∈ (acksLoop inner fuel pos f).txSeq, seq < 2 ^ 64 := by
  induction fuel generalizing pos f with
  | zero => exact hf
  | succ fuel ih =>
    rw [acksLoop]
    split_ifs
    · cases readVaru64 (inner.drop pos) with
      | error _ => exact hf
      | ok t =>
        simp only
        cases readVaru64 (inner.drop (pos + t.2)) with
        | error _ => exact hf
        | ok l =>
          simp only
          split_ifs
          · exact ih _ (ackField_txSeq_lt hf _)
          · exact hf
    · exact hf

lemma extractAcks_txSeq_lt (raw : Bytes) : ∀ seq ∈ (extractAcks raw).txSeq, seq < 2 ^ 64 := by
  have hnone : ∀ seq ∈ (⟨none, []⟩ : AckFields).txSeq, seq < 2 ^ 64 := by simp
  rw [extractAcks]
  split_ifs
  · exact hnone
  cases readVaru64 raw with
  | error _ => exact hnone
  | ok t =>
    simp only
    cases readVaru64 (raw.drop t.2) with
    | error _ => exact hnone
    | ok l =>
      simp only
      split_ifs
      · exact acksLoop_txSeq_lt _ _ _ hnone
      · exact hnone

/-! ## The reader on frames as written -/

lemma acksLoop_writeTlvs (hes : ∀ e ∈ es, e.1 < 2 ^ 64 ∧ e.2.length < 2 ^ 64) (pre : Bytes)
    (fuel : ℕ) (hfuel : (writeTlvs es).length ≤ fuel) (f : AckFields) :
    acksLoop (pre ++ writeTlvs es) fuel pre.length f = es.foldl ackField f := by
  induction es generalizing pre fuel f with
  | nil =>
    cases fuel with
    | zero => rfl
    | succ fuel => simp [acksLoop]
  | cons e es ih =>
    rw [forall_mem_cons] at hes
    obtain ⟨fuel, rfl, hrest⟩ := exists_fuel hfuel
    have helem := elementAt_append pre (writeTlvs es) hes.1.1 hes.1.2
    rw [writeTlvs_cons, acksLoop, if_pos helem.inside, helem.typ]
    simp only
    rw [helem.length]
    simp only
    rw [if_pos helem.fits, helem.value, ← length_append_writeTlv, ← append_assoc]
    exact ih hes.2 (pre ++ writeTlv e.1 e.2) fuel hrest (ackField f e)

/-- **The reader on a frame as written.** -/
theorem extractAcks_writeTlv
    (hes : ∀ e ∈ es, e.1 < 2 ^ 64 ∧ e.2.length < 2 ^ 64) (hlen : (writeTlvs es).length < 2 ^ 64) :
    extractAcks (writeTlv lpPacket (writeTlvs es)) = es.foldl ackField ⟨none, []⟩ := by
  have hfram := frameAt_append hlen []
  rw [append_nil] at hfram
  rw [extractAcks, if_neg (by simp [hfram.head]), hfram.typ]
  simp only
  rw [hfram.length]
  simp only
  rw [if_pos hfram.fits, hfram.value]
  exact acksLoop_writeTlvs hes [] _ le_rfl _

variable {acks : List ℕ}

lemma foldl_ackField_acks (hacks : ∀ ack ∈ acks, ack < 2 ^ 64) (f : AckFields) :
    (acks.map ackElement).foldl ackField f = { f with acks := f.acks ++ acks } := by
  induction acks generalizing f with
  | nil => simp
  | cons ack acks ih =>
    rw [forall_mem_cons] at hacks
    have hfld : ackField f (ackElement ack) = { f with acks := f.acks ++ [ack] } := by
      have hread : decodeBeU64 (nni ack) = ack := decodeBeU64_nni hacks.1
      simp [ackField, ackElement, lpAck, hread]
    rw [map_cons, foldl_cons, hfld, ih hacks.2]
    simp

lemma foldl_ackField_frag (info : Option (ℕ × ℕ × ℕ)) (f : AckFields) :
    (fragElements info).foldl ackField f = f := by
  cases info with
  | none => rfl
  | some info => rfl

/-- **The Acks on a frame of the reliability layer** are found, next to its TxSequence. -/
theorem extractAcks_encodeLpReliable {fragment : Bytes} {txSequence : ℕ}
    {fragInfo : Option (ℕ × ℕ × ℕ)} (hacks : ∀ ack ∈ acks, ack < 2 ^ 64)
    (hes : ∀ e ∈ reliableElements fragment txSequence fragInfo acks,
      e.1 < 2 ^ 64 ∧ e.2.length < 2 ^ 64)
    (hlen : (writeTlvs (reliableElements fragment txSequence fragInfo acks)).length < 2 ^ 64) :
    (extractAcks (encodeLpReliable fragment txSequence fragInfo acks)).acks = acks := by
  rw [encodeLpReliable, extractAcks_writeTlv hes hlen, reliableElements, foldl_append,
    foldl_append, foldl_ackField_frag]
  have hmap : acks.map (fun ack => (lpAck, nni ack)) = acks.map ackElement := rfl
  rw [hmap, foldl_ackField_acks hacks]
  rfl

lemma length_writeTlvs_acks_le (acks : List ℕ) :
    (writeTlvs (acks.map ackElement)).length ≤ acks.length * 12 := by
  induction acks with
  | nil => simp
  | cons ack acks ih =>
    have hnni := length_nni_le ack
    have htyp : varu64Size lpAck = 3 := by decide
    have hsize : varu64Size (nni ack).length = 1 := by
      unfold varu64Size
      split_ifs <;> omega
    simp only [map_cons, writeTlvs_cons, ackElement, length_append, writeTlv_length,
      tlvSize, htyp, hsize, length_cons] at ih ⊢
    omega

/-- **The Acks of a frame of Acks only** are found. -/
theorem extractAcks_encodeLpAcks (hacks : ∀ ack ∈ acks, ack < 2 ^ 64)
    (hfew : acks.length < 2 ^ 60) : extractAcks (encodeLpAcks acks) = ⟨none, acks⟩ := by
  have hlen := length_writeTlvs_acks_le acks
  have hes : ∀ e ∈ acks.map ackElement, e.1 < 2 ^ 64 ∧ e.2.length < 2 ^ 64 := by
    intro e he
    obtain ⟨ack, -, rfl⟩ := mem_map.mp he
    have hnni := length_nni_le ack
    exact ⟨(by decide : lpAck < 2 ^ 64), lt_of_le_of_lt hnni (by norm_num)⟩
  rw [encodeLpAcks, extractAcks_writeTlv hes (by omega), foldl_ackField_acks hacks]
  rfl

end Lp

end NdnRs
