import NdnRs.Transport.Reliability

/-!
# From frames back to packets

Frames of several packets arrive in any order, some of them more than once. A packet comes out of
the buffer each time the last of its fragments arrives that was missing since the packet came out
before.

## Main results

* `reassembled` — what comes out is what was sent.
-/

namespace NdnRs

open Bytes Tlv Lp Fragment List TlvType Chunks LpPacket

/-! ## Frames and what they carry -/

/-- The packet in a frame that is not one fragment of several. -/
def Lp.unfragmented (raw : Bytes) : Option Bytes :=
  match LpPacket.decode raw with
  | .ok lp => if lp.isFragmented then none else lp.fragment
  | .error _ => none

/-- The frame carries the `i`-th of `n` pieces; `base` is the first Sequence. -/
def Lp.Carries (raw : Bytes) (base i n : ℕ) (piece : Bytes) : Prop :=
  if n = 1 then extractView raw = none ∧ unfragmented raw = some piece
  else extractView raw = some ⟨(base + i) % 2 ^ 64, i, n, piece⟩

/-- A packet with its frames: who sent them, and the first Sequence. -/
structure Transmission where
  endpoint : ℕ
  base : ℕ
  packet : Bytes
  frames : List Bytes
  deriving DecidableEq

namespace Transmission

/-- Frames as `fragment_packet` or `on_send` makes them, from a slice of bytes. -/
inductive Sent : Transmission → Prop
  | fragmentPacket (endpoint base mtu : ℕ) (packet : Bytes) (hbase : base < 2 ^ 64)
      (hsize : packet.length < 2 ^ 63) (hmtu : fragOverhead < mtu) :
      Sent ⟨endpoint, base, packet, fragmentPacket packet mtu base⟩
  | onSend (endpoint now : ℕ) (rel : LpReliability) (packet : Bytes) (hbase : rel.nextSeq < 2 ^ 64)
      (hsize : packet.length < 2 ^ 63) (hroom : 0 < rel.payloadCap) :
      Sent ⟨endpoint, rel.nextSeq, packet, (rel.onSend now packet).2⟩

end Transmission

namespace Lp

variable {es : List (ℕ × Bytes)} {base i n : ℕ} {chunk : Bytes}

lemma length_writeTlvs_le (hes : ∀ e ∈ es, e.1 < 2 ^ 32 ∧ e.2.length ≤ 8)
    (typ : ℕ) (fragment : Bytes) :
    (writeTlvs (es ++ [(typ, fragment)])).length ≤ es.length * 26 + 18 + fragment.length := by
  have hsize : ∀ v, varu64Size v ≤ 9 := by
    intro v
    unfold varu64Size
    split_ifs <;> omega
  induction es with
  | nil =>
    have h₁ := hsize typ
    have h₂ := hsize fragment.length
    simp only [nil_append, writeTlvs_cons, writeTlvs_nil, append_nil, writeTlv_length,
      tlvSize, length_nil]
    omega
  | cons e es ih =>
    rw [forall_mem_cons] at hes
    have h₁ := hsize e.1
    have h₂ := hsize e.2.length
    have h₃ := ih hes.2
    simp only [cons_append, writeTlvs_cons, length_append, writeTlv_length, tlvSize,
      length_cons] at h₃ ⊢
    omega

lemma elementOk_frame (hes : ∀ e ∈ es, e.1 < 2 ^ 32 ∧ e.2.length ≤ 8) {fragment : Bytes}
    (hsize : fragment.length < 2 ^ 63) : ∀ e ∈ es ++ [(lpFragment, fragment)], ElementOk e := by
  intro e he
  rcases mem_append.mp he with he | he
  · obtain ⟨htyp, hval⟩ := hes e he
    exact ⟨htyp, by omega⟩
  · rw [mem_singleton.mp he]
    have htyp : lpFragment < 2 ^ 32 := by decide
    exact ⟨htyp, hsize.trans (by norm_num)⟩

section Frames

variable {fragment : Bytes}

section

variable (hes : ∀ e ∈ es, e.1 < 2 ^ 32 ∧ e.2.length ≤ 8) (hfew : es.length ≤ 100)
  (hsize : fragment.length < 2 ^ 63)
include hes hfew hsize

lemma extractView_frame :
    extractView (writeTlv lpPacket (writeTlvs (es ++ [(lpFragment, fragment)]))) =
      viewOf (es ++ [(lpFragment, fragment)]) := by
  have hlen := length_writeTlvs_le hes lpFragment fragment
  rw [← append_nil (writeTlv _ _)]
  refine extractView_writeTlv (fun e he => ?_) (by omega) []
  obtain ⟨htyp, hval⟩ := elementOk_frame hes hsize e he
  exact ⟨by omega, hval⟩

lemma decode_frame {p : LpPacket} {lastTyp : Option ℕ}
    (hfold : es.foldlM (fun s e => decodeStep s e.1 e.2) ⟨{}, none, false⟩ =
      .ok ⟨p, lastTyp, false⟩) :
    decode (writeTlv lpPacket (writeTlvs (es ++ [(lpFragment, fragment)]))) =
      .ok { p with fragment := some fragment } := by
  have hlen := length_writeTlvs_le hes lpFragment fragment
  refine decode_eq_ok_iff.mpr ⟨es ++ [(lpFragment, fragment)], [],
    ⟨{ p with fragment := some fragment }, lastTyp, true⟩, elementOk_frame hes hsize, by omega,
    by simp, ?_, .inl (by simp), rfl⟩
  rw [foldlM_append, hfold]
  rfl

end

end Frames

lemma fragHeaders_short (seq i n : ℕ) :
    ∀ e ∈ [(lpSequence, beBytes 8 seq), (lpFragIndex, beBytes 8 i),
      (lpFragCount, beBytes 8 n)], e.1 < 2 ^ 32 ∧ e.2.length ≤ 8 := by
  simp [lpSequence, lpFragIndex, lpFragCount]

lemma carries_fragmentElements (hi : i < n) (hn : n < 2 ^ 64) (hsize : chunk.length < 2 ^ 63) :
    Carries (writeTlv lpPacket (writeTlvs (fragmentElements base n i chunk))) base i n chunk := by
  have hview := extractView_frame (fragHeaders_short (base + i) i n) (by simp) hsize
  have hcnt : decodeBeU64 (beBytes 8 n) = n := by
    rw [decodeBeU64_beBytes, Nat.mod_eq_of_lt hn]
  by_cases hone : n = 1
  · rw [Carries, if_pos hone]
    refine ⟨hview.trans ?_, ?_⟩
    · simp [viewOf, viewField, lpSequence, lpFragIndex, lpFragCount, hcnt, hone.le]
    have hdec : decode
        (writeTlv lpPacket (writeTlvs (fragmentElements base n i chunk))) =
        .ok { sequence := some (decodeBeU64 (beBytes 8 (base + i)))
              fragIndex := some (decodeBeU64 (beBytes 8 i))
              fragCount := some (decodeBeU64 (beBytes 8 n))
              fragment := some chunk } :=
      decode_frame (fragHeaders_short (base + i) i n) (by simp) hsize rfl
    rw [unfragmented, hdec, hcnt]
    simp [isFragmented, hone]
  · rw [Carries, if_neg hone]
    refine hview.trans ?_
    have hmany : 1 < decodeBeU64 (beBytes 8 n) := by
      omega
    have hnone : ∀ e ∈ ([] : List (ℕ × Bytes)), 0x53 < e.1 := forall_mem_nil _
    have hfrag := viewOf_fragment (beBytes 8 (base + i)) (beBytes 8 i) hnone hmany chunk
    rw [append_nil] at hfrag
    rw [hfrag, hcnt, decodeBeU64_beBytes, decodeBeU64_beBytes, Nat.mod_eq_of_lt (hi.trans hn)]

lemma carries_encodeLpReliable (hi : i < n) (hn : n < 2 ^ 64)
    (hsize : chunk.length < 2 ^ 63) (txSeq : ℕ) {acks : List ℕ} (hacks : acks.length ≤ 16) :
    Carries (encodeLpReliable chunk txSeq (if n > 1 then some (base + i, i, n) else none) acks)
      base i n chunk := by
  have hspl : ∀ info, encodeLpReliable chunk txSeq info acks =
      writeTlv lpPacket (writeTlvs (fragElements info ++
        acks.map (fun ack => (lpAck, nni ack)) ++ [(lpTxSequence, nni txSeq)] ++
        [(lpFragment, chunk)])) :=
    fun info => by rw [encodeLpReliable, reliableElements_eq]
  have hfew : ∀ info, (fragElements info ++ acks.map (fun ack => (lpAck, nni ack)) ++
      [(lpTxSequence, nni txSeq)]).length ≤ 100 := by
    intro info
    cases info <;> simp [fragElements] <;> omega
  have hview := fun info =>
    extractView_frame (reliableHeaders_short info acks txSeq) (hfew info) hsize
  have hlat : ∀ e ∈ acks.map (fun ack => (lpAck, nni ack)) ++
      [(lpTxSequence, nni txSeq)], 0x53 < e.1 := by
    intro e he
    simp only [mem_append, mem_map, mem_singleton] at he
    rcases he with ⟨ack, -, rfl⟩ | rfl
    · exact (by decide : 0x53 < lpAck)
    · exact (by decide : 0x53 < lpTxSequence)
  by_cases hone : n = 1
  · rw [Carries, if_pos hone, if_neg (by omega), hspl]
    refine ⟨(hview none).trans ?_, ?_⟩
    · rw [viewOf, foldlM_append, fragElements, nil_append, foldlM_viewField_skip hlat]
      rfl
    obtain ⟨values, lastTyp, hlast, hacks⟩ := foldlM_decodeStep_acks acks {} none (.inl rfl)
    have hfold : (fragElements none ++ acks.map (fun ack => (lpAck, nni ack)) ++
        [(lpTxSequence, nni txSeq)]).foldlM
        (fun s e => decodeStep s e.1 e.2) ⟨{}, none, false⟩ =
        .ok ⟨{ acks := values, txSequence := some (decodeBeU64 (nni txSeq)) },
          some lpTxSequence, false⟩ := by
      rw [foldlM_append, fragElements, nil_append, hacks]
      rcases hlast with rfl | rfl <;> rfl
    rw [unfragmented, decode_frame (reliableHeaders_short none acks txSeq) (hfew none) hsize hfold]
    rfl
  · have hmany : n > 1 := by omega
    rw [Carries, if_neg hone, if_pos hmany, hspl]
    refine (hview _).trans ?_
    have hcnt : decodeBeU64 (nni n) = n := decodeBeU64_nni hn
    have hmany' : 1 < decodeBeU64 (nni n) := by
      rw [hcnt]
      exact hmany
    have hfrag := viewOf_fragment (beBytes 8 (base + i)) (nni i) hlat hmany' chunk
    rw [fragElements, append_assoc _ (acks.map _), hfrag, hcnt, decodeBeU64_beBytes,
      decodeBeU64_nni (hi.trans hn)]

end Lp

namespace Transmission

/-- **What the frames of a packet carry**: its chunks, in order. -/
lemma Sent.spec {t : Transmission} (h : t.Sent) :
    t.base < 2 ^ 64 ∧ t.packet.length < 2 ^ 63 ∧
    ∃ cap, 0 < cap ∧ t.frames.length = count cap t.packet.length ∧
      ∀ i raw, t.frames[i]? = some raw →
        i < t.frames.length ∧ Carries raw t.base i t.frames.length (chunk cap t.packet i) := by
  cases h with
  | fragmentPacket endpoint base mtu packet hbase hsize hmtu =>
    refine ⟨hbase, hsize, max (mtu - fragOverhead) 1, by omega,
      by simp [Fragment.fragmentPacket], ?_⟩
    intro i raw hraw
    have hcnt := count_le (n := max (mtu - fragOverhead) 1) (by omega) packet.length
    have hchun := length_chunk_le (max (mtu - fragOverhead) 1) packet i
    simp only [Fragment.fragmentPacket, List.getElem?_map, Option.map_eq_some_iff,
      List.length_map, List.length_range, chunkAt_eq] at hraw ⊢
    obtain ⟨j, hj, rfl⟩ := hraw
    obtain ⟨hi, rfl⟩ := List.getElem?_eq_some_iff.mp hj
    rw [List.length_range] at hi
    rw [List.getElem_range]
    exact ⟨hi, carries_fragmentElements hi (by omega) (by omega)⟩
  | onSend endpoint now rel packet hbase hsize hroom =>
    have hfrs := rel.onSend_eq now packet hroom
    refine ⟨hbase, hsize, rel.payloadCap, hroom, by simp [hfrs], ?_⟩
    intro i raw hraw
    have hcnt := count_le hroom packet.length
    have hchun := length_chunk_le rel.payloadCap packet i
    simp only [hfrs, List.getElem?_map, Option.map_eq_some_iff, List.length_map,
      List.length_range, LpReliability.frame, chunkAt_eq] at hraw ⊢
    obtain ⟨j, hj, rfl⟩ := hraw
    obtain ⟨hi, rfl⟩ := List.getElem?_eq_some_iff.mp hj
    rw [List.length_range] at hi
    rw [List.getElem_range]
    have hacks : (if i = 0 then rel.acksToSend else []).length ≤ 16 := by
      split_ifs
      · exact List.length_take_le _ _
      · simp
    exact ⟨hi, carries_encodeLpReliable hi (by omega) (by omega) _ hacks⟩

end Transmission

/-! ## The receiver -/

/-- A frame at the receiver: a fragment goes to the buffer, any other packet is handed up. -/
def ReassemblyBuffer.receive (self : ReassemblyBuffer) (now endpoint : ℕ) (raw : Bytes) :
    ReassemblyBuffer × Option Bytes :=
  match self.tryCollectFragment now endpoint raw with
  | (self, .ok out) => (self, out)
  | (self, .error raw) => (self, unfragmented raw)

/-- What happens at the receiver: a frame of a transmission arrives, or the sweeper runs. -/
inductive LinkEvent where
  | frame (now : ℕ) (t : Transmission) (i : ℕ)
  | sweep (now : ℕ)
  deriving DecidableEq

/-- One event: the buffer, and what is handed up. -/
def LinkEvent.step (rb : ReassemblyBuffer) : LinkEvent → ReassemblyBuffer × Option Bytes
  | .frame now t i =>
    match t.frames[i]? with
    | some raw => rb.receive now t.endpoint raw
    | none => (rb, none)
  | .sweep now => (rb.purgeExpired now, none)

def LinkEvent.next (rb : ReassemblyBuffer) (e : LinkEvent) : ReassemblyBuffer := (e.step rb).1

/-- The event makes no group leave the table unfinished: a fragment that opens a group finds room,
and no group has expired when the sweeper runs. -/
def Undisturbed (rb : ReassemblyBuffer) : LinkEvent → Prop
  | .frame _ t _ => 1 < t.frames.length → rb.isFull (t.endpoint, t.base) = false
  | .sweep now => ∀ x ∈ rb.pending, rb.isLive now x.2 = true

instance (rb : ReassemblyBuffer) : DecidablePred (Undisturbed rb)
  | .frame _ t _ => inferInstanceAs (Decidable (1 < t.frames.length → _ = false))
  | .sweep now => inferInstanceAs (Decidable (∀ x ∈ rb.pending, rb.isLive now x.2 = true))

namespace ReassemblyBuffer

variable (rb : ReassemblyBuffer) (now endpoint : ℕ) {base i n : ℕ} {raw piece : Bytes}

lemma receive_of_view {v : FragmentView} (hview : extractView raw = some v) :
    rb.receive now endpoint raw =
      if v.fragIndex ≤ v.sequence then
        rb.process now endpoint (v.sequence - v.fragIndex) v.fragIndex v.fragCount v.fragment
      else (rb, none) := by
  rw [extractView, Option.map_eq_some_iff] at hview
  obtain ⟨hdr, hhdr, rfl⟩ := hview
  rw [receive, tryCollectFragment, hhdr]
  simp only
  by_cases hle : hdr.fragIndex ≤ hdr.sequence
  · rw [if_pos hle, if_pos hle]
  · rw [if_neg hle, if_neg hle]

lemma receive_single (hcar : Carries raw base i 1 piece) :
    rb.receive now endpoint raw = (rb, some piece) := by
  rw [Carries, if_pos rfl, extractView, Option.map_eq_none_iff] at hcar
  rw [receive, tryCollectFragment, hcar.1, ← hcar.2]

lemma receive_fragment (hcar : Carries raw base i n piece) (hn : n ≠ 1) (hbase : base < 2 ^ 64)
    (hi : i < 2 ^ 64) :
    rb.receive now endpoint raw =
      if base + i < 2 ^ 64 then rb.process now endpoint base i n piece else (rb, none) := by
  rw [Carries, if_neg hn] at hcar
  rw [receive_of_view rb now endpoint hcar]
  simp only
  by_cases hlt : base + i < 2 ^ 64
  · rw [if_pos hlt, Nat.mod_eq_of_lt hlt, if_pos (by omega), Nat.add_sub_cancel]
  · rw [if_neg hlt, if_neg (by omega)]

end ReassemblyBuffer

/-! ## Runs -/

namespace Transmission

/-- The other frames are of another sender, or of other Sequences. -/
def Apart (t t' : Transmission) : Prop :=
  t'.endpoint ≠ t.endpoint ∨ t.base + t.frames.length ≤ t'.base ∨
    t'.base + t'.frames.length ≤ t.base

variable (t : Transmission)

/-- The event is a frame of the transmission itself, of one apart from it, or the sweeper. -/
def Accompanied : LinkEvent → Prop
  | .frame _ t' _ => t' = t ∨ t'.Sent ∧ t.Apart t'
  | .sweep _ => True

/-- The fragment is the last missing one. -/
def Completes (held : Finset ℕ) (i : ℕ) : Prop :=
  insert i held = Finset.range t.frames.length

instance (t : Transmission) (held : Finset ℕ) (i : ℕ) : Decidable (t.Completes held i) :=
  inferInstanceAs (Decidable (insert i held = Finset.range t.frames.length))

/-- The abstract receiver: a fragment is held, until the last missing one takes all of them out. -/
def heldStep (held : Finset ℕ) : LinkEvent → Finset ℕ
  | .frame _ t' i =>
    if t' = t ∧ i < t.frames.length then if t.Completes held i then ∅ else insert i held else held
  | .sweep _ => held

def heldAfter (done : List LinkEvent) : Finset ℕ := done.foldl t.heldStep ∅

variable {t : Transmission} {rb : ReassemblyBuffer} {held : Finset ℕ} {now i cap : ℕ}

/-- The buffer holds the fragments of the transmission at the indices held. -/
def HeldIn (cap : ℕ) (rb : ReassemblyBuffer) (held : Finset ℕ) : Prop :=
  rb.Holds (t.endpoint, t.base) t.frames.length (Chunks.chunk cap t.packet) held

section

variable (h : t.HeldIn cap rb held)
include h

lemma HeldIn.own (hcap : 0 < cap) (hcnt : t.frames.length = count cap t.packet.length)
    (hfram : ∀ raw, t.frames[i]? = some raw →
      Carries raw t.base i t.frames.length (chunk cap t.packet i))
    (hi : i < t.frames.length) (hmany : 1 < t.frames.length) (hmax : t.frames.length ≤ 400)
    (hran : t.base + t.frames.length ≤ 2 ^ 64) (hroom : Undisturbed rb (.frame now t i)) :
    (LinkEvent.step rb (.frame now t i)).2 = (if t.Completes held i then some t.packet else none) ∧
    t.HeldIn cap (LinkEvent.next rb (.frame now t i)) (t.heldStep held (.frame now t i)) := by
  have hraw : t.frames[i]? = some t.frames[i] := getElem?_eq_getElem hi
  have hrec := ReassemblyBuffer.receive_fragment rb now t.endpoint (hfram _ hraw) hmany.ne'
    (by omega) (by omega)
  rw [if_pos (by omega)] at hrec
  obtain ⟨hout, hhld⟩ := ReassemblyBuffer.Holds.process h (hroom hmany) hmax hi now
  have hpkt : ((range t.frames.length).map (chunk cap t.packet)).flatten = t.packet := by
    rw [← flatMap_def, hcnt, flatMap_chunk hcap]
  rw [hpkt] at hout
  rw [LinkEvent.next, LinkEvent.step, hraw]
  simp only [hrec]
  refine ⟨hout, ?_⟩
  rw [heldStep, if_pos ⟨rfl, hi⟩]
  exact hhld

lemma HeldIn.other (hne : 0 < t.frames.length) {t' : Transmission}
    (hsent : t'.Sent) (hapar : t.Apart t') (hroom : Undisturbed rb (.frame now t' i)) :
    t.HeldIn cap (LinkEvent.next rb (.frame now t' i)) held := by
  obtain ⟨hbase, hsize, cap', hcap', hcnt', hfrs⟩ := hsent.spec
  rw [LinkEvent.next, LinkEvent.step]
  cases hraw : t'.frames[i]? with
  | none => exact h
  | some raw =>
    obtain ⟨hi, hcar⟩ := hfrs i raw hraw
    simp only
    by_cases hone : t'.frames.length = 1
    · rw [hone] at hcar
      rw [ReassemblyBuffer.receive_single rb now t'.endpoint hcar]
      exact h
    have hlen := count_le hcap' t'.packet.length
    rw [ReassemblyBuffer.receive_fragment rb now t'.endpoint hcar hone hbase (by omega)]
    split_ifs
    · refine ReassemblyBuffer.Holds.process_other h (hroom (by omega)) fun hkey => ?_
      rw [Prod.mk.injEq] at hkey
      rcases hapar with hend | hbef | haft
      · exact hend hkey.1.symm
      · omega
      · omega
    · exact h

lemma HeldIn.sweep (hlive : Undisturbed rb (.sweep now)) :
    t.HeldIn cap (LinkEvent.next rb (.sweep now)) held := by
  have hpend : (rb.purgeExpired now).pending = rb.pending :=
    filter_eq_self.mpr hlive
  obtain ⟨hin2, hvac, htak⟩ := h
  rw [← hpend] at hvac htak
  exact ⟨hin2, hvac, htak⟩

lemma HeldIn.foldl (hcap : 0 < cap) (hcnt : t.frames.length = count cap t.packet.length)
    (hfrs : ∀ i raw, t.frames[i]? = some raw →
      Carries raw t.base i t.frames.length (chunk cap t.packet i))
    (hmany : 1 < t.frames.length) (hmax : t.frames.length ≤ 400)
    (hran : t.base + t.frames.length ≤ 2 ^ 64) {events : List LinkEvent}
    (hcpy : ∀ e ∈ events, t.Accompanied e)
    (hadm : Run.Admits LinkEvent.next Undisturbed rb events) :
    t.HeldIn cap (events.foldl LinkEvent.next rb) (events.foldl t.heldStep held) := by
  induction events generalizing rb held with
  | nil => exact h
  | cons e events ih =>
    obtain ⟨hroom, hrest⟩ := hadm
    rw [forall_mem_cons] at hcpy
    refine ih ?_ hcpy.2 hrest
    cases e with
    | sweep now => exact h.sweep hroom
    | frame now t' i =>
      by_cases hown : t' = t ∧ i < t.frames.length
      · obtain ⟨rfl, hi⟩ := hown
        exact (h.own hcap hcnt (hfrs i) hi hmany hmax hran hroom).2
      rw [heldStep, if_neg hown]
      by_cases hsame : t' = t
      · -- an index behind the last frame: nothing arrives
        subst hsame
        have hnone : t'.frames[i]? = none :=
          getElem?_eq_none (not_lt.mp fun hi => hown ⟨rfl, hi⟩)
        rw [LinkEvent.next, LinkEvent.step, hnone]
        exact h
      · obtain ⟨hsent, hapar⟩ := hcpy.1.resolve_left hsame
        exact h.other (by omega) hsent hapar hroom

end

lemma heldAfter_single (hone : t.frames.length = 1) (done : List LinkEvent) :
    t.heldAfter done = ∅ := by
  have hstep : ∀ e, t.heldStep ∅ e = ∅ := by
    intro e
    cases e with
    | sweep now => rfl
    | frame now t' i =>
      rw [heldStep]
      split_ifs with hown hcom
      · rfl
      · have hzero : i = 0 := by omega
        refine absurd ?_ hcom
        rw [Completes, hone, hzero]
        rfl
      · rfl
  rw [heldAfter]
  induction done with
  | nil => rfl
  | cons e done ih => rw [foldl_cons, hstep, ih]

/-- **Reassembly.** Frames of a packet arrive in any order and any number of times, among those of
others apart from it, and no group leaves the table unfinished. When one of its frames arrives the
packet is handed up if that is the last fragment missing since the packet was last handed up, and
nothing is otherwise. -/
theorem reassembled (hsent : t.Sent) (hmax : t.frames.length ≤ 400)
    (hrange : t.base + t.frames.length ≤ 2 ^ 64) {timeout : ℕ} {done rest : List LinkEvent}
    (hi : i < t.frames.length) (hcompany : ∀ e ∈ done ++ .frame now t i :: rest, t.Accompanied e)
    (hadmits : Run.Admits LinkEvent.next Undisturbed (.new timeout)
      (done ++ .frame now t i :: rest)) :
    (LinkEvent.step (done.foldl LinkEvent.next (.new timeout)) (.frame now t i)).2 =
      if t.Completes (t.heldAfter done) i then some t.packet else none := by
  obtain ⟨-, -, cap, hcap, hcnt, hfrs⟩ := hsent.spec
  obtain ⟨hbef, hroom, -⟩ := Run.admits_append.mp hadmits
  by_cases hone : t.frames.length = 1
  · have hzero : i = 0 := by omega
    have hcom : t.Completes (t.heldAfter done) i := by
      rw [Completes, heldAfter_single hone, hone, hzero]
      rfl
    have hraw : t.frames[i]? = some t.frames[i] := getElem?_eq_getElem hi
    obtain ⟨-, hcar⟩ := hfrs i _ hraw
    have hpkt : chunk cap t.packet i = t.packet := by
      have hall := flatMap_chunk hcap t.packet
      rw [← hcnt, hone] at hall
      simpa [hzero] using hall
    rw [hone, hpkt] at hcar
    rw [if_pos hcom, LinkEvent.step, hraw]
    simp only [ReassemblyBuffer.receive_single _ now t.endpoint hcar]
  · have hmany : 1 < t.frames.length := by omega
    have hsta : t.HeldIn cap (.new timeout) ∅ :=
      ⟨Finset.empty_subset _, fun _ => rfl, fun hne => absurd rfl hne⟩
    have hheld := hsta.foldl hcap hcnt (fun i raw hraw => (hfrs i raw hraw).2) hmany hmax
      hrange (fun e he => hcompany e (mem_append_left _ he)) hbef
    exact (hheld.own hcap hcnt (fun raw hraw => (hfrs i raw hraw).2) hi hmany hmax hrange hroom).1

/-! ### A packet of two frames -/

def sample (base : ℕ) : Transmission := ⟨0, base, [1, 2, 3], fragmentPacket [1, 2, 3] 52 base⟩

/-- What is handed up, event by event. -/
def outputs (rb : ReassemblyBuffer) : List LinkEvent → List (Option Bytes)
  | [] => []
  | e :: events => (e.step rb).2 :: outputs (LinkEvent.next rb e) events

/-- `reassembled` at the second frame to arrive. -/
theorem reassembled_sample :
    (LinkEvent.step ([.frame 0 (sample 7) 1].foldl LinkEvent.next (.new 5))
      (.frame 0 (sample 7) 0)).2 =
      if (sample 7).Completes ((sample 7).heldAfter [.frame 0 (sample 7) 1]) 0 then
        some (sample 7).packet
      else none := by
  have hsent : (sample 7).Sent :=
    .fragmentPacket 0 7 52 [1, 2, 3] (by decide) (by decide) (by decide)
  have hcpy : ∀ e ∈ [.frame 0 (sample 7) 1] ++ .frame 0 (sample 7) 0 :: [],
      (sample 7).Accompanied e := by
    simp [Accompanied]
  have hadm : Run.Admits LinkEvent.next Undisturbed (.new 5)
      ([.frame 0 (sample 7) 1] ++ .frame 0 (sample 7) 0 :: []) :=
    ⟨by decide, by decide, trivial⟩
  exact reassembled hsent (by decide) (by decide) (by decide) hcpy hadm

/-- **A packet twice.** When all frames of a packet come a second time, it is handed up a second
time, though no fragment was missing; and a packet whose Sequences pass 2^64 is not handed up. -/
theorem produced_twice :
    outputs (.new 5) [.frame 0 (sample 7) 0, .frame 0 (sample 7) 1, .frame 0 (sample 7) 0,
      .frame 0 (sample 7) 1] = [none, some [1, 2, 3], none, some [1, 2, 3]] ∧
    outputs (.new 5) [.frame 0 (sample (2 ^ 64 - 1)) 0, .frame 0 (sample (2 ^ 64 - 1)) 1] =
      [none, none] := by
  decide

end Transmission

end NdnRs
