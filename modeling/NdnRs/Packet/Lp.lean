import NdnRs.Lib.Assoc
import NdnRs.Packet.Interest
import NdnRs.Wire.TlvRecords

/-!
# Link-layer packets (`ndn-packet/src/lp/`)

An LpPacket carries a network packet or one fragment of it, with link headers in ascending order.
There are two readers: `LpPacket::decode`, and `extract_fragment` for the fast path, which looks at
the fragmentation headers only.
-/

namespace NdnRs

open Bytes Tlv List Except TlvType

namespace TlvType

def nack : ℕ := 0x0320
def nackReason : ℕ := 0x0321
def lpPacket : ℕ := 0x64
def lpFragment : ℕ := 0x50
def lpSequence : ℕ := 0x51
def lpFragIndex : ℕ := 0x52
def lpFragCount : ℕ := 0x53
def lpPitToken : ℕ := 0x62
def lpIncomingFaceId : ℕ := 0x032C
def lpNextHopFaceId : ℕ := 0x0330
def lpCachePolicy : ℕ := 0x0334
def lpCachePolicyType : ℕ := 0x0335
def lpCongestionMark : ℕ := 0x0340
def lpAck : ℕ := 0x0344
def lpTxSequence : ℕ := 0x0348
def lpNonDiscovery : ℕ := 0x034C
def lpPrefixAnnouncement : ℕ := 0x0350
def alPresence : ℕ := 0x0360
def alPrevHopLoc : ℕ := 0x0362
def alDataLoc : ℕ := 0x0364

end TlvType

/-! ## The decoder -/

inductive NackReason where
  | noRoute
  | duplicate
  | congestion
  | notYet
  | other (code : ℕ)
  deriving DecidableEq

def NackReason.fromCode (code : ℕ) : NackReason :=
  if code = 50 then .congestion
  else if code = 100 then .duplicate
  else if code = 150 then .noRoute
  else if code = 160 then .notYet
  else .other code

structure NackHeader where
  reason : Option NackReason
  deriving DecidableEq

inductive CachePolicyType where
  | noCache
  | other (code : ℕ)
  deriving DecidableEq

namespace Lp

def isLpPacket (raw : Bytes) : Bool := raw.head? = some 0x64

def nni (val : ℕ) : Bytes := encodeNonnegInteger val

/-- `decode_be_u64`: shifts the bytes of any length into a 64-bit accumulator. -/
def decodeBeU64 (bytes : Bytes) : ℕ := beNat bytes % 2 ^ 64

def decodeNackHeader (value : Bytes) : Except PacketError NackHeader := do
  let reason ← (findTlv nackReason value).mapError .tlv
  return ⟨reason.map fun v => .fromCode (decodeBeU64 v)⟩

/-- The loop over a CachePolicy: the last type in it counts. -/
def decodeCachePolicy (policy : Option CachePolicyType) (value : Bytes) :
    Except PacketError (Option CachePolicyType) :=
  forEachTlv .tlv (fun policy t v =>
    return if t = lpCachePolicyType then
      some (if decodeBeU64 v = 1 then .noCache else .other (decodeBeU64 v))
    else policy) policy value

end Lp

structure LpPacket where
  fragment : Option Bytes := none
  nack : Option NackHeader := none
  congestionMark : Option ℕ := none
  sequence : Option ℕ := none
  fragIndex : Option ℕ := none
  fragCount : Option ℕ := none
  acks : List ℕ := []
  pitToken : Option Bytes := none
  incomingFaceId : Option ℕ := none
  nextHopFaceId : Option ℕ := none
  cachePolicy : Option CachePolicyType := none
  txSequence : Option ℕ := none
  nonDiscovery : Bool := false
  prefixAnnouncement : Option Bytes := none
  alPresence : Option Bytes := none
  alPrevHopLoc : Option Bytes := none
  alDataLoc : Option Bytes := none
  deriving DecidableEq

namespace LpPacket

open Lp

/-- The message for a network packet that is not in a fragment. -/
def bareMessage (t : ℕ) : String :=
  String.ofList ("bare top-level TLV-TYPE ".toList ++ hexText t ++
    " inside LpPacket body is not spec-defined; NDNLPv2 requires LpFragment (0x50)".toList)

/-- The message for a critical header that is not known. -/
def criticalMessage (t : ℕ) : String :=
  String.ofList ("unknown critical LP TLV-TYPE ".toList ++ hexText t)

abbrev Setter := LpPacket → Bytes → Except PacketError LpPacket

/-- The headers that are not about fragments, with what `decode` does with each. -/
def headerSetters : List (ℕ × Setter) :=
  [(TlvType.nack, fun p v => do return { p with nack := some (← decodeNackHeader v) }),
    (lpCongestionMark, fun p v => return { p with congestionMark := some (decodeBeU64 v) }),
    (lpAck, fun p v => return { p with acks := p.acks ++ [decodeBeU64 v] }),
    (lpPitToken, fun p v => do
      ensure (v ≠ []) (.malformedPacket "PitToken must be at least 1 byte (NDNLPv2)")
      return { p with pitToken := some v }),
    (lpIncomingFaceId, fun p v => return { p with incomingFaceId := some (decodeBeU64 v) }),
    (lpNextHopFaceId, fun p v => return { p with nextHopFaceId := some (decodeBeU64 v) }),
    (lpCachePolicy, fun p v => do
      return { p with cachePolicy := ← decodeCachePolicy p.cachePolicy v }),
    (lpTxSequence, fun p v => return { p with txSequence := some (decodeBeU64 v) }),
    (lpNonDiscovery, fun p _ => return { p with nonDiscovery := true }),
    (lpPrefixAnnouncement, fun p v => return { p with prefixAnnouncement := some v }),
    (TlvType.alPresence, fun p v => return { p with alPresence := some v }),
    (TlvType.alPrevHopLoc, fun p v => return { p with alPrevHopLoc := some v }),
    (TlvType.alDataLoc, fun p v => return { p with alDataLoc := some v })]

/-- What `decode` does with a header that is not about fragments. -/
def assignHeader (p : LpPacket) (t : ℕ) (v : Bytes) : Except PacketError LpPacket :=
  match headerSetters.lookup t with
  | some setter => setter p v
  | none =>
    if t = TlvType.interest ∨ t = TlvType.data then throw (.malformedPacket (bareMessage t))
    else do
      ensure (isCriticalTlvType t = false) (.malformedPacket (criticalMessage t))
      return p

/-- What `decode` does with one element. -/
def assign (p : LpPacket) (t : ℕ) (v : Bytes) : Except PacketError LpPacket :=
  if t = lpFragment then return { p with fragment := some v }
  else if t = lpSequence then return { p with sequence := some (decodeBeU64 v) }
  else if t = lpFragIndex then return { p with fragIndex := some (decodeBeU64 v) }
  else if t = lpFragCount then return { p with fragCount := some (decodeBeU64 v) }
  else p.assignHeader t v

/-- The variables of the loop in `decode`: the packet so far, the last header and whether the
fragment has passed. -/
structure DecodeState where
  packet : LpPacket
  lastTyp : Option ℕ
  fragmentSeen : Bool

/-- A header may follow another: it is of a greater type, or both are acks. -/
def mayFollow (lastTyp : Option ℕ) (t : ℕ) : Bool :=
  match lastTyp with
  | some prev => prev < t ∨ (t = prev ∧ t = lpAck)
  | none => true

/-- The body of the loop in `decode`. -/
def decodeStep (s : DecodeState) (t : ℕ) (v : Bytes) : Except PacketError DecodeState := do
  ensure (s.fragmentSeen = false) (.malformedPacket
    "LP header appears after Fragment (NDNLPv2 §Element Order)")
  ensure (t = lpFragment ∨ mayFollow s.lastTyp t = true) (.malformedPacket
    "LP headers out of TLV-TYPE order or non-repeatable header duplicated")
  let packet ← s.packet.assign t v
  if t = lpFragment then return ⟨packet, s.lastTyp, true⟩
  else return ⟨packet, some t, s.fragmentSeen⟩

def decode (raw : Bytes) : Except PacketError LpPacket := do
  let ((typ, value), _) ← (readTlv raw).mapError .tlv
  ensure (typ = lpPacket) (.unknownPacketType typ)
  let s ← forEachTlv .tlv decodeStep ⟨{}, none, false⟩ value
  ensure (s.packet.fragment ≠ none ∨ s.packet.acks ≠ []) (.malformedPacket
    "LpPacket has neither fragment nor acks")
  return s.packet

def isFragmented (self : LpPacket) : Bool := self.fragCount.any fun c => c > 1

def isAckOnly (self : LpPacket) : Bool := self.fragment.isNone && !self.acks.isEmpty

end LpPacket

namespace Lp

/-! ## The encoder -/

/-- The headers of a fragment: Sequence, FragIndex and FragCount. -/
def fragElements : Option (ℕ × ℕ × ℕ) → List (ℕ × Bytes)
  | some (seq, idx, count) =>
    [(lpSequence, beBytes 8 seq), (lpFragIndex, nni idx), (lpFragCount, nni count)]
  | none => []

/-- The elements of a frame of the reliability layer. -/
def reliableElements (fragment : Bytes) (txSequence : ℕ) (fragInfo : Option (ℕ × ℕ × ℕ))
    (acks : List ℕ) : List (ℕ × Bytes) :=
  fragElements fragInfo ++ acks.map (fun ack => (lpAck, nni ack)) ++
    [(lpTxSequence, nni txSequence), (lpFragment, fragment)]

def encodeLpReliable (fragment : Bytes) (txSequence : ℕ) (fragInfo : Option (ℕ × ℕ × ℕ))
    (acks : List ℕ) : Bytes :=
  writeTlv lpPacket (writeTlvs (reliableElements fragment txSequence fragInfo acks))

/-! ## The fast reader -/

/-- The variables of the loop in `extract_fragment`. -/
structure FragmentFields where
  sequence : Option ℕ
  fragIndex : Option ℕ
  fragCount : Option ℕ
  fragStart : ℕ
  fragEnd : ℕ

structure FragmentHeader where
  sequence : ℕ
  fragIndex : ℕ
  fragCount : ℕ
  fragStart : ℕ
  fragEnd : ℕ

/-- What `extract_fragment` does with one element, whose value is at the given position. -/
def extractField (f : FragmentFields) (t : ℕ) (val : Bytes) (start stop : ℕ) :
    Option FragmentFields :=
  if t = 0x51 then some { f with sequence := some (decodeBeU64 val) }
  else if t = 0x52 then some { f with fragIndex := some (decodeBeU64 val) }
  else if t = 0x53 then
    if decodeBeU64 val ≤ 1 then none else some { f with fragCount := some (decodeBeU64 val) }
  else if t = 0x50 then some { f with fragStart := start, fragEnd := stop }
  else some f

/-- The loop of `extract_fragment` over the inner bytes, from a position on. Every turn moves the
position, so the number of bytes is fuel enough. -/
def extractLoop (headerLen : ℕ) (inner : Bytes) : ℕ → ℕ → FragmentFields → Option FragmentFields
  | 0, _, f => some f
  | fuel + 1, pos, f =>
    if pos < inner.length then do
      let (t, tn) ← (readVaru64 (inner.drop pos)).toOption
      let (l, ln) ← (readVaru64 (inner.drop (pos + tn))).toOption
      let start := pos + tn + ln
      if start + l ≤ inner.length then
        let f ← extractField f t ((inner.drop start).take l) (headerLen + start)
          (headerLen + (start + l))
        extractLoop headerLen inner fuel (start + l) f
      else none
    else some f

/-- The header, when all its fields were found. -/
def FragmentFields.finish (f : FragmentFields) : Option FragmentHeader := do
  return ⟨← f.sequence, ← f.fragIndex, ← f.fragCount, f.fragStart, f.fragEnd⟩

def extractFragment (raw : Bytes) : Option FragmentHeader :=
  if raw.head? ≠ some 0x64 then none
  else do
    let (_, typeLen) ← (readVaru64 raw).toOption
    let (outerLen, lenLen) ← (readVaru64 (raw.drop typeLen)).toOption
    let headerLen := typeLen + lenLen
    if headerLen + outerLen ≤ raw.length then
      let inner := (raw.drop headerLen).take outerLen
      let f ← extractLoop headerLen inner inner.length 0 ⟨none, none, none, 0, 0⟩
      f.finish
    else none

/-- `raw.slice(frag_start..frag_end)`. -/
def FragmentHeader.fragment (self : FragmentHeader) (raw : Bytes) : Bytes :=
  (raw.take self.fragEnd).drop self.fragStart

/-! ### What it reads -/

/-- A header with the fragment in place of its position. -/
structure FragmentView where
  sequence : ℕ
  fragIndex : ℕ
  fragCount : ℕ
  fragment : Bytes
  deriving DecidableEq

/-- What the fast reader finds in a frame. -/
def extractView (raw : Bytes) : Option FragmentView :=
  (extractFragment raw).map fun h => ⟨h.sequence, h.fragIndex, h.fragCount, h.fragment raw⟩

/-- The fields found so far, with the fragment in place of its position. -/
structure ViewFields where
  sequence : Option ℕ
  fragIndex : Option ℕ
  fragCount : Option ℕ
  fragment : Bytes

/-- What the fast reader does with one element. -/
def viewField (g : ViewFields) (e : ℕ × Bytes) : Option ViewFields :=
  if e.1 = 0x51 then some { g with sequence := some (decodeBeU64 e.2) }
  else if e.1 = 0x52 then some { g with fragIndex := some (decodeBeU64 e.2) }
  else if e.1 = 0x53 then
    if decodeBeU64 e.2 ≤ 1 then none else some { g with fragCount := some (decodeBeU64 e.2) }
  else if e.1 = 0x50 then some { g with fragment := e.2 }
  else some g

/-- What the fast reader finds in a list of elements. -/
def viewOf (es : List (ℕ × Bytes)) : Option FragmentView := do
  let g ← es.foldlM viewField ⟨none, none, none, []⟩
  return ⟨← g.sequence, ← g.fragIndex, ← g.fragCount, g.fragment⟩

/-- The fields with a position stand for those with the fragment. -/
structure Represents (raw : Bytes) (f : FragmentFields) (g : ViewFields) : Prop where
  sequence : f.sequence = g.sequence
  fragIndex : f.fragIndex = g.fragIndex
  fragCount : f.fragCount = g.fragCount
  fragment : (raw.take f.fragEnd).drop f.fragStart = g.fragment

/-- A reader that has come to the position finds the element there. -/
structure ElementAt (inner : Bytes) (pos : ℕ) (e : ℕ × Bytes) : Prop where
  inside : pos < inner.length
  typ : readVaru64 (inner.drop pos) = .ok (e.1, varu64Size e.1)
  length : readVaru64 (inner.drop (pos + varu64Size e.1)) = .ok (e.2.length, varu64Size e.2.length)
  value : (inner.drop (pos + varu64Size e.1 + varu64Size e.2.length)).take e.2.length = e.2
  fits : pos + varu64Size e.1 + varu64Size e.2.length + e.2.length ≤ inner.length

lemma length_append_writeTlv (pre : Bytes) (e : ℕ × Bytes) :
    (pre ++ writeTlv e.1 e.2).length =
      pre.length + varu64Size e.1 + varu64Size e.2.length + e.2.length := by
  simp only [length_append, writeTlv_length, tlvSize]
  omega

lemma elementAt_append (pre rest : Bytes) {e : ℕ × Bytes} (htyp : e.1 < 2 ^ 64)
    (hlen : e.2.length < 2 ^ 64) :
    ElementAt (pre ++ (writeTlv e.1 e.2 ++ rest)) pre.length e where
  inside := by
    have hpos := varu64Size_pos e.1
    simp only [length_append, writeTlv_length, tlvSize]
    omega
  typ := by
    rw [drop_left]
    exact readVaru64_writeTlv _ _ htyp
  length := by
    rw [← drop_drop, drop_left]
    exact readVaru64_drop_writeTlv _ _ hlen
  value := by
    have hspl : pre ++ (writeTlv e.1 e.2 ++ rest) =
        (pre ++ writeVaru64 e.1 ++ writeVaru64 e.2.length) ++ (e.2 ++ rest) := by
      simp [writeTlv]
    rw [hspl, ← writeVaru64_length, ← writeVaru64_length, ← length_append,
      ← length_append, drop_left, take_left]
  fits := by
    simp only [length_append, writeTlv_length, tlvSize]
    omega

/-- A reader finds the frame's type, its length and what is in it. -/
structure FrameAt (raw inner : Bytes) : Prop where
  head : raw.head? = some 0x64
  typ : readVaru64 raw = .ok (0x64, 1)
  length : readVaru64 (raw.drop 1) = .ok (inner.length, varu64Size inner.length)
  fits : 1 + varu64Size inner.length + inner.length ≤ raw.length
  value : (raw.drop (1 + varu64Size inner.length)).take inner.length = inner

lemma frameAt_append {inner : Bytes} (hlen : inner.length < 2 ^ 64) (trail : Bytes) :
    FrameAt (writeTlv lpPacket inner ++ trail) inner := by
  have htyp : lpPacket < 2 ^ 64 := by decide
  have h := elementAt_append [] trail (e := (lpPacket, inner)) htyp hlen
  exact ⟨rfl, h.typ, h.length, h.fits, h.value⟩

section Reader

variable {raw : Bytes} {f : FragmentFields} {g : ViewFields}

lemma extractField_represents (hrep : Represents raw f g) (e : ℕ × Bytes) {start : ℕ}
    (hval : (raw.take (start + e.2.length)).drop start = e.2) :
    Option.Rel (Represents raw) (extractField f e.1 e.2 start (start + e.2.length))
      (viewField g e) := by
  unfold extractField viewField
  split_ifs
  · exact .some ⟨rfl, hrep.fragIndex, hrep.fragCount, hrep.fragment⟩
  · exact .some ⟨hrep.sequence, rfl, hrep.fragCount, hrep.fragment⟩
  · exact .none
  · exact .some ⟨hrep.sequence, hrep.fragIndex, rfl, hrep.fragment⟩
  · exact .some ⟨hrep.sequence, hrep.fragIndex, hrep.fragCount, hval⟩
  · exact .some hrep

lemma extractLoop_writeTlv (headerLen fuel : ℕ) (pre rest : Bytes) (e : ℕ × Bytes)
    (htyp : e.1 < 2 ^ 64) (hlen : e.2.length < 2 ^ 64) :
    extractLoop headerLen (pre ++ (writeTlv e.1 e.2 ++ rest)) (fuel + 1) pre.length f =
      (extractField f e.1 e.2 (headerLen + (pre.length + varu64Size e.1 + varu64Size e.2.length))
          (headerLen + (pre.length + varu64Size e.1 + varu64Size e.2.length + e.2.length)) >>=
        extractLoop headerLen (pre ++ (writeTlv e.1 e.2 ++ rest)) fuel
          (pre ++ writeTlv e.1 e.2).length) := by
  have helem := elementAt_append pre rest htyp hlen
  rw [length_append_writeTlv, extractLoop, if_pos helem.inside, helem.typ]
  simp only [Except.toOption, Option.bind_eq_bind, Option.bind_some]
  rw [helem.length]
  simp only [Option.bind_some]
  rw [if_pos helem.fits, helem.value]

variable {es : List (ℕ × Bytes)}

lemma extractLoop_writeTlvs (hes : ∀ e ∈ es, e.1 < 2 ^ 64 ∧ e.2.length < 2 ^ 64)
    (hdr pre trail : Bytes) (fuel : ℕ) (hfuel : (writeTlvs es).length ≤ fuel)
    (hrep : Represents (hdr ++ (pre ++ writeTlvs es ++ trail)) f g) :
    Option.Rel (Represents (hdr ++ (pre ++ writeTlvs es ++ trail)))
      (extractLoop hdr.length (pre ++ writeTlvs es) fuel pre.length f) (es.foldlM viewField g) := by
  induction es generalizing pre fuel f g with
  | nil =>
    have hend : extractLoop hdr.length (pre ++ writeTlvs []) fuel pre.length f = some f := by
      cases fuel with
      | zero => rfl
      | succ fuel => simp [extractLoop]
    rw [hend]
    exact .some hrep
  | cons e es ih =>
    rw [forall_mem_cons] at hes
    obtain ⟨fuel, rfl, hrest⟩ := exists_fuel hfuel
    rw [writeTlvs_cons] at hrep ⊢
    rw [extractLoop_writeTlv _ _ _ _ _ hes.1.1 hes.1.2, foldlM_cons]
    have hval : ((hdr ++ (pre ++ (writeTlv e.1 e.2 ++ writeTlvs es) ++ trail)).take
        (hdr.length + (pre.length + varu64Size e.1 + varu64Size e.2.length) + e.2.length)).drop
        (hdr.length + (pre.length + varu64Size e.1 + varu64Size e.2.length)) = e.2 := by
      have helem := elementAt_append (hdr ++ pre) (writeTlvs es ++ trail) hes.1.1 hes.1.2
      rw [drop_take, Nat.add_sub_cancel_left]
      simpa [Nat.add_assoc] using helem.value
    have hfld := extractField_represents hrep e hval
    rw [Nat.add_assoc hdr.length] at hfld
    generalize extractField f e.1 e.2 _ _ = f' at hfld ⊢
    generalize viewField g e = g' at hfld ⊢
    cases hfld with
    | none => exact .none
    | some hrep' =>
      have hass : pre ++ (writeTlv e.1 e.2 ++ writeTlvs es) =
          (pre ++ writeTlv e.1 e.2) ++ writeTlvs es := by simp
      rw [hass] at hrep' ⊢
      exact ih hes.2 _ _ hrest hrep'

/-- **The fast reader on a frame as written.** -/
theorem extractView_writeTlv (hes : ∀ e ∈ es, e.1 < 2 ^ 64 ∧ e.2.length < 2 ^ 64)
    (hlen : (writeTlvs es).length < 2 ^ 64) (trail : Bytes) :
    extractView (writeTlv lpPacket (writeTlvs es) ++ trail) = viewOf es := by
  obtain ⟨hdr, hhdr⟩ : ∃ hdr, hdr = writeVaru64 lpPacket ++
      writeVaru64 (writeTlvs es).length := ⟨_, rfl⟩
  have hraw : writeTlv lpPacket (writeTlvs es) ++ trail = hdr ++ (writeTlvs es ++ trail) := by
    rw [hhdr, writeTlv, append_assoc]
  have hloop := extractLoop_writeTlvs (f := ⟨none, none, none, 0, 0⟩)
    (g := ⟨none, none, none, []⟩) hes hdr [] trail _ le_rfl ⟨rfl, rfl, rfl, rfl⟩
  rw [nil_append, length_nil] at hloop
  have hfragment : extractFragment (hdr ++ (writeTlvs es ++ trail)) =
      (extractLoop hdr.length (writeTlvs es) (writeTlvs es).length 0 ⟨none, none, none, 0, 0⟩).bind
        FragmentFields.finish := by
    have hfram := frameAt_append hlen trail
    have hsize : hdr.length = 1 + varu64Size (writeTlvs es).length := by
      rw [hhdr, length_append, writeVaru64_length, writeVaru64_length]
      rfl
    rw [hraw] at hfram
    rw [extractFragment, if_neg (by simp [hfram.head]), hfram.typ]
    simp only [Except.toOption, Option.bind_eq_bind, Option.bind_some]
    rw [hfram.length]
    simp only [Option.bind_some]
    rw [if_pos hfram.fits, hfram.value, hsize]
  rw [extractView, hraw, hfragment, viewOf]
  generalize extractLoop hdr.length (writeTlvs es) (writeTlvs es).length 0
    ⟨none, none, none, 0, 0⟩ = f at hloop ⊢
  generalize es.foldlM viewField ⟨none, none, none, []⟩ = g at hloop ⊢
  cases hloop with
  | none => rfl
  | @some f g hrep =>
    obtain ⟨hseq, hidx, hcnt, hfrag⟩ := hrep
    simp only [Option.bind_some, FragmentFields.finish, Option.bind_eq_bind, hseq, hidx, hcnt]
    cases g.sequence <;> cases g.fragIndex <;> cases g.fragCount <;>
      simp [FragmentHeader.fragment, hfrag]

end Reader

end Lp

namespace LpPacket

open Lp

/-! ## What the decoder accepts -/

section Decoder

variable {s s' : DecodeState} {p p' lp : LpPacket} {t : ℕ} {v : Bytes} {es : List (ℕ × Bytes)}

/-- The fields that the fast reader looks at are the same. -/
structure SameFragment (p p' : LpPacket) : Prop where
  fragment : p'.fragment = p.fragment
  sequence : p'.sequence = p.sequence
  fragIndex : p'.fragIndex = p.fragIndex
  fragCount : p'.fragCount = p.fragCount

lemma headerSetters_spec : ∀ x ∈ headerSetters, ∀ p v p', x.2 p v = .ok p' → SameFragment p p' := by
  simp only [headerSetters, forall_mem_cons]
  refine ⟨?_, ?_, ?_, ?_, ?_, ?_, ?_, ?_, ?_, ?_, ?_, ?_, ?_, forall_mem_nil _⟩ <;>
    intro p v p' h <;>
    first
    | cases h; exact ⟨rfl, rfl, rfl, rfl⟩
    | obtain ⟨_, -, h⟩ := bind_eq_ok_iff.mp h; cases h; exact ⟨rfl, rfl, rfl, rfl⟩

lemma assignHeader_spec (h : p.assignHeader t v = .ok p') : SameFragment p p' := by
  rw [assignHeader] at h
  cases hset : headerSetters.lookup t with
  | some setter =>
    rw [hset] at h
    obtain ⟨before, after, hmem⟩ := Assoc.exists_append_of_lookup hset
    exact headerSetters_spec (t, setter) (by simp [hmem]) p v p' h
  | none =>
    rw [hset] at h
    split_ifs at h
    obtain ⟨_, -, h⟩ := bind_eq_ok_iff.mp h
    cases h
    exact ⟨rfl, rfl, rfl, rfl⟩

/-- What one element does to the fields that the fast reader looks at. -/
lemma assign_spec (h : p.assign t v = .ok p') :
    p'.sequence = (if t = 0x51 then some (decodeBeU64 v) else p.sequence) ∧
    p'.fragIndex = (if t = 0x52 then some (decodeBeU64 v) else p.fragIndex) ∧
    p'.fragCount = (if t = 0x53 then some (decodeBeU64 v) else p.fragCount) ∧
    p'.fragment = if t = 0x50 then some v else p.fragment := by
  rw [assign] at h
  split_ifs at h with hfrag hseq hidx hcnt
  · cases h
    subst hfrag
    exact ⟨rfl, rfl, rfl, rfl⟩
  · cases h
    subst hseq
    exact ⟨rfl, rfl, rfl, rfl⟩
  · cases h
    subst hidx
    exact ⟨rfl, rfl, rfl, rfl⟩
  · cases h
    subst hcnt
    exact ⟨rfl, rfl, rfl, rfl⟩
  obtain ⟨hf, hs, hi, hc⟩ := assignHeader_spec h
  exact ⟨hs.trans (if_neg hseq).symm, hi.trans (if_neg hidx).symm,
    hc.trans (if_neg hcnt).symm, hf.trans (if_neg hfrag).symm⟩

/-- What the fast reader looks at, in a packet. -/
def fieldsOf (p : LpPacket) : ViewFields :=
  ⟨p.sequence, p.fragIndex, p.fragCount, p.fragment.getD []⟩

lemma viewField_fieldsOf (h : p.assign t v = .ok p') :
    viewField (fieldsOf p) (t, v) =
      if t = 0x53 ∧ decodeBeU64 v ≤ 1 then none else some (fieldsOf p') := by
  obtain ⟨hs, hi, hc, hf⟩ := assign_spec h
  rw [viewField, fieldsOf, fieldsOf, hs, hi, hc, hf]
  by_cases h1 : t = 0x51
  · simp [h1]
  by_cases h2 : t = 0x52
  · simp [h2]
  by_cases h3 : t = 0x53
  · by_cases hone : decodeBeU64 v ≤ 1 <;> simp [h3, hone]
  by_cases h0 : t = 0x50 <;> simp [h1, h2, h3, h0]

/-- **One turn of the decoder.** The fragment has not passed, and the element may stand here. -/
lemma decodeStep_eq_ok_iff :
    decodeStep s t v = .ok s' ↔
      s.fragmentSeen = false ∧ (t = lpFragment ∨ mayFollow s.lastTyp t = true) ∧
      ∃ p', s.packet.assign t v = .ok p' ∧
        s' = if t = lpFragment then ⟨p', s.lastTyp, true⟩ else ⟨p', some t, false⟩ := by
  rw [decodeStep]
  simp only [bind_eq_ok_iff, ensure_eq_ok_iff, exists_const]
  constructor
  · rintro ⟨hseen, hfol, p', hp', h⟩
    refine ⟨hseen, hfol, p', hp', ?_⟩
    split_ifs at h ⊢ <;> cases h
    · rfl
    · rw [hseen]
  · rintro ⟨hseen, hfol, p', hp', rfl⟩
    refine ⟨hseen, hfol, p', hp', ?_⟩
    split_ifs
    · rfl
    · rw [hseen]
      rfl

lemma assign_of_decodeStep (h : decodeStep s t v = .ok s') :
    s.packet.assign t v = .ok s'.packet := by
  obtain ⟨-, -, p', hp', rfl⟩ := decodeStep_eq_ok_iff.mp h
  rw [hp']
  split_ifs <;> rfl

/-- Once there is a FragCount, the headers are past it. -/
def PastCount (s : DecodeState) : Prop :=
  s.packet.fragCount ≠ none → s.fragmentSeen = true ∨ ∃ l, s.lastTyp = some l ∧ 0x53 ≤ l

lemma PastCount.step (h : decodeStep s t v = .ok s') (hpast : PastCount s) :
    PastCount s' ∧ (s.packet.fragCount ≠ none → s'.packet.fragCount = s.packet.fragCount) := by
  obtain ⟨hseen, hfol, p', hp', rfl⟩ := decodeStep_eq_ok_iff.mp h
  obtain ⟨-, -, hcnt, -⟩ := assign_spec hp'
  by_cases hfrag : t = lpFragment
  · have hne : t ≠ 0x53 := by
      rw [hfrag]
      decide
    rw [if_pos hfrag]
    rw [if_neg hne] at hcnt
    exact ⟨fun _ => .inl rfl, fun _ => hcnt⟩
  · rw [if_neg hfrag]
    have hlat : s.packet.fragCount ≠ none → 0x53 < t := by
      intro hset
      rcases hpast hset with hseen' | ⟨l, hlast, hl⟩
      · rw [hseen] at hseen'
        cases hseen'
      · have hfol' := hfol.resolve_left hfrag
        rw [hlast, mayFollow] at hfol'
        have hack : lpAck = 0x0344 := rfl
        simp only [decide_eq_true_eq] at hfol'
        omega
    constructor
    · intro hset
      by_cases ht : t = 0x53
      · exact .inr ⟨t, rfl, ht.ge⟩
      · rw [hcnt, if_neg ht] at hset
        exact .inr ⟨t, rfl, (hlat hset).le⟩
    · intro hset
      have ht := hlat hset
      rw [hcnt, if_neg (by omega)]

section

variable (h : es.foldlM (fun s e => decodeStep s e.1 e.2) s = .ok s') (hpast : PastCount s)
include h hpast

lemma fragCount_foldlM (hset : s.packet.fragCount ≠ none) :
    s'.packet.fragCount = s.packet.fragCount := by
  induction es generalizing s with
  | nil =>
    cases h
    rfl
  | cons e es ih =>
    rw [foldlM_cons, bind_eq_ok_iff] at h
    obtain ⟨s₁, hstep, hrest⟩ := h
    obtain ⟨hpast₁, hkept⟩ := hpast.step hstep
    rw [ih hrest hpast₁ (by rwa [hkept hset]), hkept hset]

lemma foldlM_viewField (hmany : ∀ c, s.packet.fragCount = some c → 1 < c) :
    es.foldlM viewField (fieldsOf s.packet) =
      if ∀ c, s'.packet.fragCount = some c → 1 < c then some (fieldsOf s'.packet) else none := by
  induction es generalizing s with
  | nil =>
    cases h
    rw [if_pos hmany]
    rfl
  | cons e es ih =>
    rw [foldlM_cons, bind_eq_ok_iff] at h
    obtain ⟨s₁, hstep, hrest⟩ := h
    obtain ⟨hpast₁, -⟩ := hpast.step hstep
    have hasg := assign_of_decodeStep hstep
    obtain ⟨-, -, hcnt, -⟩ := assign_spec hasg
    rw [foldlM_cons, viewField_fieldsOf hasg]
    by_cases hone : e.1 = 0x53 ∧ decodeBeU64 e.2 ≤ 1
    · -- the fast reader stops at a count of one, and the decoder keeps that count
      rw [if_pos hone.1] at hcnt
      have hkept := fragCount_foldlM hrest hpast₁ (by rw [hcnt]; nofun)
      rw [if_pos hone, hkept, hcnt, if_neg]
      · rfl
      · intro hall
        have := hall _ rfl
        omega
    · rw [if_neg hone]
      refine ih hrest hpast₁ fun c hc => ?_
      rw [hcnt] at hc
      split_ifs at hc with ht
      · cases hc
        omega
      · exact hmany c hc

end

variable {raw : Bytes}

/-- **What an accepted frame is.** An LpPacket element whose elements the loop passes, with a
fragment or an ack among them. -/
lemma decode_eq_ok_iff :
    decode raw = .ok lp ↔
      ∃ es trail s, (∀ e ∈ es, ElementOk e) ∧ (writeTlvs es).length < 2 ^ 64 ∧
        raw = writeTlv lpPacket (writeTlvs es) ++ trail ∧
        es.foldlM (fun s e => decodeStep s e.1 e.2) ⟨{}, none, false⟩ = .ok s ∧
        (s.packet.fragment ≠ none ∨ s.packet.acks ≠ []) ∧ lp = s.packet := by
  rw [decode]
  simp only [bind_eq_ok_iff, mapError_eq_ok_iff, ensure_eq_ok_iff,
    exists_const, forEachTlv_eq_ok_iff, Prod.exists]
  constructor
  · rintro ⟨typ, value, trail, hread, rfl, s, ⟨es, hes, rfl, hfold⟩, hsome, hlp⟩
    obtain ⟨-, hlen, rfl⟩ := readTlv_eq_ok_iff.mp hread
    cases hlp
    exact ⟨es, trail, s, hes, hlen, rfl, hfold, hsome, rfl⟩
  · rintro ⟨es, trail, s, hes, hlen, rfl, hfold, hsome, rfl⟩
    exact ⟨_, _, trail, readTlv_writeTlv trail (by decide) hlen, rfl, s, ⟨es, hes, rfl, hfold⟩,
      hsome, rfl⟩

/-- **The two readers agree.** On a frame that `LpPacket::decode` accepts, the fast reader finds the
Sequence, FragIndex, FragCount and fragment that it has, if the frame is one of several. -/
theorem extractView_of_decode (h : decode raw = .ok lp) :
    extractView raw =
      if lp.isFragmented then do
        return ⟨← lp.sequence, ← lp.fragIndex, ← lp.fragCount, lp.fragment.getD []⟩
      else none := by
  obtain ⟨es, trail, s, hes, hlen, rfl, hfold, -, rfl⟩ := decode_eq_ok_iff.mp h
  have hes' : ∀ e ∈ es, e.1 < 2 ^ 64 ∧ e.2.length < 2 ^ 64 := by
    intro e he
    obtain ⟨htyp, hval⟩ := hes e he
    exact ⟨by omega, hval⟩
  have hview := foldlM_viewField hfold (fun hset => absurd rfl hset) nofun
  rw [extractView_writeTlv hes' hlen, viewOf]
  have hinit : fieldsOf {} = ⟨none, none, none, []⟩ := rfl
  rw [← hinit, hview, isFragmented]
  cases hcnt : s.packet.fragCount with
  | none => simp [fieldsOf, hcnt]
  | some c =>
    by_cases hc : 1 < c
    · simp [hc, fieldsOf, hcnt]
    · simp [hc]

lemma isLpPacket_of_decode (h : decode raw = .ok lp) : isLpPacket raw = true := by
  obtain ⟨es, trail, s, -, -, rfl, -⟩ := decode_eq_ok_iff.mp h
  rfl

lemma fragment_foldlM (h : es.foldlM (fun s e => decodeStep s e.1 e.2) s = .ok s') :
    s'.packet.fragment = s.packet.fragment ∨ ∃ e ∈ es, s'.packet.fragment = some e.2 := by
  induction es generalizing s with
  | nil =>
    cases h
    exact .inl rfl
  | cons e es ih =>
    rw [foldlM_cons, bind_eq_ok_iff] at h
    obtain ⟨s₁, hstep, hrest⟩ := h
    rcases ih hrest with hkept | ⟨e', he', hval⟩
    · obtain ⟨-, -, -, hfrag⟩ := assign_spec (assign_of_decodeStep hstep)
      rw [hkept, hfrag]
      split_ifs
      · exact .inr ⟨e, mem_cons_self .., rfl⟩
      · exact .inl rfl
    · exact .inr ⟨e', mem_cons_of_mem _ he', hval⟩

lemma length_fragment_lt {fragment : Bytes} (h : decode raw = .ok lp)
    (hfrag : lp.fragment = some fragment) : fragment.length < raw.length := by
  obtain ⟨es, trail, s, -, -, rfl, hfold, -, rfl⟩ := decode_eq_ok_iff.mp h
  rcases fragment_foldlM hfold with hnone | ⟨e, he, hval⟩
  · rw [hnone] at hfrag
    cases hfrag
  rw [hval] at hfrag
  cases hfrag
  have hle := length_le_writeTlvs he
  have hpos := varu64Size_pos lpPacket
  simp only [length_append, writeTlv_length, tlvSize]
  omega

end Decoder

end LpPacket

/-! ## Frames as written -/

namespace Lp

open LpPacket

lemma decodeBeU64_beBytes (v : ℕ) : decodeBeU64 (beBytes 8 v) = v % 2 ^ 64 := by
  rw [decodeBeU64, beNat_beBytes_mod]
  norm_num

lemma decodeBeU64_nni {v : ℕ} (hv : v < 2 ^ 64) : decodeBeU64 (nni v) = v := by
  rw [decodeBeU64, nni, beNat_encodeNonnegInteger hv, Nat.mod_eq_of_lt hv]

lemma length_nni_le (v : ℕ) : (nni v).length ≤ 8 := by
  have := encodeNonnegInteger_length v
  rw [nni]
  omega

lemma reliableElements_eq (fragment : Bytes) (txSequence : ℕ) (fragInfo : Option (ℕ × ℕ × ℕ))
    (acks : List ℕ) :
    reliableElements fragment txSequence fragInfo acks =
      fragElements fragInfo ++ acks.map (fun ack => (lpAck, nni ack)) ++
        [(lpTxSequence, nni txSequence)] ++ [(lpFragment, fragment)] := by
  rw [reliableElements, append_assoc _ [_] [_]]
  rfl

/-- The headers of a frame of `on_send` are short and few. -/
lemma reliableHeaders_short (info : Option (ℕ × ℕ × ℕ)) (acks : List ℕ) (txSeq : ℕ) :
    ∀ e ∈ fragElements info ++ acks.map (fun ack => (lpAck, nni ack)) ++
      [(lpTxSequence, nni txSeq)], e.1 < 2 ^ 32 ∧ e.2.length ≤ 8 := by
  have hnni := length_nni_le
  intro e he
  simp only [mem_append, mem_map, mem_singleton] at he
  rcases he with (he | ⟨ack, -, rfl⟩) | rfl
  · cases info with
    | none => cases he
    | some info =>
      simp only [fragElements, mem_cons, not_mem_nil, or_false] at he
      rcases he with rfl | rfl | rfl
      · exact ⟨(by decide : lpSequence < 2 ^ 32), by simp⟩
      · exact ⟨(by decide : lpFragIndex < 2 ^ 32), hnni _⟩
      · exact ⟨(by decide : lpFragCount < 2 ^ 32), hnni _⟩
  · exact ⟨(by decide : lpAck < 2 ^ 32), hnni _⟩
  · exact ⟨(by decide : lpTxSequence < 2 ^ 32), hnni _⟩

variable {es : List (ℕ × Bytes)}

lemma foldlM_viewField_skip (hes : ∀ e ∈ es, 0x53 < e.1) (g : ViewFields) :
    es.foldlM viewField g = some g := by
  induction es generalizing g with
  | nil => rfl
  | cons e es ih =>
    rw [forall_mem_cons] at hes
    have hskip : viewField g e = some g := by
      rw [viewField, if_neg (by omega), if_neg (by omega), if_neg (by omega), if_neg (by omega)]
    rw [foldlM_cons, hskip]
    exact ih hes.2 g

lemma viewOf_fragment (seqVal idxVal : Bytes) {countVal : Bytes}
    (hes : ∀ e ∈ es, 0x53 < e.1) (hcnt : 1 < decodeBeU64 countVal) (fragment : Bytes) :
    viewOf ([(lpSequence, seqVal), (lpFragIndex, idxVal),
        (lpFragCount, countVal)] ++ es ++ [(lpFragment, fragment)]) =
      some ⟨decodeBeU64 seqVal, decodeBeU64 idxVal, decodeBeU64 countVal, fragment⟩ := by
  have hmany : ¬ decodeBeU64 countVal ≤ 1 := by omega
  simp [viewOf, foldlM_append, foldlM_viewField_skip hes, viewField, lpSequence,
    lpFragIndex, lpFragCount, lpFragment, hmany]

lemma foldlM_decodeStep_acks (acks : List ℕ) (p : LpPacket) (lastTyp : Option ℕ)
    (hlast : lastTyp = none ∨ lastTyp = some lpAck) :
    ∃ values lastTyp', (lastTyp' = none ∨ lastTyp' = some lpAck) ∧
      (acks.map fun ack => (lpAck, nni ack)).foldlM (fun s e => decodeStep s e.1 e.2)
        ⟨p, lastTyp, false⟩ = .ok ⟨{ p with acks := values }, lastTyp', false⟩ := by
  induction acks generalizing p lastTyp with
  | nil => exact ⟨p.acks, lastTyp, hlast, rfl⟩
  | cons ack acks ih =>
    have hstep : decodeStep ⟨p, lastTyp, false⟩ lpAck (nni ack) =
        .ok ⟨{ p with acks := p.acks ++ [decodeBeU64 (nni ack)] }, some lpAck, false⟩ := by
      rcases hlast with rfl | rfl <;> rfl
    obtain ⟨values, lastTyp', hlast', hfold⟩ :=
      ih { p with acks := p.acks ++ [decodeBeU64 (nni ack)] } (some lpAck) (.inr rfl)
    refine ⟨values, lastTyp', hlast', ?_⟩
    rw [map_cons, foldlM_cons, hstep]
    exact hfold

end Lp

end NdnRs
