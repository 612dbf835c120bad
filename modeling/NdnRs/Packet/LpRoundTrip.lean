import NdnRs.Packet.Lp

/-!
# What the LP encoders write is read back (`ndn-packet/src/lp/encode.rs`, `decode.rs`)

The decoder refuses headers that are not in ascending order and anything after the fragment. Each
encoder writes its optional headers in that order, so the decoder goes through them with a bound
below which the last header is, and each header that is there raises the bound.

## Implementation notes

`CachePolicyType::Other` and `NackReason::Other` can hold a code that has a name of its own. As
written it cannot be told from that name, so the decoder gives the name.

## Main results

* `decode_encoders` — the three encoders and the decoder.
-/

namespace NdnRs

open Bytes Tlv List TlvType CachePolicyType

/-! ## The encoders -/

def CachePolicyType.code : CachePolicyType → ℕ
  | .noCache => 1
  | .other c => c

/-- The policy the decoder gives for a code. -/
def CachePolicyType.canonical (policy : CachePolicyType) : CachePolicyType :=
  if policy.code = 1 then .noCache else .other policy.code

def NackReason.code : NackReason → ℕ
  | .congestion => 50
  | .duplicate => 100
  | .noRoute => 150
  | .notYet => 160
  | .other c => c

def NackReason.canonical (reason : NackReason) : NackReason := .fromCode reason.code

structure LpHeaders where
  pitToken : Option Bytes := none
  congestionMark : Option ℕ := none
  incomingFaceId : Option ℕ := none
  nextHopFaceId : Option ℕ := none
  cachePolicy : Option CachePolicyType := none

/-- The numbers fit 64 bits, as their type says, and a PIT token is not empty. -/
structure LpHeaders.Valid (headers : LpHeaders) : Prop where
  pitToken : ∀ token ∈ headers.pitToken, token ≠ []
  congestionMark : ∀ mark ∈ headers.congestionMark, mark < 2 ^ 64
  incomingFaceId : ∀ id ∈ headers.incomingFaceId, id < 2 ^ 64
  nextHopFaceId : ∀ id ∈ headers.nextHopFaceId, id < 2 ^ 64
  cachePolicy : ∀ policy ∈ headers.cachePolicy, policy.code < 2 ^ 64

namespace Lp

/-- `if let Some(value) = … { w.write_tlv(typ, value) }`. -/
def optElement (typ : ℕ) (value : Option Bytes) : List (ℕ × Bytes) :=
  value.toList.map fun v => (typ, v)

/-- The headers of `encode_lp_with_headers`. -/
def headerElements (headers : LpHeaders) : List (ℕ × Bytes) :=
  optElement lpPitToken headers.pitToken ++
    (optElement lpIncomingFaceId (headers.incomingFaceId.map nni) ++
    (optElement lpNextHopFaceId (headers.nextHopFaceId.map nni) ++
    (optElement lpCachePolicy (headers.cachePolicy.map fun cp =>
      writeTlv lpCachePolicyType (nni cp.code)) ++
    optElement lpCongestionMark (headers.congestionMark.map nni))))

def encodeLpWithHeaders (fragment : Bytes) (headers : LpHeaders) : Bytes :=
  writeTlv lpPacket (writeTlvs (headerElements headers ++ [(lpFragment, fragment)]))

/-- The headers of `encode_lp_nack_with_pit_token`. -/
def nackElements (reason : NackReason) (pitToken : Option Bytes) : List (ℕ × Bytes) :=
  optElement lpPitToken pitToken ++ [(nack, writeTlv nackReason (nni reason.code))]

def encodeLpNackWithPitToken (reason : NackReason) (interestWire : Bytes)
    (pitToken : Option Bytes) : Bytes :=
  writeTlv lpPacket (writeTlvs (nackElements reason pitToken ++ [(lpFragment, interestWire)]))

lemma mem_optElement {typ : ℕ} {value : Option Bytes} {e : ℕ × Bytes} :
    e ∈ optElement typ value ↔ e.1 = typ ∧ value = some e.2 := by
  cases e
  simp only [optElement, mem_map, Option.mem_toList, Prod.mk.injEq]
  constructor
  · rintro ⟨v, hv, rfl, rfl⟩
    exact ⟨rfl, hv⟩
  · rintro ⟨rfl, hv⟩
    exact ⟨_, hv, rfl, rfl⟩

end Lp

/-! ## The decoder over headers in order -/

namespace LpPacket

open Lp

/-- The decoder goes through headers and takes a packet to another, when the header before them is
of a type below the first bound; the last of them is of a type below the second one. -/
def Passes (es : List (ℕ × Bytes)) (p p' : LpPacket) (lo hi : ℕ) : Prop :=
  ∀ lastTyp : Option ℕ, (∀ t ∈ lastTyp, t < lo) → ∃ lastTyp' : Option ℕ,
    (∀ t ∈ lastTyp', t < hi) ∧
    es.foldlM (fun s e => decodeStep s e.1 e.2) ⟨p, lastTyp, false⟩ = .ok ⟨p', lastTyp', false⟩

section Passes

variable {es fs : List (ℕ × Bytes)} {p p' p'' : LpPacket} {t lo hi : ℕ} {v : Bytes}

lemma Passes.nil (h : lo ≤ hi) : Passes [] p p lo hi :=
  fun lastTyp hlast => ⟨lastTyp, fun t ht => (hlast t ht).trans_le h, rfl⟩

lemma Passes.append (mid : ℕ) (hes : Passes es p p' lo mid) (hfs : Passes fs p' p'' mid hi) :
    Passes (es ++ fs) p p'' lo hi := by
  intro lastTyp hlast
  obtain ⟨lastTyp', hlast', hfold⟩ := hes lastTyp hlast
  obtain ⟨lastTyp'', hlast'', hfold'⟩ := hfs lastTyp' hlast'
  refine ⟨lastTyp'', hlast'', ?_⟩
  rw [foldlM_append, hfold]
  exact hfold'

lemma decodeStep_of_mayFollow {lastTyp : Option ℕ} (hfol : mayFollow lastTyp t = true)
    (ht : t ≠ lpFragment) (h : p.assign t v = .ok p') :
    decodeStep ⟨p, lastTyp, false⟩ t v = .ok ⟨p', some t, false⟩ :=
  decodeStep_eq_ok_iff.mpr ⟨rfl, .inr hfol, p', h, by rw [if_neg ht]⟩

lemma Passes.single (hlo : lo ≤ t) (hhi : t < hi) (ht : t ≠ lpFragment)
    (h : p.assign t v = .ok p') : Passes [(t, v)] p p' lo hi := by
  intro lastTyp hlast
  have hfol : mayFollow lastTyp t = true := by
    cases lastTyp with
    | none => rfl
    | some prev =>
      have hprev := hlast prev rfl
      simp only [mayFollow, decide_eq_true_eq]
      exact .inl (by omega)
  refine ⟨some t, ?_, ?_⟩
  · rintro t' ⟨⟩
    exact hhi
  · rw [foldlM_cons, decodeStep_of_mayFollow hfol ht h]
    rfl

lemma Passes.optional (hlo : lo ≤ t) (hhi : t < hi) (ht : t ≠ lpFragment) {value : Option Bytes}
    (hnone : value = none → p' = p) (hsome : ∀ v, value = some v → p.assign t v = .ok p') :
    Passes (optElement t value) p p' lo hi := by
  cases value with
  | none =>
    rw [hnone rfl]
    exact .nil (hlo.trans hhi.le)
  | some v => exact .single hlo hhi ht (hsome v rfl)

/-- Acks, the only header that is repeated. -/
lemma Passes.acks {acks : List ℕ} (hacks : ∀ ack ∈ acks, ack < 2 ^ 64) (hlo : lo ≤ lpAck + 1) :
    Passes (acks.map fun ack => (lpAck, nni ack)) p
      { p with acks := p.acks ++ acks } lo (lpAck + 1) := by
  induction acks generalizing p lo with
  | nil =>
    rw [append_nil]
    exact .nil hlo
  | cons ack acks ih =>
    rw [forall_mem_cons] at hacks
    intro lastTyp hlast
    have hfol : mayFollow lastTyp lpAck = true := by
      cases lastTyp with
      | none => rfl
      | some prev =>
        have hprev := hlast prev rfl
        simp only [mayFollow, decide_eq_true_eq, and_true]
        omega
    have hass : p.assign lpAck (nni ack) = .ok { p with acks := p.acks ++ [ack] } := by
      have hread : p.assign lpAck (nni ack) =
          .ok { p with acks := p.acks ++ [decodeBeU64 (nni ack)] } := rfl
      rw [hread, decodeBeU64_nni hacks.1]
    obtain ⟨lastTyp', hlast', hfold⟩ := ih (p := { p with acks := p.acks ++ [ack] }) hacks.2 le_rfl
      (some lpAck) (by rintro t ⟨⟩; exact Nat.lt_succ_self _)
    refine ⟨lastTyp', hlast', ?_⟩
    rw [map_cons, foldlM_cons, decodeStep_of_mayFollow hfol (by decide) hass]
    rw [append_assoc, singleton_append] at hfold
    exact hfold

lemma decode_of_passes (h : Passes es {} p lo hi) (htyp : ∀ e ∈ es, e.1 < 2 ^ 32) {fragment : Bytes}
    (hlen : (writeTlv lpPacket (writeTlvs (es ++ [(lpFragment, fragment)]))).length < 2 ^ 63) :
    decode (writeTlv lpPacket (writeTlvs (es ++ [(lpFragment, fragment)]))) =
      .ok { p with fragment := some fragment } := by
  have hbody := length_le_length_writeTlv lpPacket (writeTlvs (es ++ [(lpFragment, fragment)]))
  have htyp' : ∀ e ∈ es ++ [(lpFragment, fragment)], e.1 < 2 ^ 32 := by
    intro e he
    rcases mem_append.mp he with he | he
    · exact htyp e he
    · rw [mem_singleton.mp he]
      exact (by decide : lpFragment < 2 ^ 32)
  obtain ⟨lastTyp, -, hfold⟩ := h none (by simp)
  refine decode_eq_ok_iff.mpr ⟨es ++ [(lpFragment, fragment)], [],
    ⟨{ p with fragment := some fragment }, lastTyp, true⟩,
    elementOk_of_length htyp' (by omega), by omega, by simp, ?_, .inl (by simp), rfl⟩
  rw [foldlM_append, hfold]
  rfl

end Passes

end LpPacket

/-! ## Round trips -/

namespace Lp

open LpPacket

lemma decodeCachePolicy_writeTlv (policy : Option CachePolicyType) {cp : CachePolicyType}
    (hcode : cp.code < 2 ^ 64) :
    decodeCachePolicy policy (writeTlv lpCachePolicyType (nni cp.code)) =
      .ok (some cp.canonical) := by
  have hnni := length_nni_le cp.code
  refine forEachTlv_eq_ok_iff.mpr ⟨[(lpCachePolicyType, nni cp.code)], ?_, by simp, ?_⟩
  · intro e he
    rw [mem_singleton.mp he]
    exact ⟨(by decide : lpCachePolicyType < 2 ^ 32), lt_of_le_of_lt hnni (by norm_num)⟩
  · show Except.ok (some (if decodeBeU64 (nni cp.code) = 1 then noCache
      else .other (decodeBeU64 (nni cp.code)))) = _
    rw [decodeBeU64_nni hcode]
    rfl

variable {reason : NackReason} {pitToken : Option Bytes} {fragInfo : Option (ℕ × ℕ × ℕ)}

lemma decodeNackHeader_writeTlv (hcode : reason.code < 2 ^ 64) :
    decodeNackHeader (writeTlv nackReason (nni reason.code)) = .ok ⟨some reason.canonical⟩ := by
  have hnni := length_nni_le reason.code
  have hread := findTlv_writeTlv nackReason []
    (by decide : nackReason < 2 ^ 32)
    (lt_of_le_of_lt hnni (by norm_num) : (nni reason.code).length < 2 ^ 64)
  rw [append_nil, if_pos rfl] at hread
  rw [decodeNackHeader, hread]
  show Except.ok (NackHeader.mk (some (.fromCode (decodeBeU64 (nni reason.code))))) = _
  rw [decodeBeU64_nni hcode]
  rfl

lemma assign_cachePolicy (p : LpPacket) (v : Bytes) :
    p.assign lpCachePolicy v =
      (decodeCachePolicy p.cachePolicy v).map fun policy => { p with cachePolicy := policy } := by
  show (decodeCachePolicy p.cachePolicy v >>= fun policy =>
    (.ok { p with cachePolicy := policy } : Except PacketError LpPacket)) = _
  cases decodeCachePolicy p.cachePolicy v <;> rfl

lemma assign_nack (p : LpPacket) (v : Bytes) :
    p.assign TlvType.nack v =
      (decodeNackHeader v).map fun header => { p with nack := some header } := by
  show (decodeNackHeader v >>= fun header =>
    (.ok { p with nack := some header } : Except PacketError LpPacket)) = _
  cases decodeNackHeader v <;> rfl

lemma passes_number {t lo hi : ℕ} (hlo : lo ≤ t) (hhi : t < hi) (ht : t ≠ lpFragment)
    {number : Option ℕ} (hnum : ∀ n ∈ number, n < 2 ^ 64) {p : LpPacket}
    (store : Option ℕ → LpPacket) (hnone : store none = p)
    (hass : ∀ v, p.assign t v = .ok (store (some (decodeBeU64 v)))) :
    Passes (optElement t (number.map nni)) p (store number) lo hi := by
  refine .optional hlo hhi ht ?_ ?_
  · intro h
    rw [Option.map_eq_none_iff.mp h, hnone]
  · intro v hv
    obtain ⟨n, rfl, rfl⟩ := Option.map_eq_some_iff.mp hv
    rw [hass, decodeBeU64_nni (hnum n rfl)]

lemma passes_pitToken (htok : ∀ token ∈ pitToken, token ≠ []) :
    Passes (optElement lpPitToken pitToken) {} { pitToken := pitToken } 0 (lpPitToken + 1) := by
  refine .optional (Nat.zero_le _) (Nat.lt_succ_self _) (by decide) ?_ ?_
  · rintro rfl
    rfl
  · rintro token rfl
    cases token with
    | nil => exact absurd rfl (htok [] rfl)
    | cons b token => rfl

/-- The headers of `encode_lp_with_headers` pass. -/
lemma passes_headerElements {headers : LpHeaders} (h : headers.Valid) :
    Passes (headerElements headers) {}
      { pitToken := headers.pitToken
        incomingFaceId := headers.incomingFaceId
        nextHopFaceId := headers.nextHopFaceId
        cachePolicy := headers.cachePolicy.map canonical
        congestionMark := headers.congestionMark } 0 (lpCongestionMark + 1) := by
  refine .append (lpPitToken + 1) (passes_pitToken h.pitToken) ?_
  refine .append (lpIncomingFaceId + 1)
    (passes_number (by decide) (Nat.lt_succ_self _) (by decide) h.incomingFaceId
      (fun id => { pitToken := headers.pitToken, incomingFaceId := id }) rfl (fun _ => rfl)) ?_
  refine .append (lpNextHopFaceId + 1)
    (passes_number (by decide) (Nat.lt_succ_self _) (by decide) h.nextHopFaceId
      (fun id => { pitToken := headers.pitToken, incomingFaceId := headers.incomingFaceId,
                   nextHopFaceId := id }) rfl (fun _ => rfl)) ?_
  refine .append (lpCachePolicy + 1)
    (.optional (by decide) (Nat.lt_succ_self _) (by decide) ?_ ?_)
    (passes_number (by decide) (Nat.lt_succ_self _) (by decide) h.congestionMark
      (fun mark => { pitToken := headers.pitToken, incomingFaceId := headers.incomingFaceId,
                     nextHopFaceId := headers.nextHopFaceId,
                     cachePolicy := headers.cachePolicy.map canonical,
                     congestionMark := mark }) rfl (fun _ => rfl))
  · intro hnone
    rw [Option.map_eq_none_iff.mp hnone]
    rfl
  · intro v hv
    obtain ⟨cp, hcp, rfl⟩ := Option.map_eq_some_iff.mp hv
    rw [hcp]
    rw [assign_cachePolicy, decodeCachePolicy_writeTlv _ (h.cachePolicy cp hcp)]
    rfl

lemma passes_nackElements (hcode : reason.code < 2 ^ 64) (htok : ∀ token ∈ pitToken, token ≠ []) :
    Passes (nackElements reason pitToken) {}
      { pitToken := pitToken, nack := some ⟨some reason.canonical⟩ } 0 (TlvType.nack + 1) := by
  refine .append (lpPitToken + 1) (passes_pitToken htok) ?_
  refine .single (by decide) (Nat.lt_succ_self _) (by decide) ?_
  rw [assign_nack, decodeNackHeader_writeTlv hcode]
  rfl

lemma passes_fragElements
    (hinfo : ∀ info ∈ fragInfo, info.1 < 2 ^ 64 ∧ info.2.1 < 2 ^ 64 ∧ info.2.2 < 2 ^ 64) :
    Passes (fragElements fragInfo) {}
      { sequence := fragInfo.map Prod.fst
        fragIndex := fragInfo.map fun info => info.2.1
        fragCount := fragInfo.map fun info => info.2.2 } 0 (lpFragCount + 1) := by
  cases fragInfo with
  | none => exact .nil (Nat.zero_le _)
  | some info =>
    obtain ⟨hseq, hidx, hcnt⟩ := hinfo _ rfl
    refine .append (lpSequence + 1)
      (.single (Nat.zero_le _) (Nat.lt_succ_self _) (by decide) rfl)
      (.append (lpFragIndex + 1)
        (.single le_rfl (Nat.lt_succ_self _) (by decide) rfl)
        (.single le_rfl (Nat.lt_succ_self _) (by decide) ?_))
    show Except.ok _ = Except.ok _
    rw [decodeBeU64_beBytes, Nat.mod_eq_of_lt hseq, decodeBeU64_nni hidx, decodeBeU64_nni hcnt]
    rfl

lemma passes_reliable {txSequence : ℕ} (htx : txSequence < 2 ^ 64)
    (hinfo : ∀ info ∈ fragInfo, info.1 < 2 ^ 64 ∧ info.2.1 < 2 ^ 64 ∧ info.2.2 < 2 ^ 64)
    {acks : List ℕ} (hacks : ∀ ack ∈ acks, ack < 2 ^ 64) :
    Passes (fragElements fragInfo ++ acks.map (fun ack => (lpAck, nni ack)) ++
        [(lpTxSequence, nni txSequence)]) {}
      { sequence := fragInfo.map Prod.fst
        fragIndex := fragInfo.map fun info => info.2.1
        fragCount := fragInfo.map fun info => info.2.2
        acks := acks
        txSequence := some txSequence } 0 (lpTxSequence + 1) := by
  refine .append (lpAck + 1)
    (.append (lpFragCount + 1) (passes_fragElements hinfo) (.acks hacks (by decide)))
    (.single (by decide) (Nat.lt_succ_self _) (by decide) ?_)
  show Except.ok _ = Except.ok _
  rw [decodeBeU64_nni htx]
  rfl

/-! ### Types of the headers -/

lemma headerElements_typ (headers : LpHeaders) : ∀ e ∈ headerElements headers, e.1 < 2 ^ 32 := by
  intro e he
  simp only [headerElements, mem_append, mem_optElement] at he
  rcases he with h | h | h | h | h <;> rw [h.1] <;> decide

lemma nackElements_typ (reason : NackReason) (pitToken : Option Bytes) :
    ∀ e ∈ nackElements reason pitToken, e.1 < 2 ^ 32 := by
  intro e he
  simp only [nackElements, mem_append, mem_optElement, mem_singleton] at he
  rcases he with h | rfl
  · rw [h.1]
    decide
  · exact (by decide : TlvType.nack < 2 ^ 32)

/-- **Round trips of the encoders.** The decoder returns the headers and the fragment that
`encode_lp_with_headers` was given, the TxSequence, the fragment fields and the Acks in order that
`encode_lp_reliable` was given, and the reason, the token and the Interest that
`encode_lp_nack_with_pit_token` was given; a cache policy and a reason are in the canonical spelling
of their code. -/
theorem decode_encoders :
    (∀ (fragment : Bytes) (headers : LpHeaders), headers.Valid →
      (encodeLpWithHeaders fragment headers).length < 2 ^ 63 →
      LpPacket.decode (encodeLpWithHeaders fragment headers) =
        .ok { pitToken := headers.pitToken
              incomingFaceId := headers.incomingFaceId
              nextHopFaceId := headers.nextHopFaceId
              cachePolicy := headers.cachePolicy.map CachePolicyType.canonical
              congestionMark := headers.congestionMark
              fragment := some fragment }) ∧
    (∀ (fragment : Bytes) (txSequence : ℕ) (fragInfo : Option (ℕ × ℕ × ℕ)) (acks : List ℕ),
      txSequence < 2 ^ 64 →
      (∀ info ∈ fragInfo, info.1 < 2 ^ 64 ∧ info.2.1 < 2 ^ 64 ∧ info.2.2 < 2 ^ 64) →
      (∀ ack ∈ acks, ack < 2 ^ 64) →
      (encodeLpReliable fragment txSequence fragInfo acks).length < 2 ^ 63 →
      LpPacket.decode (encodeLpReliable fragment txSequence fragInfo acks) =
        .ok { sequence := fragInfo.map Prod.fst
              fragIndex := fragInfo.map fun info => info.2.1
              fragCount := fragInfo.map fun info => info.2.2
              acks := acks
              txSequence := some txSequence
              fragment := some fragment }) ∧
    (∀ (reason : NackReason) (interestWire : Bytes) (pitToken : Option Bytes),
      reason.code < 2 ^ 64 → (∀ token ∈ pitToken, token ≠ []) →
      (encodeLpNackWithPitToken reason interestWire pitToken).length < 2 ^ 63 →
      LpPacket.decode (encodeLpNackWithPitToken reason interestWire pitToken) =
        .ok { pitToken := pitToken
              nack := some ⟨some reason.canonical⟩
              fragment := some interestWire }) := by
  refine ⟨?_, ?_, ?_⟩
  · intro fragment headers hvld hlen
    exact decode_of_passes (passes_headerElements hvld) (headerElements_typ headers) hlen
  · intro fragment txSequence fragInfo acks htx hinfo hacks hlen
    rw [encodeLpReliable, reliableElements_eq] at hlen ⊢
    exact decode_of_passes (passes_reliable htx hinfo hacks)
      (fun e he => (reliableHeaders_short fragInfo acks txSequence e he).1) hlen
  · intro reason interestWire pitToken hcode htok hlen
    exact decode_of_passes (passes_nackElements hcode htok) (nackElements_typ reason pitToken) hlen

/-- Frames with every header, with a fragment of several and two Acks, and with a Nack. -/
theorem decode_encoders_every_header :
    LpPacket.decode (encodeLpWithHeaders [7] ⟨some [1, 2], some 3, some 300, some 70000,
      some .noCache⟩) = .ok
        { pitToken := some [1, 2], incomingFaceId := some 300, nextHopFaceId := some 70000,
          cachePolicy := some .noCache, congestionMark := some 3, fragment := some [7] } ∧
    LpPacket.decode (encodeLpReliable [7] 5 (some (2 ^ 40, 1, 3)) [9, 2 ^ 63]) = .ok
      { sequence := some (2 ^ 40), fragIndex := some 1, fragCount := some 3, acks := [9, 2 ^ 63],
        txSequence := some 5, fragment := some [7] } ∧
    LpPacket.decode (encodeLpNackWithPitToken .notYet [7] (some [1])) = .ok
      { pitToken := some [1], nack := some ⟨some .notYet⟩, fragment := some [7] } :=
  ⟨decode_encoders.1 _ _ ⟨by simp, by simp, by simp, by simp, by simp [CachePolicyType.code]⟩
      (by decide),
    decode_encoders.2.1 _ _ _ _ (by decide) (by simp) (by simp) (by decide),
    decode_encoders.2.2 _ _ _ (by decide) (by simp) (by decide)⟩

/-- A policy and a reason that hold the code of a named one come back as the named one. -/
theorem decode_named_code :
    LpPacket.decode (encodeLpWithHeaders [7] { cachePolicy := some (.other 1) }) =
      .ok { cachePolicy := some .noCache, fragment := some [7] } ∧
    LpPacket.decode (encodeLpNackWithPitToken (.other 150) [7] none) =
      .ok { nack := some ⟨some .noRoute⟩, fragment := some [7] } := by
  decide

end Lp

end NdnRs
