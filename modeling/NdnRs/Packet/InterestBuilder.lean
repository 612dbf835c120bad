import NdnRs.Lib.Sha256
import NdnRs.Packet.Encode
import NdnRs.Packet.InterestRegion

/-!
# Building signed Interests (`ndn-packet/src/encode/interest.rs`)

The signer puts the region together from pieces, before the name has its parameters digest; the
decoder recovers it from the wire, by leaving the digest out.

## Implementation notes

A duration is a number of nanoseconds. The Nonce, the random bytes of the SignatureNonce and the
time are passed in. `pin_face` is not read when an Interest is signed, and is left out.

## Main results

* `signed_interest_decodes` — what is signed is what is decoded.
-/

namespace NdnRs

open Bytes Tlv Encode List Option TlvType SignatureInfo
open Interest (elemIndex withoutDigests)

/-! ## The builder -/

/-- `InterestBuilder`; the lifetime in nanoseconds. -/
structure InterestBuilder where
  name : Name
  lifetime : Option ℕ := none
  canBePrefix : Bool := false
  mustBeFresh : Bool := false
  hopLimit : Option UInt8 := none
  appParameters : Option Bytes := none
  forwardingHint : Option (List Name) := none
  reflexiveName : Option Name := none

/-- What the builder takes from outside: `next_nonce`, `rand_nonce_bytes` and the time in
milliseconds. -/
structure SigningInputs where
  nextNonce : UInt32
  randNonce : UInt64
  nowMs : UInt64

structure SignedInterestParts where
  nameComponents : Bytes
  bodyFields : Bytes
  appParamsTlv : Bytes
  sigInfoTlv : Bytes

def concatSignedRegion (parts : SignedInterestParts) : Bytes :=
  parts.nameComponents ++ parts.appParamsTlv ++ parts.sigInfoTlv

def assembleSignedInterest (parts : SignedInterestParts) (sigValue : Bytes) : Bytes :=
  let sigValueTlv := (TlvWriter.new.writeTlv interestSignatureValue sigValue).finish
  let digestInput := parts.appParamsTlv ++ parts.sigInfoTlv ++ sigValueTlv
  let psdcDigest := Sha256.digest digestInput
  let psdcComponent :=
    (TlvWriter.new.writeTlv parametersSha256.toNat psdcDigest).finish
  let nameTlv := (TlvWriter.new.writeNested name fun w =>
    (w.writeRaw parts.nameComponents).writeRaw psdcComponent).finish
  let innerLen := nameTlv.length + parts.bodyFields.length + parts.appParamsTlv.length +
    parts.sigInfoTlv.length + sigValueTlv.length
  let outer := TlvWriter.new
  let outer := outer.writeVaru64 interest
  let outer := outer.writeVaru64 innerLen
  let outer := outer.writeRaw nameTlv
  let outer := outer.writeRaw parts.bodyFields
  let outer := outer.writeRaw parts.appParamsTlv
  let outer := outer.writeRaw parts.sigInfoTlv
  let outer := outer.writeRaw sigValueTlv
  outer.finish

namespace InterestBuilder

/-- `name_components` in `build_signed_interest_parts`: the digests are left out. -/
def writeNameComponents (self : InterestBuilder) : Bytes :=
  (self.name.foldl (fun w comp =>
    if comp.typ = parametersSha256 then w
    else w.writeTlv comp.typ.toNat comp.value) TlvWriter.new).finish

/-- `body_fields` in `build_signed_interest_parts`. -/
def writeBodyFields (self : InterestBuilder) (nextNonce : UInt32) : Bytes :=
  let lifetimeMs := (self.lifetime.map asMillis).getD 4000
  let w := TlvWriter.new
  let w := if self.canBePrefix then w.writeTlv TlvType.canBePrefix [] else w
  let w := if self.mustBeFresh then w.writeTlv TlvType.mustBeFresh [] else w
  let w := match self.forwardingHint with
    | some hints => w.writeNested TlvType.forwardingHint fun w => hints.foldl writeName w
    | none => w
  let w := match self.reflexiveName with
    | some rname => w.writeNested TlvType.reflexiveName fun w => writeComponents w rname
    | none => w
  let w := w.writeTlv TlvType.nonce (beBytes 4 nextNonce.toNat)
  let w := writeNni w interestLifetime lifetimeMs
  let w := match self.hopLimit with
    | some h => w.writeTlv TlvType.hopLimit [h]
    | none => w
  w.finish

def buildSignedInterestParts (self : InterestBuilder) (inputs : SigningInputs)
    (sigType : SignatureType) (keyLocator : Option Name) : SignedInterestParts :=
  let params := self.appParameters.getD []
  { nameComponents := self.writeNameComponents
    bodyFields := self.writeBodyFields inputs.nextNonce
    appParamsTlv := (TlvWriter.new.writeTlv TlvType.appParameters params).finish
    sigInfoTlv := (TlvWriter.new.writeNested interestSignatureInfo fun w =>
      let w := writeSigFields w sigType keyLocator
      let w := w.writeTlv signatureNonce (beBytes 8 inputs.randNonce.toNat)
      w.writeTlv signatureTime (nni inputs.nowMs.toNat)).finish }

section Sign

variable (self : InterestBuilder) (inputs : SigningInputs) (sigType : SignatureType)
  (keyLocator : Option Name)

def sign (signFn : Bytes → Bytes) : Bytes :=
  let parts := self.buildSignedInterestParts inputs sigType keyLocator
  let signedRegion := concatSignedRegion parts
  let sigValue := signFn signedRegion
  assembleSignedInterest parts sigValue

end Sign

end InterestBuilder

/-! ## Bodies that are accepted -/

namespace Interest

def Ordered (t u : ℕ) : Prop := ∀ i ∈ elemIndex t, ∀ j ∈ elemIndex u, i < j

instance : DecidableRel Ordered := fun t u => by
  unfold Ordered
  infer_instance

/-- **Accepted bodies.** Known elements in order and with good values, and others that are not
critical. -/
lemma bodyFold_of_pairwise {s : BodyState} {es : List (ℕ × Bytes)}
    (hmem : ∀ e ∈ es, (elemIndex e.1 = none ∧ isCriticalTlvType e.1 = false) ∨
      ∃ i, elemIndex e.1 = some i ∧ s.lastElement < i ∧ ValueOk e.1 e.2)
    (hord : (es.map Prod.fst).Pairwise Ordered) :
    ∃ s', bodyFold s es = .ok s' := by
  induction es generalizing s with
  | nil => exact ⟨s, rfl⟩
  | cons e es ih =>
    rw [forall_mem_cons] at hmem
    rw [map_cons, pairwise_cons] at hord
    rcases hmem.1 with ⟨hnone, hcrit⟩ | ⟨i, hi, hlt, hval⟩
    · obtain ⟨s', hs'⟩ := ih hmem.2 hord.2
      exact ⟨s', bodyFold_cons_eq_ok_iff.mpr
        ⟨s, bodyStep_eq_ok_iff.mpr (.inl ⟨hnone, hcrit, rfl⟩), hs'⟩⟩
    -- the place of the element is in front of those of all later ones
    have hlat : ∀ d ∈ es, (elemIndex d.1 = none ∧ isCriticalTlvType d.1 = false) ∨
        ∃ j, elemIndex d.1 = some j ∧ i < j ∧ ValueOk d.1 d.2 := by
      intro d hd
      rcases hmem.2 d hd with hnone | ⟨j, hj, -, hval'⟩
      · exact .inl hnone
      · exact .inr ⟨j, hj, hord.1 d.1 (mem_map_of_mem hd) i hi j hj, hval'⟩
    obtain ⟨s', hs'⟩ := ih (s := ⟨i, s.hasAppParams || e.1 = TlvType.appParameters⟩) hlat hord.2
    exact ⟨s', bodyFold_cons_eq_ok_iff.mpr
      ⟨_, bodyStep_eq_ok_iff.mpr (.inr ⟨i, hi, hlt, hval, rfl⟩), hs'⟩⟩

end Interest

namespace InterestBuilder

/-! ## What is written -/

section Written

variable (self : InterestBuilder) (inputs : SigningInputs) (sigType : SignatureType)
  (keyLocator : Option Name)

/-- The elements between the name and the ApplicationParameters. -/
def bodyElements (nextNonce : UInt32) : List (ℕ × Bytes) :=
  (if self.canBePrefix then [(TlvType.canBePrefix, [])] else []) ++
    (if self.mustBeFresh then [(TlvType.mustBeFresh, [])] else []) ++
    (self.forwardingHint.map fun hints => (TlvType.forwardingHint,
      hints.flatMap fun n => writeTlv TlvType.name n.encodeComponents)).toList ++
    (self.reflexiveName.map fun n => (TlvType.reflexiveName, n.encodeComponents)).toList ++
    [(TlvType.nonce, beBytes 4 nextNonce.toNat),
      (TlvType.interestLifetime, nni ((self.lifetime.map asMillis).getD 4000))] ++
    (self.hopLimit.map fun h => (TlvType.hopLimit, [h])).toList

/-- The elements inside the InterestSignatureInfo. -/
def sigInfoElements : List (ℕ × Bytes) :=
  sigInfoFields sigType keyLocator ++
    [(signatureNonce, beBytes 8 inputs.randNonce.toNat), (signatureTime, nni inputs.nowMs.toNat)]

lemma writeNameComponents_eq :
    self.writeNameComponents = (withoutDigests self.name).encodeComponents := by
  have hloop : ∀ (n : Name) (w : TlvWriter), (n.foldl (fun w comp =>
      if comp.typ = parametersSha256 then w
      else w.writeTlv comp.typ.toNat comp.value) w).buf =
      w.buf ++ (withoutDigests n).encodeComponents := by
    intro n
    induction n with
    | nil => simp [withoutDigests]
    | cons c n ih =>
      intro w
      rw [foldl_cons, ih]
      by_cases hc : c.typ = parametersSha256 <;> simp [hc, withoutDigests]
  exact hloop self.name .new

lemma writeBodyFields_eq (nextNonce : UInt32) :
    self.writeBodyFields nextNonce = writeTlvs (self.bodyElements nextNonce) := by
  have hhin : ∀ (hints : List Name) (w : TlvWriter), (hints.foldl writeName w).buf =
      w.buf ++ hints.flatMap fun n => writeTlv TlvType.name n.encodeComponents := by
    intro hints
    induction hints with
    | nil => simp
    | cons n hints ih =>
      intro w
      rw [foldl_cons, ih, buf_writeName, flatMap_cons, append_assoc]
  rcases self with ⟨name, lifetime, _ | _, _ | _, _ | h, params, _ | hints, _ | rname⟩ <;>
    simp [writeBodyFields, bodyElements, hhin]

variable (sigValue : Bytes)

/-- The elements from the ApplicationParameters on. -/
def signedTail : List (ℕ × Bytes) :=
  [(TlvType.appParameters, self.appParameters.getD []),
    (interestSignatureInfo, writeTlvs (sigInfoElements inputs sigType keyLocator)),
    (interestSignatureValue, sigValue)]

/-- All elements after the Name. -/
abbrev signedBody : List (ℕ × Bytes) :=
  self.bodyElements inputs.nextNonce ++ self.signedTail inputs sigType keyLocator sigValue

def signedName : Name :=
  Interest.withoutDigests self.name ++ [⟨parametersSha256,
    Sha256.digest (writeTlvs (self.signedTail inputs sigType keyLocator sigValue))⟩]

lemma buildSignedInterestParts_eq :
    self.buildSignedInterestParts inputs sigType keyLocator =
      ⟨(withoutDigests self.name).encodeComponents,
        writeTlvs (self.bodyElements inputs.nextNonce),
        writeTlv TlvType.appParameters (self.appParameters.getD []),
        writeTlv TlvType.interestSignatureInfo
          (writeTlvs (sigInfoElements inputs sigType keyLocator))⟩ := by
  rw [buildSignedInterestParts, writeNameComponents_eq, writeBodyFields_eq]
  simp [sigInfoElements]

lemma assemble_eq :
    assembleSignedInterest (self.buildSignedInterestParts inputs sigType keyLocator) sigValue =
      writeTlv TlvType.interest (writeTlvs
        ((TlvType.name, (self.signedName inputs sigType keyLocator sigValue).encodeComponents) ::
          self.signedBody inputs sigType keyLocator sigValue)) := by
  have hname : (self.signedName inputs sigType keyLocator sigValue).encodeComponents =
      (withoutDigests self.name).encodeComponents ++
        writeTlv TlvType.parametersSha256.toNat
          (Sha256.digest (writeTlvs (self.signedTail inputs sigType keyLocator sigValue))) := by
    simp [signedName, Name.encodeComponents]
  have htail : writeTlvs (self.signedTail inputs sigType keyLocator sigValue) =
      writeTlv TlvType.appParameters (self.appParameters.getD []) ++
        (writeTlv TlvType.interestSignatureInfo
          (writeTlvs (sigInfoElements inputs sigType keyLocator)) ++
            writeTlv TlvType.interestSignatureValue sigValue) := by
    simp [signedTail]
  rw [buildSignedInterestParts_eq, hname, writeTlv.eq_1 TlvType.interest, writeTlvs_cons,
    writeTlvs_append, htail]
  simp [assembleSignedInterest, Nat.add_assoc]

lemma exists_front : ∃ front,
    assembleSignedInterest (self.buildSignedInterestParts inputs sigType keyLocator) sigValue =
      front ++ writeTlvs (self.signedTail inputs sigType keyLocator sigValue) := by
  rw [assemble_eq, writeTlv, writeTlvs_cons, writeTlvs_append, ← append_assoc, ← append_assoc]
  exact ⟨_, rfl⟩

end Written

/-! ## What it decodes to -/

section Decode

variable {self : InterestBuilder} {inputs : SigningInputs} {sigType : SignatureType}
  {keyLocator : Option Name} {sigValue : Bytes}

/-- The types of the elements in front of the ApplicationParameters, in their order. -/
private def fieldTypes : List ℕ :=
  [TlvType.canBePrefix, TlvType.mustBeFresh, TlvType.forwardingHint, TlvType.reflexiveName,
    TlvType.nonce, TlvType.interestLifetime, TlvType.hopLimit]

/-- The types of the elements behind the name, in their order. -/
private def bodyTypes : List ℕ :=
  fieldTypes ++ [TlvType.appParameters, TlvType.interestSignatureInfo,
    TlvType.interestSignatureValue]

private lemma fieldTypes_sublist :
    ((self.bodyElements inputs.nextNonce).map Prod.fst).Sublist fieldTypes := by
  rcases self with ⟨name, lifetime, _ | _, _ | _, _ | h, params, _ | hints, _ | rname⟩ <;>
    simp only [bodyElements, if_true, Bool.false_eq_true, if_false, map_none,
      map_some, toList_none, toList_some, nil_append, append_nil,
      cons_append, map_cons, map_nil] <;>
    decide

private lemma bodyTypes_sublist :
    ((self.signedBody inputs sigType keyLocator sigValue).map Prod.fst).Sublist bodyTypes := by
  rw [map_append]
  exact fieldTypes_sublist.append (.refl _)

private lemma find?_signed {typ : ℕ} (htyp : typ ∉ fieldTypes) :
    ((self.signedBody inputs sigType keyLocator sigValue).find? fun e => e.1 = typ) =
      (self.signedTail inputs sigType keyLocator sigValue).find? fun e => e.1 = typ := by
  have hnone : ((self.bodyElements inputs.nextNonce).find? fun e => e.1 = typ) = none := by
    refine find?_eq_none.mpr fun e he h => htyp ?_
    rw [← of_decide_eq_true h]
    exact fieldTypes_sublist.subset (mem_map_of_mem he)
  rw [find?_append, hnone, none_or]

/-- The InterestSignatureInfo is readable. -/
lemma decode_sigInfoElements (hcode : sigType.code < 2 ^ 64)
    (hrule : SignatureInfo.KeyLocatorRule sigType.code (keyLocator.map .name))
    (hkey : ∀ n ∈ keyLocator, ∀ c ∈ n, c.typ.toNat < 2 ^ 32)
    (hlen : (writeTlvs (sigInfoElements inputs sigType keyLocator)).length < 2 ^ 64) :
    decode (writeTlvs (sigInfoElements inputs sigType keyLocator)) =
      .ok ⟨.fromCode sigType.code, keyLocator.map .name, some (beBytes 8 inputs.randNonce.toNat),
        some inputs.nowMs.toNat, none⟩ := by
  have hflds : (writeTlvs (sigInfoFields sigType keyLocator)).length < 2 ^ 64 := by
    rw [sigInfoElements, writeTlvs_append, length_append] at hlen
    omega
  have hok : ∀ e ∈ sigInfoElements inputs sigType keyLocator, ElementOk e := by
    refine elementOk_of_length (fun e he => ?_) hlen
    have htyp : e.1 = signatureType ∨ e.1 = TlvType.keyLocator ∨
        e.1 = signatureNonce ∨ e.1 = signatureTime := by
      simp only [sigInfoElements, sigInfoFields, mem_append, mem_cons,
        mem_toList, map_eq_some_iff, not_mem_nil, or_false] at he
      rcases he with (rfl | ⟨_, -, rfl⟩) | rfl | rfl
      · exact .inl rfl
      · exact .inr (.inl rfl)
      · exact .inr (.inr (.inl rfl))
      · exact .inr (.inr (.inr rfl))
    rcases htyp with h | h | h | h <;> rw [h] <;> decide
  have htime : ∀ s : SignatureInfo.Fields,
      decodeStep s signatureTime (nni inputs.nowMs.toNat) =
        .ok { s with sigTime := some inputs.nowMs.toNat } := by
    intro s
    rw [decodeStep, if_neg (by decide), if_neg (by decide), if_neg (by decide),
      if_pos rfl, decodeNni_nni inputs.nowMs.toNat_lt]
    rfl
  have hnc : ∀ (s : SignatureInfo.Fields) v,
      decodeStep s signatureNonce v = .ok { s with sigNonce := some v } :=
    fun _ _ => rfl
  have hfold : (sigInfoElements inputs sigType keyLocator).foldlM
      (fun s e => decodeStep s e.1 e.2) ⟨none, none, none, none, none⟩ =
      .ok ⟨some (.fromCode sigType.code), keyLocator.map .name,
        some (beBytes 8 inputs.randNonce.toNat), some inputs.nowMs.toNat, none⟩ := by
    rw [sigInfoElements, foldlM_append, foldlM_sigInfoFields hcode hkey hflds,
      Except.ok_bind, foldlM_cons, hnc, Except.ok_bind, foldlM_cons, htime]
    rfl
  refine decode_eq_ok_iff.mpr ⟨_, forEachTlv_eq_ok_iff.mpr ⟨_, hok, rfl, hfold⟩, ?_, rfl⟩
  simp only [checkKeyLocator, SignatureType.code_fromCode]
  exact Except.ensure_of hrule

variable {info : SignatureInfo}

private lemma valueOk_of_mem
    (hinfo : decode (writeTlvs (sigInfoElements inputs sigType keyLocator)) =
      .ok info) {e : ℕ × Bytes} (he : e ∈ self.signedBody inputs sigType keyLocator sigValue) :
    Interest.ValueOk e.1 e.2 := by
  have hoth : ∀ {t : ℕ} {v : Bytes}, t ≠ TlvType.nonce → t ≠ TlvType.interestSignatureInfo →
      Interest.ValueOk t v := fun hn hi => ⟨fun h => absurd h hn, fun h => absurd h hi⟩
  have hnc : ∀ n : ℕ, Interest.ValueOk TlvType.nonce (beBytes 4 n) :=
    fun n => ⟨fun _ => beBytes_length 4 n, fun h => absurd h (by decide)⟩
  simp only [bodyElements, signedTail, mem_append, mem_cons, mem_ite_nil_right,
    mem_toList, map_eq_some_iff, not_mem_nil, or_false] at he
  rcases he with (((((⟨-, rfl⟩ | ⟨-, rfl⟩) | ⟨_, -, rfl⟩) | ⟨_, -, rfl⟩) | rfl | rfl) |
    ⟨_, -, rfl⟩) | rfl | rfl | rfl
  · exact hoth (t := TlvType.canBePrefix) (by decide) (by decide)
  · exact hoth (t := TlvType.mustBeFresh) (by decide) (by decide)
  · exact hoth (t := TlvType.forwardingHint) (by decide) (by decide)
  · exact hoth (t := TlvType.reflexiveName) (by decide) (by decide)
  · exact hnc _
  · exact hoth (t := TlvType.interestLifetime) (by decide) (by decide)
  · exact hoth (t := TlvType.hopLimit) (by decide) (by decide)
  · exact hoth (t := TlvType.appParameters) (by decide) (by decide)
  · exact ⟨fun h => absurd h (by decide : TlvType.interestSignatureInfo ≠ TlvType.nonce),
      fun _ => ⟨info, hinfo⟩⟩
  · exact hoth (t := TlvType.interestSignatureValue) (by decide) (by decide)

private lemma validatePsdcStructure_signedName (has : Bool) :
    Interest.validatePsdcStructure (self.signedName inputs sigType keyLocator sigValue) has =
      .ok () := by
  have hcnt : (self.signedName inputs sigType keyLocator sigValue).countP
      (fun c => c.typ = parametersSha256) = 1 := by
    have hno : (withoutDigests self.name).countP (fun c => c.typ = parametersSha256) = 0 := by
      simp [withoutDigests]
    rw [signedName, countP_append, hno]
    simp
  rw [Interest.validatePsdcStructure, hcnt]
  simp [Except.ensure_of]

private lemma typ_lt_of_mem_signedName (htyp : ∀ c ∈ self.name, c.typ.toNat < 2 ^ 32) :
    ∀ c ∈ self.signedName inputs sigType keyLocator sigValue, c.typ.toNat < 2 ^ 32 := by
  intro c hc
  rcases mem_append.mp hc with hc | hc
  · exact htyp c (mem_of_mem_filter hc)
  · rw [mem_singleton.mp hc]
    simp [parametersSha256]

private lemma bodyFold_signed (self : InterestBuilder) (sigValue : Bytes)
    (hinfo : decode (writeTlvs (sigInfoElements inputs sigType keyLocator)) = .ok info) :
    ∃ s, Interest.bodyFold ⟨1, false⟩ (self.signedBody inputs sigType keyLocator sigValue) =
      .ok s := by
  refine Interest.bodyFold_of_pairwise ?_ (List.Pairwise.sublist bodyTypes_sublist (by decide))
  intro e he
  have hplac : ∀ t ∈ bodyTypes, (elemIndex t = none ∧ isCriticalTlvType t = false) ∨
      (elemIndex t).any (1 < ·) = true := by
    decide
  rcases hplac e.1 (bodyTypes_sublist.subset (mem_map_of_mem he)) with hnone | hsome
  · exact .inl hnone
  · cases hidx : elemIndex e.1 with
    | none => simp [hidx] at hsome
    | some i => exact .inr ⟨i, rfl, by simpa [hidx] using hsome, valueOk_of_mem hinfo he⟩

lemma layout_signed (htyp : ∀ c ∈ self.name, c.typ.toNat < 2 ^ 32) (hcode : sigType.code < 2 ^ 64)
    (hrule : SignatureInfo.KeyLocatorRule sigType.code (keyLocator.map .name))
    (hkey : ∀ n ∈ keyLocator, ∀ c ∈ n, c.typ.toNat < 2 ^ 32)
    (hlen : (assembleSignedInterest (self.buildSignedInterestParts inputs sigType keyLocator)
      sigValue).length < 2 ^ 63) :
    Interest.Layout
      ⟨assembleSignedInterest (self.buildSignedInterestParts inputs sigType keyLocator) sigValue,
        self.signedName inputs sigType keyLocator sigValue⟩
      (self.signedName inputs sigType keyLocator sigValue).encodeComponents
      (self.signedBody inputs sigType keyLocator sigValue)
      [] := by
  rw [assemble_eq] at hlen ⊢
  obtain ⟨es, hes⟩ : ∃ es, es = self.signedBody inputs sigType keyLocator sigValue := ⟨_, rfl⟩
  obtain ⟨name, hname⟩ : ∃ name, name = self.signedName inputs sigType keyLocator sigValue :=
    ⟨_, rfl⟩
  have htypes : (es.map Prod.fst).Sublist bodyTypes := by
    rw [hes]
    exact bodyTypes_sublist
  rw [← hes, ← hname] at hlen ⊢
  have hinn : (writeTlvs ((TlvType.name, name.encodeComponents) :: es)).length < 2 ^ 64 := by
    have := length_le_length_writeTlv TlvType.interest
      (writeTlvs ((TlvType.name, name.encodeComponents) :: es))
    omega
  have hok : ∀ e ∈ (TlvType.name, name.encodeComponents) :: es, ElementOk e := by
    refine elementOk_of_length (fun e he => ?_) hinn
    rcases mem_cons.mp he with rfl | he
    · simp [TlvType.name]
    · have hall : ∀ t ∈ bodyTypes, t < 2 ^ 32 := by decide
      exact hall e.1 (htypes.subset (mem_map_of_mem he))
  have hwire : name.WireOk := by
    refine Name.wireOk_of_length ?_ (hok _ mem_cons_self).2
    rw [hname]
    exact typ_lt_of_mem_signedName htyp
  have hsigInfo : (TlvType.interestSignatureInfo,
      writeTlvs (sigInfoElements inputs sigType keyLocator)) ∈ es := by
    rw [hes]
    simp [signedTail]
  have hinfo := decode_sigInfoElements hcode hrule hkey (hok _ (mem_cons_of_mem _ hsigInfo)).2
  obtain ⟨s, hs⟩ := bodyFold_signed self sigValue hinfo
  rw [← hes] at hs
  refine ⟨readTlv_writeTlv_self (by decide) hinn, hok, Name.decode_encodeComponents hwire, ?_, s,
    hs, ?_⟩
  · rw [hname, signedName]
    simp
  · rw [hname]
    exact validatePsdcStructure_signedName _

/-- **A signed Interest decodes to what was signed.** For every builder and every signing function
it is accepted; the region that the decoder cuts out is the one that was signed, and the signature
the one returned; its name ends in the digest of the ApplicationParameters, the
InterestSignatureInfo and the InterestSignatureValue with which the wire ends. -/
theorem signed_interest_decodes (self : InterestBuilder) (inputs : SigningInputs)
    (sigType : SignatureType) (keyLocator : Option Name) (signFn : Bytes → Bytes)
    (htyp : ∀ c ∈ self.name, c.typ.toNat < 2 ^ 32) (hcode : sigType.code < 2 ^ 64)
    (hrule : SignatureInfo.KeyLocatorRule sigType.code (keyLocator.map .name))
    (hkey : ∀ n ∈ keyLocator, ∀ c ∈ n, c.typ.toNat < 2 ^ 32)
    (hlen : (self.sign inputs sigType keyLocator signFn).length < 2 ^ 63) :
    let region := concatSignedRegion (self.buildSignedInterestParts inputs sigType keyLocator)
    ∃ i, Interest.decode (self.sign inputs sigType keyLocator signFn) = .ok i ∧
      i.signedRegion = some region ∧ i.sigValue = some (signFn region) ∧
      ∃ front ap si, self.sign inputs sigType keyLocator signFn = front ++ writeTlvs
          [(TlvType.appParameters, ap), (TlvType.interestSignatureInfo, si),
            (TlvType.interestSignatureValue, signFn region)] ∧
        i.name = Interest.withoutDigests self.name ++ [⟨TlvType.parametersSha256,
          Sha256.digest (writeTlvs [(TlvType.appParameters, ap),
            (TlvType.interestSignatureInfo, si),
            (TlvType.interestSignatureValue, signFn region)])⟩] := by
  intro region
  have hlay := layout_signed htyp hcode hrule hkey hlen
  refine ⟨_, Interest.decode_eq_ok_iff_layout.mpr ⟨rfl, _, _, _, hlay⟩, ?_, ?_, ?_⟩
  · have happ := hlay.findField_eq (by decide : TlvType.appParameters ≠ TlvType.name)
    have hinfo := hlay.findField_eq (by decide : TlvType.interestSignatureInfo ≠ TlvType.name)
    rw [find?_signed (by decide)] at happ hinfo
    rw [hlay.signedRegion_eq, Interest.appParameters, happ, hinfo]
    have hname : withoutDigests (self.signedName inputs sigType keyLocator
        (signFn region)) = withoutDigests self.name := by
      simp [signedName, withoutDigests]
    show some _ = some region
    rw [hname]
    simp only [region, buildSignedInterestParts_eq, concatSignedRegion]
  · rw [Interest.sigValue, hlay.findField_eq (by decide), find?_signed (by decide)]
    rfl
  · obtain ⟨front, hfrt⟩ := self.exists_front inputs sigType keyLocator (signFn region)
    exact ⟨front, _, _, hfrt, rfl⟩

/-- A command `/a` with parameters, a hop limit and a forwarding hint, and with a stale digest in
its name. -/
def command : InterestBuilder :=
  { name := [.generic [0x61], ⟨parametersSha256, [0x00]⟩], mustBeFresh := true
    hopLimit := some 3, appParameters := some [0x01, 0x02]
    forwardingHint := some [[.generic [0x68]]] }

/-- `command`, signed by a key `/k` with a signature of three bytes. -/
theorem signed_command_decodes :
    let parts := command.buildSignedInterestParts ⟨7, 8, 9⟩ .signatureEd25519
      (some [.generic [0x6b]])
    let wire := command.sign ⟨7, 8, 9⟩ .signatureEd25519 (some [.generic [0x6b]])
      fun _ => [0x01, 0x02, 0x03]
    ∃ i, Interest.decode wire = .ok i ∧ i.signedRegion = some (concatSignedRegion parts) ∧
      i.sigValue = some [0x01, 0x02, 0x03] ∧
      ∃ front ap si, wire = front ++ writeTlvs [(TlvType.appParameters, ap),
          (TlvType.interestSignatureInfo, si),
          (TlvType.interestSignatureValue, [0x01, 0x02, 0x03])] ∧
        i.name = Interest.withoutDigests command.name ++ [⟨TlvType.parametersSha256,
          Sha256.digest (writeTlvs [(TlvType.appParameters, ap),
            (TlvType.interestSignatureInfo, si),
            (TlvType.interestSignatureValue, [0x01, 0x02, 0x03])])⟩] :=
  signed_interest_decodes command ⟨7, 8, 9⟩ .signatureEd25519 (some [.generic [0x6b]])
    (fun _ => [0x01, 0x02, 0x03]) (by decide) (by decide) (by decide) (by decide)
    (by decide)

/-- **A component type beyond 32 bits.** The builder takes it, and its Interest is not decoded. -/
theorem wide_component_not_decoded :
    let wide : InterestBuilder := { name := [⟨0x100000000, [0x61]⟩] }
    Interest.decode (wide.sign ⟨7, 8, 9⟩ .digestSha256 none Sha256.digest) =
      .error (.malformedPacket "TLV read error") := by
  decide

end Decode

end InterestBuilder

end NdnRs
