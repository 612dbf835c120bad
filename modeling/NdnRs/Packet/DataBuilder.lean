import NdnRs.Lib.BufMut
import NdnRs.Packet.DataRegion
import NdnRs.Packet.Encode

/-!
# Building Data packets (`ndn-packet/src/encode/data.rs`)

A `DataBuilder` writes a Data packet in several ways. The fast paths compute the length of every
element first and put the packet into one buffer, which may be the caller's; the general path writes
the elements into writers of their own, and signs with a function it is given.

## Implementation notes

A duration is a number of nanoseconds. A function that panics returns `none`; the `debug_assert!`
lines are checks like others.

## Main results

* `digest_encoders_agree` — they agree, and decode back.
-/

namespace NdnRs

open Bytes Tlv Encode List Option TlvType BufMut Data Sha256

/-! ## The fast paths -/

def siginfoDigestSha256 : Bytes := [0x16, 0x03, 0x1B, 0x01, 0x00]

section Put

variable {B : Type} [BufMut B]

def putVu (buf : B) (v : ℕ) : Option B := putSlice buf (writeVaru64 v)

/-- The three lines that put an element: its type, its length and its value. -/
def putTlv (buf : B) (typ : ℕ) (value : Bytes) : Option B := do
  let buf ← putVu buf typ
  let buf ← putVu buf value.length
  putSlice buf value

/-- The same lines under `if let Some(value) = …`. -/
def putOptionalTlv (buf : B) (typ : ℕ) : Option Bytes → Option B
  | some value => putTlv buf typ value
  | none => some buf

/-- The MetaInfo in `write_fields`. -/
def putMetaInfo (buf : B) (freshness : Option ℕ) (finalBlockId : Option Bytes)
    (contentType : Option UInt64) (miInner : ℕ) : Option B :=
  if miInner > 0 then do
    let buf ← putVu buf metaInfo
    let buf ← putVu buf miInner
    let buf ← putOptionalTlv buf TlvType.contentType (contentType.map fun ct => nni ct.toNat)
    let buf ← putOptionalTlv buf freshnessPeriod
      (freshness.map fun f => nni (asMillis f))
    putOptionalTlv buf TlvType.finalBlockId finalBlockId
  else some buf

end Put

structure FastPathSizes where
  compsInner : ℕ
  nameTlv : ℕ
  miInner : ℕ
  metainfoTlv : ℕ
  contentTlv : ℕ

def FastPathSizes.compute (name : Name) (freshness : Option ℕ) (finalBlockId : Option Bytes)
    (contentType : Option UInt64) (content : Bytes) : FastPathSizes :=
  let compsInner := name.foldl (fun s c =>
    s + (varu64Size c.typ.toNat + varu64Size c.value.length + c.value.length)) 0
  let nameTlv := varu64Size TlvType.name + varu64Size compsInner + compsInner
  let s := match contentType with
    | some ct =>
      let nniLen := (nni ct.toNat).length
      varu64Size TlvType.contentType + varu64Size nniLen + nniLen
    | none => 0
  let s := match freshness with
    | some f =>
      let nniLen := (nni (asMillis f)).length
      s + (varu64Size freshnessPeriod + varu64Size nniLen + nniLen)
    | none => s
  let miInner := match finalBlockId with
    | some fb => s + (varu64Size TlvType.finalBlockId + varu64Size fb.length + fb.length)
    | none => s
  let metainfoTlv := if miInner > 0 then
      varu64Size metaInfo + varu64Size miInner + miInner
    else 0
  let contentTlv := varu64Size TlvType.content + varu64Size content.length + content.length
  ⟨compsInner, nameTlv, miInner, metainfoTlv, contentTlv⟩

def writeFields {B : Type} [BufMut B] (buf : B) (name : Name) (freshness : Option ℕ)
    (finalBlockId : Option Bytes) (contentType : Option UInt64) (content : Bytes)
    (sz : FastPathSizes) : Option B := do
  let buf ← putVu buf TlvType.name
  let buf ← putVu buf sz.compsInner
  let buf ← name.foldlM (fun buf comp => putTlv buf comp.typ.toNat comp.value) buf
  let buf ← putMetaInfo buf freshness finalBlockId contentType sz.miInner
  putTlv buf TlvType.content content

/-- `DataBuilder`; the freshness period in nanoseconds, the content type as its code. -/
structure DataBuilder where
  name : Name
  content : Bytes
  freshness : Option ℕ := none
  finalBlockId : Option Bytes := none
  contentType : Option UInt64 := none

namespace DataBuilder

variable (self : DataBuilder) (w : TlvWriter) (sigType : SignatureType) (keyLocator : Option Name)

def sizes : FastPathSizes :=
  .compute self.name self.freshness self.finalBlockId self.contentType self.content

/-- The constant `SIGVALUE` of the fast paths: a header of two bytes and a digest. -/
def sigvalue : ℕ := 34

def signDigestSha256 : Option Bytes := do
  let sz := self.sizes
  let signedSize := sz.nameTlv + sz.metainfoTlv + sz.contentTlv + siginfoDigestSha256.length
  let innerSize := signedSize + sigvalue
  let headerSize := varu64Size data + varu64Size innerSize
  let buf : BytesMut := ⟨[]⟩
  let buf ← putVu buf data
  let buf ← putVu buf innerSize
  let signedStart := buf.bytes.length
  let buf ← writeFields buf self.name self.freshness self.finalBlockId self.contentType
    self.content sz
  let buf ← putSlice buf siginfoDigestSha256
  guard (buf.bytes.length - signedStart = signedSize)
  let hash := digest (buf.bytes.drop signedStart)
  let buf ← putSlice buf [0x17, 0x20]
  let buf ← putSlice buf hash
  guard (buf.bytes.length = headerSize + innerSize)
  return buf.bytes

def encodedLenDigestSha256 : ℕ :=
  let sz := self.sizes
  let innerSize := sz.nameTlv + sz.metainfoTlv + sz.contentTlv + siginfoDigestSha256.length +
    sigvalue
  varu64Size data + varu64Size innerSize + innerSize

/-- The block of `encode_digest_sha256_into` that writes through the cursor. -/
def putUnsigned {B : Type} [BufMut B] (self : DataBuilder) (cur : B) (innerSize : ℕ) :
    Option B := do
  let cur ← putVu cur data
  let cur ← putVu cur innerSize
  let cur ← writeFields cur self.name self.freshness self.finalBlockId self.contentType
    self.content self.sizes
  putSlice cur siginfoDigestSha256

/-- The end of `encode_digest_sha256_into`: the digest of the signed region, written in place. -/
def signInPlace (out : Bytes) (signedStart signedEnd : ℕ) : Option Bytes := do
  let hash := digest ((out.take signedEnd).drop signedStart)
  guard (signedEnd + 34 ≤ out.length)
  let out := (out.set signedEnd 0x17).set (signedEnd + 1) 0x20
  return out.take (signedEnd + 2) ++ hash ++ out.drop (signedEnd + 34)

/-- `DataBuilder::encode_digest_sha256_into`: the buffer as it is left, and the number of bytes
written. -/
def encodeDigestSha256Into (out : Bytes) : Option (Bytes × ℕ) := do
  let sz := self.sizes
  let signedSize := sz.nameTlv + sz.metainfoTlv + sz.contentTlv + siginfoDigestSha256.length
  let innerSize := signedSize + sigvalue
  let headerSize := varu64Size data + varu64Size innerSize
  let total := headerSize + innerSize
  guard (out.length ≥ total)
  let cur : SliceMut := ⟨[], out.take total⟩
  let cur ← self.putUnsigned cur innerSize
  let out := cur.written ++ cur.room ++ out.drop total
  let signedStart := headerSize
  let signedEnd := headerSize + signedSize
  let out ← signInPlace out signedStart signedEnd
  return (out, total)

/-! ## The general path -/

/-- The MetaInfo as the general path writes it, when the builder has one of its fields. -/
def writeMetaInfo : TlvWriter :=
  if self.contentType.isSome || self.freshness.isSome || self.finalBlockId.isSome then
    w.writeNested metaInfo fun w =>
      let w := match self.contentType with
        | some ct => writeNni w TlvType.contentType ct.toNat
        | none => w
      let w := match self.freshness with
        | some f => writeNni w freshnessPeriod (asMillis f)
        | none => w
      match self.finalBlockId with
        | some fb => w.writeTlv TlvType.finalBlockId fb
        | none => w
  else w

/-- The SignatureInfo as the general path writes it. -/
def writeSigInfo : TlvWriter :=
  w.writeNested signatureInfo fun w => writeSigFields w sigType keyLocator

/-- What `sign` and `sign_fallible` sign. -/
def regionToSign : Bytes :=
  let inner := writeName .new self.name
  let inner := self.writeMetaInfo inner
  let inner := inner.writeTlv TlvType.content self.content
  let innerBytes := inner.finish
  let sigInfoBytes := (writeSigInfo .new sigType keyLocator).finish
  innerBytes ++ sigInfoBytes

/-- What `sign` and `sign_fallible` write once they have the signature. -/
def assemble (signedRegion sigValue : Bytes) : Bytes :=
  (TlvWriter.new.writeNested data fun w =>
    (w.writeRaw signedRegion).writeTlv signatureValue sigValue).finish

def sign (signFn : Bytes → Bytes) : Bytes :=
  let signedRegion := self.regionToSign sigType keyLocator
  assemble signedRegion (signFn signedRegion)

def signFallible {ε : Type} (self : DataBuilder) (sigType : SignatureType)
    (keyLocator : Option Name) (signFn : Bytes → Except ε Bytes) : Except ε Bytes := do
  let signedRegion := self.regionToSign sigType keyLocator
  let sigValue ← signFn signedRegion
  return assemble signedRegion sigValue

/-- `DataBuilder::sign_sync`: the region is written into one writer, and the outer header by
hand. -/
def signSync (signFn : Bytes → Bytes) : Bytes :=
  let w := TlvWriter.new
  let signedStart := w.buf.length
  let w := writeName w self.name
  let w := self.writeMetaInfo w
  let w := w.writeTlv TlvType.content self.content
  let w := writeSigInfo w sigType keyLocator
  let sigValue := signFn (w.sliceFrom signedStart)
  let signedRegion := w.sliceFrom signedStart
  let innerLen := signedRegion.length + varu64Size signatureValue +
    varu64Size sigValue.length + sigValue.length
  let outer := TlvWriter.new
  let outer := outer.writeVaru64 TlvType.data
  let outer := outer.writeVaru64 innerLen
  let outer := outer.writeRaw signedRegion
  let outer := outer.writeTlv signatureValue sigValue
  outer.finish

/-! ## What is written -/

/-- The elements inside the MetaInfo. -/
def metaFields : List (ℕ × Bytes) :=
  (self.contentType.map fun ct => (TlvType.contentType, nni ct.toNat)).toList ++
    (self.freshness.map fun f => (TlvType.freshnessPeriod, nni (asMillis f))).toList ++
    (self.finalBlockId.map fun fb => (TlvType.finalBlockId, fb)).toList

/-- The MetaInfo, if there is anything in it. -/
def metaElement : List (ℕ × Bytes) :=
  if self.metaFields = [] then [] else [(metaInfo, writeTlvs self.metaFields)]

/-- The elements of the packet in front of the SignatureInfo. -/
def elements : List (ℕ × Bytes) :=
  (TlvType.name, self.name.encodeComponents) ::
    (self.metaElement ++ [(TlvType.content, self.content)])

/-- The region that is signed. -/
def signedElements : List (ℕ × Bytes) :=
  self.elements ++ [(signatureInfo, writeTlvs (sigInfoFields sigType keyLocator))]

/-- A packet with a signature. -/
def sealed (sigValue : Bytes) : Bytes :=
  writeTlv data (writeTlvs (self.signedElements sigType keyLocator ++ [(signatureValue, sigValue)]))

section General

lemma buf_writeMetaInfo (w : TlvWriter) :
    (self.writeMetaInfo w).buf = w.buf ++ writeTlvs self.metaElement := by
  rcases self with ⟨name, content, _ | f, _ | fb, _ | ct⟩ <;>
    simp [writeMetaInfo, metaElement, metaFields]

lemma buf_writeSigInfo (w : TlvWriter) :
    (writeSigInfo w sigType keyLocator).buf =
      w.buf ++ writeTlv signatureInfo (writeTlvs (sigInfoFields sigType keyLocator)) := by
  simp [writeSigInfo]

lemma regionToSign_eq : self.regionToSign sigType keyLocator =
    writeTlvs (self.signedElements sigType keyLocator) := by
  simp [regionToSign, signedElements, elements, buf_writeMetaInfo, buf_writeSigInfo]

lemma assemble_eq (es : List (ℕ × Bytes)) (sigValue : Bytes) :
    assemble (writeTlvs es) sigValue =
      writeTlv data (writeTlvs (es ++ [(signatureValue, sigValue)])) := by
  simp [assemble]

/-- **The general path** writes the elements, and the signature over them. -/
lemma sign_eq (signFn : Bytes → Bytes) : self.sign sigType keyLocator signFn =
    self.sealed sigType keyLocator
      (signFn (writeTlvs (self.signedElements sigType keyLocator))) := by
  rw [sign, regionToSign_eq, assemble_eq, sealed]

lemma signFallible_eq {ε : Type} {signFn : Bytes → Except ε Bytes} {sigValue : Bytes}
    (h : signFn (writeTlvs (self.signedElements sigType keyLocator)) = .ok sigValue) :
    self.signFallible sigType keyLocator signFn =
      .ok (self.sealed sigType keyLocator sigValue) := by
  rw [signFallible, regionToSign_eq, h, Except.ok_bind, assemble_eq, Except.pure_eq_ok, sealed]

lemma signSync_eq (signFn : Bytes → Bytes) : self.signSync sigType keyLocator signFn =
    self.sealed sigType keyLocator
      (signFn (writeTlvs (self.signedElements sigType keyLocator))) := by
  have hreg : ((writeSigInfo ((self.writeMetaInfo (writeName .new self.name)).writeTlv
      TlvType.content self.content) sigType keyLocator).sliceFrom 0) =
      writeTlvs (self.signedElements sigType keyLocator) := by
    simp [TlvWriter.sliceFrom, signedElements, elements, buf_writeMetaInfo, buf_writeSigInfo]
  have hsta : TlvWriter.new.buf.length = 0 := rfl
  simp only [signSync, hsta, hreg, sealed]
  simp [writeTlv.eq_1 TlvType.data, writeTlv_length, tlvSize, Nat.add_assoc]

end General

section Fast

lemma sizes_eq : self.sizes =
    ⟨self.name.encodeComponents.length,
      (writeTlv TlvType.name self.name.encodeComponents).length, (writeTlvs self.metaFields).length,
      (writeTlvs self.metaElement).length, (writeTlv TlvType.content self.content).length⟩ := by
  have hcom : ∀ (n : Name) (s : ℕ), n.foldl (fun s c =>
      s + (varu64Size c.typ.toNat + varu64Size c.value.length + c.value.length)) s =
      s + n.encodeComponents.length := by
    intro n
    induction n with
    | nil => simp
    | cons c n ih =>
      intro s
      rw [foldl_cons, ih, Name.encodeComponents_cons, length_append, writeTlv_length,
        tlvSize, Nat.add_assoc]
  have hpos := varu64Size_pos
  simp only [sizes, FastPathSizes.compute, hcom, Nat.zero_add, writeTlv_length, tlvSize]
  rcases self with ⟨name, content, _ | f, _ | fb, _ | ct⟩ <;>
    simp [metaElement, metaFields, writeTlv_length, tlvSize, hpos, Nat.add_assoc]

variable {B : Type} [BufMut B] [LawfulBufMut B] (buf : B)

lemma putTlv_eq (typ : ℕ) (value : Bytes) :
    putTlv buf typ value = putSlice buf (writeTlv typ value) := by
  simp only [putTlv, putVu, bind_eq_bind, bind_putSlice, writeTlv, append_assoc]

lemma putOptionalTlv_eq (typ : ℕ) (value : Option Bytes) :
    putOptionalTlv buf typ value =
      putSlice buf (writeTlvs (value.map fun v => (typ, v)).toList) := by
  cases value with
  | none => exact (LawfulBufMut.putSlice_nil buf).symm
  | some v => simp [putOptionalTlv, putTlv_eq]

lemma putMetaInfo_eq :
    putMetaInfo buf self.freshness self.finalBlockId self.contentType
      (writeTlvs self.metaFields).length = putSlice buf (writeTlvs self.metaElement) := by
  by_cases hnil : self.metaFields = []
  · rw [metaElement, if_pos hnil, hnil]
    exact (LawfulBufMut.putSlice_nil buf).symm
  obtain ⟨e, es, hes⟩ := exists_cons_of_ne_nil hnil
  have hpos : (writeTlvs self.metaFields).length > 0 := by
    rw [hes]
    exact length_pos_of_ne_nil (by simp [writeTlv_ne_nil])
  have hbs : writeTlvs self.metaElement = writeVaru64 metaInfo ++
      (writeVaru64 (writeTlvs self.metaFields).length ++ writeTlvs self.metaFields) := by
    simp [metaElement, hnil, writeTlv]
  rw [putMetaInfo, if_pos hpos, hbs, metaFields]
  simp only [putVu, putOptionalTlv_eq, Option.bind_eq_bind, bind_putSlice,
    writeTlvs_append, Option.map_map, append_assoc]
  rfl

lemma writeFields_eq :
    writeFields buf self.name self.freshness self.finalBlockId self.contentType self.content
      self.sizes = putSlice buf (writeTlvs self.elements) := by
  have hcom : ∀ buf : B, self.name.foldlM
      (fun buf comp => putSlice buf (writeTlv comp.typ.toNat comp.value)) buf =
      putSlice buf self.name.encodeComponents :=
    fun buf => foldlM_putSlice _ buf self.name
  have helem : writeTlvs self.elements =
      writeVaru64 TlvType.name ++ (writeVaru64 self.name.encodeComponents.length ++
        (self.name.encodeComponents ++ (writeTlvs self.metaElement ++
          writeTlv TlvType.content self.content))) := by
    simp [elements, writeTlv.eq_1 TlvType.name]
  rw [helem, sizes_eq]
  simp only [writeFields, putVu, hcom, putMetaInfo_eq, putTlv_eq, Option.bind_eq_bind,
    bind_putSlice]

end Fast

/-! ## The digest -/

section Digest

def digestRegion : Bytes := writeTlvs (self.signedElements .digestSha256 none)

def digestWire : Bytes := self.sealed .digestSha256 none (digest self.digestRegion)

lemma digestRegion_eq : self.digestRegion = writeTlvs self.elements ++ siginfoDigestSha256 := by
  have hinfo : writeTlv signatureInfo (writeTlvs (sigInfoFields .digestSha256 none)) =
      siginfoDigestSha256 := by
    decide
  simp [digestRegion, signedElements, hinfo]

lemma signedSize_eq : self.sizes.nameTlv + self.sizes.metainfoTlv + self.sizes.contentTlv +
    siginfoDigestSha256.length = self.digestRegion.length := by
  rw [digestRegion_eq, sizes_eq]
  simp [elements, Nat.add_assoc]

lemma digestWire_eq : self.digestWire = writeVaru64 data ++
    writeVaru64 (self.digestRegion.length + sigvalue) ++
      (self.digestRegion ++ ([0x17, 0x20] ++ digest self.digestRegion)) := by
  have hval : writeTlv signatureValue (digest self.digestRegion) =
      [0x17, 0x20] ++ digest self.digestRegion := by
    rw [writeTlv, digest_length]
    rfl
  have hlen : (writeTlvs (self.signedElements .digestSha256 none ++
      [(signatureValue, digest self.digestRegion)])).length =
      self.digestRegion.length + sigvalue := by
    simp [digestRegion, writeTlv_length, tlvSize, digest_length]
    rfl
  rw [digestWire, sealed, writeTlv.eq_1 data, hlen, writeTlvs_append, writeTlvs_cons,
    hval, writeTlvs_nil, append_nil]
  rfl

lemma digestWire_length : self.digestWire.length = self.encodedLenDigestSha256 := by
  rw [encodedLenDigestSha256, digestWire_eq, signedSize_eq]
  simp only [length_append, writeVaru64_length, digest_length, sigvalue, length_cons, length_nil]

private lemma guard_of {p : Prop} [Decidable p] (h : p) : (guard p : Option Unit) = some () :=
  if_pos h

private lemma append_region (hdr : Bytes) :
    hdr ++ writeTlvs self.elements ++ siginfoDigestSha256 = hdr ++ self.digestRegion := by
  rw [digestRegion_eq, append_assoc]

lemma signDigestSha256_eq : self.signDigestSha256 = some self.digestWire := by
  simp only [signDigestSha256, putVu, writeFields_eq, BytesMut.putSlice_eq, bind_eq_bind,
    bind_some, signedSize_eq, nil_append, append_region, drop_left]
  rw [guard_of (by rw [length_append, Nat.add_sub_cancel_left]), bind_some, guard_of,
    bind_some, digestWire_eq]
  · simp
  · simp only [length_append, writeVaru64_length, digest_length, sigvalue,
      length_cons, length_nil]
    omega

lemma putUnsigned_eq {B : Type} [BufMut B] [LawfulBufMut B] (buf : B) (innerSize : ℕ) :
    self.putUnsigned buf innerSize = putSlice buf
      (writeVaru64 data ++ (writeVaru64 innerSize ++ self.digestRegion)) := by
  simp only [putUnsigned, putVu, writeFields_eq, bind_eq_bind, bind_putSlice, digestRegion_eq]

/-- The in-place signature: two bytes of header and the digest, in the place of what was there. -/
lemma signInPlace_eq (header region room back : Bytes) (hroom : room.length = sigvalue) :
    signInPlace (header ++ region ++ room ++ back) header.length (header.length + region.length) =
      some (header ++ region ++ ([0x17, 0x20] ++ digest region) ++ back) := by
  rw [← length_append]
  obtain ⟨front, hfrt⟩ : ∃ front, front = header ++ region := ⟨_, rfl⟩
  have hhash : ((front ++ room ++ back).take front.length).drop header.length = region := by
    rw [append_assoc, take_left, hfrt, drop_left]
  have hfits : front.length + 34 ≤ (front ++ room ++ back).length := by
    simp only [length_append, hroom, sigvalue]
    omega
  obtain ⟨a, b, r, rfl⟩ : ∃ a b r, room = a :: b :: r := by
    match room, hroom with
    | a :: b :: r, _ => exact ⟨a, b, r, rfl⟩
  have hset : ((front ++ (a :: b :: r) ++ back).set front.length 0x17).set (front.length + 1) 0x20 =
      front ++ (0x17 :: 0x20 :: r ++ back) := by
    simp
  have htake : (front ++ (0x17 :: 0x20 :: r ++ back)).take (front.length + 2) =
      front ++ [0x17, 0x20] := by
    rw [take_length_add_append]
    rfl
  have hdrop : (front ++ (0x17 :: 0x20 :: r ++ back)).drop (front.length + 34) = back := by
    rw [drop_length_add_append]
    have hr : 34 = (0x17 :: 0x20 :: r).length := by simpa [sigvalue] using hroom.symm
    rw [hr]
    exact drop_left
  rw [signInPlace, ← hfrt, hhash, guard_of hfits]
  simp only [hset, htake, hdrop]
  simp

/-- **The fast path into the caller's buffer**: it writes the packet and leaves what is behind it
alone. -/
lemma encodeDigestSha256Into_eq {out : Bytes} (hout : self.encodedLenDigestSha256 ≤ out.length) :
    self.encodeDigestSha256Into out =
      some (self.digestWire ++ out.drop self.encodedLenDigestSha256,
        self.encodedLenDigestSha256) := by
  obtain ⟨header, hhdr⟩ : ∃ header, header = writeVaru64 data ++
      writeVaru64 (self.digestRegion.length + sigvalue) := ⟨_, rfl⟩
  have hsize : varu64Size data + varu64Size (self.digestRegion.length + sigvalue) =
      header.length := by
    rw [hhdr, length_append, writeVaru64_length, writeVaru64_length]
  have htot : header.length + (self.digestRegion.length + sigvalue) =
      self.encodedLenDigestSha256 := by
    rw [encodedLenDigestSha256, signedSize_eq, hsize]
  -- the cursor stops in front of the room for the signature
  have hput : self.putUnsigned (⟨[], out.take self.encodedLenDigestSha256⟩ : SliceMut)
      (self.digestRegion.length + sigvalue) =
      some ⟨header ++ self.digestRegion, (out.take self.encodedLenDigestSha256).drop
        (header ++ self.digestRegion).length⟩ := by
    rw [putUnsigned_eq, ← append_assoc, ← hhdr, SliceMut.putSlice_of_le, nil_append]
    simp only [length_append, length_take]
    omega
  have hroom : ((out.take self.encodedLenDigestSha256).drop
      (header ++ self.digestRegion).length).length = sigvalue := by
    simp only [length_drop, length_take, length_append]
    omega
  simp only [encodeDigestSha256Into, signedSize_eq, hsize, htot, guard_of hout, hput,
    bind_eq_bind, bind_some, signInPlace_eq _ _ _ _ hroom]
  rw [digestWire_eq, ← hhdr]
  simp

end Digest

/-! ## What it decodes to -/

/-- The MetaInfo that the builder stands for; the freshness period in milliseconds. -/
def metaInfo : Option MetaInfo :=
  if self.metaFields = [] then none
  else some ⟨.fromCode ((self.contentType.map UInt64.toNat).getD 0), self.freshness.map asMillis,
    self.finalBlockId⟩

section Decode

lemma decode_metaFields (hlen : (writeTlvs self.metaFields).length < 2 ^ 64) :
    MetaInfo.decode (writeTlvs self.metaFields) =
      .ok ⟨.fromCode ((self.contentType.map UInt64.toNat).getD 0), self.freshness.map asMillis,
        self.finalBlockId⟩ := by
  have htype : ∀ info (ct : UInt64), MetaInfo.decodeStep info TlvType.contentType (nni ct.toNat) =
      .ok { info with contentType := .fromCode ct.toNat } := by
    intro info ct
    rw [MetaInfo.decodeStep, if_pos rfl, decodeNni_nni ct.toNat_lt]
    rfl
  have hfres : ∀ info f,
      MetaInfo.decodeStep info TlvType.freshnessPeriod (nni (asMillis f)) =
        .ok { info with freshnessPeriod := some (asMillis f) } := by
    intro info f
    rw [MetaInfo.decodeStep, if_neg (by decide), if_pos rfl, decodeNni_nni (asMillis_lt f)]
    rfl
  have hbloc : ∀ info fb, MetaInfo.decodeStep info TlvType.finalBlockId fb =
      .ok { info with finalBlockId := some fb } := fun _ _ => rfl
  refine forEachTlv_eq_ok_iff.mpr ⟨self.metaFields, ?_, rfl, ?_⟩
  · refine elementOk_of_length (fun e he => ?_) hlen
    simp only [metaFields, mem_append, mem_toList, map_eq_some_iff] at he
    rcases he with (⟨_, -, rfl⟩ | ⟨_, -, rfl⟩) | ⟨_, -, rfl⟩
    · exact (by decide : TlvType.contentType < 2 ^ 32)
    · exact (by decide : TlvType.freshnessPeriod < 2 ^ 32)
    · exact (by decide : TlvType.finalBlockId < 2 ^ 32)
  · rcases self with ⟨name, content, _ | f, _ | fb, _ | ct⟩ <;>
      simp [metaFields, MetaInfo.default, htype, hfres, hbloc] <;> rfl

/-- The elements of a packet behind its name. -/
def bodyElements (sigType : SignatureType) (keyLocator : Option Name) (sigValue : Bytes) :
    List (ℕ × Bytes) :=
  self.metaElement ++ [(TlvType.content, self.content),
    (TlvType.signatureInfo, writeTlvs (sigInfoFields sigType keyLocator)),
    (TlvType.signatureValue, sigValue)]

lemma sealed_eq (sigType : SignatureType) (keyLocator : Option Name) (sigValue : Bytes) :
    self.sealed sigType keyLocator sigValue = writeTlv TlvType.data (writeTlvs
      ((TlvType.name, self.name.encodeComponents) ::
        self.bodyElements sigType keyLocator sigValue)) := by
  simp [sealed, signedElements, elements, bodyElements]

variable {e : ℕ × Bytes} {info : SignatureInfo}

lemma mem_metaElement :
    e ∈ self.metaElement ↔
      self.metaFields ≠ [] ∧ e = (TlvType.metaInfo, writeTlvs self.metaFields) := by
  by_cases h : self.metaFields = [] <;> simp [metaElement, h]

variable {sigType : SignatureType} {keyLocator : Option Name} {sigValue : Bytes}

private lemma typ_lt_of_mem (he : e ∈ (TlvType.name, self.name.encodeComponents) ::
      self.bodyElements sigType keyLocator sigValue) : e.1 < 2 ^ 32 := by
  simp only [bodyElements, mem_cons, mem_append, mem_metaElement, not_mem_nil, or_false] at he
  rcases he with rfl | ⟨-, rfl⟩ | rfl | rfl | rfl
  all_goals
    simp [TlvType.name, TlvType.metaInfo, TlvType.content, TlvType.signatureInfo,
      TlvType.signatureValue]

/-- The elements stand in the order the decoder asks for. -/
private lemma accepted_bodyElements
    (hinfo : SignatureInfo.decode (writeTlvs (sigInfoFields sigType keyLocator)) = .ok info)
    (hsig : checkSigValueLen (some info.sigType) sigValue = .ok ()) :
    Data.Accepted ⟨1, none⟩ (self.bodyElements sigType keyLocator sigValue) := by
  have hctn : ∀ k < 3, ∀ v, bodyStep ⟨k, none⟩ TlvType.content v = .ok ⟨3, none⟩ := by
    intro k hk v
    have hens := Except.ensure_of (e := PacketError.malformedPacket
      "Data body element out of spec order or duplicated") hk
    simp [bodyStep, elemIndex, TlvType.content, TlvType.metaInfo, TlvType.signatureInfo,
      TlvType.signatureValue, hens]
  have hmeta : ∀ v, bodyStep ⟨1, none⟩ TlvType.metaInfo v = .ok ⟨2, none⟩ := fun _ => rfl
  have hsigInfo : ∀ v, bodyStep ⟨3, none⟩ TlvType.signatureInfo v =
      SignatureInfo.decode v >>= fun info => .ok ⟨4, some info.sigType⟩ := fun _ => rfl
  have hsigValue : ∀ t v, bodyStep ⟨4, some t⟩ TlvType.signatureValue v =
      checkSigValueLen (some t) v >>= fun _ => .ok ⟨5, some t⟩ := fun _ _ => rfl
  refine ⟨⟨5, some info.sigType⟩, ?_⟩
  by_cases h : self.metaFields = []
  · simp [bodyElements, metaElement, h, hctn, hsigInfo, hinfo, hsigValue, hsig]
  · simp [bodyElements, metaElement, h, hmeta, hctn, hsigInfo, hinfo, hsigValue, hsig]

/-- **What a packet decodes to**, whatever the signature, if the SignatureInfo and the length of the
signature pass their checks. -/
lemma decode_sealed (hne : self.name ≠ []) (htyp : ∀ c ∈ self.name, c.typ.toNat < 2 ^ 32)
    (hlen : (self.sealed sigType keyLocator sigValue).length < 2 ^ 63)
    (hinfo : SignatureInfo.decode (writeTlvs (sigInfoFields sigType keyLocator)) = .ok info)
    (hsig : Data.checkSigValueLen (some info.sigType) sigValue = .ok ()) :
    ∃ d, Data.decode (self.sealed sigType keyLocator sigValue) = .ok d ∧ d.name = self.name ∧
      d.content = some self.content ∧ d.metaInfo = self.metaInfo := by
  rw [sealed_eq] at hlen ⊢
  obtain ⟨es, hes⟩ : ∃ es, es = self.bodyElements sigType keyLocator sigValue := ⟨_, rfl⟩
  rw [← hes] at hlen ⊢
  have hinn : (writeTlvs ((TlvType.name, self.name.encodeComponents) :: es)).length < 2 ^ 64 := by
    have := length_le_length_writeTlv TlvType.data
      (writeTlvs ((TlvType.name, self.name.encodeComponents) :: es))
    omega
  have hok : ∀ e ∈ (TlvType.name, self.name.encodeComponents) :: es, ElementOk e := by
    refine elementOk_of_length (fun e he => ?_) hinn
    rw [hes] at he
    exact self.typ_lt_of_mem he
  obtain ⟨hname, hbody⟩ := forall_mem_cons.mp hok
  have hacc : Data.Accepted ⟨1, none⟩ es := by
    rw [hes]
    exact self.accepted_bodyElements hinfo hsig
  have hdec := Data.decode_writeTlvs hok hinn (Name.wireOk_of_length htyp hname.2) hne hacc
  have hfld := Data.findField_writeTlvs hok hinn
  have hctn : ((TlvType.name, self.name.encodeComponents) :: es).find?
      (fun e => e.1 = TlvType.content) = some (TlvType.content, self.content) := by
    rw [hes, bodyElements, metaElement]
    split_ifs <;> rfl
  have hmeta : ((TlvType.name, self.name.encodeComponents) :: es).find?
      (fun e => e.1 = TlvType.metaInfo) = if self.metaFields = [] then none
        else some (TlvType.metaInfo, writeTlvs self.metaFields) := by
    rw [hes, bodyElements, metaElement]
    split_ifs <;> rfl
  refine ⟨_, hdec, rfl, ?_, ?_⟩
  · rw [Data.content, Data.ofParts, hfld, hctn]
    rfl
  rw [Data.metaInfo, Data.ofParts, hfld, hmeta, metaInfo]
  by_cases hnil : self.metaFields = []
  · rw [if_pos hnil, if_pos hnil]
    rfl
  have hmem : (TlvType.metaInfo, writeTlvs self.metaFields) ∈ es := by
    rw [hes, bodyElements, mem_append, mem_metaElement]
    exact .inl ⟨hnil, rfl⟩
  rw [if_neg hnil, if_neg hnil, map_some]
  show (MetaInfo.decode (writeTlvs self.metaFields)).toOption = _
  rw [self.decode_metaFields (hbody _ hmem).2]
  rfl

end Decode

lemma decode_digestInfo : SignatureInfo.decode (writeTlvs (sigInfoFields .digestSha256 none)) =
    .ok ⟨.digestSha256, none, none, none, none⟩ := by
  decide

/-- **All encoders agree.** The two fast paths and the general ones, with a SHA-256 digest as the
signature, write the same packet for every builder; and with a name that is not empty and whose
types fit 32 bits it decodes to the builder's name, content and MetaInfo. -/
theorem digest_encoders_agree (self : DataBuilder) :
    ∃ wire, self.signDigestSha256 = some wire ∧
      (∀ out : Bytes, out.length = self.encodedLenDigestSha256 →
        self.encodeDigestSha256Into out = some (wire, wire.length)) ∧
      self.sign .digestSha256 none Sha256.digest = wire ∧
      (∀ ε : Type, self.signFallible .digestSha256 none (fun region =>
        (.ok (Sha256.digest region) : Except ε Bytes)) = .ok wire) ∧
      self.signSync .digestSha256 none Sha256.digest = wire ∧
      (self.name ≠ [] → (∀ c ∈ self.name, c.typ.toNat < 2 ^ 32) → wire.length < 2 ^ 63 →
        ∃ d, Data.decode wire = .ok d ∧ d.name = self.name ∧ d.content = some self.content ∧
          d.metaInfo = self.metaInfo) := by
  refine ⟨self.digestWire, self.signDigestSha256_eq, ?_, self.sign_eq _ _ _,
    fun ε => self.signFallible_eq _ _ rfl, self.signSync_eq _ _ _, ?_⟩
  · intro out hout
    rw [self.encodeDigestSha256Into_eq hout.ge, ← hout, drop_length, append_nil, hout,
      digestWire_length]
  intro hne htyp hlen
  refine self.decode_sealed hne htyp hlen decode_digestInfo ?_
  exact Except.ensure_of (digest_length _)

/-- A packet `/a` with every optional field, fresh for a millisecond and a half. -/
def sample : DataBuilder :=
  { name := [.generic [0x61]], content := [0x68, 0x69], freshness := some 1500000,
    finalBlockId := some [0x08, 0x01, 0x39], contentType := some 6 }

/-- `sample` through all encoders and back. -/
theorem digest_encoders_agree_sample :
    ∃ wire, sample.signDigestSha256 = some wire ∧
      sample.encodeDigestSha256Into (List.replicate 63 0xFF) = some (wire, 63) ∧
      sample.sign .digestSha256 none Sha256.digest = wire ∧
      sample.signSync .digestSha256 none Sha256.digest = wire ∧
      ∃ d, Data.decode wire = .ok d ∧ d.name = [.generic [0x61]] ∧
        d.content = some [0x68, 0x69] ∧
        d.metaInfo = some ⟨.other 6, some 1, some [0x08, 0x01, 0x39]⟩ := by
  obtain ⟨wire, hfast, hinto, hsign, -, hsync, hdec⟩ := digest_encoders_agree sample
  have hwire : wire = sample.digestWire := by
    rw [signDigestSha256_eq, some.injEq] at hfast
    exact hfast.symm
  have hlen : wire.length = 63 := by
    rw [hwire, digestWire_length]
    decide
  refine ⟨wire, hfast, ?_, hsign, hsync, hdec (by decide) (by decide) (by rw [hlen]; decide)⟩
  rw [hinto _ (by decide), hlen]

/-- **Beyond the format.** A freshness period of a millisecond and a half comes back as one
millisecond, and a component whose type does not fit 32 bits makes a packet that is not decoded. -/
theorem beyond_the_format :
    (∃ wire d, sample.signDigestSha256 = some wire ∧ Data.decode wire = .ok d ∧
      (d.metaInfo.bind MetaInfo.freshnessPeriod).map (· * 1000000) ≠ sample.freshness) ∧
    let wide : DataBuilder := { name := [⟨0x100000000, [0x61]⟩], content := [] }
    ∃ wire, wide.signDigestSha256 = some wire ∧
      Data.decode wire = .error (.malformedPacket "TLV read error") := by
  refine ⟨⟨sample.digestWire, ?_⟩, _, signDigestSha256_eq _, ?_⟩
  · have hlen : sample.digestWire.length < 2 ^ 63 := by
      decide
    obtain ⟨d, hd, -, -, hmeta⟩ := sample.decode_sealed (by decide) (by decide) hlen
      decode_digestInfo (Except.ensure_of (digest_length _))
    refine ⟨d, signDigestSha256_eq _, hd, ?_⟩
    rw [hmeta]
    decide
  · decide

end DataBuilder

end NdnRs
