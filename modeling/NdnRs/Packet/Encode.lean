import NdnRs.Packet.Signature
import NdnRs.Wire.TlvRecords

/-!
# Writing packet fields (`ndn-packet/src/encode/mod.rs`)

What the builders of Interest and Data packets share.
-/

namespace NdnRs.Encode

open Bytes Tlv TlvType SignatureInfo TlvWriter

def nni (val : ℕ) : Bytes := encodeNonnegInteger val

def writeNni (w : TlvWriter) (typ val : ℕ) : TlvWriter := w.writeTlv typ (nni val)

/-- The loop `for comp in name.components() { w.write_tlv(comp.typ, &comp.value); }`. -/
def writeComponents (w : TlvWriter) (name : Name) : TlvWriter :=
  name.foldl (fun w comp => w.writeTlv comp.typ.toNat comp.value) w

def writeName (w : TlvWriter) (name : Name) : TlvWriter :=
  w.writeNested TlvType.name fun w => writeComponents w name

/-- The lines with which every builder starts its SignatureInfo. -/
def writeSigFields (w : TlvWriter) (sigType : SignatureType) (keyLocator : Option Name) :
    TlvWriter :=
  let w := writeNni w signatureType sigType.code
  match keyLocator with
  | some klName => w.writeNested TlvType.keyLocator fun w => writeName w klName
  | none => w

/-- `d.as_millis() as u64`, of a duration in nanoseconds. -/
def asMillis (d : ℕ) : ℕ := d / 1000000 % 2 ^ 64

lemma asMillis_lt (d : ℕ) : asMillis d < 2 ^ 64 := Nat.mod_lt _ (by norm_num)

lemma decodeNni_nni {v : ℕ} (hv : v < 2 ^ 64) : decodeNni (nni v) = .ok v := by
  rw [decodeNni, nni, if_pos (encodeNonnegInteger_length v), beNat_encodeNonnegInteger hv]

variable (w : TlvWriter)

@[simp] lemma buf_writeNni (typ val : ℕ) :
    (writeNni w typ val).buf = w.buf ++ writeTlv typ (nni val) :=
  w.buf_writeTlv typ (nni val)

@[simp] lemma buf_writeComponents (name : Name) :
    (writeComponents w name).buf = w.buf ++ name.encodeComponents := by
  unfold writeComponents
  induction name generalizing w with
  | nil => simp
  | cons c name ih =>
    rw [List.foldl_cons, ih, buf_writeTlv, Name.encodeComponents_cons, List.append_assoc]

@[simp] lemma buf_writeName (name : Name) :
    (writeName w name).buf = w.buf ++ writeTlv TlvType.name name.encodeComponents := by
  rw [writeName, buf_writeNested, buf_writeComponents, buf_new, List.nil_append]

/-! ## SignatureInfo -/

/-- The elements with which every builder starts its SignatureInfo. -/
def sigInfoFields (sigType : SignatureType) (keyLocator : Option Name) : List (ℕ × Bytes) :=
  (signatureType, nni sigType.code) ::
    (keyLocator.map fun n =>
      (TlvType.keyLocator, writeTlv name n.encodeComponents)).toList

@[simp] lemma buf_writeSigFields (sigType : SignatureType) (keyLocator : Option Name) :
    (writeSigFields w sigType keyLocator).buf =
      w.buf ++ writeTlvs (sigInfoFields sigType keyLocator) := by
  cases keyLocator <;> simp [writeSigFields, sigInfoFields]

section SigInfo

variable {sigType : SignatureType} {keyLocator : Option Name}

/-- The decoding loop over these elements. -/
lemma foldlM_sigInfoFields (hcode : sigType.code < 2 ^ 64)
    (hkey : ∀ n ∈ keyLocator, ∀ c ∈ n, c.typ.toNat < 2 ^ 32)
    (hlen : (writeTlvs (sigInfoFields sigType keyLocator)).length < 2 ^ 64) :
    (sigInfoFields sigType keyLocator).foldlM (fun s e => decodeStep s e.1 e.2)
      ⟨none, none, none, none, none⟩ =
      .ok ⟨some (.fromCode sigType.code), keyLocator.map .name, none, none, none⟩ := by
  have htype : decodeStep ⟨none, none, none, none, none⟩ signatureType
      (nni sigType.code) = .ok ⟨some (.fromCode sigType.code), none, none, none, none⟩ := by
    rw [decodeStep, if_pos rfl, decodeNni_nni hcode]
    rfl
  cases keyLocator with
  | none =>
    simp only [sigInfoFields, Option.map_none, Option.toList_none, List.foldlM_cons, htype]
    rfl
  | some n =>
    have hn : n.encodeComponents.length < 2 ^ 64 := by
      have hmem : (TlvType.keyLocator, writeTlv name n.encodeComponents) ∈
          sigInfoFields sigType (some n) := by
        simp [sigInfoFields]
      have h₁ : (writeTlv name n.encodeComponents).length ≤
          (writeTlvs (sigInfoFields sigType (some n))).length := length_le_writeTlvs hmem
      have h₂ := length_le_length_writeTlv name n.encodeComponents
      omega
    have hloc : decodeKeyLocator none
        (writeTlv name n.encodeComponents) = .ok (some (.name n)) := by
      have hne : (writeTlv name n.encodeComponents).isEmpty = false := by
        simp [writeTlv_ne_nil]
      rw [decodeKeyLocator, hne, readTlv_writeTlv_self (by decide) hn]
      simp [Except.mapError, Name.decode_encodeComponents (Name.wireOk_of_length (hkey n rfl) hn)]
    have hstep : ∀ s : SignatureInfo.Fields, s.keyLocator = none →
        decodeStep s TlvType.keyLocator
          (writeTlv name n.encodeComponents) =
          .ok { s with keyLocator := some (.name n) } := by
      intro s hs
      rw [decodeStep, if_neg (by decide), if_pos rfl, hs, hloc]
      rfl
    simp only [sigInfoFields, Option.map_some, Option.toList_some, List.foldlM_cons, htype,
      Except.ok_bind, hstep]
    rfl

end SigInfo

end NdnRs.Encode
