import NdnRs.Lib.Text
import NdnRs.Wire.Tlv

/-!
# Names (`ndn-foundation-types/src/name.rs`)

A name is a list of typed components. This file has its wire form; the textual form is in
`NdnRs.Wire.NameUri`.
-/

namespace NdnRs

open Bytes Tlv List

/-! ## TLV types of names -/

namespace TlvType

def name : ℕ := 0x07
def genericNameComponent : UInt64 := 0x08
def implicitSha256 : UInt64 := 0x01
def parametersSha256 : UInt64 := 0x02
def segment : UInt64 := 0x32
def keyword : UInt64 := 0x20
def byteOffset : UInt64 := 0x34
def version : UInt64 := 0x36
def timestamp : UInt64 := 0x38
def sequenceNum : UInt64 := 0x3A

end TlvType

/-- The error of name decoding and parsing (`NameError`), with its message. -/
structure NameError where
  message : String
  deriving DecidableEq

structure NameComponent where
  typ : UInt64
  value : Bytes
  deriving DecidableEq

abbrev Name := List NameComponent

/-- Comparing names decides their equality, so that membership in a list of names is decidable. -/
instance Name.instLawfulBEq : LawfulBEq Name := inferInstance

/-! ## Integers inside components -/

/-- `encode_nonneg_integer`: the shortest of the widths 1, 2, 4 and 8 that holds `v`. -/
def encodeNonnegInteger (v : ℕ) : Bytes :=
  if v ≤ 0xFF then beBytes 1 v
  else if v ≤ 0xFFFF then beBytes 2 v
  else if v ≤ 0xFFFFFFFF then beBytes 4 v
  else beBytes 8 v

lemma encodeNonnegInteger_length (v : ℕ) :
    (encodeNonnegInteger v).length = 1 ∨ (encodeNonnegInteger v).length = 2 ∨
      (encodeNonnegInteger v).length = 4 ∨ (encodeNonnegInteger v).length = 8 := by
  unfold encodeNonnegInteger
  split_ifs <;> simp

variable {v : ℕ}

lemma beNat_encodeNonnegInteger (hv : v < 2 ^ 64) : beNat (encodeNonnegInteger v) = v := by
  unfold encodeNonnegInteger
  split_ifs <;> exact beNat_beBytes (by omega)

/-- `decode_nonnegative_integer`: shifts the bytes of any length into a 64-bit accumulator. -/
def decodeNonnegativeInteger (bytes : Bytes) : ℕ := beNat bytes % 2 ^ 64

/-- `canonical_nonneg_integer`: the value, when the bytes are its shortest form. -/
def canonicalNonnegInteger (bytes : Bytes) : Option ℕ :=
  if bytes.length = 1 ∨ bytes.length = 2 ∨ bytes.length = 4 ∨ bytes.length = 8 then
    let v := decodeNonnegativeInteger bytes
    if encodeNonnegInteger v = bytes then some v else none
  else none

lemma canonicalNonnegInteger_eq_some {bytes : Bytes} (h : canonicalNonnegInteger bytes = some v) :
    v < 2 ^ 64 ∧ encodeNonnegInteger v = bytes := by
  unfold canonicalNonnegInteger at h
  split_ifs at h with hlen
  simp only at h
  split_ifs at h with henc
  simp only [Option.some.injEq] at h
  subst h
  exact ⟨Nat.mod_lt _ (by norm_num), henc⟩

namespace NameComponent

def generic (value : Bytes) : NameComponent := ⟨TlvType.genericNameComponent, value⟩

def ofText (s : String) : NameComponent := generic (Str.bytes s.toList)

def version (v : ℕ) : NameComponent := ⟨TlvType.version, encodeNonnegInteger v⟩

def WireOk (c : NameComponent) : Prop := c.typ.toNat < 2 ^ 32 ∧ c.value.length < 2 ^ 64

instance (c : NameComponent) : Decidable c.WireOk := by
  unfold WireOk
  infer_instance

/-- `NameComponent::cmp`: the type, then the length, then the bytes. -/
def cmp (self other : NameComponent) : Ordering :=
  (compare self.typ other.typ).then
    ((compare self.value.length other.value.length).then (compare self.value other.value))

instance : Std.LawfulEqCmp cmp where
  compare_self {a} := by simp [cmp]
  eq_of_compare {a b} h := by
    rw [cmp, Ordering.then_eq_eq, Ordering.then_eq_eq] at h
    obtain ⟨htyp, -, hvalue⟩ := h
    cases a
    cases b
    cases Std.LawfulEqOrd.eq_of_compare htyp
    cases Std.LawfulEqOrd.eq_of_compare hvalue
    rfl

end NameComponent

namespace Name

/-- `Name::cmp`: component by component, a prefix first. -/
def cmp (self other : Name) : Ordering := List.compareLex NameComponent.cmp self other

/-! ## Prefixes -/

def hasPrefix (self pre : Name) : Bool :=
  if pre.length > self.length then false
  else (self.zip pre).all fun (a, b) => a = b

/-- The zip-and-compare test is the prefix order on component lists. -/
theorem hasPrefix_iff {self pre : Name} : self.hasPrefix pre = true ↔ pre <+: self := by
  unfold hasPrefix
  induction pre generalizing self with
  | nil => simp
  | cons p ps ih =>
    cases self with
    | nil => simp
    | cons c cs =>
      have ih' := @ih cs
      by_cases hlen : ps.length > cs.length
      · have hnot : ¬ ps <+: cs := fun hpre => by
          have := hpre.length_le
          omega
        simp [hlen, cons_prefix_cons, hnot]
      · simp only [hlen, if_false] at ih'
        simp only [length_cons, gt_iff_lt, Nat.add_lt_add_iff_right, Nat.not_lt.mpr
          (Nat.not_lt.mp hlen), if_false, zip_cons_cons, all_cons, Bool.and_eq_true,
          decide_eq_true_eq, ih', cons_prefix_cons]
        constructor
        all_goals
          rintro ⟨rfl, h⟩
          exact ⟨rfl, h⟩

/-- `Name::append`: a further generic component. -/
def append (self : Name) (value : Bytes) : Name := self ++ [.generic value]

/-! ## Wire form -/

/-- The body of the loop in `Name::decode`. -/
def decodeStep (components : Name) (typ : ℕ) (val : Bytes) : Except NameError Name :=
  .ok (components ++ [⟨.ofNat typ, val⟩])

/-- `Name::decode`: the components inside a NAME element. -/
def decode (value : Bytes) : Except NameError Name :=
  forEachTlv (fun _ => ⟨"TLV read error"⟩) decodeStep [] value

def encodeComponents (self : Name) : Bytes :=
  self.flatMap fun c => writeTlv c.typ.toNat c.value

def encodeToTlv (self : Name) : Bytes := writeTlv TlvType.name self.encodeComponents

@[simp] lemma encodeComponents_nil : encodeComponents [] = [] := rfl

@[simp] lemma encodeComponents_cons (c : NameComponent) (n : Name) :
    encodeComponents (c :: n) = writeTlv c.typ.toNat c.value ++ encodeComponents n := rfl

def WireOk (n : Name) : Prop := ∀ c ∈ n, c.WireOk

instance (n : Name) : Decidable n.WireOk := by
  unfold WireOk
  infer_instance

variable {n : Name}

lemma wireOk_of_length (htyp : ∀ c ∈ n, c.typ.toNat < 2 ^ 32)
    (hlen : n.encodeComponents.length < 2 ^ 64) : n.WireOk := by
  induction n with
  | nil => simp [WireOk]
  | cons c n ih =>
    rw [forall_mem_cons] at htyp
    have hc := length_le_length_writeTlv c.typ.toNat c.value
    rw [encodeComponents_cons, length_append] at hlen
    exact forall_mem_cons.mpr ⟨⟨htyp.1, by omega⟩, ih htyp.2 (by omega)⟩

private def toElement (c : NameComponent) : ℕ × Bytes := (c.typ.toNat, c.value)

private lemma encodeComponents_eq (n : Name) :
    encodeComponents n = writeTlvs (n.map toElement) := by
  simp [encodeComponents, writeTlvs, flatMap_map, toElement]

private lemma foldlM_decodeStep (acc : Name) (es : List (ℕ × Bytes)) :
    es.foldlM (fun s e => decodeStep s e.1 e.2) acc =
      .ok (acc ++ es.map fun e => ⟨.ofNat e.1, e.2⟩) := by
  induction es generalizing acc with
  | nil => simp
  | cons e es ih =>
    rw [foldlM_cons, decodeStep, Except.ok_bind, ih]
    simp

/-- **The wire form of names, exactly.** `Name::decode` accepts a byte string iff it is the
encoding of the name returned, whose components all fit the wire. -/
theorem decode_eq_ok_iff {value : Bytes} :
    decode value = .ok n ↔ n.WireOk ∧ value = encodeComponents n := by
  rw [decode, forEachTlv_eq_ok_iff]
  constructor
  · rintro ⟨es, hes, rfl, hfold⟩
    rw [foldlM_decodeStep, nil_append, Except.ok.injEq] at hfold
    subst hfold
    have hback : ∀ e ∈ es, (UInt64.ofNat e.1).toNat = e.1 := by
      intro e he
      have htyp := (hes e he).1
      simp
      omega
    refine ⟨?_, ?_⟩
    · intro c hc
      obtain ⟨e, he, rfl⟩ := mem_map.mp hc
      exact ⟨by simpa only [hback e he] using (hes e he).1, (hes e he).2⟩
    · rw [encodeComponents_eq, map_map]
      congr 1
      refine (map_id es).symm.trans (map_congr_left ?_)
      intro e he
      simp [toElement, hback e he]
  · rintro ⟨hn, rfl⟩
    refine ⟨n.map toElement, ?_, encodeComponents_eq n, ?_⟩
    · intro e he
      obtain ⟨c, hc, rfl⟩ := mem_map.mp he
      exact hn c hc
    · have hid : (fun e : ℕ × Bytes => (⟨UInt64.ofNat e.1, e.2⟩ : NameComponent)) ∘ toElement
          = id := by
        funext c
        simp [toElement]
      rw [foldlM_decodeStep, nil_append, map_map, hid, map_id]

lemma decode_encodeComponents (hn : n.WireOk) : decode (encodeComponents n) = .ok n :=
  decode_eq_ok_iff.mpr ⟨hn, rfl⟩

end Name

end NdnRs
