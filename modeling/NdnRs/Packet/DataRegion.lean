import NdnRs.Lib.Sha256
import NdnRs.Packet.MetaInfo

/-!
# The signed region of a Data packet

`Data::decode` reads the fields of a packet from the value of the outer element, and computes the
signed region from offsets in the buffer.

## Main results

* `regionOk_iff` — when the region is the one that was signed.
-/

namespace NdnRs.Data

open Bytes Tlv List Except TlvType
open TlvType (signatureValue)

/-! ## Elements and offsets -/

/-- `val` is the value of an element of type `typ` inside the outer element that starts `raw`, and
that element starts at the offset `start`. In front of it are the type and length of the outer
element, and the elements before it. -/
def Located (raw : Bytes) (typ : ℕ) (val : Bytes) (start : ℕ) : Prop :=
  ∃ value rest before after, readTlv raw = .ok ((data, value), rest) ∧
    value = writeTlvs (before ++ (typ, val) :: after) ∧
    (∀ e ∈ before ++ (typ, val) :: after, ElementOk e) ∧
    start = raw.length - rest.length - value.length + (writeTlvs before).length

def fieldTypes : List ℕ :=
  [TlvType.name, TlvType.metaInfo, TlvType.content, TlvType.signatureInfo]

/-- What the signed region and the signature of a packet should be. All is said of offsets in the
buffer, as the accessors return slices of it. -/
structure RegionOk (d : Data) : Prop where
  /-- With a SignatureValue, the region reaches from the name to it, and it is the signature. -/
  signed : ∀ val start, Located d.raw signatureValue val start →
    (∃ nameVal, Located d.raw TlvType.name nameVal d.signedStart) ∧ d.signedEnd = start ∧
      d.sigValueStart = start ∧ d.sigValue = val
  /-- Without one, there is no signature. -/
  unsigned : (¬ ∃ val start, Located d.raw signatureValue val start) → d.sigValue = []
  /-- What the accessors decode lies inside the region. -/
  inside : ∀ typ ∈ fieldTypes, ∀ val, findField d.raw typ = .ok (some val) →
    ∃ start, Located d.raw typ val start ∧ d.signedStart ≤ start ∧
      start + (writeTlv typ val).length ≤ d.signedEnd

/-! ## What the body check says about the elements -/

variable {s : BodyState} {val raw : Bytes} {es before after : List (ℕ × Bytes)} {typ pos : ℕ}
  {e : ℕ × Bytes}

lemma bodyStep_cases {s' : BodyState} (h : bodyStep s typ val = .ok s') :
    (elemIndex typ = none ∧ isCriticalTlvType typ = false ∧ s' = s) ∨
      ∃ i, elemIndex typ = some i ∧ s.lastElement < i ∧ s'.lastElement = i := by
  unfold bodyStep at h
  cases hidx : elemIndex typ with
  | none =>
    simp only [hidx] at h
    obtain ⟨_, hcrit, hs⟩ := bind_eq_ok_iff.mp h
    rw [ensure_eq_ok_iff] at hcrit
    rw [pure_eq_ok, ok.injEq] at hs
    exact .inl ⟨rfl, hcrit, hs.symm⟩
  | some i =>
    simp only [hidx] at h
    obtain ⟨_, hlt, h⟩ := bind_eq_ok_iff.mp h
    rw [ensure_eq_ok_iff] at hlt
    refine .inr ⟨i, rfl, hlt, ?_⟩
    split_ifs at h
    · obtain ⟨_, _, hs⟩ := bind_eq_ok_iff.mp h
      rw [pure_eq_ok, ok.injEq] at hs
      rw [← hs]
    · obtain ⟨_, _, hs⟩ := bind_eq_ok_iff.mp h
      rw [pure_eq_ok, ok.injEq] at hs
      rw [← hs]
    · rw [pure_eq_ok, ok.injEq] at h
      rw [← h]

/-- The body loop accepts the elements, from some state on. -/
def Accepted (s : BodyState) (es : List (ℕ × Bytes)) : Prop :=
  ∃ s', es.foldlM (fun s e => bodyStep s e.1 e.2) s = .ok s'

lemma accepted_cons
    (h : Accepted s (e :: es)) : ∃ s₁, bodyStep s e.1 e.2 = .ok s₁ ∧ Accepted s₁ es := by
  obtain ⟨s', h⟩ := h
  obtain ⟨s₁, hstep, h⟩ := bind_eq_ok_iff.mp h
  exact ⟨s₁, hstep, s', h⟩

lemma Accepted.mem (h : Accepted s es) :
    ∀ e ∈ es, (elemIndex e.1 = none ∧ isCriticalTlvType e.1 = false) ∨
      ∃ i, elemIndex e.1 = some i ∧ s.lastElement < i := by
  induction es generalizing s with
  | nil => simp
  | cons e es ih =>
    obtain ⟨s₁, hstep, hrest⟩ := accepted_cons h
    intro d hd
    rcases mem_cons.mp hd with rfl | hd
    · rcases bodyStep_cases hstep with ⟨hnone, hcrit, -⟩ | ⟨i, hi, hlt, -⟩
      · exact .inl ⟨hnone, hcrit⟩
      · exact .inr ⟨i, hi, hlt⟩
    rcases ih hrest d hd with hnone | ⟨i, hi, hlt⟩
    · exact .inl hnone
    · refine .inr ⟨i, hi, ?_⟩
      -- the place reached never goes back
      rcases bodyStep_cases hstep with ⟨-, -, rfl⟩ | ⟨j, -, hj, hlast⟩
      · exact hlt
      · omega

lemma Accepted.lt_of_mem_after {d : ℕ × Bytes} {i j : ℕ} (h : Accepted s (before ++ e :: after))
    (hi : elemIndex e.1 = some i) (hd : d ∈ after) (hj : elemIndex d.1 = some j) : i < j := by
  induction before generalizing s with
  | nil =>
    obtain ⟨s₁, hstep, hrest⟩ := accepted_cons h
    rcases bodyStep_cases hstep with ⟨hnone, -, -⟩ | ⟨i', hi', -, hlast⟩
    · rw [hi] at hnone
      cases hnone
    rw [hi, Option.some.injEq] at hi'
    rcases hrest.mem d hd with ⟨hnone, -⟩ | ⟨j', hj', hlt⟩
    · rw [hj] at hnone
      cases hnone
    · rw [hj, Option.some.injEq] at hj'
      omega
  | cons f before ih =>
    obtain ⟨s₁, -, hrest⟩ := accepted_cons h
    exact ih hrest

/-! ## The layout of an accepted packet -/

/-- An accepted wire: the outer element holds a name and a body, and `rest` follows it. -/
structure Layout (d : Data) (nameVal : Bytes) (es : List (ℕ × Bytes)) (rest : Bytes) : Prop where
  read : readTlv d.raw = .ok ((data, writeTlvs ((TlvType.name, nameVal) :: es)), rest)
  ok : ∀ e ∈ (TlvType.name, nameVal) :: es, ElementOk e
  body : Accepted ⟨1, none⟩ es
  parts : ∃ name, d = ofParts d.raw (writeTlvs ((TlvType.name, nameVal) :: es)) name

lemma exists_layout {d : Data} (h : decode raw = .ok d) :
    ∃ nameVal es rest, Layout d nameVal es rest := by
  have hraw := raw_of_decode h
  obtain ⟨value, rest, nameVal, body, name, hread, hname, -, -, hbody, hd⟩ := decode_eq_ok_iff.mp h
  obtain ⟨s, hloop, -⟩ := bind_eq_ok_iff.mp hbody
  obtain ⟨es, hes, rfl, hfold⟩ := forEachTlv_eq_ok_iff.mp hloop
  obtain ⟨htyp, hval, rfl⟩ := readTlv_eq_ok_iff.mp hname
  refine ⟨nameVal, es, rest, ?_, ?_, ⟨s, hfold⟩, name, ?_⟩
  · rw [hraw]
    exact hread
  · intro e he
    rcases mem_cons.mp he with rfl | he
    · exact ⟨htyp, hval⟩
    · exact hes e he
  · rw [hraw]
    exact hd

lemma decode_writeTlvs {name : Name}
    (hok : ∀ e ∈ (TlvType.name, name.encodeComponents) :: es, ElementOk e)
    (hlen : (writeTlvs ((TlvType.name, name.encodeComponents) :: es)).length < 2 ^ 64)
    (hwire : name.WireOk) (hne : name ≠ []) (hbody : Accepted ⟨1, none⟩ es) :
    decode (writeTlv data (writeTlvs ((TlvType.name, name.encodeComponents) :: es))) =
      .ok (ofParts (writeTlv data (writeTlvs ((TlvType.name, name.encodeComponents) :: es)))
        (writeTlvs ((TlvType.name, name.encodeComponents) :: es)) name) := by
  obtain ⟨hname, hes⟩ := forall_mem_cons.mp hok
  obtain ⟨s, hfold⟩ := hbody
  have hvld : validateDataBodyStructure (writeTlvs es) = .ok () := by
    rw [validateDataBodyStructure, forEachTlv_eq_ok_iff.mpr ⟨es, hes, rfl, hfold⟩]
    rfl
  exact decode_eq_ok_iff.mpr ⟨_, _, _, _, _, readTlv_writeTlv_self (by decide) hlen,
    readTlv_writeTlv (writeTlvs es) hname.1 hname.2, Name.decode_encodeComponents hwire, hne,
    hvld, rfl⟩

section

variable {d : Data} {nameVal : Bytes} {rest : Bytes}

namespace Layout

lemma raw_eq (h : Layout d nameVal es rest) :
    ∃ header, header ≠ [] ∧
      d.raw = header ++ (writeTlvs ((TlvType.name, nameVal) :: es) ++ rest) := by
  obtain ⟨-, -, hraw⟩ := readTlv_eq_ok_iff.mp h.read
  set value := writeTlvs ((TlvType.name, nameVal) :: es) with hval
  refine ⟨writeVaru64 TlvType.data ++ writeVaru64 value.length, ?_, ?_⟩
  · intro hnil
    have hlen := congrArg length hnil
    rw [length_append, writeVaru64_length, length_nil] at hlen
    have hpos := varu64Size_pos TlvType.data
    omega
  · rw [hraw, writeTlv]
    simp only [append_assoc]

lemma located_iff (h : Layout d nameVal es rest) {header : Bytes}
    (hraw : d.raw = header ++ (writeTlvs ((TlvType.name, nameVal) :: es) ++ rest))
    {typ : ℕ} {start : ℕ} :
    Located d.raw typ val start ↔ ∃ before after,
      (TlvType.name, nameVal) :: es = before ++ (typ, val) :: after ∧
        start = header.length + (writeTlvs before).length := by
  have hlen : d.raw.length - rest.length -
      (writeTlvs ((TlvType.name, nameVal) :: es)).length = header.length := by
    rw [hraw, length_append, length_append]
    omega
  constructor
  · rintro ⟨value, rest', before, after, hread, hvalue, hok, rfl⟩
    rw [h.read, ok.injEq, Prod.mk.injEq, Prod.mk.injEq] at hread
    obtain ⟨⟨-, hval⟩, rfl⟩ := hread
    rw [← hval] at hvalue
    refine ⟨before, after, writeTlvs_injective h.ok hok hvalue, ?_⟩
    rw [← hval, hlen]
  · rintro ⟨before, after, hspl, rfl⟩
    refine ⟨_, rest, before, after, h.read, congrArg writeTlvs hspl, ?_, ?_⟩
    · rw [← hspl]
      exact h.ok
    · rw [hlen]

lemma before_eq_nil_of_name (h : Layout d nameVal es rest) {before after : List (ℕ × Bytes)}
    (hspl : (TlvType.name, nameVal) :: es = before ++ (TlvType.name, val) :: after) :
    before = [] := by
  cases before with
  | nil => rfl
  | cons e before =>
    have hmem : (TlvType.name, val) ∈ es := by
      rw [cons_append, List.cons.injEq] at hspl
      rw [hspl.2]
      simp
    rcases h.body.mem _ hmem with ⟨-, hcrit⟩ | ⟨i, hi, -⟩
    · cases hcrit
    · exact absurd hi (by simp [elemIndex, TlvType.name, TlvType.metaInfo, TlvType.content,
        signatureInfo, signatureValue])

end Layout

end

/-! ## The scan for the SignatureValue -/

/-- The body of the loop of `scan_for_sig_value`. -/
def scanStep (raw : Bytes) (s : ℕ × Option (ℕ × ℕ)) (typ : ℕ) (_ rest : Bytes) :
    Except TlvError (ForInStep (ℕ × Option (ℕ × ℕ))) :=
  let next := raw.length - rest.length
  return if typ = signatureValue then .done (next, some (s.1, next))
    else .yield (next, s.2)

lemma scan_of_forall_ne (hok : ∀ e ∈ es, ElementOk e) (hne : ∀ e ∈ es, e.1 ≠ signatureValue)
    (hlen : pos + (writeTlvs es).length = raw.length) :
    walkTlv id (scanStep raw) (pos, none) (writeTlvs es) = .ok (raw.length, none) := by
  induction es generalizing pos with
  | nil =>
    rw [writeTlvs_nil, length_nil, Nat.add_zero] at hlen
    rw [writeTlvs_nil, walkTlv_nil, hlen]
  | cons e es ih =>
    obtain ⟨htyp, hval⟩ := hok e (by simp)
    rw [writeTlvs_cons, length_append] at hlen
    rw [writeTlvs_cons, walkTlv_writeTlv id _ _ _ htyp hval, scanStep, if_neg (hne e (by simp))]
    exact ih (fun d hd => hok d (by simp [hd])) (fun d hd => hne d (by simp [hd])) (by omega)

/-- The scan stops at the first SignatureValue, with its offsets. -/
lemma scan_of_split (hok : ∀ e ∈ before ++ (signatureValue, val) :: after, ElementOk e)
    (hne : ∀ e ∈ before, e.1 ≠ signatureValue)
    (hlen : pos + (writeTlvs (before ++ (signatureValue, val) :: after)).length = raw.length) :
    ∃ next, walkTlv id (scanStep raw) (pos, none)
        (writeTlvs (before ++ (signatureValue, val) :: after)) =
      .ok (next, some (pos + (writeTlvs before).length, next)) ∧
      next = pos + (writeTlvs before).length + (writeTlv signatureValue val).length := by
  induction before generalizing pos with
  | nil =>
    obtain ⟨htyp, hval⟩ := hok (signatureValue, val) (by simp)
    rw [nil_append, writeTlvs_cons, length_append] at hlen
    refine ⟨_, ?_, rfl⟩
    rw [nil_append, writeTlvs_cons, walkTlv_writeTlv id _ _ _ htyp hval, scanStep, if_pos rfl]
    have hnext : raw.length - (writeTlvs after).length =
        pos + (writeTlv signatureValue val).length := by
      rw [← hlen, ← Nat.add_assoc, Nat.add_sub_cancel]
    simp only [hnext, writeTlvs_nil, length_nil, Nat.add_zero]
    rfl
  | cons e before ih =>
    obtain ⟨htyp, hval⟩ := hok e (by simp)
    rw [cons_append, writeTlvs_cons, length_append] at hlen
    have hlen' : pos + (writeTlv e.1 e.2).length +
        (writeTlvs (before ++ (signatureValue, val) :: after)).length = raw.length := by
      omega
    obtain ⟨next, hwalk, hnext⟩ := ih (fun d hd => hok d (by simp [hd]))
      (fun d hd => hne d (by simp [hd])) hlen'
    refine ⟨next, ?_, ?_⟩
    · rw [cons_append, writeTlvs_cons, walkTlv_writeTlv id _ _ _ htyp hval, scanStep,
        if_neg (hne e (by simp))]
      have hpos : raw.length -
          (writeTlvs (before ++ (signatureValue, val) :: after)).length =
          pos + (writeTlv e.1 e.2).length := by
        omega
      simp only [hpos]
      rw [writeTlvs_cons, length_append, ← Nat.add_assoc]
      exact hwalk
    · rw [hnext, writeTlvs_cons, length_append]
      omega

/-! ## Where decoding puts the offsets -/

lemma Accepted.not_mem_after {sig : Bytes}
    (h : Accepted s (before ++ (signatureValue, sig) :: after))
    (htyp : typ ∈ signatureValue :: fieldTypes) : (typ, val) ∉ after := by
  intro hmem
  have hsig : elemIndex signatureValue = some 5 := by decide
  have hbd : ∀ j, elemIndex typ = some j → j ≤ 5 := by
    intro j hj
    unfold elemIndex at hj
    split_ifs at hj <;> simp only [Option.some.injEq] at hj <;> omega
  have hmem' : (typ, val) ∈ before ++ (signatureValue, sig) :: after := by simp [hmem]
  rcases h.mem _ hmem' with ⟨hnone, hcrit⟩ | ⟨j, hj, -⟩
  · -- a type of a field is known, or it is the critical type of the name
    have hall : ((signatureValue :: fieldTypes).all fun t =>
        (elemIndex t).isSome || isCriticalTlvType t) = true := by decide
    have ht := all_eq_true.mp hall typ htyp
    rw [hnone, hcrit] at ht
    cases ht
  · have hlt := h.lt_of_mem_after hsig hmem hj
    have hle := hbd j hj
    omega

namespace Layout

variable {d : Data} {nameVal header : Bytes} {rest : Bytes}

lemma signedStart_eq (h : Layout d nameVal es rest)
    (hraw : d.raw = header ++ (writeTlvs ((TlvType.name, nameVal) :: es) ++ rest)) :
    d.signedStart = header.length + rest.length := by
  obtain ⟨name, hd⟩ := h.parts
  have hsta : d.signedStart =
      d.raw.length - (writeTlvs ((TlvType.name, nameVal) :: es)).length := by
    rw [hd]
    rfl
  rw [hsta, hraw, length_append, length_append]
  omega

lemma sigValueOffsets_eq (h : Layout d nameVal es [])
    (hraw : d.raw = header ++ (writeTlvs ((TlvType.name, nameVal) :: es) ++ [])) :
    (d.sigValueStart, d.sigValueEnd) = sigValueOffsets d.raw header.length ∧
      d.signedEnd = (if d.sigValueStart > 0 then d.sigValueStart else d.raw.length) ∧
      scanForSigValue d.raw header.length = walkTlv id (scanStep d.raw) (header.length, none)
        (writeTlvs ((TlvType.name, nameVal) :: es)) := by
  have hlen : d.raw.length - (writeTlvs ((TlvType.name, nameVal) :: es)).length =
      header.length := by
    rw [hraw, append_nil, length_append]
    omega
  refine ⟨?_, ?_, ?_⟩
  · obtain ⟨name, hd⟩ := h.parts
    rw [← hlen, hd]
    rfl
  · obtain ⟨name, hd⟩ := h.parts
    rw [hd]
    rfl
  · show walkTlv id (scanStep d.raw) (header.length, none) (d.raw.drop header.length) = _
    rw [hraw, drop_left, append_nil]

lemma exists_body_split (h : Layout d nameVal es rest)
    (hspl : (TlvType.name, nameVal) :: es = before ++ (signatureValue, val) :: after) :
    ∃ s before', Accepted s (before' ++ (signatureValue, val) :: after) ∧
      before = (TlvType.name, nameVal) :: before' := by
  cases before with
  | nil =>
    rw [nil_append, List.cons.injEq, Prod.mk.injEq] at hspl
    exact absurd hspl.1.1 (by decide)
  | cons e before' =>
    obtain ⟨rfl, rfl⟩ := hspl
    exact ⟨⟨1, none⟩, before', h.body, rfl⟩

section

variable (h : Layout d nameVal es [])
  (hraw : d.raw = header ++ (writeTlvs ((TlvType.name, nameVal) :: es) ++ [])) (hhdr : header ≠ [])
  (hspl : (TlvType.name, nameVal) :: es = before ++ (signatureValue, val) :: after)
include h hraw hhdr hspl

/-- The offsets found when the outer element holds a SignatureValue and nothing follows it. -/
lemma offsets_of_split :
    d.sigValueStart = header.length + (writeTlvs before).length ∧
      d.signedEnd = d.sigValueStart ∧
      d.sigValueEnd = d.sigValueStart + (writeTlv signatureValue val).length := by
  obtain ⟨hoff, hend, hscan⟩ := h.sigValueOffsets_eq hraw
  have hpos : 0 < header.length := length_pos_iff.mpr hhdr
  have hok : ∀ e ∈ before ++ (signatureValue, val) :: after, ElementOk e := by
    rw [← hspl]
    exact h.ok
  have hlen : header.length +
      (writeTlvs (before ++ (signatureValue, val) :: after)).length = d.raw.length := by
    rw [hraw, append_nil, length_append, hspl]
  -- the order of the body leaves no earlier SignatureValue
  have hne : ∀ e ∈ before, e.1 ≠ signatureValue := by
    intro e he htyp
    obtain ⟨l₁, l₂, rfl⟩ := append_of_mem he
    have hspl' : (TlvType.name, nameVal) :: es =
        l₁ ++ (signatureValue, e.2) :: (l₂ ++ (signatureValue, val) :: after) := by
      rw [hspl, ← htyp]
      simp
    obtain ⟨s, before', hbody, -⟩ := h.exists_body_split hspl'
    have hmem : (signatureValue, val) ∈ l₂ ++ (signatureValue, val) :: after := by
      simp
    exact hbody.not_mem_after (mem_cons_self ..) hmem
  obtain ⟨next, hwalk, hnext⟩ := scan_of_split hok hne hlen
  rw [hspl, hwalk] at hscan
  rw [sigValueOffsets, hscan, Prod.mk.injEq] at hoff
  obtain ⟨hsta, hstop⟩ := hoff
  refine ⟨hsta, ?_, ?_⟩
  · rw [hend, if_pos]
    omega
  · rw [hstop, hsta, hnext]

/-- The signature is the value of the SignatureValue at the offsets found. -/
lemma sigValue_of_split : d.sigValue = val := by
  obtain ⟨hsta, -, hstop⟩ := h.offsets_of_split hraw hhdr hspl
  obtain ⟨htyp, hval⟩ : ElementOk (signatureValue, val) := by
    apply h.ok
    rw [hspl]
    simp
  have hpos : 0 < header.length := length_pos_iff.mpr hhdr
  -- the buffer, cut at both ends of the SignatureValue
  have hcut : d.raw = (header ++ writeTlvs before) ++
      (writeTlv signatureValue val ++ writeTlvs after) := by
    rw [hraw, hspl, append_nil, writeTlvs_append, writeTlvs_cons, append_assoc]
  have htake : d.raw.take d.sigValueEnd =
      (header ++ writeTlvs before) ++ writeTlv signatureValue val := by
    have hlen : d.sigValueEnd =
        ((header ++ writeTlvs before) ++ writeTlv signatureValue val).length := by
      rw [hstop, hsta, length_append, length_append]
    rw [hlen, hcut, ← append_assoc, take_left]
  have helem : (d.raw.take d.sigValueEnd).drop d.sigValueStart =
      writeTlv signatureValue val ++ [] := by
    have hlen : d.sigValueStart = (header ++ writeTlvs before).length := by
      rw [hsta, length_append]
    rw [htake, hlen, drop_left, append_nil]
  have hnon : ¬ (d.sigValueStart = 0 ∨ d.sigValueEnd = 0) := by omega
  rw [sigValue, if_neg hnon, helem, readTlv_writeTlv [] htyp hval]
  have hfrt : d.sigValueEnd - val.length = ((header ++ writeTlvs before) ++
      (writeVaru64 signatureValue ++ writeVaru64 val.length)).length := by
    rw [hstop, hsta, writeTlv]
    simp only [length_append]
    omega
  have hback : (header ++ writeTlvs before) ++ writeTlv signatureValue val =
      ((header ++ writeTlvs before) ++
        (writeVaru64 signatureValue ++ writeVaru64 val.length)) ++ val :=
    (append_assoc ..).symm
  simp only
  rw [htake, hfrt, hback, drop_left]

end

/-- A field that the accessors decode ends before the SignatureValue. -/
lemma field_before_sigValue (h : Layout d nameVal es rest) {as bs : List (ℕ × Bytes)}
    {typ : ℕ} {sig : Bytes} (htyp : typ ∈ fieldTypes)
    (hspl : (TlvType.name, nameVal) :: es = before ++ (signatureValue, sig) :: after)
    (hfld : (TlvType.name, nameVal) :: es = as ++ (typ, val) :: bs) :
    (writeTlvs as).length + (writeTlv typ val).length ≤ (writeTlvs before).length := by
  have hne : typ ≠ signatureValue := by
    rintro rfl
    exact absurd htyp (by decide)
  rw [hspl] at hfld
  obtain ⟨s, before', hbody, -⟩ := h.exists_body_split hspl
  rcases append_eq_append_iff.mp hfld with ⟨c, hc, htail⟩ | ⟨c, hc, htail⟩
  · -- the field would stand behind the SignatureValue
    cases c with
    | nil =>
      rw [nil_append, List.cons.injEq, Prod.mk.injEq] at htail
      exact absurd htail.1.1.symm hne
    | cons e c =>
      rw [cons_append, List.cons.injEq] at htail
      have hmem : (typ, val) ∈ after := by
        rw [htail.2]
        simp
      exact absurd hmem (hbody.not_mem_after (mem_cons_of_mem _ htyp))
  · cases c with
    | nil =>
      rw [nil_append, List.cons.injEq, Prod.mk.injEq] at htail
      exact absurd htail.1.1 hne
    | cons e c =>
      rw [cons_append, List.cons.injEq] at htail
      rw [hc, ← htail.1, writeTlvs_append, writeTlvs_cons]
      simp only [length_append]
      omega

lemma offsets_of_unsigned (h : Layout d nameVal es [])
    (hraw : d.raw = header ++ (writeTlvs ((TlvType.name, nameVal) :: es) ++ []))
    (hne : ∀ e ∈ (TlvType.name, nameVal) :: es, e.1 ≠ signatureValue) :
    d.sigValueStart = 0 ∧ d.signedEnd = d.raw.length := by
  obtain ⟨hoff, hend, hscan⟩ := h.sigValueOffsets_eq hraw
  have hlen : header.length + (writeTlvs ((TlvType.name, nameVal) :: es)).length =
      d.raw.length := by
    rw [hraw, append_nil, length_append]
  rw [scan_of_forall_ne h.ok hne hlen] at hscan
  rw [sigValueOffsets, hscan, Prod.mk.injEq] at hoff
  refine ⟨hoff.1, ?_⟩
  rw [hend, hoff.1]
  rfl

end Layout

/-! ## The two views compared -/

namespace Layout

variable {d : Data} {nameVal : Bytes} {rest : Bytes}

lemma findField_eq (h : Layout d nameVal es rest) (typ : ℕ) :
    findField d.raw typ =
      .ok ((((TlvType.name, nameVal) :: es).find? fun e => e.1 = typ).map Prod.snd) := by
  rw [findField, h.read, ok_bind, ← findTlv_writeTlvs typ h.ok]

lemma exists_split_of_findField (h : Layout d nameVal es rest) {typ : ℕ} {val : Bytes}
    (hfind : findField d.raw typ = .ok (some val)) :
    ∃ as bs, (TlvType.name, nameVal) :: es = as ++ (typ, val) :: bs := by
  have hfld := h.findField_eq typ
  rw [hfind, ok.injEq, eq_comm, Option.map_eq_some_iff] at hfld
  obtain ⟨⟨typ', val'⟩, hsome, rfl⟩ := hfld
  obtain ⟨htyp, as, bs, hspl, -⟩ := find?_eq_some_iff_append.mp hsome
  simp only [decide_eq_true_eq] at htyp
  subst htyp
  exact ⟨as, bs, hspl⟩

lemma findField_name (h : Layout d nameVal es rest) :
    findField d.raw TlvType.name = .ok (some nameVal) := by
  rw [h.findField_eq]
  simp

lemma regionOk (h : Layout d nameVal es []) : RegionOk d := by
  obtain ⟨header, hhdr, hraw⟩ := h.raw_eq
  have hsta : d.signedStart = header.length := h.signedStart_eq hraw
  refine ⟨?_, ?_, ?_⟩
  · intro val start hloc
    obtain ⟨before, after, hspl, rfl⟩ := (h.located_iff hraw).mp hloc
    obtain ⟨hsig, hend, -⟩ := h.offsets_of_split hraw hhdr hspl
    refine ⟨⟨nameVal, (h.located_iff hraw).mpr ⟨[], es, rfl, ?_⟩⟩, ?_, hsig,
      h.sigValue_of_split hraw hhdr hspl⟩
    · simpa using hsta
    · rw [hend, hsig]
  · intro hnone
    have hne : ∀ e ∈ (TlvType.name, nameVal) :: es, e.1 ≠ signatureValue := by
      intro e he htyp
      obtain ⟨before, after, hspl⟩ := append_of_mem he
      apply hnone
      refine ⟨e.2, _, (h.located_iff hraw).mpr ⟨before, after, ?_, rfl⟩⟩
      rw [hspl, ← htyp]
    rw [sigValue, if_pos (.inl (h.offsets_of_unsigned hraw hne).1)]
  · intro typ htyp val hfind
    obtain ⟨as, bs, hfld⟩ := h.exists_split_of_findField hfind
    refine ⟨_, (h.located_iff hraw).mpr ⟨as, bs, hfld, rfl⟩, by omega, ?_⟩
    by_cases hsig : ∃ e ∈ (TlvType.name, nameVal) :: es, e.1 = signatureValue
    · obtain ⟨e, he, hetyp⟩ := hsig
      obtain ⟨before, after, hspl⟩ := append_of_mem he
      have hspl' : (TlvType.name, nameVal) :: es = before ++ (signatureValue, e.2) :: after := by
        rw [hspl, ← hetyp]
      obtain ⟨hsigStart, hend, -⟩ := h.offsets_of_split hraw hhdr hspl'
      have hle := h.field_before_sigValue htyp hspl' hfld
      omega
    · have hne : ∀ e ∈ (TlvType.name, nameVal) :: es, e.1 ≠ signatureValue := by
        intro e he hetyp
        exact hsig ⟨e, he, hetyp⟩
      rw [(h.offsets_of_unsigned hraw hne).2, hraw, hfld, writeTlvs_append, writeTlvs_cons]
      simp only [length_append]
      omega

lemma rest_eq_nil_of_regionOk (h : Layout d nameVal es rest) (hd : RegionOk d) : rest = [] := by
  obtain ⟨header, -, hraw⟩ := h.raw_eq
  have hsta := h.signedStart_eq hraw
  have hname : TlvType.name ∈ fieldTypes := by decide
  obtain ⟨start, hloc, hle, -⟩ := hd.inside _ hname _ h.findField_name
  obtain ⟨before, after, hspl, rfl⟩ := (h.located_iff hraw).mp hloc
  rw [h.before_eq_nil_of_name hspl, writeTlvs_nil, length_nil] at hle
  exact length_eq_zero_iff.mp (by omega)

end Layout

/-- **The signed region of a decoded packet.** The offsets agree with the fields exactly when the
buffer ends with the outer element. -/
theorem regionOk_iff {raw : Bytes} {d : Data} (h : decode raw = .ok d) :
    RegionOk d ↔ ∃ value, readTlv raw = .ok ((TlvType.data, value), []) := by
  obtain ⟨nameVal, es, rest, hlay⟩ := exists_layout h
  have hread := hlay.read
  rw [raw_of_decode h] at hread
  constructor
  · intro hd
    rw [hlay.rest_eq_nil_of_regionOk hd] at hread
    exact ⟨_, hread⟩
  · rintro ⟨value, hval⟩
    rw [hread, ok.injEq, Prod.mk.injEq] at hval
    obtain ⟨-, rfl⟩ := hval
    exact hlay.regionOk

/-! ## A packet with a foreign signature -/

/-- The elements of a body with a DigestSha256 signature. -/
def signedBody (name : Name) (content sig : Bytes) : List (ℕ × Bytes) :=
  [(TlvType.name, Name.encodeComponents name), (TlvType.content, content),
    (signatureInfo, writeTlv signatureType [0]), (signatureValue, sig)]

/-- The part of that body which the signature covers. -/
def signedPart (name : Name) (content : Bytes) : Bytes :=
  writeTlvs ((signedBody name content []).take 3)

/-- A packet of `/b` with its digest. -/
def digestBody : List (ℕ × Bytes) :=
  signedBody [.ofText "b"] [2] (Sha256.digest (signedPart [.ofText "b"] [2]))

/-- An element for `/a` without a valid signature, followed by the inside of the packet of `/b`. -/
def foreignWire : Bytes :=
  writeTlv data (writeTlvs (signedBody [.ofText "a"] [1] (.replicate 32 0))) ++ writeTlvs digestBody

/-- The premise of `regionOk_iff` holds of the packet of `/b` itself. -/
theorem regionOk_digestBody :
    ∃ d, decode (writeTlv TlvType.data (writeTlvs digestBody)) = .ok d ∧ RegionOk d := by
  have hdec : ∃ d, decode (writeTlv data (writeTlvs digestBody)) = .ok d := ⟨_, rfl⟩
  obtain ⟨d, hd⟩ := hdec
  exact ⟨d, hd, (regionOk_iff hd).mpr ⟨writeTlvs digestBody, by decide +kernel⟩⟩

/-- **A packet with a foreign signature.** The name and the content are those of the outer element,
the signed region and the signature are those of the bytes behind it. The signature is valid for
that region, and it is not the SignatureValue of the outer element. -/
theorem foreign_signature :
    ∃ d, decode foreignWire = .ok d ∧ d.name = [.ofText "a"] ∧ d.content = some [1] ∧
      d.signedRegion = signedPart [.ofText "b"] [2] ∧ d.sigValue = Sha256.digest d.signedRegion ∧
      (∃ start, Located d.raw TlvType.signatureValue (List.replicate 32 0) start) ∧
      d.sigValue ≠ List.replicate 32 0 ∧ ¬ RegionOk d := by
  have hloc : ∃ start, Located foreignWire signatureValue (replicate 32 0) start := by
    refine ⟨_, _, writeTlvs digestBody, (signedBody [.ofText "a"] [1] []).take 3, [], ?_, rfl, ?_,
      rfl⟩
    · decide +kernel
    · show ∀ e ∈ signedBody [.ofText "a"] [1] (replicate 32 0),
        e.1 < 2 ^ 32 ∧ e.2.length < 2 ^ 64
      decide +kernel
  have hsig : ∃ d, decode foreignWire = .ok d ∧ d.name = [.ofText "a"] ∧ d.content = some [1] ∧
      d.signedRegion = signedPart [.ofText "b"] [2] ∧ d.sigValue = Sha256.digest d.signedRegion ∧
      d.sigValue ≠ replicate 32 0 := by
    refine ⟨_, rfl, ?_⟩
    decide +kernel
  obtain ⟨d, hd, hname, hctn, hreg, hdig, hne⟩ := hsig
  rw [← raw_of_decode hd] at hloc
  refine ⟨d, hd, hname, hctn, hreg, hdig, hloc, hne, ?_⟩
  intro hok
  obtain ⟨start, hsta⟩ := hloc
  exact hne (hok.signed _ _ hsta).2.2.2

end NdnRs.Data
