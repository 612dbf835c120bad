import NdnRs.Wire.TlvRecords
import NdnRs.Packet.Subscription

/-!
# Adding a Nonce to an Interest (`ndn-packet/src/wire.rs`, `interest.rs`)

A forwarder adds a Nonce to an Interest that has none. The new element is written right behind the
name, while the decoder expects it behind CanBePrefix, MustBeFresh and ForwardingHint.

## Main results

* `ensuresNonce_iff` — when only a Nonce is added.
-/

namespace NdnRs

open Bytes Tlv List Except TlvType
open Except (bind_eq_ok_iff)

/-! ## The rewriter -/

/-- One turn of the copying loop of `ensure_nonce`: the writer, and whether the name has passed. -/
def ensureNonceStep (nonce : UInt32) (s : TlvWriter × Bool) (t : ℕ) (v : Bytes) :
    TlvWriter × Bool :=
  let w := s.1.writeTlv t v
  if s.2 = false ∧ t = name then
    (w.writeTlv TlvType.nonce (beBytes 4 nonce.toNat), true)
  else (w, s.2)

/-- `ensure_nonce`; `nonce` is what `next_nonce` returns. -/
def ensureNonce (nonce : UInt32) (interestWire : Bytes) : Bytes :=
  match readTlv interestWire with
  | .error _ => interestWire
  | .ok ((typ, value), _) =>
    if typ ≠ interest then interestWire
    else if scanTlv (fun found t _ => found || t = TlvType.nonce) false value then interestWire
    else
      (TlvWriter.new.writeNested interest fun w =>
        let (w, nameWritten) := scanTlv (ensureNonceStep nonce) (w, false) value
        if nameWritten = false then w.writeTlv TlvType.nonce (beBytes 4 nonce.toNat)
        else w).finish

namespace Interest

/-! ## The body check -/

/-- The checks on the value of a known element. -/
def ValueOk (typ : ℕ) (val : Bytes) : Prop :=
  (typ = TlvType.nonce → val.length = 4) ∧
    (typ = interestSignatureInfo → ∃ info, SignatureInfo.decode val = .ok info)

variable {s s' : BodyState} {es : List (ℕ × Bytes)} {typ : ℕ} {val : Bytes}

/-- One element of the body: a known one stands behind the place reached, and becomes that place;
an unknown one is not critical. -/
lemma bodyStep_eq_ok_iff :
    bodyStep s typ val = .ok s' ↔
      (elemIndex typ = none ∧ isCriticalTlvType typ = false ∧ s' = s) ∨
      ∃ i, elemIndex typ = some i ∧ s.lastElement < i ∧ ValueOk typ val ∧
        s' = ⟨i, s.hasAppParams || typ = TlvType.appParameters⟩ := by
  unfold bodyStep
  cases hidx : elemIndex typ with
  | none =>
    simp only [bind_eq_ok_iff, ensure_eq_ok_iff, pure_eq_ok, ok.injEq]
    constructor
    · rintro ⟨_, hcrit, rfl⟩
      exact .inl ⟨trivial, hcrit, rfl⟩
    · rintro (⟨-, hcrit, rfl⟩ | ⟨i, hi, -⟩)
      · exact ⟨(), hcrit, rfl⟩
      · cases hi
  | some i =>
    have hne : interestSignatureInfo ≠ TlvType.nonce := by decide
    constructor
    · intro h
      obtain ⟨_, hlt, h⟩ := bind_eq_ok_iff.mp h
      rw [ensure_eq_ok_iff] at hlt
      refine .inr ⟨i, rfl, hlt, ?_⟩
      split_ifs at h with hnc hinfo
      · obtain ⟨_, hlen, hs⟩ := bind_eq_ok_iff.mp h
        rw [ensure_eq_ok_iff] at hlen
        rw [pure_eq_ok, ok.injEq] at hs
        exact ⟨⟨fun _ => hlen, fun hinfo => absurd (hinfo.symm.trans hnc) hne⟩, hs.symm⟩
      · obtain ⟨info, hdec, hs⟩ := bind_eq_ok_iff.mp h
        rw [pure_eq_ok, ok.injEq] at hs
        exact ⟨⟨fun hnc' => absurd hnc' hnc, fun _ => ⟨info, hdec⟩⟩, hs.symm⟩
      · rw [pure_eq_ok, ok.injEq] at h
        exact ⟨⟨fun hnc' => absurd hnc' hnc, fun hinfo' => absurd hinfo' hinfo⟩, h.symm⟩
    · rintro (⟨hnone, -⟩ | ⟨i', hi, hlt, hval, rfl⟩)
      · cases hnone
      · cases hi
        simp only [ensure_of hlt, ok_bind]
        split_ifs with hnc hinfo
        · rw [ensure_of (hval.1 hnc)]
          rfl
        · obtain ⟨info, hdec⟩ := hval.2 hinfo
          rw [hdec]
          rfl
        · rfl

/-- The loop of `validate_interest_body_structure` over elements. -/
def bodyFold (s : BodyState) (es : List (ℕ × Bytes)) : Except PacketError BodyState :=
  es.foldlM (fun s e => bodyStep s e.1 e.2) s

lemma bodyFold_cons_eq_ok_iff {e : ℕ × Bytes} :
    bodyFold s (e :: es) = .ok s' ↔
      ∃ s₁, bodyStep s e.1 e.2 = .ok s₁ ∧ bodyFold s₁ es = .ok s' := by
  rw [bodyFold, foldlM_cons, bind_eq_ok_iff]
  rfl

lemma lastElement_le_of_bodyStep
    (h : bodyStep s typ val = .ok s') : s.lastElement ≤ s'.lastElement := by
  rcases bodyStep_eq_ok_iff.mp h with ⟨-, -, rfl⟩ | ⟨i, -, hlt, -, rfl⟩
  · exact le_rfl
  · exact hlt.le

lemma mem_of_bodyFold (h : bodyFold s es = .ok s') :
    ∀ e ∈ es, (elemIndex e.1 = none ∧ isCriticalTlvType e.1 = false) ∨
      ∃ i, elemIndex e.1 = some i ∧ s.lastElement < i ∧ ValueOk e.1 e.2 := by
  induction es generalizing s with
  | nil => simp
  | cons e es ih =>
    obtain ⟨s₁, hstep, hrest⟩ := bodyFold_cons_eq_ok_iff.mp h
    intro d hd
    rcases mem_cons.mp hd with rfl | hd
    · rcases bodyStep_eq_ok_iff.mp hstep with ⟨hnone, hcrit, -⟩ | ⟨i, hi, hlt, hval, -⟩
      · exact .inl ⟨hnone, hcrit⟩
      · exact .inr ⟨i, hi, hlt, hval⟩
    · rcases ih hrest d hd with hnone | ⟨i, hi, hlt, hval⟩
      · exact .inl hnone
      · exact .inr ⟨i, hi, (lastElement_le_of_bodyStep hstep).trans_lt hlt, hval⟩

lemma bodyFold_later {k m : ℕ} {has : Bool} (h : bodyFold ⟨k, has⟩ es = .ok s')
    (hlat : ∀ e ∈ es, ∀ i, elemIndex e.1 = some i → m < i) :
    ∃ s'', bodyFold ⟨m, has⟩ es = .ok s'' ∧ s''.hasAppParams = s'.hasAppParams := by
  induction es generalizing k m has with
  | nil =>
    cases h
    exact ⟨_, rfl, rfl⟩
  | cons e es ih =>
    rw [forall_mem_cons] at hlat
    obtain ⟨s₁, hstep, hrest⟩ := bodyFold_cons_eq_ok_iff.mp h
    rcases bodyStep_eq_ok_iff.mp hstep with ⟨hnone, hcrit, rfl⟩ | ⟨i, hi, -, hval, rfl⟩
    · -- an unknown element leaves both places as they are
      obtain ⟨s'', hfold, hsame⟩ := ih hrest hlat.2
      refine ⟨s'', bodyFold_cons_eq_ok_iff.mpr ⟨⟨m, has⟩, ?_, hfold⟩, hsame⟩
      exact bodyStep_eq_ok_iff.mpr (.inl ⟨hnone, hcrit, rfl⟩)
    · -- a known one takes both to the same place
      refine ⟨s', bodyFold_cons_eq_ok_iff.mpr ⟨_, ?_, hrest⟩, rfl⟩
      exact bodyStep_eq_ok_iff.mpr (.inr ⟨i, hi, hlat.1 i hi, hval, rfl⟩)

/-! ## The layout of an accepted Interest -/

/-- An accepted wire: the outer element holds a name and a body, and `rest` follows it. -/
structure Layout (i : Interest) (nameVal : Bytes) (es : List (ℕ × Bytes)) (rest : Bytes) :
    Prop where
  read : readTlv i.raw = .ok ((TlvType.interest, writeTlvs ((TlvType.name, nameVal) :: es)), rest)
  ok : ∀ e ∈ (TlvType.name, nameVal) :: es, ElementOk e
  named : Name.decode nameVal = .ok i.name
  nonempty : i.name ≠ []
  body : ∃ s, bodyFold ⟨1, false⟩ es = .ok s ∧ validatePsdcStructure i.name s.hasAppParams = .ok ()

/-- **Interest decoding, exactly.** -/
theorem decode_eq_ok_iff_layout {raw : Bytes} {i : Interest} :
    decode raw = .ok i ↔ i.raw = raw ∧ ∃ nameVal es rest, Layout i nameVal es rest := by
  constructor
  · intro h
    obtain ⟨⟨⟨typ, value⟩, rest⟩, hread, h⟩ := bind_eq_ok_iff.mp h
    obtain ⟨_, htyp, h⟩ := bind_eq_ok_iff.mp h
    obtain ⟨⟨⟨nameTyp, nameVal⟩, inner⟩, hname, h⟩ := bind_eq_ok_iff.mp h
    obtain ⟨_, hnameTyp, h⟩ := bind_eq_ok_iff.mp h
    obtain ⟨name, hdec, h⟩ := bind_eq_ok_iff.mp h
    obtain ⟨_, hne, h⟩ := bind_eq_ok_iff.mp h
    obtain ⟨has, hbody, h⟩ := bind_eq_ok_iff.mp h
    obtain ⟨⟨⟩, hpsdc, h⟩ := bind_eq_ok_iff.mp h
    cases h
    rw [Except.mapError_eq_ok_iff] at hread hname hdec
    rw [Except.ensure_eq_ok_iff] at htyp hnameTyp hne
    subst htyp hnameTyp
    obtain ⟨s, hloop, hs⟩ := bind_eq_ok_iff.mp hbody
    obtain ⟨es, hes, rfl, hfold⟩ := forEachTlv_eq_ok_iff.mp hloop
    obtain ⟨hlt, hlen, rfl⟩ := readTlv_eq_ok_iff.mp hname
    cases hs
    exact ⟨rfl, nameVal, es, rest, hread, forall_mem_cons.mpr ⟨⟨hlt, hlen⟩, hes⟩, hdec,
      hne, s, hfold, hpsdc⟩
  · rintro ⟨rfl, nameVal, es, rest, h⟩
    obtain ⟨hname, hes⟩ := forall_mem_cons.mp h.ok
    obtain ⟨s, hfold, hpsdc⟩ := h.body
    have hloop : forEachTlv PacketError.tlv bodyStep ⟨1, false⟩ (writeTlvs es) = .ok s :=
      forEachTlv_eq_ok_iff.mpr ⟨es, hes, rfl, hfold⟩
    have hinn : readTlv (writeTlvs ((TlvType.name, nameVal) :: es)) =
        .ok ((TlvType.name, nameVal), writeTlvs es) :=
      readTlv_writeTlv (writeTlvs es) hname.1 hname.2
    rw [decode, h.read]
    simp only [Except.mapError, Except.ok_bind, Except.ensure_of trivial, hinn, h.named,
      Except.ensure_of h.nonempty, validateInterestBodyStructure, hloop, Except.pure_eq_ok,
      hpsdc]

namespace Layout

variable {i j : Interest} {nameVal : Bytes} {rest : Bytes}

section

variable (h : Layout i nameVal es rest)
include h

lemma raw_isEmpty : i.raw.isEmpty = false := by
  have hlt := readTlv_length_lt h.read
  cases hi : i.raw with
  | nil =>
    rw [hi] at hlt
    cases hlt
  | cons b bs => rfl

lemma findField_eq {typ : ℕ} (htyp : typ ≠ TlvType.name) :
    i.findField typ = (es.find? fun e => e.1 = typ).map Prod.snd := by
  have hfind : Data.findField i.raw typ =
      .ok (((((TlvType.name, nameVal) :: es).find? fun e => e.1 = typ)).map Prod.snd) := by
    rw [Data.findField, h.read, ← findTlv_writeTlvs typ h.ok]
    rfl
  rw [findField, h.raw_isEmpty, hfind, find?_cons]
  simp [htyp.symm]

lemma selectors_eq :
    i.selectors = ⟨es.any fun e => e.1 = canBePrefix, es.any fun e => e.1 = mustBeFresh⟩ := by
  have hne : mustBeFresh ≠ canBePrefix := by decide
  have hfold : ∀ (es : List (ℕ × Bytes)) (sel : Selector),
      es.foldlM (fun sel e => (return if e.1 = canBePrefix then
          { sel with canBePrefix := true }
        else if e.1 = mustBeFresh then { sel with mustBeFresh := true }
        else sel : Except TlvError Selector)) sel =
      .ok ⟨sel.canBePrefix || es.any fun e => e.1 = canBePrefix,
        sel.mustBeFresh || es.any fun e => e.1 = mustBeFresh⟩ := by
    intro es
    induction es with
    | nil =>
      intro sel
      simp
    | cons e es ih =>
      intro sel
      rw [foldlM_cons, pure_eq_ok, ok_bind, ih]
      by_cases hcbp : e.1 = canBePrefix
      · simp [hcbp, hne.symm]
      · by_cases hmbf : e.1 = mustBeFresh <;> simp [hcbp, hmbf, hne]
  have hdec : decodeSelectors i.raw =
      .ok ⟨((TlvType.name, nameVal) :: es).any fun e => e.1 = canBePrefix,
        ((TlvType.name, nameVal) :: es).any fun e => e.1 = mustBeFresh⟩ := by
    rw [decodeSelectors, h.read, ok_bind]
    exact forEachTlv_eq_ok_iff.mpr ⟨_, h.ok, rfl, hfold _ ⟨false, false⟩⟩
  rw [selectors, hdec]
  rfl

lemma nonce_eq_none_iff : i.nonce = none ↔ ∀ e ∈ es, e.1 ≠ TlvType.nonce := by
  obtain ⟨s, hfold, -⟩ := h.body
  rw [nonce, h.findField_eq (by decide)]
  cases hfind : es.find? fun e => e.1 = TlvType.nonce with
  | none =>
    have hno := find?_eq_none.mp hfind
    simp only [Option.map_none, true_iff]
    exact fun e he htyp => hno e he (decide_eq_true htyp)
  | some e =>
    have he := mem_of_find?_eq_some hfind
    have htyp : e.1 = TlvType.nonce := by simpa using find?_some hfind
    have hlen : e.2.length = 4 := by
      rcases mem_of_bodyFold hfold e he with ⟨hnone, -⟩ | ⟨_, -, -, hval⟩
      · rw [htyp] at hnone
        cases hnone
      · exact hval.1 htyp
    simp only [Option.map_some, hlen, if_true, reduceCtorEq, false_iff, not_forall]
    exact ⟨e, he, not_not.mpr htyp⟩

end

end Layout

end Interest

/-! ## What the rewriter writes -/

/-- The element that `ensure_nonce` adds. -/
def nonceElement (nonce : UInt32) : ℕ × Bytes := (TlvType.nonce, beBytes 4 nonce.toNat)

lemma foldl_ensureNonceStep (nonce : UInt32) (w : TlvWriter) (es : List (ℕ × Bytes)) :
    es.foldl (fun s e => ensureNonceStep nonce s e.1 e.2) (w, true) =
      (⟨w.buf ++ writeTlvs es⟩, true) := by
  induction es generalizing w with
  | nil => simp
  | cons e es ih =>
    rw [foldl_cons, ensureNonceStep, if_neg (by simp), ih, TlvWriter.writeTlv]
    simp [writeTlv]

section

variable {i : Interest} {nameVal : Bytes} {es : List (ℕ × Bytes)} {rest : Bytes}

lemma ensureNonce_of_mem (h : i.Layout nameVal es rest) (nonce : UInt32)
    (hmem : ∃ e ∈ es, e.1 = TlvType.nonce) : ensureNonce nonce i.raw = i.raw := by
  have hscan : ∀ (es : List (ℕ × Bytes)) (found : Bool),
      es.foldl (fun found e => found || decide (e.1 = TlvType.nonce)) found =
        (found || es.any fun e => e.1 = TlvType.nonce) := by
    intro es
    induction es with
    | nil => simp
    | cons e es ih =>
      intro found
      rw [foldl_cons, ih, any_cons, Bool.or_assoc]
  have hfnd : ((name, nameVal) :: es).any (fun e => e.1 = TlvType.nonce) = true := by
    obtain ⟨e, he, htyp⟩ := hmem
    exact any_eq_true.mpr ⟨e, mem_cons_of_mem _ he, decide_eq_true htyp⟩
  rw [ensureNonce, h.read]
  simp only [scanTlv_writeTlvs _ h.ok, hscan, hfnd, ne_eq, not_true_eq_false, if_false,
    Bool.false_or, if_true]

/-- In an Interest without a Nonce, one is put behind the name. -/
lemma ensureNonce_of_not_mem (h : i.Layout nameVal es rest) (nonce : UInt32)
    (hmem : ∀ e ∈ es, e.1 ≠ TlvType.nonce) :
    ensureNonce nonce i.raw = writeTlv interest
      (writeTlvs ((name, nameVal) :: nonceElement nonce :: es)) := by
  have hfnd : ((name, nameVal) :: es).foldl
      (fun found e => found || decide (e.1 = TlvType.nonce)) false = false := by
    have hname : name ≠ TlvType.nonce := by decide
    rw [foldl_cons, Bool.false_or, decide_eq_false hname]
    clear h
    induction es with
    | nil => rfl
    | cons e es ih =>
      rw [forall_mem_cons] at hmem
      rw [foldl_cons, Bool.false_or, decide_eq_false hmem.1]
      exact ih hmem.2
  have hstep : ensureNonceStep nonce (TlvWriter.new, false) name nameVal =
      (⟨writeTlv name nameVal ++ writeTlv TlvType.nonce (beBytes 4 nonce.toNat)⟩, true) := by
    simp [ensureNonceStep, TlvWriter.writeTlv, TlvWriter.new, writeTlv]
  have hcopy : ((name, nameVal) :: es).foldl
      (fun s e => ensureNonceStep nonce s e.1 e.2) (TlvWriter.new, false) =
      (⟨writeTlvs ((name, nameVal) :: nonceElement nonce :: es)⟩, true) := by
    rw [foldl_cons, hstep, foldl_ensureNonceStep]
    simp [nonceElement]
  rw [ensureNonce, h.read]
  simp only [scanTlv_writeTlvs _ h.ok, hfnd, hcopy, TlvWriter.writeNested, TlvWriter.finish,
    ne_eq, not_true_eq_false, if_false, Bool.false_eq_true, Bool.true_eq_false]
  simp [TlvWriter.new, writeTlv]

end

/-! ## What a Nonce should change -/

/-- The fields of the second Interest, the Nonce apart, are those of the first. -/
structure Interest.SameFields (i j : Interest) : Prop where
  name : j.name = i.name
  selectors : j.selectors = i.selectors
  forwardingHint : j.forwardingHint = i.forwardingHint
  lifetime : j.lifetime = i.lifetime
  hopLimit : j.hopLimit = i.hopLimit
  appParameters : j.appParameters = i.appParameters
  sigInfo : j.sigInfo = i.sigInfo
  sigValue : j.sigValue = i.sigValue

/-- What `ensure_nonce` should do to an Interest: without a Nonce, the output is an Interest with
one and with the same other fields; with a Nonce, the output is the input. -/
def EnsuresNonce (nonce : UInt32) (i : Interest) : Prop :=
  (i.nonce = none → ∃ j, Interest.decode (ensureNonce nonce i.raw) = .ok j ∧ j.nonce ≠ none ∧
    i.SameFields j) ∧
  (i.nonce ≠ none → ensureNonce nonce i.raw = i.raw)

/-- Nothing in the Interest belongs between its name and its Nonce. -/
def Interest.NothingBeforeNonce (i : Interest) : Prop :=
  i.selectors = ⟨false, false⟩ ∧ i.findField TlvType.forwardingHint = none

section

variable {i j : Interest} {nameVal : Bytes} {es : List (ℕ × Bytes)} {rest rest' : Bytes}

lemma nothingBeforeNonce_iff (h : i.Layout nameVal es rest) (hmem : ∀ e ∈ es, e.1 ≠ nonce) :
    i.NothingBeforeNonce ↔ ∀ e ∈ es, ∀ k, Interest.elemIndex e.1 = some k → 5 < k := by
  rw [Interest.NothingBeforeNonce, h.selectors_eq, h.findField_eq (by decide),
    Selector.mk.injEq, Option.map_eq_none_iff, find?_eq_none, any_eq_false,
    any_eq_false]
  simp only [decide_eq_true_eq]
  constructor
  · rintro ⟨⟨hcbp, hmbf⟩, hhint⟩ e he k hk
    have h1 := hcbp e he
    have h2 := hmbf e he
    have h3 := hhint e he
    have h4 := hmem e he
    unfold Interest.elemIndex at hk
    rw [if_neg h1, if_neg h2, if_neg h3, if_neg h4] at hk
    split_ifs at hk <;> cases hk <;> decide
  · intro hlat
    refine ⟨⟨?_, ?_⟩, ?_⟩
    all_goals
      intro e he htyp
      have := hlat e he _ (by rw [htyp]; rfl)
      omega

lemma Interest.Layout.eq_of_read (h : i.Layout nameVal es rest) {es' : List (ℕ × Bytes)}
    (hes' : ∀ e ∈ es', ElementOk e)
    (hread : readTlv i.raw = .ok ((TlvType.interest, writeTlvs es'), rest')) :
    (TlvType.name, nameVal) :: es = es' := by
  have hsame := h.read.symm.trans hread
  simp only [ok.injEq, Prod.mk.injEq, true_and] at hsame
  exact writeTlvs_injective h.ok hes' hsame.1

variable {nonce : UInt32}

lemma sameFields_of_layout (hi : i.Layout nameVal es rest)
    (hj : j.Layout nameVal (nonceElement nonce :: es) rest') : i.SameFields j := by
  have hfld : ∀ typ, typ ≠ name → typ ≠ TlvType.nonce → j.findField typ = i.findField typ := by
    intro typ hname hnc
    rw [hi.findField_eq hname, hj.findField_eq hname, find?_cons]
    simp [nonceElement, hnc.symm]
  refine ⟨?_, ?_, ?_, ?_, ?_, ?_, ?_, ?_⟩
  · exact ok.inj (hj.named.symm.trans hi.named)
  · rw [hj.selectors_eq, hi.selectors_eq]
    rfl
  · rw [Interest.forwardingHint, hfld _ (by decide) (by decide)]
    rfl
  · rw [Interest.lifetime, hfld _ (by decide) (by decide)]
    rfl
  · rw [Interest.hopLimit, hfld _ (by decide) (by decide)]
    rfl
  · rw [Interest.appParameters, hfld _ (by decide) (by decide)]
    rfl
  · rw [Interest.sigInfo, hfld _ (by decide) (by decide)]
    rfl
  · rw [Interest.sigValue, hfld _ (by decide) (by decide)]
    rfl

lemma bodyStep_nonceElement (nonce : UInt32) :
    Interest.bodyStep ⟨1, false⟩ (nonceElement nonce).1 (nonceElement nonce).2 = .ok ⟨5, false⟩ :=
  Interest.bodyStep_eq_ok_iff.mpr
    (.inr ⟨5, rfl, by decide, ⟨fun _ => beBytes_length _ _, fun h => by cases h⟩, rfl⟩)

section

variable (hi : i.Layout nameVal es rest)
include hi

private lemma elementOk_withNonce (nonce : UInt32) :
    ∀ e ∈ (name, nameVal) :: nonceElement nonce :: es, ElementOk e := by
  obtain ⟨hname, hes⟩ := forall_mem_cons.mp hi.ok
  refine forall_mem_cons.mpr ⟨hname, forall_mem_cons.mpr ⟨⟨?_, ?_⟩, hes⟩⟩
  · show TlvType.nonce < 2 ^ 32
    decide
  · simp [nonceElement]

section

variable (hlen : i.raw.length < 2 ^ 63) (hmem : ∀ e ∈ es, e.1 ≠ TlvType.nonce)
include hlen hmem

private lemma readTlv_ensureNonce (nonce : UInt32) :
    readTlv (ensureNonce nonce i.raw) = .ok ((interest,
      writeTlvs ((name, nameVal) :: nonceElement nonce :: es)), []) := by
  have hval : (writeTlvs ((name, nameVal) :: nonceElement nonce :: es)).length < 2 ^ 64 := by
    obtain ⟨-, -, hwire⟩ := readTlv_eq_ok_iff.mp hi.read
    have hbd := congrArg length hwire
    have hle := length_le_length_writeTlv interest (writeTlvs ((name, nameVal) :: es))
    have hsize : (writeTlv (nonceElement nonce).1 (nonceElement nonce).2).length = 6 := by
      rfl
    rw [length_append] at hbd
    rw [writeTlvs_cons] at hbd hle
    rw [length_append] at hle
    rw [writeTlvs_cons, length_append, writeTlvs_cons, length_append, hsize]
    omega
  rw [ensureNonce_of_not_mem hi nonce hmem]
  exact readTlv_writeTlv_self (by decide) hval

private lemma later_of_decode (hdec : Interest.decode (ensureNonce nonce i.raw) = .ok j) :
    ∀ e ∈ es, ∀ k, Interest.elemIndex e.1 = some k → 5 < k := by
  have hread := readTlv_ensureNonce hi hlen hmem nonce
  obtain ⟨hjraw, nameVal', es', rest', hj⟩ := Interest.decode_eq_ok_iff_layout.mp hdec
  rw [← hjraw] at hread
  obtain ⟨⟨⟩, rfl⟩ := cons_eq_cons.mp (hj.eq_of_read (elementOk_withNonce hi nonce) hread)
  obtain ⟨s, hfold, -⟩ := hj.body
  obtain ⟨s₁, hstep, hfold⟩ := Interest.bodyFold_cons_eq_ok_iff.mp hfold
  cases hstep
  intro e he k hk
  rcases Interest.mem_of_bodyFold hfold e he with ⟨hnone, -⟩ | ⟨k', hk', hlt, -⟩
  · rw [hk] at hnone
    cases hnone
  · rw [hk, Option.some.injEq] at hk'
    rw [hk']
    exact hlt

private lemma layout_ensureNonce
    (hlat : ∀ e ∈ es, ∀ k, Interest.elemIndex e.1 = some k → 5 < k) (nonce : UInt32) :
    Interest.Layout ⟨ensureNonce nonce i.raw, i.name⟩ nameVal (nonceElement nonce :: es) [] := by
  obtain ⟨s, hfold, hpsdc⟩ := hi.body
  obtain ⟨s', hfold', hsame⟩ := Interest.bodyFold_later hfold hlat
  exact
    { read := readTlv_ensureNonce hi hlen hmem nonce
      ok := elementOk_withNonce hi nonce
      named := hi.named
      nonempty := hi.nonempty
      body := ⟨s', Interest.bodyFold_cons_eq_ok_iff.mpr
        ⟨_, bodyStep_nonceElement nonce, hfold'⟩, by rw [hsame]; exact hpsdc⟩ }

end

end

/-- **When a Nonce is added properly.** For every accepted Interest: `ensure_nonce` does what it
should iff the Interest has a Nonce already, or has neither CanBePrefix nor MustBeFresh nor a
ForwardingHint. -/
theorem ensuresNonce_iff {raw : Bytes} (h : Interest.decode raw = .ok i)
    (hlen : raw.length < 2 ^ 63) (nonce : UInt32) :
    EnsuresNonce nonce i ↔ i.nonce ≠ none ∨ i.NothingBeforeNonce := by
  obtain ⟨rfl, nameVal, es, rest, hi⟩ := Interest.decode_eq_ok_iff_layout.mp h
  by_cases hnc : i.nonce = none
  · have hmem := hi.nonce_eq_none_iff.mp hnc
    rw [nothingBeforeNonce_iff hi hmem]
    constructor
    · rintro ⟨hadd, -⟩
      obtain ⟨j, hdec, -, -⟩ := hadd hnc
      exact .inr (later_of_decode hi hlen hmem hdec)
    rintro (hsome | hlat)
    · exact absurd hnc hsome
    refine ⟨fun _ => ?_, fun hsome => absurd hnc hsome⟩
    have hj := layout_ensureNonce hi hlen hmem hlat nonce
    refine ⟨_, Interest.decode_eq_ok_iff_layout.mpr ⟨rfl, _, _, _, hj⟩, ?_,
      sameFields_of_layout hi hj⟩
    rw [Ne, hj.nonce_eq_none_iff]
    push Not
    exact ⟨nonceElement nonce, mem_cons_self, rfl⟩
  · refine iff_of_true ⟨fun hnone => absurd hnone hnc, fun _ => ?_⟩ (.inl hnc)
    apply ensureNonce_of_mem hi
    rw [hi.nonce_eq_none_iff] at hnc
    push Not at hnc
    exact hnc

end

/-- An Interest for `/a` with a lifetime, and one with CanBePrefix; neither has a Nonce. -/
def lifetimeWire : Bytes := [0x05, 0x09, 0x07, 0x03, 0x08, 0x01, 0x61, 0x0C, 0x02, 0x0F, 0xA0]

@[inherit_doc lifetimeWire]
def prefixWire : Bytes := [0x05, 0x07, 0x07, 0x03, 0x08, 0x01, 0x61, 0x21, 0x00]

/-- `ensuresNonce_iff` at an Interest with a lifetime only, where a Nonce is added. -/
theorem ensuresNonce_iff_lifetime :
    EnsuresNonce 7 ⟨lifetimeWire, [⟨8, [0x61]⟩]⟩ ↔
      Interest.nonce ⟨lifetimeWire, [⟨8, [0x61]⟩]⟩ ≠ none ∨
        Interest.NothingBeforeNonce ⟨lifetimeWire, [⟨8, [0x61]⟩]⟩ :=
  have hdecode : Interest.decode lifetimeWire = .ok ⟨lifetimeWire, [⟨8, [0x61]⟩]⟩ := by
    decide
  ensuresNonce_iff hdecode (by decide) 7

/-- **A Nonce in the wrong place.** An Interest with CanBePrefix and without a Nonce is accepted;
what `ensure_nonce` makes of it is not. -/
theorem ensured_prefix_rejected :
    ∃ i, Interest.decode prefixWire = .ok i ∧ i.nonce = none ∧ i.selectors.canBePrefix = true ∧
      Interest.decode (ensureNonce 7 i.raw) = .error
        (.malformedPacket "Interest body element out of spec order or duplicated") :=
  ⟨⟨prefixWire, [⟨8, [0x61]⟩]⟩, by decide⟩

end NdnRs
