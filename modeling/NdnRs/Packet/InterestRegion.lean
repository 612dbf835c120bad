import NdnRs.Packet.EnsureNonce

/-!
# The signed region of an Interest (`ndn-packet/src/interest.rs`)

`compute_interest_signed_region` cuts the region out of the wire: the name components other than
the parameters digest, the ApplicationParameters and the InterestSignatureInfo. In an Interest that
was accepted these are the fields the other accessors read.
-/

namespace NdnRs

open Bytes Tlv Except TlvType
open TlvType (interestSignatureInfo)

private lemma take_sub_length (a b : Bytes) : (a ++ b).take ((a ++ b).length - b.length) = a := by
  simp

namespace Interest

/-! ## The two loops -/

def withoutDigests (name : Name) : Name := name.filter fun c => c.typ ≠ parametersSha256

lemma signedNameComponents_encodeComponents {n : Name} (hn : n.WireOk) :
    signedNameComponents n.encodeComponents = .ok (withoutDigests n).encodeComponents := by
  suffices hloop : ∀ out : Bytes, walkTlv id
      (fun (s : Bytes × Bytes) typ (_ : Bytes) rest =>
        (return .yield (rest, if typ = parametersSha256.toNat then s.2
          else s.2 ++ s.1.take (s.1.length - rest.length)) : Except TlvError _))
      (n.encodeComponents, out) n.encodeComponents =
      .ok ([], out ++ (withoutDigests n).encodeComponents) by
    exact bind_eq_ok_iff.mpr ⟨_, hloop [], rfl⟩
  induction n with
  | nil =>
    intro out
    simp [withoutDigests]
  | cons c n ih =>
    obtain ⟨hc, hn⟩ := List.forall_mem_cons.mp hn
    intro out
    rw [Name.encodeComponents_cons, walkTlv_writeTlv _ _ _ _ hc.1 hc.2, pure_eq_ok,
      ok_bind, walkTlvNext, take_sub_length, ih hn]
    by_cases htyp : c.typ = parametersSha256
    · simp [htyp, withoutDigests]
    · have hnat : c.typ.toNat ≠ parametersSha256.toNat :=
        fun h => htyp (UInt64.toNat_inj.mp h)
      simp [htyp, hnat, withoutDigests]

/-- The body of the second loop. -/
private def regionStep (s : RegionState) (typ : ℕ) (_ rest : Bytes) :
    Except TlvError (ForInStep RegionState) :=
  let element := s.pending.take (s.pending.length - rest.length)
  return if typ = TlvType.appParameters then
      .yield { s with pending := rest, appParamsTlv := some element }
    else if typ = TlvType.interestSignatureInfo then
      .done { s with pending := rest, sigInfoTlv := some element }
    else .yield { s with pending := rest }

/-- The first element of a type, as written. -/
private def firstTlv (es : List (ℕ × Bytes)) (typ : ℕ) : Option Bytes :=
  (es.find? fun e => e.1 = typ).map fun e => writeTlv e.1 e.2

variable {s s' : BodyState} {es : List (ℕ × Bytes)}

private lemma firstTlv_eq_none {typ k : ℕ} (h : bodyFold s es = .ok s')
    (hidx : elemIndex typ = some k) (hk : k ≤ s.lastElement) : firstTlv es typ = none := by
  have hno : (es.find? fun e => e.1 = typ) = none := by
    refine List.find?_eq_none.mpr fun e he htyp => ?_
    rw [decide_eq_true_eq] at htyp
    rcases mem_of_bodyFold h e he with ⟨hnone, -⟩ | ⟨i, hi, hlt, -⟩
    · rw [htyp, hidx] at hnone
      cases hnone
    · rw [htyp, hidx, Option.some.injEq] at hi
      omega
  rw [firstTlv, hno, Option.map_none]

/-- The loop over an accepted body keeps the first element of either type: they stand in the order
of the loop. -/
private lemma walkTlv_regionStep
    (hes : ∀ e ∈ es, ElementOk e) (h : bodyFold s es = .ok s') (ap : Option Bytes) :
    ∃ pending, walkTlv id regionStep ⟨writeTlvs es, ap, none⟩ (writeTlvs es) =
      .ok ⟨pending, (firstTlv es TlvType.appParameters).or ap,
        firstTlv es interestSignatureInfo⟩ := by
  have hne : TlvType.appParameters ≠ interestSignatureInfo := by decide
  induction es generalizing s ap with
  | nil => exact ⟨[], rfl⟩
  | cons e es ih =>
    obtain ⟨he, hes⟩ := List.forall_mem_cons.mp hes
    obtain ⟨s₁, hstep, hrest⟩ := bodyFold_cons_eq_ok_iff.mp h
    rw [writeTlvs_cons, walkTlv_writeTlv _ _ _ _ he.1 he.2, regionStep, take_sub_length]
    have hplac : ∀ k, elemIndex e.1 = some k → s₁.lastElement = k := by
      intro k hk
      rcases bodyStep_eq_ok_iff.mp hstep with ⟨hnone, -⟩ | ⟨i, hi, -, -, rfl⟩
      · rw [hnone] at hk
        cases hk
      · rw [hi, Option.some.injEq] at hk
        exact hk
    by_cases happ : e.1 = TlvType.appParameters
    · have hlat : firstTlv es TlvType.appParameters = none :=
        firstTlv_eq_none hrest rfl (hplac 8 (by rw [happ]; rfl)).ge
      obtain ⟨pending, hloop⟩ := ih hes hrest (some (writeTlv e.1 e.2))
      rw [if_pos happ, pure_eq_ok, ok_bind, walkTlvNext, hloop, hlat]
      simp [firstTlv, happ, hne]
    · rw [if_neg happ]
      by_cases hinfo : e.1 = interestSignatureInfo
      · have hlat : firstTlv es TlvType.appParameters = none :=
          firstTlv_eq_none hrest rfl (by rw [hplac 9 (by rw [hinfo]; rfl)]; decide)
        have happs : firstTlv (e :: es) TlvType.appParameters = none := by
          rw [← hlat]
          simp [firstTlv, happ]
        rw [if_pos hinfo, happs]
        simp [firstTlv, hinfo, walkTlvNext]
      · obtain ⟨pending, hloop⟩ := ih hes hrest ap
        rw [if_neg hinfo, pure_eq_ok, ok_bind, walkTlvNext, hloop]
        simp [firstTlv, happ, hinfo]

/-! ## The region -/

namespace Layout

variable {i : Interest} {nameVal : Bytes} {rest : Bytes}

private lemma firstTlv_eq (h : Layout i nameVal es rest) {typ : ℕ} (htyp : typ ≠ TlvType.name) :
    firstTlv es typ = (i.findField typ).map (writeTlv typ) := by
  rw [h.findField_eq htyp, firstTlv]
  cases hfind : es.find? fun e => e.1 = typ with
  | none => rfl
  | some e =>
    have htyp' : e.1 = typ := by simpa using List.find?_some hfind
    simp [htyp']

/-- **The signed region of an accepted Interest**: the name without parameters digests, the
ApplicationParameters and the InterestSignatureInfo, when there are both. -/
theorem signedRegion_eq (h : Layout i nameVal es rest) :
    i.signedRegion = do
      let ap ← i.appParameters
      let si ← i.findField interestSignatureInfo
      return (withoutDigests i.name).encodeComponents ++ writeTlv TlvType.appParameters ap ++
        writeTlv interestSignatureInfo si := by
  obtain ⟨hname, hes⟩ := List.forall_mem_cons.mp h.ok
  obtain ⟨s, hfold, -⟩ := h.body
  obtain ⟨hwire, hval⟩ := Name.decode_eq_ok_iff.mp h.named
  have hinn : readTlv (writeTlvs ((TlvType.name, nameVal) :: es)) =
      .ok ((TlvType.name, nameVal), writeTlvs es) :=
    readTlv_writeTlv (writeTlvs es) hname.1 hname.2
  obtain ⟨pending, hloop⟩ := walkTlv_regionStep hes hfold none
  have hbody : signedBodyElements (writeTlvs es) =
      .ok ⟨pending, i.appParameters.map (writeTlv TlvType.appParameters),
        (i.findField interestSignatureInfo).map (writeTlv interestSignatureInfo)⟩ := by
    rw [h.firstTlv_eq (by decide), h.firstTlv_eq (by decide), Option.or_none] at hloop
    exact hloop
  have hcom : signedNameComponents nameVal = .ok (withoutDigests i.name).encodeComponents := by
    rw [hval]
    exact signedNameComponents_encodeComponents hwire
  rw [signedRegion, computeInterestSignedRegion, h.raw_isEmpty, h.read]
  simp only [Bool.false_eq_true, if_false, ok_bind, ne_eq, not_true_eq_false, hinn,
    hcom, hbody]
  cases i.appParameters with
  | none => rfl
  | some ap =>
    cases i.findField interestSignatureInfo <;> rfl

end Layout

end Interest

end NdnRs
