import NdnRs.Cert.CaIssuance
import NdnRs.Packet.DataRegion

/-!
# How long issued certificates are valid

The end of the validity period is computed in 64-bit nanoseconds, written as a date into the
certificate, and read back from the signed region of the packet.

## Main results

* `validity_bounded_iff` — when a certificate ends in time.
-/

namespace NdnRs

open Bytes Tlv List Except TlvType

/-! ## The signed region -/

variable {nameVal key : Bytes} {es : List (ℕ × Bytes)} {signer : Signer}

/-- The signed region of a packet that ends with its signature. -/
lemma Data.signedRegion_of_decode {sig : Bytes} {d : Data}
    (hok : ∀ e ∈ (TlvType.name, nameVal) :: (es ++ [(signatureValue, sig)]), ElementOk e)
    (hlen : (writeTlvs ((TlvType.name, nameVal) ::
      (es ++ [(signatureValue, sig)]))).length < 2 ^ 64)
    (h : Data.decode (writeTlv TlvType.data (writeTlvs ((TlvType.name, nameVal) ::
      (es ++ [(signatureValue, sig)])))) = .ok d) :
    d.signedRegion = writeTlvs ((TlvType.name, nameVal) :: es) := by
  obtain ⟨nameVal', es', rest, hl⟩ := Data.exists_layout h
  have hread := hl.read
  rw [Data.raw_of_decode h, readTlv_writeTlv_self (by decide) hlen, ok.injEq,
    Prod.mk.injEq, Prod.mk.injEq] at hread
  obtain ⟨⟨-, heq⟩, rfl⟩ := hread
  have hes := writeTlvs_injective hok hl.ok heq
  obtain ⟨header, hhdr, hraw⟩ := hl.raw_eq
  have hlast : (TlvType.name, nameVal') :: es' =
      ((TlvType.name, nameVal) :: es) ++ (signatureValue, sig) :: [] := hes.symm
  obtain ⟨hsig, hend, -⟩ := hl.offsets_of_split hraw hhdr hlast
  have hsta : d.signedStart = header.length := hl.signedStart_eq hraw
  have hspl : d.raw = header ++ (writeTlvs ((TlvType.name, nameVal) :: es) ++
      writeTlv signatureValue sig) := by
    rw [hraw, ← hes, ← cons_append, writeTlvs_append, append_nil]
    simp
  rw [Data.signedRegion, hend, hsig, hsta, hspl, ← append_assoc, take_left' (by simp), drop_left]

/-! ## The dates -/

lemma scanFirst_writeTlvs {α : Type} (target : ℕ) (f : Bytes → Option α)
    (hes : ∀ e ∈ es, ElementOk e) :
    scanFirst target f (writeTlvs es) =
      es.findSome? fun e => if e.1 = target then f e.2 else none := by
  rw [scanFirst, scanTlv_writeTlvs _ hes]
  clear hes
  have hsome : ∀ step : Option α → ℕ × Bytes → Option α, (∀ r e, step (some r) e = some r) →
      ∀ (es : List (ℕ × Bytes)) (r : α), es.foldl step (some r) = some r := by
    intro step hstep es
    induction es with
    | nil => simp
    | cons e es ih => simp [hstep, ih]
  induction es with
  | nil => rfl
  | cons e es ih =>
    rw [foldl_cons, findSome?_cons]
    cases hcase : (if e.1 = target then f e.2 else none) with
    | none => exact ih
    | some r => exact hsome _ (fun _ _ => rfl) es r

/-- The elements of the ValidityPeriod of an issued certificate. -/
def certDates (fromNs untilNs : ℕ) : List (ℕ × Bytes) :=
  [(notBefore, Iso8601.formatIsoBasic fromNs), (notAfter, Iso8601.formatIsoBasic untilNs)]

variable {fromNs untilNs : ℕ} {description : Option Bytes}

lemma decodeValidityDates_snd (hunt : untilNs < 2 ^ 64)
    (hlen : (writeTlvs (certDates fromNs untilNs)).length < 2 ^ 64) :
    (decodeValidityDates (writeTlvs (certDates fromNs untilNs))).2 =
      untilNs / 1000000000 * 1000000000 := by
  have hok := elementOk_of_length (by simp [certDates, notBefore, notAfter]) hlen
  rw [decodeValidityDates, scanTlv_writeTlvs _ hok]
  simp [certDates, notBefore, notAfter, Iso8601.parseIsoBasic_formatIsoBasic hunt]

/-- The elements of the SignatureInfo of an issued certificate. -/
def certInfoElements (signer : Signer) (fromNs untilNs : ℕ) (description : Option Bytes) :
    List (ℕ × Bytes) :=
  (signatureType, [UInt8.ofNat signer.sigType.code]) ::
    (keyLocator, signer.keyName.encodeToTlv) ::
    (validityPeriod, writeTlvs (certDates fromNs untilNs)) ::
    (description.map (additionalDescription, ·)).toList

lemma certSignatureInfo_eq (signer : Signer) (fromNs untilNs : ℕ) (description : Option Bytes) :
    certSignatureInfo signer fromNs untilNs description =
      writeTlvs (certInfoElements signer fromNs untilNs description) := by
  cases description <;> simp [certSignatureInfo, certInfoElements, certDates]

lemma elementOk_certInfoElements
    (hlen : (certSignatureInfo signer fromNs untilNs description).length < 2 ^ 64) :
    ∀ e ∈ certInfoElements signer fromNs untilNs description, ElementOk e := by
  rw [certSignatureInfo_eq] at hlen
  refine elementOk_of_length (fun e he => ?_) hlen
  simp only [certInfoElements, mem_cons, Option.mem_toList, Option.map_eq_some_iff] at he
  rcases he with rfl | rfl | rfl | ⟨d, -, rfl⟩
  all_goals
    simp [signatureType, keyLocator, validityPeriod, additionalDescription]

/-- The end of the validity period that is read back from a certificate. -/
lemma decodeValidityPeriod_snd (hunt : untilNs < 2 ^ 64)
    (hok : ∀ e ∈ (name, nameVal) :: certBody key
      (certSignatureInfo signer fromNs untilNs description), ElementOk e) :
    (decodeValidityPeriod (writeTlvs ((name, nameVal) :: certBody key
      (certSignatureInfo signer fromNs untilNs description)))).2 =
      untilNs / 1000000000 * 1000000000 := by
  have hinn := elementOk_certInfoElements (hok (signatureInfo,
    certSignatureInfo signer fromNs untilNs description) (by simp [certBody])).2
  have hdat := decodeValidityDates_snd hunt (hinn
    (validityPeriod, writeTlvs (certDates fromNs untilNs)) (by simp [certInfoElements])).2
  have hper : scanFirst validityPeriod (fun vp => some (decodeValidityDates vp))
      (certSignatureInfo signer fromNs untilNs description) =
      some (decodeValidityDates (writeTlvs (certDates fromNs untilNs))) := by
    rw [certSignatureInfo_eq, scanFirst_writeTlvs _ _ hinn]
    simp [certInfoElements, signatureType, keyLocator, validityPeriod]
  rw [decodeValidityPeriod, scanFirst_writeTlvs _ _ hok, ← hdat]
  simp [certBody, hper, name, metaInfo, content, signatureInfo]

/-- **The end of an issued certificate** is the 64-bit sum of the time of issue and the validity, in
whole seconds. -/
lemma SecurityManager.validUntil_of_certify {self : SecurityManager} {nowNs validityMs : ℕ}
    {subject issuer : Name} {cert : Certificate}
    (h : self.certifyWithAdditionalDescription nowNs subject key issuer validityMs description =
      .ok cert) :
    cert.validUntil = (nowNs + validityMs * 1000000) % 2 ^ 64 / 1000000000 * 1000000000 := by
  obtain ⟨signer, signature, data, hlen, hdata, hcert⟩ := exists_wire_of_certify h
  obtain ⟨_, publicKey, -, -, rfl⟩ := Certificate.decode_eq_ok_iff.mp hcert
  have hok := elementOk_certElements hlen
  have hreg := Data.signedRegion_of_decode hok hlen hdata
  have hbody : ∀ e ∈ (TlvType.name, subject.encodeComponents) :: certBody key (certSignatureInfo
      signer nowNs ((nowNs + validityMs * 1000000) % 2 ^ 64) description), ElementOk e := by
    intro e he
    exact hok e (mem_append_left [(signatureValue, signature)] he)
  rw [← decodeValidityPeriod_snd (Nat.mod_lt _ (Nat.two_pow_pos 64)) hbody, ← hreg]
  rfl

namespace CaState

variable {σ : Type}

/-- The validity that a certificate may be issued for, in milliseconds: the least of the configured
maximum, the policy's answer, and the requested window when that is positive. -/
def windowMs (maxMs policyMs : ℕ) (req : CertRequest) : ℕ :=
  if req.notBefore < req.notAfter then
    min maxMs (min policyMs (req.notAfter - req.notBefore))
  else min maxMs policyMs

lemma validityMs_eq {cfg : CaConfig σ} {maxMs policyMs : ℕ} (hmax : maxMs < 2 ^ 64)
    (hpol : policyMs < 2 ^ 64) (hcfg : cfg.maxValidity = maxMs * 1000000) (req : CertRequest) :
    validityMs cfg req (policyMs * 1000000) = windowMs maxMs policyMs req := by
  simp only [validityMs, windowMs, asMillisU64, hcfg,
    Nat.mul_div_cancel _ (show 0 < 1000000 by simp), Nat.mod_eq_of_lt hmax,
    Nat.mod_eq_of_lt hpol]
  split_ifs <;> omega

/-- **Issued certificates and the certificate of the authority.** An issued certificate never
outlives the window granted for it, and it outlives the certificate of the authority unless the
window, counted in 64-bit nanoseconds, ends in a second before that. -/
theorem validity_bounded_iff {cfg : CaConfig σ} {self : CaState} {nowNs maxMs policyMs : ℕ}
    {req : CertRequest} {description : Option Bytes} {caKeyName : Name} {ca cert : Certificate}
    (hmax : maxMs < 2 ^ 64) (hpolicy : policyMs < 2 ^ 64) (hcfg : cfg.maxValidity = maxMs * 1000000)
    (_hca : self.manager.anchors.head? = some (caKeyName, ca))
    (h : issueCertificateWithValidity cfg self nowNs req (policyMs * 1000000) description =
      .ok cert) :
    (cert.validUntil ≤ nowNs + windowMs maxMs policyMs req * 1000000 ∧
      cert.validUntil ≤ ca.validUntil) ↔
      (nowNs + windowMs maxMs policyMs req * 1000000) % 2 ^ 64 / 1000000000 ≤
        ca.validUntil / 1000000000 := by
  obtain ⟨_, -, h⟩ := bind_eq_ok_iff.mp h
  obtain ⟨_, -, h⟩ := bind_eq_ok_iff.mp h
  obtain ⟨_, -, h⟩ := bind_eq_ok_iff.mp h
  obtain ⟨_, -, h⟩ := bind_eq_ok_iff.mp h
  rw [mapError_eq_ok_iff] at h
  have hunt := SecurityManager.validUntil_of_certify h
  rw [validityMs_eq hmax hpolicy hcfg] at hunt
  omega

/-! ## A certificate for one day -/

namespace Sample

open CaRun.Sample (config clock subName requesterKey)

/-- The sample authority, with a certificate until a given time. -/
def authority (untilNs : ℕ) : CaState where
  manager :=
    { CaRun.Sample.manager with anchors := CaRun.Sample.manager.anchors.map fun entry =>
        (entry.1, { entry.2 with validUntil := untilNs }) }
  pending _ := none
  revoked _ := false
  servedCerts _ := none

/-- What the authority issues for a request without a window of its own. -/
def issued (untilNs : ℕ) : Except CertError Certificate :=
  issueCertificateWithValidity config (authority untilNs) clock.nowNs
    ⟨subName.display, Base64.encode requesterKey, 0, 0⟩ (86400000 * 1000000) none

lemma issued_eq_ok (untilNs : ℕ) :
    ∃ cert, issued untilNs = .ok cert ∧ cert.validUntil = clock.nowNs + 86400 * 10 ^ 9 := by
  -- issuing does not read the anchors' certificates
  have hzero : issued untilNs = issued 0 := rfl
  have hval : (issued 0).toOption.map Certificate.validUntil =
      some (clock.nowNs + 86400 * 10 ^ 9) := by
    decide +kernel
  rw [hzero]
  cases hcase : issued 0 with
  | error e => simp [hcase, Except.toOption] at hval
  | ok cert =>
    rw [hcase] at hval
    exact ⟨cert, rfl, Option.some.inj hval⟩

end Sample

open Sample in
theorem validity_bounded_iff_day :
    ∃ ca cert, (authority (2 ^ 64 - 1)).manager.anchors.head? =
        some (CaRun.Sample.caKeyName, ca) ∧
      issued (2 ^ 64 - 1) = .ok cert ∧
      cert.validUntil ≤ CaRun.Sample.clock.nowNs +
        windowMs 86400000 86400000 ⟨[], [], 0, 0⟩ * 1000000 ∧
      cert.validUntil ≤ ca.validUntil := by
  obtain ⟨cert, hcert, -⟩ := issued_eq_ok (2 ^ 64 - 1)
  refine ⟨_, cert, rfl, hcert, ?_⟩
  exact (validity_bounded_iff (by decide) (by decide) rfl rfl hcert).2 (by decide)

open Sample in
/-- A certificate that outlives the one of its authority by a day. -/
theorem outlives_authority :
    ∃ ca cert, (authority CaRun.Sample.clock.nowNs).manager.anchors.head? =
        some (CaRun.Sample.caKeyName, ca) ∧
      issued CaRun.Sample.clock.nowNs = .ok cert ∧ ca.validUntil < cert.validUntil := by
  obtain ⟨cert, hcert, hunt⟩ := issued_eq_ok CaRun.Sample.clock.nowNs
  refine ⟨_, cert, rfl, hcert, ?_⟩
  rw [hunt]
  decide

end CaState

end NdnRs
