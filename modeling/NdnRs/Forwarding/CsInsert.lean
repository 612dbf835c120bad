import NdnRs.Forwarding.DecodeStage
import NdnRs.Packet.MetaInfo
import NdnRs.Store.LruLookup

/-!
# Admission to the Content Store (`ndn-engine/src/stages/cs.rs`)

A Data that may be cached is stored with the time at which it becomes stale: its arrival and the
FreshnessPeriod that its producer chose, added in 64 bits. A MustBeFresh lookup compares the clock
with that time.

## Main results

* `fresh_window_iff` — when Data is fresh for its FreshnessPeriod.
-/

namespace NdnRs

open Bytes Tlv TlvType

open TlvDecodeStage (DecodedPacket Tags)

namespace CsInsertStage

/-- `PacketContext`, as far as the stage uses it. -/
structure PacketContext where
  rawBytes : Bytes
  packet : DecodedPacket
  arrival : UInt64
  verified : Bool
  validationNotConfigured : Bool
  tags : Tags

end CsInsertStage

/-- `CsInsertStage`, without its store. -/
structure CsInsertStage where
  admission : Data → Bool
  admitUnverified : Bool

namespace LruCs

variable {cs : LruCs}

lemma peek_insert (hon : cs.admitEnabled = true) (data : Bytes) (name : Name) (staleAt : ℕ) :
    (cs.insert data name staleAt).1.cache.peek name = some ⟨data, staleAt, name⟩ := by
  rw [insert, hon, if_neg (by simp)]
  cases cs.cache.peek name with
  | some old => simp [Lru.peek_put]
  | none => simp [Lru.peek_put]

lemma get_mustBeFresh {interest : Interest} {t : ℕ} (hser : cs.serve = true)
    (hcnt : cs.entryCount ≠ 0) (hmust : interest.selectors.mustBeFresh = true) :
    (cs.get interest t).1 = (cs.candidate interest).1.filter fun entry => entry.isFresh t := by
  rw [get, hser, if_neg (by simp), if_neg hcnt]
  simp [hmust]

end LruCs

namespace CsInsertStage

variable (self : CsInsertStage)

def freshnessPeriod (data : Data) : Option ℕ := data.metaInfo.bind MetaInfo.freshnessPeriod

/-- The time at which a Data becomes stale, in nanoseconds. -/
def staleAt (arrival : UInt64) (data : Data) : UInt64 :=
  let freshnessMs := .ofNat ((freshnessPeriod data).getD 0)
  arrival + freshnessMs * 1000000

/-- `CsInsertStage::process`, on the store; the packet goes on as it is. -/
def process (cs : LruCs) (ctx : PacketContext) : LruCs :=
  match ctx.packet with
  | .data data =>
    let unvalidatedOk := ctx.validationNotConfigured && self.admitUnverified
    if !ctx.verified && !unvalidatedOk then cs
    else if ctx.tags.lpCachePolicy = some .noCache then cs
    else if !self.admission data then cs
    else (cs.insert ctx.rawBytes data.name (staleAt ctx.arrival data).toNat).1
  | _ => cs

/-- The stage stores the Data: it was validated, or need not be, no header forbids it and the policy
admits it. -/
def Admits (ctx : PacketContext) (data : Data) : Prop :=
  (ctx.verified = true ∨ ctx.validationNotConfigured = true ∧ self.admitUnverified = true) ∧
    ctx.tags.lpCachePolicy ≠ some .noCache ∧ self.admission data = true

section

variable {self : CsInsertStage} {cs : LruCs} {ctx : PacketContext} {data : Data}

lemma process_of_admits (hpkt : ctx.packet = .data data) (h : self.Admits ctx data) :
    self.process cs ctx =
      (cs.insert ctx.rawBytes data.name (staleAt ctx.arrival data).toNat).1 := by
  obtain ⟨hver, hpol, hadm⟩ := h
  have hnot :
      (!ctx.verified && !(ctx.validationNotConfigured && self.admitUnverified)) = false := by
    rcases hver with hver | ⟨hcon, hopt⟩
    · simp [hver]
    · simp [hcon, hopt]
  rw [process, hpkt]
  simp only [hnot, hadm, Bool.not_true, Bool.false_eq_true, if_false, if_neg hpol]

lemma toNat_staleAt (arrival : UInt64) {m : ℕ} (hm : freshnessPeriod data = some m) :
    (staleAt arrival data).toNat = (arrival.toNat + m * 1000000) % 2 ^ 64 := by
  rw [staleAt, hm]
  have hmil : (1000000 : UInt64).toNat = 1000000 := by decide
  simp only [Option.getD_some, UInt64.toNat_add, UInt64.toNat_mul, UInt64.toNat_ofNat', hmil]
  omega

/-- **The freshness window.** A Data with a FreshnessPeriod of `m` milliseconds that is admitted is
stored as an entry such that: a MustBeFresh lookup that finds the entry answers with it exactly
while it is fresh; and it is fresh for `m` milliseconds from its arrival on and stale from then on,
exactly if the end of this time is a 64-bit number of nanoseconds. -/
theorem fresh_window_iff {m : ℕ} (hpacket : ctx.packet = .data data)
    (hm : freshnessPeriod data = some m) (hadmits : self.Admits ctx data)
    (hstore : cs.admitEnabled = true) :
    ∃ entry, (self.process cs ctx).cache.peek data.name = some entry ∧
      entry.data = ctx.rawBytes ∧
      (∀ (later : LruCs) (interest : Interest) (t : ℕ), later.serve = true →
        later.entryCount ≠ 0 → interest.selectors.mustBeFresh = true →
        (later.candidate interest).1 = some entry →
        ((later.get interest t).1 = some entry ↔ entry.isFresh t = true)) ∧
      ((∀ t : UInt64, ctx.arrival ≤ t →
          (entry.isFresh t.toNat = true ↔ t.toNat < ctx.arrival.toNat + m * 1000000)) ↔
        ctx.arrival.toNat + m * 1000000 < 2 ^ 64) := by
  refine ⟨⟨ctx.rawBytes, (staleAt ctx.arrival data).toNat, data.name⟩, ?_, rfl, ?_, ?_⟩
  · rw [process_of_admits hpacket hadmits]
    exact LruCs.peek_insert hstore _ _ _
  · intro later interest t hser hcnt hmust hcan
    rw [LruCs.get_mustBeFresh hser hcnt hmust, hcan, Option.filter_eq_some_iff]
    exact and_iff_right rfl
  have hfres : ∀ t : ℕ, CsEntry.isFresh
      ⟨ctx.rawBytes, (staleAt ctx.arrival data).toNat, data.name⟩ t = true ↔
        t < (ctx.arrival.toNat + m * 1000000) % 2 ^ 64 := by
    intro t
    rw [CsEntry.isFresh, decide_eq_true_iff, toNat_staleAt ctx.arrival hm]
  simp only [hfres]
  constructor
  · -- the last moment of the clock is behind every end that it can show
    intro h
    have hval : (UInt64.ofNat (2 ^ 64 - 1)).toNat = 2 ^ 64 - 1 := by decide
    have hle : ctx.arrival ≤ UInt64.ofNat (2 ^ 64 - 1) := by
      have harr := ctx.arrival.toNat_lt
      rw [UInt64.le_iff_toNat_le]
      omega
    have hlast := h _ hle
    omega
  · intro hlt t _
    rw [Nat.mod_eq_of_lt hlt]

end

/-! ## Samples -/

namespace Sample

/-- A Data for `/a` with a FreshnessPeriod, in milliseconds. -/
def wire (m : ℕ) : Bytes :=
  writeTlv TlvType.data
    (writeTlvs
      [(TlvType.name, Name.encodeComponents [.ofText "a"]),
        (TlvType.metaInfo, writeTlv TlvType.freshnessPeriod (beBytes 8 m)),
        (TlvType.content, [1]),
        (signatureInfo, writeTlv signatureType [0]),
        (signatureValue, .replicate 32 0)])

def data (m : ℕ) : Data := (Data.decode (wire m)).toOption.getD ⟨[], 0, 0, 0, 0, []⟩

/-- The Data arrives, and was validated. -/
def context (m : ℕ) (arrival : UInt64) : PacketContext :=
  ⟨wire m, .data (data m), arrival, true, false, {}⟩

def stage : CsInsertStage := ⟨fun _ => true, false⟩

lemma stage_admits (m : ℕ) (arrival : UInt64) : stage.Admits (context m arrival) (data m) :=
  ⟨.inl rfl, by rw [context]; simp, rfl⟩

end Sample

open Sample

/-- The premises of `fresh_window_iff` hold of a Data that is fresh for four seconds. -/
theorem fresh_window_four_seconds :
    freshnessPeriod (data 4000) = some 4000 ∧
    ∃ entry, (stage.process (.new 1000) (context 4000 1700000000000000000)).cache.peek
        (data 4000).name = some entry ∧
      ∀ t : UInt64, 1700000000000000000 ≤ t →
        (entry.isFresh t.toNat = true ↔ t.toNat < 1700000004000000000) := by
  have hm : freshnessPeriod (data 4000) = some 4000 := by decide
  obtain ⟨entry, hpeek, -, -, hwin⟩ :=
    fresh_window_iff rfl hm (stage_admits 4000 1700000000000000000)
      (show (LruCs.new 1000).admitEnabled = true from rfl)
  exact ⟨hm, entry, hpeek, hwin.mpr (by decide)⟩

/-- **A Data that is stale at once.** Its FreshnessPeriod is over five hundred years, the end of
which is not a 64-bit number of nanoseconds: in the nanosecond of its arrival it is not fresh. -/
theorem fresh_window_wraps :
    freshnessPeriod (data 16746744073710) = some 16746744073710 ∧
    ((stage.process (.new 1000) (context 16746744073710 1700000000000000000)).cache.peek
        (data 16746744073710).name).map (fun entry => entry.isFresh 1700000000000000000) =
      some false := by
  all_goals decide

end CsInsertStage

end NdnRs
