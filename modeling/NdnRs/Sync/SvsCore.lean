import NdnRs.Lib.Assoc
import NdnRs.Wire.NameUri

/-!
# State Vector Sync, the node (`ndn-svs-core/src/core.rs`)

A node keeps, for every producer it knows, a bootstrap time and the highest sequence number. It
compares the vectors it receives with its own and reports what it is missing as ranges of sequence
numbers.

## Main definitions

* `merge` — the own vector moves at once.
* `mergeDeferred`, `ack` — it moves when the application has stored the publication.

## Implementation notes

Boot times and sequence numbers are 64-bit in the source. They are natural numbers here: the sum in
`advance` wraps, the one in `clamp_gap_high` saturates, and `ls + 1` in `merge_inner` is computed
only below a received sequence number. The vector is a `BTreeMap`; nothing depends on the order of
its keys.
-/

namespace NdnRs

open Assoc

/-- `u64::MAX`. -/
def u64Max : ℕ := 2 ^ 64 - 1

/-- `StateEntry`: one entry of a received state vector. -/
structure StateEntry where
  name : Name
  boot : ℕ
  seq : ℕ
  deriving DecidableEq

def maxTrackedProducers : ℕ := 16384

def maxGapSpan : ℕ := 2 ^ 16

def clampGapHigh (low high : ℕ) : ℕ := min high (min (low + (maxGapSpan - 1)) u64Max)

lemma clampGapHigh_eq {low high : ℕ} (h : high ≤ u64Max) :
    clampGapHigh low high = min high (low + (maxGapSpan - 1)) := by
  unfold clampGapHigh
  omega

lemma clampGapHigh_le (low high : ℕ) : clampGapHigh low high ≤ high := by
  unfold clampGapHigh
  omega

structure SvsCore where
  localName : Name
  localBoot : ℕ
  vector : List (Name × (ℕ × ℕ))
  deriving DecidableEq

namespace SvsCore

def withBootSeq (localName : Name) (localBoot localSeq : ℕ) : SvsCore :=
  ⟨localName, localBoot, [(localName, (localBoot, localSeq))]⟩

variable (self : SvsCore) (name : Name) (received : List StateEntry)

def get : Option (ℕ × ℕ) := self.vector.lookup name

/-- The entry of a producer, with the default of `or_insert`. -/
def slot : ℕ × ℕ := (self.get name).getD (0, 0)

/-- Sets the entry of a producer. -/
def set (slot : ℕ × ℕ) : SvsCore :=
  { self with vector := Assoc.insert name slot self.vector }

def localSeq : ℕ := ((self.get self.localName).map Prod.snd).getD 0

/-- `SvsCore::advance`: the node and the new sequence number. -/
def advance : SvsCore × ℕ :=
  let (boot, seq) := (self.get self.localName).getD (self.localBoot, 0)
  let seq := (seq + 1) % 2 ^ 64
  (self.set self.localName (boot, seq), seq)

/-- The branches of `merge_inner` on one slot: the slot after the entry, and the gap. -/
def mergeSlot (advance : Bool) (slot : ℕ × ℕ) (entry : StateEntry) : (ℕ × ℕ) × Option (ℕ × ℕ) :=
  if entry.boot > slot.1 then
    if entry.seq ≥ 1 then
      let high := clampGapHigh 1 entry.seq
      ((entry.boot, if advance then high else 0), some (1, high))
    else ((entry.boot, entry.seq), none)
  else if entry.boot = slot.1 ∧ entry.seq > slot.2 then
    let high := clampGapHigh (slot.2 + 1) entry.seq
    ((slot.1, if advance then high else slot.2), some (slot.2 + 1, high))
  else (slot, none)

abbrev Gap := Str × ℕ × ℕ

/-- Whether `merge_inner` looks at the entry: it is not the node's own, and the producer is known
or there is room for one more. -/
def Tracks : Prop :=
  name ≠ self.localName ∧ ((self.get name).isSome ∨ self.vector.length < maxTrackedProducers)

instance (self : SvsCore) (name : Name) : Decidable (self.Tracks name) := by
  unfold Tracks
  infer_instance

/-- The body of the loop in `merge_inner`. -/
def mergeEntry (advance : Bool) (s : SvsCore × List Gap) (entry : StateEntry) :
    SvsCore × List Gap :=
  if s.1.Tracks entry.name then
    let r := mergeSlot advance (s.1.slot entry.name) entry
    (s.1.set entry.name r.1, s.2 ++ r.2.toList.map fun gap => (Name.display entry.name, gap))
  else s

def mergeInner (advance : Bool) : SvsCore × List Gap :=
  received.foldl (mergeEntry advance) (self, [])

def merge : SvsCore × List Gap :=
  self.mergeInner received true

def mergeDeferred : SvsCore × List Gap :=
  self.mergeInner received false

def ack (nodeKey : Str) (seq : ℕ) : SvsCore :=
  match Name.fromStr nodeKey with
  | .error _ => self
  | .ok name =>
    if name = self.localName then self
    else
      match self.get name with
      | some (boot, ls) => if seq > ls then self.set name (boot, seq) else self
      | none => if self.vector.length < maxTrackedProducers then self.set name (0, seq) else self

def stateEntries : List StateEntry :=
  self.vector.map fun (name, (boot, seq)) => ⟨name, boot, seq⟩

/-! ## The vector as a map -/

variable (advance : Bool) (s : SvsCore × List Gap) (entry : StateEntry) {motive : SvsCore → Prop}

@[simp] lemma get_set (name' : Name) (slot : ℕ × ℕ) :
    (self.set name slot).get name' = if name' = name then some slot else self.get name' :=
  lookup_insert _ _ _ _

@[simp] lemma get_withBootSeq (localName name : Name) (localBoot localSeq : ℕ) :
    (withBootSeq localName localBoot localSeq).get name =
      if name = localName then some (localBoot, localSeq) else none := by
  rw [get, withBootSeq, lookup_cons]
  rfl

def producers (self : SvsCore) : List Name := self.vector.map Prod.fst

lemma get_eq_none_iff {self : SvsCore} {name : Name} :
    self.get name = none ↔ name ∉ self.producers :=
  lookup_eq_none_iff

lemma mem_producers_set (name' : Name) (slot : ℕ × ℕ) :
    name' ∈ (self.set name slot).producers ↔ name' = name ∨ name' ∈ self.producers :=
  mem_keys_insert _ _ _ _

lemma nodup_producers_set (slot : ℕ × ℕ)
    (h : self.producers.Nodup) : (self.set name slot).producers.Nodup :=
  nodup_keys_insert _ _ h

lemma mem_stateEntries {self : SvsCore} (h : self.producers.Nodup) {entry : StateEntry} :
    entry ∈ self.stateEntries ↔ self.get entry.name = some (entry.boot, entry.seq) := by
  rw [get, lookup_eq_some_iff h, stateEntries, List.mem_map]
  constructor
  · rintro ⟨⟨name, boot, seq⟩, hmem, rfl⟩
    exact hmem
  · intro hmem
    exact ⟨_, hmem, rfl⟩

/-! ## What the operations do to one entry -/

/-- **One slot, by cases.** A newer boot time, with or without publications; the same boot time and
a higher sequence number; or nothing new. -/
theorem mergeSlot_cases (slot : ℕ × ℕ) (entry : StateEntry) :
    (slot.1 < entry.boot ∧ 1 ≤ entry.seq ∧ mergeSlot advance slot entry =
        ((entry.boot, if advance then clampGapHigh 1 entry.seq else 0),
          some (1, clampGapHigh 1 entry.seq))) ∨
      (slot.1 < entry.boot ∧ entry.seq = 0 ∧ mergeSlot advance slot entry =
        ((entry.boot, 0), none)) ∨
      (entry.boot = slot.1 ∧ slot.2 < entry.seq ∧ mergeSlot advance slot entry =
        ((slot.1, if advance then clampGapHigh (slot.2 + 1) entry.seq else slot.2),
          some (slot.2 + 1, clampGapHigh (slot.2 + 1) entry.seq))) ∨
      ((entry.boot < slot.1 ∨ entry.boot = slot.1 ∧ entry.seq ≤ slot.2) ∧
        mergeSlot advance slot entry = (slot, none)) := by
  unfold mergeSlot
  by_cases hboot : entry.boot > slot.1
  · rw [if_pos hboot]
    by_cases hseq : entry.seq ≥ 1
    · rw [if_pos hseq]
      exact .inl ⟨hboot, hseq, rfl⟩
    · have hzero : entry.seq = 0 := by omega
      rw [if_neg hseq, hzero]
      exact .inr (.inl ⟨hboot, rfl, rfl⟩)
  · rw [if_neg hboot]
    by_cases hsame : entry.boot = slot.1 ∧ entry.seq > slot.2
    · rw [if_pos hsame]
      exact .inr (.inr (.inl ⟨hsame.1, hsame.2, rfl⟩))
    · rw [if_neg hsame]
      exact .inr (.inr (.inr ⟨by omega, rfl⟩))

@[simp] lemma localName_mergeEntry : (mergeEntry advance s entry).1.localName = s.1.localName := by
  unfold mergeEntry
  split_ifs <;> rfl

@[simp] lemma localBoot_mergeEntry : (mergeEntry advance s entry).1.localBoot = s.1.localBoot := by
  unfold mergeEntry
  split_ifs <;> rfl

/-- **One received entry.** It moves the slot of its producer, if that producer is tracked, and no
other. -/
theorem get_mergeEntry (name : Name) :
    (mergeEntry advance s entry).1.get name =
      if name = entry.name ∧ s.1.Tracks entry.name then
        some (mergeSlot advance (s.1.slot entry.name) entry).1
      else s.1.get name := by
  unfold mergeEntry
  by_cases htrk : s.1.Tracks entry.name
  · simp only [htrk, if_true, and_true]
    exact get_set _ _ _ _
  · simp only [htrk, if_false, and_false]

lemma foldl_mergeEntry_induction {s : SvsCore × List Gap}
    {received : List StateEntry} {advance : Bool} (hs : motive s.1)
    (hent : ∀ s entry, entry ∈ received → motive s.1 → motive (mergeEntry advance s entry).1) :
    motive (received.foldl (mergeEntry advance) s).1 :=
  List.foldlRecOn (motive := fun s => motive s.1) received _ hs fun s hs e he => hent s e he hs

lemma mergeInner_induction {self : SvsCore} {received : List StateEntry}
    {advance : Bool} (hself : motive self)
    (hent : ∀ s entry, entry ∈ received → motive s.1 → motive (mergeEntry advance s entry).1) :
    motive (self.mergeInner received advance).1 :=
  foldl_mergeEntry_induction hself hent

/-- **A publication.** It moves the own entry and no other. -/
theorem get_advance {boot seq : ℕ} (h : self.get self.localName = some (boot, seq)) (name : Name) :
    self.advance.1.get name =
      if name = self.localName then some (boot, (seq + 1) % 2 ^ 64) else self.get name := by
  rw [advance, h]
  exact get_set _ _ _ _

end SvsCore

end NdnRs
