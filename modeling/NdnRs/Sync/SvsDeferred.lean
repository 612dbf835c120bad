import NdnRs.Lib.Run
import NdnRs.Sync.SvsCore

/-!
# State Vector Sync, two-phase merging

In deferred mode a merge reports gaps and leaves the vector where it is; the vector moves when the
application acknowledges a publication. The vector has one mark for each producer, so it can only
say that everything up to some sequence number is acknowledged.

## Main results

* `unacked_in_gap` — what is not acknowledged is reported again.
-/

namespace NdnRs

open List SvsCore Name

namespace SvsCore

/-! ## What the operations do to a slot -/

/-- Setting a name's slot leaves the others. -/
lemma slot_set (self : SvsCore) (name p : Name) (slot : ℕ × ℕ) :
    (self.set name slot).slot p = if p = name then slot else self.slot p := by
  rw [SvsCore.slot, get_set]
  split_ifs <;> rfl

lemma slot_mergeEntry (advance : Bool) (s : SvsCore × List Gap) (entry : StateEntry) (p : Name) :
    (mergeEntry advance s entry).1.slot p =
      if p = entry.name ∧ s.1.Tracks entry.name then
        (mergeSlot advance (s.1.slot entry.name) entry).1
      else s.1.slot p := by
  rw [slot, get_mergeEntry]
  split_ifs <;> rfl

variable {self : SvsCore} {p : Name} {advance : Bool} {s : SvsCore × List Gap}
  {received : List StateEntry} {entry : StateEntry} {nodeKey : Str} {name : Name}

lemma tracks_of_set {slot : ℕ × ℕ} (htrk : self.Tracks name)
    (h : (self.set name slot).Tracks p) : self.Tracks p := by
  by_cases hp : p = name
  · rw [hp]
    exact htrk
  refine ⟨h.1, ?_⟩
  rcases h.2 with hsome | hroom
  · rw [get_set, if_neg hp] at hsome
    exact .inl hsome
  · have hlen : self.vector.length ≤ (self.set name slot).vector.length :=
      Assoc.length_le_length_insert _ _ _
    omega

lemma tracks_of_mergeEntry (h : (mergeEntry advance s entry).1.Tracks p) : s.1.Tracks p := by
  unfold mergeEntry at h
  split_ifs at h with htrk
  · exact tracks_of_set htrk h
  · exact h

/-- **One acknowledgement.** It raises the mark of its producer, if that is tracked, and no other
one. -/
theorem slot_ack (hkey : fromStr nodeKey = .ok name) (seq : ℕ) (p : Name) :
    (self.ack nodeKey seq).slot p =
      if p = name ∧ self.Tracks name then ((self.slot name).1, max (self.slot name).2 seq)
      else self.slot p := by
  unfold ack
  simp only [hkey]
  by_cases hloc : name = self.localName
  · have hnot : ¬ self.Tracks name := fun h => h.1 hloc
    rw [if_pos hloc, if_neg fun h => hnot h.2]
  rw [if_neg hloc]
  cases hget : self.get name with
  | some slot =>
    have htrk : self.Tracks name := ⟨hloc, .inl (by rw [hget]; rfl)⟩
    have hslot : self.slot name = slot := by rw [SvsCore.slot, hget]; rfl
    simp only [htrk, and_true, hslot]
    split_ifs with hseq hp hp
    · rw [slot_set, if_pos hp]
      simp only [Prod.mk.injEq, true_and]
      omega
    · rw [slot_set, if_neg hp]
    · rw [hp, hslot]
      have hmax : max slot.2 seq = slot.2 := by omega
      rw [hmax]
    · rfl
  | none =>
    have hslot : self.slot name = (0, 0) := by rw [slot, hget]; rfl
    by_cases hroom : self.vector.length < maxTrackedProducers
    · have htrk : self.Tracks name := ⟨hloc, .inr hroom⟩
      simp only [hroom, if_true, htrk, and_true, hslot]
      rw [slot_set]
      simp
    · have hnot : ¬ self.Tracks name := by
        rintro ⟨-, hsome | hroom'⟩
        · rw [hget] at hsome
          cases hsome
        · exact hroom hroom'
      simp [hroom, hnot]

lemma tracks_of_ack {seq : ℕ} (h : (self.ack nodeKey seq).Tracks p) : self.Tracks p := by
  unfold ack at h
  cases hkey : fromStr nodeKey with
  | error e =>
    rw [hkey] at h
    exact h
  | ok name =>
    simp only [hkey] at h
    by_cases hloc : name = self.localName
    · rw [if_pos hloc] at h
      exact h
    cases hget : self.get name with
    | some slot =>
      simp only [hget] at h
      split_ifs at h
      · exact tracks_of_set ⟨hloc, .inl (by rw [hget]; rfl)⟩ h
      · exact h
    | none =>
      simp only [hget] at h
      split_ifs at h with hroom
      · exact tracks_of_set ⟨hloc, .inr hroom⟩ h
      · exact h

/-! ## The gaps of a vector -/

lemma mem_foldl_mergeEntry {gap : Gap} (h : gap ∈ s.2) :
    gap ∈ (received.foldl (mergeEntry advance) s).2 := by
  refine foldlRecOn (motive := fun s : SvsCore × List Gap => gap ∈ s.2) received _ h
    fun s h e _ => ?_
  unfold mergeEntry
  split_ifs
  · exact mem_append_left _ h
  · exact h

/-- The gap of the only entry about a producer is reported, if there is room. -/
lemma mem_gaps_of_entry (hent : entry ∈ received)
    (honly : ∀ e ∈ received, e.name = entry.name → e = entry) (hloc : entry.name ≠ s.1.localName)
    (hroom : (s.1.get entry.name).isSome ∨
      s.1.vector.length + received.length ≤ maxTrackedProducers)
    {gap : ℕ × ℕ} (hgap : (mergeSlot advance (s.1.slot entry.name) entry).2 = some gap) :
    (display entry.name, gap) ∈ (received.foldl (mergeEntry advance) s).2 := by
  induction received generalizing s with
  | nil => cases hent
  | cons e received ih =>
    rw [foldl_cons]
    by_cases he : e.name = entry.name
    · -- this is the entry: its gap is added now
      have heq := honly e (mem_cons_self ..) he
      subst heq
      have htrk : s.1.Tracks e.name := by
        refine ⟨hloc, hroom.imp id ?_⟩
        intro hlen
        rw [length_cons] at hlen
        omega
      apply mem_foldl_mergeEntry
      unfold mergeEntry
      rw [if_pos htrk]
      simp [hgap]
    · have hmem : entry ∈ received := by
        rcases mem_cons.mp hent with rfl | hmem
        · exact absurd rfl he
        · exact hmem
      have hne : ¬ (entry.name = e.name ∧ s.1.Tracks e.name) := fun h => he h.1.symm
      apply ih hmem (fun d hd => honly d (mem_cons_of_mem _ hd))
      · rw [localName_mergeEntry]
        exact hloc
      · rw [get_mergeEntry, if_neg hne]
        refine hroom.imp id ?_
        intro hlen
        rw [length_cons] at hlen
        have hgrow : (mergeEntry advance s e).1.vector.length ≤ s.1.vector.length + 1 := by
          unfold mergeEntry
          split_ifs
          · exact Assoc.length_insert_le _ _ _
          · exact Nat.le_succ _
        omega
      · rw [slot_mergeEntry, if_neg hne]
        exact hgap

end SvsCore

/-! ## Runs of merging and acknowledging -/

structure SvsDeferred where
  core : SvsCore
  acked : List (Name × ℕ × ℕ)

namespace SvsDeferred

/-- What is called. An acknowledgement is about a publication of some boot time; `ack` is not told
which. -/
inductive Event where
  | mergeDeferred (received : List StateEntry)
  | ack (nodeKey : Str) (boot seq : ℕ)
  deriving DecidableEq

def step (s : SvsDeferred) : Event → SvsDeferred
  | .mergeDeferred received => { s with core := (s.core.mergeDeferred received).1 }
  | .ack nodeKey boot seq =>
    ⟨s.core.ack nodeKey seq,
      match fromStr nodeKey with
      | .ok name => (name, boot, seq) :: s.acked
      | .error _ => s.acked⟩

def start (localName : Name) (localBoot localSeq : ℕ) : SvsDeferred :=
  ⟨.withBootSeq localName localBoot localSeq, []⟩

/-- Acknowledgements of a producer's publications that one mark can follow: the next publication of
the boot time that is tracked, or one that is not above the mark and not of a newer boot time. The
acknowledgements of other producers' publications are free. -/
def InOrder (p : Name) (s : SvsDeferred) : Event → Prop
  | .mergeDeferred _ => True
  | .ack nodeKey boot seq => fromStr nodeKey = .ok p → s.core.Tracks p →
      (boot = (s.core.slot p).1 ∧ seq ≤ (s.core.slot p).2 + 1) ∨
        (boot < (s.core.slot p).1 ∧ seq ≤ (s.core.slot p).2)

/-- The mark of a producer says what is acknowledged: nothing of a newer boot time, and of its own
boot time exactly what is not above it. -/
structure MarkOk (acked : List (Name × ℕ × ℕ)) (p : Name) (slot : ℕ × ℕ) : Prop where
  boot : ∀ b x, (p, b, x) ∈ acked → b ≤ slot.1
  seq : ∀ x, 1 ≤ x → ((p, slot.1, x) ∈ acked ↔ x ≤ slot.2)

/-- The mark of a producer is right, as long as the producer is in the table or has room there. -/
def Inv (p : Name) (s : SvsDeferred) : Prop :=
  s.core.Tracks p → MarkOk s.acked p (s.core.slot p)

variable {acked : List (Name × ℕ × ℕ)} {p : Name} {slot : ℕ × ℕ}

lemma MarkOk.mergeSlot (h : MarkOk acked p slot) (entry : StateEntry) :
    MarkOk acked p (mergeSlot false slot entry).1 := by
  have hnew : slot.1 < entry.boot → MarkOk acked p (entry.boot, 0) := by
    intro hboot
    refine ⟨fun b x hx => (h.boot b x hx).trans hboot.le, ?_⟩
    intro x hx
    constructor
    · intro hmem
      have hle := h.boot _ _ hmem
      omega
    · intro hzero
      omega
  rcases mergeSlot_cases false slot entry with ⟨hboot, -, heq⟩ | ⟨hboot, -, heq⟩ |
    ⟨-, -, heq⟩ | ⟨-, heq⟩
  · rw [heq]
    exact hnew hboot
  · rw [heq]
    exact hnew hboot
  · rw [heq]
    exact h
  · rw [heq]
    exact h

lemma MarkOk.ack (h : MarkOk acked p slot) {boot seq : ℕ}
    (hord : (boot = slot.1 ∧ seq ≤ slot.2 + 1) ∨ (boot < slot.1 ∧ seq ≤ slot.2)) :
    MarkOk ((p, boot, seq) :: acked) p (slot.1, max slot.2 seq) := by
  refine ⟨?_, ?_⟩
  · intro b x hx
    rcases mem_cons.mp hx with heq | hx
    · simp only [Prod.mk.injEq] at heq
      omega
    · exact h.boot b x hx
  · intro x hx
    have hold := h.seq x hx
    simp only [mem_cons, Prod.mk.injEq, true_and, hold]
    omega

lemma MarkOk.cons_of_ne {name : Name} (h : MarkOk acked p slot) (hne : p ≠ name) (boot seq : ℕ) :
    MarkOk ((name, boot, seq) :: acked) p slot := by
  have hmem : ∀ b x, (p, b, x) ∈ (name, boot, seq) :: acked ↔ (p, b, x) ∈ acked := by
    intro b x
    simp [hne]
  refine ⟨fun b x hx => h.boot b x ((hmem b x).mp hx), ?_⟩
  intro x hx
  rw [hmem]
  exact h.seq x hx

lemma Inv.step {s : SvsDeferred} (h : Inv p s) {e : Event} (he : s.InOrder p e) :
    Inv p (s.step e) := by
  cases e with
  | mergeDeferred received =>
    apply mergeInner_induction (motive := fun c => Inv p ⟨c, s.acked⟩) h
    intro r entry _ hr hp
    have hbef := tracks_of_mergeEntry hp
    have hmark := hr hbef
    simp only [slot_mergeEntry]
    split_ifs with hent
    · rw [← hent.1]
      exact hmark.mergeSlot entry
    · exact hmark
  | ack nodeKey boot seq =>
    intro hp
    have hbef := tracks_of_ack hp
    have hmark := h hbef
    cases hkey : fromStr nodeKey with
    | error e =>
      have hsame : s.step (.ack nodeKey boot seq) = s := by
        simp only [SvsDeferred.step, SvsCore.ack, hkey]
      rw [hsame]
      exact hmark
    | ok name =>
      have hcore : (s.step (.ack nodeKey boot seq)).core = s.core.ack nodeKey seq := rfl
      have hack : (s.step (.ack nodeKey boot seq)).acked = (name, boot, seq) :: s.acked := by
        simp only [SvsDeferred.step, hkey]
      rw [hcore, hack, slot_ack hkey]
      by_cases hname : p = name
      · subst hname
        rw [if_pos ⟨rfl, hbef⟩]
        exact hmark.ack (he hkey hbef)
      · rw [if_neg fun hc => hname hc.1]
        exact hmark.cons_of_ne hname boot seq

lemma inv_start (localName : Name) (localBoot localSeq : ℕ) :
    Inv p (start localName localBoot localSeq) := by
  intro hp
  have hslot : (start localName localBoot localSeq).core.slot p = (0, 0) := by
    have hp' : p ≠ localName := hp.1
    rw [slot, start, get_withBootSeq, if_neg hp']
    rfl
  rw [hslot]
  refine ⟨fun b x hx => absurd hx not_mem_nil, ?_⟩
  intro x hx
  constructor
  · intro hmem
    cases hmem
  · intro hle
    omega

/-! ## What is reported again -/

/-- The gap that a right mark gives for an entry of its boot time, or of a newer one. -/
lemma MarkOk.exists_gap {entry : StateEntry} {q l : ℕ} (h : MarkOk acked entry.name slot)
    (hboot : slot.1 ≤ entry.boot) (hq : 1 ≤ q) (huna : (entry.name, entry.boot, q) ∉ acked)
    (hleas : IsLeast {x | 1 ≤ x ∧ (entry.name, entry.boot, x) ∉ acked} l)
    (hspan : q < l + maxGapSpan) (hseq : q ≤ entry.seq) (hmax : entry.seq ≤ u64Max) :
    ∃ low high, (SvsCore.mergeSlot false slot entry).2 = some (low, high) ∧ low ≤ q ∧ q ≤ high := by
  unfold maxGapSpan at hspan
  rcases mergeSlot_cases false slot entry with ⟨hnew, hone, heq⟩ | ⟨-, hzero, -⟩ |
    ⟨hsame, habov, heq⟩ | ⟨hold, -⟩
  · -- nothing of the newer boot time is acknowledged, so the lowest is 1
    have hfst : (entry.name, entry.boot, 1) ∉ acked := by
      intro hmem
      have hle := h.boot _ _ hmem
      omega
    have hl := hleas.2 ⟨le_refl 1, hfst⟩
    refine ⟨1, clampGapHigh 1 entry.seq, by rw [heq], hq, ?_⟩
    rw [clampGapHigh_eq hmax, maxGapSpan]
    omega
  · omega
  · -- the lowest is the one above the mark
    have hnext : (entry.name, entry.boot, slot.2 + 1) ∉ acked := by
      rw [hsame, h.seq _ (Nat.le_add_left 1 _)]
      omega
    have hl := hleas.2 ⟨Nat.le_add_left 1 _, hnext⟩
    have hmark : ¬ q ≤ slot.2 := by
      rw [← h.seq q hq, ← hsame]
      exact huna
    refine ⟨slot.2 + 1, clampGapHigh (slot.2 + 1) entry.seq, by rw [heq], by omega, ?_⟩
    rw [clampGapHigh_eq hmax, maxGapSpan]
    omega
  · -- the entry would have nothing new
    have hmark : ¬ q ≤ slot.2 ∨ entry.boot ≠ slot.1 := by
      by_cases hsame : entry.boot = slot.1
      · left
        rw [← h.seq q hq, ← hsame]
        exact huna
      · exact .inr hsame
    omega

/-- **Unacknowledged publications are reported again.** Take any run of `merge_deferred` and `ack`
in which a producer's publications are acknowledged in order, whatever is acknowledged of the
others'. Then a publication of the producer that is not acknowledged lies in a gap of every later
`merge_deferred` of a vector whose entry for its producer has the same boot time and at least that
sequence number, up to the length of a gap counted from the lowest publication that is not
acknowledged, provided that no newer boot time of the producer is tracked and that the producer is
in the table, or the table has room for the vector. -/
theorem unacked_in_gap {localName : Name} {localBoot localSeq : ℕ} {s : SvsDeferred}
    {p : Name} (hreach : Run.Reach step (InOrder p) (start localName localBoot localSeq) s)
    {boot q l : ℕ} (hp : p ≠ s.core.localName) (hq : 1 ≤ q) (hunacked : (p, boot, q) ∉ s.acked)
    (hleast : IsLeast {x | 1 ≤ x ∧ (p, boot, x) ∉ s.acked} l) (hspan : q < l + maxGapSpan)
    (hnewer : (s.core.slot p).1 ≤ boot) {received : List StateEntry} {entry : StateEntry}
    (hentry : entry ∈ received) (honly : ∀ e ∈ received, e.name = entry.name → e = entry)
    (hname : entry.name = p) (hboot : entry.boot = boot) (hseq : q ≤ entry.seq)
    (hmax : entry.seq ≤ u64Max)
    (hroom : (s.core.get p).isSome ∨ s.core.vector.length + received.length ≤ maxTrackedProducers) :
    ∃ low high, (Name.display p, low, high) ∈ (s.core.mergeDeferred received).2 ∧
      low ≤ q ∧ q ≤ high := by
  have hinv : Inv p s := hreach.invariant (Inv p) (inv_start _ _ _) fun _ _ h he => h.step he
  subst hname hboot
  have htrk : s.core.Tracks entry.name := by
    refine ⟨hp, hroom.imp id ?_⟩
    intro hlen
    have hpos : 0 < received.length := length_pos_of_mem hentry
    omega
  obtain ⟨low, high, hgap, hlow, hhigh⟩ :=
    (hinv htrk).exists_gap hnewer hq hunacked hleast hspan hseq hmax
  exact ⟨low, high, SvsCore.mem_gaps_of_entry hentry honly hp hroom hgap, hlow, hhigh⟩

/-! ## One producer -/

/-- `/b`, as a name and as the key of its publications. -/
def peer : Name := [.ofText "b"]

/-- A vector with one entry, for `/b`. -/
def vectorOf (boot seq : ℕ) : List StateEntry := [⟨peer, boot, seq⟩]

/-- The node `/a`, and what has been called on it. -/
def after (events : List Event) : SvsDeferred :=
  events.foldl step (start [.ofText "a"] 0 0)

/-- A vector for `/b`, the ninth publication of `/c` acknowledged at once, and the first of `/b`. -/
def outOfOrder : List Event :=
  [.mergeDeferred (vectorOf 0 3), .ack "/c".toList 0 9, .ack "/b".toList 0 1]

/-- The first of three publications is acknowledged; the second is reported again. -/
theorem unacked_in_gap_peer :
    ∃ low high, (Name.display peer, low, high) ∈
      ((after outOfOrder).core.mergeDeferred (vectorOf 0 3)).2 ∧ low ≤ 2 ∧ 2 ≤ high := by
  have hadm : Run.Admits step (InOrder peer) (start [.ofText "a"] 0 0) outOfOrder := by
    refine ⟨trivial, ?_, ?_, trivial⟩
    · intro hkey
      have hother : Name.fromStr "/c".toList ≠ .ok peer := by decide +kernel
      exact absurd hkey hother
    · intro _ _
      decide +kernel
  -- the lowest publication that is not acknowledged is the second
  have hleas : IsLeast {x | 1 ≤ x ∧ (peer, 0, x) ∉ (after outOfOrder).acked} 2 := by
    refine ⟨⟨by omega, by decide +kernel⟩, ?_⟩
    rintro x ⟨hx, huna⟩
    by_contra hlt
    have hone : x = 1 := by omega
    subst hone
    exact huna (by decide +kernel)
  refine unacked_in_gap (Run.Reach.refl.foldl hadm) (by decide +kernel) (by omega)
    (by decide +kernel) hleas (by unfold maxGapSpan; omega) (by decide +kernel)
    (mem_singleton.mpr rfl) ?_ rfl rfl (by decide) (by decide) (by decide +kernel)
  intro e he _
  exact mem_singleton.mp he

/-- **Publications that are never acknowledged and never reported again.** The publication 5 is
acknowledged and 3 is not; an acknowledgement for the first boot time comes after the second boot
time was adopted; and the boot time of a publication is not tracked any more. -/
theorem unacked_hidden :
    ((peer, 0, 3) ∉ (after [.mergeDeferred (vectorOf 0 5), .ack "/b".toList 0 5]).acked ∧
        ((after [.mergeDeferred (vectorOf 0 5), .ack "/b".toList 0 5]).core.mergeDeferred
          (vectorOf 0 5)).2 = []) ∧
      ((peer, 2, 1) ∉ (after [.mergeDeferred (vectorOf 1 9), .mergeDeferred (vectorOf 2 3),
            .ack "/b".toList 1 9]).acked ∧
        ((after [.mergeDeferred (vectorOf 1 9), .mergeDeferred (vectorOf 2 3),
          .ack "/b".toList 1 9]).core.mergeDeferred (vectorOf 2 3)).2 = []) ∧
      ((peer, 1, 1) ∉ (after [.mergeDeferred (vectorOf 1 1), .mergeDeferred (vectorOf 2 1)]).acked ∧
        ((after [.mergeDeferred (vectorOf 1 1), .mergeDeferred (vectorOf 2 1)]).core.mergeDeferred
          (vectorOf 1 1)).2 = []) := by
  decide +kernel

end SvsDeferred

end NdnRs
