import NdnRs.Sync.SvsCore

/-!
# One group of the SVS driver (`ndn-sync/src/svs_sync.rs`, `protocol.rs`)

What a group keeps for each producer: the state vector, the vectors recorded during a suppression
window, the highest numbers observed, and the updates that wait for room in the application's
channel. Timers and what is sent are left out.

## Main results

* `nothingLost_run` — no gap is lost to a full channel.
* `bounded_iff` — when the tables stay bounded.
-/

namespace NdnRs

open List SvsCore Assoc

namespace GroupCore

/-- `SyncUpdate`, without its publisher, which is its key. -/
structure Update where
  name : Name
  lowSeq : ℕ
  highSeq : ℕ
  mapping : Option Bytes

abbrev Pending := List (Str × Update)

end GroupCore

structure GroupCore where
  group : Name
  node : SvsCore
  autoAck : Bool
  suppressing : Bool
  recorded : List (Str × (ℕ × ℕ))
  pending : GroupCore.Pending
  observed : List (Name × (ℕ × ℕ))

namespace GroupCore

def new (group localName : Name) (boot seq : ℕ) (autoAck : Bool) : GroupCore :=
  ⟨group, .withBootSeq localName boot seq, autoAck, false, [], [], []⟩

/-- Keeps the highest boot time and sequence number of a key. -/
def raise {κ : Type} [DecidableEq κ] (key : StateEntry → κ) (m : List (κ × (ℕ × ℕ)))
    (e : StateEntry) : List (κ × (ℕ × ℕ)) :=
  let slot := (m.lookup (key e)).getD (0, 0)
  Assoc.insert (key e)
    (if slot.1 < e.boot ∨ slot.1 = e.boot ∧ slot.2 < e.seq then (e.boot, e.seq) else slot) m

/-- `ObservedState::record`, for each entry. -/
def observe (m : List (Name × (ℕ × ℕ))) (sv : List StateEntry) : List (Name × (ℕ × ℕ)) :=
  sv.foldl (raise StateEntry.name) m

def recordVector (m : List (Str × (ℕ × ℕ))) (sv : List StateEntry) : List (Str × (ℕ × ℕ)) :=
  sv.foldl (raise fun e => e.name.display) m

variable (node : SvsCore) (self : GroupCore) (sv : List StateEntry)

/-- Whether a received vector is behind an own entry; its last entry for a node counts. -/
def behind (e : StateEntry) : Bool :=
  let r := ((sv.reverse.find? fun d => d.name.display = e.name.display).map fun d =>
    (d.boot, d.seq)).getD (0, 0)
  r.1 < e.boot || r.1 = e.boot && r.2 < e.seq

def localAheadOfRemote : Bool :=
  node.stateEntries.any (behind sv)

def remoteCoversLocal : Bool :=
  node.stateEntries.all fun e => !behind sv e

def coalescePending (pending : Pending) (publisher : Str) (u : Update) : Pending :=
  match pending.lookup publisher with
  | some old => Assoc.insert publisher
      ⟨u.name, min old.lowSeq u.lowSeq, max old.highSeq u.highSeq, u.mapping.or old.mapping⟩ pending
  | none => Assoc.insert publisher u pending

/-- `merge` or `merge_deferred`. -/
def merged : SvsCore × List SvsCore.Gap :=
  self.node.mergeInner sv self.autoAck

/-- The loop over the gaps in `on_inbound`. -/
def buffer (mappings : List (Str × Bytes)) (pending : Pending) (gap : SvsCore.Gap) : Pending :=
  if gap.1 = self.node.localName.display then pending
  else
    let name := (Name.fromStr gap.1).toOption.getD (self.group ++ [.generic gap.1.bytes])
    coalescePending pending gap.1 ⟨name, gap.2.1, gap.2.2, mappings.lookup gap.1⟩

/-- `decode_state_vector`, with the entries on the wire: a vector of too many is rejected. -/
def decodeStateVector (entries : List StateEntry) : Option (List StateEntry) :=
  if entries.length > maxTrackedProducers then none else some entries

/-- `on_inbound` for a vector that was decoded. -/
def onVector (mappings : List (Str × Bytes)) : GroupCore :=
  let ahead := localAheadOfRemote self.node sv
  let quiet := !ahead && remoteCoversLocal self.node sv
  { self with
    node := (self.merged sv).1
    observed := observe self.observed sv
    pending := (self.merged sv).2.foldl (self.buffer mappings) self.pending
    recorded := if ahead then recordVector self.recorded sv else if quiet then [] else self.recorded
    suppressing := if ahead then true else if quiet then false else self.suppressing }

/-- `on_inbound`, with the entries and the mappings of an authenticated Interest. -/
def onInbound (mappings : List (Str × Bytes)) : GroupCore :=
  match decodeStateVector sv with
  | none => self
  | some sv => self.onVector sv mappings

/-- `drain_pending_try`: what the channel takes is delivered; the rest stays. -/
def drainPendingTry (takes : Str → Bool) : GroupCore × Pending × Bool :=
  let rest := self.pending.filter fun u => !takes u.1
  ({ self with pending := rest }, self.pending.filter fun u => takes u.1, !rest.isEmpty)

inductive Event where
  | inbound (sv : List StateEntry) (mappings : List (Str × Bytes))
  | drain (takes : Str → Bool)

/-- A group with all gaps that `merge` has returned and all updates delivered. -/
structure Traffic where
  core : GroupCore
  gaps : List SvsCore.Gap
  delivered : Pending

def step (s : Traffic) : Event → Traffic
  | .inbound sv mappings =>
    { s with
      core := s.core.onInbound sv mappings
      gaps := s.gaps ++ ((decodeStateVector sv).map fun sv => (s.core.merged sv).2).getD [] }
  | .drain takes =>
    let r := s.core.drainPendingTry takes
    { s with core := r.1, delivered := s.delivered ++ r.2.1 }

/-! ## Nothing is lost -/

/-- A sequence number of a publisher waits to be delivered. -/
def Waits (pending : Pending) (publisher : Str) (x : ℕ) : Prop :=
  ∃ u, pending.lookup publisher = some u ∧ u.lowSeq ≤ x ∧ x ≤ u.highSeq

variable {self : GroupCore} {sv : List StateEntry} {pending : Pending} {k : Str} {x : ℕ}
  {names : List Name} {mappings : List (Str × Bytes)} {κ : Type}

/-- Gaps are about tracked producers other than the node itself. -/
lemma merged_spec : (self.merged sv).1.localName = self.node.localName ∧
    ∀ gap ∈ (self.merged sv).2, ∃ name ≠ self.node.localName,
      name ∈ (self.merged sv).1.producers ∧ gap.1 = name.display := by
  refine foldlRecOn sv (mergeEntry self.autoAck) (motive := fun s =>
    s.1.localName = self.node.localName ∧ ∀ gap ∈ s.2, ∃ name ≠ self.node.localName,
      name ∈ s.1.producers ∧ gap.1 = name.display) ?_ fun s hs e _ => ?_
  · exact ⟨rfl, fun _ h => absurd h not_mem_nil⟩
  refine ⟨(localName_mergeEntry ..).trans hs.1, fun gap hgap => ?_⟩
  unfold mergeEntry at hgap ⊢
  split_ifs at hgap ⊢ with htrk
  · simp only [mem_producers_set]
    rcases mem_append.mp hgap with hgap | hgap
    · obtain ⟨name, hne, hmem, hkey⟩ := hs.2 gap hgap
      exact ⟨name, hne, .inr hmem, hkey⟩
    · obtain ⟨r, -, rfl⟩ := mem_map.mp hgap
      exact ⟨e.name, hs.1 ▸ htrk.1, .inl rfl, rfl⟩
  · exact hs.2 gap hgap

lemma waits_coalescePending {key : Str} {u : Update}
    (h : Waits pending k x ∨ k = key ∧ u.lowSeq ≤ x ∧ x ≤ u.highSeq) :
    Waits (coalescePending pending key u) k x := by
  unfold coalescePending Waits at *
  split <;> rw [lookup_insert] <;> grind

lemma waits_foldl_buffer (gaps : List SvsCore.Gap)
    (h : Waits pending k x ∨ k ≠ self.node.localName.display ∧
      ∃ gap ∈ gaps, gap.1 = k ∧ gap.2.1 ≤ x ∧ x ≤ gap.2.2) :
    Waits (gaps.foldl (self.buffer mappings) pending) k x := by
  induction gaps generalizing pending with
  | nil => simpa using h
  | cons gap gaps ih =>
    apply ih
    rw [buffer]
    split_ifs with hown
    · grind
    · rcases h with h | ⟨hk, g, hg, rfl, hx⟩
      · exact .inl (waits_coalescePending (.inl h))
      · rcases mem_cons.mp hg with rfl | hg
        · exact .inl (waits_coalescePending (.inr ⟨rfl, hx⟩))
        · exact .inr ⟨hk, g, hg, rfl, hx⟩

lemma nodup_foldl_buffer (gaps : List SvsCore.Gap) (h : Keyed pending) :
    Keyed (gaps.foldl (self.buffer mappings) pending) := by
  refine foldlRecOn gaps _ (motive := fun p : Pending => Keyed p) h
    fun p hp gap _ => ?_
  unfold buffer coalescePending
  split_ifs
  · exact hp
  · dsimp only
    split <;> exact nodup_keys_insert _ _ hp

/-- Every sequence number of every gap is in an update delivered, or in the one entry that waits for
its publisher. -/
def NothingLost (s : Traffic) : Prop :=
  Keyed s.core.pending ∧ ∀ gap ∈ s.gaps, ∀ x, gap.2.1 ≤ x → x ≤ gap.2.2 →
    (∃ u ∈ s.delivered, u.1 = gap.1 ∧ u.2.lowSeq ≤ x ∧ x ≤ u.2.highSeq) ∨
      Waits s.core.pending gap.1 x

/-- **No sequence number is lost** while the channel is full. -/
theorem nothingLost_run (group localName : Name) (boot seq : ℕ) (autoAck : Bool)
    (events : List Event) :
    NothingLost (events.foldl step ⟨new group localName boot seq autoAck, [], []⟩) := by
  refine foldlRecOn events step ⟨nodup_nil, fun _ h => absurd h not_mem_nil⟩ fun s hs event _ => ?_
  cases event with
  | inbound sv mappings =>
    simp only [step, onInbound]
    cases decodeStateVector sv with
    | none => simpa using hs
    | some sv =>
    refine ⟨nodup_foldl_buffer _ hs.1, fun gap hgap x hlo hhi => ?_⟩
    rcases mem_append.mp hgap with hgap | hgap
    · exact (hs.2 gap hgap x hlo hhi).imp_right fun h => waits_foldl_buffer _ (.inl h)
    · obtain ⟨name, hne, -, hkey⟩ := merged_spec.2 gap hgap
      refine .inr (waits_foldl_buffer _ (.inr ⟨fun hown => hne ?_, gap, hgap, rfl, hlo, hhi⟩))
      exact Name.eq_of_display_eq (hkey.symm.trans hown)
  | drain takes =>
    refine ⟨hs.1.sublist (filter_sublist.map _), fun gap hgap x hlo hhi => ?_⟩
    rcases hs.2 gap hgap x hlo hhi with ⟨u, hu, h⟩ | ⟨u, hu, h⟩
    · exact .inl ⟨u, mem_append_left _ hu, h⟩
    have hmem := (Assoc.lookup_eq_some_iff hs.1).mp hu
    cases htake : takes gap.1 with
    | true => exact .inl ⟨_, mem_append_right _ (mem_filter.mpr ⟨hmem, htake⟩), rfl, h⟩
    | false =>
      refine .inr ⟨u, (Assoc.lookup_eq_some_iff (hs.1.sublist (filter_sublist.map _))).mpr ?_, h⟩
      exact mem_filter.mpr ⟨hmem, by simp [htake]⟩

/-! ## What a peer can make a group keep -/

/-- Each of the four tables has at most as many producers as a vector may track. -/
def Bounded (self : GroupCore) : Prop :=
  self.node.vector.length ≤ maxTrackedProducers ∧ self.recorded.length ≤ maxTrackedProducers ∧
    self.observed.length ≤ maxTrackedProducers ∧ self.pending.length ≤ maxTrackedProducers

/-- The producers that an Interest names, unless its vector is rejected. -/
def named : Event → List Name
  | .inbound sv _ => ((decodeStateVector sv).getD []).map StateEntry.name
  | .drain _ => []

/-- The tables of a group that has seen some names. -/
structure Kept (names : List Name) (g : GroupCore) : Prop where
  vector : g.node.producers.Nodup ∧ g.node.vector.length ≤ maxTrackedProducers
  observed : Keyed g.observed ∧ ∀ n, n ∈ g.observed.map Prod.fst ↔ n ∈ names
  recorded : Keyed g.recorded ∧ g.recorded.map Prod.fst ⊆ names.map Name.display
  pending : Keyed g.pending ∧
    g.pending.map Prod.fst ⊆ g.node.producers.map Name.display

lemma raise_spec [DecidableEq κ] (key : StateEntry → κ) (sv : List StateEntry)
    {m : List (κ × (ℕ × ℕ))} (h : Keyed m) :
    Keyed (sv.foldl (raise key) m) ∧ ∀ k, k ∈ (sv.foldl (raise key) m).map Prod.fst ↔
      k ∈ m.map Prod.fst ∨ k ∈ sv.map key := by
  induction sv generalizing m with
  | nil => simpa using h
  | cons e sv ih =>
    obtain ⟨hnd, hmem⟩ := ih (nodup_keys_insert (k := key e) _ h)
    refine ⟨hnd, fun k => (hmem k).trans ?_⟩
    rw [mem_keys_insert, map_cons, mem_cons]
    tauto

lemma merged_vector (sv : List StateEntry)
    (h : self.node.producers.Nodup ∧ self.node.vector.length ≤ maxTrackedProducers) :
    ((self.merged sv).1.producers.Nodup ∧ (self.merged sv).1.vector.length ≤ maxTrackedProducers) ∧
      self.node.producers ⊆ (self.merged sv).1.producers := by
  refine mergeInner_induction (motive := fun c => (c.producers.Nodup ∧ c.vector.length ≤
    maxTrackedProducers) ∧ self.node.producers ⊆ c.producers) ⟨h, fun _ h => h⟩ fun s e _ hs => ?_
  unfold mergeEntry
  split_ifs with htrk
  · refine ⟨⟨nodup_producers_set _ _ _ hs.1.1, ?_⟩, fun n hn =>
      (mem_producers_set ..).mpr (.inr (hs.2 hn))⟩
    show (Assoc.insert ..).length ≤ _
    rw [← length_map (f := Prod.fst), keys_insert]
    split_ifs with hmem
    · simpa using hs.1.2
    · have hnew := get_eq_none_iff.mpr hmem
      simpa [hnew] using htrk.2
  · exact hs

lemma kept_step {s : Traffic} (h : Kept names s.core) (event : Event) :
    Kept (names ++ named event) (step s event).core := by
  cases event with
  | inbound sv mappings =>
    simp only [step, onInbound, named]
    cases decodeStateVector sv with
    | none => simpa using h
    | some sv =>
    obtain ⟨hvec, hgrow⟩ := merged_vector sv h.vector
    obtain ⟨hobs, hobs'⟩ := raise_spec StateEntry.name sv h.observed.1
    obtain ⟨hrec, hrec'⟩ := raise_spec (fun e => e.name.display) sv h.recorded.1
    refine ⟨hvec, ⟨hobs, fun n => (hobs' n).trans ?_⟩, ?_, nodup_foldl_buffer _ h.pending.1, ?_⟩
    · rw [h.observed.2, mem_append]
      rfl
    · simp only [onVector]
      split_ifs
      · refine ⟨hrec, fun k hk => ?_⟩
        rw [map_append, mem_append, Option.getD_some, map_map]
        exact ((hrec' k).mp hk).imp_left (h.recorded.2 ·)
      · simp
      · exact ⟨h.recorded.1, fun k hk => map_subset _ (subset_append_left ..) (h.recorded.2 hk)⟩
    · refine foldlRecOn _ (s.core.buffer mappings) (motive := fun p : Pending =>
        p.map Prod.fst ⊆ (s.core.merged sv).1.producers.map Name.display)
        (fun k hk => map_subset _ hgrow (h.pending.2 hk)) fun p hp gap hgap => ?_
      obtain ⟨name, -, hname, hkey⟩ := merged_spec.2 gap hgap
      unfold buffer coalescePending
      split_ifs
      · exact hp
      dsimp only
      split <;>
      · intro k hk
        rcases (mem_keys_insert ..).mp hk with rfl | hk
        · exact hkey ▸ mem_map_of_mem hname
        · exact hp hk
  | drain takes =>
    rw [named, append_nil]
    exact ⟨h.vector, h.observed, h.recorded, h.pending.1.sublist (filter_sublist.map _),
      fun _ hk => h.pending.2 ((filter_sublist.map _).subset hk)⟩

lemma kept_new (group localName : Name) (boot seq : ℕ) (autoAck : Bool) :
    Kept [] (new group localName boot seq autoAck) := by
  refine ⟨⟨?_, ?_⟩, by simp [new], by simp [new], by simp [new]⟩ <;>
    simp [new, producers, withBootSeq, maxTrackedProducers]

lemma Kept.length_dedup_le (h : Kept names self) : names.dedup.length ≤ self.observed.length := by
  have hsub : names.dedup ⊆ self.observed.map Prod.fst := fun n hn =>
    (h.observed.2 n).mpr (mem_dedup.mp hn)
  simpa using (subperm_of_subset (nodup_dedup _) hsub).length_le

lemma length_le_dedup {keys : List κ} {f : Name → κ}
    (hnd : keys.Nodup) (h : keys ⊆ names.map f) : keys.length ≤ names.dedup.length := by
  have hsub : keys ⊆ names.dedup.map f := fun k hk => by simpa using h hk
  simpa using (subperm_of_subset hnd hsub).length_le

lemma kept_run (group localName : Name) (boot seq : ℕ) (autoAck : Bool) (events : List Event) :
    Kept (events.flatMap named)
      (events.foldl step ⟨new group localName boot seq autoAck, [], []⟩).core := by
  induction events using reverseRecOn with
  | nil => exact kept_new ..
  | append_singleton events event ih =>
    rw [flatMap_append, flatMap_singleton, foldl_append]
    exact kept_step ih event

/-- **What a group keeps is bounded** iff its peers name no more producers than may be tracked, in
the vectors that are not rejected. -/
theorem bounded_iff (group localName : Name) (boot seq : ℕ) (autoAck : Bool) (events : List Event) :
    (∀ done, done <+: events →
      Bounded (done.foldl step ⟨new group localName boot seq autoAck, [], []⟩).core) ↔
    (events.flatMap named).dedup.length ≤ maxTrackedProducers := by
  constructor
  · exact fun h => (kept_run ..).length_dedup_le.trans (h events (prefix_refl _)).2.2.1
  rintro hle done ⟨rest, rfl⟩
  have h := kept_run group localName boot seq autoAck done
  rw [flatMap_append] at hle
  have hnames := subset_append_left (done.flatMap named) (rest.flatMap named)
  refine ⟨h.vector.2, ?_, ?_, ?_⟩
  · simpa using (length_le_dedup h.recorded.1 fun k hk =>
      map_subset _ hnames (h.recorded.2 hk)).trans hle
  · simpa using (length_le_dedup (f := id) h.observed.1 fun n hn => by
      simpa using Or.inl ((h.observed.2 n).mp hn)).trans hle
  · simpa [producers] using ((length_le_dedup h.pending.1 h.pending.2).trans
      (dedup_sublist _).length_le).trans ((length_map _).trans_le h.vector.2)

namespace Sample

/-- A producer whose name has the two bytes of a number. -/
def producer (i : ℕ) : Name := [.generic [UInt8.ofNat (i / 256), UInt8.ofNat i]]

/-- A Sync Interest that names one producer. -/
def interest (i : ℕ) : Event := .inbound [⟨producer i, 0, 0⟩] []

lemma flatMap_named (l : List ℕ) : (l.map interest).flatMap named = l.map producer := by
  induction l with
  | nil => rfl
  | cons i l ih =>
    rw [map_cons, flatMap_cons, ih]
    rfl

lemma nodup_producers {n : ℕ} (h : n ≤ 2 ^ 16) : ((range n).map producer).Nodup := by
  refine nodup_range.map_on fun i hi j hj hij => ?_
  rw [mem_range] at hi hj
  obtain ⟨hhigh, hlow⟩ : UInt8.ofNat (i / 256) = UInt8.ofNat (j / 256) ∧
      UInt8.ofNat i = UInt8.ofNat j := by
    simpa [producer, NameComponent.generic] using hij
  have hhigh := congrArg UInt8.toNat hhigh
  have hlow := congrArg UInt8.toNat hlow
  rw [UInt8.toNat_ofNat', UInt8.toNat_ofNat'] at hhigh hlow
  omega

end Sample

/-- **Producers without bound.** A peer sends 16385 Sync Interests, each with a producer of its
own. -/
theorem observed_unbounded :
    ¬ Bounded
      (((range 16385).map Sample.interest).foldl step ⟨new [] [] 0 0 true, [], []⟩).core := by
  intro h
  have hle := (kept_run [] [] 0 0 true ((range 16385).map Sample.interest)).length_dedup_le.trans
    h.2.2.1
  rw [Sample.flatMap_named, (Sample.nodup_producers (by decide)).dedup, length_map, length_range]
    at hle
  exact absurd hle (by decide)

end GroupCore

end NdnRs
