import NdnRs.Lib.Chunks
import NdnRs.Packet.Lp

/-!
# Fragmentation and reassembly (`ndn-packet/src/fragment.rs`)

A packet is cut into chunks, one to a frame; the receiver keeps the chunks of each packet in slots
until all of them are there.

## Implementation notes

Times are read once for each call and passed in. The table is a list of groups by key, and a group
that has to make room is the first of the oldest in that list: the order in which the source's hash
map is walked is not specified.

## Main results

* `account_run` — every fragment is accounted for.
-/

namespace NdnRs

open Bytes Tlv Lp List Option Chunks TlvType

namespace Fragment

def fragOverhead : ℕ := 50

/-- `&packet[start..end]` for the chunk at an index. -/
def chunkAt (payloadCap : ℕ) (packet : Bytes) (i : ℕ) : Bytes :=
  let start := i * payloadCap
  let stop := min (start + payloadCap) packet.length
  (packet.take stop).drop start

/-- The elements of a fragment; the Sequence is an unsigned 64-bit sum. -/
def fragmentElements (baseSeq fragCount i : ℕ) (chunk : Bytes) : List (ℕ × Bytes) :=
  [(lpSequence, beBytes 8 (baseSeq + i)), (lpFragIndex, beBytes 8 i),
    (lpFragCount, beBytes 8 fragCount), (lpFragment, chunk)]

def fragmentPacket (packet : Bytes) (mtu baseSeq : ℕ) : List Bytes :=
  let payloadCap := max (mtu - fragOverhead) 1
  let fragCount := Chunks.count payloadCap packet.length
  (List.range fragCount).map fun i =>
    writeTlv lpPacket
      (writeTlvs (fragmentElements baseSeq fragCount i (chunkAt payloadCap packet i)))

lemma chunkAt_eq (payloadCap : ℕ) (packet : Bytes) (i : ℕ) :
    chunkAt payloadCap packet i = chunk payloadCap packet i := by
  rw [chunkAt, chunk, drop_take]
  apply take_eq_take_iff.mpr
  rw [length_drop]
  omega

end Fragment

/-! ## Groups -/

/-- `Pending`: one slot for each fragment, and the number of filled ones. -/
structure Pending where
  fragments : List (Option Bytes)
  fragCount : ℕ
  received : ℕ
  created : ℕ
  length_eq : fragments.length = fragCount
  received_eq : received = fragments.countP Option.isSome

namespace Pending

def new (fragCount created : ℕ) : Pending where
  fragments := .replicate fragCount none
  fragCount := fragCount
  received := 0
  created := created
  length_eq := by simp
  received_eq := by simp [List.countP_replicate]

variable (self : Pending)

def isFree (idx : ℕ) : Bool := self.fragments[idx]? = some none

/-- Fills a slot, or overwrites it. -/
def store (idx : ℕ) (fragment : Bytes) : Pending where
  fragments := self.fragments.set idx (some fragment)
  fragCount := self.fragCount
  received := if self.isFree idx then self.received + 1 else self.received
  created := self.created
  length_eq := by rw [List.length_set, self.length_eq]
  received_eq := by
    by_cases hidx : idx < self.fragments.length
    · have hpos : 0 < self.fragments.countP Option.isSome ∨ self.fragments[idx] = none := by
        by_cases hnone : self.fragments[idx] = none
        · exact .inr hnone
        · exact .inl (List.countP_pos_iff.mpr
            ⟨_, List.getElem_mem hidx, Option.isSome_iff_ne_none.mpr hnone⟩)
      rw [List.countP_set hidx, self.received_eq, isFree, List.getElem?_eq_getElem hidx]
      cases hslot : self.fragments[idx] with
      | none => simp
      | some old =>
        have := hpos.resolve_right (by simp [hslot])
        simp
        omega
    · rw [List.set_eq_of_length_le (by omega), self.received_eq, isFree,
        List.getElem?_eq_none (by omega)]
      simp

lemma received_store (idx : ℕ) (fragment : Bytes) :
    (self.store idx fragment).received = self.received + if self.isFree idx then 1 else 0 := by
  rw [store]
  split_ifs <;> rfl

def packet : Bytes := (self.fragments.map fun f => f.getD []).flatten

lemma length_packet_new (fragCount created : ℕ) : (new fragCount created).packet.length = 0 := by
  simp [packet, new]

lemma length_packet_store_le (idx : ℕ) (fragment : Bytes) :
    (self.store idx fragment).packet.length ≤ self.packet.length + fragment.length := by
  show ((self.fragments.set idx (some fragment)).map fun f => f.getD []).flatten.length ≤
    (self.fragments.map fun f => f.getD []).flatten.length + fragment.length
  generalize self.fragments = slots
  induction slots generalizing idx with
  | nil => simp
  | cons slot slots ih =>
    cases idx with
    | zero =>
      simp only [set_cons_zero, map_cons, flatten_cons, length_append, getD_some]
      omega
    | succ idx =>
      have := ih idx
      simp only [set_cons_succ, map_cons, flatten_cons, length_append]
      omega

end Pending

/-! ## The buffer -/

structure ReassemblyStats where
  fragmentsIn : ℕ
  completed : ℕ
  timedOut : ℕ
  fragmentsWasted : ℕ
  fragmentsRejected : ℕ
  groupsEvicted : ℕ

/-- `ReassemblyBuffer`: the groups by sender and first Sequence. -/
structure ReassemblyBuffer where
  pending : List ((ℕ × ℕ) × Pending)
  timeout : ℕ
  stats : ReassemblyStats

namespace ReassemblyBuffer

def maxFragments : ℕ := 400

def maxPendingPackets : ℕ := 1024

def new (timeout : ℕ) : ReassemblyBuffer := ⟨[], timeout, ⟨0, 0, 0, 0, 0, 0⟩⟩

variable (self : ReassemblyBuffer)

/-- The group has not sat for the timeout. -/
def isLive (now : ℕ) (group : Pending) : Bool :=
  now - group.created < self.timeout

def purgeExpired (now : ℕ) : ReassemblyBuffer :=
  let dead := self.pending.filter fun x => !self.isLive now x.2
  { self with
    pending := self.pending.filter fun x => self.isLive now x.2
    stats := { self.stats with
      timedOut := self.stats.timedOut + dead.length
      fragmentsWasted := self.stats.fragmentsWasted + (dead.map fun x => x.2.received).sum } }

def oldest : List ((ℕ × ℕ) × Pending) → Option ((ℕ × ℕ) × Pending)
  | [] => none
  | x :: xs =>
    some (xs.foldl (fun best y => if y.2.created < best.2.created then y else best) x)

def evictOldest : ReassemblyBuffer :=
  match oldest self.pending with
  | some (key, dropped) =>
    { self with
      pending := Assoc.erase key self.pending
      stats := { self.stats with
        groupsEvicted := self.stats.groupsEvicted + 1
        fragmentsWasted := self.stats.fragmentsWasted + dropped.received } }
  | none => self

/-- Makes room for a new group: the expired groups go, and if that is not enough the oldest. -/
def makeRoom (now : ℕ) : ReassemblyBuffer :=
  let self := self.purgeExpired now
  if self.pending.length ≥ maxPendingPackets then self.evictOldest else self

/-- A fragment that is refused. -/
def reject : ReassemblyBuffer :=
  { self with stats := { self.stats with fragmentsRejected := self.stats.fragmentsRejected + 1 } }

/-- A new group finds the table full. -/
def isFull (key : ℕ × ℕ) : Bool :=
  (self.pending.lookup key).isNone && self.pending.length ≥ maxPendingPackets

def put (key : ℕ × ℕ) (entry : Pending) (fragIndex : ℕ)
    (fragment : Bytes) : ReassemblyBuffer × Option Bytes :=
  let stats := { self.stats with
    fragmentsIn := self.stats.fragmentsIn + if entry.isFree fragIndex then 1 else 0 }
  let entry := entry.store fragIndex fragment
  if entry.received = entry.fragCount then
    ({ self with
        pending := Assoc.erase key self.pending
        stats := { stats with completed := stats.completed + 1 } }, some entry.packet)
  else ({ self with pending := Assoc.insert key entry self.pending, stats := stats }, none)

def process (now endpointId seq fragIndex fragCount : ℕ)
    (fragment : Bytes) : ReassemblyBuffer × Option Bytes :=
  if fragCount = 0 ∨ fragCount > maxFragments then (self.reject, none)
  else if fragIndex ≥ fragCount then (self.reject, none)
  else
    let key := (endpointId, seq)
    let self := if self.isFull key then self.makeRoom now else self
    let entry := (self.pending.lookup key).getD (.new fragCount now)
    let self := { self with pending := Assoc.insert key entry self.pending }
    if entry.fragCount ≠ fragCount ∨ fragIndex ≥ entry.fragCount then (self.reject, none)
    else self.put key entry fragIndex fragment

/-- `try_collect_fragment`, on the buffer of the face: `error` hands back a frame that is not one
fragment of several. -/
def tryCollectFragment (now endpointId : ℕ) (raw : Bytes) :
    ReassemblyBuffer × Except Bytes (Option Bytes) :=
  match extractFragment raw with
  | none => (self, .error raw)
  | some hdr =>
    if hdr.fragIndex ≤ hdr.sequence then
      let (self, out) := self.process now endpointId (hdr.sequence - hdr.fragIndex) hdr.fragIndex
        hdr.fragCount (hdr.fragment raw)
      (self, .ok out)
    else (self, .ok none)

/-! ### One fragment -/

section Process

variable {self : ReassemblyBuffer} {now endpointId seq fragIndex fragCount : ℕ} {fragment : Bytes}

lemma lookup_put (self : ReassemblyBuffer) (key key' : ℕ × ℕ) (entry : Pending) (fragIndex : ℕ)
    (fragment : Bytes) :
    (self.put key entry fragIndex fragment).1.pending.lookup key' =
      if key' = key then
        if (entry.store fragIndex fragment).received = entry.fragCount then none
        else some (entry.store fragIndex fragment)
      else self.pending.lookup key' := by
  have hcnt : (entry.store fragIndex fragment).fragCount = entry.fragCount := rfl
  rw [put]
  simp only [hcnt]
  by_cases hdone : (entry.store fragIndex fragment).received = entry.fragCount
  · simp only [if_pos hdone]
    exact Assoc.lookup_erase key key' self.pending
  · simp only [if_neg hdone]
    exact Assoc.lookup_insert key key' _ self.pending

lemma lookup_process_other (hroom : self.isFull (endpointId, seq) = false) {key : ℕ × ℕ}
    (hkey : key ≠ (endpointId, seq)) :
    (self.process now endpointId seq fragIndex fragCount fragment).1.pending.lookup key =
      self.pending.lookup key := by
  rw [process]
  split_ifs
  · rfl
  · rfl
  · simp only [hroom, Bool.false_eq_true, if_false]
    split_ifs
    · exact (Assoc.lookup_insert _ key _ self.pending).trans (if_neg hkey)
    · rw [lookup_put, if_neg hkey]
      exact (Assoc.lookup_insert _ key _ self.pending).trans (if_neg hkey)

lemma process_of_lookup (hroom : self.isFull (endpointId, seq) = false)
    (hmany : 0 < fragCount ∧ fragCount ≤ maxFragments) (hidx : fragIndex < fragCount)
    {entry : Pending}
    (hent : (self.pending.lookup (endpointId, seq)).getD (.new fragCount now) = entry)
    (hcnt : entry.fragCount = fragCount) :
    self.process now endpointId seq fragIndex fragCount fragment =
      put { self with pending := Assoc.insert (endpointId, seq) entry self.pending }
        (endpointId, seq) entry fragIndex fragment := by
  rw [process, if_neg (by omega), if_neg (by omega)]
  simp only [hroom, Bool.false_eq_true, if_false, hent]
  rw [if_neg (by omega)]

end Process

/-! ### The bytes that are held -/

def heldBytes : ℕ := Assoc.total (fun p => p.packet.length) self.pending

/-- The group at a key has all fragments but the one at an index. -/
def lacksOnly (key : ℕ × ℕ) (fragIndex : ℕ) : Bool :=
  (self.pending.lookup key).any fun entry =>
    entry.received + (if entry.isFree fragIndex then 1 else 0) = entry.fragCount

section Held

variable {self : ReassemblyBuffer} {now endpointId seq fragIndex fragCount : ℕ} {fragment : Bytes}

lemma makeRoom_sublist (self : ReassemblyBuffer) (now : ℕ) :
    (self.makeRoom now).pending.Sublist self.pending := by
  have hpur : (self.purgeExpired now).pending.Sublist self.pending := filter_sublist
  rw [makeRoom]
  split_ifs
  · rw [evictOldest]
    split
    · exact filter_sublist.trans hpur
    · exact hpur
  · exact hpur

/-- **What one fragment does.** It is refused at once; or its group is opened, after room was made
if need be, and then it is refused, which only a group that was there before can do, or put into the
group. -/
lemma process_cases (self : ReassemblyBuffer) (now endpointId seq fragIndex fragCount : ℕ)
    (fragment : Bytes) :
    self.process now endpointId seq fragIndex fragCount fragment = (self.reject, none) ∨
    ∃ rb entry, rb = (if self.isFull (endpointId, seq) then self.makeRoom now else self) ∧
      entry = (rb.pending.lookup (endpointId, seq)).getD (.new fragCount now) ∧
      (rb.pending.lookup (endpointId, seq) = some entry ∧
        self.process now endpointId seq fragIndex fragCount fragment =
          (reject { rb with pending := Assoc.insert (endpointId, seq) entry rb.pending }, none) ∨
        entry.fragCount = fragCount ∧ fragIndex < fragCount ∧
        self.process now endpointId seq fragIndex fragCount fragment =
          put { rb with pending := Assoc.insert (endpointId, seq) entry rb.pending }
            (endpointId, seq) entry fragIndex fragment) := by
  rw [process]
  by_cases hcnt : fragCount = 0 ∨ fragCount > maxFragments
  · exact .inl (if_pos hcnt)
  rw [if_neg hcnt]
  by_cases hidx : fragIndex ≥ fragCount
  · exact .inl (if_pos hidx)
  rw [if_neg hidx]
  refine .inr ⟨_, _, rfl, rfl, ?_⟩
  simp only
  generalize (if self.isFull (endpointId, seq) then self.makeRoom now else self) = rb
  generalize hget : (rb.pending.lookup (endpointId, seq)).getD (.new fragCount now) = entry
  by_cases hent : entry.fragCount ≠ fragCount ∨ fragIndex ≥ entry.fragCount
  · refine .inl ⟨?_, if_pos hent⟩
    cases hlk : rb.pending.lookup (endpointId, seq) with
    | some group => rw [← hget, hlk, getD_some]
    | none =>
      have hnew : entry.fragCount = fragCount := by
        rw [← hget, hlk]
        rfl
      omega
  · exact .inr ⟨by omega, by omega, if_neg hent⟩

lemma heldBytes_put_le {key : ℕ × ℕ} {entry : Pending}
    (hent : self.pending.lookup key = some entry) (fragIndex : ℕ) (fragment : Bytes) :
    (self.put key entry fragIndex fragment).1.heldBytes +
        ((self.put key entry fragIndex fragment).2.map length).getD 0 ≤
      self.heldBytes + fragment.length := by
  have hstr := entry.length_packet_store_le fragIndex fragment
  have heras := Assoc.total_erase_add_le (fun p => p.packet.length) hent
  have hins := Assoc.total_insert (fun p => p.packet.length) key
    (entry.store fragIndex fragment) self.pending
  rw [hent, map_some, getD_some] at hins
  rw [put]
  by_cases hdone : (entry.store fragIndex fragment).received =
      (entry.store fragIndex fragment).fragCount
  · rw [if_pos hdone, map_some, getD_some]
    simp only [heldBytes]
    omega
  · rw [if_neg hdone, map_none, getD_none]
    simp only [heldBytes]
    omega

lemma heldBytes_open (self : ReassemblyBuffer) (key : ℕ × ℕ) (fragCount now : ℕ) :
    heldBytes { self with
      pending := Assoc.insert key ((self.pending.lookup key).getD (.new fragCount now))
        self.pending } = self.heldBytes := by
  have hins := Assoc.total_insert (fun p => p.packet.length) key
    ((self.pending.lookup key).getD (.new fragCount now)) self.pending
  have hnew := Pending.length_packet_new fragCount now
  simp only [heldBytes]
  cases hlk : self.pending.lookup key with
  | none =>
    rw [hlk, map_none, getD_none, getD_none] at hins
    rw [getD_none]
    omega
  | some entry =>
    rw [hlk, map_some, getD_some, getD_some] at hins
    rw [getD_some]
    omega

/-- **One fragment, by the bytes.** What is held and what comes out are at most what was held and
the fragment. -/
theorem heldBytes_process_le (self : ReassemblyBuffer)
    (now endpointId seq fragIndex fragCount : ℕ) (fragment : Bytes) :
    (self.process now endpointId seq fragIndex fragCount fragment).1.heldBytes +
        ((self.process now endpointId seq fragIndex fragCount fragment).2.map length).getD 0 ≤
      self.heldBytes + fragment.length := by
  have hrej : ∀ rb : ReassemblyBuffer, rb.reject.heldBytes = rb.heldBytes := fun _ => rfl
  obtain h | ⟨rb, entry, hrb, rfl, h⟩ :=
    self.process_cases now endpointId seq fragIndex fragCount fragment
  · rw [h, hrej, map_none, getD_none]
    omega
  have hle : rb.heldBytes ≤ self.heldBytes := by
    rw [hrb]
    split_ifs
    · exact Assoc.total_le_of_sublist _ (self.makeRoom_sublist now)
    · exact le_rfl
  have hopen := heldBytes_open rb (endpointId, seq) fragCount now
  rcases h with ⟨-, h⟩ | ⟨-, -, h⟩
  · rw [h, hrej, hopen, map_none, getD_none]
    omega
  · rw [h]
    refine (heldBytes_put_le ?_ fragIndex fragment).trans ?_
    · exact (Assoc.lookup_insert _ _ _ rb.pending).trans (if_pos rfl)
    · omega

/-- **When a packet comes out.** Its group had all the other fragments. -/
theorem lacksOnly_of_process (hmany : 1 < fragCount) {packet : Bytes}
    (h : (self.process now endpointId seq fragIndex fragCount fragment).2 = some packet) :
    self.lacksOnly (endpointId, seq) fragIndex = true := by
  obtain hcase | ⟨rb, entry, hrb, hent, ⟨-, hcase⟩ | ⟨hcnt, -, hcase⟩⟩ :=
    self.process_cases now endpointId seq fragIndex fragCount fragment
  · rw [hcase] at h
    cases h
  · rw [hcase] at h
    cases h
  have hdone : (entry.store fragIndex fragment).received =
      (entry.store fragIndex fragment).fragCount := by
    by_contra hopen
    rw [hcase, put] at h
    rw [if_neg hopen] at h
    cases h
  have hrcv : entry.received + (if entry.isFree fragIndex then 1 else 0) = entry.fragCount :=
    (entry.received_store fragIndex fragment).symm.trans hdone
  cases hlk : rb.pending.lookup (endpointId, seq) with
  | none =>
    -- a group that was just opened has one fragment now, and there are more
    rw [hlk, getD_none] at hent
    have hnew : entry.received = 0 := by
      rw [hent]
      rfl
    split_ifs at hrcv <;> omega
  | some group =>
    rw [hlk, getD_some] at hent
    have hself : rb = self := by
      split_ifs at hrb with hfull
      swap
      · exact hrb
      -- a group for which room was made was not there before
      rw [isFull, Bool.and_eq_true, isNone_iff_eq_none] at hfull
      have hgone := Assoc.lookup_eq_none_iff.mp hfull.1
      obtain ⟨before, after, hmem⟩ := Assoc.exists_append_of_lookup hlk
      refine absurd ?_ hgone
      have hin : ((endpointId, seq), group) ∈ rb.pending := by simp [hmem]
      rw [hrb] at hin
      exact mem_map_of_mem ((self.makeRoom_sublist now).subset hin)
    rw [lacksOnly, ← hself, hlk, any_some, ← hent]
    exact decide_eq_true hrcv

end Held

/-! ### The account of the fragments -/

/-- Each group has some of its fragments and not all, and every fragment that was taken in is held,
has come out with its group, or is wasted. -/
structure Accounted (rb : ReassemblyBuffer) (done : ℕ) : Prop where
  distinct : (rb.pending.map Prod.fst).Nodup
  bounded : rb.pending.length ≤ maxPendingPackets
  incomplete : ∀ x ∈ rb.pending, 1 ≤ x.2.received ∧ x.2.received < x.2.fragCount
  balance : rb.stats.fragmentsIn =
    Assoc.total Pending.received rb.pending + done + rb.stats.fragmentsWasted

lemma exists_oldest {l : List ((ℕ × ℕ) × Pending)} (h : l ≠ []) : ∃ x ∈ l, oldest l = some x := by
  cases l with
  | nil => exact absurd rfl h
  | cons y l =>
    refine ⟨_, ?_, rfl⟩
    induction l generalizing y with
    | nil => simp
    | cons z l ih =>
      rw [foldl_cons]
      split_ifs
      · exact mem_cons_of_mem _ (ih z (by simp))
      · have hy := ih y (by simp)
        rw [mem_cons] at hy ⊢
        exact hy.imp_right (mem_cons_of_mem _)

namespace Accounted

variable {self rb : ReassemblyBuffer} {done now endpointId seq fragIndex fragCount : ℕ}
  {fragment : Bytes} {out : Option Bytes}

lemma purgeExpired (h : self.Accounted done) (now : ℕ) :
    (self.purgeExpired now).Accounted done := by
  refine ⟨h.distinct.sublist (filter_sublist.map _), (length_filter_le _ _).trans h.bounded,
    fun x hx => h.incomplete x (mem_filter.mp hx).1, ?_⟩
  have hsum := ((filter_append_perm (fun x => self.isLive now x.2) self.pending).map
    fun x => x.2.received).sum_nat
  have hbal := h.balance
  rw [map_append, sum_append_nat] at hsum
  simp only [ReassemblyBuffer.purgeExpired, Assoc.total] at hbal ⊢
  omega

lemma makeRoom (h : self.Accounted done) (now : ℕ) :
    (self.makeRoom now).Accounted done ∧
      (self.makeRoom now).pending.length < maxPendingPackets := by
  have hpur := h.purgeExpired now
  rw [ReassemblyBuffer.makeRoom]
  generalize self.purgeExpired now = rb at hpur
  split_ifs with hfull
  · have hne : rb.pending ≠ [] := ne_nil_of_length_pos (lt_of_lt_of_le (by decide) hfull)
    obtain ⟨⟨key, dropped⟩, hmem, hold⟩ := exists_oldest hne
    have htot := Assoc.total_erase Pending.received hpur.distinct
      ((Assoc.lookup_eq_some_iff hpur.distinct).mpr hmem)
    have hlen := Assoc.length_erase_add key hpur.distinct
    rw [if_pos (mem_map_of_mem hmem)] at hlen
    have hbnd := hpur.bounded
    have hbal := hpur.balance
    rw [evictOldest, hold]
    refine ⟨⟨Assoc.nodup_keys_erase _ hpur.distinct, by simp only; omega, fun x hx => ?_, ?_⟩, ?_⟩
    · exact hpur.incomplete x (Assoc.mem_erase_iff.mp hx).1
    all_goals
      simp only
      omega
  · exact ⟨hpur, not_le.mp hfull⟩

/-- **One fragment.** With the last fragment of a group as many come out as the group has. -/
lemma process (h : self.Accounted done)
    (hp : self.process now endpointId seq fragIndex fragCount fragment = (rb, out)) :
    rb.Accounted (done + if out.isSome then fragCount else 0) := by
  obtain hcase | ⟨room, entry, hroom, hent, hcase⟩ :=
    self.process_cases now endpointId seq fragIndex fragCount fragment
  · cases hp.symm.trans hcase
    exact ⟨h.distinct, h.bounded, h.incomplete, h.balance⟩
  generalize (endpointId, seq) = key at *
  obtain ⟨hacc, hlt⟩ : room.Accounted done ∧
      (room.pending.lookup key = none → room.pending.length < maxPendingPackets) := by
    rw [hroom]
    split_ifs with hfull
    · exact ⟨(h.makeRoom now).1, fun _ => (h.makeRoom now).2⟩
    · refine ⟨h, fun hnone => ?_⟩
      rw [isFull, hnone] at hfull
      simpa using hfull
  obtain ⟨hnd, hbnd, hinc, hbal⟩ := hacc
  rcases hcase with ⟨hlk, hcase⟩ | ⟨hcnt, hidx, hcase⟩
  · cases hp.symm.trans hcase
    rw [Assoc.insert_of_lookup hlk]
    exact ⟨hnd, hbnd, hinc, hbal⟩
  have hrcv := entry.received_store fragIndex fragment
  have hsame : (entry.store fragIndex fragment).fragCount = entry.fragCount := rfl
  -- what the group had, and that it has a fragment now
  obtain ⟨hold, hpart, hpos⟩ : entry.received = ((room.pending.lookup key).map
      Pending.received).getD 0 ∧ entry.received < fragCount ∧
        1 ≤ (entry.store fragIndex fragment).received := by
    rw [hrcv]
    cases hlk : room.pending.lookup key with
    | some group =>
      rw [hlk, getD_some] at hent
      subst hent
      obtain ⟨hone, hless⟩ := hinc _ ((Assoc.lookup_eq_some_iff hnd).mp hlk)
      exact ⟨rfl, hcnt ▸ hless, Nat.le_add_right_of_le hone⟩
    | none =>
      rw [hlk, getD_none] at hent
      subst hent
      exact ⟨rfl, Nat.zero_lt_of_lt hidx, by simp [Pending.isFree, Pending.new, hidx]⟩
  have hput := hp.symm.trans hcase
  simp only [put, Assoc.erase_insert, Assoc.insert_insert] at hput
  by_cases hdone : (entry.store fragIndex fragment).received =
      (entry.store fragIndex fragment).fragCount
  · rw [if_pos hdone] at hput
    cases hput
    have heras := Assoc.total_erase_add Pending.received key hnd
    refine ⟨Assoc.nodup_keys_erase _ hnd, (length_filter_le _ _).trans hbnd, fun x hx => ?_, ?_⟩
    · exact hinc x (Assoc.mem_erase_iff.mp hx).1
    · simp only [isSome_some, if_true]
      omega
  · rw [if_neg hdone] at hput
    cases hput
    have hins := Assoc.total_insert Pending.received key (entry.store fragIndex fragment)
      room.pending
    refine ⟨Assoc.nodup_keys_insert _ _ hnd, ?_, fun x hx => ?_, ?_⟩
    · simp only [Assoc.length_insert]
      split_ifs with hk
      · exact hbnd
      · exact hlt (Assoc.lookup_eq_none_iff.mpr hk)
    · rcases Assoc.mem_insert hx with rfl | hx
      · refine ⟨hpos, ?_⟩
        simp only
        split_ifs at hrcv <;> omega
      · exact hinc x hx
    · simp only [isSome_none, Bool.false_eq_true, if_false]
      omega

end Accounted

/-- The calls on a buffer. -/
inductive Call where
  | process (now endpointId seq fragIndex fragCount : ℕ) (fragment : Bytes)
  | purgeExpired (now : ℕ)

/-- A call, and beside the buffer the number of the fragments of all groups that were completed. -/
def call : ReassemblyBuffer × ℕ → Call → ReassemblyBuffer × ℕ
  | (self, done), .process now endpointId seq fragIndex fragCount fragment =>
    let (self, out) := self.process now endpointId seq fragIndex fragCount fragment
    (self, done + if out.isSome then fragCount else 0)
  | (self, done), .purgeExpired now => (self.purgeExpired now, done)

/-- **The account of a buffer after any calls.** At most 1024 groups are held; each has counted its
filled slots, and has one at least and not all; and the fragments that were taken in are those of
the groups that are held, those of the groups that were completed, and the wasted ones. -/
theorem account_run (timeout : ℕ) (calls : List Call) :
    let (self, done) := calls.foldl call (new timeout, 0)
    self.pending.length ≤ 1024 ∧
    (∀ x ∈ self.pending, x.2.received = x.2.fragments.countP isSome ∧
      1 ≤ x.2.received ∧ x.2.received ≤ x.2.fragCount - 1) ∧
    self.stats.fragmentsIn =
      (self.pending.map fun x => x.2.received).sum + done + self.stats.fragmentsWasted := by
  have hrun := foldlRecOn (motive := fun s : ReassemblyBuffer × ℕ => s.1.Accounted s.2) calls call
    (b := (new timeout, 0)) ⟨nodup_nil, by simp [new], nofun, rfl⟩ fun s h c _ => by
      cases c with
      | process => exact h.process rfl
      | purgeExpired now => exact h.purgeExpired now
  obtain ⟨-, hbnd, hinc, hbal⟩ := hrun
  refine ⟨hbnd, fun x hx => ⟨x.2.received_eq, (hinc x hx).1, ?_⟩, hbal⟩
  have := (hinc x hx).2
  omega

/-! ### The fragments that are held -/

/-- The group at a key holds the pieces at some indices: it is there when it holds any. -/
structure Holds (rb : ReassemblyBuffer) (key : ℕ × ℕ) (n : ℕ) (piece : ℕ → Bytes)
    (held : Finset ℕ) : Prop where
  within : held ⊆ Finset.range n
  vacant : held = ∅ → rb.pending.lookup key = none
  taken : held ≠ ∅ → ∃ group, rb.pending.lookup key = some group ∧ group.fragCount = n ∧
    group.fragments = Chunks.slots n piece held

namespace Holds

variable {self : ReassemblyBuffer} {endpointId seq i n : ℕ} {piece : ℕ → Bytes} {held : Finset ℕ}

lemma entry (h : Holds self (endpointId, seq) n piece held) (now : ℕ) :
    ((self.pending.lookup (endpointId, seq)).getD (.new n now)).fragCount = n ∧
      ((self.pending.lookup (endpointId, seq)).getD (.new n now)).fragments =
        slots n piece held := by
  by_cases hheld : held = ∅
  · rw [h.vacant hheld, hheld, slots_empty]
    exact ⟨rfl, rfl⟩
  · obtain ⟨group, hlk, hcnt, hfrag⟩ := h.taken hheld
    rw [hlk]
    exact ⟨hcnt, hfrag⟩

/-- **One fragment of a packet.** It is held from now on; with the last missing one the fragments
come out, one after another, and nothing is held any more. -/
lemma process (h : Holds self (endpointId, seq) n piece held)
    (hroom : self.isFull (endpointId, seq) = false) (hn : n ≤ maxFragments) (hi : i < n) (now : ℕ) :
    (self.process now endpointId seq i n (piece i)).2 =
      (if insert i held = Finset.range n then some ((range n).map piece).flatten else none) ∧
    Holds (self.process now endpointId seq i n (piece i)).1 (endpointId, seq) n piece
      (if insert i held = Finset.range n then ∅ else insert i held) := by
  obtain ⟨hcnt, hfrag⟩ := h.entry now
  generalize hent : (self.pending.lookup (endpointId, seq)).getD (.new n now) = entry at hcnt hfrag
  rw [process_of_lookup hroom ⟨by omega, hn⟩ hi hent hcnt]
  have hin2 : insert i held ⊆ Finset.range n := by
    rw [Finset.insert_subset_iff]
    exact ⟨Finset.mem_range.mpr hi, h.within⟩
  have hsto : (entry.store i (piece i)).fragments = slots n piece (insert i held) := by
    show entry.fragments.set i (some (piece i)) = _
    rw [hfrag, set_slots]
  have hrcv : (entry.store i (piece i)).received = (insert i held).card := by
    rw [Pending.received_eq, hsto, countP_slots hin2]
  have hdone : (entry.store i (piece i)).received = (entry.store i (piece i)).fragCount ↔
      insert i held = Finset.range n := by
    have hcnt' : (entry.store i (piece i)).fragCount = n := hcnt
    rw [hrcv, hcnt']
    constructor
    · intro hcard
      exact Finset.eq_of_subset_of_card_le hin2 (by rw [hcard, Finset.card_range])
    · intro hall
      rw [hall, Finset.card_range]
  have hlk := lookup_put { self with
    pending := Assoc.insert (endpointId, seq) entry self.pending } (endpointId, seq)
    (endpointId, seq) entry i (piece i)
  rw [if_pos rfl] at hlk
  by_cases hall : insert i held = Finset.range n
  · have hyes := hdone.mpr hall
    constructor
    · rw [put]
      simp only [if_pos hyes, if_pos hall, Pending.packet, hsto]
      rw [hall, map_getD_slots]
    · rw [if_pos hall]
      refine ⟨Finset.empty_subset _, fun _ => ?_, fun hne => absurd rfl hne⟩
      rw [hlk]
      exact if_pos hyes
  · have hno := fun hyes => hall (hdone.mp hyes)
    constructor
    · rw [put]
      simp only [if_neg hno, if_neg hall]
    · rw [if_neg hall]
      refine ⟨hin2, fun hemp => absurd hemp (Finset.insert_ne_empty _ _), fun _ => ?_⟩
      refine ⟨entry.store i (piece i), ?_, hcnt, hsto⟩
      rw [hlk]
      exact if_neg hno

lemma process_other {key : ℕ × ℕ} (h : Holds self key n piece held) {now fragIndex fragCount : ℕ}
    {fragment : Bytes} (hroom : self.isFull (endpointId, seq) = false)
    (hkey : key ≠ (endpointId, seq)) :
    Holds (self.process now endpointId seq fragIndex fragCount fragment).1 key n piece held := by
  obtain ⟨hin2, hvac, htak⟩ := h
  rw [← lookup_process_other hroom hkey] at hvac htak
  exact ⟨hin2, hvac, htak⟩

end Holds

end ReassemblyBuffer

end NdnRs
