import NdnRs.Lib.Assoc
import NdnRs.Packet.Subscription

/-!
# The Pending Interest Table (`ndn-store/src/pit.rs`, `dead_nonce_list.rs`)

Entries are keyed by a 64-bit token, a hash of the name and of whether the entry is for a persistent
subscription. The Dead Nonce List keeps the nonces of erased entries for a while.

## Implementation notes

An in-record also keeps the Interest that left it, an entry the Interests that were added to it,
and the Dead Nonce List the fingerprints it has evicted for lack of space. The source does not
store them, and no function reads them: they are there to be spoken about.
-/

namespace NdnRs

open Bytes

namespace Pit

/-! ## Keys -/

inductive PitKeyDiscriminator where
  | classical
  | persistentAttach
  deriving DecidableEq

structure NonceFingerprint where
  nameHash : UInt64
  nonce : ℕ
  deriving DecidableEq

/-- What the tables take from the standard library: `DefaultHasher` on a name component and on the
parts of a token, and the order of the Dead Nonce List's entries by expiry, which is not
determined among entries that expire together. -/
structure Platform where
  hashComponent : NameComponent → UInt64
  hashToken : UInt64 → PitKeyDiscriminator → UInt64
  sortByExpiry : List (NonceFingerprint × ℕ) → List (NonceFingerprint × ℕ)
  sortByExpiry_perm : ∀ l, (sortByExpiry l).Perm l
  sortByExpiry_sorted : ∀ l, (sortByExpiry l).Pairwise fun a b => a.2 ≤ b.2

variable (P : Platform)

namespace NameHashes

def hashMix : UInt64 := 0x517cc1b727220a95

def accumulate (state : UInt64) (comp : NameComponent) : UInt64 :=
  state * hashMix + P.hashComponent comp

/-- The loop of `from_components`. -/
def computeFrom (state : UInt64) : Name → List UInt64
  | [] => []
  | comp :: rest => accumulate P state comp :: computeFrom (accumulate P state comp) rest

/-- `NameHashes::compute`: the hashes of the prefixes, shortest first. -/
def compute (name : Name) : List UInt64 := computeFrom P 0 name

def fullHash (hashes : List UInt64) : UInt64 := hashes.getLast?.getD 0

def prefixHash (hashes : List UInt64) (n : ℕ) : UInt64 :=
  if n = 0 then 0 else hashes.getD (n - 1) 0

def fullNameHash (name : Name) : UInt64 := name.foldl (accumulate P) 0

lemma length_computeFrom (state : UInt64) (name : Name) :
    (computeFrom P state name).length = name.length := by
  induction name generalizing state with
  | nil => rfl
  | cons comp rest ih => simp [computeFrom, ih]

lemma getD_computeFrom (state : UInt64) (name : Name) {n : ℕ} (hn : n < name.length) :
    (computeFrom P state name).getD n 0 = (name.take (n + 1)).foldl (accumulate P) state := by
  induction name generalizing state n with
  | nil => simp at hn
  | cons comp rest ih =>
    cases n with
    | zero => simp [computeFrom]
    | succ n =>
      rw [List.length_cons] at hn
      have hrest := ih (accumulate P state comp) (show n < rest.length by omega)
      rw [computeFrom, List.getD_cons_succ, hrest, List.take_succ_cons, List.foldl_cons]

/-- **Prefix hashes are the hashes of the prefixes.** -/
lemma prefixHash_compute (name : Name) {n : ℕ} (hn : n ≤ name.length) :
    prefixHash (compute P name) n = fullNameHash P (name.take n) := by
  unfold prefixHash
  split_ifs with hzero
  · rw [hzero]
    rfl
  · rw [compute, getD_computeFrom P 0 name (show n - 1 < name.length by omega)]
    have hsucc : n - 1 + 1 = n := by omega
    rw [hsucc]
    rfl

lemma fullHash_compute (name : Name) : fullHash (compute P name) = fullNameHash P name := by
  by_cases hnil : name = []
  · rw [hnil]
    rfl
  · have hlen : 0 < name.length := List.length_pos_iff.mpr hnil
    have hpre := prefixHash_compute P name (le_refl name.length)
    rw [List.take_length] at hpre
    rw [← hpre, prefixHash, if_neg (by omega), fullHash, List.getLast?_eq_getElem?,
      List.getD_eq_getElem?_getD, compute, length_computeFrom]

end NameHashes

/-- `PitToken::from_name_hash_keyed`; the forwarding hint is not part of the key. -/
def pitToken (nameHash : UInt64) (disc : PitKeyDiscriminator) : UInt64 :=
  P.hashToken nameHash disc

def nameToken (name : Name) (disc : PitKeyDiscriminator) : UInt64 :=
  pitToken P (NameHashes.fullNameHash P name) disc

/-! ## Entries -/

structure PersistentState where
  dataCountRemaining : ℕ
  reapAt : ℕ
  subscriptionId : Option Bytes
  deriving DecidableEq

structure OrphanedSubscription where
  dataCountRemaining : ℕ
  reapAt : ℕ
  deriving DecidableEq

/-- `InRecord`, with the Interest that left it. -/
structure InRecord where
  faceId : ℕ
  nonce : ℕ
  expiresAt : ℕ
  lpPitToken : Option Bytes
  selector : Selector
  persistent : Option PersistentState
  interest : Interest
  deriving DecidableEq

structure OutRecord where
  faceId : ℕ
  lastNonce : ℕ
  sentAt : ℕ
  deriving DecidableEq

/-- `PitEntry`, with the Interests that were added to it. -/
structure PitEntry where
  name : Name
  inRecords : List InRecord
  outRecords : List OutRecord
  noncesSeen : List ℕ
  expiresAt : ℕ
  persistent : Option PersistentState
  forwardCancelled : Bool
  upstreamLost : Bool
  inserted : List Interest
  deriving DecidableEq

namespace PitEntry

def new (name : Name) (now lifetimeMs : ℕ) : PitEntry :=
  { name := name
    inRecords := []
    outRecords := []
    noncesSeen := []
    expiresAt := now + lifetimeMs * 1000000
    persistent := none
    forwardCancelled := false
    upstreamLost := false
    inserted := [] }

def addInRecordWithPersistent (self : PitEntry) (record : InRecord) : PitEntry :=
  { self with
    inRecords := self.inRecords ++ [record]
    noncesSeen := if record.nonce ∈ self.noncesSeen then self.noncesSeen
      else self.noncesSeen ++ [record.nonce]
    inserted := self.inserted ++ [record.interest] }

section

variable {self : PitEntry} {record : InRecord}

lemma mem_inRecords_add {r : InRecord} :
    r ∈ (self.addInRecordWithPersistent record).inRecords ↔ r ∈ self.inRecords ∨ r = record := by
  simp [addInRecordWithPersistent]

lemma mem_inserted_add {i : Interest} :
    i ∈ (self.addInRecordWithPersistent record).inserted ↔
      i ∈ self.inserted ∨ i = record.interest := by
  simp [addInRecordWithPersistent]

lemma mem_noncesSeen_add {nonce : ℕ} :
    nonce ∈ (self.addInRecordWithPersistent record).noncesSeen ↔
      nonce ∈ self.noncesSeen ∨ nonce = record.nonce := by
  by_cases hseen : record.nonce ∈ self.noncesSeen
  · simp only [addInRecordWithPersistent, if_pos hseen]
    exact ⟨.inl, fun h => h.elim id fun heq => heq ▸ hseen⟩
  · simp [addInRecordWithPersistent, if_neg hseen]

end

def addOutRecord (self : PitEntry) (faceId nonce sentAt : ℕ) : PitEntry :=
  if self.outRecords.any fun r => r.faceId = faceId then
    { self with
      outRecords := self.outRecords.map fun r =>
        if r.faceId = faceId then { r with lastNonce := nonce, sentAt := sentAt } else r }
  else { self with outRecords := self.outRecords ++ [⟨faceId, nonce, sentAt⟩] }

end PitEntry

end Pit

/-! ## The table -/

structure Pit where
  entries : List (UInt64 × Pit.PitEntry)
  orphans : List (Bytes × Pit.OrphanedSubscription)
  deriving DecidableEq

namespace Pit

section

variable (self : Pit) (token token' : UInt64)

def get : Option PitEntry := self.entries.lookup token

def set (entry : PitEntry) : Pit :=
  { self with entries := Assoc.insert token entry self.entries }

def remove : Pit :=
  { self with entries := Assoc.erase token self.entries }

lemma get_set (entry : PitEntry) :
    (self.set token entry).get token' = if token' = token then some entry else self.get token' :=
  Assoc.lookup_insert token token' entry self.entries

lemma get_remove :
    (self.remove token).get token' = if token' = token then none else self.get token' :=
  Assoc.lookup_erase token token' self.entries

/-- `park_orphan`: the larger budget and the later deadline win. -/
def parkOrphan (id : Bytes) (dataCountRemaining reapAt : ℕ) : Pit :=
  if dataCountRemaining = 0 then self
  else
    let merged : OrphanedSubscription :=
      match self.orphans.lookup id with
      | some existing =>
        ⟨max existing.dataCountRemaining dataCountRemaining, max existing.reapAt reapAt⟩
      | none => ⟨dataCountRemaining, reapAt⟩
    { self with orphans := Assoc.insert id merged self.orphans }

def takeOrphan (id : Bytes) (now : ℕ) : Pit × Option OrphanedSubscription :=
  ({ self with orphans := Assoc.erase id self.orphans },
    (self.orphans.lookup id).filter fun o => o.reapAt > now)

def reapOrphans (now : ℕ) : Pit :=
  { self with orphans := self.orphans.filter fun o => o.2.reapAt > now }

def parkDyingRecords (entry : PitEntry) (faceId : ℕ) : Pit :=
  entry.inRecords.foldl
    (fun pit r =>
      if r.faceId ≠ faceId then pit
      else
        match r.persistent with
        | some ⟨remaining, reapAt, some id⟩ => pit.parkOrphan id remaining reapAt
        | _ => pit)
    self

/-- `remove_face`, on the entry at one token. -/
def removeFaceEntry (faceId : ℕ) (self : Pit) (token : UInt64) : Pit :=
  match self.get token with
  | none => self
  | some entry =>
    let anyIn := entry.inRecords.any fun r => r.faceId = faceId
    let anyOut := entry.outRecords.any fun r => r.faceId = faceId
    let self := if anyIn then self.parkDyingRecords entry faceId else self
    if entry.inRecords ≠ [] ∧ entry.inRecords.all fun r => r.faceId = faceId then
      self.remove token
    else if anyIn || anyOut then
      self.set token
        { entry with
          inRecords := entry.inRecords.filter fun r => r.faceId ≠ faceId
          outRecords := entry.outRecords.filter fun r => r.faceId ≠ faceId
          upstreamLost := entry.upstreamLost || anyOut }
    else self

/-- `remove_face`, entry by entry. -/
def removeFace (faceId : ℕ) : Pit :=
  (self.entries.map Prod.fst).foldl (removeFaceEntry faceId) self

/-- The tokens that `drain_expired_entries` removes. -/
def expiredTokens (now : ℕ) : List UInt64 :=
  (self.entries.filter fun e => e.2.expiresAt ≤ now).map Prod.fst

end

/-! ## Dead nonces -/

/-- `DeadNonceList`, with the fingerprints it has evicted for lack of space. -/
structure DeadNonceList where
  entries : List (NonceFingerprint × ℕ)
  lifetimeNs : ℕ
  capacity : ℕ
  evicted : List NonceFingerprint
  deriving DecidableEq

namespace DeadNonceList

def withLifetimeAndCapacity (lifetimeNs capacity : ℕ) : DeadNonceList :=
  ⟨[], lifetimeNs, max capacity 1, []⟩

variable (P : Platform) (self : DeadNonceList)

def purgeExpired (now : ℕ) : DeadNonceList :=
  { self with entries := self.entries.filter fun e => now < e.2 }

def enforceCapacity (now : ℕ) : DeadNonceList :=
  let self := self.purgeExpired now
  let len := self.entries.length
  if len ≤ self.capacity then self
  else
    let target := self.capacity - self.capacity / 10
    let victims := ((P.sortByExpiry self.entries).take (len - target)).map Prod.fst
    { self with
      entries := self.entries.filter fun e => e.1 ∉ victims
      evicted := self.evicted ++ victims }

/-- `DeadNonceList::insert`; the expiry saturates. -/
def insert (fp : NonceFingerprint) (now : ℕ) : DeadNonceList :=
  let expiry := min (now + self.lifetimeNs) (2 ^ 64 - 1)
  let self := { self with entries := Assoc.insert fp expiry self.entries }
  if self.entries.length > self.capacity then self.enforceCapacity P now else self

def contains (fp : NonceFingerprint) (now : ℕ) : Bool :=
  match self.entries.lookup fp with
  | some expiry => now < expiry
  | none => false

end DeadNonceList

end Pit

end NdnRs
