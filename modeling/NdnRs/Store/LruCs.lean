import NdnRs.Lib.Lru
import NdnRs.Lib.Run
import NdnRs.Lib.Sha256
import NdnRs.Lib.Trie
import NdnRs.Packet.Subscription

/-!
# The in-memory content store (`ndn-store/src/lru_cs.rs`)

A cache of Data packets bounded by their total length. Besides the cache itself there are three
pieces of derived state: the number of entries, the number of bytes, and a trie of the cached names
for prefix lookups.

## Main results

* `ok_iff` — when it agrees with the cache.
-/

namespace NdnRs

open Bytes List Lru TlvType

/-- `CsEntry`; times are in nanoseconds. -/
structure CsEntry where
  data : Bytes
  staleAt : ℕ
  name : Name
  deriving DecidableEq

namespace CsEntry

def isFresh (self : CsEntry) (nowNs : ℕ) : Bool := nowNs < self.staleAt

def len (self : CsEntry) : ℕ := self.data.length

end CsEntry

structure NameTrie where
  trie : Trie NameComponent Name
  wf : trie.Wf

namespace NameTrie

def new : NameTrie := ⟨.empty, Trie.wf_empty⟩

variable (self : NameTrie)

def get (name : Name) : Option Name := self.trie.get name

def insert (name value : Name) : NameTrie :=
  ⟨self.trie.insert name value, self.wf.insert name value⟩

def remove (name : Name) : NameTrie :=
  ⟨self.trie.remove name, self.wf.remove name⟩

def descendants (pre : Name) : List Name := self.trie.descendants pre

def firstDescendant (pre : Name) : Option Name := self.trie.firstDescendant pre

lemma get_insert (name value name' : Name) :
    (self.insert name value).get name' = if name' = name then some value else self.get name' :=
  Trie.get_insert name name' value self.trie

lemma get_remove (name name' : Name) :
    (self.remove name).get name' = if name' = name then none else self.get name' :=
  Trie.get_remove name name' self.trie

end NameTrie

inductive InsertResult where
  | inserted
  | replaced
  | skipped
  deriving DecidableEq

/-- `LruCs`, without its statistics. -/
structure LruCs where
  cache : Lru Name CsEntry
  prefixIndex : NameTrie
  currentBytes : ℕ
  capacityBytes : ℕ
  entryCount : ℕ
  admitEnabled : Bool
  serve : Bool

namespace LruCs

def new (capacityBytes : ℕ) : LruCs :=
  { cache := .empty
    prefixIndex := .new
    currentBytes := 0
    capacityBytes := capacityBytes
    entryCount := 0
    admitEnabled := true
    serve := true }

/-! ## Operations -/

/-- `fetch_sub(1)` on the atomic counter, which wraps. -/
def fetchSub (n : ℕ) : ℕ := if n = 0 then 2 ^ 64 - 1 else n - 1

variable (self : LruCs)

/-- The bookkeeping for an entry that has left the cache. -/
def dropped (cache : Lru Name CsEntry) (name : Name) (evicted : CsEntry) : LruCs :=
  { self with
    cache := cache
    currentBytes := self.currentBytes - evicted.len
    prefixIndex := self.prefixIndex.remove name
    entryCount := fetchSub self.entryCount }

/-- The loop that evicts the least recently used entries until `entryBytes` more fit in the
capacity. Every turn takes one entry, so their number is fuel enough. -/
def evictLoop (entryBytes capacity : ℕ) : ℕ → LruCs → LruCs
  | 0, self => self
  | fuel + 1, self =>
    if self.currentBytes + entryBytes > capacity then
      match self.cache.popLru with
      | some ((evictedName, evicted), cache) =>
        evictLoop entryBytes capacity fuel (self.dropped cache evictedName evicted)
      | none => self
    else self

def evictUntil (entryBytes capacity : ℕ) : LruCs :=
  evictLoop entryBytes capacity self.cache.entries.length self

def insert (data : Bytes) (name : Name) (staleAt : ℕ) : LruCs × InsertResult :=
  if self.admitEnabled = false then (self, .skipped)
  else
    let entry : CsEntry := ⟨data, staleAt, name⟩
    match self.cache.peek name with
    | some old =>
      let self := { self with currentBytes := self.currentBytes - old.len }
      let self := self.evictUntil entry.len self.capacityBytes
      ({ self with
          cache := self.cache.put name entry
          currentBytes := self.currentBytes + entry.len }, .replaced)
    | none =>
      let self := self.evictUntil entry.len self.capacityBytes
      ({ self with
          cache := self.cache.put name entry
          currentBytes := self.currentBytes + entry.len
          prefixIndex := self.prefixIndex.insert name name
          entryCount := self.entryCount + 1 }, .inserted)

/-- `inner.cache.get`: a hit becomes the most recently used entry. -/
def cacheGet (name : Name) : Option CsEntry × LruCs :=
  (self.cache.peek name, { self with cache := self.cache.touch name })

/-- The entry that `lookup` takes for an Interest, before it looks at its freshness. -/
def candidate (interest : Interest) : Option CsEntry × LruCs :=
  let lastTyp := interest.name.getLast?.map NameComponent.typ
  if lastTyp = some implicitSha256 then
    let (found, self) := self.cacheGet interest.name.dropLast
    (found.filter fun entry =>
      interest.name.getLast?.map NameComponent.value = some (Sha256.digest entry.data), self)
  else if lastTyp = some parametersSha256 then self.cacheGet interest.name.dropLast
  else if interest.selectors.canBePrefix then
    match self.prefixIndex.firstDescendant interest.name with
    | none => (none, self)
    | some dataName => self.cacheGet dataName
  else self.cacheGet interest.name

/-- `LruCs::get`, that is `lookup`, at the time `nowNs`. -/
def get (interest : Interest) (nowNs : ℕ) : Option CsEntry × LruCs :=
  if self.serve = false then (none, self)
  else if self.entryCount = 0 then (none, self)
  else
    let (entry, self) := self.candidate interest
    (entry.filter fun entry => !(interest.selectors.mustBeFresh && !entry.isFresh nowNs), self)

def evict (name : Name) : LruCs × Bool :=
  match self.cache.peek name with
  | some evicted => (self.dropped (self.cache.pop name) name evicted, true)
  | none => (self, false)

def evictNames (max : ℕ) : List Name → ℕ → LruCs → LruCs × ℕ
  | [], evicted, self => (self, evicted)
  | name :: names, evicted, self =>
    if evicted ≥ max then (self, evicted)
    else if (self.evict name).2 then evictNames max names (evicted + 1) (self.evict name).1
    else evictNames max names evicted self

def evictPrefix (pre : Name) (limit : Option ℕ) : LruCs × ℕ :=
  evictNames (limit.getD (2 ^ 64 - 1)) (self.prefixIndex.descendants pre) 0 self

def setCapacity (maxBytes : ℕ) : LruCs :=
  { self with capacityBytes := maxBytes }.evictUntil 0 maxBytes

/-- The operations on a store. -/
inductive Op where
  | insert (data : Bytes) (name : Name) (staleAt : ℕ)
  | get (interest : Interest) (nowNs : ℕ)
  | evict (name : Name)
  | evictPrefix (pre : Name) (limit : Option ℕ)
  | setCapacity (maxBytes : ℕ)
  | setAdmit (enabled : Bool)
  | setServe (enabled : Bool)

def step : Op → LruCs
  | .insert data name staleAt => (self.insert data name staleAt).1
  | .get interest nowNs => (self.get interest nowNs).2
  | .evict name => (self.evict name).1
  | .evictPrefix pre limit => (self.evictPrefix pre limit).1
  | .setCapacity maxBytes => self.setCapacity maxBytes
  | .setAdmit enabled => { self with admitEnabled := enabled }
  | .setServe enabled => { self with serve := enabled }

/-! ## What is to be kept -/

def bytesOf (entries : List (Name × CsEntry)) : ℕ := Lru.weight CsEntry.len entries

/-- The derived state agrees with the cache, except that `gap` bytes have been taken off. -/
structure Counted (gap : ℕ) (s : LruCs) : Prop where
  count : s.entryCount = s.cache.entries.length
  bytes : s.currentBytes + gap = bytesOf s.cache.entries
  index : ∀ name value, s.prefixIndex.get name = some value ↔
    value = name ∧ (s.cache.peek name).isSome

/-- The derived state agrees with the cache, and the cache fits in the capacity unless it has a
single entry. -/
structure Ok (s : LruCs) : Prop extends Counted 0 s where
  bound : s.currentBytes ≤ s.capacityBytes ∨ s.cache.entries.length = 1

lemma ok_new (capacityBytes : ℕ) : (new capacityBytes).Ok where
  count := rfl
  bytes := rfl
  index name value := by
    have hget : (new capacityBytes).prefixIndex.get name = none := Trie.get_empty name
    rw [hget]
    exact iff_of_false nofun fun h => Bool.false_ne_true h.2
  bound := .inl (Nat.zero_le _)

section

variable {gap : ℕ} {s : LruCs} {name : Name} {e : CsEntry}

lemma length_pop (hget : s.cache.peek name = some e) :
    (s.cache.pop name).entries.length + 1 = s.cache.entries.length := by
  rw [length_eq_weight, length_eq_weight, s.cache.weight_pop hget]

lemma entryCount_dropped (hcnt : s.entryCount = s.cache.entries.length)
    (hget : s.cache.peek name = some e) :
    (s.dropped (s.cache.pop name) name e).entryCount = (s.cache.pop name).entries.length := by
  have hlen := length_pop hget
  simp only [LruCs.dropped, fetchSub]
  split_ifs <;> omega

lemma Counted.dropped (h : Counted gap s) (hget : s.cache.peek name = some e)
    (hbs : e.len ≤ s.currentBytes) : Counted gap (s.dropped (s.cache.pop name) name e) where
  count := entryCount_dropped h.count hget
  bytes := by
    have hwt : bytesOf (s.cache.pop name).entries + e.len = bytesOf s.cache.entries :=
      s.cache.weight_pop hget CsEntry.len
    have hsum := h.bytes
    simp only [LruCs.dropped]
    omega
  index name' value := by
    simp only [LruCs.dropped, NameTrie.get_remove, peek_pop]
    split_ifs with hname
    · exact iff_of_false not_false fun hv => Bool.false_ne_true hv.2
    · exact h.index name' value

lemma Counted.touch (h : Counted gap s) (name : Name) :
    Counted gap { s with cache := s.cache.touch name } where
  count := by
    rw [h.count, length_eq_weight, length_eq_weight, weight_touch]
  bytes := by
    have hwt : bytesOf (s.cache.touch name).entries = bytesOf s.cache.entries :=
      s.cache.weight_touch name CsEntry.len
    simp only [hwt]
    exact h.bytes
  index name' value := by
    simp only [peek_touch]
    exact h.index name' value

end

/-! ## The eviction loop -/

section

variable {entryBytes capacity : ℕ} {s : LruCs} {name : Name} {old : CsEntry}
  {newer older l : List (Name × CsEntry)} {x : Name × CsEntry}

/-- **The loop keeps what every turn keeps**, and ends with enough room or an empty cache. -/
lemma evictUntil_induction (entryBytes capacity : ℕ) {motive : LruCs → Prop} (hs : motive s)
    (hturn : ∀ s l x, motive s → s.currentBytes + entryBytes > capacity →
      s.cache.entries = l ++ [x] → motive (s.dropped (s.cache.pop x.1) x.1 x.2)) :
    motive (s.evictUntil entryBytes capacity) ∧
    ((s.evictUntil entryBytes capacity).currentBytes + entryBytes ≤ capacity ∨
      (s.evictUntil entryBytes capacity).cache.entries = []) := by
  rw [evictUntil]
  generalize hfuel : s.cache.entries.length = fuel
  induction fuel generalizing s with
  | zero => exact ⟨hs, .inr (eq_nil_of_length_eq_zero hfuel)⟩
  | succ fuel ih =>
    rw [evictLoop]
    split_ifs with hfull
    · rcases eq_nil_or_concat s.cache.entries with hnil | ⟨l, x, hx⟩
      · rw [popLru_of_nil hnil]
        exact ⟨hs, .inr hnil⟩
      · rw [concat_eq_append] at hx
        obtain ⟨hlru, hpop, -⟩ := popLru_of_snoc hx
        rw [hlru]
        refine ih (hturn s l x hs hfull hx) ?_
        rw [hx, length_append] at hfuel
        rw [LruCs.dropped, hpop]
        exact Nat.succ.inj hfuel
    · exact ⟨hs, .inl (not_lt.mp hfull)⟩

/-- What the loop never touches. -/
structure SameConfig (s s' : LruCs) : Prop where
  capacityBytes : s'.capacityBytes = s.capacityBytes
  admitEnabled : s'.admitEnabled = s.admitEnabled
  serve : s'.serve = s.serve

/-- **The loop, whatever it evicts**: the entries that stay are the most recently used ones, and
their number is counted. -/
lemma evictUntil_spec (entryBytes capacity : ℕ) (hcnt : s.entryCount = s.cache.entries.length) :
    SameConfig s (s.evictUntil entryBytes capacity) ∧
    (s.evictUntil entryBytes capacity).entryCount =
      (s.evictUntil entryBytes capacity).cache.entries.length ∧
    (s.evictUntil entryBytes capacity).cache.entries <+: s.cache.entries := by
  refine (evictUntil_induction entryBytes capacity (motive := fun s' => SameConfig s s' ∧
    s'.entryCount = s'.cache.entries.length ∧ s'.cache.entries <+: s.cache.entries)
    ⟨⟨rfl, rfl, rfl⟩, hcnt, prefix_refl _⟩ ?_).1
  rintro s' l x ⟨hsame, hcnt', hpre⟩ - hx
  obtain ⟨-, hpop, hget⟩ := popLru_of_snoc hx
  refine ⟨⟨hsame.capacityBytes, hsame.admitEnabled, hsame.serve⟩, entryCount_dropped hcnt' hget, ?_⟩
  rw [hx] at hpre
  rw [LruCs.dropped, hpop]
  exact (prefix_append l [x]).trans hpre

/-- **The loop when nothing is being replaced**: it ends with enough room, or with an empty
cache. -/
lemma evictUntil_counted (entryBytes capacity : ℕ) (h : Counted 0 s) :
    Counted 0 (s.evictUntil entryBytes capacity) ∧
    ((s.evictUntil entryBytes capacity).currentBytes + entryBytes ≤ capacity ∨
      (s.evictUntil entryBytes capacity).cache.entries = []) := by
  refine evictUntil_induction entryBytes capacity h fun s l x h _ hx => ?_
  have hbs := h.bytes
  rw [bytesOf, hx, weight_append, weight_cons] at hbs
  exact h.dropped (popLru_of_snoc hx).2.2 (by omega)

/-- The entry is being replaced: it is cached behind `newer` and its bytes are taken off. -/
def Replacing (newer : List (Name × CsEntry)) (name : Name) (old : CsEntry) (s : LruCs) : Prop :=
  Counted old.len s ∧ ∃ older, s.cache.entries = newer ++ (name, old) :: older

/-- A turn takes an entry behind the one being replaced, if there is one. -/
lemma Replacing.turn (h : Replacing newer name old s) (hx : s.cache.entries = l ++ [x]) :
    (x = (name, old) ∧ l = newer) ∨
      Replacing newer name old (s.dropped (s.cache.pop x.1) x.1 x.2) := by
  obtain ⟨hcnt, older, hes⟩ := h
  obtain ⟨-, hpop, hget⟩ := popLru_of_snoc hx
  rcases eq_nil_or_concat older with rfl | ⟨older, y, rfl⟩
  · obtain ⟨hl, hlast⟩ := append_inj' (hx.symm.trans hes) rfl
    exact .inl ⟨(cons.inj hlast).1, hl⟩
  · rw [concat_eq_append, ← cons_append, ← append_assoc] at hes
    obtain ⟨rfl, -⟩ := append_inj' (hx.symm.trans hes) rfl
    have hbs := hcnt.bytes
    rw [bytesOf, hx, weight_append, weight_append, weight_cons, weight_cons] at hbs
    simp only at hbs
    exact .inr ⟨hcnt.dropped hget (by omega), older, hpop⟩

/-- **The loop when an entry is being replaced**, and the new Data fits together with the entries
used more recently: the entry stays, and the loop ends with enough room. -/
lemma evictUntil_spares (h : Replacing newer name old s)
    (hfits : bytesOf newer + entryBytes ≤ capacity) :
    Counted old.len (s.evictUntil entryBytes capacity) ∧
    (s.evictUntil entryBytes capacity).currentBytes + entryBytes ≤ capacity ∧
    (s.evictUntil entryBytes capacity).cache.peek name = some old := by
  have hloop := evictUntil_induction entryBytes capacity h fun s l x h hfull hx => by
    refine (h.turn hx).resolve_left ?_
    rintro ⟨rfl, rfl⟩
    -- only the entries used more recently are counted by now, and they fit
    have hbs := h.1.bytes
    rw [bytesOf, hx, weight_append, weight_cons, weight_nil] at hbs
    rw [bytesOf] at hfits
    simp only at hbs
    omega
  obtain ⟨⟨hcnt, older, hes⟩, hroom⟩ := hloop
  refine ⟨hcnt, hroom.resolve_right (by simp [hes]), ?_⟩
  rw [peek_eq_some_iff, hes]
  simp

/-- **The loop when an entry is being replaced**, and the new Data does not fit together with the
entries used more recently: the entry is evicted. -/
lemma evictUntil_loses (h : Replacing newer name old s)
    (hover : capacity < bytesOf newer + entryBytes) :
    (s.evictUntil entryBytes capacity).cache.peek name = none := by
  have hloop := evictUntil_induction entryBytes capacity (motive := fun s =>
    Replacing newer name old s ∨ s.cache.peek name = none) (.inl h) fun s l x h _ hx => by
    rcases h with h | hgone
    · rcases h.turn hx with ⟨rfl, -⟩ | hkept
      · -- the entry itself is the next to go
        exact .inr ((peek_pop _ _ _).trans (if_pos rfl))
      · exact .inl hkept
    · refine .inr ?_
      rw [LruCs.dropped, peek_pop, hgone, ite_self]
  obtain ⟨⟨hcnt, older, hes⟩ | hgone, hroom⟩ := hloop
  · have hbs := hcnt.bytes
    rw [bytesOf, hes, weight_append, weight_cons] at hbs
    rw [bytesOf] at hover
    rcases hroom with hroom | hnil
    · simp only at hbs
      omega
    · simp [hnil] at hes
  · exact hgone

end

/-! ## Insertion -/

/-- The total length of the Data of the entries used more recently than the one named. -/
def bytesNewerThan (s : LruCs) (name : Name) : ℕ :=
  bytesOf (s.cache.entries.takeWhile fun x => x.1 ≠ name)

/-- The operation does not evict what it replaces: if it is an insertion under a name that is cached
already, the new Data fits in the capacity together with the entries used more recently. -/
def Spared (s : LruCs) : Op → Prop
  | .insert data name _ => s.admitEnabled = true → (s.cache.peek name).isSome →
      s.bytesNewerThan name + data.length ≤ s.capacityBytes
  | _ => True

section

variable {s : LruCs} {name : Name} {old : CsEntry} {newer older : List (Name × CsEntry)}

lemma bytesNewerThan_eq (hes : s.cache.entries = newer ++ (name, old) :: older) :
    s.bytesNewerThan name = bytesOf newer := by
  have hnd := s.cache.distinct
  rw [hes, map_append, map_cons, nodup_append] at hnd
  have hall : ∀ x ∈ newer, decide (x.1 ≠ name) = true := by
    intro x hx
    refine decide_eq_true fun hname => ?_
    exact hnd.2.2 x.1 (mem_map.mpr ⟨x, hx, rfl⟩) name (mem_cons_self ..) hname
  rw [bytesNewerThan, hes, takeWhile_append_of_pos hall,
    takeWhile_cons_of_neg (by simp), append_nil]

lemma Counted.takenOff (h : Counted 0 s) (hget : s.cache.peek name = some old) :
    Counted old.len { s with currentBytes := s.currentBytes - old.len } where
  count := h.count
  bytes := by
    have hsum := h.bytes
    have hwt : bytesOf (s.cache.pop name).entries + old.len = bytesOf s.cache.entries :=
      s.cache.weight_pop hget CsEntry.len
    show s.currentBytes - old.len + old.len = bytesOf s.cache.entries
    omega
  index := h.index

/-- **An insertion that evicts nothing it replaces** keeps the store in order. -/
lemma ok_insert (h : s.Ok) (data : Bytes) (name : Name) (staleAt : ℕ)
    (hspar : s.Spared (.insert data name staleAt)) : (s.insert data name staleAt).1.Ok := by
  rw [insert]
  split_ifs with hen
  · exact h
  have hen : s.admitEnabled = true := by simpa using hen
  cases hget : s.cache.peek name with
  | none =>
    obtain ⟨hcnt, hroom⟩ := evictUntil_counted data.length s.capacityBytes h.toCounted
    obtain ⟨hsame, -, hpre⟩ := evictUntil_spec data.length s.capacityBytes h.count
    simp only [CsEntry.len]
    generalize s.evictUntil data.length s.capacityBytes = s' at hcnt hroom hsame hpre ⊢
    have habs : s'.cache.peek name = none := by
      rw [peek_eq_none_iff] at hget ⊢
      exact fun hmem => hget ((hpre.map Prod.fst).subset hmem)
    have hput := s'.cache.entries_put_of_absent habs ⟨data, staleAt, name⟩
    have hbs := hcnt.bytes
    refine ⟨⟨?_, ?_, fun name' value => ?_⟩, ?_⟩
    · simp only [hput, length_cons, hcnt.count]
    · have hwt : bytesOf ((name, (⟨data, staleAt, name⟩ : CsEntry)) :: s'.cache.entries) =
          data.length + bytesOf s'.cache.entries := weight_cons _ _ _
      simp only [hput, hwt]
      omega
    · simp only [NameTrie.get_insert, peek_put]
      split_ifs with hname
      · simp [hname, eq_comm]
      · exact hcnt.index name' value
    · simp only [hput, length_cons, hsame.capacityBytes]
      rcases hroom with hroom | hnil
      · exact .inl hroom
      · exact .inr (by rw [hnil]; rfl)
  | some old =>
    obtain ⟨newer, older, hes⟩ := s.cache.exists_entries_eq hget
    have hfits : bytesOf newer + data.length ≤ s.capacityBytes := by
      rw [← bytesNewerThan_eq hes]
      exact hspar hen (by rw [hget]; rfl)
    obtain ⟨hcnt, hroom, hstil⟩ := evictUntil_spares ⟨h.takenOff hget, older, hes⟩ hfits
    obtain ⟨hsame, -, -⟩ := evictUntil_spec data.length s.capacityBytes (h.takenOff hget).count
    simp only [CsEntry.len] at hcnt hroom hstil hsame ⊢
    generalize evictUntil _ data.length s.capacityBytes = s' at hcnt hroom hstil hsame ⊢
    have hbs := hcnt.bytes
    have hwt : bytesOf (s'.cache.pop name).entries + old.data.length =
        bytesOf s'.cache.entries := s'.cache.weight_pop hstil CsEntry.len
    have hlen := length_pop hstil
    refine ⟨⟨?_, ?_, fun name' value => ?_⟩, ?_⟩
    · have hput : (s'.cache.put name ⟨data, staleAt, name⟩).entries.length =
          (s'.cache.pop name).entries.length + 1 := rfl
      simp only [hput, hlen, hcnt.count]
    · have hput : bytesOf (s'.cache.put name ⟨data, staleAt, name⟩).entries =
          data.length + bytesOf (s'.cache.pop name).entries := weight_cons _ _ _
      simp only [hput]
      omega
    · simp only [peek_put]
      have hidx := hcnt.index name' value
      split_ifs with hname
      · rw [hidx, hname, hstil]
        simp
      · exact hidx
    · simp only [hsame.capacityBytes]
      exact .inl hroom

/-- **An insertion that evicts what it replaces** loses count: the entry is cached again, but is not
counted again. -/
lemma not_ok_insert (h : s.Ok) (data : Bytes) (name : Name) (staleAt : ℕ)
    (hlost : ¬ s.Spared (.insert data name staleAt)) : ¬ (s.insert data name staleAt).1.Ok := by
  rw [Spared] at hlost
  push Not at hlost
  obtain ⟨hen, hsome, hover⟩ := hlost
  obtain ⟨old, hget⟩ := Option.isSome_iff_exists.mp hsome
  obtain ⟨newer, older, hes⟩ := s.cache.exists_entries_eq hget
  rw [bytesNewerThan_eq hes] at hover
  have hgone := evictUntil_loses ⟨h.takenOff hget, older, hes⟩ hover
  obtain ⟨-, hcnt, -⟩ := evictUntil_spec data.length s.capacityBytes (h.takenOff hget).count
  rw [insert, if_neg (by simp [hen]), hget]
  simp only [CsEntry.len] at hgone hcnt ⊢
  generalize evictUntil _ data.length s.capacityBytes = s' at hgone hcnt ⊢
  intro hok
  have hput := s'.cache.entries_put_of_absent hgone ⟨data, staleAt, name⟩
  have hbad := hok.count
  simp only [hput, length_cons] at hbad
  omega

end

/-! ## The other operations -/

section

variable {s : LruCs}

lemma Ok.touch (h : s.Ok) (name : Name) : Ok { s with cache := s.cache.touch name } where
  toCounted := h.toCounted.touch name
  bound := by
    have hlen : (s.cache.touch name).entries.length = s.cache.entries.length := by
      rw [length_eq_weight, length_eq_weight, weight_touch]
    simpa only [hlen] using h.bound

/-- **What a lookup changes**: at most the order of the entries. -/
lemma get_snd (s : LruCs) (interest : Interest) (nowNs : ℕ) :
    (s.get interest nowNs).2 = s ∨
      ∃ name, (s.get interest nowNs).2 = { s with cache := s.cache.touch name } := by
  rw [get]
  split_ifs
  · exact .inl rfl
  · exact .inl rfl
  simp only [candidate]
  split_ifs
  · exact .inr ⟨_, rfl⟩
  · exact .inr ⟨_, rfl⟩
  · cases s.prefixIndex.firstDescendant interest.name with
    | none => exact .inl rfl
    | some dataName => exact .inr ⟨dataName, rfl⟩
  · exact .inr ⟨_, rfl⟩

lemma ok_get (h : s.Ok) (interest : Interest) (nowNs : ℕ) : (s.get interest nowNs).2.Ok := by
  rcases s.get_snd interest nowNs with heq | ⟨name, heq⟩
  · rw [heq]
    exact h
  · rw [heq]
    exact h.touch name

lemma ok_evict (h : s.Ok) (name : Name) : (s.evict name).1.Ok := by
  rw [evict]
  cases hget : s.cache.peek name with
  | none => exact h
  | some e =>
    have hwt : bytesOf (s.cache.pop name).entries + e.len = bytesOf s.cache.entries :=
      s.cache.weight_pop hget CsEntry.len
    have hbs := h.bytes
    have hcnt := h.toCounted.dropped hget (by omega)
    refine ⟨hcnt, .inl ?_⟩
    rcases h.bound with hbd | hone
    · exact (Nat.sub_le _ _).trans hbd
    -- the only entry has gone, and its bytes with it
    have hlen := length_pop hget
    have hnil : (s.cache.pop name).entries = [] := eq_nil_of_length_eq_zero (by omega)
    have hzero := hcnt.bytes
    simp only [dropped, hnil] at hzero ⊢
    have : bytesOf [] = 0 := rfl
    omega

lemma ok_evictNames (h : s.Ok) (max : ℕ) (names : List Name) (evicted : ℕ) :
    (evictNames max names evicted s).1.Ok := by
  induction names generalizing s evicted with
  | nil => exact h
  | cons name names ih =>
    rw [evictNames]
    split_ifs
    · exact h
    · exact ih (ok_evict h name) _
    · exact ih h _

lemma ok_setCapacity (h : s.Ok) (maxBytes : ℕ) : (s.setCapacity maxBytes).Ok := by
  have hcnt : Counted 0 { s with capacityBytes := maxBytes } := ⟨h.count, h.bytes, h.index⟩
  obtain ⟨haft, hroom⟩ := evictUntil_counted 0 maxBytes hcnt
  obtain ⟨hsame, -, -⟩ := evictUntil_spec 0 maxBytes hcnt.count
  refine ⟨haft, .inl ?_⟩
  have hcap : (s.setCapacity maxBytes).capacityBytes = maxBytes := hsame.capacityBytes
  rw [hcap]
  rcases hroom with hroom | hnil
  · exact hroom
  · have hzero := haft.bytes
    rw [hnil] at hzero
    exact (Nat.eq_zero_of_add_eq_zero hzero).1.le.trans (Nat.zero_le _)

/-- **One operation.** From a store in order, an operation leaves it in order iff it does not evict
what it replaces. -/
theorem ok_step_iff (h : s.Ok) (op : Op) : (s.step op).Ok ↔ s.Spared op := by
  cases op with
  | insert data name staleAt =>
    refine ⟨fun hok => ?_, ok_insert h data name staleAt⟩
    by_contra hlost
    exact not_ok_insert h data name staleAt hlost hok
  | get interest nowNs => exact iff_of_true (ok_get h interest nowNs) trivial
  | evict name => exact iff_of_true (ok_evict h name) trivial
  | evictPrefix pre limit => exact iff_of_true (ok_evictNames h _ _ _) trivial
  | setCapacity maxBytes => exact iff_of_true (ok_setCapacity h maxBytes) trivial
  | setAdmit enabled => exact iff_of_true ⟨⟨h.count, h.bytes, h.index⟩, h.bound⟩ trivial
  | setServe enabled => exact iff_of_true ⟨⟨h.count, h.bytes, h.index⟩, h.bound⟩ trivial

end

/-- **The store is in order after each of some operations iff none of them evicts what it
replaces.** In order means: the count, the number of bytes and the prefix index are those of the
cached entries, and the bytes are within the capacity unless there is a single entry. -/
theorem ok_iff (capacityBytes : ℕ) (ops : List Op) :
    (∀ done, done <+: ops → (done.foldl step (new capacityBytes)).Ok) ↔
      Run.Admits step Spared (new capacityBytes) ops :=
  Run.forall_prefix_iff_admits (fun _ => True) Ok (fun _ op _ h => ok_step_iff h op)
    (fun _ _ _ _ => trivial) trivial (ok_new capacityBytes) ops

/-- Six bytes under `/a`, four under `/b`, and then eight under `/a`, in a store of ten. -/
def overgrown : LruCs :=
  [Op.insert [1, 2, 3, 4, 5, 6] [.ofText "a"] 0, .insert [1, 2, 3, 4] [.ofText "b"] 0,
    .insert [1, 2, 3, 4, 5, 6, 7, 8] [.ofText "a"] 0].foldl step (new 10)

/-- **An entry that was evicted while it was replaced.** Two entries are cached and one is counted;
they have twelve bytes, of which eight are counted; and the prefix index has lost `/a`. -/
theorem replaced_entry_evicted :
    overgrown.cache.entries.length = 2 ∧ overgrown.entryCount = 1 ∧
    bytesOf overgrown.cache.entries = 12 ∧ overgrown.currentBytes = 8 ∧
    overgrown.capacityBytes = 10 ∧ (overgrown.cache.peek [.ofText "a"]).isSome ∧
    overgrown.prefixIndex.get [.ofText "a"] = none := by
  decide

end LruCs

end NdnRs
