import NdnRs.Store.LruLookup

/-!
# The sharded content store (`ndn-store/src/sharded_cs.rs`)

A content store made of several, of which each name has its own: the one that a hash of its first
component selects. A lookup or an eviction goes to one shard only; the root prefix, and a name of a
digest alone, do not say which one they mean.

## Implementation notes

The edges of a node of the index are in a hash map, which has an order of its own in each store. So
before each operation the index of a store may be exchanged for any other one of the same names.

## Main results

* `outputs_eq_unsharded` — when shards answer as one store.
-/

namespace NdnRs

open Bytes TlvType

/-- `ContentStore`: what is asked of a store. -/
class ContentStore (C : Type) where
  get : C → Interest → ℕ → Option CsEntry × C
  insert : C → Bytes → Name → ℕ → C × InsertResult
  evict : C → Name → C × Bool
  evictPrefix : C → Name → Option ℕ → C × ℕ

namespace ContentStore

inductive Op where
  | insert (data : Bytes) (name : Name) (staleAt : ℕ)
  | get (interest : Interest) (nowNs : ℕ)
  | evict (name : Name)
  | evictPrefix (pre : Name) (limit : Option ℕ)

/-- What an operation returns; of a lookup, whether it finds an entry. -/
inductive Output where
  | inserted (result : InsertResult)
  | got (found : Bool)
  | evicted (found : Bool)
  | evictedPrefix (count : ℕ)
  deriving DecidableEq

def apply {C : Type} [ContentStore C] (store : C) : Op → C × Output
  | .insert data name staleAt =>
    ((insert store data name staleAt).1, .inserted (insert store data name staleAt).2)
  | .get interest nowNs => ((get store interest nowNs).2, .got (get store interest nowNs).1.isSome)
  | .evict name => ((evict store name).1, .evicted (evict store name).2)
  | .evictPrefix pre limit =>
    ((evictPrefix store pre limit).1, .evictedPrefix (evictPrefix store pre limit).2)

/-- The operation, which the guard allows, takes the store to another one and returns something. -/
def Performs {C : Type} [ContentStore C] (Reorders : C → C → Prop) (guard : C → Op → Prop)
    (store : C) (op : Op) (store' : C) (output : Output) : Prop :=
  ∃ ordered, Reorders store ordered ∧ guard ordered op ∧ apply ordered op = (store', output)

end ContentStore

open ContentStore (Op Output apply Performs)

instance : ContentStore LruCs where
  get := LruCs.get
  insert := LruCs.insert
  evict := LruCs.evict
  evictPrefix := LruCs.evictPrefix

/-- `ShardedCs`, with the hash of its `DefaultHasher`. There is at least one shard. -/
structure ShardedCs (C : Type) (n : ℕ) where
  shards : Fin (n + 1) → C
  hash : NameComponent → ℕ

namespace ShardedCs

section

variable {C : Type} {n : ℕ}

def shardFor (self : ShardedCs C n) (name : Name) : Fin (n + 1) :=
  match name.head? with
  | some first => .ofNat (n + 1) (self.hash first)
  | none => 0

/-- The store with one shard replaced. -/
def setShard (self : ShardedCs C n) (idx : Fin (n + 1)) (shard : C) : ShardedCs C n :=
  { self with shards := Function.update self.shards idx shard }

variable [ContentStore C]

def get (self : ShardedCs C n) (interest : Interest) (nowNs : ℕ) : Option CsEntry × ShardedCs C n :=
  let idx := self.shardFor interest.name
  let (entry, shard) := ContentStore.get (self.shards idx) interest nowNs
  (entry, self.setShard idx shard)

def insert (self : ShardedCs C n) (data : Bytes) (name : Name) (staleAt : ℕ) :
    ShardedCs C n × InsertResult :=
  let idx := self.shardFor name
  let (shard, result) := ContentStore.insert (self.shards idx) data name staleAt
  (self.setShard idx shard, result)

def evict (self : ShardedCs C n) (name : Name) : ShardedCs C n × Bool :=
  let idx := self.shardFor name
  let (shard, found) := ContentStore.evict (self.shards idx) name
  (self.setShard idx shard, found)

def evictPrefix (self : ShardedCs C n) (pre : Name) (limit : Option ℕ) : ShardedCs C n × ℕ :=
  let idx := self.shardFor pre
  let (shard, count) := ContentStore.evictPrefix (self.shards idx) pre limit
  (self.setShard idx shard, count)

instance : ContentStore (ShardedCs C n) where
  get := get
  insert := insert
  evict := evict
  evictPrefix := evictPrefix

end

section

variable {C : Type} {n : ℕ} {s : ShardedCs C n} {idx : Fin (n + 1)} {c c' : C}

@[simp] lemma shardFor_setShard (name : Name) :
    (s.setShard idx c).shardFor name = s.shardFor name :=
  rfl

@[simp] lemma shards_setShard_self : (s.setShard idx c).shards idx = c :=
  Function.update_self ..

lemma shards_setShard_of_ne {i : Fin (n + 1)} (h : i ≠ idx) :
    (s.setShard idx c).shards i = s.shards i :=
  Function.update_of_ne h ..

lemma setShard_eq_self : s.setShard idx (s.shards idx) = s := by
  simp [setShard]

end

end ShardedCs

/-! ## Insertions that evict nothing -/

namespace LruCs

def replacedBytes (s : LruCs) (name : Name) : ℕ := ((s.cache.peek name).map CsEntry.len).getD 0

/-- The Data fits in the store beside what it does not replace. -/
def Fits (s : LruCs) (data : Bytes) (name : Name) : Prop :=
  s.currentBytes - s.replacedBytes name + data.length ≤ s.capacityBytes

instance (s : LruCs) (data : Bytes) (name : Name) : Decidable (s.Fits data name) :=
  inferInstanceAs (Decidable (_ ≤ _))

section

variable {s : LruCs} {data : Bytes} {name : Name} {old : CsEntry}

lemma evictUntil_of_le {entryBytes capacity : ℕ} (h : s.currentBytes + entryBytes ≤ capacity) :
    s.evictUntil entryBytes capacity = s := by
  rw [evictUntil]
  cases s.cache.entries.length with
  | zero => rfl
  | succ fuel => rw [evictLoop, if_neg (not_lt.mpr h)]

lemma insert_of_fits_of_none (hon : s.admitEnabled = true) (hget : s.cache.peek name = none)
    (hfits : s.Fits data name) (staleAt : ℕ) :
    s.insert data name staleAt =
      ({ s with
          cache := s.cache.put name ⟨data, staleAt, name⟩
          currentBytes := s.currentBytes + data.length
          prefixIndex := s.prefixIndex.insert name name
          entryCount := s.entryCount + 1 }, .inserted) := by
  rw [Fits, replacedBytes, hget] at hfits
  have hroom : s.evictUntil data.length s.capacityBytes = s := evictUntil_of_le hfits
  rw [insert, if_neg (by simp [hon]), hget]
  simp only [CsEntry.len, hroom]

lemma insert_of_fits_of_some (hon : s.admitEnabled = true) (hget : s.cache.peek name = some old)
    (hfits : s.Fits data name) (staleAt : ℕ) :
    s.insert data name staleAt =
      ({ s with
          cache := s.cache.put name ⟨data, staleAt, name⟩
          currentBytes := s.currentBytes - old.len + data.length }, .replaced) := by
  rw [Fits, replacedBytes, hget] at hfits
  have hroom : { s with currentBytes := s.currentBytes - old.len }.evictUntil data.length
      s.capacityBytes = { s with currentBytes := s.currentBytes - old.len } :=
    evictUntil_of_le hfits
  rw [insert, if_neg (by simp [hon]), hget]
  simp only [CsEntry.len] at hroom ⊢
  rw [hroom]

lemma spared_of_fits (h : s.Ok) (hfits : s.Fits data name) (staleAt : ℕ) :
    s.Spared (.insert data name staleAt) := by
  intro _ hsome
  obtain ⟨old, hget⟩ := Option.isSome_iff_exists.mp hsome
  obtain ⟨newer, older, hes⟩ := s.cache.exists_entries_eq hget
  have hbs := h.bytes
  rw [bytesOf, hes, Lru.weight_append, Lru.weight_cons] at hbs
  rw [Fits, replacedBytes, hget] at hfits
  rw [bytesNewerThan_eq hes, bytesOf]
  simp only [Option.map_some, Option.getD_some] at hfits hbs
  omega

/-- The bytes that are counted are those of the cached names. -/
lemma Counted.bytes_eq_sum (h : Counted 0 s) {names : Finset Name}
    (hall : ∀ name, (s.cache.peek name).isSome → name ∈ names) :
    s.currentBytes = ∑ name ∈ names, s.replacedBytes name := by
  have hmem : ∀ name, name ∈ (s.cache.entries.map Prod.fst).toFinset ↔
      (s.cache.peek name).isSome := by
    intro name
    rw [List.mem_toFinset, ← not_iff_not, ← Lru.peek_eq_none_iff, Option.not_isSome_iff_eq_none]
  have hlist : ((s.cache.entries.map Prod.fst).map s.replacedBytes).sum =
      bytesOf s.cache.entries := by
    rw [List.map_map, bytesOf, Lru.weight]
    refine congrArg List.sum (List.map_congr_left fun x hx => ?_)
    have hget : s.cache.peek x.1 = some x.2 := s.cache.peek_eq_some_iff.mpr hx
    rw [Function.comp_apply, replacedBytes, hget]
    rfl
  calc s.currentBytes = bytesOf s.cache.entries := h.bytes
    _ = ∑ name ∈ (s.cache.entries.map Prod.fst).toFinset, s.replacedBytes name := by
      rw [List.sum_toFinset _ s.cache.distinct, hlist]
    _ = ∑ name ∈ names, s.replacedBytes name := by
      refine Finset.sum_subset (fun name hname => hall name ((hmem name).mp hname)) ?_
      intro name _ hnot
      rw [hmem, Option.not_isSome_iff_eq_none] at hnot
      rw [replacedBytes, hnot]
      rfl

lemma nodup_descendants (h : Counted 0 s) (pre : Name) :
    (s.prefixIndex.descendants pre).Nodup := by
  have hwf := s.prefixIndex.wf
  refine (Trie.descendants_perm hwf pre).nodup_iff.mpr ?_
  have hkey : ∀ x ∈ s.prefixIndex.trie.dump.filter fun x => pre <+: x.1, x.2 = x.1 := by
    intro x hx
    have hget := (Trie.mem_dump_iff hwf).mp (List.mem_of_mem_filter hx)
    exact ((h.index x.1 x.2).mp hget).1
  rw [List.map_congr_left hkey]
  exact ((Trie.nodup_dump hwf).sublist (List.filter_sublist.map _))

/-- **All names evicted**, if the limit allows it. -/
lemma evictNames_spec {max : ℕ} {names : List Name} (hnodup : names.Nodup)
    (hcached : ∀ name ∈ names, (s.cache.peek name).isSome) {evicted : ℕ}
    (hmax : evicted + names.length ≤ max) :
    (evictNames max names evicted s).2 = evicted + names.length ∧
    SameConfig s (evictNames max names evicted s).1 ∧
    (evictNames max names evicted s).1.currentBytes ≤ s.currentBytes ∧
    ∀ name, (evictNames max names evicted s).1.cache.peek name =
      if name ∈ names then none else s.cache.peek name := by
  induction names generalizing s evicted with
  | nil => exact ⟨rfl, ⟨rfl, rfl, rfl⟩, le_rfl, fun name => by simp [evictNames]⟩
  | cons name names ih =>
    obtain ⟨entry, hget⟩ := Option.isSome_iff_exists.mp (hcached name (List.mem_cons_self ..))
    obtain ⟨hnot, hnodup'⟩ := List.nodup_cons.mp hnodup
    have hev : s.evict name = (s.dropped (s.cache.pop name) name entry, true) := by
      rw [evict, hget]
    have hpeek : ∀ name', (s.dropped (s.cache.pop name) name entry).cache.peek name' =
        if name' = name then none else s.cache.peek name' := s.cache.peek_pop name
    rw [List.length_cons] at hmax ⊢
    rw [evictNames, if_neg (by omega), hev, if_pos rfl]
    have hcached' : ∀ name' ∈ names,
        ((s.dropped (s.cache.pop name) name entry).cache.peek name').isSome := by
      intro name' hname'
      have hne : name' ≠ name := fun heq => hnot (heq ▸ hname')
      rw [hpeek, if_neg hne]
      exact hcached name' (List.mem_cons_of_mem _ hname')
    have hmax' : evicted + 1 + names.length ≤ max := by omega
    obtain ⟨hcount, hsame, hbytes, hrest⟩ := ih hnodup' hcached' hmax'
    refine ⟨by rw [hcount]; omega, ⟨hsame.1, hsame.2, hsame.3⟩, hbytes.trans (Nat.sub_le _ _),
      fun name' => ?_⟩
    rw [hrest, hpeek]
    by_cases heq : name' = name
    · simp [heq]
    · simp [heq]

lemma evictPrefix_spec (h : Counted 0 s) {pre : Name} {limit : Option ℕ}
    (hlimit : (s.prefixIndex.descendants pre).length ≤ limit.getD (2 ^ 64 - 1)) :
    (s.evictPrefix pre limit).2 = (s.prefixIndex.descendants pre).length ∧
    SameConfig s (s.evictPrefix pre limit).1 ∧
    (s.evictPrefix pre limit).1.currentBytes ≤ s.currentBytes ∧
    ∀ name, (s.evictPrefix pre limit).1.cache.peek name =
      if name ∈ s.prefixIndex.descendants pre then none else s.cache.peek name := by
  have hmax : 0 + (s.prefixIndex.descendants pre).length ≤ limit.getD (2 ^ 64 - 1) := by omega
  have hspec := evictNames_spec (nodup_descendants h pre)
    (fun name hname => ((mem_descendants_iff h).mp hname).2) hmax
  rw [Nat.zero_add] at hspec
  exact hspec

/-- The same store, up to the order of the hash maps in its index. -/
structure Reorders (s s' : LruCs) : Prop where
  index : ∀ name, s'.prefixIndex.get name = s.prefixIndex.get name
  rest : s' = { s with prefixIndex := s'.prefixIndex }

lemma Reorders.refl (s : LruCs) : s.Reorders s := ⟨fun _ => rfl, rfl⟩

lemma Reorders.ok {s' : LruCs} (h : s.Reorders s') (hok : s.Ok) : s'.Ok := by
  have hindex := h.index
  rw [h.rest] at hindex ⊢
  exact ⟨⟨hok.count, hok.bytes, fun name value => (hindex name).symm ▸ hok.index name value⟩,
    hok.bound⟩

end

end LruCs

namespace ShardedCs

variable {n : ℕ} {one one' c' : LruCs} {s : ShardedCs LruCs n} {idx : Fin (n + 1)}

/-! ## The one store and the shards -/

def OneShard {C : Type} (s : ShardedCs C n) : Prop := ∀ first, s.shardFor [first] = 0

/-- **The one store holds what the shards hold together**, none of which is over its capacity. -/
structure Agree (s : ShardedCs LruCs n) (one : LruCs) : Prop where
  ok : one.Ok
  shard_ok : ∀ i, (s.shards i).Ok
  enabled : one.admitEnabled = true ∧ one.serve = true
  shard_enabled : ∀ i, (s.shards i).admitEnabled = true ∧ (s.shards i).serve = true
  peek : ∀ name, one.cache.peek name = (s.shards (s.shardFor name)).cache.peek name
  home : ∀ i name, ((s.shards i).cache.peek name).isSome → s.shardFor name = i
  capacity : ∑ i, (s.shards i).capacityBytes ≤ one.capacityBytes
  bound : ∀ i, (s.shards i).currentBytes ≤ (s.shards i).capacityBytes

/-- The one store counts the bytes of the shards. -/
lemma Agree.bytes (h : s.Agree one) : one.currentBytes = ∑ i, (s.shards i).currentBytes := by
  have hcached : ∀ name, (one.cache.peek name).isSome →
      name ∈ (one.cache.entries.map Prod.fst).toFinset := by
    intro name hname
    rw [List.mem_toFinset]
    by_contra hnot
    rw [one.cache.peek_eq_none_iff.mpr hnot] at hname
    cases hname
  have hshard : ∀ i, (s.shards i).currentBytes =
      ∑ name ∈ (one.cache.entries.map Prod.fst).toFinset, (s.shards i).replacedBytes name := by
    refine fun i => (h.shard_ok i).bytes_eq_sum fun name hname => hcached name ?_
    rw [h.peek, h.home i name hname]
    exact hname
  rw [Finset.sum_congr rfl fun i _ => hshard i, Finset.sum_comm, h.ok.bytes_eq_sum hcached]
  refine Finset.sum_congr rfl fun name _ => ?_
  rw [Finset.sum_eq_single (s.shardFor name)]
  · rw [LruCs.replacedBytes, LruCs.replacedBytes, h.peek]
  · intro i _ hne
    rw [LruCs.replacedBytes, Option.not_isSome_iff_eq_none.mp fun hsome =>
      hne (h.home i name hsome).symm]
    rfl
  · exact fun hnot => absurd (Finset.mem_univ _) hnot

/-- A change of one shard and a change of the one store that has the same effect. -/
structure InStep (s : ShardedCs LruCs n) (idx : Fin (n + 1)) (one one' c' : LruCs) : Prop where
  ok : one'.Ok
  shard_ok : c'.Ok
  same : LruCs.SameConfig one one'
  shard_same : LruCs.SameConfig (s.shards idx) c'
  peek_own : ∀ name, s.shardFor name = idx → one'.cache.peek name = c'.cache.peek name
  peek_other : ∀ name, s.shardFor name ≠ idx → one'.cache.peek name = one.cache.peek name
  home : ∀ name, (c'.cache.peek name).isSome → s.shardFor name = idx
  bound : c'.currentBytes ≤ c'.capacityBytes

lemma forall_setShard {p : Fin (n + 1) → LruCs → Prop} (hp : ∀ i, p i (s.shards i))
    (hc : p idx c') (i : Fin (n + 1)) : p i ((s.setShard idx c').shards i) := by
  by_cases hi : i = idx
  · rw [hi, shards_setShard_self]
    exact hc
  · rw [shards_setShard_of_ne hi]
    exact hp i

lemma Agree.setShard (h : s.Agree one) (hstep : s.InStep idx one one' c') :
    (s.setShard idx c').Agree one' where
  ok := hstep.ok
  shard_ok := forall_setShard (p := fun _ => LruCs.Ok) h.shard_ok hstep.shard_ok
  enabled := by
    rw [hstep.same.admitEnabled, hstep.same.serve]
    exact h.enabled
  shard_enabled := by
    refine forall_setShard (p := fun _ c => c.admitEnabled = true ∧ c.serve = true)
      h.shard_enabled ?_
    rw [hstep.shard_same.admitEnabled, hstep.shard_same.serve]
    exact h.shard_enabled idx
  peek name := by
    rw [shardFor_setShard]
    by_cases hname : s.shardFor name = idx
    · rw [hname, shards_setShard_self, hstep.peek_own name hname]
    · rw [shards_setShard_of_ne hname, hstep.peek_other name hname, h.peek]
  home := forall_setShard (p := fun i c => ∀ name, (c.cache.peek name).isSome →
    s.shardFor name = i) h.home hstep.home
  capacity := by
    have hsame : ∀ i, ((s.setShard idx c').shards i).capacityBytes = (s.shards i).capacityBytes :=
      forall_setShard (p := fun i c => c.capacityBytes = (s.shards i).capacityBytes)
        (fun _ => rfl) hstep.shard_same.capacityBytes
    rw [Finset.sum_congr rfl fun i _ => hsame i, hstep.same.capacityBytes]
    exact h.capacity
  bound := forall_setShard (p := fun _ c => c.currentBytes ≤ c.capacityBytes) h.bound hstep.bound

/-! ## Insertion and eviction -/

variable {C : Type} {name pre : Name} {data : Bytes} {interest : Interest}

lemma shardFor_eq_zero {s : ShardedCs C n} (h : s.OneShard) (name : Name) :
    s.shardFor name = 0 := by
  cases name with
  | nil => rfl
  | cons first rest => exact h first

lemma Agree.fits (h : s.Agree one)
    (hfits : (s.shards (s.shardFor name)).Fits data name) : one.Fits data name := by
  have hmem := Finset.mem_univ (s.shardFor name)
  have hbs := Finset.add_sum_erase Finset.univ (fun i => (s.shards i).currentBytes) hmem
  have hcap := Finset.add_sum_erase Finset.univ (fun i => (s.shards i).capacityBytes) hmem
  have hrest : ∑ i ∈ Finset.univ.erase (s.shardFor name), (s.shards i).currentBytes ≤
      ∑ i ∈ Finset.univ.erase (s.shardFor name), (s.shards i).capacityBytes :=
    Finset.sum_le_sum fun i _ => h.bound i
  have hsum := h.bytes
  have hroom := h.capacity
  rw [LruCs.Fits, LruCs.replacedBytes] at hfits ⊢
  rw [h.peek name]
  omega

/-- The store `c` becomes `c'`, which has `found` under some names. -/
structure Changes (names : Set Name) (found : Option CsEntry) (c c' : LruCs) : Prop where
  ok : c'.Ok
  same : LruCs.SameConfig c c'
  inside : ∀ name ∈ names, c'.cache.peek name = found
  outside : ∀ name ∉ names, c'.cache.peek name = c.cache.peek name

/-- **A change under some names** of one shard, there and in the one store. -/
lemma agree_of_changes (h : s.Agree one) {names : Set Name}
    (hnames : ∀ name ∈ names, s.shardFor name = idx) {found : Option CsEntry}
    (hone : Changes names found one one') (hshar : Changes names found (s.shards idx) c')
    (hbd : c'.currentBytes ≤ c'.capacityBytes) : (s.setShard idx c').Agree one' := by
  refine h.setShard ⟨hone.ok, hshar.ok, hone.same, hshar.same, ?_, ?_, ?_, hbd⟩
  · intro name hname
    by_cases hin : name ∈ names
    · rw [hone.inside name hin, hshar.inside name hin]
    · rw [hone.outside name hin, hshar.outside name hin, h.peek, hname]
  · intro name hname
    rw [hone.outside name fun hin => hname (hnames name hin)]
  · intro name hname
    by_cases hin : name ∈ names
    · exact hnames name hin
    · rw [hshar.outside name hin] at hname
      exact h.home idx name hname

lemma agree_insert (h : s.Agree one)
    (hfits : (s.shards (s.shardFor name)).Fits data name) (staleAt : ℕ) :
    (s.insert data name staleAt).2 = (one.insert data name staleAt).2 ∧
    (s.insert data name staleAt).1.Agree (one.insert data name staleAt).1 := by
  have hfits' := h.fits hfits
  have hshard := h.shard_ok (s.shardFor name)
  have hok := LruCs.ok_insert h.ok data name staleAt (LruCs.spared_of_fits h.ok hfits' staleAt)
  have hshar := LruCs.ok_insert hshard data name staleAt (LruCs.spared_of_fits hshard hfits staleAt)
  have hins : s.insert data name staleAt =
      (s.setShard (s.shardFor name) ((s.shards (s.shardFor name)).insert data name staleAt).1,
        ((s.shards (s.shardFor name)).insert data name staleAt).2) := rfl
  have hput : ∀ c : LruCs, (∀ name' ∈ ({name} : Set Name),
        (c.cache.put name ⟨data, staleAt, name⟩).peek name' = some ⟨data, staleAt, name⟩) ∧
      ∀ name' ∉ ({name} : Set Name), (c.cache.put name ⟨data, staleAt, name⟩).peek name' =
        c.cache.peek name' := by
    refine fun c => ⟨fun name' hname' => ?_, fun name' hname' => ?_⟩
    · rw [Lru.peek_put, if_pos (Set.mem_singleton_iff.mp hname')]
    · rw [Lru.peek_put, if_neg (mt Set.mem_singleton_iff.mpr hname')]
  have hown : ∀ name' ∈ ({name} : Set Name), s.shardFor name' = s.shardFor name :=
    fun name' hname' => congrArg s.shardFor hname'
  have hpeek := h.peek name
  rw [hins]
  cases hget : (s.shards (s.shardFor name)).cache.peek name with
  | none =>
    rw [hget] at hpeek
    rw [LruCs.insert_of_fits_of_none (h.shard_enabled _).1 hget hfits] at hshar ⊢
    rw [LruCs.insert_of_fits_of_none h.enabled.1 hpeek hfits'] at hok ⊢
    rw [LruCs.Fits, LruCs.replacedBytes, hget] at hfits
    exact ⟨rfl, agree_of_changes h hown ⟨hok, ⟨rfl, rfl, rfl⟩, (hput one).1, (hput one).2⟩
      ⟨hshar, ⟨rfl, rfl, rfl⟩, (hput _).1, (hput _).2⟩ hfits⟩
  | some old =>
    rw [hget] at hpeek
    rw [LruCs.insert_of_fits_of_some (h.shard_enabled _).1 hget hfits] at hshar ⊢
    rw [LruCs.insert_of_fits_of_some h.enabled.1 hpeek hfits'] at hok ⊢
    rw [LruCs.Fits, LruCs.replacedBytes, hget] at hfits
    exact ⟨rfl, agree_of_changes h hown ⟨hok, ⟨rfl, rfl, rfl⟩, (hput one).1, (hput one).2⟩
      ⟨hshar, ⟨rfl, rfl, rfl⟩, (hput _).1, (hput _).2⟩ hfits⟩

lemma agree_evict (h : s.Agree one) (name : Name) :
    (s.evict name).2 = (one.evict name).2 ∧ (s.evict name).1.Agree (one.evict name).1 := by
  have hok := LruCs.ok_evict h.ok name
  have hshar := LruCs.ok_evict (h.shard_ok (s.shardFor name)) name
  have hev : s.evict name =
      (s.setShard (s.shardFor name) ((s.shards (s.shardFor name)).evict name).1,
        ((s.shards (s.shardFor name)).evict name).2) := rfl
  have hpeek := h.peek name
  rw [hev]
  cases hget : (s.shards (s.shardFor name)).cache.peek name with
  | none =>
    rw [hget] at hpeek
    rw [LruCs.evict, LruCs.evict, hget, hpeek]
    exact ⟨rfl, by rw [setShard_eq_self]; exact h⟩
  | some old =>
    rw [hget] at hpeek
    have hpop : ∀ c : LruCs, (∀ name' ∈ ({name} : Set Name), (c.cache.pop name).peek name' = none) ∧
        ∀ name' ∉ ({name} : Set Name), (c.cache.pop name).peek name' = c.cache.peek name' := by
      refine fun c => ⟨fun name' hname' => ?_, fun name' hname' => ?_⟩
      · rw [Lru.peek_pop, if_pos (Set.mem_singleton_iff.mp hname')]
      · rw [Lru.peek_pop, if_neg (mt Set.mem_singleton_iff.mpr hname')]
    rw [LruCs.evict, hget] at hshar ⊢
    rw [LruCs.evict, hpeek] at hok ⊢
    exact ⟨rfl, agree_of_changes h (fun name' hname' => congrArg s.shardFor hname')
      ⟨hok, ⟨rfl, rfl, rfl⟩, (hpop one).1, (hpop one).2⟩
      ⟨hshar, ⟨rfl, rfl, rfl⟩, (hpop _).1, (hpop _).2⟩
      ((Nat.sub_le _ _).trans (h.bound (s.shardFor name)))⟩

/-! ## Prefixes -/

def HasShard {C : Type} (s : ShardedCs C n) (pre : Name) : Prop := pre ≠ [] ∨ s.OneShard

lemma shardFor_of_prefix {s : ShardedCs C n} (hpre : s.HasShard pre)
    (hname : pre <+: name) : s.shardFor name = s.shardFor pre := by
  rcases hpre with hne | hone
  · obtain ⟨rest, rfl⟩ := hname
    cases pre with
    | nil => exact absurd rfl hne
    | cons first pre => rfl
  · rw [shardFor_eq_zero hone, shardFor_eq_zero hone]

/-- The names under a prefix are the same in its shard and in the one store, in some order. -/
lemma Agree.descendants_perm (h : s.Agree one) (hpre : s.HasShard pre) :
    ((s.shards (s.shardFor pre)).prefixIndex.descendants pre).Perm
      (one.prefixIndex.descendants pre) := by
  have hshard := (h.shard_ok (s.shardFor pre)).toCounted
  rw [List.perm_ext_iff_of_nodup (LruCs.nodup_descendants hshard pre)
    (LruCs.nodup_descendants h.ok.toCounted pre)]
  intro name
  rw [LruCs.mem_descendants_iff hshard, LruCs.mem_descendants_iff h.ok.toCounted]
  refine and_congr_right fun hname => ?_
  rw [h.peek, shardFor_of_prefix hpre hname]

lemma agree_evictPrefix (h : s.Agree one) (hpre : s.HasShard pre) {limit : Option ℕ}
    (hlimit : ((s.shards (s.shardFor pre)).prefixIndex.descendants pre).length ≤
      limit.getD (2 ^ 64 - 1)) :
    (s.evictPrefix pre limit).2 = (one.evictPrefix pre limit).2 ∧
    (s.evictPrefix pre limit).1.Agree (one.evictPrefix pre limit).1 := by
  have hperm := h.descendants_perm hpre
  have hshard := h.shard_ok (s.shardFor pre)
  obtain ⟨hcount, hsame, hbytes, hpeek⟩ := LruCs.evictPrefix_spec hshard.toCounted hlimit
  obtain ⟨hcount', hsame', -, hpeek'⟩ :=
    LruCs.evictPrefix_spec h.ok.toCounted (hperm.length_eq ▸ hlimit)
  have hev : s.evictPrefix pre limit =
      (s.setShard (s.shardFor pre) ((s.shards (s.shardFor pre)).evictPrefix pre limit).1,
        ((s.shards (s.shardFor pre)).evictPrefix pre limit).2) := rfl
  rw [hev]
  refine ⟨by rw [hcount, hcount', hperm.length_eq], ?_⟩
  have hone : Changes {name | name ∈ one.prefixIndex.descendants pre} none one
      (one.evictPrefix pre limit).1 :=
    ⟨LruCs.ok_evictNames h.ok _ _ _, hsame', fun name hname => (hpeek' name).trans (if_pos hname),
      fun name hname => (hpeek' name).trans (if_neg hname)⟩
  have hshar : Changes {name | name ∈ one.prefixIndex.descendants pre} none
      (s.shards (s.shardFor pre)) ((s.shards (s.shardFor pre)).evictPrefix pre limit).1 :=
    ⟨LruCs.ok_evictNames hshard _ _ _, hsame,
      fun name hname => (hpeek name).trans (if_pos (hperm.mem_iff.mpr hname)),
      fun name hname => (hpeek name).trans (if_neg (mt hperm.mem_iff.mp hname))⟩
  refine agree_of_changes h (fun name hname => ?_) hone hshar ?_
  · exact shardFor_of_prefix hpre ((LruCs.mem_descendants_iff h.ok.toCounted).mp hname).1
  · rw [hsame.capacityBytes]
    exact hbytes.trans (h.bound _)

/-! ## Lookups -/

/-- The Interest is about names of one shard: a digest at the end of its name can be left out, and
its name has a shard if it is a prefix. -/
def AsksOne {C : Type} (s : ShardedCs C n) (interest : Interest) : Prop :=
  (LruCs.EndsIn implicitSha256 interest.name ∨
    LruCs.EndsIn parametersSha256 interest.name →
      s.shardFor interest.name.dropLast = s.shardFor interest.name) ∧
  (interest.selectors.canBePrefix = true → s.HasShard interest.name)

/-- The cached entries under the prefix are all fresh or all stale. -/
def EvenlyFresh (c : LruCs) (pre : Name) (nowNs : ℕ) : Prop :=
  ∀ name entry name' entry', c.cache.peek name = some entry → pre <+: name →
    c.cache.peek name' = some entry' → pre <+: name' → entry.isFresh nowNs = entry'.isFresh nowNs

/-- The candidate of the shard is that of the one store, or both are under the prefix. -/
lemma Agree.candidate (h : s.Agree one) (hasks : s.AsksOne interest) {c : LruCs}
    (hc : c = s.shards (s.shardFor interest.name)) :
    (c.candidate interest).1 = (one.candidate interest).1 ∨
      interest.selectors.canBePrefix = true ∧ ∃ name entry name' entry',
        ((c.candidate interest).1 = some entry ∧ (one.candidate interest).1 = some entry') ∧
        (c.cache.peek name = some entry ∧ interest.name <+: name) ∧
        (c.cache.peek name' = some entry' ∧ interest.name <+: name') := by
  subst hc
  rw [LruCs.candidate, LruCs.candidate]
  simp only [LruCs.cacheGet]
  split_ifs with himp hprm hcanBe
  · have hdrop := hasks.1 (.inl (LruCs.endsIn_iff.mpr himp))
    exact .inl (by rw [h.peek interest.name.dropLast, hdrop])
  · have hdrop := hasks.1 (.inr (LruCs.endsIn_iff.mpr hprm))
    exact .inl (by rw [h.peek interest.name.dropLast, hdrop])
  · obtain ⟨hsound, hcomp⟩ := LruCs.firstDescendant_spec (h.shard_ok _).toCounted interest.name
    obtain ⟨hsound', hcomp'⟩ := LruCs.firstDescendant_spec h.ok.toCounted interest.name
    have hhere : ∀ name, interest.name <+: name →
        one.cache.peek name = (s.shards (s.shardFor interest.name)).cache.peek name := by
      intro name hpre
      rw [h.peek, shardFor_of_prefix (hasks.2 hcanBe) hpre]
    cases hfst : (s.shards (s.shardFor interest.name)).prefixIndex.firstDescendant
        interest.name with
    | none =>
      cases hfst' : one.prefixIndex.firstDescendant interest.name with
      | none => exact .inl rfl
      | some name' =>
        obtain ⟨hpre', hsome'⟩ := hsound' name' hfst'
        have hfound := hcomp ⟨name', hpre', by rwa [← hhere name' hpre']⟩
        rw [hfst] at hfound
        cases hfound
    | some name =>
      obtain ⟨hpre, hsome⟩ := hsound name hfst
      obtain ⟨name', hfst'⟩ := Option.isSome_iff_exists.mp
        (hcomp' ⟨name, hpre, by rwa [hhere name hpre]⟩)
      obtain ⟨hpre', hsome'⟩ := hsound' name' hfst'
      obtain ⟨entry, hget⟩ := Option.isSome_iff_exists.mp hsome
      obtain ⟨entry', hget'⟩ := Option.isSome_iff_exists.mp hsome'
      rw [hfst']
      exact .inr ⟨hcanBe, name, entry, name', entry', ⟨hget, hget'⟩, ⟨hget, hpre⟩,
        (hhere name' hpre').symm.trans hget', hpre'⟩
  · exact .inl (by rw [h.peek interest.name])

/-- A lookup changes nothing that the stores have to agree on. -/
lemma changes_get {c : LruCs} (h : c.Ok) (interest : Interest) (nowNs : ℕ) :
    Changes ∅ none c (c.get interest nowNs).2 ∧
      (c.get interest nowNs).2.currentBytes = c.currentBytes := by
  have hok := LruCs.ok_get h interest nowNs
  rcases c.get_snd interest nowNs with heq | ⟨name, heq⟩
  · rw [heq] at hok ⊢
    exact ⟨⟨hok, ⟨rfl, rfl, rfl⟩, nofun, fun _ _ => rfl⟩, rfl⟩
  · rw [heq] at hok ⊢
    exact ⟨⟨hok, ⟨rfl, rfl, rfl⟩, nofun, fun name' _ => c.cache.peek_touch name name'⟩, rfl⟩

/-- **Lookups** of an Interest that is about names of one shard. -/
lemma agree_get (h : s.Agree one) (hasks : s.AsksOne interest) {nowNs : ℕ}
    (heven : interest.selectors.canBePrefix = true → interest.selectors.mustBeFresh = true →
      EvenlyFresh (s.shards (s.shardFor interest.name)) interest.name nowNs) :
    (s.get interest nowNs).1.isSome = (one.get interest nowNs).1.isSome ∧
    (s.get interest nowNs).2.Agree (one.get interest nowNs).2 := by
  have hget : s.get interest nowNs =
      (((s.shards (s.shardFor interest.name)).get interest nowNs).1,
        s.setShard (s.shardFor interest.name)
          ((s.shards (s.shardFor interest.name)).get interest nowNs).2) := rfl
  have hshard := h.shard_ok (s.shardFor interest.name)
  rw [hget]
  constructor
  · rw [LruCs.get_fst hshard.toCounted (h.shard_enabled _).2,
      LruCs.get_fst h.ok.toCounted h.enabled.2]
    rcases h.candidate hasks rfl with
      heq | ⟨hcanBe, name, entry, name', entry', ⟨hcan, hcan'⟩, ⟨hpk, hpre⟩, hpk', hpre'⟩
    · rw [heq]
    · rw [hcan, hcan', Option.filter_some, Option.filter_some]
      cases hmust : interest.selectors.mustBeFresh with
      | false => rfl
      | true =>
        rw [heven hcanBe hmust name entry name' entry' hpk hpre hpk' hpre']
        split_ifs <;> rfl
  · obtain ⟨hone, -⟩ := changes_get h.ok interest nowNs
    obtain ⟨hshar, hbytes⟩ := changes_get hshard interest nowNs
    refine agree_of_changes h (fun _ hname => absurd hname (Set.notMem_empty _)) hone hshar ?_
    rw [hbytes, hshar.same.capacityBytes]
    exact h.bound _

/-! ## Sequences of operations -/

/-- The operation does not fill its shard up. -/
def Fits (s : ShardedCs LruCs n) : Op → Prop
  | .insert data name _ => (s.shards (s.shardFor name)).Fits data name
  | _ => True

instance (s : ShardedCs LruCs n) : (op : Op) → Decidable (s.Fits op)
  | .insert data name _ => inferInstanceAs (Decidable ((s.shards (s.shardFor name)).Fits data name))
  | .get _ _ => .isTrue trivial
  | .evict _ => .isTrue trivial
  | .evictPrefix _ _ => .isTrue trivial

/-- All names that the operation is about go to the shard that it is sent to, and its result does
not depend on which of them come first: a lookup under a prefix that asks for fresh Data finds only
fresh or only stale entries there, and an eviction may evict all of them. -/
def Routed (s : ShardedCs LruCs n) : Op → Prop
  | .get interest nowNs => s.AsksOne interest ∧
      (interest.selectors.canBePrefix = true → interest.selectors.mustBeFresh = true →
        EvenlyFresh (s.shards (s.shardFor interest.name)) interest.name nowNs)
  | .evictPrefix pre limit => s.HasShard pre ∧
      ((s.shards (s.shardFor pre)).prefixIndex.descendants pre).length ≤ limit.getD (2 ^ 64 - 1)
  | _ => True

/-- **One operation** has the same result on the shards and on one store. -/
theorem agree_apply (h : s.Agree one) {op : Op} (hfits : s.Fits op) (hrout : s.Routed op) :
    (apply s op).2 = (apply one op).2 ∧ (apply s op).1.Agree (apply one op).1 := by
  cases op with
  | insert data name staleAt =>
    obtain ⟨hres, hagr⟩ := agree_insert h hfits staleAt
    exact ⟨congrArg Output.inserted hres, hagr⟩
  | get interest nowNs =>
    obtain ⟨hres, hagr⟩ := agree_get h hrout.1 hrout.2
    exact ⟨congrArg Output.got hres, hagr⟩
  | evict name =>
    obtain ⟨hres, hagr⟩ := agree_evict h name
    exact ⟨congrArg Output.evicted hres, hagr⟩
  | evictPrefix pre limit =>
    obtain ⟨hres, hagr⟩ := agree_evictPrefix h hrout.1 hrout.2
    exact ⟨congrArg Output.evictedPrefix hres, hagr⟩

/-- The same shards, up to the order of their hash maps. -/
structure Reorders (s s' : ShardedCs LruCs n) : Prop where
  hash : s'.hash = s.hash
  shard : ∀ i, (s.shards i).Reorders (s'.shards i)

lemma Reorders.refl (s : ShardedCs LruCs n) : s.Reorders s := ⟨rfl, fun i => .refl (s.shards i)⟩

lemma Agree.reorder {s' : ShardedCs LruCs n} (h : s.Agree one) (hs : s.Reorders s')
    (hone : one.Reorders one') : s'.Agree one' := by
  have hfor : ∀ name, s'.shardFor name = s.shardFor name := by
    intro name
    rw [shardFor, shardFor, hs.hash]
  have hcache : ∀ i, (s'.shards i).cache = (s.shards i).cache := fun i => by rw [(hs.shard i).rest]
  have hcur : ∀ i, (s'.shards i).currentBytes = (s.shards i).currentBytes :=
    fun i => by rw [(hs.shard i).rest]
  have hcap : ∀ i, (s'.shards i).capacityBytes = (s.shards i).capacityBytes :=
    fun i => by rw [(hs.shard i).rest]
  refine ⟨hone.ok h.ok, fun i => (hs.shard i).ok (h.shard_ok i), ?_, fun i => ?_, fun name => ?_,
    fun i name hname => ?_, ?_, fun i => ?_⟩
  · rw [hone.rest]
    exact h.enabled
  · rw [(hs.shard i).rest]
    exact h.shard_enabled i
  · rw [hone.rest, hfor, hcache]
    exact h.peek name
  · rw [hcache] at hname
    rw [hfor]
    exact h.home i name hname
  · rw [Finset.sum_congr rfl fun i _ => hcap i, hone.rest]
    exact h.capacity
  · rw [hcur, hcap]
    exact h.bound i

/-- `ShardedCs::new` of empty stores. -/
def new (hash : NameComponent → ℕ) (capacities : Fin (n + 1) → ℕ) : ShardedCs LruCs n where
  shards i := .new (capacities i)
  hash := hash

lemma agree_new (hash : NameComponent → ℕ) {capacities : Fin (n + 1) → ℕ} {capacity : ℕ}
    (h : ∑ i, capacities i ≤ capacity) : (new hash capacities).Agree (.new capacity) where
  ok := LruCs.ok_new capacity
  shard_ok i := LruCs.ok_new (capacities i)
  enabled := ⟨rfl, rfl⟩
  shard_enabled _ := ⟨rfl, rfl⟩
  peek _ := rfl
  home _ _ := nofun
  capacity := h
  bound _ := Nat.zero_le _

/-- What the shards may return on some operations, each of which fits and is routed. -/
abbrev Returns (s : ShardedCs LruCs n) : List Op → List Output → Prop :=
  Run.Yields (Performs Reorders fun s op => s.Fits op ∧ s.Routed op) s

/-- What one store may return on some operations. -/
abbrev OneReturns (one : LruCs) : List Op → List Output → Prop :=
  Run.Yields (Performs LruCs.Reorders fun _ _ => True) one

/-- **A store of shards that never fill up is like one store**, for every number of shards, every
hash and all operations sent to the shard of the names they are about: the results are the same, in
whatever order the hash maps of the stores are, if the one store has at least the capacity of the
shards together. -/
theorem outputs_eq_unsharded (hash : NameComponent → ℕ) (capacities : Fin (n + 1) → ℕ)
    (capacity : ℕ) (hcapacity : ∑ i, capacities i ≤ capacity) {ops : List Op}
    {outputs outputs' : List Output} (hshards : (new hash capacities).Returns ops outputs)
    (hone : OneReturns (.new capacity) ops outputs') : outputs = outputs' := by
  refine Run.Yields.eq_of_rel Agree ?_ (agree_new hash hcapacity) hshards hone
  rintro s one op s' one' output output' hagr ⟨s₀, hs, ⟨hfits, hrout⟩, happ⟩ ⟨one₀, ho, -, happ'⟩
  obtain ⟨hout, hnext⟩ := agree_apply (hagr.reorder hs ho) hfits hrout
  rw [happ, happ'] at hout hnext
  exact ⟨hout, hnext⟩

namespace Sample

/-- A hash with which `/a` and `/bb` go to different ones of two shards. -/
def byLength (first : NameComponent) : ℕ := first.value.length

/-- An Interest for `/a`, with CanBePrefix. -/
def prefixInterest : Interest :=
  ⟨[0x05, 0x07, 0x07, 0x03, 0x08, 0x01, 0x61, 0x21, 0x00], [.ofText "a"]⟩

/-- Data under `/a/b`, under `/a/c` and under `/bb`, of another shard; a lookup of one of the first
two by their prefix; and an eviction under the prefix. -/
def ops : List Op :=
  [.insert [6, 0] [.ofText "a", .ofText "b"] 9, .insert [6, 0] [.ofText "a", .ofText "c"] 9,
    .insert [6, 0] [.ofText "bb"] 9, .get prefixInterest 5, .evictPrefix [.ofText "a"] none]

/-- What all stores return on them. -/
def outputs : List Output :=
  [.inserted .inserted, .inserted .inserted, .inserted .inserted, .got true, .evictedPrefix 2]

end Sample

open Sample in
/-- `outputs_eq_unsharded` for a prefix that has a shard: in any order of its hash maps, one store
finds one Data and evicts two. -/
theorem outputs_eq_unsharded_prefix :
    {outputs | OneReturns (.new 20) ops outputs} = {outputs} := by
  have hshards : (new (n := 1) byLength fun _ => 10).Returns ops
      (Run.outputs apply (new (n := 1) byLength fun _ => 10) ops) := by
    refine .of_admits (fun s op h => ⟨s, .refl s, h, rfl⟩)
      ⟨⟨by decide, trivial⟩, ⟨by decide +kernel, trivial⟩, ⟨by decide +kernel, trivial⟩,
        ⟨trivial, ⟨?_, fun _ => .inl (by decide)⟩, fun _ hmust => absurd hmust (by decide)⟩,
        ⟨trivial, .inl (by decide), by decide +kernel⟩, trivial⟩
    rw [LruCs.endsIn_iff, LruCs.endsIn_iff]
    decide
  have hone : OneReturns (.new 20) ops (Run.outputs apply (LruCs.new 20) ops) :=
    .of_admits (fun s op h => ⟨s, .refl s, h, rfl⟩)
      ⟨trivial, trivial, trivial, trivial, trivial, trivial⟩
  have houts : Run.outputs apply (LruCs.new 20) ops = outputs := by decide +kernel
  have heq : ∀ {outputs}, OneReturns (.new 20) ops outputs → _ = outputs :=
    outputs_eq_unsharded byLength (fun _ => 10) 20 (by decide) hshards
  ext outputs
  constructor
  · intro h
    exact (heq h).symm.trans ((heq hone).trans houts)
  · rintro rfl
    exact houts ▸ hone

/-- Data under `/x` is inserted, and everything is evicted. -/
def Sample.evictAll : List Op := [.insert [6, 0] [.ofText "x"] 9, .evictPrefix [] none]

open Sample in
/-- **The root prefix.** Data under `/x` is in the second of two shards. Evicting everything under
the root prefix evicts nothing, because it is sent to the first; one store evicts the Data. -/
theorem root_prefix_misses :
    Run.Yields (Performs Reorders Fits) (new (n := 1) byLength fun _ => 10) evictAll
      [.inserted .inserted, .evictedPrefix 0] ∧
    OneReturns (.new 20) evictAll [.inserted .inserted, .evictedPrefix 1] := by
  have hshards : Run.outputs apply (new (n := 1) byLength fun _ => 10) evictAll =
      [.inserted .inserted, .evictedPrefix 0] := by
    decide +kernel
  have hone : Run.outputs apply (LruCs.new 20) evictAll =
      [.inserted .inserted, .evictedPrefix 1] := by
    decide +kernel
  rw [← hshards, ← hone]
  constructor
  · exact .of_admits (fun s op h => ⟨s, .refl s, h, rfl⟩) ⟨by decide, trivial, trivial⟩
  · exact .of_admits (fun s op h => ⟨s, .refl s, h, rfl⟩) ⟨trivial, trivial, trivial⟩

end ShardedCs

end NdnRs
