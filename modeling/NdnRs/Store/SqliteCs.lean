import NdnRs.Store.KeyCodec
import NdnRs.Store.LruCs

/-!
# The persistent content store (`ndn-store/src/sqlite_cs.rs`)

Rows in a SQLite table, and two counters beside it: the bytes of all Data and the number of rows.
Each statement on the table may fail by itself, and the counters are adjusted between the
statements.

## Implementation notes

The two counters and the capacity are 64-bit numbers that wrap, as the source's atomic counters do.

## Main results

* `consistent_iff` — when the counters are those of the table.
-/

namespace NdnRs

open Bytes KeyCodec List Assoc
open UInt64 (add_zero not_le ofNat ofNat_add)

/-! ## The database -/

def toI64 (v : ℕ) : ℤ := (BitVec.ofNat 64 v).toInt

def fromI64 (v : ℤ) : ℕ := (BitVec.ofInt 64 v).toNat

/-- A row of the table `cs`, without its key. -/
structure Row where
  staleAt : ℤ
  data : Bytes
  lastAccess : ℤ

/-- `length(data)`, as the source reads it. -/
def Row.len (self : Row) : UInt64 := .ofNat self.data.length

/-- The table `cs`; the key is its primary key. -/
structure Table where
  rows : List (Bytes × Row)
  nodup : (rows.map Prod.fst).Nodup

namespace Table

def empty : Table := ⟨[], List.nodup_nil⟩

def get (self : Table) (key : Bytes) : Option Row := self.rows.lookup key

/-- `INSERT OR REPLACE`. -/
def put (self : Table) (key : Bytes) (row : Row) : Table :=
  ⟨Assoc.insert key row self.rows, Assoc.nodup_keys_insert key row self.nodup⟩

def delete (self : Table) (key : Bytes) : Table :=
  ⟨Assoc.erase key self.rows, self.nodup.sublist (List.filter_sublist.map Prod.fst)⟩

/-- `UPDATE cs SET last_access`. -/
def access (self : Table) (key : Bytes) (lastAccess : ℤ) : Table :=
  ⟨self.rows.map fun (k, row) =>
      (k, if k = key then { row with lastAccess := lastAccess } else row),
    by rw [List.map_map]; exact self.nodup⟩

end Table

/-- What the database leaves open: the order of rows that were last accessed at the same time. -/
structure Sqlite where
  orderByLastAccess : List (Bytes × Row) → List (Bytes × Row)
  orderByLastAccess_perm : ∀ rows, (orderByLastAccess rows).Perm rows
  orderByLastAccess_sorted : ∀ rows,
    (orderByLastAccess rows).Pairwise fun a b => a.2.lastAccess ≤ b.2.lastAccess

/-- What fails during an operation: the lock on the connection, the statement that reads a row, the
one that lists rows, the reading of some of the rows listed, the deletion of some rows, the last
access being noted, and the statement that writes a row. -/
structure Faults where
  lock : Bool := false
  read : Bool := false
  scan : Bool := false
  row : Bytes → Bool := fun _ => false
  delete : Bytes → Bool := fun _ => false
  access : Bool := false
  write : Bool := false

structure SqliteCs where
  table : Table
  maxBytes : UInt64
  currentBytes : UInt64
  entryCount : UInt64

namespace SqliteCs

def bytesOf (table : Table) : ℕ := Assoc.total (fun row => row.data.length) table.rows

/-- `SqliteCs::open`, on the table that is in the file. -/
def openTable (table : Table) (maxBytes : UInt64) : SqliteCs :=
  ⟨table, maxBytes, .ofNat (bytesOf table), .ofNat table.rows.length⟩

/-! ## Eviction -/

abbrev Victim := Bytes × UInt64

variable (faults : Faults) (now : ℕ) (self : SqliteCs)

/-- The rows that can be read, of those listed. -/
def listed (rows : List (Bytes × Row)) : List Victim :=
  if faults.scan then []
  else (rows.filter fun r => !faults.row r.1).map fun r => (r.1, r.2.len)

/-- The loop of `evict_to_fit` that collects the victims. -/
def chooseVictims (max needed : UInt64) : UInt64 → List Victim → List Victim
  | _, [] => []
  | current, row :: rest =>
    if current + needed ≤ max then []
    else row :: chooseVictims max needed (if row.2 ≤ current then current - row.2 else 0) rest

/-- The loop that deletes the victims, on one of them. -/
def deleteVictim (victim : Victim) : SqliteCs :=
  if faults.delete victim.1 then self
  else
    { self with
      table := self.table.delete victim.1
      currentBytes := self.currentBytes - victim.2
      entryCount := self.entryCount - 1 }

def evictToFit (db : Sqlite) (faults : Faults) (self : SqliteCs) (needed : UInt64) : SqliteCs :=
  if self.currentBytes + needed ≤ self.maxBytes then self
  else
    let rows := listed faults (db.orderByLastAccess self.table.rows)
    (chooseVictims self.maxBytes needed self.currentBytes rows).foldl (deleteVictim faults) self

/-! ## Operations -/

/-- The length of the row of a key, if it can be read. -/
def oldLen (key : Bytes) : Option UInt64 :=
  if faults.read then none else (self.table.get key).map Row.len

/-- The store behind the point where an insertion has taken the old row off the counter and has
evicted what does not fit. -/
def makeRoom (db : Sqlite) (faults : Faults) (self : SqliteCs) (key data : Bytes) : SqliteCs :=
  let self := { self with currentBytes := self.currentBytes - (self.oldLen faults key).getD 0 }
  self.evictToFit db faults (.ofNat data.length)

/-- `SqliteCs::insert`, at the time `now`. -/
def insert (db : Sqlite) (faults : Faults) (now : ℕ) (self : SqliteCs) (data : Bytes) (name : Name)
    (staleAt : ℕ) : SqliteCs × InsertResult :=
  let key := nameToKey name
  if faults.lock then (self, .skipped)
  else
    let old := self.oldLen faults key
    let self := self.makeRoom db faults key data
    if faults.write then (self, .skipped)
    else
      let self := { self with
        table := self.table.put key ⟨toI64 staleAt, data, toI64 now⟩
        currentBytes := self.currentBytes + UInt64.ofNat data.length }
      if old.isSome then (self, .replaced)
      else ({ self with entryCount := self.entryCount + 1 }, .inserted)

/-- The last access of a row is noted, if that does not fail. -/
def noteAccess (key : Bytes) : SqliteCs :=
  if faults.access then self else { self with table := self.table.access key (toI64 now) }

def fetchExact (key : Bytes) : Option (ℕ × Bytes) × SqliteCs :=
  match if faults.read then none else self.table.get key with
  | none => (none, self)
  | some row => (some (fromI64 row.staleAt, row.data), self.noteAccess faults now key)

/-- The rows in the range of a prefix, in the order of their keys. -/
def inRange (table : Table) (prefixKey : Bytes) : List (Bytes × Row) :=
  let rows := table.rows.filter fun r =>
    (compare prefixKey r.1).isLE &&
      match prefixUpperBound prefixKey with
      | some upper => compare r.1 upper = .lt
      | none => true
  rows.insertionSort fun a b => (compare a.1 b.1).isLE = true

/-- The CanBePrefix branch of `get`. -/
def fetchFirst (prefixKey : Bytes) : Option CsEntry × SqliteCs :=
  match if faults.read then none else (inRange self.table prefixKey).head? with
  | none => (none, self)
  | some (key, row) =>
    match keyToName key with
    | none => (none, self)
    | some name => (some ⟨row.data, fromI64 row.staleAt, name⟩, self.noteAccess faults now key)

/-- The entry that `get` takes for an Interest, before it looks at its freshness. -/
def candidate (interest : Interest) : Option CsEntry × SqliteCs :=
  if interest.name.getLast?.map NameComponent.typ = some TlvType.implicitSha256 then
    let dataName := interest.name.dropLast
    let (found, self) := self.fetchExact faults now (nameToKey dataName)
    (found.bind fun (staleAt, data) =>
      if interest.name.getLast?.map NameComponent.value = some (Sha256.digest data) then
        some ⟨data, staleAt, dataName⟩
      else none, self)
  else if interest.selectors.canBePrefix then
    self.fetchFirst faults now (nameToKey interest.name)
  else
    let (found, self) := self.fetchExact faults now (nameToKey interest.name)
    (found.map fun (staleAt, data) => ⟨data, staleAt, interest.name⟩, self)

/-- `SqliteCs::get`, at the time `now`. -/
def get (interest : Interest) : Option CsEntry × SqliteCs :=
  if self.entryCount = 0 then (none, self)
  else if faults.lock then (none, self)
  else
    let (entry, self) := self.candidate faults now interest
    (entry.filter fun entry => !(interest.selectors.mustBeFresh && !entry.isFresh now), self)

def evict (name : Name) : SqliteCs × Bool :=
  let key := nameToKey name
  if faults.lock then (self, false)
  else
    match self.oldLen faults key with
    | none => (self, false)
    | some old =>
      if faults.delete key then (self, false) else (self.deleteVictim faults (key, old), true)

def setCapacity (db : Sqlite) (faults : Faults) (self : SqliteCs) (maxBytes : UInt64) : SqliteCs :=
  let self := { self with maxBytes := maxBytes }
  if faults.lock then self else self.evictToFit db faults 0

def evictPrefix (pre : Name) (limit : Option ℕ) : SqliteCs × ℕ :=
  if faults.lock then (self, 0)
  else
    let collected := listed faults (inRange self.table (nameToKey pre))
    let victims := collected.take (limit.getD (2 ^ 64 - 1))
    (victims.foldl (deleteVictim faults) self, victims.countP fun victim => !faults.delete victim.1)

/-- The operations, each with the statements that fail. -/
inductive Op where
  | insert (faults : Faults) (now : ℕ) (data : Bytes) (name : Name) (staleAt : ℕ)
  | get (faults : Faults) (now : ℕ) (interest : Interest)
  | evict (faults : Faults) (name : Name)
  | evictPrefix (faults : Faults) (pre : Name) (limit : Option ℕ)
  | setCapacity (faults : Faults) (maxBytes : UInt64)

def step (db : Sqlite) (self : SqliteCs) : Op → SqliteCs
  | .insert faults now data name staleAt => (self.insert db faults now data name staleAt).1
  | .get faults now interest => (self.get faults now interest).2
  | .evict faults name => (self.evict faults name).1
  | .evictPrefix faults pre limit => (self.evictPrefix faults pre limit).1
  | .setCapacity faults maxBytes => self.setCapacity db faults maxBytes

/-- **The counters are those of the table.** -/
structure Consistent (s : SqliteCs) : Prop where
  bytes : s.currentBytes = UInt64.ofNat (bytesOf s.table)
  count : s.entryCount = UInt64.ofNat s.table.rows.length

/-- What is counted once victims are chosen. -/
def countedAfter (current : UInt64) (chosen : List Victim) : UInt64 :=
  chosen.foldl (fun current row => if row.2 ≤ current then current - row.2 else 0) current

/-- The row of a key has to go for the new Data: it is listed and can be deleted, and the rows that
were accessed before it do not make room enough. -/
def Evicts (db : Sqlite) (faults : Faults) (self : SqliteCs) (key data : Bytes) : Prop :=
  faults.delete key = false ∧ ∃ before len after,
    listed faults (db.orderByLastAccess self.table.rows) = before ++ (key, len) :: after ∧
    ∀ chosen, chosen <+: before → self.maxBytes <
      countedAfter (self.currentBytes - (self.oldLen faults key).getD 0) chosen +
        UInt64.ofNat data.length

/-- What an insertion takes off the counters it takes out of the table: if the write fails, no row
was found that has bytes; else the row that is there, if any, is either found or evicted. -/
def Settles (db : Sqlite) (self : SqliteCs) : Op → Prop
  | .insert faults _ data name _ =>
    let key := nameToKey name
    faults.lock = true ∨
      if faults.write then ∀ old ∈ self.oldLen faults key, old = 0
      else self.table.get key = none ∨ (faults.read = true ↔ self.Evicts db faults key data)
  | _ => True

/-! ## The counters -/

section

variable {db : Sqlite} {faults : Faults} {self : SqliteCs} {b c : UInt64} {key : Bytes}
  {data : Bytes} {row : Row}

/-- The counters are off by so many bytes and rows. -/
structure Off (b c : UInt64) (s : SqliteCs) : Prop where
  bytes : s.currentBytes + b = UInt64.ofNat (bytesOf s.table)
  count : s.entryCount + c = UInt64.ofNat s.table.rows.length

lemma consistent_iff_off : self.Consistent ↔ Off 0 0 self := by
  constructor
  · rintro ⟨hbs, hcnt⟩
    exact ⟨by rw [hbs, add_zero], by rw [hcnt, add_zero]⟩
  · rintro ⟨hbs, hcnt⟩
    rw [add_zero] at hbs hcnt
    exact ⟨hbs, hcnt⟩

lemma get_delete (table : Table) (key key' : Bytes) :
    (table.delete key).get key' = if key' = key then none else table.get key' :=
  lookup_erase key key' table.rows

lemma Off.delete (h : Off b c self) (hget : self.table.get key = some row) :
    Off b c
      { self with
        table := self.table.delete key
        currentBytes := self.currentBytes - row.len
        entryCount := self.entryCount - 1 } := by
  have hbs := total_erase (fun row : Row => row.data.length) self.table.nodup hget
  have hcnt := total_erase (fun _ : Row => 1) self.table.nodup hget
  rw [total_one, total_one] at hcnt
  have hbs' := congrArg ofNat hbs
  have hcnt' := congrArg ofNat hcnt
  rw [ofNat_add] at hbs' hcnt'
  refine ⟨?_, ?_⟩
  · have hold := h.bytes
    simp only [bytesOf, Table.delete, Row.len] at hold ⊢
    grind
  · have hold := h.count
    simp only [Table.delete] at hold ⊢
    grind

/-- The victims are rows of the table, no two of the same key, with their lengths. -/
structure AreRows (table : Table) (victims : List Victim) : Prop where
  nodup : (victims.map Prod.fst).Nodup
  get : ∀ victim ∈ victims, ∃ row, table.get victim.1 = some row ∧ victim.2 = row.len

lemma AreRows.sublist {table : Table} {victims victims' : List Victim} (h : AreRows table victims')
    (hsub : victims.Sublist victims') : AreRows table victims :=
  ⟨h.nodup.sublist (hsub.map Prod.fst), fun victim hmem => h.get victim (hsub.subset hmem)⟩

/-- **Deleting victims** keeps the counters as far off as they are. -/
lemma off_foldl_deleteVictim {victims : List Victim} (hrows : AreRows self.table victims)
    (h : Off b c self) : Off b c (victims.foldl (deleteVictim faults) self) := by
  induction victims generalizing self with
  | nil => exact h
  | cons victim victims ih =>
    have hrest := hrows.sublist (sublist_cons_self victim victims)
    rw [foldl_cons, deleteVictim]
    split_ifs with hfail
    · exact ih hrest h
    obtain ⟨row, hget, hlen⟩ := hrows.get victim (mem_cons_self ..)
    rw [hlen]
    have hnd := hrows.nodup
    rw [map_cons, nodup_cons] at hnd
    refine ih ⟨hrest.nodup, fun other hmem => ?_⟩ (h.delete hget)
    -- the other victims have other keys
    have hne : other.1 ≠ victim.1 := by
      intro heq
      exact hnd.1 (mem_map.mpr ⟨other, hmem, heq⟩)
    rw [get_delete, if_neg hne]
    exact hrest.get other hmem

lemma get_foldl_deleteVictim (victims : List Victim) (self : SqliteCs) (key : Bytes) :
    (victims.foldl (deleteVictim faults) self).table.get key =
      if faults.delete key = false ∧ key ∈ victims.map Prod.fst then none
      else self.table.get key := by
  induction victims generalizing self with
  | nil => simp
  | cons victim victims ih =>
    rw [foldl_cons, ih, deleteVictim, map_cons]
    by_cases hkey : key = victim.1
    · subst hkey
      cases hfail : faults.delete victim.1 with
      | true => simp
      | false => simp [get_delete]
    · simp only [mem_cons, hkey, false_or]
      split_ifs
      · rfl
      · rfl
      · rw [get_delete, if_neg hkey]

lemma areRows_listed {rows : List (Bytes × Row)} (hsub : rows.Subperm self.table.rows) :
    AreRows self.table (listed faults rows) := by
  have hnd : (rows.map Prod.fst).Nodup := by
    obtain ⟨rows', hperm, hsublist⟩ := hsub
    exact (hperm.map Prod.fst).nodup_iff.mp (self.table.nodup.sublist (hsublist.map Prod.fst))
  rw [listed]
  split_ifs
  · exact ⟨nodup_nil, fun _ h => by cases h⟩
  refine ⟨?_, fun victim hmem => ?_⟩
  · rw [map_map]
    exact hnd.sublist (filter_sublist.map Prod.fst)
  · obtain ⟨r, hr, rfl⟩ := mem_map.mp hmem
    refine ⟨r.2, ?_, rfl⟩
    rw [Table.get, lookup_eq_some_iff self.table.nodup]
    exact hsub.subset (mem_filter.mp hr).1

lemma chooseVictims_sublist (max needed current : UInt64) (rows : List Victim) :
    (chooseVictims max needed current rows).Sublist rows := by
  induction rows generalizing current with
  | nil => exact .slnil
  | cons row rows ih =>
    rw [chooseVictims]
    split_ifs
    · exact nil_sublist _
    · exact (ih _).cons_cons row
    · exact (ih _).cons_cons row

/-- A row is chosen iff the loop comes to it: the rows before it do not make room enough. -/
lemma mem_chooseVictims_iff {max needed current : UInt64} {rows : List Victim} {victim : Victim} :
    victim ∈ chooseVictims max needed current rows ↔
      ∃ before after, rows = before ++ victim :: after ∧
        ∀ chosen, chosen <+: before → max < countedAfter current chosen + needed := by
  induction rows generalizing current with
  | nil => simp [chooseVictims]
  | cons row rows ih =>
    rw [chooseVictims]
    by_cases hfits : current + needed ≤ max
    · rw [if_pos hfits]
      refine iff_of_false not_mem_nil ?_
      rintro ⟨before, after, -, hroom⟩
      exact UInt64.not_lt.mpr hfits (hroom [] nil_prefix)
    · rw [if_neg hfits, mem_cons, ih]
      constructor
      · rintro (rfl | ⟨before, after, rfl, hroom⟩)
        · refine ⟨[], rows, rfl, fun chosen hcho => ?_⟩
          rw [prefix_nil.mp hcho]
          exact not_le.mp hfits
        · refine ⟨row :: before, after, rfl, fun chosen hcho => ?_⟩
          rcases prefix_cons_iff.mp hcho with rfl | ⟨rest, rfl, hrest⟩
          · exact not_le.mp hfits
          · exact hroom rest hrest
      · rintro ⟨before, after, heq, hroom⟩
        cases before with
        | nil =>
          cases heq
          exact .inl rfl
        | cons first before =>
          cases heq
          refine .inr ⟨before, after, rfl, fun chosen hcho => ?_⟩
          exact hroom (row :: chosen) (cons_prefix_cons.mpr ⟨rfl, hcho⟩)

lemma evictToFit_eq (db : Sqlite) (faults : Faults) (self : SqliteCs) (needed : UInt64) :
    self.evictToFit db faults needed =
      foldl (deleteVictim faults) self (chooseVictims self.maxBytes needed self.currentBytes
        (listed faults (db.orderByLastAccess self.table.rows))) := by
  rw [evictToFit]
  split_ifs with hfits
  · cases listed faults (db.orderByLastAccess self.table.rows) with
    | nil => rfl
    | cons row rows =>
      rw [chooseVictims, if_pos hfits]
      rfl
  · rfl

lemma off_evictToFit (db : Sqlite) (faults : Faults) (h : Off b c self) (needed : UInt64) :
    Off b c (self.evictToFit db faults needed) := by
  rw [evictToFit_eq]
  refine off_foldl_deleteVictim ?_ h
  exact (areRows_listed (db.orderByLastAccess_perm self.table.rows).subperm).sublist
    (chooseVictims_sublist ..)

lemma off_makeRoom (db : Sqlite) (faults : Faults) (h : self.Consistent) (key data : Bytes) :
    Off ((self.oldLen faults key).getD 0) 0 (self.makeRoom db faults key data) := by
  refine off_evictToFit db faults ⟨?_, ?_⟩ (ofNat data.length)
  · simp only [h.bytes, UInt64.sub_add_cancel]
  · simp only [h.count, add_zero]

lemma get_makeRoom_eq_some_iff :
    (self.makeRoom db faults key data).table.get key = some row ↔
      self.table.get key = some row ∧ ¬ self.Evicts db faults key data := by
  have hevic : self.Evicts db faults key data ↔ faults.delete key = false ∧
      key ∈ (chooseVictims self.maxBytes (ofNat data.length)
        (self.currentBytes - (self.oldLen faults key).getD 0)
        (listed faults (db.orderByLastAccess self.table.rows))).map Prod.fst := by
    rw [Evicts, mem_map]
    refine and_congr_right fun _ => ?_
    constructor
    · rintro ⟨before, len, after, hlis, hroom⟩
      exact ⟨(key, len), mem_chooseVictims_iff.mpr ⟨before, after, hlis, hroom⟩, rfl⟩
    · rintro ⟨⟨key, len⟩, hcho, rfl⟩
      obtain ⟨before, after, hlis, hroom⟩ := mem_chooseVictims_iff.mp hcho
      exact ⟨before, len, after, hlis, hroom⟩
  rw [makeRoom, evictToFit_eq, get_foldl_deleteVictim, hevic]
  split_ifs with hgone
  · exact iff_of_false (by simp) fun h => h.2 hgone
  · exact (and_iff_left hgone).symm

lemma found_iff_replaced_iff :
    ((self.oldLen faults key).isSome = true ↔
        ((self.makeRoom db faults key data).table.get key).isSome = true) ↔
      self.table.get key = none ∨ (faults.read = true ↔ self.Evicts db faults key data) := by
  simp only [Option.isSome_iff_exists, get_makeRoom_eq_some_iff, oldLen]
  cases hget : self.table.get key with
  | none => simp
  | some row =>
    by_cases hread : faults.read = true
    all_goals simp [hread]

lemma ofNat_put (table : Table) (key : Bytes) (row : Row) :
    ofNat (bytesOf (table.put key row)) + ((table.get key).map Row.len).getD 0 =
        ofNat (bytesOf table) + row.len ∧
      ofNat (table.put key row).rows.length + (if (table.get key).isSome then 1 else 0) =
        ofNat table.rows.length + 1 := by
  have hbs := total_insert (fun row : Row => row.data.length) key row table.rows
  have hcnt := total_insert (fun _ : Row => 1) key row table.rows
  rw [total_one, total_one] at hcnt
  have hbs' := congrArg ofNat hbs
  have hcnt' := congrArg ofNat hcnt
  rw [ofNat_add, ofNat_add] at hbs' hcnt'
  cases hget : table.get key with
  | none =>
    rw [Table.get] at hget
    rw [hget] at hbs' hcnt'
    exact ⟨hbs', hcnt'⟩
  | some old =>
    rw [Table.get] at hget
    rw [hget] at hbs' hcnt'
    exact ⟨hbs', hcnt'⟩

/-- A row is written, in a store whose counter of bytes is off by the row that was found: the
counters are right afterwards iff a row is replaced exactly if one was found. -/
lemma consistent_put_iff (h : Off b 0 self) (key : Bytes) (row : Row) (found : Bool)
    (hfnd : found = true → ∀ old, self.table.get key = some old → b = old.len)
    (hnot : found = false → b = 0) :
    Consistent
        { self with
          table := self.table.put key row
          currentBytes := self.currentBytes + row.len
          entryCount := self.entryCount + if found then 0 else 1 } ↔
      (found = true ↔ (self.table.get key).isSome = true) := by
  obtain ⟨hbs, hcnt⟩ := ofNat_put self.table key row
  rw [← h.bytes] at hbs
  rw [← h.count] at hcnt
  constructor
  · rintro ⟨-, hcnt'⟩
    rw [← hcnt'] at hcnt
    cases found with
    | true =>
      refine iff_of_true rfl ?_
      by_contra hnone
      rw [if_pos rfl, if_neg hnone] at hcnt
      grind
    | false =>
      grind
  · intro hiff
    cases found with
    | true =>
      obtain ⟨old, hold⟩ := Option.isSome_iff_exists.mp (hiff.mp rfl)
      refine ⟨?_, ?_⟩
      · grind
      · grind
    | false =>
      have hnone : self.table.get key = none := by
        rw [← Option.not_isSome_iff_eq_none]
        exact fun hsome => Bool.false_ne_true (hiff.mpr hsome)
      refine ⟨?_, ?_⟩
      · grind
      · grind

section

variable (h : self.Consistent)
include h

/-- **One insertion** leaves the counters right iff it settles. -/
lemma consistent_insert_iff (now : ℕ) (data : Bytes) (name : Name) (staleAt : ℕ) :
    (self.insert db faults now data name staleAt).1.Consistent ↔
      self.Settles db (.insert faults now data name staleAt) := by
  rw [insert, Settles]
  by_cases hlock : faults.lock = true
  · simp only [hlock, if_true, true_or, iff_true]
    exact h
  simp only [hlock, if_false, false_or, Bool.false_eq_true]
  have hroom := off_makeRoom db faults h (nameToKey name) data
  have hkept : ∀ old, (self.makeRoom db faults (nameToKey name) data).table.get (nameToKey name) =
      some old → self.table.get (nameToKey name) = some old :=
    fun old hold => (get_makeRoom_eq_some_iff.mp hold).1
  rw [← found_iff_replaced_iff]
  by_cases hwrt : faults.write = true
  · -- the old row is off the counter, and still in the table or evicted
    simp only [hwrt, if_true]
    cases hold : self.oldLen faults (nameToKey name) with
    | none =>
      rw [hold] at hroom
      exact iff_of_true (consistent_iff_off.mpr hroom) (by simp)
    | some old =>
      rw [hold] at hroom
      simp only [Option.mem_some_iff, forall_eq']
      constructor
      · intro hcon
        have hbs := hroom.bytes
        rw [hcon.bytes, Option.getD_some] at hbs
        grind
      · rintro rfl
        exact consistent_iff_off.mpr hroom
  · simp only [hwrt, if_false, Bool.false_eq_true]
    have hput := consistent_put_iff hroom (nameToKey name) ⟨toI64 staleAt, data, toI64 now⟩
      (self.oldLen faults (nameToKey name)).isSome ?_ ?_
    · refine .trans ?_ hput
      cases (self.oldLen faults (nameToKey name)).isSome with
      | true => simp [Row.len]
      | false => simp [Row.len]
    · intro hsome old hget
      rw [oldLen, hkept old hget] at hsome ⊢
      split_ifs at hsome ⊢
      · cases hsome
      · rfl
    · intro hnone
      rw [Option.isSome_eq_false_iff, Option.isNone_iff_eq_none] at hnone
      rw [hnone, Option.getD_none]

section

variable (faults : Faults)

lemma consistent_noteAccess (now : ℕ) (key : Bytes) :
    (self.noteAccess faults now key).Consistent := by
  rw [noteAccess]
  split_ifs
  · exact h
  refine ⟨h.bytes.trans (congrArg ofNat ?_), h.count.trans (congrArg ofNat ?_)⟩
  · rw [bytesOf, bytesOf, total, total, Table.access, map_map]
    refine congrArg sum (map_congr_left fun r _ => ?_)
    show r.2.data.length =
      (if r.1 = key then { r.2 with lastAccess := toI64 now } else r.2).data.length
    split_ifs
    · rfl
    · rfl
  · rw [Table.access, length_map]

lemma consistent_fetchExact (now : ℕ) (key : Bytes) :
    (self.fetchExact faults now key).2.Consistent := by
  rw [fetchExact]
  split
  · exact h
  · exact consistent_noteAccess h faults now key

lemma consistent_candidate (now : ℕ)
    (interest : Interest) : (self.candidate faults now interest).2.Consistent := by
  rw [candidate]
  split_ifs
  · exact consistent_fetchExact h ..
  · rw [fetchFirst]
    split
    · exact h
    · split
      · exact h
      · exact consistent_noteAccess h ..
  · exact consistent_fetchExact h ..

lemma consistent_get (now : ℕ) (interest : Interest) :
    (self.get faults now interest).2.Consistent := by
  rw [get]
  split_ifs
  · exact h
  · exact h
  · exact consistent_candidate h faults now interest

lemma consistent_evict (name : Name) : (self.evict faults name).1.Consistent := by
  rw [evict]
  split_ifs with hlock hdel
  · exact h
  · split
    · exact h
    · exact h
  cases hold : self.oldLen faults (nameToKey name) with
  | none => exact h
  | some old =>
    rw [oldLen] at hold
    split_ifs at hold
    rw [Option.map_eq_some_iff] at hold
    obtain ⟨row, hget, rfl⟩ := hold
    show (self.deleteVictim faults (nameToKey name, row.len)).Consistent
    rw [deleteVictim, if_neg hdel]
    exact consistent_iff_off.mpr ((consistent_iff_off.mp h).delete hget)

lemma consistent_evictPrefix (pre : Name)
    (limit : Option ℕ) : (self.evictPrefix faults pre limit).1.Consistent := by
  rw [evictPrefix]
  split_ifs
  · exact h
  · have hran : (inRange self.table (nameToKey pre)).Subperm self.table.rows :=
      (perm_insertionSort _ _).subperm.trans filter_sublist.subperm
    refine consistent_iff_off.mpr (off_foldl_deleteVictim ?_ (consistent_iff_off.mp h))
    exact (areRows_listed hran).sublist (take_sublist _ _)

end

lemma consistent_setCapacity (db : Sqlite) (faults : Faults)
    (maxBytes : UInt64) : (self.setCapacity db faults maxBytes).Consistent := by
  have hmax : Off 0 0 { self with maxBytes := maxBytes } :=
    consistent_iff_off.mp ⟨h.bytes, h.count⟩
  rw [setCapacity]
  split_ifs
  · exact consistent_iff_off.mpr hmax
  · exact consistent_iff_off.mpr (off_evictToFit db faults hmax 0)

lemma consistent_step_iff (op : Op) : (self.step db op).Consistent ↔ self.Settles db op := by
  cases op with
  | insert faults now data name staleAt => exact consistent_insert_iff h now data name staleAt
  | get faults now interest => exact iff_of_true (consistent_get h faults now interest) trivial
  | evict faults name => exact iff_of_true (consistent_evict h faults name) trivial
  | evictPrefix faults pre limit =>
    exact iff_of_true (consistent_evictPrefix h faults pre limit) trivial
  | setCapacity faults maxBytes =>
    exact iff_of_true (consistent_setCapacity h db faults maxBytes) trivial

end

end

/-- **The counters of a run.** From the opening of any table on, the bytes and rows counted are
those of the table after each of some operations, iff each insertion among them settles: whatever
else fails, whatever is evicted and in which order. -/
theorem consistent_iff (db : Sqlite) (table : Table) (maxBytes : UInt64) (ops : List Op) :
    (∀ done, done <+: ops → (done.foldl (step db) (openTable table maxBytes)).Consistent) ↔
      Run.Admits (step db) (Settles db) (openTable table maxBytes) ops :=
  Run.forall_prefix_iff_admits (fun _ => True) Consistent
    (fun _ op _ h => consistent_step_iff h op) (fun _ _ _ _ => trivial) trivial ⟨rfl, rfl⟩ ops

/-! ## Samples -/

namespace Sample

def ByLastAccess (a b : Bytes × Row) : Prop := a.2.lastAccess ≤ b.2.lastAccess

instance : DecidableRel ByLastAccess :=
  fun a b => inferInstanceAs (Decidable (a.2.lastAccess ≤ b.2.lastAccess))

instance : Std.Total ByLastAccess := ⟨fun a b => le_total a.2.lastAccess b.2.lastAccess⟩

instance : IsTrans _ ByLastAccess := ⟨fun _ _ _ h h' => le_trans (α := ℤ) h h'⟩

/-- A database that sorts stably. -/
def db : Sqlite where
  orderByLastAccess rows := rows.insertionSort ByLastAccess
  orderByLastAccess_perm := List.perm_insertionSort ByLastAccess
  orderByLastAccess_sorted := List.pairwise_insertionSort ByLastAccess

def run (ops : List Op) : SqliteCs := ops.foldl (step db) (openTable .empty 10)

/-- The bytes and rows, each as they are and as they are counted. -/
def counters (self : SqliteCs) : (ℕ × UInt64) × (ℕ × UInt64) :=
  ((bytesOf self.table, self.currentBytes), (self.table.rows.length, self.entryCount))

end Sample

open Sample

/-- **Counters that are wrong.** Six bytes are stored under `/a`, and their replacement fails: no
byte is counted. Six bytes under `/a`, four under `/b`, and then eight under `/a`, for which the row
that they replace is evicted: two rows of twelve bytes are there, one of six bytes is counted. -/
theorem counters_go_wrong :
    counters (run [.insert {} 1 [1, 2, 3, 4, 5, 6] [.ofText "a"] 0,
      .insert { write := true } 2 [7] [.ofText "a"] 0]) = ((6, 0), (1, 1)) ∧
    counters (run [.insert {} 1 [1, 2, 3, 4, 5, 6] [.ofText "a"] 0,
      .insert {} 2 [1, 2, 3, 4] [.ofText "b"] 0,
      .insert {} 3 [1, 2, 3, 4, 5, 6, 7, 8] [.ofText "a"] 0]) = ((12, 6), (2, 1)) := by
  decide

end SqliteCs

end NdnRs
