import NdnRs.Forwarding.PitInvariant

/-!
# The observer of the PIT (`ndn-store/src/pit.rs`)

An observer is told of every entry that enters and of every entry that leaves the table, so that a
filter can mirror it. Removals are all reported; of the ways an entry can be stored, replaced or
dropped, only an insertion at a vacant token is.

## Main results

* `mirrored_iff` — when the notices mirror the table.
-/

namespace NdnRs.Pit

open List Assoc

/-- The calls of `PitObserver`. -/
inductive Notice where
  | onPitInsert (name : Name)
  | onPitRemove (name : Name)
  deriving DecidableEq

structure ObservedPit where
  pit : Pit
  log : List Notice

namespace ObservedPit

def new : ObservedPit := ⟨⟨[], []⟩, []⟩

/-! ## Operations -/

variable (self : ObservedPit)

def notifyInsert (entry : PitEntry) : ObservedPit :=
  { self with log := self.log ++ [.onPitInsert entry.name] }

def notifyRemove (entry : PitEntry) : ObservedPit :=
  { self with log := self.log ++ [.onPitRemove entry.name] }

def insert (token : UInt64) (entry : PitEntry) : ObservedPit :=
  let self := self.notifyInsert entry
  { self with pit := self.pit.set token entry }

def withEntryOrInsert {R : Type} (self : ObservedPit) (token : UInt64)
    (onExisting : PitEntry → PitEntry × R) (onNew : Unit → PitEntry × R) : ObservedPit × R :=
  match self.pit.get token with
  | some entry =>
    let (entry, ret) := onExisting entry
    ({ self with pit := self.pit.set token entry }, ret)
  | none =>
    let (entry, ret) := onNew ()
    ({ self with pit := self.pit.set token entry }, ret)

def remove (token : UInt64) : ObservedPit :=
  match self.pit.get token with
  | none => self
  | some entry => { self with pit := self.pit.remove token }.notifyRemove entry

def drainExpiredEntries (nowNs : ℕ) : ObservedPit :=
  (self.pit.expiredTokens nowNs).foldl remove self

/-- `remove_face`, on the entry at one token: it is removed, with a notice, or pruned. -/
def removeFaceEntry (faceId : ℕ) (self : ObservedPit) (token : UInt64) : ObservedPit :=
  match self.pit.get token with
  | none => self
  | some entry =>
    let self := { self with pit := self.pit.removeFaceEntry faceId token }
    if AllOn faceId entry then self.notifyRemove entry else self

def removeFace (faceId : ℕ) : ObservedPit :=
  (self.pit.entries.map Prod.fst).foldl (removeFaceEntry faceId) self

def clear : ObservedPit := { self with pit := ⟨[], []⟩ }

/-- The operations on the table. -/
inductive Op where
  | insert (token : UInt64) (entry : PitEntry)
  | withEntryOrInsert (token : UInt64) (onExisting : PitEntry → PitEntry) (onNew : PitEntry)
  | remove (token : UInt64)
  | drainExpiredEntries (nowNs : ℕ)
  | removeFace (faceId : ℕ)
  | clear

def step : Op → ObservedPit
  | .insert token entry => self.insert token entry
  | .withEntryOrInsert token onExisting onNew =>
    (self.withEntryOrInsert token (fun entry => (onExisting entry, ())) fun _ => (onNew, ())).1
  | .remove token => self.remove token
  | .drainExpiredEntries nowNs => self.drainExpiredEntries nowNs
  | .removeFace faceId => self.removeFace faceId
  | .clear => self.clear

/-! ## The balance -/

def named (name : Name) : ℕ :=
  self.pit.entries.countP fun x => x.2.name = name

/-- How many entries of the name were reported to enter, less those reported to leave. -/
def balance (name : Name) : ℤ :=
  self.log.count (.onPitInsert name) - self.log.count (.onPitRemove name)

def Mirrored : Prop := ∀ name, self.balance name = self.named name

def Keyed : Prop := (self.pit.entries.map Prod.fst).Nodup

/-- The operation changes the table in a way that is reported: an insertion is at a vacant token, a
check-and-insert at one that is taken, without renaming the entry, and only an empty table is
cleared. -/
def Reported : Op → Prop
  | .insert token _ => self.pit.get token = none
  | .withEntryOrInsert token onExisting _ =>
    ∃ entry, self.pit.get token = some entry ∧ (onExisting entry).name = entry.name
  | .remove _ | .drainExpiredEntries _ | .removeFace _ => True
  | .clear => self.pit.entries = []

def indicator (entry : PitEntry) (name : Name) : ℕ := if entry.name = name then 1 else 0

section

variable {s : ObservedPit} {token : UInt64} {entry : PitEntry}

lemma balance_notifyInsert (s : ObservedPit) (entry : PitEntry) (name : Name) :
    (s.notifyInsert entry).balance name = s.balance name + indicator entry name := by
  simp only [balance, notifyInsert, count_append, count_singleton, indicator]
  by_cases h : entry.name = name <;> simp [h]
  ring

lemma balance_notifyRemove (s : ObservedPit) (entry : PitEntry) (name : Name) :
    (s.notifyRemove entry).balance name = s.balance name - indicator entry name := by
  simp only [balance, notifyRemove, count_append, count_singleton, indicator]
  by_cases h : entry.name = name <;> simp [h]
  ring

lemma Keyed.set (h : s.Keyed) (token : UInt64) (entry : PitEntry) :
    Keyed { s with pit := s.pit.set token entry } :=
  nodup_keys_insert token entry h

lemma named_set_of_vacant (hget : s.pit.get token = none) (entry : PitEntry) (name : Name) :
    named { s with pit := s.pit.set token entry } name = s.named name + indicator entry name := by
  refine (countP_insert_of_not_mem (v := entry) _ (lookup_eq_none_iff.mp hget)).trans ?_
  simp only [named, indicator, decide_eq_true_eq]

lemma named_set_of_taken (h : s.Keyed) {old : PitEntry} (hget : s.pit.get token = some old)
    (entry : PitEntry) (name : Name) :
    named { s with pit := s.pit.set token entry } name + indicator old name =
      s.named name + indicator entry name := by
  have hcount := countP_insert_of_lookup (v := entry)
    (fun x : UInt64 × PitEntry => decide (x.2.name = name)) h hget
  simpa only [named, indicator, Pit.set, decide_eq_true_eq] using hcount

lemma named_remove (h : s.Keyed) (hget : s.pit.get token = some entry) (name : Name) :
    named { s with pit := s.pit.remove token } name + indicator entry name = s.named name := by
  have hcount := countP_erase_of_lookup
    (fun x : UInt64 × PitEntry => decide (x.2.name = name)) h hget
  simpa only [named, indicator, Pit.remove, decide_eq_true_eq] using hcount

lemma remove_spec (hkeyed : s.Keyed) (hmirrored : s.Mirrored) (token : UInt64) :
    (s.remove token).Keyed ∧ (s.remove token).Mirrored := by
  rw [remove]
  cases hget : s.pit.get token with
  | none => exact ⟨hkeyed, hmirrored⟩
  | some entry =>
    refine ⟨hkeyed.sublist (filter_sublist.map _), fun name => ?_⟩
    have hnamed := named_remove hkeyed hget name
    have hbalance := hmirrored name
    rw [balance_notifyRemove]
    show s.balance name - indicator entry name = named { s with pit := s.pit.remove token } name
    omega

/-- Taking a face out of an entry is reported if it removes the entry. -/
lemma removeFaceEntry_spec (hkeyed : s.Keyed) (hmirrored : s.Mirrored) (faceId : ℕ)
    (token : UInt64) :
    (s.removeFaceEntry faceId token).Keyed ∧ (s.removeFaceEntry faceId token).Mirrored := by
  rw [removeFaceEntry]
  cases hget : s.pit.get token with
  | none => exact ⟨hkeyed, hmirrored⟩
  | some entry =>
    simp only
    rcases removeFaceEntry_entries s.pit hget with
      ⟨hall, hentries⟩ | ⟨hall, hremains, ⟨hentries, -⟩ | hentries⟩
    · rw [if_pos hall]
      have hremoved := remove_spec hkeyed hmirrored token
      rw [remove, hget] at hremoved
      simp only [Keyed, Mirrored, named, notifyRemove, balance, hentries] at hremoved ⊢
      exact hremoved
    · rw [if_neg hall]
      simp only [Keyed, Mirrored, named, balance, hentries]
      exact ⟨hkeyed, hmirrored⟩
    · rw [if_neg hall]
      simp only [Keyed, Mirrored, named, balance, hentries]
      refine ⟨hkeyed.set token (entry.prune faceId), fun name => ?_⟩
      have hnamed := named_set_of_taken hkeyed hget (entry.prune faceId) name
      have hbalance := hmirrored name
      rw [indicator, indicator, hremains.name_eq] at hnamed
      simp only [named, balance] at hnamed hbalance
      omega

lemma foldl_spec {f : ObservedPit → UInt64 → ObservedPit}
    (hf : ∀ s token, Keyed s → Mirrored s → (f s token).Keyed ∧ (f s token).Mirrored)
    (tokens : List UInt64) (s : ObservedPit) (hkeyed : s.Keyed) (hmirrored : s.Mirrored) :
    (tokens.foldl f s).Keyed ∧ (tokens.foldl f s).Mirrored :=
  foldlRecOn (motive := fun s => s.Keyed ∧ s.Mirrored) tokens f ⟨hkeyed, hmirrored⟩
    fun s hs token _ => hf s token hs.1 hs.2

section

variable (hkeyed : s.Keyed) (hmirrored : s.Mirrored)
include hkeyed hmirrored

lemma keyed_step (op : Op) : (s.step op).Keyed := by
  cases op with
  | insert token entry => exact hkeyed.set token entry
  | withEntryOrInsert token onExisting onNew =>
    rw [step, withEntryOrInsert]
    cases s.pit.get token with
    | none => exact hkeyed.set token onNew
    | some entry => exact hkeyed.set token (onExisting entry)
  | remove token => exact (remove_spec hkeyed hmirrored token).1
  | drainExpiredEntries nowNs =>
    exact (foldl_spec (fun s token h h' => remove_spec h h' token) _ s hkeyed hmirrored).1
  | removeFace faceId =>
    exact (foldl_spec (fun s token h h' => removeFaceEntry_spec h h' faceId token) _ s hkeyed
      hmirrored).1
  | clear => exact nodup_nil

lemma mirrored_insert_iff : (s.insert token entry).Mirrored ↔ s.pit.get token = none := by
  have hbalance : ∀ name, (s.insert token entry).balance name =
      s.named name + indicator entry name := by
    intro name
    rw [← hmirrored name, ← balance_notifyInsert]
    rfl
  cases hget : s.pit.get token with
  | none =>
    refine iff_of_true (fun name => ?_) rfl
    have hnamed := named_set_of_vacant hget entry name
    rw [hbalance, ← Nat.cast_add, ← hnamed]
    rfl
  | some old =>
    refine iff_of_false (fun h => ?_) nofun
    have hnamed := named_set_of_taken hkeyed hget entry old.name
    have hafter := h old.name
    have hsame : (s.insert token entry).named old.name =
        named { s with pit := s.pit.set token entry } old.name := rfl
    have hone : indicator old old.name = 1 := if_pos rfl
    rw [hbalance] at hafter
    omega

/-- A check-and-insert is mirrored iff it stores no entry and renames none: it reports nothing. -/
lemma mirrored_withEntryOrInsert_iff (onExisting : PitEntry → PitEntry) (onNew : PitEntry) :
    (s.step (.withEntryOrInsert token onExisting onNew)).Mirrored ↔
      ∃ entry, s.pit.get token = some entry ∧ (onExisting entry).name = entry.name := by
  rw [step, withEntryOrInsert]
  cases hget : s.pit.get token with
  | none =>
    refine iff_of_false (fun h => ?_) nofun
    have hafter := h onNew.name
    have hnamed := named_set_of_vacant hget onNew onNew.name
    have hbefore := hmirrored onNew.name
    have hone : indicator onNew onNew.name = 1 := if_pos rfl
    have hsame : balance { s with pit := s.pit.set token onNew } onNew.name =
        s.balance onNew.name := rfl
    simp only at hafter
    omega
  | some entry =>
    have hnamed := named_set_of_taken hkeyed hget (onExisting entry)
    have hsame : ∀ name, balance { s with pit := s.pit.set token (onExisting entry) } name =
        s.balance name := fun _ => rfl
    constructor
    · intro h
      refine ⟨entry, rfl, ?_⟩
      by_contra hne
      have hafter := h entry.name
      have hbefore := hmirrored entry.name
      have hnamed' := hnamed entry.name
      have hone : indicator entry entry.name = 1 := if_pos rfl
      have hzero : indicator (onExisting entry) entry.name = 0 := if_neg hne
      have hsame' := hsame entry.name
      simp only at hafter
      omega
    · rintro ⟨entry', hentry', hname⟩ name
      cases hentry'
      have hbefore := hmirrored name
      have hnamed' := hnamed name
      have hsame' := hsame name
      rw [indicator, indicator, hname] at hnamed'
      simp only
      omega

end

lemma mirrored_clear_iff (hmirrored : s.Mirrored) : s.clear.Mirrored ↔ s.pit.entries = [] := by
  have hbalance : ∀ name, s.clear.balance name = s.named name := hmirrored
  constructor
  · intro h
    by_contra hne
    obtain ⟨x, hx⟩ := exists_mem_of_ne_nil _ hne
    have hpos : 0 < s.named x.2.name := by
      rw [named, countP_pos_iff]
      exact ⟨x, hx, decide_eq_true rfl⟩
    have hafter := h x.2.name
    have hzero : s.clear.named x.2.name = 0 := rfl
    rw [hbalance] at hafter
    omega
  · intro hnil name
    rw [hbalance, named, hnil]
    rfl

/-- **One operation.** The notices still add up iff the operation is reported. -/
theorem mirrored_step_iff (hkeyed : s.Keyed) (hmirrored : s.Mirrored) (op : Op) :
    (s.step op).Mirrored ↔ s.Reported op := by
  cases op with
  | insert token entry => exact mirrored_insert_iff hkeyed hmirrored
  | withEntryOrInsert token onExisting onNew =>
    exact mirrored_withEntryOrInsert_iff hkeyed hmirrored onExisting onNew
  | remove token => exact iff_of_true (remove_spec hkeyed hmirrored token).2 trivial
  | drainExpiredEntries nowNs =>
    exact iff_of_true
      (foldl_spec (fun s token h h' => remove_spec h h' token) _ s hkeyed hmirrored).2 trivial
  | removeFace faceId =>
    exact iff_of_true (foldl_spec (fun s token h h' => removeFaceEntry_spec h h' faceId token) _ s
      hkeyed hmirrored).2 trivial
  | clear => exact mirrored_clear_iff hmirrored

end

/-- **When the observer's mirror is exact.** The notices add up to the entries of the table after
each of some operations iff every insertion among them is at a vacant token, every check-and-insert
at one that is taken without renaming its entry, and only empty tables are cleared. -/
theorem mirrored_iff (ops : List Op) :
    (∀ done, done <+: ops → (done.foldl step new).Mirrored) ↔ Run.Admits step Reported new ops :=
  Run.forall_prefix_iff_admits (s := new) Keyed Mirrored
    (fun _ op h h' => mirrored_step_iff h h' op) (fun _ op h h' => keyed_step h h' op)
    List.nodup_nil (fun _ => rfl) ops

def sampleEntry : PitEntry := .new [.ofText "a"] 0 4000

/-- **The pipeline's own insertion is not reported.** After a check-and-insert into an empty table
there is one entry for `/a`, and the observer has not been told. -/
theorem check_and_insert_unreported :
    let s := new.step (.withEntryOrInsert 1 id sampleEntry)
    s.named [.ofText "a"] = 1 ∧ s.balance [.ofText "a"] = 0 ∧ s.log = [] := by
  decide

end ObservedPit

end NdnRs.Pit
