import NdnRs.Forwarding.PitMatch

/-!
# Loop suppression across the life of a PIT entry (`stages/pit.rs`, `expiry.rs`)

When a Data or the expiry task erases an entry, the nonces of its Interests go into the Dead Nonce
List, and an Interest whose nonce is found there is dropped as a loop.

## Main results

* `erased_nonce_dropped` — when such an Interest is dropped.
-/

namespace NdnRs.Pit

open Bytes List Assoc

open PitCheckStage PitMatchStage

variable {P : Platform}

/-! ## The Dead Nonce List over time -/

namespace DeadNonceList

/-- One operation on the list at time `now`: a nonce is added, or the expired ones are dropped. -/
def Changes (P : Platform) (now : ℕ) (d d' : DeadNonceList) : Prop :=
  (∃ fp, d' = d.insert P fp now) ∨ d' = d.purgeExpired now

/-- Any number of operations at time `now`. -/
def Later (P : Platform) (now : ℕ) (d d' : DeadNonceList) : Prop :=
  Relation.ReflTransGen (Changes P now) d d'

def lastTime : ℕ := 2 ^ 64 - 1

/-- What no operation changes: the lifetime of nonces, and that `m` nonces have been evicted. -/
structure Frame (lifetimeNs m : ℕ) (d : DeadNonceList) : Prop where
  lifetime_eq : d.lifetimeNs = lifetimeNs
  evicted_le : m ≤ d.evicted.length

/-- The nonce was added at time `t` or later: it is in the list until its lifetime is over, unless
it was evicted since the list had evicted `m` nonces. -/
structure Remembers (t lifetimeNs m : ℕ) (fp : NonceFingerprint) (clock : ℕ) (d : DeadNonceList) :
    Prop extends Frame lifetimeNs m d where
  added : t ≤ clock
  kept : (∃ expiry, d.entries.lookup fp = some expiry ∧ min (t + lifetimeNs) lastTime ≤ expiry) ∨
    fp ∈ d.evicted.drop m ∨ min (t + lifetimeNs) lastTime ≤ clock

variable {t lifetimeNs m now clock : ℕ} {fp : NonceFingerprint} {d d' : DeadNonceList}

/-- What `insert` does before it looks at the capacity. -/
def put (d : DeadNonceList) (fp : NonceFingerprint) (now : ℕ) : DeadNonceList :=
  { d with entries := Assoc.insert fp (min (now + d.lifetimeNs) lastTime) d.entries }

lemma insert_eq (d : DeadNonceList) (fp : NonceFingerprint) (now : ℕ) :
    d.insert P fp now = if (d.put fp now).entries.length > d.capacity then
      (d.put fp now).enforceCapacity P now else d.put fp now := rfl

/-- The nonces that `enforce_capacity` evicts. -/
def victims (P : Platform) (d : DeadNonceList) (now : ℕ) : List NonceFingerprint :=
  let purged := d.purgeExpired now
  ((P.sortByExpiry purged.entries).take
    (purged.entries.length - (purged.capacity - purged.capacity / 10))).map Prod.fst

lemma enforceCapacity_eq (d : DeadNonceList) (now : ℕ) :
    d.enforceCapacity P now =
      if (d.purgeExpired now).entries.length ≤ d.capacity then d.purgeExpired now
      else
        { d.purgeExpired now with
          entries := (d.purgeExpired now).entries.filter fun e => e.1 ∉ victims P d now
          evicted := d.evicted ++ victims P d now } := rfl

lemma Frame.enforceCapacity (h : d.Frame lifetimeNs m) (now : ℕ) :
    (d.enforceCapacity P now).Frame lifetimeNs m := by
  rw [enforceCapacity_eq]
  split_ifs
  · exact ⟨h.lifetime_eq, h.evicted_le⟩
  · refine ⟨h.lifetime_eq, ?_⟩
    rw [length_append]
    exact h.evicted_le.trans (Nat.le_add_right _ _)

lemma Frame.insert (h : d.Frame lifetimeNs m) (fp : NonceFingerprint) (now : ℕ) :
    (d.insert P fp now).Frame lifetimeNs m := by
  have hput : (d.put fp now).Frame lifetimeNs m := ⟨h.lifetime_eq, h.evicted_le⟩
  rw [insert_eq]
  split_ifs
  · exact hput.enforceCapacity now
  · exact hput

lemma Frame.later (h : d.Frame lifetimeNs m) (hd : Later P now d d') : d'.Frame lifetimeNs m := by
  induction hd with
  | refl => exact h
  | tail _ hlast ih =>
    rcases hlast with ⟨fp, rfl⟩ | rfl
    · exact ih.insert fp now
    · exact ⟨ih.lifetime_eq, ih.evicted_le⟩

lemma Remembers.mono (h : d.Remembers t lifetimeNs m fp clock) (hnow : clock ≤ now) :
    d.Remembers t lifetimeNs m fp now := by
  refine ⟨h.toFrame, h.added.trans hnow, ?_⟩
  rcases h.kept with hin | hev | hover
  · exact .inl hin
  · exact .inr (.inl hev)
  · exact .inr (.inr (hover.trans hnow))

lemma Remembers.purgeExpired (h : d.Remembers t lifetimeNs m fp now) :
    (d.purgeExpired now).Remembers t lifetimeNs m fp now := by
  refine ⟨⟨h.lifetime_eq, h.evicted_le⟩, h.added, ?_⟩
  rcases h.kept with ⟨expiry, hlk, hexp⟩ | hev | hover
  · by_cases hlive : now < expiry
    · exact .inl ⟨expiry, lookup_filter hlk (decide_eq_true hlive), hexp⟩
    · exact .inr (.inr (hexp.trans (not_lt.mp hlive)))
  · exact .inr (.inl hev)
  · exact .inr (.inr hover)

lemma Remembers.enforceCapacity (h : d.Remembers t lifetimeNs m fp now) :
    (d.enforceCapacity P now).Remembers t lifetimeNs m fp now := by
  refine ⟨h.toFrame.enforceCapacity now, h.added, ?_⟩
  have hdrop : (d.evicted ++ victims P d now).drop m = d.evicted.drop m ++ victims P d now :=
    drop_append_of_le_length h.evicted_le
  have hpur := h.purgeExpired.kept
  rw [enforceCapacity_eq]
  split_ifs with hlen
  · exact hpur
  simp only [hdrop, mem_append]
  rcases hpur with ⟨expiry, hlk, hexp⟩ | hev | hover
  · by_cases hvic : fp ∈ victims P d now
    · exact .inr (.inl (.inr hvic))
    · exact .inl ⟨expiry, lookup_filter hlk (decide_eq_true hvic), hexp⟩
  · exact .inr (.inl (.inl hev))
  · exact .inr (.inr hover)

lemma Frame.put_self (h : d.Frame lifetimeNs m) (fp : NonceFingerprint) :
    (d.put fp t).Remembers t lifetimeNs m fp t := by
  refine ⟨⟨h.lifetime_eq, h.evicted_le⟩, le_refl t, .inl ⟨min (t + d.lifetimeNs) lastTime, ?_, ?_⟩⟩
  · rw [put, lookup_insert, if_pos rfl]
  · rw [h.lifetime_eq]

lemma Remembers.put (h : d.Remembers t lifetimeNs m fp now) (fp' : NonceFingerprint) :
    (d.put fp' now).Remembers t lifetimeNs m fp now := by
  refine ⟨⟨h.lifetime_eq, h.evicted_le⟩, h.added, ?_⟩
  rcases h.kept with ⟨expiry, hlk, hexp⟩ | hev | hover
  · by_cases heq : fp = fp'
    · -- the nonce is added again, and its time starts anew
      refine .inl ⟨min (now + d.lifetimeNs) lastTime, ?_, ?_⟩
      · rw [DeadNonceList.put, Assoc.lookup_insert, if_pos heq]
      · rw [h.lifetime_eq]
        exact min_le_min_right _ (Nat.add_le_add_right h.added _)
    · refine .inl ⟨expiry, ?_, hexp⟩
      rw [DeadNonceList.put, Assoc.lookup_insert, if_neg heq]
      exact hlk
  · exact .inr (.inl hev)
  · exact .inr (.inr hover)

lemma Remembers.insert (h : d.Remembers t lifetimeNs m fp now) (fp' : NonceFingerprint) :
    (d.insert P fp' now).Remembers t lifetimeNs m fp now := by
  rw [insert_eq]
  split_ifs
  · exact (h.put fp').enforceCapacity
  · exact h.put fp'

lemma Frame.insert_self (h : d.Frame lifetimeNs m) (fp : NonceFingerprint) :
    (d.insert P fp t).Remembers t lifetimeNs m fp t := by
  have hput := h.put_self (t := t) fp
  rw [insert_eq]
  split_ifs
  · exact hput.enforceCapacity
  · exact hput

/-- **The list remembers.** Nothing makes it forget a nonce but time and evictions. -/
lemma Remembers.later (h : d.Remembers t lifetimeNs m fp now) (hd : Later P now d d') :
    d'.Remembers t lifetimeNs m fp now := by
  induction hd with
  | refl => exact h
  | tail _ hlast ih =>
    rcases hlast with ⟨fp', rfl⟩ | rfl
    · exact ih.insert fp'
    · exact ih.purgeExpired

lemma Remembers.contains (h : d.Remembers t lifetimeNs m fp clock) (hclk : clock ≤ now)
    (hevi : fp ∉ d.evicted.drop m) (htime : now < t + lifetimeNs) (hlast : now < lastTime) :
    d.contains fp now = true := by
  have hlt : now < min (t + lifetimeNs) lastTime := lt_min htime hlast
  rcases h.kept with ⟨expiry, hlk, hexp⟩ | hev | hover
  · unfold DeadNonceList.contains
    rw [hlk]
    exact decide_eq_true (hlt.trans_le hexp)
  · exact absurd hev hevi
  · omega

end DeadNonceList

/-! ## Erasing entries -/

/-- The fingerprint under which `insert_dead_nonces` remembers a nonce of an entry. -/
def deadFingerprint (P : Platform) (entry : PitEntry) (nonce : ℕ) : NonceFingerprint :=
  ⟨NameHashes.fullNameHash P (deadKeyName entry), nonce⟩

lemma later_foldl_insert (entry : PitEntry) (now : ℕ) (nonces : List ℕ) (d : DeadNonceList) :
    DeadNonceList.Later P now d
      (nonces.foldl (fun d nonce => d.insert P (deadFingerprint P entry nonce) now) d) := by
  induction nonces generalizing d with
  | nil => exact .refl
  | cons nonce nonces ih =>
    exact .head (.inl ⟨deadFingerprint P entry nonce, rfl⟩) (ih _)

variable {d : DeadNonceList} {entry : PitEntry}

lemma insertDeadNonces_later (entry : PitEntry) (now : ℕ) :
    ∃ d', insertDeadNonces P (some d) entry now = some d' ∧ DeadNonceList.Later P now d d' :=
  ⟨_, rfl, later_foldl_insert entry now entry.noncesSeen d⟩

lemma insertDeadNonces_remembers {lifetimeNs m nonce : ℕ}
    (hd : d.Frame lifetimeNs m) (hnc : nonce ∈ entry.noncesSeen) (now : ℕ) :
    ∃ d', insertDeadNonces P (some d) entry now = some d' ∧
      d'.Remembers now lifetimeNs m (deadFingerprint P entry nonce) now := by
  refine ⟨entry.noncesSeen.foldl (fun d nonce => d.insert P (deadFingerprint P entry nonce) now) d,
    rfl, ?_⟩
  obtain ⟨front, back, hspl⟩ := append_of_mem hnc
  rw [hspl, foldl_append, foldl_cons]
  have hfrt := hd.later (later_foldl_insert (P := P) entry now front d)
  exact (hfrt.insert_self _).later (later_foldl_insert entry now back _)

/-- What one lookup of a Data, or the expiry of one entry, does to the tables at time `now`: nothing
is lost, or the entry at `token` is, and its nonces are added to the list. -/
structure Erases (P : Platform) (now : ℕ) (token : UInt64) (tables tables' : Tables) : Prop where
  shrinks : PitShrinks tables.pit tables'.pit
  others : ∀ token' ≠ token, tables'.pit.get token' = none → tables.pit.get token' = none
  list : (tables'.deadNonceList = tables.deadNonceList ∧
      (tables'.pit.get token = none → tables.pit.get token = none)) ∨
    ∃ entry entry', tables.pit.get token = some entry ∧ Shrinks entry entry' ∧
      tables'.deadNonceList = insertDeadNonces P tables.deadNonceList entry' now

lemma expireEntry_erases (now : ℕ) (tables : Tables) (token : UInt64) :
    Erases P now token tables (expireEntry P now tables token) := by
  refine ⟨(expireEntry_loses now tables token).shrinks, ?_, ?_⟩
  · intro token' hne hget
    unfold expireEntry at hget
    split at hget
    · rw [reap_pit, Pit.get_remove, if_neg hne] at hget
      exact hget
    · exact hget
  · unfold expireEntry
    cases hget : tables.pit.get token with
    | none => exact .inl ⟨rfl, fun _ => rfl⟩
    | some entry => exact .inr ⟨entry, entry, rfl, .refl entry, rfl⟩

lemma consumeEntry_erases (now : ℕ) (tables : Tables) (c : Collected) (token : UInt64)
    (cbpOnly : Bool) : Erases P now token tables (consumeEntry P now tables c token cbpOnly).1 := by
  refine ⟨(consumeEntry_loses now tables c token cbpOnly).shrinks, ?_, ?_⟩
  · intro token' hne hget
    rw [consumeEntry_get_of_ne hne] at hget
    exact hget
  cases hget : tables.pit.get token with
  | none =>
    rw [consumeEntry_of_none hget]
    exact .inl ⟨rfl, fun _ => rfl⟩
  | some entry =>
    unfold consumeEntry
    simp only [hget]
    split_ifs
    · have hshr := (consumePersistent_loses cbpOnly entry).toShrinks
      unfold consumePersistentEntry
      simp only
      split_ifs
      · exact .inr ⟨entry, _, rfl, hshr, rfl⟩
      · refine .inl ⟨rfl, fun hnone => ?_⟩
        rw [Pit.get_set, if_pos rfl] at hnone
        cases hnone
    · have hshr := (drain_loses (fun r => r.selector.canBePrefix) entry).toShrinks
      unfold consumePrefixEntry
      simp only
      split_ifs
      · exact .inr ⟨entry, _, rfl, hshr, rfl⟩
      · refine .inl ⟨rfl, fun hnone => ?_⟩
        rw [Pit.get_set, if_pos rfl] at hnone
        cases hnone
    · exact .inr ⟨entry, entry, rfl, .refl entry, rfl⟩

lemma Erases.later {now : ℕ} {token : UInt64} {tables tables' : Tables}
    (h : Erases P now token tables tables') (hd : tables.deadNonceList = some d) :
    ∃ d', tables'.deadNonceList = some d' ∧ DeadNonceList.Later P now d d' := by
  rcases h.list with ⟨hlist, -⟩ | ⟨_, entry', _, _, hlist⟩
  · exact ⟨d, hlist.trans hd, .refl⟩
  · rw [hlist, hd]
    exact insertDeadNonces_later entry' now

/-- While an event at time `t` erases entries: the entry is still there with all its nonces, or its
nonce is remembered. -/
def HeldOrRemembered (P : Platform) (t lifetimeNs m : ℕ) (token : UInt64) (entry : PitEntry)
    (nonce : ℕ) (tables : Tables) : Prop :=
  ∃ d, tables.deadNonceList = some d ∧ d.Frame lifetimeNs m ∧
    ((∃ entry', tables.pit.get token = some entry' ∧ Shrinks entry entry') ∨
      d.Remembers t lifetimeNs m (deadFingerprint P entry nonce) t)

lemma Shrinks.deadFingerprint_eq {entry' : PitEntry} (h : Shrinks entry entry')
    (nonce : ℕ) : deadFingerprint P entry' nonce = deadFingerprint P entry nonce := by
  unfold deadFingerprint deadKeyName
  rw [h.persistent_eq, h.name_eq]

section Erasing

variable {t lifetimeNs m nonce : ℕ} {token token' : UInt64} {tables tables' : Tables}

/-- **One erasing operation.** An entry that is lost leaves its nonces in the list. -/
lemma HeldOrRemembered.erases (hnc : nonce ∈ entry.noncesSeen)
    (h : HeldOrRemembered P t lifetimeNs m token entry nonce tables)
    (he : Erases P t token' tables tables') :
    HeldOrRemembered P t lifetimeNs m token entry nonce tables' := by
  obtain ⟨d, hd, hfram, hcas⟩ := h
  obtain ⟨d', hd', hlat⟩ := he.later hd
  refine ⟨d', hd', hfram.later hlat, ?_⟩
  rcases hcas with ⟨entry₁, hget, hshr⟩ | hremembers
  · cases hget' : tables'.pit.get token with
    | some entry₂ =>
      obtain ⟨entry₁', hget₁, hshr'⟩ := he.shrinks token entry₂ hget'
      cases hget.symm.trans hget₁
      exact .inl ⟨entry₂, rfl, hshr.trans hshr'⟩
    | none =>
      -- the entry is lost, so it is the one whose nonces were added
      right
      by_cases htok : token = token'
      · subst htok
        rcases he.list with ⟨-, hkept⟩ | ⟨entry₁', entry₂, hget₁, hshr', hlist⟩
        · rw [hkept hget'] at hget
          cases hget
        cases hget.symm.trans hget₁
        have hall := hshr.trans hshr'
        rw [← hall.nonces_eq] at hnc
        obtain ⟨d'', hd'', hrem⟩ := insertDeadNonces_remembers (P := P) hfram hnc t
        rw [hd, hd''] at hlist
        cases hd'.symm.trans hlist
        rw [hall.deadFingerprint_eq] at hrem
        exact hrem
      · rw [he.others token htok hget'] at hget
        cases hget
  · exact .inr (hremembers.later hlat)

lemma HeldOrRemembered.foldl {σ α : Type} (tablesOf : σ → Tables) {f : σ → α → σ}
    (hf : ∀ s a, ∃ token', Erases P t token' (tablesOf s) (tablesOf (f s a)))
    (hnc : nonce ∈ entry.noncesSeen) (l : List α) (s : σ)
    (h : HeldOrRemembered P t lifetimeNs m token entry nonce (tablesOf s)) :
    HeldOrRemembered P t lifetimeNs m token entry nonce (tablesOf (l.foldl f s)) := by
  induction l generalizing s with
  | nil => exact h
  | cons a l ih =>
    obtain ⟨token', he⟩ := hf s a
    exact ih (f s a) (h.erases hnc he)

end Erasing

/-! ## Runs -/

structure Timed where
  tables : Tables
  clock : ℕ

def Timed.step (P : Platform) (s : Timed) (event : Event) : Timed :=
  ⟨Pit.step P s.tables event, event.time⟩

/-- Events happen in the order of their times, and Interests are as a run supposes them. -/
def InOrder (P : Platform) (keys : Set Name) (s : Timed) (event : Event) : Prop :=
  s.clock ≤ event.time ∧ Supposes P True keys s.tables event

def Event.Erasing : Event → Prop
  | .data _ _ => True
  | .expiry _ _ => True
  | _ => False

section Runs

variable {keys : Set Name} {s s' : Timed} {event : Event} {now t lifetimeNs m : ℕ} {tables : Tables}
  {fp : NonceFingerprint} {a : Arrival}

lemma foldl_later {σ α : Type} (tablesOf : σ → Tables) {f : σ → α → σ}
    (hf : ∀ s a, ∃ token, Erases P now token (tablesOf s) (tablesOf (f s a))) (l : List α) (s : σ)
    (hd : (tablesOf s).deadNonceList = some d) :
    ∃ d', (tablesOf (l.foldl f s)).deadNonceList = some d' ∧ DeadNonceList.Later P now d d' := by
  induction l generalizing s d with
  | nil => exact ⟨d, hd, .refl⟩
  | cons a l ih =>
    obtain ⟨token, he⟩ := hf s a
    obtain ⟨d₁, hd₁, hlat₁⟩ := he.later hd
    obtain ⟨d₂, hd₂, hlat₂⟩ := ih (f s a) hd₁
    exact ⟨d₂, hd₂, hlat₁.trans hlat₂⟩

lemma lookup_erases (now : ℕ) (s : Tables × Collected) (l : UInt64 × Bool) :
    ∃ token, Erases P now token s.1 (consumeEntry P now s.1 s.2 l.1 l.2).1 :=
  ⟨l.1, consumeEntry_erases now s.1 s.2 l.1 l.2⟩

lemma expiry_erases (now : ℕ) (tables : Tables) (token : UInt64) :
    ∃ token', Erases P now token' tables (expireEntry P now tables token) :=
  ⟨token, expireEntry_erases now tables token⟩

/-- The tables after `drain_expired_entries`, with its nonces. -/
def drained (P : Platform) (tables : Tables) (now : ℕ) (reapOrphans : Bool) : Tables :=
  let pit := if reapOrphans then tables.pit.reapOrphans now else tables.pit
  (pit.expiredTokens now).foldl (expireEntry P now) { tables with pit := pit }

lemma runExpiryTask_deadNonceList {reapOrphans : Bool}
    (hd : (drained P tables now reapOrphans).deadNonceList = some d) :
    (runExpiryTask P tables now reapOrphans).deadNonceList = some (d.purgeExpired now) :=
  congrArg (Option.map fun d : DeadNonceList => d.purgeExpired now) hd

lemma checkProcess_deadNonceList (tables : Tables) (a : Arrival) :
    (process P tables a).1.deadNonceList = tables.deadNonceList := by
  unfold PitCheckStage.process
  split_ifs
  · rfl
  split
  · rfl
  · unfold admitInterest
    simp only
    split_ifs
    · rfl
    · rfl

lemma step_later (tables : Tables) (event : Event) (hd : tables.deadNonceList = some d) :
    ∃ d', (step P tables event).deadNonceList = some d' ∧
      DeadNonceList.Later P event.time d d' := by
  cases event with
  | interest a => exact ⟨d, (checkProcess_deadNonceList tables a).trans hd, .refl⟩
  | data data now =>
    exact foldl_later (fun s : Tables × Collected => s.1) (lookup_erases now)
      (lookups P data.name) (tables, ⟨[], [], []⟩) hd
  | expiry now reapOrphans =>
    obtain ⟨d', hd', hlat⟩ :
        ∃ d', (drained P tables now reapOrphans).deadNonceList = some d' ∧
          DeadNonceList.Later P now d d' :=
      foldl_later id (expiry_erases now) _ _ hd
    exact ⟨d'.purgeExpired now, runExpiryTask_deadNonceList hd', hlat.tail (.inr rfl)⟩
  | forwarded token faceId nonce now =>
    refine ⟨d, ?_, .refl⟩
    unfold step
    cases hget : tables.pit.get token with
    | none =>
      simp only [hget]
      exact hd
    | some entry =>
      simp only [hget]
      exact hd
  | discarded token now => exact ⟨d, hd, .refl⟩
  | faceRemoved faceId now => exact ⟨d, hd, .refl⟩

lemma remembers_step (hd : s.tables.deadNonceList = some d)
    (h : d.Remembers t lifetimeNs m fp s.clock) (hord : s.clock ≤ event.time) :
    ∃ d', (s.step P event).tables.deadNonceList = some d' ∧
      d'.Remembers t lifetimeNs m fp (s.step P event).clock := by
  obtain ⟨d', hd', hlat⟩ := step_later (P := P) s.tables event hd
  exact ⟨d', hd', (h.mono hord).later hlat⟩

/-- **An erased entry leaves its nonces behind.** When a Data or the expiry task erases an entry,
the list remembers the entry's nonces. -/
lemma erasing_remembers {token : UInt64} {entry : PitEntry} {nonce : ℕ} (hera : event.Erasing)
    (hget : s.tables.pit.get token = some entry) (hnc : nonce ∈ entry.noncesSeen)
    (hgone : (s.step P event).tables.pit.get token = none) (hd : s.tables.deadNonceList = some d) :
    ∃ d', (s.step P event).tables.deadNonceList = some d' ∧
      d'.Remembers event.time d.lifetimeNs d.evicted.length (deadFingerprint P entry nonce)
        event.time := by
  have hsta : ∀ pit : Pit, pit.get token = some entry →
      HeldOrRemembered P event.time d.lifetimeNs d.evicted.length token entry nonce
        { s.tables with pit := pit } :=
    fun pit hpit => ⟨d, hd, ⟨rfl, le_refl _⟩, .inl ⟨entry, hpit, Shrinks.refl entry⟩⟩
  cases event with
  | data data now =>
    obtain ⟨d', hd', -, hheld | hrem⟩ := HeldOrRemembered.foldl
      (fun s : Tables × Collected => s.1) (lookup_erases now) hnc (lookups P data.name)
      (s.tables, ⟨[], [], []⟩) (hsta s.tables.pit hget)
    · obtain ⟨entry', hget', -⟩ := hheld
      cases hget'.symm.trans hgone
    · exact ⟨d', hd', hrem⟩
  | expiry now reapOrphans =>
    have hpit : (if reapOrphans then s.tables.pit.reapOrphans now else s.tables.pit).get token =
        some entry := by
      split_ifs
      all_goals exact hget
    obtain ⟨d', hd', -, hheld | hrem⟩ :
        HeldOrRemembered P now d.lifetimeNs d.evicted.length token entry nonce
          (drained P s.tables now reapOrphans) :=
      HeldOrRemembered.foldl id (expiry_erases now) hnc _ _ (hsta _ hpit)
    · obtain ⟨entry', hget', -⟩ := hheld
      cases hget'.symm.trans hgone
    · exact ⟨d'.purgeExpired now, runExpiryTask_deadNonceList hd', hrem.purgeExpired⟩
  | interest a => cases hera
  | forwarded token faceId nonce now => cases hera
  | discarded token now => cases hera
  | faceRemoved faceId now => cases hera

lemma reach_timed_ok {dnl : Option DeadNonceList} {clock : ℕ} (hkeys : NoCollision P keys)
    (hrch : Run.Reach (Timed.step P) (InOrder P keys) ⟨.empty dnl, clock⟩ s) :
    PitOk P True keys s.tables.pit := by
  refine hrch.invariant (fun s => PitOk P True keys s.tables.pit) ?_ ?_
  · intro token entry hget
    cases hget
  · intro s event hpit hevt
    exact step_ok hkeys hpit hevt.2

lemma remembers_reach
    (hd : s.tables.deadNonceList = some d) (h : d.Remembers t lifetimeNs m fp s.clock)
    (hrch : Run.Reach (.step P) (InOrder P keys) s s') :
    ∃ d', s'.tables.deadNonceList = some d' ∧ d'.Remembers t lifetimeNs m fp s'.clock := by
  refine hrch.invariant (fun s' => ∃ d', s'.tables.deadNonceList = some d' ∧
    d'.Remembers t lifetimeNs m fp s'.clock) ⟨d, hd, h⟩ ?_
  rintro s₁ event ⟨d₁, hd₁, hrem⟩ hevt
  exact remembers_step hd₁ hrem hevt.1

lemma checkPersistent_error {pit : Pit} {reason : DropReason}
    (h : (checkPersistent pit a).2 = .error reason) :
    ∃ req, a.interest.subscriptionRequest = some req ∧ requestOk req = false := by
  unfold checkPersistent at h
  cases hreq : a.interest.subscriptionRequest with
  | none =>
    rw [hreq] at h
    cases h
  | some req =>
    refine ⟨req, rfl, ?_⟩
    rw [hreq] at h
    by_contra hok
    simp only [hok, if_false] at h
    split at h
    · split at h
      all_goals cases h
    · cases h

lemma process_of_contains
    (hreq : ∀ req, a.interest.subscriptionRequest = some req → requestOk req = true)
    (hd : tables.deadNonceList = some d)
    (hcon : d.contains ⟨NameHashes.fullNameHash P (keyName a.interest), nonceOf a.interest⟩
      a.arrival = true) :
    (process P tables a).2 = .drop .loopDetected := by
  unfold PitCheckStage.process
  split_ifs
  · rfl
  split
  · next pit' reason heq =>
    obtain ⟨req, hsome, hnot⟩ := checkPersistent_error (congrArg Prod.snd heq)
    rw [hreq req hsome] at hnot
    cases hnot
  · unfold admitInterest
    simp only [hd, hcon, if_true]

/-- The Interest that arrives repeats one that was added to the table: it has the same name, nonce
and request. -/
structure Repeats (a : Arrival) (i : Interest) : Prop where
  name_eq : a.interest.name = i.name
  nonce_eq : nonceOf a.interest = nonceOf i
  request_eq : a.interest.subscriptionRequest = i.subscriptionRequest

/-- **Dead nonces stop loops.** In every run in which tokens do not collide, events happen in the
order of their times, and an Interest with an invalid request and a digest at the end of its name
never starts an entry: once a Data or the expiry task has erased the entry of an Interest, a repeat
of that Interest is dropped until the lifetime of nonces is over, unless its nonce was evicted. -/
theorem erased_nonce_dropped {dnl : Option DeadNonceList} {clock : ℕ} (hkeys : NoCollision P keys)
    (hbefore : Run.Reach (Timed.step P) (InOrder P keys) ⟨.empty dnl, clock⟩ s)
    (herasing : event.Erasing) {token : UInt64} {entry : PitEntry} {i : Interest}
    (hget : s.tables.pit.get token = some entry) (hi : i ∈ entry.inserted)
    (hgone : (s.step P event).tables.pit.get token = none)
    (hafter : Run.Reach (Timed.step P) (InOrder P keys) (s.step P event) s')
    {a : Arrival} (hrepeats : Repeats a i) (hclock : s'.clock ≤ a.arrival)
    {d d' : DeadNonceList} (hd : s.tables.deadNonceList = some d)
    (hd' : s'.tables.deadNonceList = some d')
    (hevicted : ⟨NameHashes.fullNameHash P (keyName i), nonceOf i⟩ ∉
      d'.evicted.drop d.evicted.length)
    (htime : a.arrival < event.time + d.lifetimeNs) (hlast : a.arrival < DeadNonceList.lastTime) :
    (PitCheckStage.process P s'.tables a).2 = .drop .loopDetected := by
  obtain ⟨key, -, disc, hent⟩ := reach_timed_ok hkeys hbefore token entry hget
  have hkey : keyName a.interest = keyName i := by
    unfold keyName
    rw [hrepeats.name_eq, hrepeats.request_eq]
  have hfp : deadFingerprint P entry (nonceOf i) =
      ⟨NameHashes.fullNameHash P (keyName i), nonceOf i⟩ := by
    rw [deadFingerprint, hent.dead_key trivial, hent.inserted_key i hi]
  obtain ⟨d₁, hd₁, hrem₁⟩ :=
    erasing_remembers herasing hget (hent.inserted_nonce i hi) hgone hd
  obtain ⟨d₂, hd₂, hrem₂⟩ := remembers_reach hd₁ hrem₁ hafter
  cases hd₂.symm.trans hd'
  rw [hfp] at hrem₂
  apply process_of_contains ?_ hd'
  · rw [hkey, hrepeats.nonce_eq]
    exact hrem₂.contains hclock hevicted htime hlast
  · intro req hreq
    rw [hrepeats.request_eq] at hreq
    exact hent.inserted_ok i hi req hreq

section
open Sample

/-- The forwarder when face 2 has asked for `/a`, and when the Data has come. -/
def Sample.afterAsk : Timed := .step platform ⟨start, 0⟩ (.interest askA)

def Sample.afterData : Timed := afterAsk.step platform (.data (data nameA) 1)

/-- The premises of `erased_nonce_dropped` hold of a run in which the Data for `/a` erases the entry
and the Interest comes back on another face. -/
theorem erased_nonce_dropped_askA :
    (PitCheckStage.process platform afterData.tables (arrival askA.interest 4 2)).2 =
      .drop .loopDetected := by
  have hkeys : NoCollision platform {nameA} := by
    rintro n rfl n' rfl disc disc'
    cases disc <;> cases disc' <;> decide
  have hpln : Supposed platform True {nameA} start.pit askA := by
    have hmem : askA.interest.name ∈ ({nameA} : Set Name) := rfl
    refine supposed_plain ?_ ?_ hmem 2 0
    · decide
    · decide
  have hfst : InOrder platform {nameA} ⟨start, 0⟩ (.interest askA) :=
    ⟨le_refl 0, supposes_interest hpln⟩
  have hget : afterAsk.tables.pit.get (nameToken platform nameA .classical) =
      some (onNew askA none) := by
    decide
  have hgone : afterData.tables.pit.get (nameToken platform nameA .classical) = none := by
    decide
  have hd : afterAsk.tables.deadNonceList = some (.withLifetimeAndCapacity 6000000000 100) := by
    decide
  have hevi : afterData.tables.deadNonceList.map DeadNonceList.evicted = some [] := by
    decide
  obtain ⟨d', hd', hnil⟩ := Option.map_eq_some_iff.mp hevi
  refine erased_nonce_dropped hkeys (Run.Reach.refl.snoc _ hfst)
    (show Event.Erasing (.data (data nameA) 1) from trivial) hget
    (mem_singleton.mpr rfl) hgone .refl ⟨rfl, rfl, rfl⟩ (by decide)
    hd hd' ?_ (by decide) (by decide)
  rw [hnil, drop_nil]
  exact not_mem_nil

/-- Face 3 asks for `/a` with a request that is not validated, under a parameters digest. -/
def Sample.degraded : Arrival := arrival (interest nameADigest false 9 (some request)) 3 0

/-- The forwarder when the Data for `/a` has come. -/
def Sample.afterDegraded : Timed :=
  (Timed.step platform ⟨start, 0⟩ (.interest degraded)).step platform (.data (data nameA) 1)

/-- **A dead nonce is not recognised.** An Interest with an invalid request opens an entry and the
Data for its name erases it. The same Interest comes back on another face a nanosecond later, while
its nonce is in the list; it is not dropped, and opens an entry again. -/
theorem degraded_nonce_forwarded :
    NoCollision platform {nameA} ∧
    Supposed platform False {nameA} start.pit degraded ∧ degraded.degraded = true ∧
    (step platform start (.interest degraded)).pit.get (nameToken platform nameA .classical) =
      some (onNew degraded none) ∧
    degraded.interest ∈ (onNew degraded none).inserted ∧
    afterDegraded.tables.pit.entries = [] ∧
    afterDegraded.tables.deadNonceList.map DeadNonceList.evicted = some [] ∧
    (PitCheckStage.process platform afterDegraded.tables (arrival degraded.interest 4 2)).2 =
      .continue := by
  refine ⟨?_, ⟨⟨degraded.interest.raw, by decide⟩, ?_, False.elim⟩, by decide,
    by decide, mem_singleton.mpr rfl, by decide, by decide,
    by decide⟩
  · rintro n rfl n' rfl disc disc'
    cases disc <;> cases disc' <;> decide
  · decide

end

end Runs

end NdnRs.Pit
