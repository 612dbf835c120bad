import NdnRs.Forwarding.PitCredit

/-!
# Subscriptions over runs

A subscription is the record of one face in an entry that it may share with others. Each has a
budget and a deadline of its own. The match stage keeps the budgets apart, as long as the entry's
own credit does not run out under it; the deadlines it never reads.

## Main results

* `subscription_credit_exact` — budgets are kept.
* `delivered_in_time_iff` — when deadlines are.
-/

namespace NdnRs.Pit

open Bytes SwapRemove Tlv List Option Pit
open scoped List

open PitCheckStage PitMatchStage

variable {P : Platform}

/-- The name that the entry for an Interest has. -/
abbrev Arrival.key (a : Arrival) : Name := keyName a.interest

/-! ## Deadlines -/

/-- A lookup of the Data finds the record in the entry at the token and takes a credit from it, so
that the Data goes to the record's face. -/
def DeliveredThrough (P : Platform) (pit : Pit) (d : Data) (token : UInt64) (r : InRecord) : Prop :=
  ∃ cbpOnly entry, Lookup P d.name token cbpOnly ∧ pit.get token = some entry ∧
    r ∈ entry.inRecords ∧ (spend cbpOnly entry.persistent.isSome r).2 = true

/-- The tables with the time of the last sweep of the expiry task. -/
abbrev Swept := Tables × ℕ

/-- An event on the tables, with the time noted if it is a sweep. -/
def sweptStep (P : Platform) (s : Swept) (event : Event) : Swept :=
  (step P s.1 event,
    match event with
    | .expiry now _ => now
    | _ => s.2)

/-- The event is not earlier than the last sweep. -/
def SweptInOrder (s : Swept) (event : Event) : Prop := s.2 ≤ event.time

/-- A subscription ends after it arrives. -/
lemma Reaches.arrival_lt {tables : Tables} {a : Arrival} {ps : PersistentState}
    (h : Reaches P tables a (some ps)) : a.arrival < ps.reapAt := by
  have hpass := h.passed
  unfold checkPersistent at hpass
  cases hreq : a.interest.subscriptionRequest with
  | none =>
    rw [hreq] at hpass
    cases hpass
  | some req =>
    have hok := ((checkPersistent_spec tables.pit a).2 _ h.passed).1 req hreq
    have hsecs : req.maxLifetimeSecs ≠ 0 := (of_decide_eq_true hok).2.2.1
    rw [hreq] at hpass
    simp only [hok, Bool.true_eq_false, if_false] at hpass
    split_ifs at hpass
    · split at hpass
      all_goals
        cases hpass
        show a.arrival < a.arrival + req.maxLifetimeSecs * 1000000000
        omega
    · cases hpass

lemma foldl_expireEntry_get_of_mem (now : ℕ) {tokens : List UInt64} {token : UInt64}
    (hmem : token ∈ tokens) (tables : Tables) :
    (tokens.foldl (expireEntry P now) tables).pit.get token = none := by
  induction tokens generalizing tables with
  | nil => cases hmem
  | cons token' tokens ih =>
    rw [foldl_cons]
    by_cases hrest : token ∈ tokens
    · exact ih hrest _
    · obtain rfl : token = token' := (mem_cons.mp hmem).resolve_right hrest
      rw [foldl_expireEntry_get now hrest, expireEntry]
      cases hget : tables.pit.get token with
      | none => exact hget
      | some entry => rw [reap_pit, get_remove, if_pos rfl]

/-- What a sweep leaves ends after it. -/
lemma lt_expiresAt_of_runExpiryTask {tables : Tables} {now : ℕ} {reapOrphans : Bool}
    {token : UInt64} {entry : PitEntry} (htoks : DistinctTokens tables.pit)
    (hget : (runExpiryTask P tables now reapOrphans).pit.get token = some entry) :
    now < entry.expiresAt := by
  obtain ⟨entry', hget', hrem⟩ := (runExpiryTask_loses tables now reapOrphans).get _ entry hget
  rw [hrem.expires_eq]
  by_contra hdue
  set pit := if reapOrphans then tables.pit.reapOrphans now else tables.pit with hpit
  have hes : pit.entries = tables.pit.entries := by
    rw [hpit]
    split_ifs <;> rfl
  have hmem : token ∈ pit.expiredTokens now := by
    rw [Pit.expiredTokens, hes]
    exact mem_map.mpr ⟨(token, entry'), mem_filter.mpr
      ⟨(Assoc.lookup_eq_some_iff htoks).mp hget', decide_eq_true (not_lt.mp hdue)⟩, rfl⟩
  cases hget.symm.trans (foldl_expireEntry_get_of_mem now hmem { tables with pit := pit })

/-- The entry has a subscription. -/
def Subscribed (entry : PitEntry) : Prop := ∃ r ∈ entry.inRecords, r.persistent.isSome = true

/-- **One event.** No subscription is in an entry that ended by the last sweep. -/
lemma subscribed_step {s : Swept} {event : Event}
    (h : AllEntries (fun e => Subscribed e → s.2 < e.expiresAt) s.1.pit)
    (htoks : DistinctTokens s.1.pit) (hevt : SweptInOrder s event) :
    AllEntries (fun e => Subscribed e → (sweptStep P s event).2 < e.expiresAt)
      (sweptStep P s event).1.pit := by
  by_cases hexp : ∃ now reapOrphans, event = .expiry now reapOrphans
  · obtain ⟨now, reapOrphans, rfl⟩ := hexp
    exact fun token entry hget _ => lt_expiresAt_of_runExpiryTask htoks hget
  have hlast : (sweptStep P s event).2 = s.2 := by
    cases event with
    | expiry now reapOrphans => exact absurd ⟨now, reapOrphans, rfl⟩ hexp
    | _ => rfl
  rw [hlast]
  refine h.step ?_ ?_
  · rintro entry entry' hrem hent ⟨r', hr', hsome⟩
    obtain ⟨r, hmem, hspent⟩ := hrem.spent r' hr'
    rw [hrem.expires_eq]
    exact hent ⟨r, hmem, hspent.isSome_eq ▸ hsome⟩
  · rintro a rfl persistent hrch
    refine ⟨?_, fun entry hget hloop => ?_⟩
    · rintro ⟨r, hr, hsome⟩
      rw [onNew_inRecords] at hr
      rw [mem_singleton.mp hr] at hsome
      obtain ⟨ps, rfl⟩ := isSome_iff_exists.mp hsome
      exact hevt.trans_lt hrch.arrival_lt
    · cases persistent with
      | none =>
        rw [onExisting_none hloop]
        rintro ⟨r, hr, hsome⟩
        rcases mem_append.mp hr with hold | hnew
        · exact h _ entry hget ⟨r, hold, hsome⟩
        · rw [mem_singleton.mp hnew] at hsome
          cases hsome
      | some ps =>
        rw [onExisting_some_expiresAt hloop]
        exact fun _ => lt_max_of_lt_right (hevt.trans_lt hrch.arrival_lt)

/-- **When no delivery is late.** In every run in the order of time: a Data that goes through a
subscription comes before its deadline, if a sweep has been made since the deadline and the entry
does not outlive the subscription. And a Data that is for the subscription comes too late for it,
after a sweep at `t`, exactly if its deadline has passed and that of the entry has not by `t`. -/
theorem delivered_in_time_iff {dnl : Option DeadNonceList} {s : Swept}
    (hreach : Run.Reach (sweptStep P) SweptInOrder (.empty dnl, 0) s) {token : UInt64}
    {entry : PitEntry} (hget : s.1.pit.get token = some entry) {r : InRecord}
    (hr : r ∈ entry.inRecords) {ps : PersistentState} (hps : r.persistent = some ps) {d : Data}
    (hd : DeliveredThrough P s.1.pit d token r) :
    (∀ now, (ps.reapAt ≤ now → ps.reapAt ≤ s.2) → entry.expiresAt ≤ ps.reapAt → now < ps.reapAt) ∧
    ∀ t now reapOrphans,
      (DeliveredThrough P (runExpiryTask P s.1 t reapOrphans).pit d token r → now < ps.reapAt) ↔
        now < ps.reapAt ∨ entry.expiresAt ≤ t := by
  have hinv : AllEntries (fun e => Subscribed e → s.2 < e.expiresAt) s.1.pit ∧
      DistinctTokens s.1.pit :=
    hreach.invariant (fun s => AllEntries (fun e => Subscribed e → s.2 < e.expiresAt) s.1.pit ∧
      DistinctTokens s.1.pit) ⟨allEntries_empty dnl, nodup_nil⟩
      fun s event h hevt => ⟨subscribed_step h.1 h.2 hevt, step_tokens h.2 event⟩
  refine ⟨fun now hswept hends => ?_, fun t now reapOrphans => ?_⟩
  · by_contra hlate
    have hpast := hswept (not_lt.mp hlate)
    have hlive := hinv.1 token entry hget ⟨r, hr, by rw [hps]; rfl⟩
    omega
  · by_cases hswept : entry.expiresAt ≤ t
    · refine iff_of_true ?_ (.inr hswept)
      rintro ⟨cbpOnly, entry', -, hget', -⟩
      have hlive := lt_expiresAt_of_runExpiryTask hinv.2 hget'
      obtain ⟨entry₀, hget₀, hrem⟩ := (runExpiryTask_loses s.1 t reapOrphans).get _ entry' hget'
      cases hget.symm.trans hget₀
      rw [hrem.expires_eq] at hlive
      omega
    · have hkept := runExpiryTask_get_of_lt (P := P) hinv.2 hget (not_le.mp hswept) reapOrphans
      obtain ⟨cbpOnly, entry', hlk, hget', hr', hspen⟩ := hd
      cases hget.symm.trans hget'
      rw [or_iff_left hswept]
      exact ⟨fun h => h ⟨cbpOnly, entry, hlk, hkept, hr, hspen⟩, fun h _ => h⟩

section
open Sample

/-- Face 1 subscribes to `/a` for a second and face 2 for an hour, and a second and a half later
there is a sweep. -/
def Sample.secondAndHour : List Event :=
  [.interest (subscribe 5 1 1 7 0), .interest (subscribe 5 3600 2 8 0), .expiry 1500000000 true]

/-- `delivered_in_time_iff` for the subscription of face 2, which ends with its entry: no Data goes
through it after the sweep at its deadline. -/
theorem delivered_in_time_iff_hour :
    let s := secondAndHour.foldl (sweptStep platform) (start, 0)
    let r := recordOf (subscribe 5 3600 2 8 0) (some ⟨5, 3600000000000, none⟩)
    DeliveredThrough platform s.1.pit (data nameA) (nameToken platform nameA .persistentAttach) r ∧
    ¬ DeliveredThrough platform (runExpiryTask platform s.1 3600000000000 true).pit (data nameA)
      (nameToken platform nameA .persistentAttach) r := by
  intro s r
  have hget : s.1.pit.get (nameToken platform nameA .persistentAttach) =
      some (onExisting (subscribe 5 3600 2 8 0) (some ⟨5, 3600000000000, none⟩)
        (onNew (subscribe 5 1 1 7 0) (some ⟨5, 1000000000, none⟩))).1 := by
    decide
  have hdlv : DeliveredThrough platform s.1.pit (data nameA)
      (nameToken platform nameA .persistentAttach) r :=
    ⟨false, _, .exact _, hget, by decide, by decide⟩
  have hreach : Run.Reach (sweptStep platform) SweptInOrder (start, 0) s :=
    Run.Reach.refl.foldl ⟨Nat.zero_le _, Nat.zero_le _, Nat.zero_le _, trivial⟩
  have hiff := (delivered_in_time_iff hreach hget (by decide) rfl hdlv).2 3600000000000
    3600000000000 true
  exact ⟨hdlv, fun hlate => absurd (hiff.mpr (.inr (by decide)) hlate) (by decide)⟩

/-- **A delivery after the deadline.** Face 1 subscribes to `/a` for a second and face 2 for an
hour. The sweep after one and a half seconds leaves the entry, and the Data that arrives after two
seconds goes through the subscription of face 1. -/
theorem delivered_after_deadline :
    let tables := run secondAndHour
    (∃ token r, DeliveredThrough platform tables.pit (data nameA) token r ∧ r.faceId = 1 ∧
      r.persistent.map PersistentState.reapAt = some 1000000000) ∧
    (PitMatchStage.process platform tables (data nameA).name 2000000000).2.outFaces = [1, 2] := by
  refine ⟨⟨nameToken platform (data nameA).name .persistentAttach,
    recordOf (subscribe 5 1 1 7 0) (some ⟨5, 1000000000, none⟩),
    ⟨false, (onExisting (subscribe 5 3600 2 8 0) (some ⟨5, 3600000000000, none⟩)
      (onNew (subscribe 5 1 1 7 0) (some ⟨5, 1000000000, none⟩))).1, .exact _, ?_, ?_, ?_⟩, rfl,
    rfl⟩, ?_⟩
  all_goals decide

end

/-! ## The record of a face -/

/-- The record of a face in an entry. -/
def recordOn (faceId : ℕ) (entry : Option PitEntry) : Option InRecord :=
  entry.bind fun e => e.inRecords.find? fun r => r.faceId = faceId

section

variable {faceId : ℕ} {entry entry' : Option PitEntry} {r : InRecord}

lemma recordOn_eq_some_iff (hone : ∀ e, entry = some e → OnePerFace e) :
    recordOn faceId entry = some r ↔ Held entry r ∧ r.faceId = faceId := by
  cases entry with
  | none => exact iff_of_false nofun fun h => not_held_none r h.1
  | some e =>
    rw [held_some_iff]
    show (e.inRecords.find? fun r => r.faceId = faceId) = some r ↔ _
    constructor
    · intro hfind
      have hface := find?_some hfind
      exact ⟨mem_of_find?_eq_some hfind, of_decide_eq_true hface⟩
    rintro ⟨hr, hface⟩
    have hsome : (e.inRecords.find? fun r => r.faceId = faceId).isSome = true :=
      find?_isSome.mpr ⟨r, hr, by simpa using hface⟩
    obtain ⟨r', hfind⟩ := isSome_iff_exists.mp hsome
    have hmem := mem_of_find?_eq_some hfind
    have hfnd := find?_some hfind
    have hface' : r'.faceId = faceId := of_decide_eq_true hfnd
    rw [hfind, inj_on_of_nodup_map (hone e rfl) hmem hr (hface'.trans hface.symm)]

lemma recordOn_congr (hone : ∀ e, entry = some e → OnePerFace e)
    (hone' : ∀ e, entry' = some e → OnePerFace e)
    (h : ∀ r, r.faceId = faceId → (Held entry' r ↔ Held entry r)) :
    recordOn faceId entry' = recordOn faceId entry := by
  refine ext fun r => ?_
  rw [recordOn_eq_some_iff hone, recordOn_eq_some_iff hone']
  constructor
  · rintro ⟨hr, hface⟩
    exact ⟨(h r hface).mp hr, hface⟩
  · rintro ⟨hr, hface⟩
    exact ⟨(h r hface).mpr hr, hface⟩

end

/-- The token of the subscriptions to a name. -/
abbrev subToken (P : Platform) (key : Name) : UInt64 := nameToken P key .persistentAttach

/-! ### What holds of every subscription's entry -/

/-- The table is in order, its entries have records, and those of subscriptions have one per
face. -/
structure SubsOk (P : Platform) (keys : Set Name) (tables : Tables) : Prop where
  pit_ok : PitOk P False keys tables.pit
  one_per_face : AllEntries (fun e => e.persistent.isSome = true → OnePerFace e) tables.pit
  nonempty : AllEntries (fun e => e.inRecords ≠ []) tables.pit
  tokens : DistinctTokens tables.pit

section Steps

variable {keys : Set Name} {tables : Tables} {event : Event} {key : Name} {faceId : ℕ}
  {entry : PitEntry} {cbpOnly : Bool} {now : ℕ}

section

variable (h : SubsOk P keys tables) (hkeys : NoCollision P keys)
include h hkeys

lemma SubsOk.entryOk (hkey : key ∈ keys) {disc : PitKeyDiscriminator}
    (hget : tables.pit.get (nameToken P key disc) = some entry) :
    EntryOk P False (nameToken P key disc) entry key disc := by
  obtain ⟨key', hkey', disc', hent⟩ := h.pit_ok _ entry hget
  obtain ⟨rfl, rfl⟩ := hkeys key hkey key' hkey' disc disc' hent.token_eq
  exact hent

lemma SubsOk.onePerFace (hkey : key ∈ keys)
    (hget : tables.pit.get (subToken P key) = some entry) : OnePerFace entry :=
  h.one_per_face _ entry hget ((h.entryOk hkeys hkey hget).persistent_iff.mpr rfl)

lemma SubsOk.step
    (hevt : Supposes P False keys tables event) : SubsOk P keys (step P tables event) := by
  refine ⟨step_ok hkeys h.pit_ok hevt, ?_, nonempty_step h.nonempty event,
    step_tokens h.tokens event⟩
  refine h.one_per_face.step (fun hrem hone hsome => ?_) ?_
  · rw [hrem.persistent_eq] at hsome
    exact onePerFace_settles.kept hrem (hone hsome)
  rintro a rfl persistent hrch
  refine ⟨fun _ => onePerFace_settles.new a persistent, fun entry hget hloop => ?_⟩
  have hent := h.entryOk hkeys (hevt a rfl).key_mem hget
  cases persistent with
  | some ps =>
    exact fun _ => onePerFace_settles.renewed a ps hloop
      (h.one_per_face _ entry hget (hent.persistent_iff.mpr rfl))
  | none =>
    rw [onExisting_none hloop]
    exact fun hsome => nomatch hent.persistent_iff.mp hsome

end

lemma SubsOk.of_reach {dnl : Option DeadNonceList} (hkeys : NoCollision P keys)
    (hrch : Run.Reach (Pit.step P) (Supposes P False keys) (.empty dnl) tables) :
    SubsOk P keys tables := by
  refine hrch.invariant (SubsOk P keys)
    ⟨?_, allEntries_empty dnl, allEntries_empty dnl, nodup_nil⟩ fun _ _ h hevt =>
      h.step hkeys hevt
  intro token entry hget
  cases hget

/-! ### One event -/

/-- The face subscribes to the key, for the first time or again. -/
def Resubscribes (P : Platform) (key : Name) (faceId : ℕ) (tables : Tables) (a : Arrival) : Prop :=
  ∃ ps, Reaches P tables a (some ps) ∧ a.key = key ∧ a.faceId = faceId ∧
    ∀ entry, tables.pit.get (subToken P key) = some entry →
      isLoop a entry = false

/-- The event leaves the entry of the key in the table: it is not swept, no other stage discards it,
and a Data with a longer name does not use up its own credit. -/
def Spares (P : Platform) (keys : Set Name) (key : Name) (tables : Tables) : Event → Prop
  | .interest _ | .forwarded .. | .faceRemoved .. => True
  | .data d _ => d.name ≠ [] ∧ PrefixesIn keys d ∧
      ∀ entry, tables.pit.get (subToken P key) = some entry →
        key ≠ [] → key <+: d.name → key ≠ d.name → Lasts true entry
  | .expiry now _ => ∀ entry, tables.pit.get (subToken P key) = some entry →
      now < entry.expiresAt
  | .discarded token _ => token ≠ subToken P key

variable {a : Arrival} {r : InRecord} {d : Data} {ps : PersistentState} {n : ℕ}

/-- An Interest leaves the records of the other faces alone. -/
lemma recordOn_interest (h : SubsOk P keys tables) (hkeys : NoCollision P keys) (hkey : key ∈ keys)
    (ha : Supposes P False keys tables (.interest a))
    (hnot : ¬ Resubscribes P key faceId tables a) :
    recordOn faceId ((step P tables (.interest a)).pit.get (subToken P key)) =
      recordOn faceId (tables.pit.get (subToken P key)) := by
  have haft := h.step hkeys ha
  refine recordOn_congr (fun e he => h.onePerFace hkeys hkey he)
    (fun e he => haft.onePerFace hkeys hkey he) fun r hface => ?_
  rcases checkProcess_entries (P := P) tables a with ⟨persistent, hrch, hes⟩ | ⟨-, hes⟩
  · rw [step, get_of_entries hes, get_set]
    split_ifs with htok
    · obtain ⟨hkeyName, hdisc⟩ := hkeys key hkey _ (ha a rfl).key_mem _ _ htok
      obtain ⟨ps, rfl⟩ := isSome_iff_exists.mp ((discOf_eq_iff persistent).mp hdisc.symm)
      -- a record of another face is none that the Interest adds or replaces
      unfold entered
      rw [← htok, held_some_iff]
      cases hget : tables.pit.get (subToken P key) with
      | none =>
        simp only [onNew_inRecords, mem_singleton]
        refine iff_of_false ?_ (not_held_none r)
        rintro rfl
        refine hnot ⟨ps, hrch, hkeyName.symm, hface, fun e he => ?_⟩
        rw [hget] at he
        cases he
      | some entry =>
        simp only
        cases hloop : isLoop a entry with
        | true => rw [onExisting_of_loop hloop, held_some_iff]
        | false =>
          have hoth : r.faceId ≠ a.faceId := by
            intro heq
            refine hnot ⟨ps, hrch, hkeyName.symm, heq.symm.trans hface, fun e he => ?_⟩
            cases hget.symm.trans he
            exact hloop
          rw [onExisting_some_inRecords hloop, held_some_iff, mem_append, mem_filter, mem_singleton]
          constructor
          · rintro (⟨hr, -⟩ | rfl)
            · exact hr
            · exact absurd rfl hoth
          · exact fun hr => .inl ⟨hr, decide_eq_true hoth⟩
    · exact .rfl
  · rw [step, get_of_entries hes]

lemma held_removeFace_iff (pit : Pit) (token : UInt64) (r : InRecord) :
    Held ((pit.removeFace faceId).get token) r ↔ Held (pit.get token) r ∧ r.faceId ≠ faceId := by
  rw [get_removeFace]
  cases pit.get token with
  | none => exact iff_of_false (not_held_none r) fun hr => not_held_none r hr.1
  | some entry =>
    rw [Option.bind_some, survivor, held_some_iff]
    split_ifs with hall
    · exact iff_of_false (not_held_none r) fun hr => hr.2 (hall.2 r hr.1)
    · rw [held_some_iff, PitEntry.prune, mem_filter, decide_eq_true_iff]

lemma afterRecord_faceId {entryLevel : Bool} {r' : InRecord}
    (h : afterRecord cbpOnly entryLevel r = some r') : r'.faceId = r.faceId := by
  unfold afterRecord at h
  split_ifs at h
  cases h
  obtain ⟨n, hn⟩ := spend_spent cbpOnly entryLevel r
  rw [hn]

lemma addOutRecord_inRecords (entry : PitEntry) (faceId nonce sentAt : ℕ) :
    (entry.addOutRecord faceId nonce sentAt).inRecords = entry.inRecords := by
  unfold PitEntry.addOutRecord
  split_ifs <;> rfl

/-- A Data does to the record of each face what its one lookup does. -/
lemma recordOn_data (faceId : ℕ) (h : SubsOk P keys tables) (hkeys : NoCollision P keys)
    (hkey : key ∈ keys) (hspr : Spares P keys key tables (.data d now)) :
    recordOn faceId ((step P tables (.data d now)).pit.get (subToken P key)) =
      if key ≠ [] ∧ key <+: d.name then
        (recordOn faceId (tables.pit.get (subToken P key))).bind
          (afterRecord (decide (key ≠ d.name)) true)
      else recordOn faceId (tables.pit.get (subToken P key)) := by
  obtain ⟨hname, hd, hlas⟩ := hspr
  have hevt : Supposes P False keys tables (.data d now) := nofun
  have haft := h.step hkeys hevt
  split_ifs with hpre
  · refine ext fun r' => ?_
    rw [recordOn_eq_some_iff fun e he => haft.onePerFace hkeys hkey he, bind_eq_some_iff]
    simp only [recordOn_eq_some_iff fun e he => h.onePerFace hkeys hkey he]
    rw [step, process_fst, consumeAll_get, filter_lookups_persistent hkeys hd hpre.2 hpre.1]
    cases hget : tables.pit.get (subToken P key) with
    | none =>
      refine iff_of_false (fun h => not_held_none r' h.1) ?_
      rintro ⟨r, ⟨hr, -⟩, -⟩
      exact not_held_none r hr
    | some entry =>
      have hent := h.entryOk hkeys hkey hget
      have hrecs : ∀ r ∈ entry.inRecords, r.persistent.isSome = true :=
        fun r hr => (hent.record_persistent_iff r hr).mpr rfl
      have hlas' : Lasts (decide (key ≠ d.name)) entry := by
        by_cases heq : key = d.name
        · -- every record takes part in an exact lookup
          obtain ⟨r, hr⟩ := exists_mem_of_ne_nil _ (h.nonempty _ entry hget)
          refine .inl (any_eq_true.mpr ⟨r, hr, ?_⟩)
          simp [hrecs r hr, heq]
        · rw [decide_eq_true heq]
          exact hlas entry hget hpre.1 hpre.2 heq
      show Held (afterLookup _ entry) r' ∧ r'.faceId = faceId ↔ _
      rw [held_afterLookup_iff (hent.persistent_iff.mpr rfl) hrecs hlas']
      simp only [held_some_iff]
      constructor
      · rintro ⟨⟨r, hr, hrec⟩, hface⟩
        exact ⟨r, ⟨hr, (afterRecord_faceId hrec).symm.trans hface⟩, hrec⟩
      · rintro ⟨r, ⟨hr, hface⟩, hrec⟩
        exact ⟨⟨r, hr, hrec⟩, (afterRecord_faceId hrec).trans hface⟩
  · rw [step, process_fst, consumeAll_get_of_not_mem]
    intro cbpOnly hmem
    exact hpre (prefix_of_lookup hkeys hd hname hkey (mem_lookups_iff.mp hmem) rfl)

/-- **What an event does to the record of a face** in the entry of a subscription that it spares:
nothing, unless it is a Data, a subscription of that face, or the removal of that face. -/
lemma recordOn_step (h : SubsOk P keys tables) (hkeys : NoCollision P keys) (hkey : key ∈ keys)
    (hevt : Supposes P False keys tables event) (hspr : Spares P keys key tables event)
    (hdata : ∀ d now, event ≠ .data d now)
    (hintr : ∀ a, event = .interest a → ¬ Resubscribes P key faceId tables a)
    (hrm : ∀ now, event ≠ .faceRemoved faceId now) :
    recordOn faceId ((step P tables event).pit.get (subToken P key)) =
      recordOn faceId (tables.pit.get (subToken P key)) := by
  have haft := h.step hkeys hevt
  cases event with
  | interest a => exact recordOn_interest h hkeys hkey hevt (hintr a rfl)
  | data d now => exact absurd rfl (hdata d now)
  | expiry now reapOrphans =>
    cases hget : tables.pit.get (subToken P key) with
    | some entry =>
      rw [step, runExpiryTask_get_of_lt h.tokens hget (hspr entry hget)]
    | none =>
      cases hget' : (step P tables (.expiry now reapOrphans)).pit.get (subToken P key) with
      | none => rfl
      | some entry' =>
        obtain ⟨entry, hent, -⟩ := (runExpiryTask_loses tables now reapOrphans).get _ entry' hget'
        cases hget.symm.trans hent
  | forwarded token faceId' nonce now =>
    refine recordOn_congr (fun e he => h.onePerFace hkeys hkey he)
      (fun e he => haft.onePerFace hkeys hkey he) fun r _ => ?_
    rw [step]
    cases hget : tables.pit.get token with
    | none => exact .rfl
    | some entry =>
      simp only [get_set]
      split_ifs with heq
      · rw [heq, hget, held_some_iff, held_some_iff, addOutRecord_inRecords]
      · exact .rfl
  | discarded token now =>
    rw [step, get_remove, if_neg (Ne.symm hspr)]
  | faceRemoved faceId' now =>
    refine recordOn_congr (fun e he => h.onePerFace hkeys hkey he)
      (fun e he => haft.onePerFace hkeys hkey he) fun r hface => ?_
    rw [step, held_removeFace_iff, hface]
    exact and_iff_left fun heq => hrm now (by rw [heq])

/-! ### Deliveries -/

/-- What is left of a record after a delivery through it: it goes with its last credit. -/
def charged (r : InRecord) : Option InRecord :=
  match r.persistent with
  | none => some r
  | some ps =>
    if ps.dataCountRemaining ≤ 1 then none
    else some { r with
      persistent := some { ps with dataCountRemaining := ps.dataCountRemaining - 1 } }

lemma afterRecord_eq (hps : r.persistent = some ps) :
    afterRecord cbpOnly true r =
      if (spend cbpOnly true r).2 = true then charged r else some r := by
  unfold afterRecord
  by_cases hskip : (cbpOnly && !r.selector.canBePrefix) = true
  · simp [spend, hskip, isExhausted]
  by_cases hpos : 0 < ps.dataCountRemaining
  · simp only [spend, hskip, hps, hpos, if_true, if_false, charged, isExhausted,
      Bool.false_eq_true, map_some, Option.some.injEq, true_and, decide_eq_true_eq]
    by_cases hone : ps.dataCountRemaining ≤ 1
    · rw [if_pos (by omega), if_pos hone]
    · rw [if_neg (by omega), if_neg hone]
  · simp [spend, hskip, hps, hpos, isExhausted]

/-- The Data is for a subscription to the key: it has its name, or a longer one and the subscription
has CanBePrefix. -/
def Matching (key : Name) (canBePrefix : Bool) (d : Data) : Prop :=
  key ≠ [] ∧ key <+: d.name ∧ (key = d.name ∨ canBePrefix = true)

instance (key : Name) (canBePrefix : Bool) (d : Data) : Decidable (Matching key canBePrefix d) :=
  inferInstanceAs (Decidable (_ ∧ _ ∧ _))

lemma spend_snd_iff (hps : r.persistent = some ps)
    (hpos : 0 < ps.dataCountRemaining) (hne : key ≠ []) (hpre : key <+: d.name) :
    (spend (decide (key ≠ d.name)) true r).2 = true ↔ Matching key r.selector.canBePrefix d := by
  by_cases heq : key = d.name
  · simp [spend, Matching, hps, hpos, ← heq, hne]
  · cases hcbp : r.selector.canBePrefix with
    | true => simp [spend, Matching, hps, hpos, hcbp, hne, hpre]
    | false => simp [spend, Matching, hcbp, heq]

/-- How many Data for the subscription are among the events. -/
def matchCount (key : Name) (canBePrefix : Bool) : List Event → ℕ
  | [] => 0
  | .data d _ :: events =>
    (if Matching key canBePrefix d then 1 else 0) + matchCount key canBePrefix events
  | _ :: events => matchCount key canBePrefix events

/-- The record of a subscription with so much credit left. -/
def withCredit (a : Arrival) (ps : PersistentState) (n : ℕ) : InRecord :=
  recordOf a (some { ps with dataCountRemaining := n })

/-- The record in the table of the face that subscribed. -/
abbrev subRecord (P : Platform) (a : Arrival) (tables : Tables) : Option InRecord :=
  recordOn a.faceId (tables.pit.get (subToken P a.key))

/-- The record of the subscription after so many Data for it. -/
def creditAfter (a : Arrival) (ps : PersistentState) (n : ℕ) : Option InRecord :=
  if n < ps.dataCountRemaining then some (withCredit a ps (ps.dataCountRemaining - n)) else none

/-- The events that leave a subscription alone: they spare its entry, its face does not subscribe
again, and its face is not removed. -/
def Undisturbed (P : Platform) (keys : Set Name) (key : Name) (faceId : ℕ) (tables : Tables)
    (event : Event) : Prop :=
  Supposes P False keys tables event ∧ Spares P keys key tables event ∧
    (∀ a, event = .interest a → ¬ Resubscribes P key faceId tables a) ∧
    ∀ now, event ≠ .faceRemoved faceId now

lemma creditAfter_data (hpre : key ≠ [] ∧ key <+: d.name) :
    (creditAfter a ps n).bind (afterRecord (decide (key ≠ d.name)) true) =
      creditAfter a ps (n + if Matching key a.interest.selectors.canBePrefix d then 1 else 0) := by
  unfold creditAfter
  by_cases hlt : n < ps.dataCountRemaining
  · have hpos : 0 < ps.dataCountRemaining - n := by omega
    have hiff := spend_snd_iff (r := withCredit a ps (ps.dataCountRemaining - n)) rfl hpos
      hpre.1 hpre.2
    have hps : (withCredit a ps (ps.dataCountRemaining - n)).persistent =
        some { ps with dataCountRemaining := ps.dataCountRemaining - n } := rfl
    rw [if_pos hlt, bind_some, afterRecord_eq hps]
    by_cases hmat : Matching key a.interest.selectors.canBePrefix d
    · rw [if_pos (hiff.mpr hmat), if_pos hmat]
      simp only [charged, withCredit, recordOf]
      by_cases hone : ps.dataCountRemaining - n ≤ 1
      · rw [if_pos hone, if_neg (by omega)]
      · rw [if_neg hone, if_pos (by omega), Nat.sub_sub]
    · rw [if_neg (mt hiff.mp hmat), if_neg hmat, Nat.add_zero, if_pos hlt]
  · rw [if_neg hlt, if_neg (by omega)]
    rfl

/-- **One event.** The credit of an undisturbed subscription goes down by the Data for it. -/
lemma creditAfter_step (h : SubsOk P keys tables) (hkeys : NoCollision P keys) (hkey : a.key ∈ keys)
    (hevt : Undisturbed P keys a.key a.faceId tables event)
    (hrec : subRecord P a tables = creditAfter a ps n) :
    subRecord P a (step P tables event) =
      creditAfter a ps (n + matchCount a.key a.interest.selectors.canBePrefix [event]) := by
  obtain ⟨hsup, hspr, hintr, hrm⟩ := hevt
  rw [subRecord] at hrec ⊢
  by_cases hdata : ∃ d now, event = .data d now
  · obtain ⟨d, now, rfl⟩ := hdata
    rw [recordOn_data _ h hkeys hkey hspr, hrec]
    split_ifs with hpre
    · exact creditAfter_data hpre
    · have hnot : ¬ Matching a.key a.interest.selectors.canBePrefix d :=
        fun hmat => hpre ⟨hmat.1, hmat.2.1⟩
      simp [matchCount, hnot]
  · have hno : ∀ d now, event ≠ .data d now := fun d now heq => hdata ⟨d, now, heq⟩
    rw [recordOn_step h hkeys hkey hsup hspr hno hintr hrm, hrec]
    cases event with
    | data d now => exact absurd rfl (hno d now)
    | _ => rfl

lemma matchCount_cons (key : Name) (canBePrefix : Bool) (event : Event) (events : List Event) :
    matchCount key canBePrefix (event :: events) =
      matchCount key canBePrefix [event] + matchCount key canBePrefix events := by
  cases event <;> simp [matchCount]

lemma creditAfter_run (hkeys : NoCollision P keys)
    (hkey : a.key ∈ keys) {events : List Event} (h : SubsOk P keys tables)
    (hevs : Run.Admits (step P) (Undisturbed P keys a.key a.faceId) tables events)
    (hrec : subRecord P a tables = creditAfter a ps n) :
    SubsOk P keys (events.foldl (step P) tables) ∧
      subRecord P a (events.foldl (step P) tables) =
        creditAfter a ps (n + matchCount a.key a.interest.selectors.canBePrefix events) := by
  induction events generalizing tables n with
  | nil => exact ⟨h, hrec⟩
  | cons event events ih =>
    have hstep := creditAfter_step h hkeys hkey hevs.1 hrec
    have hrest := ih (h.step hkeys hevs.1.1) hevs.2 hstep
    rw [Nat.add_assoc, ← matchCount_cons] at hrest
    exact hrest

section

variable (h : SubsOk P keys tables) (hkeys : NoCollision P keys)
include h hkeys

lemma creditAfter_subscribed
    (ha : Supposed P False keys tables.pit a) (hrch : Reaches P tables a (some ps))
    (hnew : ∀ entry, tables.pit.get (subToken P a.key) =
      some entry → isLoop a entry = false) (hk : 1 ≤ ps.dataCountRemaining) :
    SubsOk P keys (step P tables (.interest a)) ∧
      subRecord P a (step P tables (.interest a)) = creditAfter a ps 0 := by
  have hsup : Supposes P False keys tables (.interest a) := by
    rintro _ ⟨⟩
    exact ha
  have haft := h.step hkeys hsup
  refine ⟨haft, ?_⟩
  rw [creditAfter, if_pos (by omega), subRecord,
    recordOn_eq_some_iff fun e he => haft.onePerFace hkeys ha.key_mem he]
  refine ⟨?_, rfl⟩
  rcases checkProcess_entries (P := P) tables a with ⟨persistent, hrch', hes⟩ | ⟨hnone, -⟩
  · obtain rfl := hrch.unique hrch'
    have htok : tokenOf P a (some ps) = subToken P a.key := rfl
    rw [step, get_of_entries hes, get_set, htok, if_pos rfl, held_some_iff]
    unfold entered
    rw [htok]
    cases hget : tables.pit.get (subToken P a.key) with
    | none => exact mem_singleton.mpr rfl
    | some entry =>
      simp only [onExisting_some_inRecords (hnew entry hget)]
      exact mem_append_right _ (mem_singleton.mpr rfl)
  · exact absurd hrch (hnone _)

/-- A Data goes through the records of a subscription's entry that its one lookup charges. -/
lemma deliveredThrough_iff (hkey : key ∈ keys) (hname : d.name ≠ []) (hd : PrefixesIn keys d) :
    DeliveredThrough P tables.pit d (subToken P key) r ↔
      (key ≠ [] ∧ key <+: d.name) ∧ Held (tables.pit.get (subToken P key)) r ∧
        (spend (decide (key ≠ d.name)) true r).2 = true := by
  constructor
  · rintro ⟨cbpOnly, entry, hlk, hget, hr, hspen⟩
    have hpre := prefix_of_lookup hkeys hd hname hkey hlk rfl
    have hmem := mem_filter_lookups.mpr (mem_lookups_iff.mpr hlk)
    rw [filter_lookups_persistent hkeys hd hpre.2 hpre.1, mem_singleton] at hmem
    have hsome := (h.entryOk hkeys hkey hget).persistent_iff.mpr rfl
    rw [hsome, hmem] at hspen
    exact ⟨hpre, ⟨entry, hget, hr⟩, hspen⟩
  · rintro ⟨hpre, ⟨entry, hget, hr⟩, hspen⟩
    have hmem : decide (key ≠ d.name) ∈
        ((lookups P d.name).filter fun l => l.1 = subToken P key).map Prod.snd := by
      rw [filter_lookups_persistent hkeys hd hpre.2 hpre.1]
      exact mem_singleton.mpr rfl
    have hsome := (h.entryOk hkeys hkey hget).persistent_iff.mpr rfl
    refine ⟨_, entry, mem_lookups_iff.mp (mem_filter_lookups.mp hmem), hget, hr, ?_⟩
    rw [hsome]
    exact hspen

lemma DeliveredThrough.mem_outFaces (hkey : key ∈ keys) (hname : d.name ≠ [])
    (hd : PrefixesIn keys d) (hdlv : DeliveredThrough P tables.pit d (subToken P key) r) (now : ℕ) :
    r.faceId ∈ (process P tables d.name now).2.outFaces := by
  obtain ⟨hpre, ⟨entry, hget, hr⟩, hspen⟩ :=
    (deliveredThrough_iff h hkeys hkey hname hd).mp hdlv
  obtain ⟨cbpOnly, -, hlk, -⟩ := hdlv
  have hent := h.entryOk hkeys hkey hget
  rw [process_outFaces]
  refine consumeAll_collects collected_nil_ok hget hent hr ?_
      ⟨cbpOnly, mem_lookups_iff.mpr hlk⟩
    fun hmem => ?_
  · intro ps hps
    by_contra hzero
    simp [spend, hps, hzero] at hspen
  have hmem' := mem_filter_lookups.mpr hmem
  rw [filter_lookups_persistent hkeys hd hpre.2 hpre.1, mem_singleton] at hmem'
  rw [← hmem'] at hspen
  by_contra hcbp
  rw [Bool.not_eq_true] at hcbp
  simp [spend, hcbp] at hspen

/-- **One Data for the subscription.** It goes through its record, and to its face, iff there is
credit left. -/
lemma matching_data_spec (hkey : a.key ∈ keys)
    (hevt : Undisturbed P keys a.key a.faceId tables (.data d now))
    (hrec : subRecord P a tables = creditAfter a ps n)
    (hmat : Matching a.key a.interest.selectors.canBePrefix d) :
    ((∃ r, DeliveredThrough P tables.pit d (subToken P a.key) r ∧
      r.faceId = a.faceId) ↔ n < ps.dataCountRemaining) ∧
    (n < ps.dataCountRemaining → a.faceId ∈ (process P tables d.name now).2.outFaces) ∧
    subRecord P a (step P tables (.data d now)) = creditAfter a ps (n + 1) := by
  obtain ⟨hname, hd, -⟩ := hevt.2.1
  have hiff := fun r => deliveredThrough_iff h hkeys hkey hname hd (r := r)
  have hheld : ∀ r, subRecord P a tables = some r ↔
      Held (tables.pit.get (subToken P a.key)) r ∧ r.faceId = a.faceId :=
    fun r => recordOn_eq_some_iff fun e he => h.onePerFace hkeys hkey he
  have hdelivers : n < ps.dataCountRemaining → ∃ r, DeliveredThrough P tables.pit d
      (subToken P a.key) r ∧ r.faceId = a.faceId := by
    intro hlt
    rw [creditAfter, if_pos hlt, hheld] at hrec
    refine ⟨_, (hiff _).mpr ⟨⟨hmat.1, hmat.2.1⟩, hrec.1, ?_⟩, rfl⟩
    exact (spend_snd_iff rfl (Nat.sub_pos_of_lt hlt) hmat.1 hmat.2.1).mpr hmat
  refine ⟨⟨?_, hdelivers⟩, fun hlt => ?_, ?_⟩
  · rintro ⟨r, hdlv, hface⟩
    have hsome := (hheld r).mpr ⟨((hiff r).mp hdlv).2.1, hface⟩
    rw [hrec, creditAfter] at hsome
    by_contra hge
    rw [if_neg hge] at hsome
    cases hsome
  · obtain ⟨r, hdlv, hface⟩ := hdelivers hlt
    rw [← hface]
    exact hdlv.mem_outFaces h hkeys hkey hname hd now
  · have haft := creditAfter_step h hkeys hkey hevt hrec
    have hone : matchCount a.key a.interest.selectors.canBePrefix [.data d now] = 1 := by
      simp [matchCount, hmat]
    rw [hone] at haft
    exact haft

/-- What an event does to a record: nothing, unless it is a delivery through it, a subscription of
its face to the same key, or the removal of its face. -/
lemma held_step_cases (hkey : key ∈ keys) (hevt : Supposes P False keys tables event)
    (hspr : Spares P keys key tables event) (hr : Held (tables.pit.get (subToken P key)) r) :
    recordOn r.faceId ((step P tables event).pit.get (subToken P key)) =
        some r ∨
      (∃ d now, event = .data d now ∧
        DeliveredThrough P tables.pit d (subToken P key) r ∧
        r.faceId ∈ (process P tables d.name now).2.outFaces ∧
        recordOn r.faceId ((step P tables event).pit.get (subToken P key)) = charged r) ∨
      (∃ b, event = .interest b ∧ Resubscribes P key r.faceId tables b) ∨
      ∃ now, event = .faceRemoved r.faceId now := by
  have hrec : recordOn r.faceId (tables.pit.get (subToken P key)) = some r :=
    (recordOn_eq_some_iff fun e he => h.onePerFace hkeys hkey he).mpr ⟨hr, rfl⟩
  by_cases hdata : ∃ d now, event = .data d now
  · obtain ⟨d, now, rfl⟩ := hdata
    have haft := recordOn_data r.faceId h hkeys hkey hspr
    rw [hrec, bind_some] at haft
    obtain ⟨entry, hget, hmem⟩ := hr
    obtain ⟨ps, hps⟩ := isSome_iff_exists.mp
      (((h.entryOk hkeys hkey hget).record_persistent_iff r hmem).mpr rfl)
    rw [afterRecord_eq hps] at haft
    split_ifs at haft with hpre hspen
    · have hdlv := (deliveredThrough_iff h hkeys hkey hspr.1 hspr.2.1).mpr
        ⟨hpre, ⟨entry, hget, hmem⟩, hspen⟩
      exact .inr (.inl ⟨d, now, rfl, hdlv,
        hdlv.mem_outFaces h hkeys hkey hspr.1 hspr.2.1 now, haft⟩)
    · exact .inl haft
    · exact .inl haft
  · by_cases hintr : ∃ b, event = .interest b ∧ Resubscribes P key r.faceId tables b
    · exact .inr (.inr (.inl hintr))
    · by_cases hrm : ∃ now, event = .faceRemoved r.faceId now
      · exact .inr (.inr (.inr hrm))
      · refine .inl ((recordOn_step h hkeys hkey hevt hspr ?_ ?_ ?_).trans hrec)
        · exact fun d now heq => hdata ⟨d, now, heq⟩
        · exact fun a heq hagain => hintr ⟨a, heq, hagain⟩
        · exact fun now heq => hrm ⟨now, heq⟩

end

/-- **An undisturbed subscription gets as many Data as its budget.** Let a face subscribe with a
budget of `k`, and let no later event replace its record, remove its face, or take the entry away.
Then of the Data for the subscription exactly the first `k` go through its record and to its face,
the record goes with the `k`-th, and the records in the entry change only by deliveries through
them, by a subscription of their own face to the same key, or with their face. -/
theorem subscription_credit_exact {dnl : Option DeadNonceList} (hkeys : NoCollision P keys)
    (hreach : Run.Reach (step P) (Supposes P False keys) (.empty dnl) tables) {a : Arrival}
    {ps : PersistentState} (ha : Supposed P False keys tables.pit a)
    (hreaches : Reaches P tables a (some ps))
    (hnew : ∀ entry, tables.pit.get (subToken P a.key) = some entry → isLoop a entry = false)
    (hk : 1 ≤ ps.dataCountRemaining) {events : List Event}
    (hevents : Run.Admits (step P) (Undisturbed P keys a.key a.faceId)
      (step P tables (.interest a)) events) :
    (∀ done d now, done ++ [.data d now] <+: events →
      Matching a.key a.interest.selectors.canBePrefix d →
      ∀ s, s = done.foldl (step P) (step P tables (.interest a)) →
      ∀ n, n = matchCount a.key a.interest.selectors.canBePrefix done →
        ((∃ r, DeliveredThrough P s.pit d (subToken P a.key) r ∧
          r.faceId = a.faceId) ↔ n < ps.dataCountRemaining) ∧
        (n < ps.dataCountRemaining → a.faceId ∈ (PitMatchStage.process P s d.name now).2.outFaces) ∧
        recordOn a.faceId ((step P s (.data d now)).pit.get
          (subToken P a.key)) = creditAfter a ps (n + 1)) ∧
    (∀ done event, done ++ [event] <+: events →
      ∀ s, s = done.foldl (step P) (step P tables (.interest a)) →
      ∀ r, Held (s.pit.get (subToken P a.key)) r →
        recordOn r.faceId ((step P s event).pit.get (subToken P a.key)) = some r ∨
          (∃ d now, event = .data d now ∧
            DeliveredThrough P s.pit d (subToken P a.key) r ∧
            r.faceId ∈ (PitMatchStage.process P s d.name now).2.outFaces ∧
            recordOn r.faceId ((step P s event).pit.get (subToken P a.key)) = charged r) ∨
          (∃ b, event = .interest b ∧ Resubscribes P a.key r.faceId s b) ∨
          ∃ now, event = .faceRemoved r.faceId now) := by
  have hok := SubsOk.of_reach hkeys hreach
  obtain ⟨hok', hsta⟩ := creditAfter_subscribed hok hkeys ha hreaches hnew hk
  have hspl : ∀ done event, done ++ [event] <+: events →
      (SubsOk P keys (done.foldl (step P) (step P tables (.interest a))) ∧
        subRecord P a (done.foldl (step P) (step P tables (.interest a))) =
          creditAfter a ps (matchCount a.key a.interest.selectors.canBePrefix done)) ∧
      Undisturbed P keys a.key a.faceId
        (done.foldl (step P) (step P tables (.interest a))) event := by
    rintro done event ⟨rest, rfl⟩
    obtain ⟨hadm, -⟩ := Run.admits_append.mp hevents
    obtain ⟨hbef, hevt, -⟩ := Run.admits_append.mp hadm
    have hrun := creditAfter_run hkeys ha.key_mem hok' hbef hsta
    rw [Nat.zero_add] at hrun
    exact ⟨hrun, hevt⟩
  refine ⟨?_, ?_⟩
  · rintro done d now hdone hmat s rfl n rfl
    obtain ⟨⟨hs, hrec⟩, hevt⟩ := hspl done _ hdone
    exact matching_data_spec hs hkeys ha.key_mem hevt hrec hmat
  · rintro done event hdone s rfl r hr
    obtain ⟨⟨hs, -⟩, hevt⟩ := hspl done event hdone
    exact held_step_cases hs hkeys ha.key_mem hevt.1 hevt.2.1 hr

end Steps

section
open Sample

lemma Sample.prefixesIn_nameA : PrefixesIn {nameA, nameAB} (data nameA) := by
  have hinit : ∀ p ∈ (data nameA).name.inits, p ≠ [] → p = nameA ∨ p = nameAB := by
    decide
  exact prefixesIn_of_inits hinit

lemma Sample.undisturbed_nameA (tables : Tables) (faceId now : ℕ) :
    Undisturbed platform {nameA, nameAB} nameA faceId tables (.data (data nameA) now) := by
  have hname : (data nameA).name = nameA := by
    decide
  refine ⟨fun a h => ?_, ⟨?_, prefixesIn_nameA, fun _ _ _ _ hne => absurd hname.symm hne⟩,
    fun a h => ?_, fun now' h => ?_⟩
  · cases h
  · rw [hname]
    exact cons_ne_nil _ _
  · cases h
  · cases h

/-- Face 1 subscribes to `/a` for two Data. -/
def Sample.forTwo : Arrival := subscribe 2 60 1 7 0

/-- Face 2 subscribes to `/a` for five Data. -/
def Sample.forFive : Arrival := subscribe 5 60 2 8 0

def Sample.twoAndFive : List Event :=
  [.interest forFive, .interest forTwo]

/-- `subscription_credit_exact` for face 1, which subscribes to `/a` for two Data beside face 2: the
first two go to it and its record goes with the second. The record of face 2 is charged for what
goes to face 2. -/
theorem subscription_credit_beside :
    1 ∈ (PitMatchStage.process platform (run twoAndFive) (data nameA).name 1).2.outFaces ∧
    1 ∈ (PitMatchStage.process platform (run (twoAndFive ++ [.data (data nameA) 1]))
      (data nameA).name 2).2.outFaces ∧
    recordOn 1 ((run (twoAndFive ++ [.data (data nameA) 1, .data (data nameA) 2])).pit.get
      (subToken platform nameA)) = none ∧
    2 ∈ (PitMatchStage.process platform (run twoAndFive) (data nameA).name 1).2.outFaces ∧
    recordOn 2 ((run (twoAndFive ++ [.data (data nameA) 1])).pit.get (subToken platform nameA)) =
        charged (recordOf forFive (some ⟨5, 60000000000, none⟩)) := by
  have hkeyName : forTwo.key = nameA := by
    decide
  have hreach : Run.Reach (step platform) (Supposes platform False {nameA, nameAB}) start
      (step platform start (.interest forFive)) :=
    Run.Reach.refl.snoc _ (supposes_interest
      ⟨⟨forFive.interest.raw, by decide⟩, .inl (by decide), False.elim⟩)
  have hrch : Reaches platform (step platform start (.interest forFive))
      forTwo (some ⟨2, 60000000000, none⟩) := by
    refine ⟨by decide, by decide, fun dnl hdnl => ?_⟩
    cases hdnl
    decide
  have hloop : ∀ entry, (step platform start (.interest forFive)).pit.get
      (subToken platform forTwo.key) = some entry → isLoop forTwo entry = false := by
    intro entry hget
    cases hget.symm.trans (by decide : _ = some (onNew forFive (some ⟨5, 60000000000, none⟩)))
    decide
  have hmat : Matching forTwo.key forTwo.interest.selectors.canBePrefix (data nameA) := by
    decide
  have hcnt : matchCount forTwo.key forTwo.interest.selectors.canBePrefix
      [.data (data nameA) 1] = 1 := by
    decide
  have hevs : Run.Admits (step platform) (Undisturbed platform {nameA, nameAB} forTwo.key 1)
      (run twoAndFive) [.data (data nameA) 1, .data (data nameA) 2] := by
    rw [hkeyName]
    exact ⟨undisturbed_nameA _ 1 1, undisturbed_nameA _ 1 2, trivial⟩
  obtain ⟨hdata, hrest⟩ := subscription_credit_exact noCollision_nameAB hreach
    ⟨⟨forTwo.interest.raw, by decide⟩, .inl hkeyName, False.elim⟩ hrch hloop (by decide) hevs
  obtain ⟨-, hfst, -⟩ := hdata [] (data nameA) 1 (by simp) hmat _ rfl 0 rfl
  obtain ⟨-, hsnd, hgone⟩ := hdata [.data (data nameA) 1] (data nameA) 2 (by simp) hmat _ rfl 1
    hcnt.symm
  have hheld : Held ((run twoAndFive).pit.get (subToken platform forTwo.key))
      (recordOf forFive (some ⟨5, 60000000000, none⟩)) :=
    ⟨(onExisting forTwo (some ⟨2, 60000000000, none⟩)
      (onNew forFive (some ⟨5, 60000000000, none⟩))).1, by decide, by decide⟩
  rw [hkeyName] at hgone hrest hheld
  rcases hrest [] (.data (data nameA) 1) (by simp) _ rfl _ hheld with
    hsame | ⟨d, now, heq, -, hout, hcharged⟩ | ⟨b, heq, -⟩ | ⟨now, heq⟩
  · exact absurd hsame (by decide)
  · cases heq
    exact ⟨hfst (by decide), hsnd (by decide), hgone, hout, hcharged⟩
  · cases heq
  · cases heq

/-- **A budget lost to a longer name.** Face 1 subscribes to `/a` for one Data, without CanBePrefix.
A Data for `/a/b`, which is not for the subscription, removes the record, and the Data for `/a` that
follows goes to no face. -/
theorem budget_lost_to_longer_name :
    let subscribed := run [.interest (subscribe 1 60 1 7 0)]
    let later := run [.interest (subscribe 1 60 1 7 0), .data (data nameAB) 1]
    recordOn 1 (subscribed.pit.get (subToken platform nameA)) =
      some (recordOf (subscribe 1 60 1 7 0) (some ⟨1, 60000000000, none⟩)) ∧
    ¬ Matching nameA false (data nameAB) ∧ Matching nameA false (data nameA) ∧
    later.pit.get (subToken platform nameA) = none ∧
    (PitMatchStage.process platform subscribed (data nameAB).name 1).2.outFaces = [] ∧
    (PitMatchStage.process platform later (data nameA).name 2).2.outFaces = [] := by
  all_goals decide

end

end NdnRs.Pit
