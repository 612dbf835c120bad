import NdnRs.Lib.Assoc
import NdnRs.Packet.Signature

/-!
# The replay guard (`ndn-security/src/replay_guard.rs`)

The guard remembers, for each signer key, the anti-replay fields of the latest accepted signed
Interests, and the greatest time and sequence number. Beyond `max_keys` keys it forgets those that
were not seen for longest.

## Implementation notes

The access counter does not wrap. Checks run one at a time.

## Main results

* `window` — which checks are answered as replays.
* `answersFor_filter` — when keys do not interfere.
-/

namespace NdnRs

open List Assoc

def keyFingerprint : Option KeyLocator → Bytes
  | none => []
  | some (.name n) =>
    n.flatMap fun c => Bytes.beBytes 8 c.typ.toNat ++ 0xff :: c.value ++ [0xff]
  | some (.keyDigest b) => b

/-- The fingerprint of the signer. -/
abbrev SignatureInfo.fp (si : SignatureInfo) : Bytes := keyFingerprint si.keyLocator

structure NonceRecord where
  sigNonce : Option Bytes
  sigTime : Option ℕ
  sigSeqNum : Option ℕ
  deriving DecidableEq

namespace NonceRecord

def fromSigInfo (si : SignatureInfo) : Option NonceRecord :=
  if si.sigNonce.isNone ∧ si.sigTime.isNone ∧ si.sigSeqNum.isNone then none
  else some ⟨si.sigNonce, si.sigTime, si.sigSeqNum⟩

/-- Whether a field that both have agrees. -/
def compareField {α : Type} [DecidableEq α] : Option α → Option α → Option Bool
  | some a, some b => some (a = b)
  | _, _ => none

/-- `NonceRecord::matches`: some field is in both, and none of those differs. -/
def matchesInfo (self : NonceRecord) (si : SignatureInfo) : Bool :=
  let fields := [compareField self.sigNonce si.sigNonce, compareField self.sigTime si.sigTime,
    compareField self.sigSeqNum si.sigSeqNum]
  fields.all (· ≠ some false) && fields.any Option.isSome

lemma matchesInfo_of_fromSigInfo {si : SignatureInfo} {record : NonceRecord}
    (h : fromSigInfo si = some record) : record.matchesInfo si = true := by
  rw [fromSigInfo] at h
  split_ifs at h with hnone
  obtain rfl := Option.some.inj h
  cases hn : si.sigNonce <;> cases ht : si.sigTime <;> cases hs : si.sigSeqNum <;>
    simp_all [matchesInfo, compareField]

end NonceRecord

/-- What `KeyState` remembers of a key, beside when it was seen. -/
structure KeyHistory where
  records : List NonceRecord
  maxSeq : Option ℕ
  maxTime : Option ℕ

structure KeyState where
  history : KeyHistory
  lastSeen : ℕ

inductive ReplayCheck where
  | fresh
  | replay
  | noAntiReplayFields
  deriving DecidableEq

/-- A field at or below its monotonic floor. -/
def atOrBelow (now floor : Option ℕ) : Bool := now.any fun n => floor.any (n ≤ ·)

/-- The floor once a field has been accepted. -/
def raiseFloor (floor : Option ℕ) : Option ℕ → Option ℕ
  | none => floor
  | some t => some (floor.elim t (max · t))

/-- The history with one more accepted Interest, and without the oldest record if it is full. -/
def KeyHistory.accept (self : KeyHistory) (capacity : ℕ) (record : NonceRecord) : KeyHistory where
  records := self.records.drop (if capacity ≤ self.records.length then 1 else 0) ++ [record]
  maxTime := raiseFloor self.maxTime record.sigTime
  maxSeq := raiseFloor self.maxSeq record.sigSeqNum

def KeyHistory.check (self : KeyHistory) (monotonic : Bool) (capacity : ℕ) (si : SignatureInfo)
    (record : NonceRecord) : ReplayCheck × KeyHistory :=
  if monotonic ∧ (atOrBelow si.sigSeqNum self.maxSeq ∨ atOrBelow si.sigTime self.maxTime) then
    (.replay, self)
  else if self.records.any (·.matchesInfo si) then (.replay, self)
  else (.fresh, self.accept capacity record)

structure ReplayGuard where
  keys : List (Bytes × KeyState)
  perKeyCapacity : ℕ
  maxKeys : ℕ
  tick : ℕ
  monotonic : Bool

namespace ReplayGuard

def withCapacities (perKeyCapacity maxKeys : ℕ) (monotonic : Bool) : ReplayGuard :=
  ⟨[], max perKeyCapacity 1, max maxKeys 1, 0, monotonic⟩

variable (self : ReplayGuard) (si : SignatureInfo)

/-- The keys that an eviction leaves. -/
def target : ℕ := self.maxKeys - self.maxKeys / 10

def byAge : List (Bytes × KeyState) :=
  self.keys.mergeSort fun a b => a.2.lastSeen ≤ b.2.lastSeen

def enforceKeyCap : ReplayGuard :=
  if self.keys.length ≤ self.maxKeys then self
  else
    { self with keys := self.keys.filter fun e =>
        e.1 ∉ (self.byAge.take (self.keys.length - self.target)).map Prod.fst }

/-- The history of a key, which begins empty. -/
def history (fp : Bytes) : KeyHistory :=
  ((self.keys.lookup fp).map (·.history)).getD ⟨[], none, none⟩

def verdict (record : NonceRecord) : ReplayCheck × KeyHistory :=
  (self.history si.fp).check self.monotonic self.perKeyCapacity si record

/-- A key seen now, with its new history. -/
def see (fp : Bytes) (history : KeyHistory) : ReplayGuard :=
  { self with
    keys := Assoc.insert fp ⟨history, self.tick⟩ self.keys
    tick := self.tick + 1 }

def check : ReplayCheck × ReplayGuard :=
  match NonceRecord.fromSigInfo si with
  | none => (.noAntiReplayFields, self)
  | some record =>
    let (result, history) := self.verdict si record
    (result, (self.see si.fp history).enforceKeyCap)

/-! ## The guard over a run -/

def after (checks : List SignatureInfo) : ReplayGuard :=
  checks.foldl (fun g si => (g.check si).2) self

structure Ok (g : ReplayGuard) : Prop where
  nodup : Keyed g.keys
  ticks : (g.keys.map (·.2.lastSeen)).Nodup
  past : ∀ e ∈ g.keys, e.2.lastSeen < g.tick
  keyCount : g.keys.length ≤ g.maxKeys

variable {self : ReplayGuard} {fp : Bytes} {e : Bytes × KeyState}

lemma nodup_see (h : self.Ok) (hist : KeyHistory) :
    Keyed (self.see fp hist).keys := nodup_keys_insert _ _ h.nodup

lemma ticks_see (h : self.Ok) (hist : KeyHistory) :
    ((self.see fp hist).keys.map (·.2.lastSeen)).Nodup := by
  have hperm := (insert_perm fp ⟨hist, self.tick⟩ h.nodup).map (·.2.lastSeen)
  rw [see, hperm.nodup_iff, map_cons, nodup_cons]
  refine ⟨fun hmem => ?_, h.ticks.sublist (filter_sublist.map _)⟩
  obtain ⟨e, he, htick⟩ := mem_map.1 hmem
  exact absurd htick (h.past e (mem_erase_iff.1 he).1).ne

lemma mem_see (h : self.Ok) {hist : KeyHistory} :
    e ∈ (self.see fp hist).keys ↔ e = (fp, ⟨hist, self.tick⟩) ∨ (e ∈ self.keys ∧ e.1 ≠ fp) := by
  rw [see, (insert_perm fp _ h.nodup).mem_iff, mem_cons, mem_erase_iff]

lemma enforceKeyCap_of_le (h : self.keys.length ≤ self.maxKeys) : self.enforceKeyCap = self :=
  if_pos h

/-- What an eviction leaves are the keys seen last. -/
lemma enforceKeyCap_perm (h : Keyed self.keys) (hover : self.maxKeys < self.keys.length) :
    self.enforceKeyCap.keys.Perm (self.byAge.drop (self.keys.length - self.target)) := by
  rw [enforceKeyCap, if_neg (by omega)]
  exact filter_not_mem_take_perm (mergeSort_perm _ _) h _

lemma length_enforceKeyCap (h : Keyed self.keys) :
    self.enforceKeyCap.keys.length ≤ self.maxKeys := by
  by_cases hover : self.maxKeys < self.keys.length
  · rw [(enforceKeyCap_perm h hover).length_eq, length_drop, byAge, length_mergeSort]
    have htgt : self.target ≤ self.maxKeys := Nat.sub_le _ _
    omega
  · rw [enforceKeyCap_of_le (by omega)]
    omega

lemma enforceKeyCap_sublist : self.enforceKeyCap.keys.Sublist self.keys := by
  unfold enforceKeyCap
  split
  · exact .refl _
  · exact filter_sublist

@[simp] lemma enforceKeyCap_frame : self.enforceKeyCap.perKeyCapacity = self.perKeyCapacity ∧
    self.enforceKeyCap.maxKeys = self.maxKeys ∧ self.enforceKeyCap.tick = self.tick ∧
    self.enforceKeyCap.monotonic = self.monotonic := by
  unfold enforceKeyCap
  split <;> simp

/-- **A key that is kept.** Fewer keys than an eviction leaves were seen after it. -/
lemma mem_enforceKeyCap {others : Finset Bytes}
    (hnodup : Keyed self.keys) (htic : (self.keys.map (·.2.lastSeen)).Nodup)
    (he : e ∈ self.keys) (hnew : ∀ e' ∈ self.keys, e.2.lastSeen < e'.2.lastSeen → e'.1 ∈ others)
    (hoth : others.card < self.target) : e ∈ self.enforceKeyCap.keys := by
  by_cases hover : self.maxKeys < self.keys.length
  swap
  · rwa [enforceKeyCap_of_le (by omega)]
  have htgt : self.target ≤ self.maxKeys := Nat.sub_le _ _
  have hperm : self.byAge.Perm self.keys := mergeSort_perm _ _
  have hsrt : self.byAge.Pairwise fun a b => a.2.lastSeen ≤ b.2.lastSeen := by
    refine (pairwise_mergeSort ?_ ?_ self.keys : self.byAge.Pairwise _).imp (by simp)
    · intro a b c
      simpa using le_trans
    · intro a b
      simpa using le_total _ _
  rw [(enforceKeyCap_perm hnodup hover).mem_iff]
  generalize hn : self.keys.length - self.target = n
  rw [← take_append_drop n self.byAge] at hsrt hperm
  by_contra hdrop
  -- otherwise all that are left are newer than it
  have htake := (mem_append.1 (hperm.mem_iff.2 he)).resolve_right hdrop
  have hsub : (self.byAge.drop n).map Prod.fst ⊆ others.toList := by
    intro k hk
    obtain ⟨e', he', rfl⟩ := mem_map.1 hk
    have hmem := hperm.mem_iff.1 (mem_append_right _ he')
    rw [Finset.mem_toList]
    refine hnew e' hmem (lt_of_le_of_ne ((pairwise_append.1 hsrt).2.2 e htake e' he') ?_)
    intro htick
    exact hdrop (inj_on_of_nodup_map htic he hmem htick ▸ he')
  have hnd := ((hperm.map Prod.fst).nodup_iff.2 hnodup).sublist ((sublist_append_right _ _).map _)
  have hlen := (subperm_of_subset hnd hsub).length_le
  rw [length_map, length_drop, byAge, length_mergeSort, Finset.length_toList] at hlen
  omega

lemma check_eq {si : SignatureInfo} {record : NonceRecord}
    (h : NonceRecord.fromSigInfo si = some record) :
    (self.check si).1 = (self.verdict si record).1 ∧
      (self.check si).2 = (self.see si.fp (self.verdict si record).2).enforceKeyCap := by
  simp [check, h]

lemma check_of_none {si : SignatureInfo} (h : NonceRecord.fromSigInfo si = none) :
    self.check si = (.noAntiReplayFields, self) := by
  simp [check, h]

lemma Ok.see (h : self.Ok) (hist : KeyHistory) : (self.see fp hist).enforceKeyCap.Ok where
  nodup := (nodup_see h hist).sublist (enforceKeyCap_sublist.map _)
  ticks := (ticks_see h hist).sublist (enforceKeyCap_sublist.map _)
  past e he := by
    simp only [enforceKeyCap_frame]
    rcases (mem_see h).1 (enforceKeyCap_sublist.subset he) with rfl | ⟨he, -⟩
    · exact Nat.lt_succ_self _
    · exact (h.past e he).trans (Nat.lt_succ_self _)
  keyCount := by
    simp only [enforceKeyCap_frame]
    exact length_enforceKeyCap (nodup_see h hist)

lemma Ok.check (h : self.Ok) (si : SignatureInfo) : (self.check si).2.Ok := by
  cases hrec : NonceRecord.fromSigInfo si with
  | none => rwa [check_of_none hrec]
  | some record =>
    rw [(check_eq hrec).2]
    exact h.see _

lemma check_frame :
    (self.check si).2.perKeyCapacity = self.perKeyCapacity ∧
      (self.check si).2.maxKeys = self.maxKeys ∧ (self.check si).2.monotonic = self.monotonic := by
  cases hrec : NonceRecord.fromSigInfo si with
  | none => simp [check_of_none hrec]
  | some record => simp [check_eq hrec, see]

/-! ## How long an Interest is remembered -/

end ReplayGuard

/-- The same fields are a replay, also after so many more accepted ones. -/
def KeyHistory.Remembers (self : KeyHistory) (monotonic : Bool) (capacity : ℕ) (si : SignatureInfo)
    (record : NonceRecord) (more : ℕ) : Prop :=
  (monotonic = true ∧
      (atOrBelow si.sigSeqNum self.maxSeq = true ∨ atOrBelow si.sigTime self.maxTime = true)) ∨
    ∃ pre post, self.records = pre ++ record :: post ∧ post.length + more < capacity

namespace KeyHistory

/-- What a check makes of the history of its key. -/
def judge (self : KeyHistory) (monotonic : Bool) (capacity : ℕ) (si : SignatureInfo) :
    ReplayCheck × KeyHistory :=
  match NonceRecord.fromSigInfo si with
  | none => (.noAntiReplayFields, self)
  | some record => self.check monotonic capacity si record

variable {self : KeyHistory} {monotonic : Bool} {capacity more : ℕ} {si si' : SignatureInfo}
  {record record' : NonceRecord}

lemma atOrBelow_raiseFloor {now floor t : Option ℕ} (h : atOrBelow now floor = true) :
    atOrBelow now (raiseFloor floor t) = true := by
  cases now <;> cases floor <;> cases t <;> simp_all [atOrBelow, raiseFloor]

lemma atOrBelow_self {t floor : Option ℕ} (h : t.isSome) :
    atOrBelow t (raiseFloor floor t) = true := by
  cases t <;> cases floor <;> simp_all [atOrBelow, raiseFloor]

lemma check_eq_or : self.check monotonic capacity si record = (.replay, self) ∨
    self.check monotonic capacity si record = (.fresh, self.accept capacity record) := by
  unfold check
  split_ifs <;> simp

lemma Remembers.replay (hrec : NonceRecord.fromSigInfo si = some record)
    (h : self.Remembers monotonic capacity si record more) :
    (self.check monotonic capacity si record).1 = .replay := by
  unfold check
  split_ifs with hflr hrecord
  · rfl
  · rfl
  · rcases h with hmono | ⟨pre, post, heq, -⟩
    · exact absurd hmono hflr
    · refine absurd (any_eq_true.2 ⟨record, ?_, ?_⟩) hrecord
      · simp [heq]
      · exact NonceRecord.matchesInfo_of_fromSigInfo hrec

/-- An accepted Interest pushes out the oldest record only. -/
lemma Remembers.check (h : self.Remembers monotonic capacity si record
      (more + if (self.check monotonic capacity si' record').1 = .fresh then 1 else 0)) :
    (self.check monotonic capacity si' record').2.Remembers monotonic capacity si record more := by
  rcases check_eq_or with hchk | hchk <;> rw [hchk] at h ⊢
  · exact h
  rcases h with ⟨hmono, hseq | htime⟩ | ⟨pre, post, heq, hlen⟩
  · exact .inl ⟨hmono, .inl (atOrBelow_raiseFloor hseq)⟩
  · exact .inl ⟨hmono, .inr (atOrBelow_raiseFloor htime)⟩
  simp only [if_true] at hlen
  refine .inr ⟨pre.drop (if capacity ≤ self.records.length then 1 else 0), post ++ [record'], ?_,
    by simp only [length_append, length_singleton]; omega⟩
  simp only [accept, heq]
  rw [drop_append_of_le_length, append_assoc, cons_append]
  split_ifs with hfull
  · simp only [length_append, length_cons] at hfull
    omega
  · exact Nat.zero_le _

lemma remembers_of_fresh (hrec : NonceRecord.fromSigInfo si = some record)
    (h : (self.check monotonic capacity si record).1 = .fresh)
    (hmore : (monotonic = true ∧ (si.sigTime.isSome ∨ si.sigSeqNum.isSome)) ∨ more < capacity) :
    (self.check monotonic capacity si record).2.Remembers monotonic capacity si record more := by
  have hflds : record.sigTime = si.sigTime ∧ record.sigSeqNum = si.sigSeqNum := by
    rw [NonceRecord.fromSigInfo] at hrec
    split_ifs at hrec
    obtain rfl := Option.some.inj hrec
    exact ⟨rfl, rfl⟩
  rcases check_eq_or with hchk | hchk <;> rw [hchk] at h ⊢
  · cases h
  rcases hmore with ⟨hmono, htime | hseq⟩ | hmore
  · exact .inl ⟨hmono, .inr (by simpa [accept, hflds] using atOrBelow_self htime)⟩
  · exact .inl ⟨hmono, .inl (by simpa [accept, hflds] using atOrBelow_self hseq)⟩
  · exact .inr ⟨_, [], rfl, by simpa using hmore⟩

end KeyHistory

namespace ReplayGuard

variable {self : ReplayGuard} {si si' : SignatureInfo} {record : NonceRecord} {more : ℕ}
  {others : Finset Bytes} {total : Finset Bytes}

/-- How many of some checks are answered `Fresh` for a fingerprint. -/
def freshSince (fp : Bytes) : ReplayGuard → List SignatureInfo → ℕ
  | _, [] => 0
  | g, si :: rest => freshSince fp (g.check si).2 rest +
    if si.fp = fp ∧ (g.check si).1 = .fresh then 1 else 0

/-- The guard remembers an Interest and its key, and only some others were seen after the key. -/
def Holds (g : ReplayGuard) (si : SignatureInfo) (record : NonceRecord) (others : Finset Bytes)
    (more : ℕ) : Prop :=
  ∃ state, (si.fp, state) ∈ g.keys ∧
    (∀ e ∈ g.keys, state.lastSeen < e.2.lastSeen → e.1 ∈ others) ∧
    state.history.Remembers g.monotonic g.perKeyCapacity si record more

lemma verdict_of_mem (h : self.Ok) {state : KeyState} (hmem : (si.fp, state) ∈ self.keys) :
    self.verdict si record = state.history.check self.monotonic self.perKeyCapacity si record := by
  rw [verdict, history, (lookup_eq_some_iff h.nodup).2 hmem]
  rfl

lemma holds_see (h : self.Ok) (hoth : others.card < self.target) {hist : KeyHistory}
    (hhist : hist.Remembers self.monotonic self.perKeyCapacity si record more) :
    (self.see si.fp hist).enforceKeyCap.Holds si record others more := by
  have hnew : ∀ e ∈ (self.see si.fp hist).keys, self.tick < e.2.lastSeen → e.1 ∈ others := by
    intro e he hlt
    rcases (mem_see h).1 he with rfl | ⟨he, -⟩
    · exact absurd hlt (lt_irrefl _)
    · exact absurd (h.past e he) (by omega)
  exact ⟨⟨hist, self.tick⟩, mem_enforceKeyCap (nodup_see h hist) (ticks_see h hist)
    ((mem_see h).2 (.inl rfl)) hnew hoth,
    fun e he => hnew e (enforceKeyCap_sublist.subset he), by simpa [see] using hhist⟩

lemma Holds.check (h : self.Ok) (hoth : others.card < self.target)
    (hother : si'.fp ≠ si.fp → si'.fp ∈ others) (hhld : self.Holds si record others
      (more + if si'.fp = si.fp ∧ (self.check si').1 = .fresh then 1 else 0)) :
    (self.check si').2.Holds si record others more := by
  cases hrec : NonceRecord.fromSigInfo si' with
  | none => simpa [check_of_none hrec] using hhld
  | some record' =>
    rw [(check_eq hrec).1] at hhld
    rw [(check_eq hrec).2]
    obtain ⟨state, hmem, hnew, hrem⟩ := hhld
    by_cases hfp : si'.fp = si.fp
    · rw [verdict_of_mem h (hfp ▸ hmem)] at hrem ⊢
      simp only [hfp, true_and] at hrem
      rw [hfp]
      exact holds_see h hoth hrem.check
    · simp only [hfp, false_and, if_false, add_zero] at hrem
      have hnew' : ∀ e ∈ (self.see si'.fp (self.verdict si' record').2).keys,
          state.lastSeen < e.2.lastSeen → e.1 ∈ others := by
        intro e he hlt
        rcases (mem_see h).1 he with rfl | ⟨he, -⟩
        · exact hother hfp
        · exact hnew e he hlt
      exact ⟨state, mem_enforceKeyCap (nodup_see h _) (ticks_see h _)
        ((mem_see h).2 (.inr ⟨hmem, .symm hfp⟩)) hnew' hoth,
        fun e he => hnew' e (enforceKeyCap_sublist.subset he), by simpa [see] using hrem⟩

lemma Holds.after (since : List SignatureInfo) (h : self.Ok) (hoth : others.card < self.target)
    (hother : ∀ si' ∈ since, si'.fp ≠ si.fp → si'.fp ∈ others)
    (hhld : self.Holds si record others (freshSince si.fp self since)) :
    (self.after since).Ok ∧ (self.after since).Holds si record others 0 := by
  induction since generalizing self with
  | nil => exact ⟨h, hhld⟩
  | cons si' since ih =>
    refine ih (h.check si') ?_ (fun s hs => hother s (mem_cons_of_mem _ hs))
      (hhld.check h hoth (hother si' mem_cons_self))
    rwa [target, (self.check_frame si').2.1]

lemma ok_after (perKeyCapacity maxKeys : ℕ) (monotonic : Bool) (checks : List SignatureInfo) :
    ((withCapacities perKeyCapacity maxKeys monotonic).after checks).Ok :=
  foldlRecOn checks _ ⟨nodup_nil, nodup_nil, nofun, Nat.zero_le _⟩ fun _ h si _ => h.check si

/-- **The window of the guard.** After any checks there are at most `maxKeys` keys, and an Interest
that is answered `Fresh` then is a replay as long as few other fingerprints are checked and few of
its own are accepted; a monotonic guard needs no bound on the latter for one with a time or a
sequence number. -/
theorem window (perKeyCapacity maxKeys : ℕ) (monotonic : Bool) (before : List SignatureInfo) :
    let g := (withCapacities perKeyCapacity maxKeys monotonic).after before
    g.keys.length ≤ g.maxKeys ∧
      ∀ (si : SignatureInfo) (since : List SignatureInfo),
        (g.check si).1 = .fresh →
        ((since.map SignatureInfo.fp).toFinset.erase si.fp).card < g.target →
        (g.monotonic = true ∧ (si.sigTime.isSome ∨ si.sigSeqNum.isSome)) ∨
          freshSince si.fp (g.check si).2 since < g.perKeyCapacity →
        (((g.check si).2.after since).check si).1 = .replay := by
  intro g
  have hok : g.Ok := ok_after perKeyCapacity maxKeys monotonic before
  refine ⟨hok.keyCount, fun si since hfres hoth hmore => ?_⟩
  cases hrec : NonceRecord.fromSigInfo si with
  | none => simp [check_of_none hrec] at hfres
  | some record =>
    rw [(check_eq hrec).1] at hfres
    have hhld := holds_see hok hoth (KeyHistory.remembers_of_fresh hrec hfres hmore)
    rw [← verdict, ← (check_eq hrec).2] at hhld
    obtain ⟨haft, state, hmem, -, hrem⟩ := hhld.after since (hok.check si)
      (by rwa [target, (g.check_frame si).2.1]) fun si' hsi' hne => by
        rw [Finset.mem_erase, mem_toFinset]
        exact ⟨hne, mem_map_of_mem hsi'⟩
    rw [(check_eq hrec).1, verdict_of_mem haft hmem]
    exact hrem.replay hrec

namespace Sample

def signed (n : Name) : SignatureInfo := ⟨.signatureEd25519, some (.name n), some [1], none, none⟩

end Sample

open Sample in
/-- `window` for a signer that sends a nonce twice, with another signer in between. -/
theorem window_two_signers :
    ((((withCapacities 4 4 false).check (signed [])).2.after [signed [.generic []]]).check
      (signed [])).1 = .replay :=
  (window 4 4 false []).2 (signed []) [signed [.generic []]] (by decide) (by decide)
    (.inr (by decide))

/-! ## Isolation of signers -/

/-- The answers to the checks with a locator. -/
def answersFor (locator : Option KeyLocator) : ReplayGuard → List SignatureInfo → List ReplayCheck
  | _, [] => []
  | g, si :: rest => (if si.keyLocator = locator then [(g.check si).1] else []) ++
    answersFor locator (g.check si).2 rest

/-- The keys are among few enough that none is evicted. -/
structure Fits (total : Finset Bytes) (g : ReplayGuard) : Prop where
  nodup : Keyed g.keys
  mem : ∀ k ∈ g.keys.map Prod.fst, k ∈ total
  few : total.card ≤ g.maxKeys

lemma history_see (fp fp' : Bytes) (hist : KeyHistory) :
    (self.see fp hist).history fp' = if fp' = fp then hist else self.history fp' := by
  rw [history, see, lookup_insert]
  split_ifs <;> rfl

/-- **A check without eviction** depends on the history of its key, and changes no other. -/
lemma Fits.check (h : Fits total self) (hsi : si.fp ∈ total) :
    Fits total (self.check si).2 ∧
      (self.check si).1 = ((self.history si.fp).judge self.monotonic self.perKeyCapacity si).1 ∧
      ∀ fp, (self.check si).2.history fp = if fp = si.fp then
        ((self.history fp).judge self.monotonic self.perKeyCapacity si).2 else self.history fp := by
  cases hrec : NonceRecord.fromSigInfo si with
  | none => simpa [check_of_none hrec, KeyHistory.judge, hrec] using h
  | some record =>
    rw [(check_eq hrec).1, (check_eq hrec).2]
    simp only [KeyHistory.judge, hrec]
    have hnd := nodup_keys_insert si.fp (⟨(self.verdict si record).2, self.tick⟩ : KeyState) h.nodup
    have hmem : ∀ k ∈ (self.see si.fp (self.verdict si record).2).keys.map Prod.fst, k ∈ total := by
      intro k hk
      rcases (mem_keys_insert ..).1 hk with rfl | hk
      · exact hsi
      · exact h.mem k hk
    have hlen :=
      (subperm_of_subset hnd fun k hk => Finset.mem_toList.2 (hmem k hk)).length_le
    rw [Finset.length_toList, length_map] at hlen
    rw [enforceKeyCap_of_le (hlen.trans h.few)]
    refine ⟨⟨hnd, hmem, h.few⟩, rfl, fun fp => ?_⟩
    rw [history_see]
    split_ifs with hfp
    · rw [hfp, verdict]
    · rfl

/-- Two guards that know the same of the key of a locator give the same answers for it. -/
lemma answersFor_eq {locator : Option KeyLocator}
    (checks : List SignatureInfo) {g t : ReplayGuard} (hg : Fits total g) (ht : Fits total t)
    (hcfg : g.monotonic = t.monotonic ∧ g.perKeyCapacity = t.perKeyCapacity)
    (hhist : g.history (keyFingerprint locator) = t.history (keyFingerprint locator))
    (hmem : ∀ si ∈ checks, si.fp ∈ total)
    (hapar : ∀ si ∈ checks, si.keyLocator ≠ locator → si.fp ≠ keyFingerprint locator) :
    answersFor locator g checks =
      answersFor locator t (checks.filter (·.keyLocator = locator)) := by
  induction checks generalizing g t with
  | nil => rfl
  | cons si checks ih =>
    simp only [forall_mem_cons] at hmem hapar
    obtain ⟨hg', hgan, hghis⟩ := hg.check hmem.1
    have hgcfg := g.check_frame si
    by_cases hloc : si.keyLocator = locator
    · subst hloc
      obtain ⟨ht', htan, hthis⟩ := ht.check hmem.1
      have htcfg := t.check_frame si
      have hrest := ih hg' ht' (by rwa [hgcfg.1, hgcfg.2.2, htcfg.1, htcfg.2.2])
        (by rw [hghis, hthis, if_pos rfl, if_pos rfl, hhist, hcfg.1, hcfg.2]) hmem.2 hapar.2
      rw [filter_cons_of_pos (by simp), answersFor, answersFor, if_pos rfl, if_pos rfl,
        hgan, htan, hhist, hcfg.1, hcfg.2, hrest]
    · rw [filter_cons_of_neg (by simpa using hloc), answersFor, if_neg hloc, nil_append]
      refine ih hg' ht ?_ ?_ hmem.2 hapar.2
      · rw [hgcfg.1, hgcfg.2.2]
        exact hcfg
      · rw [hghis, if_neg (Ne.symm (hapar.1 hloc)), hhist]

/-- **Isolation.** Where fewer than `maxKeys` locators are checked and no other one has the
fingerprint of a locator, the answers for it are those of its own checks alone. -/
theorem answersFor_filter (locator : Option KeyLocator) (perKeyCapacity maxKeys : ℕ)
    (monotonic : Bool) (checks : List SignatureInfo)
    (hfew : (checks.map (·.keyLocator)).toFinset.card < maxKeys)
    (hapart : ∀ si ∈ checks, si.keyLocator ≠ locator → si.fp ≠ keyFingerprint locator) :
    answersFor locator (withCapacities perKeyCapacity maxKeys monotonic) checks =
      answersFor locator (withCapacities perKeyCapacity maxKeys monotonic)
        (checks.filter (·.keyLocator = locator)) := by
  have hfits : Fits ((checks.map (·.keyLocator)).toFinset.image keyFingerprint)
      (withCapacities perKeyCapacity maxKeys monotonic) :=
    ⟨nodup_nil, nofun, Finset.card_image_le.trans (hfew.le.trans (le_max_left _ _))⟩
  refine answersFor_eq checks hfits hfits ⟨rfl, rfl⟩ rfl (fun si hsi => ?_) hapart
  exact Finset.mem_image_of_mem _ (mem_toFinset.2 (mem_map_of_mem hsi))

namespace Sample

/-- One component whose value spells the end of one component and the beginning of another. -/
def oneComponent : Name := [.generic (0xff :: Bytes.beBytes 8 8 ++ [0xff])]

end Sample

open Sample in
/-- Two signers with different fingerprints. -/
theorem answersFor_filter_two :
    answersFor (some (.name [.generic []])) (withCapacities 4 4 true)
        [signed oneComponent, signed [.generic []]] =
      answersFor (some (.name [.generic []])) (withCapacities 4 4 true)
        ([signed oneComponent, signed [.generic []]].filter
          (·.keyLocator = some (.name [.generic []]))) :=
  answersFor_filter _ 4 4 true _ (by decide) (by decide)

open Sample in
/-- **A signer that shuts out another.** The name of one component and the name of two empty
components have one fingerprint: a nonce of the one is a replay for the other. -/
theorem fingerprint_shared :
    let first := signed oneComponent
    let second := signed [.generic [], .generic []]
    first.keyLocator ≠ second.keyLocator ∧
      answersFor second.keyLocator (withCapacities 4 4 false) [first, second] = [.replay] ∧
      answersFor second.keyLocator (withCapacities 4 4 false) [second] = [.fresh] := by
  decide

end ReplayGuard

end NdnRs
