import NdnRs.Forwarding.PitLoops

/-!
# The capacity of the Dead Nonce List (`ndn-store/src/dead_nonce_list.rs`)

When an insertion makes the list too long, the expired entries are dropped and then, if that is not
enough, the entries that expire first are evicted. Entries inserted at one time expire together, and
their order is not determined; the one just inserted may come first among them and be evicted.

## Main results

* `insert_spec_iff` — what is evicted, and when the new nonce stays.
-/

namespace NdnRs.Pit

open List Assoc

namespace DeadNonceList

/-! ## One insertion -/

def expiry (d : DeadNonceList) (now : ℕ) : ℕ := min (now + d.lifetimeNs) lastTime

/-- The entries that have not expired, after a nonce is put in. -/
def live (d : DeadNonceList) (fp : NonceFingerprint) (now : ℕ) : List (NonceFingerprint × ℕ) :=
  ((d.put fp now).purgeExpired now).entries

def target (d : DeadNonceList) : ℕ := d.capacity - d.capacity / 10

/-- The entries that stay where some are evicted: the last in the order of expiry. -/
def keptBy (P : Platform) (d : DeadNonceList) (fp : NonceFingerprint) (now : ℕ) :
    List (NonceFingerprint × ℕ) :=
  (P.sortByExpiry (d.live fp now)).drop ((d.live fp now).length - d.target)

section

variable {P : Platform} {d : DeadNonceList} {fp : NonceFingerprint} {now : ℕ}
  {e k : NonceFingerprint × ℕ}

@[simp] lemma insert_lifetimeNs : (d.insert P fp now).lifetimeNs = d.lifetimeNs := by
  rw [insert_eq, enforceCapacity_eq]
  split_ifs <;> rfl

@[simp] lemma insert_capacity : (d.insert P fp now).capacity = d.capacity := by
  rw [insert_eq, enforceCapacity_eq]
  split_ifs <;> rfl

lemma mem_live_iff : e ∈ d.live fp now ↔ e ∈ (d.put fp now).entries ∧ now < e.2 := by
  simp [live, purgeExpired]

section

variable (hd : Keyed d.entries)
include hd

lemma nodup_put : Keyed (d.put fp now).entries :=
  nodup_keys_insert fp _ hd

lemma nodup_live : Keyed (d.live fp now) :=
  (nodup_put hd).sublist (filter_sublist.map Prod.fst)

/-- **What an insertion leaves**: all entries, those that have not expired, or the last of them in
the order of expiry. -/
lemma insert_entries (P : Platform) (fp : NonceFingerprint) (now : ℕ) :
    ((d.put fp now).entries.length ≤ d.capacity ∧
      (d.insert P fp now).entries = (d.put fp now).entries) ∨
    ((d.live fp now).length ≤ d.capacity ∧ (d.insert P fp now).entries = d.live fp now) ∨
    (d.capacity < (d.live fp now).length ∧
      (d.insert P fp now).entries.Perm (d.keptBy P fp now)) := by
  rw [insert_eq, enforceCapacity_eq]
  split_ifs with hlong hroom
  · exact .inr (.inl ⟨hroom, rfl⟩)
  · refine .inr (.inr ⟨not_le.mp hroom, ?_⟩)
    exact filter_not_mem_take_perm (P.sortByExpiry_perm _) (nodup_live hd) _
  · exact .inl ⟨not_lt.mp hlong, rfl⟩

end

lemma mem_live_of_mem_keptBy (h : e ∈ d.keptBy P fp now) : e ∈ d.live fp now :=
  (P.sortByExpiry_perm _).mem_iff.mp (mem_of_mem_drop h)

lemma mem_put_of_mem_insert (hd : Keyed d.entries)
    (h : e ∈ (d.insert P fp now).entries) : e ∈ (d.put fp now).entries := by
  rcases insert_entries hd P fp now with ⟨-, heq⟩ | ⟨-, heq⟩ | ⟨-, hperm⟩
  · rwa [heq] at h
  · rw [heq] at h
    exact (mem_live_iff.mp h).1
  · exact (mem_live_iff.mp (mem_live_of_mem_keptBy (hperm.mem_iff.mp h))).1

lemma nodup_insert (hd : Keyed d.entries) (P : Platform) (fp : NonceFingerprint) (now : ℕ) :
    Keyed (d.insert P fp now).entries := by
  rcases insert_entries hd P fp now with ⟨-, heq⟩ | ⟨-, heq⟩ | ⟨-, hperm⟩
  · rw [heq]
    exact nodup_put hd
  · rw [heq]
    exact nodup_live hd
  · have hsrt := ((P.sortByExpiry_perm (d.live fp now)).map Prod.fst).nodup_iff.mpr (nodup_live hd)
    refine (hperm.map Prod.fst).nodup_iff.mpr ?_
    exact hsrt.sublist ((drop_sublist _ _).map Prod.fst)

lemma target_le : d.target ≤ d.capacity := Nat.sub_le _ _

lemma length_keptBy (h : d.capacity < (d.live fp now).length) :
    (d.keptBy P fp now).length = d.target := by
  have hlen := (P.sortByExpiry_perm (d.live fp now)).length_eq
  have htgt := d.target_le
  rw [keptBy, length_drop, hlen]
  omega

lemma length_insert_le_capacity (hd : Keyed d.entries) (P : Platform)
    (fp : NonceFingerprint) (now : ℕ) : (d.insert P fp now).entries.length ≤ d.capacity := by
  rcases insert_entries hd P fp now with ⟨hlen, heq⟩ | ⟨hlen, heq⟩ | ⟨hlen, hperm⟩
  · rwa [heq]
  · rwa [heq]
  · rw [hperm.length_eq, length_keptBy hlen]
    exact target_le

/-- No entry that the insertion evicts before its time expires later than one that it keeps. -/
def EvictsFirst (P : Platform) (d : DeadNonceList) (fp : NonceFingerprint) (now : ℕ) : Prop :=
  ∀ e ∈ (d.put fp now).entries, now < e.2 → e ∉ (d.insert P fp now).entries →
    ∀ k ∈ (d.insert P fp now).entries, e.2 ≤ k.2

lemma le_of_not_mem_keptBy (he : e ∈ d.live fp now) (hout : e ∉ d.keptBy P fp now)
    (hk : k ∈ d.keptBy P fp now) : e.2 ≤ k.2 := by
  have hsrt := P.sortByExpiry_sorted (d.live fp now)
  have hmem := (P.sortByExpiry_perm (d.live fp now)).mem_iff.mpr he
  rw [← take_append_drop ((d.live fp now).length - d.target)
    (P.sortByExpiry (d.live fp now))] at hsrt hmem
  rcases mem_append.mp hmem with htak | hkept
  · exact (pairwise_append.mp hsrt).2.2 e htak k hk
  · exact absurd hkept hout

/-- **What expires first is evicted first.** -/
lemma evictsFirst_insert (hd : Keyed d.entries) (P : Platform)
    (fp : NonceFingerprint) (now : ℕ) : d.EvictsFirst P fp now := by
  intro e he hlive hout k hk
  rcases insert_entries hd P fp now with ⟨-, heq⟩ | ⟨-, heq⟩ | ⟨-, hperm⟩
  · rw [heq] at hout
    exact absurd he hout
  · rw [heq] at hout
    exact absurd (mem_live_iff.mpr ⟨he, hlive⟩) hout
  · rw [hperm.mem_iff] at hout hk
    exact le_of_not_mem_keptBy (mem_live_iff.mpr ⟨he, hlive⟩) hout hk

/-! ## The nonce just inserted -/

lemma mem_put_self (hd : Keyed d.entries) :
    e ∈ (d.put fp now).entries ∧ e.1 = fp ↔ e = (fp, d.expiry now) := by
  have hlk : (d.put fp now).entries.lookup fp = some (d.expiry now) := by
    rw [put, lookup_insert, if_pos rfl, expiry]
  have hmem := (lookup_eq_some_iff (nodup_put hd)).mp hlk
  constructor
  · rintro ⟨he, rfl⟩
    have hsame := (lookup_eq_some_iff (nodup_put hd)).mpr (show (e.1, e.2) ∈ _ from he)
    rw [hlk] at hsame
    exact Prod.ext rfl (Option.some.inj hsame).symm
  · rintro rfl
    exact ⟨hmem, rfl⟩

lemma contains_insert_eq (hd : Keyed d.entries) :
    (d.insert P fp now).contains fp now = true ↔
      (fp, d.expiry now) ∈ (d.insert P fp now).entries ∧ now < d.expiry now := by
  have hlk := fun v => lookup_eq_some_iff (k := fp) (v := v) (nodup_insert hd P fp now)
  rw [contains]
  cases hfnd : (d.insert P fp now).entries.lookup fp with
  | none =>
    refine iff_of_false Bool.false_ne_true fun h => ?_
    rw [← hlk, hfnd] at h
    cases h.1
  | some v =>
    have hmem := (hlk v).mp hfnd
    have heq := (mem_put_self hd).mp ⟨mem_put_of_mem_insert hd hmem, rfl⟩
    cases heq
    simp [hmem]

/-- How many entries expire together with a nonce put in now. -/
def tied (d : DeadNonceList) (fp : NonceFingerprint) (now : ℕ) : ℕ :=
  (d.live fp now).countP fun e => e.2 = d.expiry now

/-- The entries of other nonces that have not expired. -/
def others (d : DeadNonceList) (fp : NonceFingerprint) (now : ℕ) : List (NonceFingerprint × ℕ) :=
  (Assoc.erase fp d.entries).filter fun e => now < e.2

/-- There is room for one more entry, or also for all that expire together with it. -/
def Uncrowded (d : DeadNonceList) (fp : NonceFingerprint) (now : ℕ) : Prop :=
  (d.others fp now).length < d.capacity ∨
    ((d.others fp now).countP fun e => e.2 = d.expiry now) < d.target

instance (d : DeadNonceList) (fp : NonceFingerprint) (now : ℕ) : Decidable (d.Uncrowded fp now) :=
  inferInstanceAs (Decidable (_ ∨ _))

lemma live_perm (hd : Keyed d.entries) (hexp : now < d.expiry now)
    (fp : NonceFingerprint) : (d.live fp now).Perm ((fp, d.expiry now) :: d.others fp now) := by
  have hperm := (insert_perm fp (d.expiry now) hd).filter fun e => decide (now < e.2)
  rw [filter_cons_of_pos (by simpa using hexp)] at hperm
  exact hperm

lemma uncrowded_iff (hd : Keyed d.entries) (hexp : now < d.expiry now) :
    d.Uncrowded fp now ↔ (d.live fp now).length ≤ d.capacity ∨ d.tied fp now ≤ d.target := by
  have hperm := live_perm hd hexp fp
  rw [Uncrowded, tied, hperm.length_eq, hperm.countP_eq, length_cons,
    countP_cons_of_pos (by simp), Nat.succ_le_iff, Nat.succ_le_iff]

lemma tied_eq (P : Platform) (d : DeadNonceList) (fp : NonceFingerprint) (now : ℕ) :
    d.tied fp now =
      ((P.sortByExpiry (d.live fp now)).take ((d.live fp now).length - d.target)).countP
        (fun e => e.2 = d.expiry now) + (d.keptBy P fp now).countP fun e => e.2 = d.expiry now := by
  rw [tied, ← (P.sortByExpiry_perm (d.live fp now)).countP_eq, keptBy, ← countP_append,
    take_append_drop]

lemma mem_keptBy_of_tied_le (hlive : (fp, d.expiry now) ∈ d.live fp now)
    (hlat : ∀ e ∈ d.live fp now, e.2 ≤ d.expiry now) (hlen : d.capacity < (d.live fp now).length)
    (htied : d.tied fp now ≤ d.target) : (fp, d.expiry now) ∈ d.keptBy P fp now := by
  by_contra hout
  -- all kept entries would expire together with it, and it is one more
  have hall : (d.keptBy P fp now).countP (fun e => e.2 = d.expiry now) = d.target := by
    rw [← length_keptBy (P := P) hlen, countP_eq_length]
    intro k hk
    refine decide_eq_true (le_antisymm (hlat k (mem_live_of_mem_keptBy hk)) ?_)
    exact le_of_not_mem_keptBy hlive hout hk
  have hmem := (P.sortByExpiry_perm (d.live fp now)).mem_iff.mpr hlive
  rw [← take_append_drop ((d.live fp now).length - d.target)
    (P.sortByExpiry (d.live fp now))] at hmem
  have htak := (mem_append.mp hmem).resolve_right hout
  have hone : 0 < ((P.sortByExpiry (d.live fp now)).take
      ((d.live fp now).length - d.target)).countP fun e => e.2 = d.expiry now :=
    countP_pos_iff.mpr ⟨_, htak, decide_eq_true rfl⟩
  have hsum := d.tied_eq P fp now
  omega

/-! ## An order that evicts it -/

/-- By expiry, with one nonce first among those that expire together. -/
def FirstAmongTies (fp : NonceFingerprint) (a b : NonceFingerprint × ℕ) : Prop :=
  a.2 < b.2 ∨ a.2 = b.2 ∧ (a.1 = fp ∨ b.1 ≠ fp)

instance (fp : NonceFingerprint) : DecidableRel (FirstAmongTies fp) :=
  fun _ _ => inferInstanceAs (Decidable (_ ∨ _ ∧ _))

instance (fp : NonceFingerprint) : Std.Total (FirstAmongTies fp) where
  total a b := by
    unfold FirstAmongTies
    by_cases ha : a.1 = fp <;> by_cases hb : b.1 = fp <;> simp [ha, hb] <;> omega

instance (fp : NonceFingerprint) : IsTrans _ (FirstAmongTies fp) where
  trans a b c := by
    unfold FirstAmongTies
    rintro (hab | ⟨hab, hfp⟩) (hbc | ⟨hbc, hfp'⟩)
    · exact .inl (hab.trans hbc)
    · exact .inl (hab.trans_eq hbc)
    · exact .inl (hab.trans_lt hbc)
    · refine .inr ⟨hab.trans hbc, ?_⟩
      rcases hfp with hfp | hfp
      · exact .inl hfp
      · exact .inr (hfp'.resolve_left hfp)

def firstAmongTies (fp : NonceFingerprint) : Platform where
  hashComponent _ := 0
  hashToken hash _ := hash
  sortByExpiry l := l.insertionSort (FirstAmongTies fp)
  sortByExpiry_perm := List.perm_insertionSort (FirstAmongTies fp)
  sortByExpiry_sorted l := (List.pairwise_insertionSort (FirstAmongTies fp) l).imp
    fun h => h.elim le_of_lt fun h => h.1.le

/-- If the list is crowded, that order evicts the nonce just inserted. -/
lemma not_mem_keptBy_firstAmongTies (hd : Keyed d.entries)
    (hlen : d.capacity < (d.live fp now).length) (htied : d.target < d.tied fp now) :
    (fp, d.expiry now) ∉ d.keptBy (firstAmongTies fp) fp now := by
  intro hin
  have hsrt : ((firstAmongTies fp).sortByExpiry (d.live fp now)).Pairwise (FirstAmongTies fp) :=
    pairwise_insertionSort (FirstAmongTies fp) _
  have hperm := (firstAmongTies fp).sortByExpiry_perm (d.live fp now)
  have hnd := (hperm.map Prod.fst).nodup_iff.mpr (nodup_live hd)
  have hsum := d.tied_eq (firstAmongTies fp) fp now
  have hkept := countP_le_length (p := fun e => decide (e.2 = d.expiry now))
    (l := d.keptBy (firstAmongTies fp) fp now)
  rw [length_keptBy hlen] at hkept
  rw [← take_append_drop ((d.live fp now).length - d.target)
    ((firstAmongTies fp).sortByExpiry (d.live fp now))] at hsrt hnd
  rw [map_append] at hnd
  -- what comes before it expires earlier, so all that expire with it would be kept
  have hnone : ((((firstAmongTies fp).sortByExpiry (d.live fp now)).take
      ((d.live fp now).length - d.target)).countP fun e => e.2 = d.expiry now) = 0 := by
    rw [countP_eq_zero]
    intro e he htie
    have hne : e.1 ≠ fp := (nodup_append.mp hnd).2.2 _ (mem_map_of_mem he) _
      (mem_map_of_mem (f := Prod.fst) hin)
    rcases (pairwise_append.mp hsrt).2.2 e he _ hin with hlt | ⟨-, hfp | hfp⟩
    · exact absurd (of_decide_eq_true htie) hlt.ne
    · exact hne hfp
    · exact hfp rfl
  omega

/-- **The nonce just inserted is found**, for every order of entries that expire together, iff the
list is not crowded and the clock has not come to its end. -/
lemma contains_insert_iff (hd : Keyed d.entries) (hlif : 0 < d.lifetimeNs)
    (hlat : ∀ e ∈ (d.put fp now).entries, e.2 ≤ d.expiry now) :
    (∀ P, (d.insert P fp now).contains fp now = true) ↔ now < lastTime ∧ d.Uncrowded fp now := by
  have hexp : now < d.expiry now ↔ now < lastTime := by
    rw [expiry, lt_min_iff]
    exact and_iff_right (Nat.lt_add_of_pos_right hlif)
  simp only [contains_insert_eq hd, hexp]
  constructor
  · intro hall
    obtain ⟨-, htime⟩ := hall (firstAmongTies fp)
    refine ⟨htime, ?_⟩
    rw [uncrowded_iff hd (hexp.mpr htime)]
    by_contra hcrow
    obtain ⟨hlen, htied⟩ := not_or.mp hcrow
    have hlen := not_le.mp hlen
    refine not_mem_keptBy_firstAmongTies hd hlen (not_le.mp htied) ?_
    rcases insert_entries hd (firstAmongTies fp) fp now with ⟨hput, -⟩ | ⟨hroom, -⟩ | ⟨-, hperm⟩
    · have hle : (d.live fp now).length ≤ (d.put fp now).entries.length := length_filter_le _ _
      omega
    · omega
    · exact hperm.mem_iff.mp (hall (firstAmongTies fp)).1
  · rintro ⟨htime, hunc⟩ P
    refine ⟨?_, htime⟩
    have hput := ((mem_put_self hd).mpr rfl : (fp, d.expiry now) ∈ (d.put fp now).entries ∧ _).1
    have hlive := mem_live_iff.mpr ⟨hput, hexp.mpr htime⟩
    rw [uncrowded_iff hd (hexp.mpr htime)] at hunc
    rcases insert_entries hd P fp now with ⟨-, heq⟩ | ⟨-, heq⟩ | ⟨hlen, hperm⟩
    · rwa [heq]
    · rwa [heq]
    · rw [hperm.mem_iff]
      refine mem_keptBy_of_tied_le hlive (fun e he => ?_) hlen ?_
      · exact hlat e (mem_live_iff.mp he).1
      · exact hunc.resolve_left (not_le.mpr hlen)

end

/-! ## Insertions in the order of time -/

structure Insertion where
  platform : Platform
  fp : NonceFingerprint
  now : ℕ

def after (lifetimeNs capacity : ℕ) (done : List Insertion) : DeadNonceList :=
  done.foldl (fun d i => d.insert i.platform i.fp i.now)
    (withLifetimeAndCapacity lifetimeNs capacity)

/-- **What holds after insertions in the order of time**, the last of which was at `clock`. -/
structure Bounded (lifetimeNs capacity clock : ℕ) (d : DeadNonceList) : Prop where
  lifetime_eq : d.lifetimeNs = lifetimeNs
  capacity_eq : d.capacity = capacity
  distinct : Keyed d.entries
  latest : ∀ e ∈ d.entries, e.2 ≤ min (clock + lifetimeNs) lastTime
  bound : d.entries.length ≤ capacity

section

variable {lifetimeNs capacity clock now : ℕ} {d : DeadNonceList}

section

variable (h : d.Bounded lifetimeNs capacity clock)
include h

lemma Bounded.latest_put (hnow : clock ≤ now)
    (fp : NonceFingerprint) : ∀ e ∈ (d.put fp now).entries, e.2 ≤ d.expiry now := by
  intro e he
  rcases mem_insert he with rfl | hold
  · exact le_refl _
  · rw [expiry, h.lifetime_eq]
    exact (h.latest e hold).trans (min_le_min_right _ (Nat.add_le_add_right hnow _))

lemma Bounded.insert (hnow : clock ≤ now) (P : Platform)
    (fp : NonceFingerprint) : (d.insert P fp now).Bounded lifetimeNs capacity now where
  lifetime_eq := insert_lifetimeNs.trans h.lifetime_eq
  capacity_eq := insert_capacity.trans h.capacity_eq
  distinct := nodup_insert h.distinct P fp now
  latest e he := by
    have hle := h.latest_put hnow fp e (mem_put_of_mem_insert h.distinct he)
    rwa [expiry, h.lifetime_eq] at hle
  bound := h.capacity_eq ▸ length_insert_le_capacity h.distinct P fp now

lemma Bounded.foldl {done : List Insertion}
    (htim : (clock :: done.map Insertion.now ++ [now]).Pairwise (· ≤ ·)) :
    ∃ clock' ≤ now, (done.foldl (fun d i => d.insert i.platform i.fp i.now) d).Bounded
      lifetimeNs capacity clock' := by
  induction done generalizing d clock with
  | nil => exact ⟨clock, by simpa using htim, h⟩
  | cons i done ih =>
    have hfst : clock ≤ i.now := (pairwise_cons.mp htim).1 _ (by simp)
    exact ih (h.insert hfst i.platform i.fp) (pairwise_cons.mp htim).2

end

lemma bounded_after (lifetimeNs : ℕ) (hcap : 1 ≤ capacity) {done : List Insertion}
    (htim : (done.map Insertion.now ++ [now]).Pairwise (· ≤ ·)) :
    ∃ clock ≤ now, (after lifetimeNs capacity done).Bounded lifetimeNs capacity clock := by
  have hemp : (withLifetimeAndCapacity lifetimeNs capacity).Bounded lifetimeNs capacity 0 :=
    ⟨rfl, max_eq_left hcap, nodup_nil, nofun, Nat.zero_le _⟩
  exact hemp.foldl (pairwise_cons.mpr ⟨fun _ _ => Nat.zero_le _, htim⟩)

end

/-- **The Dead Nonce List, after any insertions in the order of time.** For every order of the
entries that expire together, one more insertion leaves at most `capacity` entries and evicts none
before its time that expires later than one it keeps. It leaves the nonce just inserted, for every
order, iff the list is not crowded and the clock has not come to its end. -/
theorem insert_spec_iff (lifetimeNs capacity : ℕ) (hlifetime : 0 < lifetimeNs)
    (hcapacity : 1 ≤ capacity) (done : List Insertion) (fp : NonceFingerprint) (now : ℕ)
    (htimes : (done.map Insertion.now ++ [now]).Pairwise (· ≤ ·)) :
    (∀ P, ((after lifetimeNs capacity done).insert P fp now).entries.length ≤ capacity) ∧
    (∀ P, (after lifetimeNs capacity done).EvictsFirst P fp now) ∧
    ((∀ P, ((after lifetimeNs capacity done).insert P fp now).contains fp now = true) ↔
      now < lastTime ∧ (after lifetimeNs capacity done).Uncrowded fp now) := by
  obtain ⟨clock, hclk, h⟩ := bounded_after lifetimeNs hcapacity htimes
  refine ⟨fun P => (h.insert hclk P fp).bound, fun P => evictsFirst_insert h.distinct P fp now, ?_⟩
  refine contains_insert_iff h.distinct ?_ (h.latest_put hclk fp)
  rw [h.lifetime_eq]
  exact hlifetime

namespace Tied

def fpA : NonceFingerprint := ⟨1, 7⟩

def fpB : NonceFingerprint := ⟨1, 8⟩

def done : List Insertion := [⟨firstAmongTies fpA, fpA, 5⟩]

end Tied

open Tied in
/-- `insert_spec_iff` in a list of one entry, for a nonce inserted a tick later than that entry. -/
theorem insert_spec_later :
    ((after 10 1 done).insert (firstAmongTies fpB) fpB 6).contains fpB 6 = true :=
  (insert_spec_iff 10 1 (by decide) (by decide) done fpB 6 (by decide)).2.2.mpr
    ⟨by decide, by decide⟩ _

open Tied in
/-- **The nonce just inserted is evicted.** A list of one entry has a nonce that expires together
with the new one; the new one comes first in their order, and goes. -/
theorem new_nonce_evicted :
    (done.map Insertion.now ++ [5]).Pairwise (· ≤ ·) ∧
    ((after 10 1 done).insert (firstAmongTies fpB) fpB 5).contains fpB 5 = false ∧
    ((after 10 1 done).insert (firstAmongTies fpB) fpB 5).entries = [(fpA, 15)] := by
  decide

end DeadNonceList

end NdnRs.Pit
