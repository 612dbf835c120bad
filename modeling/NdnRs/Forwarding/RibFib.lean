import NdnRs.Forwarding.Rib

/-!
# From the RIB to the FIB (`ndn-engine/src/rib.rs`, `expiry.rs`)

After every operation on the RIB the FIB is recomputed, but only at the prefixes that the operation
reports and at the prefixes below them that have routes.

## Main results

* `fib_recomputed` — the FIB after any operations.
* `lpm_follows_rib` — its matches, in terms of the RIB.
-/

namespace NdnRs

open List Rib

namespace Rib

/-! ## Recomputing entries -/

variable (self : Rib)

/-- The prefixes below `pre` that have routes. -/
def descendants (pre : Name) : List Name :=
  (self.routes.map Prod.fst).filter fun k => k ≠ pre ∧ k.hasPrefix pre

def applyToFib (pre : Name) (fib : Fib) : Fib :=
  (self.descendants pre).foldl (fun fib d => fib.setNexthops d (self.effectiveNexthops d))
    (fib.setNexthops pre (self.effectiveNexthops pre))

/-- `apply_to_fib` for every prefix reported. -/
def applyAll (affected : List Name) (fib : Fib) : Fib :=
  affected.foldl (fun fib pre => self.applyToFib pre fib) fib

def entry (pre : Name) : Option FibEntry := Fib.entryOf (self.effectiveNexthops pre)

lemma get_foldl_setNexthops (names : List Name) (fib : Fib) (name : Name) :
    (names.foldl (fun fib d => fib.setNexthops d (self.effectiveNexthops d)) fib).get name =
      if name ∈ names then self.entry name else fib.get name := by
  induction names generalizing fib with
  | nil => simp
  | cons d names ih =>
    rw [foldl_cons, ih, Fib.get_setNexthops]
    by_cases hmem : name ∈ names
    · rw [if_pos hmem, if_pos (mem_cons_of_mem _ hmem)]
    · by_cases hd : name = d
      · rw [if_neg hmem, if_pos hd, hd, if_pos (mem_cons_self ..)]
        rfl
      · rw [if_neg hmem, if_neg hd, if_neg (by simp [hd, hmem])]

lemma routesAt_ne_nil_iff (name : Name) :
    self.routesAt name ≠ [] ↔ name ∈ self.routes.map Prod.fst := by
  rw [← not_iff_not, not_not, ← Assoc.lookup_eq_none_iff, lookup_eq]
  split_ifs with h <;> simp [h]

/-- The entry of `name` is rewritten when `pre` is affected. -/
def Rewrites (pre name : Name) : Prop :=
  name = pre ∨ self.routesAt name ≠ [] ∧ pre <+: name

instance (self : Rib) (pre name : Name) : Decidable (self.Rewrites pre name) := by
  unfold Rewrites
  infer_instance

/-- **What `apply_to_fib` rewrites**: the entry of the prefix, and those of the prefixes below it
that have routes. -/
lemma get_applyToFib (pre : Name) (fib : Fib) (name : Name) :
    (self.applyToFib pre fib).get name =
      if self.Rewrites pre name then self.entry name else fib.get name := by
  have hmem : name ∈ self.descendants pre ↔ name ≠ pre ∧ self.routesAt name ≠ [] ∧
      pre <+: name := by
    rw [descendants, mem_filter, ← routesAt_ne_nil_iff, decide_eq_true_eq, Name.hasPrefix_iff]
    tauto
  rw [applyToFib, get_foldl_setNexthops, Fib.get_setNexthops]
  by_cases hname : name = pre
  · subst hname
    have hrew : self.Rewrites name name := .inl rfl
    rw [if_pos rfl, if_pos hrew]
    split_ifs <;> rfl
  · rw [if_neg hname]
    by_cases hbel : self.routesAt name ≠ [] ∧ pre <+: name
    · have hrew : self.Rewrites pre name := .inr hbel
      rw [if_pos (hmem.mpr ⟨hname, hbel⟩), if_pos hrew]
    · have hrew : ¬ self.Rewrites pre name := fun h => hbel (h.resolve_left hname)
      rw [if_neg fun h => hbel (hmem.mp h).2, if_neg hrew]

lemma get_applyAll (affected : List Name) (fib : Fib) (name : Name) :
    (self.applyAll affected fib).get name =
      if ∃ pre ∈ affected, self.Rewrites pre name then self.entry name else fib.get name := by
  induction affected generalizing fib with
  | nil => simp [applyAll]
  | cons pre affected ih =>
    have hcons : self.applyAll (pre :: affected) fib =
        self.applyAll affected (self.applyToFib pre fib) := rfl
    rw [hcons, ih, get_applyToFib]
    simp only [exists_mem_cons_iff]
    by_cases hrest : ∃ pre ∈ affected, self.Rewrites pre name
    · rw [if_pos hrest, if_pos (Or.inr hrest)]
    · by_cases hpre : self.Rewrites pre name
      · rw [if_neg hrest, if_pos hpre, if_pos (Or.inl hpre)]
      · rw [if_neg hrest, if_neg hpre, if_neg (not_or.mpr ⟨hpre, hrest⟩)]

end Rib

/-! ## The two tables together -/

structure Routing where
  rib : Rib
  fib : Fib

namespace Routing

def new : Routing := ⟨.new, .new⟩

/-- The operations on the RIB. -/
inductive Op where
  | add (pre : Name) (route : RibRoute)
  | remove (pre : Name) (faceId : FaceId) (origin : UInt64)
  | removeNexthop (pre : Name) (faceId : FaceId)
  | flushFace (faceId : FaceId)
  | flushOrigin (origin : UInt64)
  | drainExpired (now : ℕ)

def reported (pre : Name) (changed : Bool) : List Name := if changed then [pre] else []

/-- The RIB after an operation, and the prefixes that the operation reports. -/
def apply (rib : Rib) : Op → Rib × List Name
  | .add pre route => let (rib, changed) := rib.add pre route; (rib, reported pre changed)
  | .remove pre faceId origin =>
    let (rib, changed) := rib.remove pre faceId origin
    (rib, reported pre changed)
  | .removeNexthop pre faceId =>
    let (rib, changed) := rib.removeNexthop pre faceId
    (rib, reported pre changed)
  | .flushFace faceId => rib.flushFace faceId
  | .flushOrigin origin => rib.flushOrigin origin
  | .drainExpired now => rib.drainExpired now

/-- An operation on the RIB followed by `apply_to_fib` on every prefix it reports; for a tick of the
clock this is the body of `run_rib_expiry_task`, and for a flushed face `handle_face_down`. -/
def step (s : Routing) (op : Op) : Routing :=
  let (rib, affected) := apply s.rib op
  ⟨rib, rib.applyAll affected s.fib⟩

/-- The entry holds the next hops, each face once and the cheapest first. -/
structure Holds (entry : FibEntry) (hops : FaceId → ℕ → Prop) : Prop where
  mem_iff : ∀ hop, hop ∈ entry.nexthops ↔ hops hop.faceId hop.cost
  distinct : (entry.nexthops.map FibNexthop.faceId).Nodup
  sorted : entry.nexthops.Pairwise fun a b => a.cost ≤ b.cost

/-- The entry at a prefix is that of its effective next hops: absent if there are none. -/
structure EntryOk (entry : Option FibEntry) (hops : FaceId → ℕ → Prop) : Prop where
  eq_none_iff : entry = none ↔ ∀ face cost, ¬ hops face cost
  holds : ∀ e, entry = some e → Holds e hops

def Recomputed (s : Routing) : Prop := ∀ pre, EntryOk (s.fib.get pre) (s.rib.Effective pre)

lemma entryOk_entry (rib : Rib) (pre : Name) : EntryOk (rib.entry pre) (rib.Effective pre) := by
  have hmem := rib.mem_effectiveNexthops_iff pre
  constructor
  · rw [entry, Fib.entryOf]
    split_ifs with hnil
    · refine iff_of_true rfl fun face cost heff => ?_
      have := (hmem ⟨face, cost⟩).mpr heff
      rw [hnil] at this
      cases this
    · obtain ⟨hop, hhop⟩ := exists_mem_of_ne_nil _ hnil
      exact iff_of_false nofun fun hnone => hnone _ _ ((hmem hop).mp hhop)
  · intro e he
    rw [entry, Fib.entryOf] at he
    split_ifs at he with hnil
    cases he
    have hperm := perm_insertionSort (fun a b : FibNexthop => a.cost ≤ b.cost)
      (rib.effectiveNexthops pre)
    refine ⟨fun hop => ?_, ?_, pairwise_insertionSort _ _⟩
    · rw [hperm.mem_iff, hmem]
    · exact (hperm.map _).nodup_iff.mpr (rib.nodup_effectiveNexthops pre)

/-- **What an operation reports**: the routes of a prefix that is not reported have not changed. -/
lemma routesAt_apply (rib : Rib) (op : Op) {name : Name} (h : name ∉ (apply rib op).2) :
    (apply rib op).1.routesAt name = rib.routesAt name := by
  -- the two operations that remove routes of one prefix
  have hrmv : ∀ pre gone, name ∉ reported pre (rib.removeWhere pre gone).2 →
      (rib.removeWhere pre gone).1.routesAt name = rib.routesAt name := by
    intro pre gone hnot
    rw [routesAt_removeWhere]
    split_ifs with hname
    · subst hname
      rw [reported, removeWhere_snd] at hnot
      split_ifs at hnot with hlen
      · simp at hnot
      · have hlen : ((rib.routesAt name).filter fun r => !gone r).length =
            (rib.routesAt name).length := by simpa using hlen
        exact filter_sublist.eq_of_length hlen
    · rfl
  cases op with
  | add pre route =>
    refine (rib.routesAt_add pre name route).trans ?_
    split_ifs with hname
    · subst hname
      apply addRoute_of_unchanged
      have hnot : name ∉ reported name (rib.add name route).2 := h
      rw [reported] at hnot
      split_ifs at hnot with hchan
      · simp at hnot
      · exact Bool.eq_false_iff.mpr hchan
    · rfl
  | remove pre faceId origin => exact hrmv _ _ h
  | removeNexthop pre faceId => exact hrmv _ _ h
  | flushFace faceId => exact rib.routesAt_flush_of_not_mem h
  | flushOrigin origin => exact rib.routesAt_flush_of_not_mem h
  | drainExpired now => exact rib.routesAt_flush_of_not_mem h

/-- **One operation.** Recomputing the prefixes reported, and those with routes below them, is as
good as recomputing all. -/
theorem recomputed_step {s : Routing} (h : s.Recomputed) (op : Op) : (s.step op).Recomputed := by
  intro name
  have hstep : s.step op = ⟨(apply s.rib op).1, (apply s.rib op).1.applyAll
      (apply s.rib op).2 s.fib⟩ := rfl
  rw [hstep]
  simp only [get_applyAll]
  split_ifs with hrew
  · exact entryOk_entry _ name
  push Not at hrew
  have hname : name ∉ (apply s.rib op).2 := fun hmem => hrew name hmem (.inl rfl)
  have hself := routesAt_apply s.rib op hname
  suffices hsame : ∀ face cost, (apply s.rib op).1.Effective name face cost ↔
      s.rib.Effective name face cost by
    have hold := h name
    exact ⟨by simpa only [hsame] using hold.eq_none_iff, fun e he =>
      ⟨by simpa only [hsame] using (hold.holds e he).mem_iff, (hold.holds e he).distinct,
        (hold.holds e he).sorted⟩⟩
  intro face cost
  by_cases hnil : (apply s.rib op).1.routesAt name = []
  · -- a prefix without routes has no next hops, before and after
    refine iff_of_false (fun heff => heff.1 hnil) fun heff => heff.1 ?_
    rw [← hself]
    exact hnil
  · -- nothing above the prefix has changed, or it would have been rewritten
    refine effective_congr (fun p hp => routesAt_apply s.rib op fun hmem => ?_) face cost
    exact hrew p hmem (.inr ⟨hnil, hp⟩)

lemma recomputed_new : new.Recomputed := by
  intro pre
  have hget : new.fib.get pre = none := Trie.get_empty pre
  rw [hget]
  refine ⟨iff_of_true rfl fun face cost heff => heff.1 rfl, fun e he => ?_⟩
  cases he

/-- **The FIB is always recomputed.** After every sequence of operations on the RIB, each followed
by `apply_to_fib` on the prefixes it reports, the FIB entry of every prefix holds exactly the
effective next hops of the prefix, and there is no entry where there are none. -/
theorem fib_recomputed (ops : List Op) : (ops.foldl step new).Recomputed := by
  induction ops using reverseRecOn with
  | nil => exact recomputed_new
  | append_singleton ops op ih =>
    rw [foldl_append]
    exact recomputed_step ih op

/-- The prefix is the longest one of the name with a next hop. -/
structure Governs (rib : Rib) (name pre : Name) : Prop where
  covers : pre <+: name
  hop : ∃ face cost, rib.Effective pre face cost
  longest : ∀ pre', pre' <+: name → (∃ face cost, rib.Effective pre' face cost) →
    pre'.length ≤ pre.length

/-- **Interests follow the RIB.** After every sequence of operations on the RIB, the longest match
of a name in the FIB holds exactly the effective next hops of the longest prefix of the name that
has any, the cheapest first; and there is no match if no prefix of the name has one. -/
theorem lpm_follows_rib (ops : List Op) (name : Name) :
    let s := ops.foldl step new
    (s.fib.lpm name = none ∧ ∀ pre, ¬ Governs s.rib name pre) ∨
      ∃ entry pre, s.fib.lpm name = some entry ∧ Governs s.rib name pre ∧
        Holds entry (s.rib.Effective pre) := by
  intro s
  have h : s.Recomputed := foldlRecOn ops step recomputed_new fun s hs op _ => recomputed_step hs op
  have hhop : ∀ pre, s.fib.get pre ≠ none ↔ ∃ face cost, s.rib.Effective pre face cost := by
    intro pre
    rw [ne_eq, (h pre).eq_none_iff]
    push Not
    rfl
  rcases Trie.lpm_spec name s.fib with ⟨hnone, hall⟩ | ⟨pre, entry, hsome, hlong⟩
  · exact .inl ⟨hnone, fun pre hpre => (hhop pre).mpr hpre.hop (hall pre hpre.covers)⟩
  have hget : s.fib.get pre = some entry := hlong.value
  refine .inr ⟨entry, pre, hsome, ⟨hlong.covers, ?_, ?_⟩, (h pre).holds entry hget⟩
  · exact (hhop pre).mp (by simp [hget])
  · intro pre' hpre' hhop'
    obtain ⟨entry', hget'⟩ := Option.ne_none_iff_exists'.mp ((hhop pre').mpr hhop')
    exact hlong.longest pre' entry' hpre' hget'

end Routing

end NdnRs
