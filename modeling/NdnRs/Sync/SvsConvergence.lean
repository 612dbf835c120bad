import NdnRs.Lib.Run
import NdnRs.Sync.SvsView

/-!
# State Vector Sync, a group of nodes

Nodes publish, restart, send their vectors and merge vectors that were sent earlier, in any order.
A vector that was sent stays in the network: it may be merged by any node, any number of times, or
never.

## Main results

* `group_converges` — views only grow, and come to agree.
-/

namespace NdnRs

open List SvsCore

/-! ## The group -/

structure SvsNet where
  nodes : Name → SvsCore
  emitted : List (List StateEntry)

namespace SvsNet

/-- What happens in a group. In `exchange n m` the node `n` merges the current vector of `m`. -/
inductive Event where
  | advance (n : Name)
  | restart (n : Name) (boot seq : ℕ)
  | emit (n : Name)
  | merge (n : Name) (received : List StateEntry)
  | exchange (n m : Name)
  deriving DecidableEq

variable (group : Finset Name) (s : SvsNet)

def setNode (n : Name) (core : SvsCore) : SvsNet :=
  { s with nodes := Function.update s.nodes n core }

lemma nodes_setNode_self (n : Name) (core : SvsCore) : (s.setNode n core).nodes n = core :=
  Function.update_self ..

lemma nodes_setNode_of_ne {n m : Name} (hne : n ≠ m) (core : SvsCore) :
    (s.setNode m core).nodes n = s.nodes n :=
  Function.update_of_ne hne ..

def step : Event → SvsNet
  | .advance n => s.setNode n (s.nodes n).advance.1
  | .restart n boot seq => s.setNode n (.withBootSeq n boot seq)
  | .emit n => { s with emitted := (s.nodes n).stateEntries :: s.emitted }
  | .merge n received => s.setNode n ((s.nodes n).merge received).1
  | .exchange n m => s.setNode n ((s.nodes n).merge (s.nodes m).stateEntries).1

def start (boot seq : Name → ℕ) : SvsNet :=
  ⟨fun n => .withBootSeq n (boot n) (seq n), []⟩

/-- When an event may happen. A restart has a strictly larger boot time and a 64-bit sequence
number; what is merged was sent by a member. -/
def May : Event → Prop
  | .advance n => n ∈ group
  | .restart n boot seq => n ∈ group ∧ (s.nodes n).localBoot < boot ∧ seq ≤ u64Max
  | .emit n => n ∈ group
  | .merge n received => n ∈ group ∧ received ∈ s.emitted
  | .exchange n m => n ∈ group ∧ m ∈ group

/-- The same, with no publication at the last sequence number. -/
def Guard (e : Event) : Prop :=
  s.May group e ∧ ∀ n, e = .advance n → (s.nodes n).localSeq < u64Max

/-- No publication and no restart. -/
def Event.Quiet (e : Event) : Prop :=
  (∀ n, e ≠ .advance n) ∧ ∀ n boot seq, e ≠ .restart n boot seq

/-- Every member merges every other member's current vector, and nobody publishes or restarts. Old
vectors may be merged in between. -/
def IsRound (events : List Event) : Prop :=
  (∀ e ∈ events, e.Quiet) ∧ ∀ n ∈ group, ∀ m ∈ group, n ≠ m → .exchange n m ∈ events

def own (p : Name) : WithBot (Lex (ℕ × ℕ)) := (s.nodes p).view p

/-! ## The invariant -/

/-- What holds of a member: it knows itself, and otherwise only members. -/
structure NodeOk (group : Finset Name) (n : Name) (core : SvsCore) : Prop where
  name : core.localName = n
  nodup : core.producers.Nodup
  known : ∀ p ∈ core.producers, p ∈ group
  self : ∃ seq, core.get n = some (core.localBoot, seq)
  bounded : ∀ p slot, core.get p = some slot → slot.2 ≤ u64Max

/-- An entry that may be received: it is about a member and not above what that has reached. -/
structure EntryOk (group : Finset Name) (s : SvsNet) (entry : StateEntry) : Prop where
  mem : entry.name ∈ group
  le : ((toLex (entry.boot, entry.seq) : Lex (ℕ × ℕ)) : WithBot (Lex (ℕ × ℕ))) ≤ s.own entry.name
  bounded : entry.seq ≤ u64Max

/-- The invariant of the group. -/
structure Inv (group : Finset Name) (s : SvsNet) : Prop where
  node : ∀ n ∈ group, NodeOk group n (s.nodes n)
  le : ∀ n ∈ group, ∀ p, (s.nodes n).view p ≤ s.own p
  sent : ∀ received ∈ s.emitted, ∀ entry ∈ received, EntryOk group s entry

section Nodes

variable {group : Finset Name} {n p : Name} {core : SvsCore}

lemma NodeOk.tracks (h : NodeOk group n core) (hcap : group.card ≤ maxTrackedProducers)
    (hp : p ∈ group) (hne : p ≠ n) : core.Tracks p := by
  refine ⟨by rw [h.name]; exact hne, ?_⟩
  cases hget : core.get p with
  | some slot => exact .inl rfl
  | none =>
    rw [get_eq_none_iff] at hget
    have hsub : core.producers.toFinset ⊆ group.erase p := by
      intro q hq
      rw [mem_toFinset] at hq
      rw [Finset.mem_erase]
      refine ⟨?_, h.known q hq⟩
      rintro rfl
      exact hget hq
    have hcard := Finset.card_le_card hsub
    rw [toFinset_card_of_nodup h.nodup, Finset.card_erase_of_mem hp] at hcard
    have hpos : 0 < group.card := Finset.card_pos.mpr ⟨p, hp⟩
    have hlen : core.vector.length = core.producers.length := (length_map ..).symm
    omega

lemma get_self_mergeEntry (s : SvsCore × List SvsCore.Gap) (entry : StateEntry) :
    (mergeEntry true s entry).1.get s.1.localName = s.1.get s.1.localName := by
  rw [get_mergeEntry, if_neg]
  rintro ⟨hname, htrk⟩
  exact htrk.1 hname.symm

lemma NodeOk.mergeEntry {s : SvsCore × List SvsCore.Gap} (h : NodeOk group n s.1)
    {entry : StateEntry} (hmem : entry.name ∈ group) (hmax : entry.seq ≤ u64Max) :
    NodeOk group n (mergeEntry true s entry).1 := by
  refine ⟨?_, ?_, ?_, ?_, ?_⟩
  · rw [localName_mergeEntry]
    exact h.name
  · unfold SvsCore.mergeEntry
    split_ifs
    · exact nodup_producers_set _ _ _ h.nodup
    · exact h.nodup
  · intro q hq
    unfold SvsCore.mergeEntry at hq
    split_ifs at hq
    · rcases (mem_producers_set _ _ _ _).mp hq with rfl | hq
      · exact hmem
      · exact h.known q hq
    · exact h.known q hq
  · obtain ⟨seq, hseq⟩ := h.self
    refine ⟨seq, ?_⟩
    have hget := get_self_mergeEntry s entry
    rw [h.name] at hget
    rw [hget, hseq, localBoot_mergeEntry]
  · intro q slot hslot
    rw [get_mergeEntry] at hslot
    split_ifs at hslot with hq
    · rw [Option.some.injEq] at hslot
      rw [← hslot]
      apply snd_mergeSlot_le _ hmax
      cases hold : s.1.get entry.name with
      | none =>
        rw [SvsCore.slot, hold]
        exact Nat.zero_le _
      | some old =>
        rw [SvsCore.slot, hold]
        exact h.bounded _ _ hold
    · exact h.bounded q slot hslot

section

variable (h : NodeOk group n core)
include h

lemma NodeOk.merge {received : List StateEntry}
    (hok : ∀ e ∈ received, e.name ∈ group ∧ e.seq ≤ u64Max) :
    NodeOk group n (core.merge received).1 :=
  mergeInner_induction h fun _ e he hs => hs.mergeEntry (hok e he).1 (hok e he).2

lemma NodeOk.get_merge (received : List StateEntry) :
    (core.merge received).1.get n = core.get n := by
  have hboth : (core.merge received).1.localName = n ∧
      (core.merge received).1.get n = core.get n := by
    apply mergeInner_induction (motive := fun c => c.localName = n ∧ c.get n = core.get n)
    · exact ⟨h.name, rfl⟩
    · rintro s e - ⟨hname, hget⟩
      have hself := get_self_mergeEntry s e
      rw [hname] at hself
      exact ⟨by rw [localName_mergeEntry, hname], by rw [hself, hget]⟩
  exact hboth.2

lemma NodeOk.get_advance (hseq : core.localSeq < u64Max) :
    ∃ seq, core.get n = some (core.localBoot, seq) ∧ seq < u64Max ∧
      ∀ q, core.advance.1.get q = if q = n then some (core.localBoot, seq + 1) else core.get q := by
  obtain ⟨seq, hget⟩ := h.self
  have hget' : core.get core.localName = some (core.localBoot, seq) := by
    rw [h.name]
    exact hget
  have hlt : seq < u64Max := by
    rw [SvsCore.localSeq, hget'] at hseq
    exact hseq
  refine ⟨seq, hget, hlt, ?_⟩
  intro q
  have hmod : (seq + 1) % 2 ^ 64 = seq + 1 := by
    unfold u64Max at hlt
    omega
  rw [SvsCore.get_advance core hget', hmod, h.name]

lemma NodeOk.advance (hn : n ∈ group) (hseq : core.localSeq < u64Max) :
    NodeOk group n core.advance.1 := by
  obtain ⟨seq, hget, hlt, hadv⟩ := h.get_advance hseq
  refine ⟨h.name, nodup_producers_set _ _ _ h.nodup, ?_, ⟨seq + 1, ?_⟩, ?_⟩
  · intro q hq
    rcases (mem_producers_set _ _ _ _).mp hq with rfl | hq
    · rw [h.name]
      exact hn
    · exact h.known q hq
  · rw [hadv, if_pos rfl]
    rfl
  · intro q slot hslot
    rw [hadv] at hslot
    split_ifs at hslot
    · rw [Option.some.injEq] at hslot
      rw [← hslot]
      exact hlt
    · exact h.bounded q slot hslot

end

lemma nodeOk_withBootSeq (hn : n ∈ group) (boot : ℕ) {seq : ℕ} (hseq : seq ≤ u64Max) :
    NodeOk group n (.withBootSeq n boot seq) := by
  refine ⟨rfl, nodup_singleton n, ?_, ⟨seq, ?_⟩, ?_⟩
  · intro q hq
    rw [mem_singleton.mp hq]
    exact hn
  · rw [get_withBootSeq, if_pos rfl]
    rfl
  intro q slot hslot
  rw [get_withBootSeq] at hslot
  split_ifs at hslot
  rw [Option.some.injEq] at hslot
  rw [← hslot]
  exact hseq

end Nodes

/-! ## What an event does to a node -/

section Steps

variable {group : Finset Name} {s : SvsNet} {e : Event} {n p : Name} {entry : StateEntry}
  {received : List StateEntry}

lemma Inv.entryOk_of_mem (h : Inv group s) (hn : n ∈ group)
    (hent : entry ∈ (s.nodes n).stateEntries) : EntryOk group s entry := by
  have hok := h.node n hn
  have hget := (mem_stateEntries hok.nodup).mp hent
  refine ⟨?_, ?_, hok.bounded _ _ hget⟩
  · apply hok.known
    by_contra hnot
    rw [get_eq_none_iff.mpr hnot] at hget
    cases hget
  · rw [← view_of_some hget]
    exact h.le n hn entry.name

/-- **One event and one node.** It stays as it is, publishes, restarts, or merges entries that may
be received. -/
theorem nodes_step_cases (h : Inv group s) (he : s.Guard group e) (n : Name) :
    (s.step e).nodes n = s.nodes n ∨
      (e = .advance n ∧ n ∈ group ∧ (s.nodes n).localSeq < u64Max ∧
        (s.step e).nodes n = (s.nodes n).advance.1) ∨
      (∃ boot seq, e = .restart n boot seq ∧ n ∈ group ∧ (s.nodes n).localBoot < boot ∧
        seq ≤ u64Max ∧ (s.step e).nodes n = .withBootSeq n boot seq) ∨
      ∃ received, n ∈ group ∧ (∀ entry ∈ received, EntryOk group s entry) ∧
        (s.step e).nodes n = ((s.nodes n).merge received).1 := by
  -- an event about another node leaves this one as it is
  cases e with
  | advance m =>
    by_cases hne : n = m
    · subst hne
      exact .inr (.inl ⟨rfl, he.1, he.2 n rfl, s.nodes_setNode_self n _⟩)
    · exact .inl (s.nodes_setNode_of_ne hne _)
  | restart m boot seq =>
    by_cases hne : n = m
    · subst hne
      obtain ⟨hmem, hboot, hseq⟩ := he.1
      exact .inr (.inr (.inl ⟨boot, seq, rfl, hmem, hboot, hseq, s.nodes_setNode_self n _⟩))
    · exact .inl (s.nodes_setNode_of_ne hne _)
  | emit m => exact .inl rfl
  | merge m received =>
    by_cases hne : n = m
    · subst hne
      obtain ⟨hmem, hsent⟩ := he.1
      exact .inr (.inr (.inr ⟨received, hmem, h.sent received hsent, s.nodes_setNode_self n _⟩))
    · exact .inl (s.nodes_setNode_of_ne hne _)
  | exchange m m' =>
    by_cases hne : n = m
    · subst hne
      obtain ⟨hmem, hmem'⟩ := he.1
      exact .inr (.inr (.inr ⟨_, hmem, fun entry hent => h.entryOk_of_mem hmem' hent,
        s.nodes_setNode_self n _⟩))
    · exact .inl (s.nodes_setNode_of_ne hne _)

lemma view_le_merge (core : SvsCore) (hok : ∀ entry ∈ received, EntryOk group s entry) (p : Name) :
    core.view p ≤ (core.merge received).1.view p :=
  mergeInner_induction (motive := fun c => core.view p ≤ c.view p) (le_refl _)
    fun r entry hent hr => hr.trans (view_le_mergeEntry r p (hok entry hent).bounded)

variable {core : SvsCore}

lemma merge_view_le (hok : ∀ entry ∈ received, EntryOk group s entry) (p : Name)
    (hp : core.view p ≤ s.own p) : (core.merge received).1.view p ≤ s.own p := by
  apply mergeInner_induction (motive := fun c => c.view p ≤ s.own p) hp
  intro r entry hentry hr
  have hent := hok entry hentry
  cases htop : (s.nodes p).get p with
  | none =>
    -- then no entry about `p` may be received
    have hown : s.own p = ⊥ := view_of_none htop
    have hne : p ≠ entry.name := by
      rintro rfl
      have hle := hent.le
      rw [hown] at hle
      exact absurd hle (WithBot.not_coe_le_bot _)
    rw [view, get_mergeEntry, if_neg fun hc => hne hc.1]
    exact hr
  | some top =>
    have hown : s.own p = (toLex top : Lex (ℕ × ℕ)) := view_of_some htop
    rw [hown] at hr ⊢
    apply view_mergeEntry_le hr
    rintro rfl
    have hle := hent.le
    rw [hown, WithBot.coe_le_coe] at hle
    exact hle

lemma NodeOk.view_le_advance (h : NodeOk group n core)
    (hseq : core.localSeq < u64Max) (p : Name) : core.view p ≤ core.advance.1.view p := by
  obtain ⟨seq, hget, -, hadv⟩ := h.get_advance hseq
  by_cases hp : p = n
  · subst hp
    have hget' := hadv p
    rw [if_pos rfl] at hget'
    rw [view_of_some hget, view_of_some hget', WithBot.coe_le_coe, Prod.Lex.toLex_le_toLex]
    exact .inr ⟨rfl, Nat.le_succ seq⟩
  · rw [view, view, hadv, if_neg hp]

lemma NodeOk.view_le_restart (h : NodeOk group n core) {boot : ℕ} (hboot : core.localBoot < boot)
    (seq : ℕ) : core.view n ≤ (withBootSeq n boot seq).view n := by
  obtain ⟨old, hget⟩ := h.self
  have hget' := get_withBootSeq n n boot seq
  rw [if_pos rfl] at hget'
  rw [view_of_some hget, view_of_some hget', WithBot.coe_le_coe, Prod.Lex.toLex_le_toLex]
  exact .inl hboot

section

variable (h : Inv group s) (he : s.Guard group e)
include h he

/-- **Entries never decrease** except in a restart of their node. -/
lemma view_le_step (hrst : ∀ boot seq, e ≠ .restart n boot seq) (p : Name) :
    (s.nodes n).view p ≤ ((s.step e).nodes n).view p := by
  rcases nodes_step_cases h he n with hn | ⟨-, hmem, hseq, hn⟩ | ⟨boot, seq, hevt, -⟩ |
    ⟨received, -, hok, hn⟩
  · rw [hn]
  · rw [hn]
    exact (h.node n hmem).view_le_advance hseq p
  · exact absurd hevt (hrst boot seq)
  · rw [hn]
    exact view_le_merge _ hok p

lemma own_le_step (p : Name) : s.own p ≤ (s.step e).own p := by
  by_cases hrst : ∃ boot seq, e = .restart p boot seq
  · rcases nodes_step_cases h he p with hp | ⟨hevt, -⟩ | ⟨boot, seq, -, hmem, hboot, -, hp⟩ |
      ⟨received, -, hok, hp⟩
    · rw [own, own, hp]
    · obtain ⟨boot, seq, hevt'⟩ := hrst
      rw [hevt] at hevt'
      cases hevt'
    · rw [own, own, hp]
      exact (h.node p hmem).view_le_restart hboot seq
    · rw [own, own, hp]
      exact view_le_merge _ hok p
  · exact view_le_step h he (fun boot seq hevt => hrst ⟨boot, seq, hevt⟩) p

/-- **The own entry** changes only by a publication or a restart of its node. -/
lemma own_step (hadv : e ≠ .advance n)
    (hrst : ∀ boot seq, e ≠ .restart n boot seq) : (s.step e).own n = s.own n := by
  rcases nodes_step_cases h he n with hn | ⟨hevt, -⟩ | ⟨boot, seq, hevt, -⟩ |
    ⟨received, hmem, -, hn⟩
  · rw [own, own, hn]
  · exact absurd hevt hadv
  · exact absurd hevt (hrst boot seq)
  · rw [own, own, hn, view, view, (h.node n hmem).get_merge]

end

lemma EntryOk.step (hent : EntryOk group s entry) (h : Inv group s)
    (he : s.Guard group e) : EntryOk group (s.step e) entry :=
  ⟨hent.mem, hent.le.trans (own_le_step h he entry.name), hent.bounded⟩

section

variable (h : Inv group s) (he : s.Guard group e)
include h he

lemma NodeOk.step (hn : n ∈ group) : NodeOk group n ((s.step e).nodes n) := by
  rcases nodes_step_cases h he n with hn' | ⟨-, -, hseq, hn'⟩ | ⟨boot, seq, -, -, -, hseq, hn'⟩ |
    ⟨received, -, hok, hn'⟩
  · rw [hn']
    exact h.node n hn
  · rw [hn']
    exact (h.node n hn).advance hn hseq
  · rw [hn']
    exact nodeOk_withBootSeq hn boot hseq
  · rw [hn']
    exact (h.node n hn).merge fun entry hent =>
      ⟨(hok entry hent).mem, (hok entry hent).bounded⟩

lemma view_step_le (hn : n ∈ group) (p : Name) :
    ((s.step e).nodes n).view p ≤ (s.step e).own p := by
  have hown := own_le_step h he p
  by_cases hp : p = n
  · rw [hp]
    exact le_refl _
  rcases nodes_step_cases h he n with hn' | ⟨-, -, hseq, hn'⟩ | ⟨boot, seq, -, -, -, -, hn'⟩ |
    ⟨received, -, hok, hn'⟩
  · rw [hn']
    exact (h.le n hn p).trans hown
  · obtain ⟨_, -, -, hget⟩ := (h.node n hn).get_advance hseq
    have hsame : ((s.step e).nodes n).view p = (s.nodes n).view p := by
      rw [hn', view, view, hget, if_neg hp]
    rw [hsame]
    exact (h.le n hn p).trans hown
  · have hnone : ((s.step e).nodes n).view p = ⊥ := by
      rw [hn']
      apply view_of_none
      rw [get_withBootSeq, if_neg hp]
    rw [hnone]
    exact bot_le
  · rw [hn']
    exact (merge_view_le hok p (h.le n hn p)).trans hown

lemma Inv.step : Inv group (s.step e) := by
  refine ⟨fun n hn => .step h he hn, fun n hn p => view_step_le h he hn p, ?_⟩
  intro received hrcv entry hent
  have hsent : received ∈ s.emitted ∨ ∃ n ∈ group, received = (s.nodes n).stateEntries := by
    cases e with
    | emit n =>
      rcases mem_cons.mp hrcv with rfl | hrcv
      · exact .inr ⟨n, he.1, rfl⟩
      · exact .inl hrcv
    | advance n => exact .inl hrcv
    | restart n boot seq => exact .inl hrcv
    | merge n v => exact .inl hrcv
    | exchange n m => exact .inl hrcv
  rcases hsent with hsent | ⟨n, hn, rfl⟩
  · exact (h.sent received hsent entry hent).step h he
  · exact (h.entryOk_of_mem hn hent).step h he

end

end Steps

/-! ## Rounds -/

section Rounds

variable {group : Finset Name} {s : SvsNet} {top : Name → ℕ × ℕ}

/-- Nobody publishes or restarts any more: the members have reached `top`. -/
structure Settled (group : Finset Name) (top : Name → ℕ × ℕ) (s : SvsNet) : Prop where
  inv : Inv group s
  top : ∀ p ∈ group, (s.nodes p).get p = some (top p)

lemma Settled.step (h : Settled group top s) {e : Event} (he : s.Guard group e) (hquiet : e.Quiet) :
    Settled group top (s.step e) := by
  refine ⟨h.inv.step he, ?_⟩
  intro p hp
  have hown := own_step h.inv he (hquiet.1 p) (hquiet.2 p)
  rw [get_eq_of_view_eq hown]
  exact h.top p hp

variable {n p : Name} {k : ℕ}

/-- An entry of the producer itself closes one more gap, wherever it stands in the vector. -/
lemma level_succ_le_merge (hcap : group.card ≤ maxTrackedProducers) {core : SvsCore}
    (hnode : NodeOk group n core) {received : List StateEntry}
    (hok : ∀ e ∈ received, EntryOk group s e) {entry : StateEntry} (hent : entry ∈ received)
    (hne : entry.name ≠ n) (hlvl : level (entry.boot, entry.seq) k ≤ core.view entry.name) :
    level (entry.boot, entry.seq) (k + 1) ≤ (core.merge received).1.view entry.name := by
  obtain ⟨l₁, l₂, rfl⟩ := append_of_mem hent
  rw [SvsCore.merge, SvsCore.mergeInner, foldl_append, foldl_cons]
  -- in front of the entry the level is kept, behind it the next one
  apply foldl_mergeEntry_induction (motive := fun c =>
    level (entry.boot, entry.seq) (k + 1) ≤ c.view entry.name)
  · have hbef : NodeOk group n (l₁.foldl (mergeEntry true) (core, [])).1 ∧
        level (entry.boot, entry.seq) k ≤
          (l₁.foldl (mergeEntry true) (core, [])).1.view entry.name := by
      apply foldl_mergeEntry_induction (motive := fun c => NodeOk group n c ∧
        level (entry.boot, entry.seq) k ≤ c.view entry.name) ⟨hnode, hlvl⟩
      rintro r e he ⟨hr, hle⟩
      have heok := hok e (mem_append_left _ he)
      exact ⟨hr.mergeEntry heok.mem heok.bounded, hle.trans (view_le_mergeEntry r _ heok.bounded)⟩
    have heok := hok entry hent
    exact level_succ_le_mergeEntry (hbef.1.tracks hcap heok.mem hne) heok.bounded hbef.2
  · intro r e he hle
    have heok := hok e (mem_append_right _ (mem_cons_of_mem _ he))
    exact hle.trans (view_le_mergeEntry r _ heok.bounded)

lemma Settled.level_succ_le_exchange (h : Settled group top s)
    (hcap : group.card ≤ maxTrackedProducers) (hn : n ∈ group) (hp : p ∈ group)
    (hne : n ≠ p) (hlvl : level (top p) k ≤ (s.nodes n).view p) :
    level (top p) (k + 1) ≤ ((s.step (.exchange n p)).nodes n).view p := by
  have hnode : (s.step (.exchange n p)).nodes n =
      ((s.nodes n).merge (s.nodes p).stateEntries).1 := s.nodes_setNode_self n _
  have hent : (⟨p, (top p).1, (top p).2⟩ : StateEntry) ∈ (s.nodes p).stateEntries :=
    (mem_stateEntries (h.inv.node p hp).nodup).mpr (h.top p hp)
  rw [hnode]
  exact level_succ_le_merge hcap (h.inv.node n hn) (fun e he => h.inv.entryOk_of_mem hp he) hent
    hne.symm hlvl

variable {events : List Event}

lemma Settled.foldl (h : Settled group top s)
    (hadm : Run.Admits SvsNet.step (Guard group) s events) (hquiet : ∀ e ∈ events, e.Quiet)
    {known : WithBot (Lex (ℕ × ℕ))} (hknw : known ≤ (s.nodes n).view p) :
    Settled group top (events.foldl SvsNet.step s) ∧
      known ≤ ((events.foldl SvsNet.step s).nodes n).view p := by
  apply hadm.foldl_induction
    (motive := fun s' => Settled group top s' ∧ known ≤ (s'.nodes n).view p) ⟨h, hknw⟩
  rintro s' e he ⟨hs', hle⟩ hgrd
  have hq := hquiet e he
  exact ⟨hs'.step hgrd hq, hle.trans (view_le_step hs'.inv hgrd (hq.2 n) p)⟩

lemma Settled.level_succ_le_round (h : Settled group top s)
    (hcap : group.card ≤ maxTrackedProducers) (hroun : IsRound group events)
    (hadm : Run.Admits SvsNet.step (Guard group) s events) (hn : n ∈ group) (hp : p ∈ group)
    (hne : n ≠ p) (hlvl : level (top p) k ≤ (s.nodes n).view p) :
    level (top p) (k + 1) ≤ ((events.foldl SvsNet.step s).nodes n).view p := by
  obtain ⟨hquiet, hall⟩ := hroun
  obtain ⟨l₁, l₂, rfl⟩ := append_of_mem (hall n hn p hp hne)
  obtain ⟨hadm₁, hgrd, hadm₂⟩ := Run.admits_append.mp hadm
  rw [foldl_append, foldl_cons]
  obtain ⟨hs₁, hlvl₁⟩ :=
    h.foldl hadm₁ (fun e he => hquiet e (mem_append_left _ he)) hlvl
  have hexc := hs₁.level_succ_le_exchange hcap hn hp hne hlvl₁
  have hs₂ := hs₁.step hgrd (hquiet _ (by simp))
  exact (hs₂.foldl hadm₂ (fun e he => hquiet e (by simp [he])) hexc).2

/-- After `k` rounds all members are `k` gaps ahead. -/
lemma Settled.level_le_rounds (h : Settled group top s) (hcap : group.card ≤ maxTrackedProducers)
    {rounds : List (List Event)} (hrds : ∀ r ∈ rounds, IsRound group r)
    (hadm : Run.Admits SvsNet.step (Guard group) s rounds.flatten)
    (hlvl : ∀ n ∈ group, ∀ p ∈ group, n ≠ p → level (top p) k ≤ (s.nodes n).view p) :
    Settled group top (rounds.flatten.foldl SvsNet.step s) ∧
      ∀ n ∈ group, ∀ p ∈ group, n ≠ p → level (top p) (k + rounds.length) ≤
        ((rounds.flatten.foldl SvsNet.step s).nodes n).view p := by
  induction rounds generalizing s k with
  | nil => exact ⟨h, hlvl⟩
  | cons r rounds ih =>
    obtain ⟨hadm₁, hadm₂⟩ := Run.admits_append.mp hadm
    have hroun := hrds r (mem_cons_self ..)
    have hs : Settled group top (r.foldl SvsNet.step s) := by
      apply hadm₁.foldl_induction (motive := Settled group top) h
      intro s' e he hs' hgrd
      exact hs'.step hgrd (hroun.1 e he)
    have hnext := ih hs (fun r' hr' => hrds r' (mem_cons_of_mem _ hr')) hadm₂
      (fun n hn p hp hne => h.level_succ_le_round hcap hroun hadm₁ hn hp hne (hlvl n hn p hp hne))
    rw [flatten_cons, foldl_append, length_cons]
    have hlen : k + (rounds.length + 1) = k + 1 + rounds.length := by omega
    rw [hlen]
    exact hnext

lemma level_eq_of_le {top : ℕ × ℕ} (htop : top.2 ≤ u64Max) (hk : 2 ^ 48 ≤ k) :
    level top k = (toLex top : Lex (ℕ × ℕ)) := by
  obtain ⟨j, rfl⟩ : ∃ j, k = j + 1 := ⟨k - 1, by omega⟩
  have hmin : min top.2 ((j + 1) * maxGapSpan) = top.2 := by
    unfold u64Max at htop
    unfold maxGapSpan
    omega
  rw [level, hmin]

lemma Settled.get_eq (h : Settled group top s)
    (hlvl : ∀ n ∈ group, ∀ p ∈ group, n ≠ p → level (top p) k ≤ (s.nodes n).view p)
    (hk : 2 ^ 48 ≤ k) (hn : n ∈ group) (p : Name) :
    (s.nodes n).get p = if p ∈ group then some (top p) else none := by
  split_ifs with hp
  · by_cases hne : n = p
    · rw [hne]
      exact h.top p hp
    · have hge := hlvl n hn p hp hne
      rw [level_eq_of_le ((h.inv.node p hp).bounded p _ (h.top p hp)) hk,
        ← view_of_some (h.top p hp)] at hge
      rw [get_eq_of_view_eq (le_antisymm (h.inv.le n hn p) hge)]
      exact h.top p hp
  · rw [get_eq_none_iff]
    intro hmem
    exact hp ((h.inv.node n hn).known p hmem)

end Rounds

/-! ## Runs -/

lemma inv_start {group : Finset Name} {boot seq : Name → ℕ} (hseq : ∀ n, seq n ≤ u64Max) :
    Inv group (start boot seq) := by
  refine ⟨fun n hn => nodeOk_withBootSeq hn (boot n) (hseq n), ?_, ?_⟩
  · intro n _ p
    by_cases hp : p = n
    · rw [hp]
      exact le_refl _
    · have hnone : ((start boot seq).nodes n).view p = ⊥ := by
        apply view_of_none
        rw [start, get_withBootSeq, if_neg hp]
      rw [hnone]
      exact bot_le
  · intro received hrcv
    cases hrcv

/-- **State vectors of a group.** Take any run of a group that fits the table, in which nobody
publishes at the last sequence number. No entry is ever above what its producer has reached; the
entries of a node do not decrease unless it restarts; its own entry changes only when it publishes
or restarts; and when publications and restarts have stopped, `2 ^ 48` rounds make all vectors
equal. -/
theorem group_converges {group : Finset Name} (hcap : group.card ≤ maxTrackedProducers)
    {boot seq : Name → ℕ} (hseq : ∀ n, seq n ≤ u64Max) {s : SvsNet}
    (hreach : Run.Reach step (Guard group) (start boot seq) s) :
    (∀ n ∈ group, ∀ p ∈ group, (s.nodes n).view p ≤ (s.nodes p).view p) ∧
      (∀ events, Run.Admits step (Guard group) s events → ∀ n ∈ group,
        (∀ boot seq, .restart n boot seq ∉ events) → ∀ p,
          (s.nodes n).view p ≤ ((events.foldl step s).nodes n).view p) ∧
      (∀ events, Run.Admits step (Guard group) s events → ∀ n ∈ group, .advance n ∉ events →
        (∀ boot seq, .restart n boot seq ∉ events) →
          ((events.foldl step s).nodes n).get n = (s.nodes n).get n) ∧
      ∀ rounds : List (List Event), (∀ r ∈ rounds, IsRound group r) →
        Run.Admits step (Guard group) s rounds.flatten → 2 ^ 48 ≤ rounds.length →
          ∀ n ∈ group, ∀ m ∈ group, ∀ p,
            ((rounds.flatten.foldl step s).nodes n).get p =
              ((rounds.flatten.foldl step s).nodes m).get p := by
  have hinv : Inv group s := hreach.invariant _ (inv_start hseq) fun _ _ h he => h.step he
  refine ⟨fun n hn p _ => hinv.le n hn p, ?_, ?_, ?_⟩
  · intro events hadm n _ hrst p
    have hboth := hadm.foldl_induction
      (motive := fun s' => Inv group s' ∧ (s.nodes n).view p ≤ (s'.nodes n).view p)
      ⟨hinv, le_refl _⟩ (by
        rintro s' e he ⟨hs', hle⟩ hgrd
        refine ⟨hs'.step hgrd, hle.trans (view_le_step hs' hgrd ?_ p)⟩
        rintro boot seq rfl
        exact hrst boot seq he)
    exact hboth.2
  · intro events hadm n _ hadv hrst
    have hboth := hadm.foldl_induction
      (motive := fun s' => Inv group s' ∧ s'.own n = s.own n) ⟨hinv, rfl⟩ (by
        rintro s' e he ⟨hs', hsame⟩ hgrd
        refine ⟨hs'.step hgrd, (own_step hs' hgrd ?_ ?_).trans hsame⟩
        · rintro rfl
          exact hadv he
        · rintro boot seq rfl
          exact hrst boot seq he)
    exact get_eq_of_view_eq hboth.2
  · intro rounds hrds hadm hlen n hn m hm p
    obtain ⟨top, htop⟩ : ∃ top : Name → ℕ × ℕ, Settled group top s :=
      ⟨fun p => ((s.nodes p).get p).getD (0, 0), hinv, fun p hp => by
        obtain ⟨q, hq⟩ := (hinv.node p hp).self
        rw [hq]
        rfl⟩
    have hzero : ∀ n ∈ group, ∀ p ∈ group, n ≠ p →
        level (top p) 0 ≤ (s.nodes n).view p := fun _ _ _ _ _ => bot_le
    obtain ⟨hfin, hlvl⟩ := htop.level_le_rounds hcap hrds hadm hzero
    exact (hfin.get_eq hlvl (by omega) hn p).trans (hfin.get_eq hlvl (by omega) hm p).symm

/-! ## Two members, and one at its last sequence number -/

/-- The names `/a` and `/b`. -/
def nameA : Name := [.ofText "a"]

@[inherit_doc nameA]
def nameB : Name := [.ofText "b"]

def pair : SvsNet := start (fun _ => 0) fun _ => 0

/-- One round of the two members. -/
def exchanges : List Event := [.exchange nameA nameB, .exchange nameB nameA]

lemma admits_exchanges (k : ℕ) (s : SvsNet) :
    Run.Admits step (Guard {nameA, nameB}) s (List.replicate k exchanges).flatten := by
  induction k generalizing s with
  | zero => trivial
  | succ k ih => exact ⟨⟨by simp [May], nofun⟩, ⟨by simp [May], nofun⟩, ih _⟩

/-- `group_converges` for a run in which `/a` publishes and `/b` merges its vector: what `/b` knows
has grown, not above what `/a` has reached, its own entry stays, and `2 ^ 48` rounds make the two
vectors equal. -/
theorem group_converges_pair :
    let s := [Event.advance nameA, .exchange nameB nameA].foldl step pair
    (pair.nodes nameB).view nameA ≤ (s.nodes nameB).view nameA ∧
      (s.nodes nameB).view nameA ≤ (s.nodes nameA).view nameA ∧
      (s.nodes nameB).get nameB = (pair.nodes nameB).get nameB ∧
      ∀ k, 2 ^ 48 ≤ k → ∀ p,
        (((List.replicate k exchanges).flatten.foldl step s).nodes nameA).get p =
          (((List.replicate k exchanges).flatten.foldl step s).nodes nameB).get p := by
  have hadm : Run.Admits step (Guard {nameA, nameB}) pair
      [.advance nameA, .exchange nameB nameA] := by
    refine ⟨⟨by simp [May], ?_⟩, ⟨by simp [May], ?_⟩, trivial⟩
    · rintro n hn
      cases hn
      decide
    · rintro n hn
      cases hn
  have hstart : Run.Reach step (Guard {nameA, nameB}) pair pair := .refl
  obtain ⟨-, hgrow, hown, -⟩ := group_converges (by decide) (fun _ => Nat.zero_le _) hstart
  obtain ⟨hle, -, -, hequal⟩ :=
    group_converges (by decide) (fun _ => Nat.zero_le _) (hstart.foldl hadm)
  refine ⟨hgrow _ hadm nameB (by decide) (by simp) nameA, hle nameB (by decide) nameA (by decide),
    hown _ hadm nameB (by decide) (by decide) (by simp), fun k hk => ?_⟩
  refine hequal _ (fun r hr => ?_) (admits_exchanges k _) (by rwa [List.length_replicate])
    nameA (by decide) nameB (by decide)
  rw [List.eq_of_mem_replicate hr]
  exact ⟨by simp [exchanges, Event.Quiet], by decide⟩

lemma reach_seq (k : ℕ) (hk : k ≤ u64Max) :
    ∃ s, Run.Reach step (May {nameA}) pair s ∧ (s.nodes nameA).localName = nameA ∧
      (s.nodes nameA).get nameA = some (0, k) := by
  induction k with
  | zero => exact ⟨pair, .refl, rfl, by decide⟩
  | succ k ih =>
    obtain ⟨s, hrch, hname, hget⟩ := ih (by omega)
    refine ⟨s.step (.advance nameA), hrch.snoc (.advance nameA) (by simp [May]), ?_, ?_⟩
    · exact hname
    have hget' : (s.nodes nameA).get (s.nodes nameA).localName = some (0, k) := by
      rw [hname]
      exact hget
    have hmod : (k + 1) % 2 ^ 64 = k + 1 := by
      unfold u64Max at hk
      omega
    rw [step, nodes_setNode_self, get_advance _ hget', hname, if_pos rfl, hmod]

/-- **The last sequence number.** A member that publishes there starts again at zero, without a
restart, so its own entry decreases. -/
theorem sequence_wraps :
    ∃ s, Run.Reach step (May {nameA}) pair s ∧ May {nameA} s (.advance nameA) ∧
      (s.nodes nameA).get nameA = some (0, u64Max) ∧
      ((s.step (.advance nameA)).nodes nameA).get nameA = some (0, 0) ∧
      ¬ (s.nodes nameA).view nameA ≤ ((s.step (.advance nameA)).nodes nameA).view nameA := by
  obtain ⟨s, hrch, hname, hget⟩ := reach_seq u64Max (le_refl _)
  have hget' : (s.nodes nameA).get (s.nodes nameA).localName = some (0, u64Max) := by
    rw [hname]
    exact hget
  have haft : ((s.step (.advance nameA)).nodes nameA).get nameA = some (0, 0) := by
    have hmod : (u64Max + 1) % 2 ^ 64 = 0 := by decide
    rw [step, nodes_setNode_self, get_advance _ hget', hname, if_pos rfl, hmod]
  refine ⟨s, hrch, by simp [May], hget, haft, ?_⟩
  rw [view_of_some hget, view_of_some haft, WithBot.coe_le_coe, Prod.Lex.toLex_le_toLex]
  decide

end SvsNet

end NdnRs
