import NdnRs.Sync.SvsCore

/-!
# The gaps of a whole run (`ndn-svs-core/src/core.rs`)

What an eager node reports to its application, vector after vector: for each producer and boot time
every sequence number up to the tracked one, once.

## Main results

* `gaps_tile` — each number is reported once.
-/

namespace NdnRs

open List

/-- The ranges are `1..a`, `a+1..b` and so on up to `n`, and none is longer than a gap may be. -/
inductive Tiles : List (ℕ × ℕ) → ℕ → Prop
  | nil : Tiles [] 0
  | snoc {gaps : List (ℕ × ℕ)} {n high : ℕ} : Tiles gaps n → n < high → high ≤ n + maxGapSpan →
      Tiles (gaps ++ [(n + 1, high)]) high

lemma Tiles.clamp {gaps : List (ℕ × ℕ)} {n seq : ℕ} (h : Tiles gaps n) (hlt : n < seq)
    (hseq : seq ≤ u64Max) :
    Tiles (gaps ++ [(n + 1, clampGapHigh (n + 1) seq)]) (clampGapHigh (n + 1) seq) := by
  have hhigh := @clampGapHigh_eq (n + 1) seq hseq
  rw [maxGapSpan] at hhigh
  exact h.snoc (by omega) (by rw [maxGapSpan]; omega)

namespace SvsCore

/-- The node after some vectors, and everything that `merge` has returned. -/
def mergeAll (core : SvsCore) (vectors : List (List StateEntry)) : SvsCore × List Gap :=
  vectors.foldl (fun s v => ((s.1.merge v).1, s.2 ++ (s.1.merge v).2)) (core, [])

/-- A node with the gaps it has returned, each beside the entry that it was returned for. -/
abbrev Logged := SvsCore × List (StateEntry × Gap)

/-- One entry of a vector. -/
def logEntry (s : Logged) (e : StateEntry) : Logged :=
  let r := mergeEntry true (s.1, []) e
  (r.1, s.2 ++ r.2.map (e, ·))

def gapsOf (log : List (StateEntry × Gap)) (p : Name) (boot : ℕ) : List (ℕ × ℕ) :=
  (log.filter fun x => x.1.name = p ∧ x.1.boot = boot).map fun x => x.2.2

lemma mergeEntry_append (core : SvsCore) (gaps : List Gap) (e : StateEntry) :
    mergeEntry true (core, gaps) e =
      ((mergeEntry true (core, []) e).1, gaps ++ (mergeEntry true (core, []) e).2) := by
  unfold mergeEntry
  split_ifs <;> simp

lemma foldl_mergeEntry (v : List StateEntry) (core : SvsCore) (gaps : List Gap) :
    v.foldl (mergeEntry true) (core, gaps) = ((core.merge v).1, gaps ++ (core.merge v).2) := by
  unfold merge mergeInner
  induction v generalizing core gaps with
  | nil => simp
  | cons e v ih => rw [foldl_cons, foldl_cons, mergeEntry_append, ih, ih _ (mergeEntry ..).2,
      append_assoc]

lemma foldl_logEntry (es : List StateEntry) (s : Logged) :
    es.foldl (mergeEntry true) (s.1, s.2.map Prod.snd) =
      ((es.foldl logEntry s).1, (es.foldl logEntry s).2.map Prod.snd) := by
  induction es generalizing s with
  | nil => rfl
  | cons e es ih =>
    rw [foldl_cons, foldl_cons, ← ih, mergeEntry_append]
    simp [logEntry, Function.comp_def]

/-- The log says what was returned. -/
lemma mergeAll_eq (core : SvsCore) (vectors : List (List StateEntry)) :
    mergeAll core vectors = ((vectors.flatten.foldl logEntry (core, [])).1,
      (vectors.flatten.foldl logEntry (core, [])).2.map Prod.snd) := by
  rw [← foldl_logEntry, foldl_flatten]
  simp only [mergeAll, ← foldl_mergeEntry]
  rfl

/-- What holds along a run: the gaps of a peer and a boot time end at the number that is tracked for
them; there are none of a boot time still to come. -/
def Exact (s : Logged) : Prop :=
  (∀ p ≠ s.1.localName, ∀ boot, ∃ n, Tiles (gapsOf s.2 p boot) n ∧
    ((s.1.slot p).1 = boot → n = (s.1.slot p).2) ∧ ((s.1.slot p).1 < boot → n = 0)) ∧
  ∀ x ∈ s.2, x.1.name ≠ s.1.localName ∧ x.2.1 = x.1.name.display

lemma Exact.logEntry {s : Logged} {e : StateEntry} (h : Exact s) (he : e.seq ≤ u64Max) :
    Exact (logEntry s e) := by
  by_cases htrk : s.1.Tracks e.name
  · obtain ⟨slot, gap, hms⟩ : ∃ slot gap, mergeSlot true (s.1.slot e.name) e = (slot, gap) :=
      ⟨_, _, rfl⟩
    have hent : mergeEntry true (s.1, []) e =
        (s.1.set e.name slot, gap.toList.map (e.name.display, ·)) := by
      rw [mergeEntry, if_pos htrk, hms]
      rfl
    refine ⟨fun p hp boot => ?_, fun x hx => ?_⟩
    · obtain ⟨n, hn, hcur, hnew⟩ := h.1 p (by simpa [SvsCore.logEntry] using hp) boot
      have hslot : (SvsCore.logEntry s e).1.slot p = if p = e.name then slot else s.1.slot p := by
        simp only [SvsCore.logEntry, hent, SvsCore.slot, get_set]
        split_ifs <;> rfl
      have hgaps : gapsOf (SvsCore.logEntry s e).2 p boot =
          gapsOf s.2 p boot ++ if e.name = p ∧ e.boot = boot then gap.toList else [] := by
        cases gap <;> simp [gapsOf, SvsCore.logEntry, hent, filter_append, filter_cons]
        split_ifs <;> rfl
      rw [hslot, hgaps]
      by_cases hname : e.name = p
      · subst hname
        rw [if_pos rfl]
        rcases mergeSlot_cases true (s.1.slot e.name) e with
          ⟨hlt, hseq, hnext⟩ | ⟨hlt, -, hnext⟩ | ⟨heq, hseq, hnext⟩ | ⟨-, hnext⟩
        all_goals
          rw [hms, Prod.mk.injEq] at hnext
          obtain ⟨rfl, rfl⟩ := hnext
          by_cases hboot : e.boot = boot
        -- a newer boot time
        · obtain rfl := hnew (hboot ▸ hlt)
          exact ⟨_, by simpa [hboot] using hn.clamp hseq he, fun _ => rfl,
            fun h => absurd hboot h.ne⟩
        · exact ⟨n, by simpa [hboot] using hn, fun h => absurd h hboot, fun h => hnew (hlt.trans h)⟩
        · exact ⟨n, by simpa [hboot] using hn, fun _ => hnew (hboot ▸ hlt),
            fun h => hnew (hlt.trans h)⟩
        · exact ⟨n, by simpa [hboot] using hn, fun h => absurd h hboot, fun h => hnew (hlt.trans h)⟩
        -- more of the tracked one
        · obtain rfl := hcur (heq ▸ hboot)
          exact ⟨_, by simpa [hboot] using hn.clamp hseq he, fun _ => rfl,
            fun h => absurd (heq ▸ hboot) h.ne⟩
        · exact ⟨n, by simpa [hboot] using hn, fun h => absurd (heq.trans h) hboot, hnew⟩
        · exact ⟨n, by simpa using hn, hcur, hnew⟩
        · exact ⟨n, by simpa using hn, hcur, hnew⟩
      · rw [if_neg (Ne.symm hname), if_neg fun h => hname h.1, append_nil]
        exact ⟨n, hn, hcur, hnew⟩
    · rw [SvsCore.logEntry, hent] at hx ⊢
      rcases mem_append.mp hx with hx | hx
      · exact h.2 x hx
      · obtain ⟨g, hg, rfl⟩ := mem_map.mp hx
        obtain ⟨r, -, rfl⟩ := mem_map.mp hg
        exact ⟨htrk.1, rfl⟩
  · have hent : mergeEntry true (s.1, []) e = (s.1, []) := if_neg htrk
    simpa [SvsCore.logEntry, hent] using h

/-- **The gaps of a run.** Those of a peer and a boot time are, in order, `1..a`, `a+1..b` and so on
up to the sequence number that is tracked for them; each is returned under the name of its peer, and
none is for the node itself. -/
theorem gaps_tile (localName : Name) (localBoot localSeq : ℕ) {vectors : List (List StateEntry)}
    (hseq : ∀ v ∈ vectors, ∀ e ∈ v, e.seq ≤ u64Max) :
    let s := vectors.flatten.foldl logEntry (withBootSeq localName localBoot localSeq, [])
    mergeAll (withBootSeq localName localBoot localSeq) vectors = (s.1, s.2.map Prod.snd) ∧
      (∀ p ≠ localName, ∀ boot, ∃ n, Tiles (gapsOf s.2 p boot) n ∧
        ((s.1.slot p).1 = boot → n = (s.1.slot p).2)) ∧
      ∀ x ∈ s.2, x.1.name ≠ localName ∧ x.2.1 = x.1.name.display ∧
        x.2.1 ≠ localName.display := by
  intro s
  obtain ⟨hexact, hloc⟩ : Exact s ∧ s.1.localName = localName := by
    refine foldlRecOn _ logEntry (motive := fun s => Exact s ∧ s.1.localName = localName)
      ⟨⟨fun p hp boot => ⟨0, .nil, fun _ => ?_, fun _ => rfl⟩, by simp⟩, rfl⟩ fun s hs e he => ?_
    · rw [slot, get_withBootSeq, if_neg (show p ≠ localName from hp)]
      rfl
    · obtain ⟨v, hv, he⟩ := mem_flatten.mp he
      exact ⟨hs.1.logEntry (hseq v hv e he), (localName_mergeEntry ..).trans hs.2⟩
  refine ⟨mergeAll_eq .., fun p hp boot => ?_, fun x hx => ?_⟩
  · obtain ⟨n, hn, hcur, -⟩ := hexact.1 p (hloc.symm ▸ hp) boot
    exact ⟨n, hn, hcur⟩
  · obtain ⟨hpeer, hlabel⟩ := hexact.2 x hx
    rw [hloc] at hpeer
    exact ⟨hpeer, hlabel, fun hown => hpeer (Name.eq_of_display_eq (hlabel.symm.trans hown))⟩

namespace Sample

def node : Name := [.generic [1]]

def peer : Name := [.generic [2]]

/-- The peer publishes, restarts and publishes again; then its first boot time is heard of again. -/
def vectors : List (List StateEntry) :=
  [[⟨peer, 0, 2⟩], [⟨peer, 7, 3⟩, ⟨peer, 0, 5⟩], [⟨peer, 7, 4⟩]]

end Sample

open Sample in
/-- `gaps_tile` for a peer that restarts: all that is returned has its name, and the numbers of the
second boot time come in two gaps. -/
theorem gaps_tile_restart :
    let s := vectors.flatten.foldl logEntry (withBootSeq node 0 0, [])
    (mergeAll (withBootSeq node 0 0) vectors).2.map Prod.snd =
      [(1, 2), (1, 3), (4, 4)] ∧
    (∀ gap ∈ (mergeAll (withBootSeq node 0 0) vectors).2,
      gap.1 = peer.display) ∧
    gapsOf s.2 peer 7 = [(1, 3), (4, 4)] ∧ Tiles (gapsOf s.2 peer 7) 4 := by
  intro s
  obtain ⟨hall, htile, hlabel⟩ := @gaps_tile node 0 0 vectors (by decide)
  obtain ⟨n, hn, hcur⟩ := htile peer (by decide) 7
  obtain rfl : n = 4 := (hcur (by decide)).trans (by decide)
  have hpeer : ∀ x ∈ s.2, x.1.name = peer := by decide
  refine ⟨by decide, fun gap hgap => ?_, by decide, hn⟩
  rw [hall] at hgap
  obtain ⟨x, hx, rfl⟩ := mem_map.mp hgap
  rw [(hlabel x hx).2.1, hpeer x hx]

end SvsCore

end NdnRs
