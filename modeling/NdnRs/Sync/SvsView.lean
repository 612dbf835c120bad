import NdnRs.Sync.SvsCore

/-!
# State Vector Sync, eager merging of one vector

The entries of a vector are ordered lexicographically by `(boot, seq)`. An eager merge moves an
entry up, never above what was received, and by at most one gap at a time.
-/

namespace NdnRs.SvsCore

open Prod.Lex

/-! ## Entries in order -/

/-- The entry for a producer, in lexicographic order. -/
def view (self : SvsCore) (p : Name) : WithBot (Lex (ℕ × ℕ)) :=
  match self.get p with
  | none => ⊥
  | some slot => (toLex slot : Lex (ℕ × ℕ))

variable {self : SvsCore} {p : Name} {slot : ℕ × ℕ} {entry : StateEntry}

lemma view_of_none (h : self.get p = none) : self.view p = ⊥ := by
  rw [view, h]

lemma view_of_some (h : self.get p = some slot) : self.view p = (toLex slot : Lex (ℕ × ℕ)) := by
  rw [view, h]

lemma get_eq_of_view_eq {other : SvsCore} (h : self.view p = other.view p) :
    self.get p = other.get p := by
  cases hs : self.get p with
  | none =>
    cases ho : other.get p with
    | none => rfl
    | some slot =>
      rw [view_of_none hs, view_of_some ho] at h
      exact absurd h.symm (WithBot.coe_ne_bot)
  | some slot =>
    cases ho : other.get p with
    | none =>
      rw [view_of_some hs, view_of_none ho] at h
      exact absurd h (WithBot.coe_ne_bot)
    | some slot' =>
      rw [view_of_some hs, view_of_some ho, WithBot.coe_inj] at h
      rw [toLex_inj.mp h]

/-! ## One slot -/

lemma le_mergeSlot (slot : ℕ × ℕ) (hmax : entry.seq ≤ u64Max) :
    toLex slot ≤ toLex (mergeSlot true slot entry).1 := by
  rw [toLex_le_toLex]
  rcases mergeSlot_cases true slot entry with ⟨hboot, -, h⟩ | ⟨hboot, -, h⟩ | ⟨-, hseq, h⟩ | ⟨-, h⟩
  · rw [h]
    exact .inl hboot
  · rw [h]
    exact .inl hboot
  · have hle : slot.2 ≤ clampGapHigh (slot.2 + 1) entry.seq := by
      rw [clampGapHigh_eq hmax]
      omega
    rw [h]
    simp only [if_true]
    exact .inr ⟨trivial, hle⟩
  · rw [h]
    exact .inr ⟨rfl, le_refl _⟩

variable {top : ℕ × ℕ} {k : ℕ} {s : SvsCore × List Gap}

lemma mergeSlot_le (hslot : toLex slot ≤ toLex top)
    (hent : toLex (entry.boot, entry.seq) ≤ toLex top) :
    toLex (mergeSlot true slot entry).1 ≤ toLex top := by
  rw [toLex_le_toLex] at hent ⊢
  rcases mergeSlot_cases true slot entry with ⟨-, -, h⟩ | ⟨-, hzero, h⟩ | ⟨hboot, -, h⟩ | ⟨-, h⟩
  · have hle := clampGapHigh_le 1 entry.seq
    rw [h]
    simp only [if_true]
    omega
  · rw [h]
    simp only
    omega
  · have hle := clampGapHigh_le (slot.2 + 1) entry.seq
    rw [h]
    simp only [if_true]
    omega
  · rw [h]
    exact toLex_le_toLex.mp hslot

lemma snd_mergeSlot_le {bound : ℕ} (hslot : slot.2 ≤ bound)
    (hent : entry.seq ≤ bound) : (mergeSlot true slot entry).1.2 ≤ bound := by
  rcases mergeSlot_cases true slot entry with ⟨-, -, h⟩ | ⟨-, -, h⟩ | ⟨-, -, h⟩ | ⟨-, h⟩
  · have hle := clampGapHigh_le 1 entry.seq
    rw [h]
    simp only [if_true]
    omega
  · rw [h]
    exact Nat.zero_le _
  · have hle := clampGapHigh_le (slot.2 + 1) entry.seq
    rw [h]
    simp only [if_true]
    omega
  · rw [h]
    exact hslot

/-- What is known of a producer at `top` after `k` rounds: its boot time, and `k` gaps. -/
def level (top : ℕ × ℕ) : ℕ → WithBot (Lex (ℕ × ℕ))
  | 0 => ⊥
  | k + 1 => (toLex (top.1, min top.2 ((k + 1) * maxGapSpan)) : Lex (ℕ × ℕ))

/-- One entry of the producer itself closes one more gap. -/
lemma level_succ_le_mergeSlot (hseq : entry.seq ≤ u64Max)
    (hlvl : k = 0 ∨ toLex (entry.boot, min entry.seq (k * maxGapSpan)) ≤ toLex slot) :
    toLex (entry.boot, min entry.seq ((k + 1) * maxGapSpan)) ≤
      toLex (mergeSlot true slot entry).1 := by
  rw [toLex_le_toLex] at hlvl ⊢
  simp only [maxGapSpan] at hlvl ⊢
  rcases mergeSlot_cases true slot entry with ⟨hboot, -, h⟩ | ⟨hboot, hzero, h⟩ |
    ⟨hboot, hnew, h⟩ | ⟨hold, h⟩
  · -- the boot time was not known, so no gap had been closed
    have hle : min entry.seq ((k + 1) * 2 ^ 16) ≤ clampGapHigh 1 entry.seq := by
      rw [clampGapHigh_eq hseq, maxGapSpan]
      omega
    rw [h]
    simp only [if_true]
    exact .inr ⟨trivial, hle⟩
  · have hle : min entry.seq ((k + 1) * 2 ^ 16) ≤ 0 := by omega
    rw [h]
    exact .inr ⟨rfl, hle⟩
  · have hle : min entry.seq ((k + 1) * 2 ^ 16) ≤ clampGapHigh (slot.2 + 1) entry.seq := by
      rw [clampGapHigh_eq hseq, maxGapSpan]
      omega
    rw [h]
    simp only [if_true]
    exact .inr ⟨hboot, hle⟩
  · rw [h]
    show entry.boot < slot.1 ∨ entry.boot = slot.1 ∧ _ ≤ slot.2
    omega

/-! ## One entry and one vector -/

lemma view_le_mergeEntry (s : SvsCore × List Gap) (p : Name) (hmax : entry.seq ≤ u64Max) :
    s.1.view p ≤ (mergeEntry true s entry).1.view p := by
  have hget := get_mergeEntry true s entry p
  by_cases h : p = entry.name ∧ s.1.Tracks entry.name
  · rw [if_pos h] at hget
    rw [view_of_some hget]
    cases hp : s.1.get p with
    | none =>
      rw [view_of_none hp]
      exact bot_le
    | some old =>
      rw [view_of_some hp, WithBot.coe_le_coe, ← h.1, slot, hp]
      exact le_mergeSlot old hmax
  · rw [if_neg h] at hget
    rw [view, view, hget]

lemma view_mergeEntry_le (hp : s.1.view p ≤ (toLex top : Lex (ℕ × ℕ)))
    (hent : p = entry.name → toLex (entry.boot, entry.seq) ≤ toLex top) :
    (mergeEntry true s entry).1.view p ≤ (toLex top : Lex (ℕ × ℕ)) := by
  have hget := get_mergeEntry true s entry p
  by_cases h : p = entry.name ∧ s.1.Tracks entry.name
  · rw [if_pos h] at hget
    rw [view_of_some hget, WithBot.coe_le_coe]
    apply mergeSlot_le _ (hent h.1)
    rw [← h.1]
    cases hslot : s.1.get p with
    | none =>
      rw [slot, hslot, toLex_le_toLex]
      simp only [Option.getD_none]
      omega
    | some old =>
      rw [view_of_some hslot, WithBot.coe_le_coe] at hp
      rw [slot, hslot]
      exact hp
  · rw [if_neg h] at hget
    rw [view, hget]
    exact hp

lemma level_succ_le_mergeEntry (htrk : s.1.Tracks entry.name) (hseq : entry.seq ≤ u64Max)
    (hlvl : level (entry.boot, entry.seq) k ≤ s.1.view entry.name) :
    level (entry.boot, entry.seq) (k + 1) ≤ (mergeEntry true s entry).1.view entry.name := by
  have hget := get_mergeEntry true s entry entry.name
  rw [if_pos ⟨rfl, htrk⟩] at hget
  rw [view_of_some hget, level, WithBot.coe_le_coe]
  apply level_succ_le_mergeSlot hseq
  cases k with
  | zero => exact .inl rfl
  | succ k =>
    right
    cases hslot : s.1.get entry.name with
    | none =>
      rw [view_of_none hslot, level] at hlvl
      exact absurd hlvl (WithBot.not_coe_le_bot _)
    | some old =>
      rw [view_of_some hslot, level, WithBot.coe_le_coe] at hlvl
      rw [slot, hslot]
      exact hlvl

end NdnRs.SvsCore
