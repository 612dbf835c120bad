import Mathlib.Data.Finset.Card

/-!
# Chunks and slots

A list is cut into chunks of one size, the last of which may be short; the chunks are put back
together in slots, in any order.
-/

namespace NdnRs.Chunks

open List

variable {α : Type*}

/-! ## Chunks -/

def chunk (n : ℕ) (l : List α) (i : ℕ) : List α := (l.drop (i * n)).take n

/-- The number of chunks of at most `n` elements in a list of the given length. -/
def count (n len : ℕ) : ℕ := (len + n - 1) / n

lemma length_chunk_le (n : ℕ) (l : List α) (i : ℕ) : (chunk n l i).length ≤ l.length := by
  rw [chunk, length_take, length_drop]
  omega

lemma flatMap_chunk_range (n : ℕ) (l : List α) (k : ℕ) :
    (range k).flatMap (chunk n l) = l.take (k * n) := by
  induction k with
  | zero => simp
  | succ k ih =>
    rw [range_succ, flatMap_append, ih, Nat.succ_mul, take_add]
    simp [chunk]

variable {n : ℕ}

lemma le_count_mul (hn : 0 < n) (len : ℕ) : len ≤ count n len * n := by
  have hmod := Nat.mod_lt (len + n - 1) hn
  have hdiv := Nat.div_add_mod (len + n - 1) n
  rw [count, Nat.mul_comm]
  omega

/-- **The chunks one after another are the list.** -/
lemma flatMap_chunk (hn : 0 < n) (l : List α) :
    (range (count n l.length)).flatMap (chunk n l) = l := by
  rw [flatMap_chunk_range, take_of_length_le (le_count_mul hn l.length)]

lemma count_le (hn : 0 < n) (len : ℕ) : count n len ≤ len := by
  rw [count, Nat.div_le_iff_le_mul_add_pred hn]
  have := Nat.le_mul_of_pos_left len hn
  omega

/-! ## Slots -/

/-- `n` slots for pieces, filled at the indices held. -/
def slots (n : ℕ) (piece : ℕ → α) (held : Finset ℕ) : List (Option α) :=
  (List.range n).map fun i => if i ∈ held then some (piece i) else none

variable {piece : ℕ → α} {held : Finset ℕ} {i : ℕ}

@[simp] lemma length_slots : (slots n piece held).length = n := by simp [slots]

lemma slots_empty : slots n piece ∅ = replicate n none := by simp [slots]

lemma getElem?_slots (hi : i < n) :
    (slots n piece held)[i]? = some (if i ∈ held then some (piece i) else none) := by
  simp [slots, hi]

/-- **Filling a slot adds its index.** -/
lemma set_slots : (slots n piece held).set i (some (piece i)) = slots n piece (insert i held) := by
  apply ext_getElem?
  intro j
  rw [List.getElem?_set]
  by_cases hij : i = j
  · subst hij
    by_cases hi : i < n
    · simp [hi, getElem?_slots hi, -getElem?_pos]
    · simp [hi]
  · rw [if_neg hij]
    by_cases hj : j < n
    · simp [getElem?_slots hj, Ne.symm hij, -getElem?_pos]
    · simp [slots, hj]

lemma countP_slots (hheld : held ⊆ Finset.range n) :
    (slots n piece held).countP Option.isSome = held.card := by
  have hflt : (Finset.range n).filter (· ∈ held) = held := by
    ext i
    simp only [Finset.mem_filter, and_iff_right_iff_imp]
    exact fun hi => hheld hi
  have hcard : ((range n).filter fun i => decide (i ∈ held)).length =
      ((Finset.range n).filter (· ∈ held)).card := rfl
  rw [slots, countP_map, countP_eq_length_filter, ← hflt, ← hcard, hflt]
  congr 1
  refine filter_congr fun i _ => ?_
  by_cases hi : i ∈ held <;> simp [hi]

lemma map_getD_slots (dflt : α) :
    (slots n piece (Finset.range n)).map (fun s => s.getD dflt) = (range n).map piece := by
  rw [slots, map_map]
  refine map_congr_left fun i hi => ?_
  simp [mem_range.mp hi]

end NdnRs.Chunks
