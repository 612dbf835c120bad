import Mathlib.Algebra.BigOperators.Group.List.Basic
import NdnRs.Lib.Assoc

/-!
# Maps in the order of last use

A finite map that remembers in which order its keys were last used: the pairs are in a list, the
most recently used first.
-/

universe u v

/-- A map with its keys in the order of their last use, the most recent first. -/
@[ext]
structure Lru (K : Type u) (V : Type v) where
  entries : List (K × V)
  distinct : (entries.map Prod.fst).Nodup

namespace Lru

open Assoc

variable {K : Type u} {V : Type v}

def empty : Lru K V := ⟨[], List.nodup_nil⟩

/-- Takes out the pair that was not used for the longest time. -/
def popLru (c : Lru K V) : Option ((K × V) × Lru K V) :=
  match c.entries.getLast? with
  | none => none
  | some last => some (last, ⟨c.entries.dropLast,
      c.distinct.sublist ((List.dropLast_sublist _).map _)⟩)

def weight (w : V → ℕ) (l : List (K × V)) : ℕ := (l.map fun x => w x.2).sum

variable (w : V → ℕ) {v : V}

@[simp] lemma weight_nil : weight w ([] : List (K × V)) = 0 := rfl

@[simp] lemma weight_cons (x : K × V) (l : List (K × V)) :
    weight w (x :: l) = w x.2 + weight w l := by
  rfl

@[simp] lemma weight_append (l r : List (K × V)) : weight w (l ++ r) = weight w l + weight w r := by
  rw [weight, List.map_append, List.sum_append]
  rfl

lemma length_eq_weight (l : List (K × V)) : l.length = weight (fun _ => 1) l := by
  induction l with
  | nil => rfl
  | cons x l ih => rw [List.length_cons, weight_cons, ih, Nat.add_comm]

variable [DecidableEq K] (c : Lru K V) (k k' : K)

def peek (c : Lru K V) (k : K) : Option V := c.entries.lookup k

def pop (c : Lru K V) (k : K) : Lru K V :=
  ⟨Assoc.erase k c.entries, c.distinct.sublist (List.filter_sublist.map _)⟩

/-- Sets the value of a key, which becomes the most recently used. -/
def put (c : Lru K V) (k : K) (v : V) : Lru K V :=
  ⟨(k, v) :: Assoc.erase k c.entries, by
    rw [List.map_cons, List.nodup_cons]
    refine ⟨fun hmem => ?_, (c.pop k).distinct⟩
    obtain ⟨x, hx, hk⟩ := List.mem_map.mp hmem
    exact of_decide_eq_true (List.mem_filter.mp hx).2 hk⟩

def touch (c : Lru K V) (k : K) : Lru K V :=
  match c.peek k with
  | none => c
  | some v => c.put k v

lemma entries_pop : (c.pop k).entries = erase k c.entries := rfl

lemma entries_put (v : V) : (c.put k v).entries = (k, v) :: erase k c.entries := rfl

lemma peek_pop : (c.pop k).peek k' = if k' = k then none else c.peek k' :=
  lookup_erase k k' c.entries

lemma peek_put (v : V) : (c.put k v).peek k' = if k' = k then some v else c.peek k' := by
  rw [peek, put, lookup_cons, lookup_erase]
  split_ifs <;> rfl

@[simp] lemma peek_touch : (c.touch k).peek k' = c.peek k' := by
  rw [touch]
  cases hk : c.peek k with
  | none => rfl
  | some v =>
    simp only [peek_put]
    split_ifs with h
    · rw [h, hk]
    · rfl

lemma peek_eq_some_iff {k : K} : c.peek k = some v ↔ (k, v) ∈ c.entries :=
  lookup_eq_some_iff c.distinct

lemma peek_eq_none_iff {k : K} : c.peek k = none ↔ k ∉ c.entries.map Prod.fst :=
  lookup_eq_none_iff

lemma exists_entries_eq {k : K} (h : c.peek k = some v) :
    ∃ newer older, c.entries = newer ++ (k, v) :: older :=
  exists_append_of_lookup h

lemma weight_pop {k : K} (h : c.peek k = some v) (w : V → ℕ) :
    weight w (c.pop k).entries + w v = weight w c.entries := by
  obtain ⟨before, after, heq⟩ := c.exists_entries_eq h
  have hnd := c.distinct
  rw [heq] at hnd
  have heras : (c.pop k).entries = before ++ after := by
    rw [entries_pop, heq, erase_append_cons hnd]
  have hcons : weight w ((k, v) :: after) = w v + weight w after := weight_cons w (k, v) after
  rw [heras, heq, weight_append, weight_append, hcons]
  omega

lemma entries_put_of_absent {k : K} (h : c.peek k = none) (v : V) :
    (c.put k v).entries = (k, v) :: c.entries := by
  rw [entries_put, erase_of_not_mem (c.peek_eq_none_iff.mp h)]

lemma weight_touch (w : V → ℕ) : weight w (c.touch k).entries = weight w c.entries := by
  rw [touch]
  cases h : c.peek k with
  | none => rfl
  | some v =>
    rw [← c.weight_pop h w]
    exact (weight_cons w (k, v) _).trans (Nat.add_comm _ _)

lemma popLru_of_snoc {c : Lru K V} {l : List (K × V)} {x : K × V} (h : c.entries = l ++ [x]) :
    c.popLru = some (x, c.pop x.1) ∧ (c.pop x.1).entries = l ∧ c.peek x.1 = some x.2 := by
  have hnd := c.distinct
  rw [h] at hnd
  have hpop : (c.pop x.1).entries = l := by
    rw [entries_pop, h, erase_append_cons (r := []) hnd, List.append_nil]
  have hlast : c.entries.getLast? = some x := by rw [h, List.getLast?_concat]
  refine ⟨?_, hpop, c.peek_eq_some_iff.mpr (by simp [h])⟩
  rw [popLru, hlast]
  simp only [Option.some.injEq, Prod.mk.injEq, true_and]
  refine Lru.ext ?_
  show c.entries.dropLast = (c.pop x.1).entries
  rw [hpop, h, List.dropLast_concat]

omit [DecidableEq K] in
lemma popLru_of_nil {c : Lru K V} (h : c.entries = []) : c.popLru = none := by
  have hlast : c.entries.getLast? = none := by rw [h, List.getLast?_nil]
  rw [popLru, hlast]

end Lru
