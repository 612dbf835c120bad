import Mathlib.Algebra.GroupWithZero.Nat
import Mathlib.Data.List.Basic

/-!
# Association lists

A list of key and value pairs as a map: a lookup takes the first pair with the key, and an
insertion replaces the value there, or adds a pair at the end.
-/

universe u v

namespace Assoc

open List List.Perm

variable {K : Type u} {V : Type v} [DecidableEq K]

def insert (k : K) (v : V) : List (K × V) → List (K × V)
  | [] => [(k, v)]
  | (k', v') :: rest => if k = k' then (k', v) :: rest else (k', v') :: insert k v rest

def erase (k : K) (l : List (K × V)) : List (K × V) := l.filter fun x => x.1 ≠ k

/-- The keys are distinct. -/
abbrev Keyed (l : List (K × V)) : Prop := (l.map Prod.fst).Nodup

omit [DecidableEq K] in
@[simp] lemma keyed_nil : Keyed ([] : List (K × V)) := nodup_nil

omit [DecidableEq K] in
lemma keyed_cons {x : K × V} {l : List (K × V)} :
    Keyed (x :: l) ↔ x.1 ∉ l.map Prod.fst ∧ Keyed l := by
  rw [Keyed, map_cons, nodup_cons]

variable (k k' : K) {l : List (K × V)} {v : V} {r : List (K × V)} {x : K × V}

lemma keys_insert (v : V) (l : List (K × V)) :
    (insert k v l).map Prod.fst =
      if k ∈ l.map Prod.fst then l.map Prod.fst else l.map Prod.fst ++ [k] := by
  induction l with
  | nil => simp [insert]
  | cons x rest ih =>
    by_cases hx : k = x.1
    · simp [insert, hx]
    · rw [insert, if_neg hx, map_cons, ih]
      by_cases hk : k ∈ rest.map Prod.fst
      · simp [hk]
      · simp only [hk, if_false, map_cons, mem_cons, hx, or_false, cons_append]

lemma mem_keys_insert (v : V) (l : List (K × V)) :
    k' ∈ (insert k v l).map Prod.fst ↔ k' = k ∨ k' ∈ l.map Prod.fst := by
  rw [keys_insert]
  by_cases hk : k ∈ l.map Prod.fst
  · rw [if_pos hk]
    constructor
    · exact .inr
    · rintro (rfl | h)
      · exact hk
      · exact h
  · rw [if_neg hk, mem_append, mem_singleton, or_comm]

lemma nodup_keys_insert (v : V) (h : Keyed l) : Keyed (insert k v l) := by
  rw [Keyed, keys_insert]
  split_ifs with hk
  · exact h
  rw [nodup_append]
  refine ⟨h, by simp, ?_⟩
  intro a ha b hb
  rw [mem_singleton.mp hb]
  rintro rfl
  exact hk ha

lemma mem_insert {k : K} (h : x ∈ insert k v l) : x = (k, v) ∨ x ∈ l := by
  induction l with
  | nil => exact .inl (mem_singleton.mp h)
  | cons y rest ih =>
    rw [insert] at h
    split_ifs at h with hy
    · rcases mem_cons.mp h with rfl | h
      · exact .inl (by rw [hy])
      · exact .inr (mem_cons_of_mem _ h)
    · rcases mem_cons.mp h with rfl | h
      · exact .inr (mem_cons_self ..)
      · rcases ih h with rfl | h
        · exact .inl rfl
        · exact .inr (mem_cons_of_mem _ h)

lemma mem_erase_iff {k : K} : x ∈ erase k l ↔ x ∈ l ∧ x.1 ≠ k := by
  simp [erase]

lemma nodup_keys_erase (h : Keyed l) : Keyed (erase k l) :=
  h.sublist (filter_sublist.map Prod.fst)

lemma erase_of_not_mem {k : K} (h : k ∉ l.map Prod.fst) : erase k l = l := by
  apply filter_eq_self.mpr
  intro x hx
  exact decide_eq_true fun hk => h (mem_map.mpr ⟨x, hx, hk⟩)

lemma erase_append_cons {k : K} (h : Keyed (l ++ (k, v) :: r)) :
    erase k (l ++ (k, v) :: r) = l ++ r := by
  rw [Keyed, map_append, map_cons, nodup_append] at h
  obtain ⟨-, hr, hlr⟩ := h
  have hl : k ∉ l.map Prod.fst := fun hk => hlr k hk k (mem_cons_self ..) rfl
  have hcons : erase k ((k, v) :: r) = erase k r := by simp [erase]
  rw [erase, filter_append]
  exact congrArg₂ _ (erase_of_not_mem hl) (hcons.trans (erase_of_not_mem (nodup_cons.mp hr).1))

lemma keys_erase (l : List (K × V)) :
    (erase k l).map Prod.fst = (l.map Prod.fst).filter (· ≠ k) := by
  rw [filter_map]
  rfl

lemma length_erase_add (h : Keyed l) :
    (erase k l).length + (if k ∈ l.map Prod.fst then 1 else 0) = l.length := by
  split_ifs with hk
  · obtain ⟨⟨k', v⟩, hmem, rfl⟩ := mem_map.mp hk
    obtain ⟨before, after, rfl⟩ := append_of_mem hmem
    rw [erase_append_cons h]
    simp
    omega
  · rw [erase_of_not_mem hk]
    rfl

lemma insert_append_cons {k : K} {v' : V} (h : Keyed (l ++ (k, v) :: r)) :
    insert k v' (l ++ (k, v) :: r) = l ++ (k, v') :: r := by
  induction l with
  | nil => simp [insert]
  | cons x l ih =>
    rw [cons_append, keyed_cons] at h
    have hne : k ≠ x.1 := by
      rintro rfl
      exact h.1 (by simp)
    rw [cons_append, insert, if_neg hne, ih h.2, cons_append]

lemma insert_of_not_mem {k : K} (h : k ∉ l.map Prod.fst) : insert k v l = l ++ [(k, v)] := by
  induction l with
  | nil => rfl
  | cons x rest ih =>
    rw [map_cons, mem_cons, not_or] at h
    rw [insert, if_neg h.1, ih h.2, cons_append]

lemma insert_perm (v : V) (h : Keyed l) :
    (insert k v l).Perm ((k, v) :: erase k l) := by
  induction l with
  | nil => exact .refl _
  | cons x rest ih =>
    obtain ⟨kx, vx⟩ := x
    rw [keyed_cons] at h
    rw [insert]
    split_ifs with hk
    · subst hk
      have heras : erase k ((k, vx) :: rest) = rest := by
        rw [erase, filter_cons_of_neg (by simp)]
        refine filter_eq_self.mpr fun x hx => decide_eq_true ?_
        intro hx'
        exact h.1 (mem_map.mpr ⟨x, hx, hx'⟩)
      rw [heras]
    · have heras : erase k ((kx, vx) :: rest) = (kx, vx) :: erase k rest :=
        filter_cons_of_pos (by simp [Ne.symm hk])
      rw [heras]
      exact ((ih h.2).cons _).trans (swap ..)

lemma erase_insert (v : V) (l : List (K × V)) : erase k (insert k v l) = erase k l := by
  induction l with
  | nil => simp [insert, erase]
  | cons x rest ih =>
    rw [insert]
    split_ifs with hk
    · simp [erase, hk]
    · simp only [erase, filter_cons] at ih ⊢
      rw [ih]

lemma insert_insert (v v' : V) (l : List (K × V)) : insert k v' (insert k v l) = insert k v' l := by
  induction l with
  | nil => simp [insert]
  | cons x rest ih =>
    by_cases hk : k = x.1
    · simp [insert, hk]
    · simp [insert, hk, ih]

lemma length_insert (v : V) (l : List (K × V)) :
    (insert k v l).length = l.length + if k ∈ l.map Prod.fst then 0 else 1 := by
  have hlen := congrArg length (keys_insert k v l)
  rw [length_map] at hlen
  rw [hlen]
  split_ifs <;> simp

lemma length_insert_le (v : V) (l : List (K × V)) : (insert k v l).length ≤ l.length + 1 := by
  rw [length_insert]
  split_ifs <;> omega

lemma length_le_length_insert (v : V) (l : List (K × V)) : l.length ≤ (insert k v l).length := by
  rw [length_insert]
  exact Nat.le_add_right _ _

variable [BEq K] [LawfulBEq K] {p : K × V → Bool}

lemma lookup_cons (v : V) (rest : List (K × V)) :
    ((k, v) :: rest).lookup k' = if k' = k then some v else rest.lookup k' := by
  rw [List.lookup_cons]
  by_cases h : k' = k
  · simp [h]
  · rw [beq_false_of_ne h, if_neg h]

lemma lookup_insert (v : V) (l : List (K × V)) :
    (insert k v l).lookup k' = if k' = k then some v else l.lookup k' := by
  induction l with
  | nil => rw [insert, lookup_cons]
  | cons x rest ih =>
    obtain ⟨kx, vx⟩ := x
    by_cases hx : k = kx
    · subst hx
      rw [insert, if_pos rfl, lookup_cons, lookup_cons]
      split_ifs <;> rfl
    · rw [insert, if_neg hx, lookup_cons, lookup_cons, ih]
      by_cases h : k' = kx
      · have hne : k' ≠ k := fun hk => hx (hk ▸ h)
        rw [if_pos h, if_neg hne, if_pos h]
      · rw [if_neg h, if_neg h]

lemma lookup_erase (l : List (K × V)) :
    (erase k l).lookup k' = if k' = k then none else l.lookup k' := by
  induction l with
  | nil => simp [erase]
  | cons x rest ih =>
    obtain ⟨kx, vx⟩ := x
    by_cases hx : kx = k
    · have heras : erase k ((kx, vx) :: rest) = erase k rest := by simp [erase, hx]
      rw [heras, ih, lookup_cons]
      by_cases h : k' = k
      · rw [if_pos h, if_pos h]
      · have hne : k' ≠ kx := fun hk => h (hk.trans hx)
        rw [if_neg h, if_neg h, if_neg hne]
    · have heras : erase k ((kx, vx) :: rest) = (kx, vx) :: erase k rest := by simp [erase, hx]
      rw [heras, lookup_cons, lookup_cons, ih]
      by_cases h : k' = kx
      · have hne : k' ≠ k := fun hk => hx (h.symm.trans hk)
        rw [if_pos h, if_neg hne, if_pos h]
      · rw [if_neg h, if_neg h]

lemma exists_append_of_lookup {k : K} (h : l.lookup k = some v) :
    ∃ before after, l = before ++ (k, v) :: after := by
  induction l with
  | nil => cases h
  | cons x l ih =>
    obtain ⟨kx, vx⟩ := x
    rw [lookup_cons] at h
    split_ifs at h with hk
    · cases h
      exact ⟨[], l, by rw [hk]; rfl⟩
    · obtain ⟨before, after, rfl⟩ := ih h
      exact ⟨(kx, vx) :: before, after, rfl⟩

lemma insert_of_lookup {k : K} (h : l.lookup k = some v) : insert k v l = l := by
  induction l with
  | nil => cases h
  | cons x l ih =>
    rw [lookup_cons] at h
    rw [insert]
    split_ifs at h ⊢ with hk
    · cases h
      rfl
    · rw [ih h]

omit [DecidableEq K] in
lemma lookup_eq_none_iff {k : K} : l.lookup k = none ↔ k ∉ l.map Prod.fst := by
  simp only [List.lookup_eq_none_iff, List.mem_map, not_exists, not_and, bne_iff_ne, ne_eq]
  constructor
  all_goals
    intro h p hp hk
    exact h p hp hk.symm

/-- **Lookups and pairs.** With distinct keys, a lookup finds exactly the pairs of the list. -/
lemma lookup_eq_some_iff {k : K} (h : Keyed l) :
    l.lookup k = some v ↔ (k, v) ∈ l := by
  induction l with
  | nil => simp
  | cons x rest ih =>
    obtain ⟨kx, vx⟩ := x
    rw [keyed_cons] at h
    rw [lookup_cons, mem_cons, Prod.mk.injEq]
    by_cases hk : k = kx
    · subst hk
      have hnot : (k, v) ∉ rest := by
        intro hmem
        exact h.1 (mem_map.mpr ⟨_, hmem, rfl⟩)
      simp [hnot, eq_comm]
    · simp [hk, ih h.2]

section Count

variable {k : K} {old : V} (p : K × V → Bool)

omit [BEq K] [LawfulBEq K] in
lemma countP_insert_of_not_mem (h : k ∉ l.map Prod.fst) :
    (insert k v l).countP p = l.countP p + if p (k, v) then 1 else 0 := by
  rw [insert_of_not_mem h, countP_append, countP_singleton]

lemma countP_insert_of_lookup (hl : Keyed l) (h : l.lookup k = some old) :
    (insert k v l).countP p + (if p (k, old) then 1 else 0) =
      l.countP p + if p (k, v) then 1 else 0 := by
  obtain ⟨before, after, rfl⟩ := exists_append_of_lookup h
  rw [insert_append_cons hl, countP_append, countP_append, countP_cons, countP_cons]
  omega

lemma countP_erase_of_lookup (hl : Keyed l) (h : l.lookup k = some old) :
    (erase k l).countP p + (if p (k, old) then 1 else 0) = l.countP p := by
  obtain ⟨before, after, rfl⟩ := exists_append_of_lookup h
  rw [erase_append_cons hl, countP_append, countP_append, countP_cons]
  omega

end Count

section Sum

variable {k : K} {old : V} (size : V → ℕ)

def total (l : List (K × V)) : ℕ := (l.map fun x => size x.2).sum

omit [DecidableEq K] [BEq K] [LawfulBEq K] in
lemma total_cons (k : K) (v : V) (l : List (K × V)) :
    total size ((k, v) :: l) = size v + total size l := by
  simp [total]

omit [DecidableEq K] [BEq K] [LawfulBEq K] in
lemma total_le_of_sublist {l l' : List (K × V)} (h : l.Sublist l') :
    total size l ≤ total size l' := by
  induction h with
  | slnil => exact Nat.le_refl _
  | cons x _ ih =>
    rw [total_cons size x.1 x.2]
    omega
  | cons_cons x _ ih =>
    rw [total_cons size x.1 x.2, total_cons size x.1 x.2]
    omega

lemma total_erase_add_le (h : l.lookup k = some old) :
    total size (erase k l) + size old ≤ total size l := by
  induction l with
  | nil => cases h
  | cons x l ih =>
    obtain ⟨kx, vx⟩ := x
    rw [lookup_cons] at h
    by_cases hk : k = kx
    · rw [if_pos hk] at h
      cases h
      have hle : total size (erase k l) ≤ total size l :=
        total_le_of_sublist size filter_sublist
      have heras : erase k ((kx, old) :: l) = erase k l := by simp [erase, hk]
      rw [heras, total_cons]
      omega
    · rw [if_neg hk] at h
      have heras : erase k ((kx, vx) :: l) = (kx, vx) :: erase k l := by
        simp [erase, Ne.symm hk]
      have := ih h
      rw [heras, total_cons, total_cons]
      omega

lemma total_erase (hl : Keyed l) (h : l.lookup k = some old) :
    total size (erase k l) + size old = total size l := by
  obtain ⟨before, after, rfl⟩ := exists_append_of_lookup h
  rw [erase_append_cons hl]
  simp only [total, map_append, map_cons, sum_append, sum_cons]
  omega

lemma total_erase_add (k : K) (hl : Keyed l) :
    total size (erase k l) + ((l.lookup k).map size).getD 0 = total size l := by
  cases h : l.lookup k with
  | none =>
    rw [erase_of_not_mem (lookup_eq_none_iff.mp h)]
    rfl
  | some old => exact total_erase size hl h

omit [DecidableEq K] [BEq K] [LawfulBEq K] in
lemma total_one (l : List (K × V)) : total (fun _ => 1) l = l.length := by
  simp [total]

lemma total_insert (k : K) (v : V) (l : List (K × V)) :
    total size (insert k v l) + ((l.lookup k).map size).getD 0 = total size l + size v := by
  induction l with
  | nil => simp [insert, total]
  | cons x l ih =>
    obtain ⟨kx, vx⟩ := x
    rw [insert, lookup_cons]
    by_cases hk : k = kx
    · rw [if_pos hk, if_pos hk, total_cons, total_cons, Option.map_some, Option.getD_some]
      omega
    · rw [if_neg hk, if_neg hk, total_cons, total_cons]
      omega

end Sum

lemma lookup_filter {k : K}
    (h : l.lookup k = some v) (hp : p (k, v) = true) : (l.filter p).lookup k = some v := by
  induction l with
  | nil => cases h
  | cons x rest ih =>
    rw [lookup_cons] at h
    split_ifs at h with hk
    · cases h
      rw [hk] at hp ⊢
      rw [filter_cons_of_pos hp, lookup_cons, if_pos rfl]
    · rw [filter_cons]
      split_ifs with hpx
      · rw [lookup_cons, if_neg hk]
        exact ih h
      · exact ih h

lemma filter_erase_of_not {k : K} (hl : Keyed l) (h : l.lookup k = some v)
    (hp : p (k, v) = false) : (erase k l).filter p = l.filter p := by
  rw [erase, filter_filter]
  refine filter_congr fun x hx => ?_
  by_cases hk : x.1 = k
  · have hsame := (lookup_eq_some_iff hl).mpr (show (x.1, x.2) ∈ l from hx)
    rw [hk, h] at hsame
    have hx' : x = (k, v) := Prod.ext hk (Option.some.inj hsame).symm
    rw [hx', hp, Bool.false_and]
  · simp [hk]

omit [DecidableEq K] in
/-- Of pairs in any order, taking out the first few by their keys leaves the others. -/
lemma filter_not_mem_take_perm {sorted : List (K × V)} (h : sorted.Perm l) (hl : Keyed l) (m : ℕ) :
    (l.filter fun x => x.1 ∉ (sorted.take m).map Prod.fst).Perm (sorted.drop m) := by
  refine (h.symm.filter _).trans (of_eq ?_)
  have hnd : ((sorted.take m).map Prod.fst ++ (sorted.drop m).map Prod.fst).Nodup := by
    rw [← map_append, take_append_drop]
    exact (h.map Prod.fst).nodup_iff.mpr hl
  have htak : (sorted.take m).filter (fun x => x.1 ∉ (sorted.take m).map Prod.fst) = [] := by
    rw [filter_eq_nil_iff]
    intro x hx hout
    exact of_decide_eq_true hout (mem_map_of_mem hx)
  have hkept : (sorted.drop m).filter (fun x => x.1 ∉ (sorted.take m).map Prod.fst) =
      sorted.drop m := by
    rw [filter_eq_self]
    intro x hx
    refine decide_eq_true fun hmem => ?_
    exact (nodup_append.mp hnd).2.2 _ hmem _ (mem_map_of_mem hx) rfl
  calc sorted.filter (fun x => x.1 ∉ (sorted.take m).map Prod.fst)
      = (sorted.take m ++ sorted.drop m).filter
          (fun x => x.1 ∉ (sorted.take m).map Prod.fst) := by rw [take_append_drop]
    _ = sorted.drop m := by rw [filter_append, htak, hkept, nil_append]

end Assoc
