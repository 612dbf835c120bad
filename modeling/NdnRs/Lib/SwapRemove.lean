import Mathlib.Tactic

/-!
# Removing from a vector without keeping its order

An element is removed by moving the last one into its place. Both loops that use it are here: the
removal of several positions, from the back, and the one that drains the elements with a property.
-/

namespace SwapRemove

open List

open scoped List

universe u

variable {α : Type u}

/-- Removes the element at position `i`; the last one takes its place. -/
def swapRemove (l : List α) (i : ℕ) : List α :=
  match l.getLast? with
  | none => l
  | some x => (l.set i x).dropLast

variable {l : List α} {β : Type*} {n : ℕ} (p : α → Bool) (fuel : ℕ) {i : ℕ} {l' : List α} {a : α}

lemma cons_swapRemove_perm (h : i < l.length) : (l[i] :: swapRemove l i).Perm l := by
  rcases eq_nil_or_concat l with rfl | ⟨front, x, rfl⟩
  · simp at h
  simp only [concat_eq_append] at h ⊢
  rw [length_append, length_singleton] at h
  have hlast : (front ++ [x]).getLast? = some x := by simp
  rw [swapRemove, hlast]
  by_cases hi : i < front.length
  · have hset : ((front ++ [x]).set i x).dropLast = front.set i x := by
      rw [set_append_left _ _ hi, dropLast_concat]
    simp only [hset, getElem_append_left hi]
    calc front[i] :: front.set i x = front[i] :: (front.take i ++ x :: front.drop (i + 1)) := by
          rw [set_eq_take_append_cons_drop, if_pos hi]
      _ ~ front[i] :: x :: (front.take i ++ front.drop (i + 1)) :=
          (perm_middle).cons _
      _ ~ x :: front[i] :: (front.take i ++ front.drop (i + 1)) := .swap ..
      _ ~ x :: (front.take i ++ front[i] :: front.drop (i + 1)) :=
          (perm_middle).symm.cons _
      _ = x :: front := by rw [← drop_eq_getElem_cons hi, take_append_drop]
      _ ~ front ++ [x] := (perm_append_singleton x front).symm
  · have hi' : i = front.length := by omega
    subst hi'
    simpa using (perm_append_singleton x front).symm

lemma subperm_map (f : α → β) (h : l <+~ l') : l.map f <+~ l'.map f := by
  obtain ⟨m, hperm, hsub⟩ := h
  exact ⟨m.map f, hperm.map f, hsub.map f⟩

lemma swapRemove_subperm (l : List α) (i : ℕ) : swapRemove l i <+~ l := by
  by_cases hi : i < l.length
  · exact (sublist_cons_self _ _).subperm.trans (cons_swapRemove_perm hi).subperm
  unfold swapRemove
  cases l.getLast? with
  | none => exact .refl l
  | some x =>
    have hset : l.set i x = l := set_eq_of_length_le (Nat.le_of_not_lt hi)
    simp only [hset]
    exact (dropLast_sublist l).subperm

lemma foldl_swapRemove_subperm (l : List α) (is : List ℕ) : is.foldl swapRemove l <+~ l :=
  foldlRecOn is swapRemove (.refl l) fun l' h i _ => (swapRemove_subperm l' i).trans h

lemma length_swapRemove (h : i < l.length) : (swapRemove l i).length + 1 = l.length := by
  have := (cons_swapRemove_perm h).length_eq
  rwa [length_cons] at this

lemma take_swapRemove (h : i < l.length) : (swapRemove l i).take i = l.take i := by
  unfold swapRemove
  cases hlast : l.getLast? with
  | none => rfl
  | some x =>
    simp only
    rw [dropLast_eq_take, take_take, length_set, take_set_of_le]
    · congr 1
      omega
    · omega

/-! ## Removing several positions -/

lemma swapRemove_map (f : α → β) (l : List α) (i : ℕ) :
    swapRemove (l.map f) i = (swapRemove l i).map f := by
  unfold swapRemove
  rw [getLast?_map]
  cases l.getLast? with
  | none => rfl
  | some x => simp [map_dropLast, map_set]

lemma foldl_swapRemove_map (f : α → β) (l : List α) (is : List ℕ) :
    is.foldl swapRemove (l.map f) = (is.foldl swapRemove l).map f := by
  induction is generalizing l with
  | nil => rfl
  | cons i is ih => rw [foldl_cons, foldl_cons, swapRemove_map, ih]

/-- The positions below `n` of the elements with `p`. -/
def positions (p : α → Bool) (l : List α) (n : ℕ) : List ℕ :=
  (List.range n).filter fun i => (l[i]?.map p).getD false

lemma positions_succ (h : n < l.length) :
    positions p l (n + 1) = positions p l n ++ if p l[n] then [n] else [] := by
  rw [positions, range_succ, filter_append, positions]
  simp [filter_cons, getElem?_eq_getElem h]

/-- The positions below `n` depend on the first `n` elements only. -/
lemma positions_congr (h : l'.take n = l.take n) : positions p l' n = positions p l n := by
  refine filter_congr fun i hi => ?_
  have hi' : i < n := mem_range.mp hi
  rw [← getElem?_take_of_lt hi', h, getElem?_take_of_lt hi']

lemma drop_swapRemove_perm (h : n < l.length) : (swapRemove l n).drop n ~ l.drop (n + 1) := by
  have hperm : l[n] :: ((swapRemove l n).take n ++ (swapRemove l n).drop n) ~
      l.take n ++ l[n] :: l.drop (n + 1) := by
    rw [take_append_drop, ← drop_eq_getElem_cons h, take_append_drop]
    exact cons_swapRemove_perm h
  rw [take_swapRemove h] at hperm
  exact (perm_append_left_iff _).mp ((hperm.trans perm_middle).cons_inv)

/-- Removing the positions below `n`, from the back. -/
lemma foldl_positions_perm (h : n ≤ l.length) :
    (positions p l n).reverse.foldl swapRemove l ~
      (l.take n).filter (fun x => !p x) ++ l.drop n := by
  induction n generalizing l with
  | zero => simp [positions]
  | succ n ih =>
    rw [positions_succ p h, take_add_one, getElem?_eq_getElem h, filter_append]
    by_cases hp : p l[n] = true
    · have hlen := length_swapRemove h
      have hrest := ih (l := swapRemove l n) (by omega)
      rw [positions_congr p (take_swapRemove h), take_swapRemove h] at hrest
      simpa [hp] using hrest.trans ((drop_swapRemove_perm h).append_left _)
    · have hrest := ih (l := l) (by omega)
      simpa [hp] using hrest

/-- **Removing the elements with a property.** Their positions removed from the back leave the
others, in some order. -/
theorem foldl_positions_length_perm (l : List α) :
    (positions p l l.length).reverse.foldl swapRemove l ~ l.filter fun x => !p x := by
  have hperm := foldl_positions_perm p (le_refl l.length)
  rwa [take_length, drop_length, append_nil] at hperm

/-! ## Draining -/

/-- The loop of `drain`: positions before `i` are done. -/
def drainFrom (p : α → Bool) : ℕ → ℕ → List α → List α → List α × List α
  | 0, _, l, taken => (taken, l)
  | fuel + 1, i, l, taken =>
    match l[i]? with
    | none => (taken, l)
    | some x =>
      if p x then drainFrom p fuel i (swapRemove l i) (taken ++ [x])
      else drainFrom p fuel (i + 1) l taken

/-- Takes the elements with `p` out of the list. -/
def drain (p : α → Bool) (l : List α) : List α × List α := drainFrom p l.length 0 l []

lemma drainFrom_perm (i : ℕ) (l taken : List α) :
    ((drainFrom p fuel i l taken).1 ++ (drainFrom p fuel i l taken).2) ~ (taken ++ l) := by
  induction fuel generalizing i l taken with
  | zero => exact .refl _
  | succ fuel ih =>
    unfold drainFrom
    cases hx : l[i]? with
    | none => exact .refl _
    | some x =>
      obtain ⟨hi, hget⟩ := List.getElem?_eq_some_iff.mp hx
      by_cases hp : p x = true
      · simp only [hp, if_true]
        calc (drainFrom p fuel i (swapRemove l i) (taken ++ [x])).1 ++
              (drainFrom p fuel i (swapRemove l i) (taken ++ [x])).2
            ~ (taken ++ [x]) ++ swapRemove l i := ih ..
          _ = taken ++ (x :: swapRemove l i) := by simp
          _ ~ taken ++ l := by
            rw [← hget]
            exact (cons_swapRemove_perm hi).append_left taken
      · simp only [hp, if_false, Bool.false_eq_true]
        exact ih ..

lemma drainFrom_fst (i : ℕ) (l taken : List α)
    (h : ∀ a ∈ taken, p a = true) : ∀ a ∈ (drainFrom p fuel i l taken).1, p a = true := by
  induction fuel generalizing i l taken with
  | zero => exact h
  | succ fuel ih =>
    unfold drainFrom
    cases l[i]? with
    | none => exact h
    | some x =>
      by_cases hp : p x = true
      · simp only [hp, if_true]
        apply ih
        intro a ha
        rcases mem_append.mp ha with ha | ha
        · exact h a ha
        · rw [mem_singleton.mp ha]
          exact hp
      · simp only [hp, if_false, Bool.false_eq_true]
        exact ih _ _ _ h

/-- With enough rounds, every element with the property is taken out. -/
lemma drainFrom_snd (i : ℕ) (l taken : List α) (hi : i ≤ l.length) (hfuel : l.length ≤ fuel + i)
    (h : ∀ a ∈ l.take i, p a = false) : ∀ a ∈ (drainFrom p fuel i l taken).2, p a = false := by
  induction fuel generalizing i l taken with
  | zero =>
    have hall : l.take i = l := List.take_of_length_le (by omega)
    rw [hall] at h
    exact h
  | succ fuel ih =>
    unfold drainFrom
    cases hx : l[i]? with
    | none =>
      have hall : l.take i = l := List.take_of_length_le (List.getElem?_eq_none_iff.mp hx)
      rw [hall] at h
      exact h
    | some x =>
      obtain ⟨hi', hget⟩ := List.getElem?_eq_some_iff.mp hx
      by_cases hp : p x = true
      · simp only [hp, if_true]
        have hlen := length_swapRemove hi'
        apply ih
        · omega
        · omega
        · rw [take_swapRemove hi']
          exact h
      · simp only [hp, if_false, Bool.false_eq_true]
        apply ih
        · omega
        · omega
        intro a ha
        rw [List.take_add_one, hx] at ha
        rcases List.mem_append.mp ha with ha | ha
        · exact h a ha
        · have hax : a = x := by simpa using ha
          rw [hax]
          exact Bool.eq_false_iff.mpr hp

lemma drain_spec (p : α → Bool) (l : List α) : ((drain p l).1 ++ (drain p l).2) ~ l ∧
    (∀ a ∈ (drain p l).1, p a = true) ∧ ∀ a ∈ (drain p l).2, p a = false :=
  ⟨drainFrom_perm p l.length 0 l [], drainFrom_fst p l.length 0 l [] (by simp),
    drainFrom_snd p l.length 0 l [] (by simp) (by simp) (by simp)⟩

/-- **What draining takes out.** -/
theorem mem_drain_fst {p : α → Bool} : a ∈ (drain p l).1 ↔ a ∈ l ∧ p a = true := by
  obtain ⟨hperm, hfst, hsnd⟩ := drain_spec p l
  constructor
  · intro h
    exact ⟨hperm.mem_iff.mp (mem_append_left _ h), hfst a h⟩
  · rintro ⟨hmem, hp⟩
    rcases mem_append.mp (hperm.mem_iff.mpr hmem) with h | h
    · exact h
    · rw [hsnd a h] at hp
      cases hp

/-- **What draining leaves.** -/
theorem mem_drain_snd {p : α → Bool} : a ∈ (drain p l).2 ↔ a ∈ l ∧ p a = false := by
  obtain ⟨hperm, hfst, hsnd⟩ := drain_spec p l
  constructor
  · intro h
    exact ⟨hperm.mem_iff.mp (mem_append_right _ h), hsnd a h⟩
  · rintro ⟨hmem, hp⟩
    rcases mem_append.mp (hperm.mem_iff.mpr hmem) with h | h
    · rw [hfst a h] at hp
      cases hp
    · exact h

lemma drainFrom_of_forall_not {p : α → Bool} (h : ∀ a ∈ l, p a = false)
    (fuel i : ℕ) (taken : List α) : drainFrom p fuel i l taken = (taken, l) := by
  induction fuel generalizing i with
  | zero => rfl
  | succ fuel ih =>
    unfold drainFrom
    cases hx : l[i]? with
    | none => rfl
    | some x => simp only [h x (mem_of_getElem? hx), Bool.false_eq_true, if_false, ih]

lemma drain_snd_subperm (l : List α) : (drain p l).2 <+~ l :=
  (sublist_append_right _ _).subperm.trans (drain_spec p l).1.subperm

end SwapRemove
