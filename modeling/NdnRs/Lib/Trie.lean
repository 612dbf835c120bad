import Mathlib.Data.List.Nodup
import NdnRs.Lib.Assoc

/-!
# Tries

A finite map from lists of keys to values, stored as a tree: the entry of a list is found by
following its keys from the root. Besides the operations of a map there is the longest-prefix
match.
-/

universe u v

/-- A tree whose edges carry keys and whose nodes may carry a value. -/
inductive Trie (K : Type u) (V : Type v) where
  | node (entry : Option V) (children : List (K × Trie K V))

namespace Trie

open List Option Trie

variable {K : Type u} {V : Type v}

def empty : Trie K V := .node none []

def entry : Trie K V → Option V
  | .node e _ => e

def children : Trie K V → List (K × Trie K V)
  | .node _ cs => cs

/-! ## All values -/

mutual

def values : Trie K V → List V
  | .node e cs => e.toList ++ valuesBelow cs

def valuesBelow : List (K × Trie K V) → List V
  | [] => []
  | (_, c) :: cs => c.values ++ valuesBelow cs

end

mutual

def first : Trie K V → Option V
  | .node (some v) _ => some v
  | .node none cs => firstBelow cs

def firstBelow : List (K × Trie K V) → Option V
  | [] => none
  | (_, c) :: cs =>
    match c.first with
    | some v => some v
    | none => firstBelow cs

end

mutual

/-- All lists of keys with their values, behind a path. -/
def dumpFrom : List K → Trie K V → List (List K × V)
  | path, .node e cs => (e.map fun v => (path, v)).toList ++ dumpBelow path cs

/-- All lists of keys with their values below the edges, behind a path. -/
def dumpBelow : List K → List (K × Trie K V) → List (List K × V)
  | _, [] => []
  | path, (k, c) :: cs => dumpFrom (path ++ [k]) c ++ dumpBelow path cs

end

def dump (t : Trie K V) : List (List K × V) := dumpFrom [] t

mutual

def Wf : Trie K V → Prop
  | .node _ cs => (cs.map Prod.fst).Nodup ∧ WfBelow cs

def WfBelow : List (K × Trie K V) → Prop
  | [] => True
  | (_, c) :: cs => c.Wf ∧ WfBelow cs

end

lemma wfBelow_iff {cs : List (K × Trie K V)} : WfBelow cs ↔ ∀ x ∈ cs, x.2.Wf := by
  induction cs with
  | nil => simp [WfBelow]
  | cons x cs ih => rw [WfBelow, ih, forall_mem_cons]

lemma wf_empty : (empty : Trie K V).Wf := ⟨nodup_nil, trivial⟩

mutual

lemma map_snd_dumpFrom (path : List K) (t : Trie K V) :
    (t.dumpFrom path).map Prod.snd = t.values := by
  cases t with
  | node e cs =>
    rw [dumpFrom, values, map_append, map_snd_dumpBelow path cs]
    cases e <;> rfl

lemma map_snd_dumpBelow (path : List K) (cs : List (K × Trie K V)) :
    (dumpBelow path cs).map Prod.snd = valuesBelow cs := by
  cases cs with
  | nil => rfl
  | cons x cs =>
    rw [dumpBelow, valuesBelow, map_append, map_snd_dumpFrom (path ++ [x.1]) x.2,
      map_snd_dumpBelow path cs]

end

mutual

lemma first_eq_head? (t : Trie K V) : t.first = t.values.head? := by
  cases t with
  | node e cs =>
    cases e with
    | none =>
      rw [first, values, firstBelow_eq_head? cs]
      rfl
    | some v => rfl

lemma firstBelow_eq_head? (cs : List (K × Trie K V)) : firstBelow cs = (valuesBelow cs).head? := by
  cases cs with
  | nil => rfl
  | cons x cs =>
    rw [firstBelow, valuesBelow, first_eq_head? x.2, firstBelow_eq_head? cs, head?_append]
    cases x.2.values.head? <;> rfl

end

/-! ## Lookups and updates -/

variable [DecidableEq K] {t : Trie K V} {ks : List K} {k : K} {v : V}

def child? (k : K) (t : Trie K V) : Option (Trie K V) := t.children.lookup k

def get : List K → Trie K V → Option V
  | [], t => t.entry
  | k :: ks, t =>
    match t.child? k with
    | none => none
    | some c => get ks c

/-- Sets the value of a list of keys, making nodes as needed. -/
def insert : List K → V → Trie K V → Trie K V
  | [], v, t => .node (some v) t.children
  | k :: ks, v, t =>
    .node t.entry (Assoc.insert k (insert ks v ((t.child? k).getD empty)) t.children)

/-- Changes the entry of a list of keys, making nodes as needed. -/
def update : List K → (Option V → Option V) → Trie K V → Trie K V
  | [], f, t => .node (f t.entry) t.children
  | k :: ks, f, t =>
    .node t.entry (Assoc.insert k (update ks f ((t.child? k).getD empty)) t.children)

/-- Clears the value of a list of keys; the nodes stay. -/
def remove : List K → Trie K V → Trie K V
  | [], t => .node none t.children
  | k :: ks, t =>
    match t.child? k with
    | none => t
    | some c => .node t.entry (Assoc.insert k (remove ks c) t.children)

/-- The longest-prefix match with the number of keys matched, from a node at some depth and the best
match above it. -/
def lpmFrom : List K → ℕ → Option (ℕ × V) → Trie K V → Option (ℕ × V)
  | [], _, best, _ => best
  | k :: ks, depth, best, t =>
    match t.child? k with
    | none => best
    | some c =>
      lpmFrom ks (depth + 1) ((c.entry.map fun v => (depth + 1, v)).or best) c

/-- The longest-prefix match with the number of keys matched. -/
def lpmWithDepth (ks : List K) (t : Trie K V) : Option (ℕ × V) :=
  lpmFrom ks 0 (t.entry.map fun v => (0, v)) t

def lpm (ks : List K) (t : Trie K V) : Option V := (lpmWithDepth ks t).map Prod.snd

/-! ## The operations of a map -/

lemma child?_insert (e : Option V) (k k' : K) (c : Trie K V) (t : Trie K V) :
    (node e (Assoc.insert k c t.children)).child? k' =
      if k' = k then some c else t.child? k' :=
  Assoc.lookup_insert k k' c t.children

@[simp] lemma get_empty (ks : List K) : (empty : Trie K V).get ks = none := by
  cases ks <;> rfl

lemma get_cons (k : K) (ks : List K) (t : Trie K V) :
    t.get (k :: ks) = ((t.child? k).getD empty).get ks := by
  rw [get]
  cases t.child? k with
  | none => exact (get_empty ks).symm
  | some c => rfl

/-- **An update changes one entry.** -/
theorem get_update (ks ks' : List K) (f : Option V → Option V) (t : Trie K V) :
    (t.update ks f).get ks' = if ks' = ks then f (t.get ks) else t.get ks' := by
  induction ks generalizing ks' t with
  | nil =>
    cases ks' with
    | nil => rfl
    | cons k' ks' => rfl
  | cons k ks ih =>
    cases ks' with
    | nil => rfl
    | cons k' ks' =>
      rw [update, get_cons, child?_insert, get_cons, get_cons]
      by_cases h : k' = k
      · subst h
        rw [if_pos rfl, getD_some, ih]
        simp only [List.cons.injEq, true_and]
      · rw [if_neg h, if_neg (fun heq => h (List.cons.inj heq).1)]

lemma insert_eq_update (ks : List K) (v : V) (t : Trie K V) :
    t.insert ks v = t.update ks fun _ => some v := by
  induction ks generalizing t with
  | nil => rfl
  | cons k ks ih => rw [insert, update, ih]

/-- **Insertion sets one value.** -/
theorem get_insert (ks ks' : List K) (v : V) (t : Trie K V) :
    (t.insert ks v).get ks' = if ks' = ks then some v else t.get ks' := by
  rw [insert_eq_update, get_update]

/-- **Removal clears one value.** -/
theorem get_remove (ks ks' : List K) (t : Trie K V) :
    (t.remove ks).get ks' = if ks' = ks then none else t.get ks' := by
  induction ks generalizing ks' t with
  | nil =>
    cases ks' with
    | nil => rfl
    | cons k' ks' => rfl
  | cons k ks ih =>
    rw [remove]
    cases hc : t.child? k with
    | none =>
      -- there is no such node, and so no value to clear
      split_ifs with h
      · rw [h, get_cons, hc, getD_none, get_empty]
      · rfl
    | some c =>
      cases ks' with
      | nil => rfl
      | cons k' ks' =>
        rw [get_cons, child?_insert, get_cons]
        by_cases h : k' = k
        · subst h
          rw [if_pos rfl, getD_some, ih, hc, getD_some]
          simp only [List.cons.injEq, true_and]
        · rw [if_neg h, if_neg (fun heq => h (List.cons.inj heq).1)]

/-! ## Subtrees -/

def descend : List K → Trie K V → Option (Trie K V)
  | [], t => some t
  | k :: ks, t =>
    match t.child? k with
    | none => none
    | some c => descend ks c

lemma get_append (ks ks' : List K) (t : Trie K V) :
    t.get (ks ++ ks') = (t.descend ks).bind (get ks') := by
  induction ks generalizing t with
  | nil => rfl
  | cons k ks ih =>
    rw [cons_append, get, descend]
    cases t.child? k with
    | none => rfl
    | some c => exact ih c

def descendants (ks : List K) (t : Trie K V) : List V := ((t.descend ks).map values).getD []

def firstDescendant (ks : List K) (t : Trie K V) : Option V := (t.descend ks).bind first

lemma Wf.child?_eq_some_iff {t c : Trie K V} (h : t.Wf) :
    t.child? k = some c ↔ (k, c) ∈ t.children := by
  cases t with
  | node e cs => exact Assoc.lookup_eq_some_iff h.1

lemma Wf.child {t c : Trie K V} (h : t.Wf) (hc : t.child? k = some c) : c.Wf := by
  have hmem := h.child?_eq_some_iff.mp hc
  cases t with
  | node e cs => exact wfBelow_iff.mp h.2 _ hmem

lemma Wf.setChild {t c : Trie K V} (h : t.Wf) (hc : c.Wf) (e : Option V) (k : K) :
    (node e (Assoc.insert k c t.children)).Wf := by
  cases t with
  | node e' cs =>
    refine ⟨Assoc.nodup_keys_insert k c h.1, wfBelow_iff.mpr fun x hx => ?_⟩
    rcases Assoc.mem_insert hx with rfl | hx
    · exact hc
    · exact wfBelow_iff.mp h.2 x hx

lemma Wf.update (h : t.Wf) (ks : List K) (f : Option V → Option V) : (t.update ks f).Wf := by
  induction ks generalizing t with
  | nil =>
    cases t with
    | node e cs => exact h
  | cons k ks ih =>
    refine h.setChild (ih ?_) _ k
    cases hc : t.child? k with
    | none => exact wf_empty
    | some c => exact h.child hc

lemma Wf.insert (h : t.Wf) (ks : List K) (v : V) : (t.insert ks v).Wf := by
  rw [insert_eq_update]
  exact h.update ks _

lemma Wf.remove (h : t.Wf) (ks : List K) : (t.remove ks).Wf := by
  induction ks generalizing t with
  | nil =>
    cases t with
    | node e cs => exact h
  | cons k ks ih =>
    rw [Trie.remove]
    cases hc : t.child? k with
    | none => exact h
    | some c => exact h.setChild (ih (h.child hc)) _ k

lemma Wf.descend {t c : Trie K V} (h : t.Wf) (hc : t.descend ks = some c) : c.Wf := by
  induction ks generalizing t with
  | nil =>
    cases hc
    exact h
  | cons k ks ih =>
    rw [Trie.descend] at hc
    cases hk : t.child? k with
    | none =>
      rw [hk] at hc
      cases hc
    | some d =>
      rw [hk] at hc
      exact ih (h.child hk) hc

/-! ## All entries -/

mutual

lemma mem_dumpFrom_iff {v : V} (t : Trie K V) (h : t.Wf) (path ks : List K) :
    (ks, v) ∈ t.dumpFrom path ↔ ∃ rest, ks = path ++ rest ∧ t.get rest = some v := by
  cases t with
  | node e cs =>
    rw [dumpFrom, mem_append, mem_dumpBelow_iff cs h.2 path ks, mem_toList, map_eq_some_iff]
    constructor
    · rintro (⟨v', he, heq⟩ | ⟨x, hx, rest, rfl, hrest⟩)
      · obtain ⟨rfl, rfl⟩ := Prod.mk.inj heq
        exact ⟨[], (append_nil _).symm, he⟩
      · refine ⟨x.1 :: rest, rfl, ?_⟩
        rw [get_cons, h.child?_eq_some_iff.mpr hx, getD_some, hrest]
    · rintro ⟨rest, rfl, hrest⟩
      cases rest with
      | nil => exact .inl ⟨v, hrest, by rw [append_nil]⟩
      | cons k rest =>
        rw [get] at hrest
        cases hc : (node e cs).child? k with
        | none =>
          rw [hc] at hrest
          cases hrest
        | some c =>
          rw [hc] at hrest
          exact .inr ⟨(k, c), h.child?_eq_some_iff.mp hc, rest, rfl, hrest⟩

lemma mem_dumpBelow_iff {v : V} (cs : List (K × Trie K V)) (h : WfBelow cs) (path ks : List K) :
    (ks, v) ∈ dumpBelow path cs ↔
      ∃ x ∈ cs, ∃ rest, ks = path ++ x.1 :: rest ∧ x.2.get rest = some v := by
  cases cs with
  | nil => simp [dumpBelow]
  | cons x cs =>
    rw [dumpBelow, mem_append, mem_dumpFrom_iff x.2 h.1, mem_dumpBelow_iff cs h.2,
      exists_mem_cons_iff]
    simp only [append_assoc, singleton_append]

end

/-- **The entries of a trie** are those that lookups find. -/
theorem mem_dump_iff (h : t.Wf) : (ks, v) ∈ t.dump ↔ t.get ks = some v := by
  rw [dump, mem_dumpFrom_iff t h]
  constructor
  · rintro ⟨rest, rfl, hrest⟩
    exact hrest
  · exact fun hks => ⟨ks, rfl, hks⟩

lemma mem_values_iff (t : Trie K V) (h : t.Wf) : v ∈ t.values ↔ ∃ ks, t.get ks = some v := by
  rw [← map_snd_dumpFrom [], ← dump, List.mem_map, Prod.exists]
  simp only [mem_dump_iff h, exists_eq_right]

/-- **The values behind a list of keys** are those of its extensions. -/
theorem mem_descendants_iff (h : t.Wf) :
    v ∈ t.descendants ks ↔ ∃ ks', t.get (ks ++ ks') = some v := by
  rw [descendants]
  simp only [get_append]
  cases hc : t.descend ks with
  | none => simp
  | some c => simpa using mem_values_iff c (h.descend hc)

lemma firstDescendant_eq_head? (ks : List K) (t : Trie K V) :
    t.firstDescendant ks = (t.descendants ks).head? := by
  rw [firstDescendant, descendants]
  cases t.descend ks with
  | none => rfl
  | some c => exact first_eq_head? c

mutual

lemma nodup_dumpFrom (t : Trie K V) (h : t.Wf) (path : List K) :
    ((t.dumpFrom path).map Prod.fst).Nodup := by
  cases t with
  | node e cs =>
    have hbel := nodup_dumpBelow cs h.1 h.2 path
    rw [dumpFrom, map_append, nodup_append]
    refine ⟨by cases e <;> simp, hbel, ?_⟩
    rintro ks hks ks' hks' rfl
    obtain ⟨⟨ks, v⟩, hmem, rfl⟩ := mem_map.mp hks'
    obtain ⟨x, -, rest, heq, -⟩ := (mem_dumpBelow_iff cs h.2 path ks).mp hmem
    -- what is below the edges is behind a longer path
    have hpath : ks = path := by
      cases e with
      | none => cases hks
      | some v' => simpa using hks
    rw [hpath] at heq
    simp at heq

lemma nodup_dumpBelow (cs : List (K × Trie K V)) (hkeys : (cs.map Prod.fst).Nodup)
    (h : WfBelow cs) (path : List K) : ((dumpBelow path cs).map Prod.fst).Nodup := by
  cases cs with
  | nil => simp [dumpBelow]
  | cons x cs =>
    rw [map_cons, nodup_cons] at hkeys
    rw [dumpBelow, map_append, nodup_append]
    refine ⟨nodup_dumpFrom x.2 h.1 _, nodup_dumpBelow cs hkeys.2 h.2 path, ?_⟩
    rintro ks hks ks' hks' rfl
    obtain ⟨⟨ks, v⟩, hmem, rfl⟩ := mem_map.mp hks
    obtain ⟨⟨ks', v'⟩, hmem', heq⟩ := mem_map.mp hks'
    obtain ⟨rest, rfl, -⟩ := (mem_dumpFrom_iff x.2 h.1 _ _).mp hmem
    obtain ⟨y, hy, rest', rfl, -⟩ := (mem_dumpBelow_iff cs h.2 path _).mp hmem'
    -- and behind different edges
    simp only [append_assoc, singleton_append, append_cancel_left_eq, List.cons.injEq] at heq
    exact hkeys.1 (mem_map.mpr ⟨y, hy, heq.1⟩)

end

lemma nodup_dump (h : t.Wf) : (t.dump.map Prod.fst).Nodup :=
  nodup_dumpFrom t h []

/-- **The values behind a list of keys**, each as often as it is stored there. -/
theorem descendants_perm (h : t.Wf) (ks : List K) :
    (t.descendants ks).Perm ((t.dump.filter fun x => ks <+: x.1).map Prod.snd) := by
  cases hc : t.descend ks with
  | none =>
    have hnil : (t.dump.filter fun x => ks <+: x.1) = [] := by
      rw [filter_eq_nil_iff]
      rintro ⟨ks', v⟩ hx hpre
      obtain ⟨rest, rfl⟩ := of_decide_eq_true hpre
      rw [mem_dump_iff h, get_append, hc] at hx
      cases hx
    rw [descendants, hc, hnil]
    rfl
  | some c =>
    have hwf := h.descend hc
    rw [descendants, hc, map_some, getD_some, ← map_snd_dumpFrom ks]
    refine ((perm_ext_iff_of_nodup (.of_map _ (nodup_dumpFrom c hwf ks))
      ((Nodup.of_map _ (nodup_dump h)).filter _)).mpr ?_).map _
    rintro ⟨ks', v⟩
    rw [mem_dumpFrom_iff c hwf, mem_filter, mem_dump_iff h, decide_eq_true_eq]
    constructor
    · rintro ⟨rest, rfl, hrest⟩
      exact ⟨by rwa [get_append, hc], prefix_append _ _⟩
    · rintro ⟨hget, rest, rfl⟩
      exact ⟨rest, rfl, by rwa [get_append, hc] at hget⟩

/-! ## Longest-prefix match -/

/-- Among the lists that have a value, `pre` is the longest that `ks` starts with. -/
structure LongestMatch (f : List K → Option V) (ks pre : List K) (v : V) : Prop where
  covers : pre <+: ks
  value : f pre = some v
  longest : ∀ pre' v', pre' <+: ks → f pre' = some v' → pre'.length ≤ pre.length

omit [DecidableEq K] in
lemma LongestMatch.unique {f : List K → Option V} {ks pre pre' : List K} {v v' : V}
    (h : LongestMatch f ks pre v) (h' : LongestMatch f ks pre' v') : pre' = pre ∧ v' = v := by
  have hle := h.longest pre' v' h'.covers h'.value
  have hle' := h'.longest pre v h.covers h.value
  have hpre := prefix_of_prefix_length_le h'.covers h.covers hle
  obtain rfl := hpre.eq_of_length (Nat.le_antisymm hle hle')
  exact ⟨rfl, some.inj (h'.value.symm.trans h.value)⟩

lemma lpmFrom_map_snd (ks : List K) (depth : ℕ) (best : Option (ℕ × V)) (t : Trie K V) :
    (lpmFrom ks depth ((t.entry.map fun v => (depth, v)).or best) t).map Prod.snd =
      (lpm ks t).or (best.map Prod.snd) := by
  induction ks generalizing depth best t with
  | nil => cases h : t.entry <;> simp [lpm, lpmWithDepth, lpmFrom, h]
  | cons k ks ih =>
    rw [lpm, lpmWithDepth, lpmFrom, lpmFrom]
    cases t.child? k with
    | none => cases t.entry <;> simp
    | some c =>
      rw [ih, ih]
      cases t.entry <;> simp

lemma lpm_cons (k : K) (ks : List K) (t : Trie K V) :
    t.lpm (k :: ks) = ((t.child? k).bind (lpm ks)).or t.entry := by
  rw [lpm, lpmWithDepth, lpmFrom]
  cases t.child? k with
  | none => cases t.entry <;> simp
  | some c =>
    rw [lpmFrom_map_snd]
    cases t.entry <;> simp

/-- Nothing matches, or the longest match is found. -/
lemma lpm_spec (ks : List K) (t : Trie K V) :
    (t.lpm ks = none ∧ ∀ pre, pre <+: ks → t.get pre = none) ∨
      ∃ pre v, t.lpm ks = some v ∧ LongestMatch (fun pre => t.get pre) ks pre v := by
  induction ks generalizing t with
  | nil =>
    cases he : t.entry with
    | none =>
      refine .inl ⟨by simp [lpm, lpmWithDepth, lpmFrom, he], fun pre hpre => ?_⟩
      rw [prefix_nil.mp hpre]
      exact he
    | some v =>
      refine .inr ⟨[], v, by simp [lpm, lpmWithDepth, lpmFrom, he], prefix_refl _, he, ?_⟩
      intro pre' v' hpre' _
      exact hpre'.length_le
  | cons k ks ih =>
    rw [lpm_cons]
    -- a match is at the root, or at the child behind the key
    have hchl : ∀ pre, pre <+: k :: ks → pre = [] ∨ ∃ pre', pre = k :: pre' ∧ pre' <+: ks := by
      intro pre hpre
      cases pre with
      | nil => exact .inl rfl
      | cons k' pre' =>
        obtain ⟨rfl, hpre'⟩ := cons_prefix_cons.mp hpre
        exact .inr ⟨pre', rfl, hpre'⟩
    have hget : ∀ pre, t.get (k :: pre) = ((t.child? k).getD empty).get pre := fun pre =>
      get_cons k pre t
    have hlpm : (t.child? k).bind (lpm ks) = ((t.child? k).getD empty).lpm ks := by
      cases t.child? k with
      | none => cases ks <;> rfl
      | some c => rfl
    rw [hlpm]
    rcases ih ((t.child? k).getD empty) with ⟨hnone, hall⟩ | ⟨pre, v, hsome, hlong⟩
    · rw [hnone, none_or]
      cases he : t.entry with
      | none =>
        refine .inl ⟨rfl, fun pre hpre => ?_⟩
        rcases hchl pre hpre with rfl | ⟨pre', rfl, hpre'⟩
        · exact he
        · rw [hget, hall pre' hpre']
      | some v =>
        refine .inr ⟨[], v, rfl, nil_prefix, he, fun pre' v' hpre' hv' => ?_⟩
        rcases hchl pre' hpre' with rfl | ⟨pre', rfl, hbel⟩
        · exact Nat.le_refl _
        · simp only [hget, hall pre' hbel] at hv'
          cases hv'
    · rw [hsome, some_or]
      refine .inr ⟨k :: pre, v, rfl, cons_prefix_cons.mpr ⟨rfl, hlong.covers⟩, ?_, ?_⟩
      · simp only [hget]
        exact hlong.value
      · intro pre' v' hpre' hv'
        rcases hchl pre' hpre' with rfl | ⟨pre', rfl, hbel⟩
        · exact Nat.zero_le _
        · simp only [hget] at hv'
          exact Nat.succ_le_succ (hlong.longest pre' v' hbel hv')

end Trie
