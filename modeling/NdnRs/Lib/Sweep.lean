import Mathlib.Algebra.Order.BigOperators.Group.List
import Mathlib.Algebra.Ring.Int.Defs

/-!
# Overlapping intervals and their sorted ends

The depth of a point is the number of intervals that contain it. With the ends of closed intervals
sorted, beginnings before ends at the same place, the number of beginnings minus the number of ends
in an initial part of the list is the depth of a point, and the place where this number is largest
for the first time is the lowest point of greatest depth.
-/

universe u

namespace Sweep

open List

variable {α : Type u}

/-! ## Ends of intervals -/

/-- An end of a closed interval; `kind` is `-1` where it begins and `1` where it ends. -/
structure Edge (α : Type u) where
  pos : α
  kind : ℤ

/-- The two ends of every interval. -/
def edgesOf (ivs : List (α × α)) : List (Edge α) := ivs.flatMap fun iv => [⟨iv.1, -1⟩, ⟨iv.2, 1⟩]

@[simp] lemma edgesOf_nil : edgesOf ([] : List (α × α)) = [] := rfl

@[simp] lemma edgesOf_cons (iv : α × α) (ivs : List (α × α)) :
    edgesOf (iv :: ivs) = ⟨iv.1, -1⟩ :: ⟨iv.2, 1⟩ :: edgesOf ivs := rfl

variable {ivs : List (α × α)} {e : Edge α} {es before : List (Edge α)}

lemma kind_of_mem_edgesOf (h : e ∈ edgesOf ivs) : e.kind = -1 ∨ e.kind = 1 := by
  obtain ⟨iv, -, he⟩ := mem_flatMap.mp h
  simp only [mem_cons, not_mem_nil, or_false] at he
  rcases he with rfl | rfl
  · exact .inl rfl
  · exact .inr rfl

lemma pos_of_mem_edgesOf (h : e ∈ edgesOf ivs) : ∃ iv ∈ ivs, e.pos = iv.1 ∨ e.pos = iv.2 := by
  obtain ⟨iv, hiv, he⟩ := mem_flatMap.mp h
  simp only [mem_cons, not_mem_nil, or_false] at he
  rcases he with rfl | rfl
  · exact ⟨iv, hiv, .inl rfl⟩
  · exact ⟨iv, hiv, .inr rfl⟩

lemma end_mem_edgesOf {iv : α × α} (h : iv ∈ ivs) : (⟨iv.2, 1⟩ : Edge α) ∈ edgesOf ivs :=
  mem_flatMap.mpr ⟨iv, h, by simp⟩

def height (es : List (Edge α)) : ℤ := (es.map fun e => -e.kind).sum

@[simp] lemma height_nil : height ([] : List (Edge α)) = 0 := rfl

@[simp] lemma height_cons (e : Edge α) (es : List (Edge α)) :
    height (e :: es) = -e.kind + height es := by
  simp [height]

@[simp] lemma height_append (es es' : List (Edge α)) :
    height (es ++ es') = height es + height es' := by
  simp [height]

lemma height_edgesOf (ivs : List (α × α)) : height (edgesOf ivs) = 0 := by
  induction ivs with
  | nil => rfl
  | cons iv ivs ih => simp [ih]

lemma height_perm {es' : List (Edge α)} (h : es.Perm es') : height es = height es' :=
  (h.map _).sum_eq

variable [LinearOrder α]

/-! ## Depth -/

def depth (ivs : List (α × α)) (t : α) : ℕ := ivs.countP fun iv => iv.1 ≤ t ∧ t ≤ iv.2

/-- The lowest point of greatest depth. -/
structure FirstDeepest (ivs : List (α × α)) (t : α) : Prop where
  max : ∀ u, depth ivs u ≤ depth ivs t
  first : ∀ u, u < t → depth ivs u < depth ivs t

lemma FirstDeepest.unique {t t' : α} (h : FirstDeepest ivs t)
    (h' : FirstDeepest ivs t') : t = t' := by
  rcases lt_trichotomy t t' with hlt | heq | hgt
  · exact absurd (h.max t') (not_le.mpr (h'.first t hlt))
  · exact heq
  · exact absurd (h'.max t) (not_le.mpr (h.first t' hgt))

/-! ## Ends up to a point -/

def Edge.Le (a b : Edge α) : Prop := a.pos < b.pos ∨ a.pos = b.pos ∧ a.kind ≤ b.kind

instance (a b : Edge α) : Decidable (a.Le b) := by
  unfold Edge.Le
  infer_instance

variable {a b d next : Edge α}

lemma Edge.Le.trans {c : Edge α} (h : a.Le b) (h' : b.Le c) : a.Le c := by
  rcases h with h | ⟨h, hk⟩
  · rcases h' with h' | ⟨h', -⟩
    · exact .inl (h.trans h')
    · exact .inl (h.trans_eq h')
  · rcases h' with h' | ⟨h', hk'⟩
    · exact .inl (h.trans_lt h')
    · exact .inr ⟨h.trans h', hk.trans hk'⟩

lemma Edge.Le.total (a b : Edge α) : a.Le b ∨ b.Le a := by
  rcases lt_trichotomy a.pos b.pos with h | h | h
  · exact .inl (.inl h)
  · rcases le_total a.kind b.kind with hk | hk
    · exact .inl (.inr ⟨h, hk⟩)
    · exact .inr (.inr ⟨h.symm, hk⟩)
  · exact .inr (.inl h)

lemma Edge.Le.pos_le (h : a.Le b) : a.pos ≤ b.pos := by
  rcases h with h | ⟨h, -⟩
  · exact h.le
  · exact h.le

def Before (t : α) (e : Edge α) : Prop := e.Le ⟨t, -1⟩

instance (t : α) (e : Edge α) : Decidable (Before t e) := by
  unfold Before
  infer_instance

/-- **The ends up to a point have the height of its depth.** -/
lemma height_before (hivs : ∀ iv ∈ ivs, iv.1 ≤ iv.2) (t : α) :
    height ((edgesOf ivs).filter (Before t)) = depth ivs t := by
  induction ivs with
  | nil => rfl
  | cons iv ivs ih =>
    have hiv : iv.1 ≤ iv.2 := hivs iv (by simp)
    have ih' := ih fun iv' hiv' => hivs iv' (by simp [hiv'])
    have hbeg : Before t ⟨iv.1, -1⟩ ↔ iv.1 ≤ t := by
      simp [Before, Edge.Le, le_iff_lt_or_eq]
    have hend : Before t ⟨iv.2, 1⟩ ↔ iv.2 < t := by
      simp [Before, Edge.Le]
    rw [edgesOf_cons, filter_cons, filter_cons, depth, countP_cons]
    simp only [decide_eq_true_eq, hbeg, hend]
    rw [depth] at ih'
    by_cases h₁ : iv.1 ≤ t
    · by_cases h₂ : iv.2 < t
      · simp [h₁, h₂, not_le.mpr h₂, ih']
      · simp [h₁, h₂, not_lt.mp h₂, ih', add_comm]
    · have h₂ : ¬ iv.2 < t := fun h => h₁ (hiv.trans h.le)
      simp [h₁, h₂, ih']

/-! ## Sorted ends -/

lemma filter_before_append (hsrt : es.Pairwise Edge.Le) (t : α) :
    es = es.filter (Before t) ++ es.filter (fun e => ¬ Before t e) := by
  induction es with
  | nil => rfl
  | cons e es ih =>
    obtain ⟨hhead, htail⟩ := pairwise_cons.mp hsrt
    by_cases he : Before t e
    · rw [filter_cons_of_pos (by simpa using he), filter_cons_of_neg (by simpa using he),
        cons_append, ← ih htail]
    -- nothing behind `e` is up to the point either
    have hnone : es.filter (fun e => decide (Before t e)) = [] := by
      rw [filter_eq_nil_iff]
      intro e' he' hbef
      exact he ((hhead e' he').trans (of_decide_eq_true hbef))
    have hall : es.filter (fun e => decide (¬ Before t e)) = es := by
      have hspl := ih htail
      rw [hnone, nil_append] at hspl
      exact hspl.symm
    rw [filter_cons_of_neg (by simpa using he), hnone,
      filter_cons_of_pos (by simpa using he), hall, nil_append]

/-! ## The first largest height -/

/-- `e` stands in the list behind `before`, and another end follows it. -/
def Splits (es before : List (Edge α)) (e : Edge α) : Prop :=
  ∃ after, after ≠ [] ∧ es = before ++ e :: after

omit [LinearOrder α] in
lemma not_splits_nil : ¬ Splits [] before e := by
  rintro ⟨after, -, h⟩
  simp at h

omit [LinearOrder α] in
lemma splits_cons :
    Splits (d :: es) before e ↔
      before = [] ∧ e = d ∧ es ≠ [] ∨ ∃ before', before = d :: before' ∧ Splits es before' e := by
  constructor
  · rintro ⟨after, hne, h⟩
    cases before with
    | nil =>
      obtain ⟨rfl, rfl⟩ := List.cons.inj h
      exact .inl ⟨rfl, rfl, hne⟩
    | cons b before' =>
      obtain ⟨rfl, rfl⟩ := List.cons.inj h
      exact .inr ⟨before', rfl, after, hne, rfl⟩
  · rintro (⟨rfl, rfl, hne⟩ | ⟨before', rfl, after, hne, rfl⟩)
    · exact ⟨es, hne, rfl⟩
    · exact ⟨after, hne, rfl⟩

/-- The first place in a list of ends where the height is largest: behind `e`, which another end
follows. -/
structure FirstMax (es before : List (Edge α)) (e next : Edge α) (after : List (Edge α)) :
    Prop where
  split : es = before ++ e :: next :: after
  max : ∀ before' e', Splits es before' e' → height (before' ++ [e']) ≤ height (before ++ [e])
  first : ∀ before' e', Splits es before' e' → before'.length < before.length →
    height (before' ++ [e']) < height (before ++ [e])

omit [LinearOrder α] in
lemma FirstMax.head {rest : List (Edge α)}
    (h : ∀ before' e', Splits (next :: rest) before' e' → height (before' ++ [e']) ≤ 0) :
    FirstMax (e :: next :: rest) [] e next rest := by
  refine ⟨rfl, ?_, ?_⟩
  · intro before' e' hspl
    rcases splits_cons.mp hspl with ⟨rfl, rfl, -⟩ | ⟨before'', rfl, htail⟩
    · exact le_refl _
    · have hbd := h before'' e' htail
      simp only [cons_append, nil_append, height_cons, height_nil]
      omega
  · intro before' e' _ hlen
    simp at hlen

omit [LinearOrder α] in
lemma FirstMax.cons {after : List (Edge α)} (h : FirstMax es before e next after)
    (hpos : 0 < height (before ++ [e])) : FirstMax (d :: es) (d :: before) e next after := by
  refine ⟨by rw [h.split]; rfl, ?_, ?_⟩
  · intro before' e' hspl
    rcases splits_cons.mp hspl with ⟨rfl, rfl, -⟩ | ⟨before'', rfl, htail⟩
    · simp only [cons_append, nil_append, height_cons, height_nil]
      omega
    · have hbd := h.max before'' e' htail
      simp only [cons_append, height_cons]
      omega
  · intro before' e' hspl hlen
    rcases splits_cons.mp hspl with ⟨rfl, rfl, -⟩ | ⟨before'', rfl, htail⟩
    · simp only [cons_append, nil_append, height_cons, height_nil]
      omega
    · have hbd := h.first before'' e' htail (by simpa using hlen)
      simp only [cons_append, height_cons]
      omega

section

variable {after : List (Edge α)}

omit [LinearOrder α] in
lemma FirstMax.kind_eq (h : FirstMax es before e next after) (hpos : 0 < height (before ++ [e]))
    (hperm : es.Perm (edgesOf ivs)) : e.kind = -1 := by
  have hmem : e ∈ edgesOf ivs := by
    rw [← hperm.mem_iff, h.split]
    simp
  have hrise : height before < height (before ++ [e]) := by
    rcases eq_nil_or_concat before with rfl | ⟨before', e', rfl⟩
    · exact hpos
    · rw [concat_eq_append] at h ⊢
      refine h.first before' e' ⟨e :: next :: after, by simp, ?_⟩ (by simp)
      simp [h.split]
  rcases kind_of_mem_edgesOf hmem with hk | hk
  · exact hk
  · simp [hk] at hrise

section

variable (hivs : ∀ iv ∈ ivs, iv.1 ≤ iv.2) (hperm : es.Perm (edgesOf ivs))
  (hsrt : es.Pairwise Edge.Le)
include hivs hperm hsrt

/-- The depth of a point is the height of an initial part of the sorted ends; when the point is in
some interval, an end follows. -/
lemma exists_split_of_depth_pos {u : α} (hu : 0 < depth ivs u) :
    ∃ before' e', Splits es before' e' ∧ (∀ d ∈ before' ++ [e'], d.pos ≤ u) ∧
      height (before' ++ [e']) = depth ivs u := by
  have hhgt : height (es.filter (Before u)) = depth ivs u := by
    rw [height_perm (hperm.filter _), height_before hivs]
  have hspl := filter_before_append hsrt u
  rcases eq_nil_or_concat (es.filter (Before u)) with hnil | ⟨before', e', hcon⟩
  · rw [hnil, height_nil] at hhgt
    omega
  rw [concat_eq_append] at hcon
  refine ⟨before', e', ⟨es.filter (fun e => ¬ Before u e), ?_, ?_⟩, ?_, ?_⟩
  · -- an interval around `u` ends behind it
    obtain ⟨iv, hiv, hcontains⟩ := countP_pos_iff.mp hu
    have hend : (⟨iv.2, 1⟩ : Edge α) ∈ es := hperm.mem_iff.mpr (end_mem_edgesOf hiv)
    have hnot : ¬ Before u (⟨iv.2, 1⟩ : Edge α) := by
      have hle : u ≤ iv.2 := (of_decide_eq_true hcontains).2
      simp [Before, Edge.Le, hle]
    exact ne_nil_of_mem (mem_filter.mpr ⟨hend, by simpa using hnot⟩)
  · rw [hcon] at hspl
    simpa using hspl
  · intro d hd
    rw [← hcon] at hd
    have hbef : Before u d := of_decide_eq_true (mem_filter.mp hd).2
    exact Edge.Le.pos_le hbef
  · rw [← hcon, hhgt]

/-- The ends in front of a beginning, with it, have at most the height of its depth. -/
lemma height_le_depth {rest : List (Edge α)} (hspl : es = before ++ e :: rest)
    (hkind : e.kind = -1) : height (before ++ [e]) ≤ depth ivs e.pos := by
  have hself : (⟨e.pos, -1⟩ : Edge α) = e := by rw [← hkind]
  rw [hspl, pairwise_append] at hsrt
  obtain ⟨-, hrest, hcros⟩ := hsrt
  have hfrt : (before ++ [e]).filter (Before e.pos) = before ++ [e] := by
    rw [filter_eq_self]
    intro d hd
    refine decide_eq_true ?_
    rw [Before, hself]
    rcases mem_append.mp hd with hd | hd
    · exact hcros d hd e (by simp)
    · rw [mem_singleton] at hd
      subst hd
      exact .inr ⟨rfl, le_refl _⟩
  -- whatever else is up to the point begins at it
  have hback : 0 ≤ height (rest.filter (Before e.pos)) := by
    refine sum_nonneg ?_
    intro x hx
    obtain ⟨d, hd, rfl⟩ := mem_map.mp hx
    obtain ⟨hd, hbef⟩ := mem_filter.mp hd
    have hge : e.Le d := (pairwise_cons.mp hrest).1 d hd
    have hle : d.Le e := by
      rw [← hself]
      exact of_decide_eq_true hbef
    have hpos : d.pos = e.pos := le_antisymm hle.pos_le hge.pos_le
    rcases hle with hlt | ⟨-, hk⟩
    · exact absurd hpos hlt.ne
    · omega
  have hall : height (es.filter (Before e.pos)) = depth ivs e.pos := by
    rw [height_perm (hperm.filter _), height_before hivs]
  have hpar : es.filter (Before e.pos) = before ++ [e] ++ rest.filter (Before e.pos) := by
    rw [hspl, show before ++ e :: rest = (before ++ [e]) ++ rest by simp, filter_append, hfrt]
  rw [hpar, height_append] at hall
  omega

end

section

variable (h : FirstMax es before e next after) (hpos : 0 < height (before ++ [e]))
include h hpos

section

variable (hivs : ∀ iv ∈ ivs, iv.1 ≤ iv.2) (hperm : es.Perm (edgesOf ivs))
  (hsrt : es.Pairwise Edge.Le)
include hivs hperm hsrt

/-- No point is deeper than the largest height, and points in front of the first place with that
height are less deep. -/
lemma FirstMax.depth_le (u : α) :
    (depth ivs u : ℤ) ≤ height (before ++ [e]) ∧
      (u < e.pos → (depth ivs u : ℤ) < height (before ++ [e])) := by
  rcases Nat.eq_zero_or_pos (depth ivs u) with hzero | hdep
  · rw [hzero]
    exact ⟨by simpa using hpos.le, fun _ => by simpa using hpos⟩
  obtain ⟨before', e', hspl, hle, hhgt⟩ :=
    exists_split_of_depth_pos hivs hperm hsrt hdep
  rw [← hhgt]
  refine ⟨h.max before' e' hspl, fun hu => ?_⟩
  refine h.first before' e' hspl ?_
  obtain ⟨after', -, hsplit⟩ := hspl
  -- otherwise `e` would be among the ends up to `u`
  by_contra hlen
  have hmem : e ∈ before' ++ [e'] := by
    have hinit : before ++ [e] <+: before' ++ [e'] := by
      have hpre : before ++ [e] <+: es := ⟨next :: after, by simp [h.split]⟩
      have hpre' : before' ++ [e'] <+: es := ⟨after', by simp [hsplit]⟩
      refine prefix_of_prefix_length_le hpre hpre' ?_
      simp only [length_append, length_singleton]
      omega
    exact hinit.subset (by simp)
  exact absurd (hle e hmem) (not_le.mpr hu)

/-- **The height is first largest at the lowest point of greatest depth**, and is that depth. -/
theorem FirstMax.firstDeepest :
    FirstDeepest ivs e.pos ∧ height (before ++ [e]) = depth ivs e.pos := by
  have hge : height (before ++ [e]) ≤ depth ivs e.pos :=
    height_le_depth hivs hperm hsrt h.split (h.kind_eq hpos hperm)
  have heq : height (before ++ [e]) = depth ivs e.pos :=
    le_antisymm hge (h.depth_le hpos hivs hperm hsrt e.pos).1
  refine ⟨⟨fun u => ?_, fun u hu => ?_⟩, heq⟩
  · have hle := (h.depth_le hpos hivs hperm hsrt u).1
    omega
  · have hlt := (h.depth_le hpos hivs hperm hsrt u).2 hu
    omega

end

/-- An interval that contains the place ends at the next end. -/
lemma FirstMax.exists_end (hivs : ∀ iv ∈ ivs, iv.1 ≤ iv.2) (hperm : es.Perm (edgesOf ivs))
    (hsrt : es.Pairwise Edge.Le) : ∃ iv ∈ ivs, iv.1 ≤ e.pos ∧ iv.2 = next.pos := by
  have hmem : next ∈ edgesOf ivs := by
    rw [← hperm.mem_iff, h.split]
    simp
  -- the height would rise at another beginning, and is zero behind the last end
  have hkind : next.kind ≠ -1 := by
    intro hk
    have hhgt : height (before ++ [e] ++ [next]) = height (before ++ [e]) + 1 := by
      simp [hk, add_assoc]
    cases after with
    | nil =>
      have hzero := (height_perm hperm).trans (height_edgesOf ivs)
      rw [h.split, append_cons] at hzero
      omega
    | cons d after =>
      have hmax := h.max (before ++ [e]) next ⟨d :: after, by simp, by simp [h.split]⟩
      omega
  obtain ⟨iv, hiv, heq⟩ := mem_flatMap.mp hmem
  simp only [mem_cons, not_mem_nil, or_false] at heq
  rcases heq with rfl | rfl
  · exact absurd rfl hkind
  have hbeg : (⟨iv.1, -1⟩ : Edge α) ∈ es :=
    hperm.mem_iff.mpr (mem_flatMap.mpr ⟨iv, hiv, by simp⟩)
  rw [h.split] at hbeg hsrt
  obtain ⟨-, htail, hcros⟩ := pairwise_append.mp hsrt
  refine ⟨iv, hiv, ?_, rfl⟩
  rcases mem_append.mp hbeg with hbeg | hbeg
  · exact (hcros _ hbeg e (by simp)).pos_le
  rcases mem_cons.mp hbeg with rfl | hbeg
  · exact le_refl _
  · rcases mem_cons.mp hbeg with heq | hbeg
    · simp at heq
    · have hlate := (pairwise_cons.mp (pairwise_cons.mp htail).2).1 _ hbeg
      simp [Edge.Le, (hivs iv hiv).not_gt] at hlate

/-- **What follows.** The next end is at or behind the place, and not behind the end of an interval
that contains it. -/
theorem FirstMax.next_le (hperm : es.Perm (edgesOf ivs)) (hsrt : es.Pairwise Edge.Le) :
    e.pos ≤ next.pos ∧ ∀ iv ∈ ivs, e.pos ≤ iv.2 → next.pos ≤ iv.2 := by
  have hself : (⟨e.pos, -1⟩ : Edge α) = e := by rw [← h.kind_eq hpos hperm]
  have hsrt' := hsrt
  rw [h.split, pairwise_append] at hsrt'
  obtain ⟨-, htail, hcros⟩ := hsrt'
  obtain ⟨hnext, htail⟩ := pairwise_cons.mp htail
  refine ⟨(hnext next (by simp)).pos_le, ?_⟩
  intro iv hiv hle
  have hend : (⟨iv.2, 1⟩ : Edge α) ∈ es := hperm.mem_iff.mpr (end_mem_edgesOf hiv)
  -- an end at or behind the place comes behind the beginning `e`
  have hnot : ¬ (⟨iv.2, 1⟩ : Edge α).Le e := by
    rw [← hself]
    simp [Edge.Le, hle]
  rw [h.split] at hend
  rcases mem_append.mp hend with hfrt | hback
  · exact absurd (hcros _ hfrt e (by simp)) hnot
  · rcases mem_cons.mp hback with heq | hback
    · exact absurd (heq ▸ .inr ⟨rfl, le_refl _⟩) hnot
    · rcases mem_cons.mp hback with heq | hback
      · rw [← heq]
      · exact ((pairwise_cons.mp htail).1 _ hback).pos_le

end

end

end Sweep
