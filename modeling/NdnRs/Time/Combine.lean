import Mathlib.Algebra.Group.Int.Even
import Mathlib.Data.List.Sort
import Mathlib.Order.Bounds.Basic
import NdnRs.Lib.Sweep

/-!
# Time intervals and the Marzullo combiner (`ndn-time/src/interval.rs`, `combine.rs`)

Wall-clock estimates are intervals in signed 64-bit nanoseconds. The combiner sorts the ends of the
intervals and looks for the place where most of them overlap.

## Main results

* `marzullo_covers_iff` — when the result covers the overlap.
-/

namespace NdnRs

open Sweep List

/-! ## Intervals -/

/-- `i64::MIN`. -/
def i64Min : ℤ := -2 ^ 63

/-- `i64::MAX`. -/
def i64Max : ℤ := 2 ^ 63 - 1

def satI64 (z : ℤ) : ℤ := max i64Min (min i64Max z)

lemma satI64_range (z : ℤ) : i64Min ≤ satI64 z ∧ satI64 z ≤ i64Max := by
  unfold satI64 i64Min i64Max
  omega

variable {z : ℤ}

lemma satI64_eq_self (h : i64Min ≤ z ∧ z ≤ i64Max) : satI64 z = z := by
  unfold satI64
  omega

lemma satI64_mono {y : ℤ} (h : y ≤ z) : satI64 y ≤ satI64 z := by
  unfold satI64 i64Min i64Max
  omega

/-- `TimeInterval`: a 64-bit center and a 64-bit half-width. -/
structure TimeInterval where
  centerNs : ℤ
  radiusNs : ℕ
  center_range : i64Min ≤ centerNs ∧ centerNs ≤ i64Max
  radius_lt : radiusNs < 2 ^ 64

namespace TimeInterval

variable (self : TimeInterval)

def lo : ℤ := satI64 (self.centerNs - self.radiusNs)

def hi : ℤ := satI64 (self.centerNs + self.radiusNs)

def contains (t : ℤ) : Bool := self.lo ≤ t && t ≤ self.hi

def Within (self other : TimeInterval) : Prop := other.lo ≤ self.lo ∧ self.hi ≤ other.hi

instance (self other : TimeInterval) : Decidable (self.Within other) := by
  unfold Within
  infer_instance

def bounds : ℤ × ℤ := (self.lo, self.hi)

lemma lo_le_hi : self.lo ≤ self.hi := by
  refine satI64_mono ?_
  omega

end TimeInterval

/-! ## The combiner -/

def maxMeasurements : ℕ := 32

structure Combined where
  interval : TimeInterval
  support : ℕ

def EdgeGe (a b : Edge ℤ) : Prop := b.Le a

instance (a b : Edge ℤ) : Decidable (EdgeGe a b) := by
  unfold EdgeGe
  infer_instance

variable (edges : List (Edge ℤ))

/-- The insertion sort of `marzullo`. The sorted part is kept in reverse: the edges are inserted
from the first on, and the inner loop walks the sorted part from its right end past the edges that
are greater. -/
def sortEdges : List (Edge ℤ) :=
  (edges.reverse.insertionSort EdgeGe).reverse

/-- `best_support`, `best_lo` and `best_hi`. -/
structure Best where
  support : ℕ
  lo : ℤ
  hi : ℤ

/-- The sweep of `marzullo`, from an edge on with the running count; the last edge is never
recorded. -/
def sweep : List (Edge ℤ) → ℤ → Best → Best
  | [], _, best => best
  | [_], _, best => best
  | e :: next :: rest, cnt, best =>
    let cnt := cnt - e.kind
    sweep (next :: rest) cnt (if cnt > best.support then ⟨cnt.toNat, e.pos, next.pos⟩ else best)

/-- The interval with the given bounds. -/
def Best.interval (best : Best) : TimeInterval :=
  let radius : ℕ := ((best.hi - best.lo) % 2 ^ 64).toNat / 2
  ⟨satI64 (best.lo + radius), radius, satI64_range _, by omega⟩

def marzullo (intervals : List TimeInterval) : Option Combined :=
  match intervals.take maxMeasurements with
  | [] => none
  | first :: rest =>
    let edges := sortEdges (edgesOf ((first :: rest).map TimeInterval.bounds))
    let best := sweep edges 0 ⟨0, first.lo, first.hi⟩
    some ⟨best.interval, best.support⟩

/-! ## What the combiner finds -/

lemma sortEdges_perm : (sortEdges edges).Perm edges := by
  exact (reverse_perm _).trans ((perm_insertionSort EdgeGe _).trans (reverse_perm edges))

instance : Std.Total EdgeGe := ⟨fun a b => Edge.Le.total b a⟩

instance : IsTrans (Edge ℤ) EdgeGe := ⟨fun _ _ _ h h' => h'.trans h⟩

lemma sortEdges_sorted : (sortEdges edges).Pairwise Edge.Le := by
  rw [sortEdges, pairwise_reverse]
  exact pairwise_insertionSort EdgeGe _

/-- **The sweep.** It keeps what it had when no count exceeds it; otherwise it ends with the first
place where the count is largest. -/
lemma sweep_cases (es : List (Edge ℤ)) (cnt : ℤ) (best : Best) :
    (sweep es cnt best = best ∧
      ∀ before e, Splits es before e → cnt + height (before ++ [e]) ≤ best.support) ∨
    ∃ before e next after, FirstMax es before e next after ∧
      best.support < cnt + height (before ++ [e]) ∧
      sweep es cnt best = ⟨(cnt + height (before ++ [e])).toNat, e.pos, next.pos⟩ := by
  induction es, cnt, best using sweep.induct with
  | case1 cnt best =>
    exact .inl ⟨rfl, fun _ _ h => absurd h not_splits_nil⟩
  | case2 cnt best e =>
    refine .inl ⟨rfl, fun before e' h => ?_⟩
    rcases splits_cons.mp h with ⟨-, -, hne⟩ | ⟨before', -, h'⟩
    · exact absurd rfl hne
    · exact absurd h' not_splits_nil
  | case3 e next rest cnt best cnt' ih =>
    -- the best so far when the sweep goes on behind `e`
    set best' : Best := if cnt' > best.support then ⟨cnt'.toNat, e.pos, next.pos⟩ else best
      with hbest'
    have hstep : sweep (e :: next :: rest) cnt best = sweep (next :: rest) cnt' best' := rfl
    have hhead : cnt + height ([] ++ [e]) = cnt' := by
      simp [cnt', sub_eq_add_neg]
    have htail : ∀ before' e', cnt + height (e :: before' ++ [e']) =
        cnt' + height (before' ++ [e']) := by
      intro before' e'
      simp only [cons_append, height_cons, cnt']
      omega
    have hrec : (best.support : ℤ) ≤ best'.support ∧ cnt' ≤ best'.support := by
      rw [hbest']
      split_ifs with hgt
      · have htoNat : (cnt'.toNat : ℤ) = cnt' := Int.toNat_of_nonneg (by omega)
        simp only [htoNat]
        omega
      · omega
    rcases ih with ⟨hkeep, hle⟩ | ⟨before, d, next', after, hmax, hlt, hsweep⟩
    · by_cases hgt : cnt' > best.support
      · -- the record at `e` stands
        refine .inr ⟨[], e, next, rest, .head fun before' e' h => ?_, by omega, ?_⟩
        · have hbd := hle before' e' h
          rw [hbest', if_pos hgt, Int.toNat_of_nonneg (by omega)] at hbd
          omega
        · rw [hstep, hkeep, hbest', if_pos hgt, hhead]
      · rw [if_neg hgt] at hbest'
        rw [hbest'] at hkeep hle hstep
        refine .inl ⟨hstep.trans hkeep, fun before' e' h => ?_⟩
        rcases splits_cons.mp h with ⟨rfl, rfl, -⟩ | ⟨before'', rfl, h'⟩
        · omega
        · rw [htail]
          exact hle before'' e' h'
    · refine .inr ⟨e :: before, d, next', after, hmax.cons (by omega), ?_, ?_⟩
      · rw [htail]
        omega
      · rw [hstep, hsweep, htail]

lemma Best.interval_bounds {best : Best} (hlo : i64Min ≤ best.lo) (hle : best.lo ≤ best.hi)
    (hhi : best.hi ≤ i64Max) : best.interval.lo = best.lo ∧
      best.interval.hi = best.lo + 2 * ((best.hi - best.lo) / 2) := by
  unfold i64Min at hlo
  unfold i64Max at hhi
  -- the width fits 64 bits, so nothing wraps and nothing saturates
  have hwid : (best.hi - best.lo) % 2 ^ 64 = best.hi - best.lo := by
    omega
  have hcen : best.interval.centerNs = best.lo + best.interval.radiusNs := by
    refine satI64_eq_self ?_
    unfold i64Min i64Max
    rw [hwid]
    omega
  have hrad : (best.interval.radiusNs : ℤ) = (best.hi - best.lo) / 2 := by
    show ((((best.hi - best.lo) % 2 ^ 64).toNat / 2 : ℕ) : ℤ) = (best.hi - best.lo) / 2
    omega
  refine ⟨?_, ?_⟩
  · rw [TimeInterval.lo, hcen, satI64_eq_self]
    · omega
    · unfold i64Min i64Max
      omega
  · rw [TimeInterval.hi, hcen, satI64_eq_self]
    · omega
    · unfold i64Min i64Max
      omega

variable {intervals : List TimeInterval}

lemma pos_range {e : Edge ℤ} (h : e ∈ edgesOf (intervals.map TimeInterval.bounds)) :
    i64Min ≤ e.pos ∧ e.pos ≤ i64Max := by
  obtain ⟨iv, hiv, hpos⟩ := pos_of_mem_edgesOf h
  obtain ⟨interval, -, rfl⟩ := mem_map.mp hiv
  rcases hpos with hpos | hpos
  all_goals
    rw [hpos]
    exact satI64_range _

/-- The instants in all inputs that contain `t`. -/
def shared (intervals : List TimeInterval) (t : ℤ) : Set ℤ :=
  {u | ∀ iv ∈ intervals, iv.contains t = true → iv.contains u = true}

lemma contains_iff {iv : TimeInterval} {t : ℤ} : iv.contains t = true ↔ iv.lo ≤ t ∧ t ≤ iv.hi := by
  simp [TimeInterval.contains]

lemma depth_le_of_mem_shared {t u : ℤ} (h : u ∈ shared intervals t) :
    depth (intervals.map TimeInterval.bounds) t ≤ depth (intervals.map TimeInterval.bounds) u := by
  refine countP_mono_left fun b hb ht => ?_
  obtain ⟨iv, hiv, rfl⟩ := mem_map.mp hb
  exact decide_eq_true (contains_iff.mp (h iv hiv (contains_iff.mpr (of_decide_eq_true ht))))

section

variable (hlen : intervals.length ≤ maxMeasurements) (hne : intervals ≠ [])
include hlen hne

/-- **The combiner.** The combined interval begins at the lowest instant that most inputs contain,
and its support is their number. It ends at the last instant in all of these, or one before it. -/
theorem marzullo_region : ∃ c t last, marzullo intervals = some c ∧
    FirstDeepest (intervals.map TimeInterval.bounds) t ∧
    c.support = depth (intervals.map TimeInterval.bounds) t ∧
    (c.interval.lo = t ∧ c.interval.hi = t + 2 * ((last - t) / 2)) ∧
    IsGreatest (shared intervals t) last := by
  obtain ⟨first, rest, rfl⟩ := exists_cons_of_ne_nil hne
  set ivs := (first :: rest).map TimeInterval.bounds with hivs
  set es := sortEdges (edgesOf ivs) with hes
  have hperm : es.Perm (edgesOf ivs) := sortEdges_perm _
  have hsrt : es.Pairwise Edge.Le := sortEdges_sorted _
  have hvld : ∀ iv ∈ ivs, iv.1 ≤ iv.2 := by
    intro iv hiv
    obtain ⟨interval, -, rfl⟩ := mem_map.mp hiv
    exact interval.lo_le_hi
  have hmar : marzullo (first :: rest) =
      some ⟨(sweep es 0 ⟨0, first.lo, first.hi⟩).interval,
        (sweep es 0 ⟨0, first.lo, first.hi⟩).support⟩ := by
    rw [marzullo, take_of_length_le hlen]
  rcases sweep_cases es 0 ⟨0, first.lo, first.hi⟩ with
    ⟨-, hle⟩ | ⟨before, e, next, after, hmax, hpos, hsweep⟩
  · -- the first input contains its own lower bound
    have hdep : 0 < depth ivs first.lo :=
      countP_pos_iff.mpr ⟨first.bounds, by simp [hivs], decide_eq_true ⟨le_refl _, first.lo_le_hi⟩⟩
    obtain ⟨before, e, hspl, -, hhgt⟩ :=
      exists_split_of_depth_pos hvld hperm hsrt hdep
    have hbd := hle before e hspl
    simp only [hhgt] at hbd
    omega
  · have hpos' : 0 < height (before ++ [e]) := by
      simpa using hpos
    obtain ⟨hdp, hhgt⟩ := hmax.firstDeepest hpos' hvld hperm hsrt
    obtain ⟨hnext, hends⟩ := hmax.next_le hpos' hperm hsrt
    have hmem : ∀ d ∈ [e, next], d ∈ edgesOf ivs := by
      intro d hd
      refine hperm.mem_iff.mp ?_
      rw [hmax.split]
      simp only [mem_cons, not_mem_nil, or_false] at hd
      rcases hd with rfl | rfl <;> simp
    refine ⟨_, e.pos, next.pos, hmar, hdp, ?_, ?_, fun iv hiv hcon => ?_, fun u hu => ?_⟩
    · rw [hsweep, zero_add, hhgt, Int.toNat_natCast]
    · rw [hsweep]
      exact Best.interval_bounds (pos_range (hmem e (by simp))).1 hnext
        (pos_range (hmem next (by simp))).2
    · obtain ⟨hlo, hhi⟩ := contains_iff.mp hcon
      exact contains_iff.mpr ⟨hlo.trans hnext, hends iv.bounds (mem_map_of_mem hiv) hhi⟩
    · obtain ⟨b, hb, hlo, hhi⟩ := hmax.exists_end hpos' hvld hperm hsrt
      obtain ⟨iv, hiv, rfl⟩ := mem_map.mp hb
      rw [← hhi] at hnext ⊢
      exact (contains_iff.mp (hu iv hiv (contains_iff.mpr ⟨hlo, hnext⟩))).2

/-- An input contains the combined interval exactly when it contains the instant where that
begins. -/
theorem marzullo_spec : ∃ c t, marzullo intervals = some c ∧
      FirstDeepest (intervals.map TimeInterval.bounds) t ∧
      c.support = depth (intervals.map TimeInterval.bounds) t ∧
      ∀ iv ∈ intervals, c.interval.Within iv ↔ iv.contains t = true := by
  obtain ⟨c, t, last, hmar, hdp, hsup, ⟨hlo, hhi⟩, hshr, hlast⟩ := marzullo_region hlen hne
  have hle : t ≤ last := hlast fun _ _ h => h
  refine ⟨c, t, hmar, hdp, hsup, fun iv hiv => ?_⟩
  rw [TimeInterval.Within, contains_iff, hlo, hhi]
  constructor
  · rintro ⟨hlo, hge⟩
    exact ⟨hlo, by omega⟩
  · rintro ⟨hlo, hge⟩
    have hend := (contains_iff.mp (hshr iv hiv (contains_iff.mpr ⟨hlo, hge⟩))).2
    exact ⟨hlo, by omega⟩

/-- **What the combined interval covers.** Its support is the largest number of inputs with a common
instant, and each of its instants is in at least so many. It covers the lowest region of such
instants iff the width of that region is even. -/
theorem marzullo_covers_iff : ∃ c t, marzullo intervals = some c ∧
    FirstDeepest (intervals.map TimeInterval.bounds) t ∧
    c.support = depth (intervals.map TimeInterval.bounds) t ∧
    (∀ u, c.interval.contains u = true → c.support ≤ depth (intervals.map TimeInterval.bounds) u) ∧
    ((∀ u ∈ shared intervals t, c.interval.contains u = true) ↔
      ∀ last, IsGreatest (shared intervals t) last → Even (last - t)) := by
  obtain ⟨c, t, last, hmar, hdp, hsup, ⟨hlo, hhi⟩, hshr, hlast⟩ := marzullo_region hlen hne
  refine ⟨c, t, hmar, hdp, hsup, fun u hu => ?_, fun h last' hlast' => ?_, fun h u hu => ?_⟩
  · rw [contains_iff, hlo, hhi] at hu
    rw [hsup]
    refine depth_le_of_mem_shared fun iv hiv hcon => ?_
    have hend := (contains_iff.mp (hshr iv hiv hcon)).2
    rw [contains_iff] at hcon ⊢
    omega
  · obtain rfl := hlast'.unique ⟨hshr, hlast⟩
    have hend := (contains_iff.mp (h _ hshr)).2
    rw [Int.even_iff]
    omega
  · have heven := Int.even_iff.mp (h last ⟨hshr, hlast⟩)
    have hfirst : t ≤ u := not_lt.mp fun hlt => (hdp.first u hlt).not_ge (depth_le_of_mem_shared hu)
    have hle := hlast hu
    rw [contains_iff, hlo, hhi]
    omega

end

/-- The intervals from `-2` to `2` and from `0` to `4`. -/
def TimeInterval.overlapping : List TimeInterval :=
  [⟨0, 2, by decide, by decide⟩, ⟨2, 2, by decide, by decide⟩]

/-- `marzullo_covers_iff` for two intervals that overlap from `0` to `2`, an even width: both
support the result, and it covers their overlap. -/
theorem marzullo_covers_iff_overlapping : ∃ c, marzullo TimeInterval.overlapping = some c ∧
    c.support = 2 ∧
    (∀ u, c.interval.contains u = true →
      2 ≤ depth (TimeInterval.overlapping.map TimeInterval.bounds) u) ∧
    ∀ u, 0 ≤ u → u ≤ 2 → c.interval.contains u = true := by
  obtain ⟨c, t, hmar, hdp, hsup, hin, hcov⟩ :=
    @marzullo_covers_iff TimeInterval.overlapping (by decide) (by decide)
  have hbounds : TimeInterval.overlapping.map TimeInterval.bounds = [(-2, 2), (0, 4)] := by decide
  have hdepth : depth (TimeInterval.overlapping.map TimeInterval.bounds) 0 = 2 := by decide
  -- the lowest instant in both is 0
  have hfirst : FirstDeepest (TimeInterval.overlapping.map TimeInterval.bounds) 0 := by
    refine ⟨fun u => ?_, fun u hu => ?_⟩
    · rw [hdepth]
      exact countP_le_length
    · have hout : ¬((0 : ℤ) ≤ u ∧ u ≤ 4) := by omega
      rw [hdepth, hbounds, depth, countP_cons, countP_singleton, if_neg (by simpa using hout)]
      split_ifs <;> omega
  obtain rfl := hdp.unique hfirst
  rw [hdepth] at hsup
  rw [hsup] at hin
  have hmem : ∀ u, u ∈ shared TimeInterval.overlapping 0 ↔ 0 ≤ u ∧ u ≤ 2 := by
    intro u
    simp [shared, contains_iff, TimeInterval.overlapping, TimeInterval.lo, TimeInterval.hi, satI64,
      i64Min, i64Max]
    omega
  refine ⟨c, hmar, hsup, hin, fun u hlo hhi => hcov.mpr ?_ u ((hmem u).mpr ⟨hlo, hhi⟩)⟩
  -- the last one is 2
  intro last hlast
  have hend := (hmem last).mp hlast.1
  have htwo := hlast.2 ((hmem 2).mpr ⟨by decide, le_rfl⟩)
  obtain rfl : last = 2 := by omega
  decide

/-- Both inputs contain the instant 1, and the result does not. -/
theorem marzullo_misses_instant : ∃ a b : TimeInterval, a.contains 1 = true ∧ b.contains 1 = true ∧
    ∃ c, marzullo [a, b] = some c ∧ c.interval.contains 1 = false :=
  ⟨⟨0, 1, by decide, by decide⟩, ⟨1, 1, by decide, by decide⟩, by decide, by decide, _, rfl,
    by decide⟩

end NdnRs
