import NdnRs.Time.Combine

/-!
# Clock discipline (`ndn-time/src/provenance.rs`, `discipline.rs`)

A discipline pass ages the latest sample of every peer, checks the provenances of the samples
against a floor, and combines the aged intervals into one fix.

## Implementation notes

The holdover growth and the skew regression are computed in floating point; they are parameters. The
other fields of `TimePolicy` are read by `act` only.

## Main results

* `admitted_supporters_iff` — when supporters meet the floor.
-/

namespace NdnRs

open Sweep Prod

/-! ## Provenance and admission -/

/-- `Authenticity`; keys are 64-bit numbers. -/
inductive Authenticity where
  | unauthenticated
  | authenticatedDomainPeer (key : ℕ)
  deriving DecidableEq

namespace Authenticity

def isAuthenticated : Authenticity → Bool
  | .unauthenticated => false
  | .authenticatedDomainPeer _ => true

def key : Authenticity → Option ℕ
  | .unauthenticated => none
  | .authenticatedDomainPeer k => some k

end Authenticity

/-- `MeasurementProvenance`; paths are 32-bit numbers. -/
structure MeasurementProvenance where
  distanceBounded : Bool
  replayProtected : Bool
  authenticity : Authenticity
  path : ℕ
  deriving DecidableEq

inductive T1Requirement where
  | notRequired
  | distanceBoundedOrDisjointPaths (minPaths : ℕ)

structure StakesFloor where
  minDistinctKeys : ℕ
  requireReplayProtected : Bool
  t1 : T1Requirement

def StakesFloor.high : StakesFloor := ⟨1, true, .distanceBoundedOrDisjointPaths 2⟩

/-- `count_distinct`, behind the elements already seen. -/
def countDistinctFrom (seen : List ℕ) : List ℕ → ℕ
  | [] => 0
  | x :: xs => (if x ∈ seen then 0 else 1) + countDistinctFrom (seen ++ [x]) xs

def countDistinct (xs : List ℕ) : ℕ := countDistinctFrom [] xs

variable (measurements : List MeasurementProvenance) (floor : StakesFloor)

/-- The T2 part of `admits`. -/
def admitsKeys : Bool :=
  if floor.minDistinctKeys > 0 then
    measurements.all (·.authenticity.isAuthenticated) &&
      decide (floor.minDistinctKeys ≤ countDistinct
        ((measurements.take maxMeasurements).filterMap (·.authenticity.key)))
  else true

/-- The T1 part of `admits`. -/
def admitsPaths : Bool :=
  match floor.t1 with
  | .notRequired => true
  | .distanceBoundedOrDisjointPaths minPaths =>
    measurements.any (·.distanceBounded) ||
      decide (minPaths ≤ countDistinct ((measurements.take maxMeasurements).map (·.path)))

def admits : Bool :=
  if measurements.isEmpty then false
  else if ¬ admitsKeys measurements floor then false
  else if floor.requireReplayProtected && !measurements.all (·.replayProtected) then false
  else admitsPaths measurements floor

/-! ## Samples -/

/-- What the code computes in floating point: the growth of uncertainty over an elapsed time, and
the slope of the retained points in parts per billion. `H` is the type of holdover parameters. -/
structure FloatOps (H : Type) where
  growthNs : H → ℕ → ℕ
  slopePpb : List (ℕ × ℤ) → Option ℤ

/-- `PeerSample`: wall estimate, noise, provenance, time of capture, and the holdover parameters of
the peer's clock. -/
structure PeerSample (H : Type) where
  value : ℤ
  sigmaNs : ℕ
  prov : MeasurementProvenance
  capturedMonoNs : ℕ
  holdover : H

def skewPoints : ℕ := 16

/-- `SkewEstimator`: a ring of points. -/
structure SkewEstimator where
  pts : List (ℕ × ℤ)
  len : ℕ
  head : ℕ
  size : pts.length = skewPoints
  head_lt : head < skewPoints

namespace SkewEstimator

def new : SkewEstimator := ⟨.replicate skewPoints (0, 0), 0, 0, by simp, by decide⟩

def push (self : SkewEstimator) (monoNs : ℕ) (offsetNs : ℤ) : SkewEstimator where
  pts := self.pts.set self.head (monoNs, offsetNs)
  len := if self.len < skewPoints then self.len + 1 else self.len
  head := (self.head + 1) % skewPoints
  size := by rw [List.length_set, self.size]
  head_lt := Nat.mod_lt _ (by decide)

def skewPpb {H : Type} (ops : FloatOps H) (self : SkewEstimator) : Option ℤ :=
  if self.len < 2 then none else ops.slopePpb (self.pts.take self.len)

end SkewEstimator

/-- `TimeState`: a fixed table of peers. -/
structure TimeState (H : Type) where
  peers : List (Option (ℕ × PeerSample H))
  skew : SkewEstimator
  size : peers.length = maxMeasurements

namespace TimeState

variable {H : Type}

def new : TimeState H := ⟨.replicate maxMeasurements none, .new, by simp⟩

/-- The slot that `ingest` writes: the peer's own, or else the first free one. -/
def slotFor (self : TimeState H) (peerId : ℕ) : Option ℕ :=
  match self.peers.findIdx? fun slot => slot.any fun entry => entry.1 = peerId with
  | some i => some i
  | none => self.peers.findIdx? Option.isNone

def ingest (self : TimeState H) (peerId : ℕ) (sample : PeerSample H) : Bool × TimeState H :=
  match self.slotFor peerId with
  | some i =>
    (true,
      { self with
        peers := self.peers.set i (some (peerId, sample))
        size := by rw [List.length_set, self.size] })
  | none => (false, self)

def samples (self : TimeState H) : List (PeerSample H) := self.peers.filterMap (·.map Prod.snd)

end TimeState

/-! ## One pass -/

/-- `u64 as i64`. -/
def asI64 (n : ℕ) : ℤ := if n < 2 ^ 63 then n else (n : ℤ) - 2 ^ 64

/-- A sample aged to the present: its center moves on by the elapsed time, its radius grows by the
holdover. -/
def PeerSample.age {H : Type} (ops : FloatOps H) (nowMonoNs : ℕ) (s : PeerSample H) :
    TimeInterval × MeasurementProvenance :=
  let elapsed := nowMonoNs - s.capturedMonoNs
  let growth := ops.growthNs s.holdover elapsed
  (⟨satI64 (s.value + asI64 elapsed), min (s.sigmaNs + growth) (2 ^ 64 - 1), satI64_range _,
    by omega⟩, s.prov)

/-- The aged samples, each with its provenance. -/
def TimeState.aged {H : Type} (ops : FloatOps H) (nowMonoNs : ℕ) (self : TimeState H) :
    List (TimeInterval × MeasurementProvenance) :=
  self.samples.map (PeerSample.age ops nowMonoNs)

structure Correction where
  offsetNs : ℤ
  uncertaintyNs : ℕ
  freqSkewPpb : Option ℤ
  support : ℕ
  admitted : Bool

/-- `TimePolicy`, as far as `discipline` reads it. -/
structure TimePolicy where
  floor : StakesFloor

/-- The correction of a pass that fixes nothing. -/
def Correction.withheld (freqSkewPpb : Option ℤ) : Correction :=
  ⟨0, 2 ^ 64 - 1, freqSkewPpb, 0, false⟩

/-- `TimePolicy::discipline`. Admission looks at all samples, the combiner then keeps the largest
group that agrees. -/
def TimePolicy.discipline {H : Type} (ops : FloatOps H) (self : TimePolicy) (state : TimeState H)
    (localWallNs : ℤ) (nowMonoNs : ℕ) : Correction × TimeState H :=
  let aged := state.aged ops nowMonoNs
  if aged.isEmpty || !admits (aged.map Prod.snd) self.floor then
    (.withheld (state.skew.skewPpb ops), state)
  else
    match marzullo (aged.map Prod.fst) with
    | none => (.withheld (state.skew.skewPpb ops), state)
    | some c =>
      let offsetNs := satI64 (c.interval.centerNs - localWallNs)
      let skew := state.skew.push nowMonoNs offsetNs
      (⟨offsetNs, c.interval.radiusNs, skew.skewPpb ops, c.support, true⟩,
        { state with skew := skew })

/-! ## Who is behind a fix -/

section

variable {H : Type} {ops : FloatOps H} {policy : TimePolicy} {state : TimeState H} {localWallNs : ℤ}
  {nowMonoNs : ℕ} (aged : List (TimeInterval × MeasurementProvenance))

/-- The provenances of the peers whose aged intervals contain an interval. -/
def supporters (fix : TimeInterval) : List MeasurementProvenance :=
  (aged.filter fun peer => fix.Within peer.1).map Prod.snd

/-- The provenances of the peers whose aged intervals contain an instant. -/
def provsAt (t : ℤ) : List MeasurementProvenance :=
  (aged.filter fun peer => peer.1.contains t).map Prod.snd

lemma TimeState.length_aged : (state.aged ops nowMonoNs).length ≤ maxMeasurements := by
  rw [aged, List.length_map, samples, ← state.size]
  exact List.length_filterMap_le _ _

@[simp] lemma admits_nil (floor : StakesFloor) : admits [] floor = false := rfl

variable {aged : List (TimeInterval × MeasurementProvenance)}

lemma ne_nil_of_admits {floor : StakesFloor}
    (hadm : admits (aged.map snd) floor = true) : aged ≠ [] := by
  rintro rfl
  simp at hadm

lemma supporters_eq_provsAt (hlen : aged.length ≤ maxMeasurements) (hne : aged ≠ []) :
    ∃ c t, marzullo (aged.map fst) = some c ∧
      FirstDeepest (aged.map fun peer => peer.1.bounds) t ∧
      supporters aged c.interval = provsAt aged t := by
  have hlen' : (aged.map fst).length ≤ maxMeasurements := by simpa using hlen
  have hne' : aged.map fst ≠ [] := by simpa using hne
  obtain ⟨c, t, hc, hdp, -, hin2⟩ := marzullo_spec hlen' hne'
  refine ⟨c, t, hc, by simpa [Function.comp_def] using hdp, ?_⟩
  have hflt : (aged.filter fun peer => c.interval.Within peer.1) =
      aged.filter fun peer => peer.1.contains t := by
    refine List.filter_congr fun peer hpeer => ?_
    have hiff := hin2 peer.1 (List.mem_map_of_mem hpeer)
    rw [← Bool.coe_iff_coe, decide_eq_true_eq]
    exact hiff
  rw [supporters, provsAt, hflt]

lemma TimePolicy.admitted_iff :
    (policy.discipline ops state localWallNs nowMonoNs).1.admitted = true ↔
      admits ((state.aged ops nowMonoNs).map snd) policy.floor = true := by
  unfold discipline
  by_cases hadm : admits ((state.aged ops nowMonoNs).map snd) policy.floor = true
  · have hne : state.aged ops nowMonoNs ≠ [] := ne_nil_of_admits hadm
    obtain ⟨c, t, hc, -⟩ := supporters_eq_provsAt TimeState.length_aged hne
    simp [hadm, hne, hc]
  · simp [hadm, Correction.withheld]

/-- **Who is behind an admitted fix.** The peers whose aged intervals contain the combined interval
of an admitted pass clear the floor on their own exactly when all samples together do not clear it,
or the peers that contain the lowest instant of greatest agreement clear it. -/
theorem admitted_supporters_iff :
    ((policy.discipline ops state localWallNs nowMonoNs).1.admitted = true →
      ∀ c, marzullo ((state.aged ops nowMonoNs).map Prod.fst) = some c →
        admits (supporters (state.aged ops nowMonoNs) c.interval) policy.floor = true) ↔
    (admits ((state.aged ops nowMonoNs).map Prod.snd) policy.floor = false ∨
      ∃ t, FirstDeepest ((state.aged ops nowMonoNs).map fun peer => peer.1.bounds) t ∧
        admits (provsAt (state.aged ops nowMonoNs) t) policy.floor = true) := by
  rw [TimePolicy.admitted_iff]
  by_cases hadm : admits ((state.aged ops nowMonoNs).map snd) policy.floor = true
  · have hne : state.aged ops nowMonoNs ≠ [] := ne_nil_of_admits hadm
    obtain ⟨c, t, hc, hdp, heq⟩ := supporters_eq_provsAt TimeState.length_aged hne
    constructor
    · intro h
      refine .inr ⟨t, hdp, ?_⟩
      rw [← heq]
      exact h hadm c hc
    · rintro (hnot | ⟨t', hdp', hclr⟩) - c' hc'
      · rw [hadm] at hnot
        cases hnot
      · rw [hc, Option.some.injEq] at hc'
        subst hc'
        rw [heq, hdp.unique hdp']
        exact hclr
  · constructor
    · intro _
      exact .inl (by simpa using hadm)
    · intro _ h
      exact absurd h hadm

end

/-! ## A fix placed by one peer -/

namespace MinoritySample

def ops : FloatOps Unit := ⟨fun _ _ => 0, fun _ => none⟩

/-- A signed and fresh sample of a peer with its own key and path, without a distance bound. -/
def sample (value : ℤ) (key path : ℕ) : PeerSample Unit :=
  ⟨value, 50000, ⟨false, true, .authenticatedDomainPeer key, path⟩, 0, ()⟩

/-- An honest peer at one second, and an attacker on another path who claims one second less. -/
def state : TimeState Unit :=
  ((TimeState.new.ingest 1 (sample 1000000000 1 1)).2.ingest 2 (sample 0 2 2)).2

def policy : TimePolicy := ⟨.high⟩

lemma marzullo_eq : ((marzullo ((state.aged ops 0).map fst)).map fun c =>
    (c.interval.centerNs, c.support, supporters (state.aged ops 0) c.interval)) =
    some (0, 1, [⟨false, true, .authenticatedDomainPeer 2, 2⟩]) := by
  decide

end MinoritySample

open MinoritySample in
/-- **One peer places an admitted fix.** The floor demands two disjoint paths. The two samples
together have them, but disagree; the combiner keeps the lower one. The fix is the attacker's, it
moves the clock by a second, and the attacker alone does not clear the floor. -/
theorem minority_places_fix :
    (policy.discipline ops state 1000000000 0).1.admitted = true ∧
    (policy.discipline ops state 1000000000 0).1.offsetNs = -1000000000 ∧
    ∃ c, marzullo ((state.aged ops 0).map Prod.fst) = some c ∧
      supporters (state.aged ops 0) c.interval = [⟨false, true, .authenticatedDomainPeer 2, 2⟩] ∧
      admits (supporters (state.aged ops 0) c.interval) policy.floor = false := by
  refine ⟨by decide, by decide, ?_⟩
  obtain ⟨c, hc, hpar⟩ := Option.map_eq_some_iff.mp marzullo_eq
  simp only [mk.injEq] at hpar
  obtain ⟨-, -, hsup⟩ := hpar
  refine ⟨c, hc, hsup, ?_⟩
  rw [hsup]
  decide

end NdnRs
