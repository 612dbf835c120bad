import NdnRs.Forwarding.Fib

/-!
# The routing information base (`ndn-engine/src/rib.rs`)

The RIB keeps all registered routes of each prefix. A prefix with routes of its own gets next hops
from them, and from the routes of its ancestors that children inherit, up to the first ancestor
that captures.
-/

namespace NdnRs

open List

/-- `RibRoute`; times are in ticks of the runtime's clock. -/
structure RibRoute where
  faceId : FaceId
  origin : UInt64
  cost : UInt32
  flags : UInt64
  expiresAt : Option ℕ
  deriving DecidableEq

namespace RibRoute

def childInherit : UInt64 := 1

def capture : UInt64 := 2

def inherits (r : RibRoute) : Bool := r.flags &&& childInherit ≠ 0

def captures (r : RibRoute) : Bool := r.flags &&& capture ≠ 0

end RibRoute

/-- The RIB: the routes of each prefix that has any. -/
structure Rib where
  routes : List (Name × List RibRoute)
  distinct : Assoc.Keyed routes
  filled : ∀ x ∈ routes, x.2 ≠ []

namespace Rib

def new : Rib := ⟨[], List.nodup_nil, by simp⟩

variable (s : List (FaceId × UInt32) × Bool) (self : Rib) (gone : RibRoute → Bool)

def routesAt (pre : Name) : List RibRoute := (self.routes.lookup pre).getD []

variable {pre : Name} {rs : List RibRoute} {α : Type}

lemma lookup_ne_some_nil (h : self.routes.lookup pre = some rs) : rs ≠ [] :=
  self.filled _ ((Assoc.lookup_eq_some_iff self.distinct).mp h)

lemma lookup_eq (pre : Name) :
    self.routes.lookup pre =
      if self.routesAt pre = [] then none else some (self.routesAt pre) := by
  rw [routesAt]
  cases h : self.routes.lookup pre with
  | none => rfl
  | some rs => rw [Option.getD_some, if_neg (self.lookup_ne_some_nil h)]

/-! ## Operations -/

/-- The routes after `add`, and whether something changed: the first route with the same face and
origin is replaced. -/
def addRoute (route : RibRoute) : List RibRoute → List RibRoute × Bool
  | [] => ([route], true)
  | existing :: rest =>
    if existing.faceId = route.faceId ∧ existing.origin = route.origin then
      (route :: rest, existing.cost ≠ route.cost ∨ existing.flags ≠ route.flags ∨
        existing.expiresAt ≠ route.expiresAt)
    else (existing :: (addRoute route rest).1, (addRoute route rest).2)

lemma addRoute_ne_nil (route : RibRoute) (rs : List RibRoute) : (addRoute route rs).1 ≠ [] := by
  cases rs with
  | nil => exact cons_ne_nil _ _
  | cons existing rest =>
    rw [addRoute]
    split_ifs <;> exact cons_ne_nil _ _

lemma addRoute_of_unchanged {route : RibRoute}
    (h : (addRoute route rs).2 = false) : (addRoute route rs).1 = rs := by
  induction rs with
  | nil => cases h
  | cons existing rest ih =>
    rw [addRoute] at h ⊢
    split_ifs at h ⊢ with hsame
    · have : route = existing := by
        cases existing
        simp_all
      rw [this]
    · rw [ih h]

def add (pre : Name) (route : RibRoute) : Rib × Bool :=
  let added := addRoute route (self.routesAt pre)
  (⟨Assoc.insert pre added.1 self.routes, Assoc.nodup_keys_insert _ _ self.distinct,
    fun x hx => by
      rcases Assoc.mem_insert hx with rfl | hx
      · exact addRoute_ne_nil _ _
      · exact self.filled x hx⟩, added.2)

/-- Sets the routes of a prefix, which is dropped with its last route. -/
def setRoutes (pre : Name) (rs : List RibRoute) : Rib :=
  if hrs : rs = [] then
    ⟨Assoc.erase pre self.routes,
      self.distinct.sublist (.map _ List.filter_sublist),
      fun x hx => self.filled x (List.mem_of_mem_filter hx)⟩
  else
    ⟨Assoc.insert pre rs self.routes, Assoc.nodup_keys_insert _ _ self.distinct,
      fun x hx => by
        rcases Assoc.mem_insert hx with rfl | hx
        · exact hrs
        · exact self.filled x hx⟩

/-- `remove` and `remove_nexthop`: the routes of a prefix that satisfy `gone` are removed. -/
def removeWhere (pre : Name) (gone : RibRoute → Bool) : Rib × Bool :=
  match self.routes.lookup pre with
  | none => (self, false)
  | some entry =>
    let kept := entry.filter fun r => !gone r
    (self.setRoutes pre kept, kept.length ≠ entry.length)

def remove (pre : Name) (faceId : FaceId) (origin : UInt64) : Rib × Bool :=
  self.removeWhere pre fun r => r.faceId = faceId ∧ r.origin = origin

def removeNexthop (pre : Name) (faceId : FaceId) : Rib × Bool :=
  self.removeWhere pre fun r => r.faceId = faceId

/-- One prefix in `flush`: what is kept of it. -/
def retain (x : Name × List RibRoute) : Option (Name × List RibRoute) :=
  let kept := x.2.filter fun r => !gone r
  if kept = [] then none else some (x.1, kept)

/-- The prefixes a `retain` leaves are among those there were, in the same order. -/
lemma keys_filterMap_retain (routes : List (Name × List RibRoute)) :
    ((routes.filterMap (retain gone)).map Prod.fst).Sublist (routes.map Prod.fst) := by
  induction routes with
  | nil => exact .refl _
  | cons x routes ih =>
    rw [filterMap_cons, map_cons]
    by_cases hx : (x.2.filter fun r => !gone r) = []
    · rw [retain, if_pos hx]
      exact ih.cons _
    · rw [retain, if_neg hx]
      exact ih.cons_cons _

/-- `flush_origin`, `flush_face` and `drain_expired`: the routes that satisfy `gone` are removed
everywhere, and the prefixes that lost one are reported. -/
def flush : Rib × List Name :=
  (⟨self.routes.filterMap (retain gone),
    self.distinct.sublist (keys_filterMap_retain gone self.routes),
    fun x hx => by
      obtain ⟨y, -, hy⟩ := List.mem_filterMap.mp hx
      rw [retain] at hy
      split_ifs at hy with hkept
      cases hy
      exact hkept⟩,
    (self.routes.filter fun x => (x.2.filter fun r => !gone r).length ≠ x.2.length).map Prod.fst)

def flushOrigin (origin : UInt64) : Rib × List Name :=
  self.flush fun r => r.origin = origin

def flushFace (faceId : FaceId) : Rib × List Name :=
  self.flush fun r => r.faceId = faceId

def drainExpired (now : ℕ) : Rib × List Name :=
  self.flush fun r => match r.expiresAt with
    | none => false
    | some exp => !decide (exp > now)

/-! ### What the operations change -/

/-- **Adding a route** changes the routes of one prefix. -/
lemma routesAt_add (pre name : Name) (route : RibRoute) :
    (self.add pre route).1.routesAt name =
      if name = pre then (addRoute route (self.routesAt pre)).1 else self.routesAt name := by
  rw [routesAt, add, Assoc.lookup_insert]
  split_ifs <;> rfl

lemma routesAt_setRoutes (pre name : Name) (rs : List RibRoute) :
    (self.setRoutes pre rs).routesAt name = if name = pre then rs else self.routesAt name := by
  rw [routesAt, setRoutes]
  by_cases hrs : rs = []
  · rw [dif_pos hrs, Assoc.lookup_erase, hrs]
    split_ifs <;> rfl
  · rw [dif_neg hrs, Assoc.lookup_insert]
    split_ifs <;> rfl

/-- **Removing routes of a prefix** changes the routes of that one. -/
lemma routesAt_removeWhere (pre name : Name) (gone : RibRoute → Bool) :
    (self.removeWhere pre gone).1.routesAt name =
      if name = pre then (self.routesAt pre).filter fun r => !gone r else self.routesAt name := by
  rw [removeWhere]
  cases h : self.routes.lookup pre with
  | none =>
    have hnil : self.routesAt pre = [] := by rw [routesAt, h, Option.getD_none]
    split_ifs with hname
    · rw [hname, hnil]
      rfl
    · rfl
  | some entry =>
    have hent : self.routesAt pre = entry := by rw [routesAt, h, Option.getD_some]
    simp only [routesAt_setRoutes, hent]

lemma removeWhere_snd (pre : Name) (gone : RibRoute → Bool) :
    (self.removeWhere pre gone).2 =
      decide (((self.routesAt pre).filter fun r => !gone r).length ≠
        (self.routesAt pre).length) := by
  rw [removeWhere, routesAt]
  cases self.routes.lookup pre <;> rfl

/-- With distinct prefixes, the routes kept of a prefix are found under it. -/
lemma lookup_filterMap_retain (name : Name)
    {routes : List (Name × List RibRoute)} (hnd : Assoc.Keyed routes) :
    ((routes.filterMap (retain gone)).lookup name).getD [] =
      ((routes.lookup name).getD []).filter fun r => !gone r := by
  induction routes with
  | nil => rfl
  | cons x routes ih =>
    obtain ⟨k, rs⟩ := x
    rw [Assoc.keyed_cons] at hnd
    rw [filterMap_cons, retain, Assoc.lookup_cons]
    by_cases hk : name = k
    · rw [if_pos hk, Option.getD_some]
      by_cases hkept : (rs.filter fun r => !gone r) = []
      · -- the prefix is dropped, and it is not stored a second time
        have hnone : (routes.filterMap (retain gone)).lookup name = none := by
          rw [Assoc.lookup_eq_none_iff, hk]
          exact fun hmem => hnd.1 ((keys_filterMap_retain gone routes).mem hmem)
        rw [if_pos hkept, hkept, hnone, Option.getD_none]
      · rw [if_neg hkept, Assoc.lookup_cons, if_pos hk, Option.getD_some]
    · rw [if_neg hk, ← ih hnd.2]
      by_cases hkept : (rs.filter fun r => !gone r) = []
      · rw [if_pos hkept]
      · rw [if_neg hkept, Assoc.lookup_cons, if_neg hk]

/-- **Flushing routes** keeps the others, at every prefix. -/
lemma routesAt_flush (name : Name) :
    (self.flush gone).1.routesAt name = (self.routesAt name).filter fun r => !gone r :=
  lookup_filterMap_retain gone name self.distinct

/-- A prefix that `flush` does not report has lost nothing. -/
lemma routesAt_flush_of_not_mem {gone : RibRoute → Bool} {name : Name}
    (h : name ∉ (self.flush gone).2) : (self.flush gone).1.routesAt name = self.routesAt name := by
  rw [routesAt_flush]
  apply filter_eq_self.mpr
  by_contra hlost
  apply h
  rw [routesAt] at hlost
  cases hget : self.routes.lookup name with
  | none =>
    rw [hget] at hlost
    simp at hlost
  | some rs =>
    rw [hget, Option.getD_some] at hlost
    refine mem_map.mpr ⟨(name, rs), mem_filter.mpr
      ⟨(Assoc.lookup_eq_some_iff self.distinct).mp hget, decide_eq_true fun hlen => ?_⟩, rfl⟩
    exact hlost (filter_eq_self.mp (filter_sublist.eq_of_length hlen))

/-! ## Effective next hops -/

/-- One route of the prefix itself: the cheapest route of each face so far, with ties going to the
lowest origin, and whether one captures. -/
def ownStep (s : List (FaceId × (UInt32 × UInt64)) × Bool) (r : RibRoute) :
    List (FaceId × (UInt32 × UInt64)) × Bool :=
  let e := (s.1.lookup r.faceId).getD (0xFFFFFFFF, 0xFFFFFFFFFFFFFFFF)
  (Assoc.insert r.faceId
    (if r.cost < e.1 ∨ (r.cost = e.1 ∧ r.origin < e.2) then (r.cost, r.origin) else e) s.1,
    s.2 || r.captures)

/-- One route of an ancestor: the cheapest inherited route of each face so far, and whether one
captures. -/
def inheritStep (r : RibRoute) : List (FaceId × UInt32) × Bool :=
  (if r.inherits then
      let e := (s.1.lookup r.faceId).getD 0xFFFFFFFF
      Assoc.insert r.faceId (if r.cost < e then r.cost else e) s.1
    else s.1,
    s.2 || r.captures)

/-- The loop over the strict ancestors, the nearest first: `for n in (0..prefix.len()).rev()`. -/
def inheritLoop (self : Rib) (pre : Name) : ℕ → List (FaceId × UInt32) → List (FaceId × UInt32)
  | 0, best => best
  | n + 1, best =>
    match self.routes.lookup (pre.take n) with
    | none => inheritLoop self pre n best
    | some routes =>
      let (best, ancCaptures) := routes.foldl inheritStep (best, false)
      if ancCaptures then best else inheritLoop self pre n best

/-- `effective_nexthops`. The hash maps of the source give their pairs in some order; the next hops
of equal cost are in that order. -/
def effectiveNexthops (pre : Name) : List FibNexthop :=
  match self.routes.lookup pre with
  | none => []
  | some ownEntry =>
    let (bestOwn, ownCaptures) := ownEntry.foldl ownStep ([], false)
    let bestInh := if ownCaptures then [] else self.inheritLoop pre pre.length []
    bestOwn.map (fun x => ⟨x.1, x.2.1.toNat⟩) ++
      (bestInh.filter fun x => (bestOwn.lookup x.1).isNone).map fun x => ⟨x.1, x.2.toNat⟩

/-! ### What they are meant to be -/

def Captures (pre : Name) : Prop := ∃ r ∈ self.routesAt pre, r.captures = true

/-- The costs of a face among the routes of the prefix itself. -/
def ownCosts (pre : Name) (face : FaceId) : Set ℕ :=
  {c | ∃ r ∈ self.routesAt pre, r.faceId = face ∧ r.cost.toNat = c}

/-- The costs of a face among the routes that the prefix inherits: those of a strict ancestor that
children inherit, unless the prefix or an ancestor in between captures. -/
def inheritedCosts (pre : Name) (face : FaceId) : Set ℕ :=
  {c | ∃ anc, anc <+: pre ∧ anc ≠ pre ∧
    (∀ between, anc <+: between → between ≠ anc → between <+: pre → ¬ self.Captures between) ∧
    ∃ r ∈ self.routesAt anc, r.inherits = true ∧ r.faceId = face ∧ r.cost.toNat = c}

/-- A prefix with routes of its own reaches a face at the least cost among its own routes, or, if
none of them is for that face, among the inherited ones. -/
def Effective (pre : Name) (face : FaceId) (cost : ℕ) : Prop :=
  self.routesAt pre ≠ [] ∧
    (IsLeast (self.ownCosts pre face) cost ∨
      self.ownCosts pre face = ∅ ∧ IsLeast (self.inheritedCosts pre face) cost)

lemma effective_congr {rib rib' : Rib} (h : ∀ p, p <+: pre → rib'.routesAt p = rib.routesAt p)
    (face : FaceId) (cost : ℕ) : rib'.Effective pre face cost ↔ rib.Effective pre face cost := by
  have hself := h pre (prefix_refl pre)
  have hown : rib'.ownCosts pre face = rib.ownCosts pre face := by
    rw [ownCosts, ownCosts, hself]
  have hcaptures : ∀ p, p <+: pre → (rib'.Captures p ↔ rib.Captures p) := by
    intro p hp
    rw [Captures, Captures, h p hp]
  have hinh : rib'.inheritedCosts pre face = rib.inheritedCosts pre face := by
    ext c
    constructor
    · rintro ⟨anc, hanc, hne, hbtw, hr⟩
      rw [h anc hanc] at hr
      refine ⟨anc, hanc, hne, fun b hab hb hbp => ?_, hr⟩
      exact fun hcap => hbtw b hab hb hbp ((hcaptures b hbp).mpr hcap)
    · rintro ⟨anc, hanc, hne, hbtw, hr⟩
      rw [← h anc hanc] at hr
      refine ⟨anc, hanc, hne, fun b hab hb hbp => ?_, hr⟩
      exact fun hcap => hbtw b hab hb hbp ((hcaptures b hbp).mp hcap)
  rw [Effective, Effective, hself, hown, hinh]

/-! ### That they are computed -/

/-- The table maps each face to the least of its costs. -/
def Tracks (best : FaceId → Option ℕ) (costs : FaceId → Set ℕ) : Prop :=
  ∀ face c, best face = some c ↔ IsLeast (costs face) c

namespace Tracks

variable {best best' : FaceId → Option ℕ} {costs costs' : FaceId → Set ℕ}

lemma eq_empty (h : Tracks best costs) {face : FaceId} (hnone : best face = none) :
    costs face = ∅ := by
  by_contra hne
  have hmem := Nat.sInf_mem (Set.nonempty_iff_ne_empty.mpr hne)
  have hleas : IsLeast (costs face) (sInf (costs face)) := ⟨hmem, fun c hc => Nat.sInf_le hc⟩
  rw [(h face _).mpr hleas] at hnone
  cases hnone

lemma add (h : Tracks best costs) (face : FaceId) (cost dflt : ℕ) (hdflt : cost ≤ dflt)
    (hface : best' face = some (min cost ((best face).getD dflt)))
    (hoth : ∀ g, g ≠ face → best' g = best g) (hcos : costs' face = insert cost (costs face))
    (hcos' : ∀ g, g ≠ face → costs' g = costs g) : Tracks best' costs' := by
  intro g c
  by_cases hg : g = face
  · subst hg
    rw [hface, hcos, Option.some.injEq]
    have hleas : IsLeast (insert cost (costs g)) (min cost ((best g).getD dflt)) := by
      cases hbest : best g with
      | none =>
        rw [h.eq_empty hbest, Option.getD_none, min_eq_left hdflt, insert_empty_eq]
        exact isLeast_singleton
      | some b => exact ((h g b).mp hbest).insert cost
    exact ⟨fun hc => hc ▸ hleas, fun hc => hleas.unique hc⟩
  · rw [hoth g hg, hcos' g hg]
    exact h g c

lemma congr (h : Tracks best costs) (hcos : ∀ face, costs' face = costs face) :
    Tracks best costs' := by
  intro face c
  rw [hcos face]
  exact h face c

/-- A loop over routes that adds the costs `gives r` for each route `r`. -/
lemma foldl {σ : Type} {read : σ → FaceId → Option ℕ} {step : σ → RibRoute → σ}
    {gives : RibRoute → FaceId → Set ℕ} (hstep : ∀ s r costs, Tracks (read s) costs →
      Tracks (read (step s r)) fun face => costs face ∪ gives r face)
    (rs : List RibRoute) (s : σ) (h : Tracks (read s) costs) :
    Tracks (read (rs.foldl step s)) fun face => costs face ∪ {c | ∃ r ∈ rs, c ∈ gives r face} := by
  induction rs generalizing s costs with
  | nil => exact h.congr fun face => by simp
  | cons r rs ih =>
    refine (ih (step s r) (hstep s r costs h)).congr fun face => ?_
    ext c
    simp only [Set.mem_union, Set.mem_ofPred_eq, exists_mem_cons_iff, or_assoc]

end Tracks

lemma min_toNat (a b : UInt32) : min a.toNat b.toNat = (if a < b then a else b).toNat := by
  split_ifs with h
  · exact min_eq_left (UInt32.lt_iff_toNat_lt.mp h).le
  · exact min_eq_right (not_lt.mp fun hlt => h (UInt32.lt_iff_toNat_lt.mpr hlt))

/-- The costs in the table of own routes. -/
def ownBest (s : List (FaceId × (UInt32 × UInt64)) × Bool) (face : FaceId) : Option ℕ :=
  (s.1.lookup face).map fun e => e.1.toNat

/-- The costs in the table of inherited routes. -/
def inheritedBest (face : FaceId) : Option ℕ :=
  (s.1.lookup face).map UInt32.toNat

lemma tracks_ownStep (s : List (FaceId × (UInt32 × UInt64)) × Bool) (r : RibRoute)
    (costs : FaceId → Set ℕ) (h : Tracks (ownBest s) costs) :
    Tracks (ownBest (ownStep s r)) fun face =>
      costs face ∪ {c | r.faceId = face ∧ r.cost.toNat = c} := by
  refine h.add r.faceId r.cost.toNat 0xFFFFFFFF ?_ ?_ ?_ ?_ ?_
  · have := r.cost.toNat_lt
    omega
  · -- the tie on costs changes the origin only
    have hdflt : (ownBest s r.faceId).getD 0xFFFFFFFF =
        ((s.1.lookup r.faceId).getD (0xFFFFFFFF, 0xFFFFFFFFFFFFFFFF)).1.toNat := by
      rw [ownBest]
      cases s.1.lookup r.faceId <;> rfl
    rw [hdflt, min_toNat, ownBest, ownStep, Assoc.lookup_insert, if_pos rfl, Option.map_some]
    generalize (s.1.lookup r.faceId).getD (0xFFFFFFFF, 0xFFFFFFFFFFFFFFFF) = e
    by_cases hlt : r.cost < e.1
    · rw [if_pos hlt, if_pos (.inl hlt)]
    · split_ifs with htie
      · rw [(htie.resolve_left hlt).1]
      · rfl
  · intro g hg
    rw [ownBest, ownStep, Assoc.lookup_insert, if_neg hg]
    rfl
  · ext c
    simp [eq_comm, or_comm]
  · intro g hg
    ext c
    simp [hg.symm]

lemma tracks_inheritStep (r : RibRoute)
    (costs : FaceId → Set ℕ) (h : Tracks (inheritedBest s) costs) :
    Tracks (inheritedBest (inheritStep s r)) fun face =>
      costs face ∪ {c | r.inherits = true ∧ r.faceId = face ∧ r.cost.toNat = c} := by
  by_cases hr : r.inherits = true
  swap
  · rw [inheritStep, if_neg hr]
    exact h.congr fun face => by simp [hr]
  refine h.add r.faceId r.cost.toNat 0xFFFFFFFF ?_ ?_ ?_ ?_ ?_
  · have := r.cost.toNat_lt
    omega
  · have hdflt : (inheritedBest s r.faceId).getD 0xFFFFFFFF =
        ((s.1.lookup r.faceId).getD 0xFFFFFFFF).toNat := by
      rw [inheritedBest]
      cases s.1.lookup r.faceId <;> rfl
    rw [hdflt, min_toNat, inheritedBest, inheritStep, if_pos hr, Assoc.lookup_insert, if_pos rfl,
      Option.map_some]
  · intro g hg
    rw [inheritedBest, inheritStep, if_pos hr, Assoc.lookup_insert, if_neg hg]
    rfl
  · ext c
    simp [hr, eq_comm, or_comm]
  · intro g hg
    ext c
    simp [hg.symm]

lemma foldl_snd (step : α × Bool → RibRoute → α × Bool)
    (hstep : ∀ s r, (step s r).2 = (s.2 || r.captures)) (rs : List RibRoute) (s : α × Bool) :
    (rs.foldl step s).2 = (s.2 || rs.any RibRoute.captures) := by
  induction rs generalizing s with
  | nil => simp
  | cons r rs ih => rw [foldl_cons, ih, hstep, any_cons, Bool.or_assoc]

lemma any_captures_iff (pre : Name) :
    (self.routesAt pre).any RibRoute.captures = true ↔ self.Captures pre := by
  rw [any_eq_true, Captures]

lemma inheritLoop_succ (pre : Name) (n : ℕ) (best : List (FaceId × UInt32)) :
    self.inheritLoop pre (n + 1) best =
      if (self.routesAt (pre.take n)).any RibRoute.captures then
        ((self.routesAt (pre.take n)).foldl inheritStep (best, false)).1
      else self.inheritLoop pre n
        ((self.routesAt (pre.take n)).foldl inheritStep (best, false)).1 := by
  rw [inheritLoop, routesAt]
  cases self.routes.lookup (pre.take n) with
  | none => rfl
  | some routes =>
    have hcap := foldl_snd inheritStep (fun _ _ => rfl) routes (best, false)
    rw [Bool.false_or] at hcap
    simp only [hcap, Option.getD_some]

/-- The costs of a face that the loop collects from ancestors of fewer than `k` components. -/
def loopCosts (pre : Name) (k : ℕ) (face : FaceId) : Set ℕ :=
  {c | ∃ n < k, (∀ m, n < m → m < k → ¬ self.Captures (pre.take m)) ∧
    ∃ r ∈ self.routesAt (pre.take n), r.inherits = true ∧ r.faceId = face ∧ r.cost.toNat = c}

/-- The loop over the ancestors collects what they pass on. -/
lemma tracks_inheritLoop (pre : Name) (k : ℕ) (best : List (FaceId × UInt32))
    (costs : FaceId → Set ℕ) (h : Tracks (inheritedBest (best, false)) costs) :
    Tracks (inheritedBest (self.inheritLoop pre k best, false)) fun face =>
      costs face ∪ self.loopCosts pre k face := by
  induction k generalizing best costs with
  | zero => exact h.congr fun face => by simp [loopCosts]
  | succ n ih =>
    have hstep := Tracks.foldl tracks_inheritStep (self.routesAt (pre.take n)) (best, false) h
    rw [inheritLoop_succ]
    split_ifs with hcap
    · -- nothing passes a capturing ancestor
      rw [any_captures_iff] at hcap
      refine .congr hstep fun face => ?_
      ext c
      refine or_congr_right ⟨?_, fun hr => ⟨n, Nat.lt_succ_self n, ?_, hr⟩⟩
      · rintro ⟨m, hm, hbtw, hr⟩
        rcases Nat.lt_or_eq_of_le (Nat.lt_succ_iff.mp hm) with hlt | rfl
        · exact absurd hcap (hbtw n hlt (Nat.lt_succ_self n))
        · exact hr
      · intro m hm hm'
        omega
    · rw [any_captures_iff] at hcap
      refine (ih _ _ hstep).congr fun face => ?_
      ext c
      simp only [Set.mem_union, loopCosts, Set.mem_ofPred_eq, or_assoc]
      refine or_congr_right ⟨?_, ?_⟩
      · rintro ⟨m, hm, hbtw, hr⟩
        rcases Nat.lt_or_eq_of_le (Nat.lt_succ_iff.mp hm) with hlt | rfl
        · exact .inr ⟨m, hlt, fun j hj hj' => hbtw j hj (hj'.trans (Nat.lt_succ_self n)), hr⟩
        · exact .inl hr
      · rintro (hr | ⟨m, hm, hbtw, hr⟩)
        · exact ⟨n, Nat.lt_succ_self n, fun m hm hm' => by omega, hr⟩
        · refine ⟨m, hm.trans (Nat.lt_succ_self n), fun j hj hj' => ?_, hr⟩
          rcases Nat.lt_or_eq_of_le (Nat.lt_succ_iff.mp hj') with hlt | rfl
          · exact hbtw j hj hlt
          · exact hcap

/-- Without a capturing route of its own, a prefix inherits what the loop collects. -/
lemma loopCosts_eq (pre : Name) (hcap : ¬ self.Captures pre) (face : FaceId) :
    self.loopCosts pre pre.length face = self.inheritedCosts pre face := by
  ext c
  constructor
  · rintro ⟨n, hn, hbtw, hr⟩
    have hlen : (pre.take n).length = n := by
      rw [length_take]
      omega
    refine ⟨pre.take n, List.take_prefix n pre, fun heq => ?_, fun b hab hb hbp => ?_, hr⟩
    · rw [heq] at hlen
      omega
    rw [prefix_iff_eq_take.mp hbp]
    have hle := hab.length_le
    have hne : n ≠ b.length := fun heq => hb ((hab.eq_of_length (by rw [hlen, heq])).symm)
    rcases Nat.lt_or_eq_of_le hbp.length_le with hlt | heq
    · exact hbtw _ (by omega) hlt
    · rw [heq, take_length]
      exact hcap
  · rintro ⟨anc, hanc, hne, hbtw, hr⟩
    have hlt : anc.length < pre.length :=
      lt_of_le_of_ne hanc.length_le fun heq => hne (hanc.eq_of_length heq)
    have heq : pre.take anc.length = anc := (prefix_iff_eq_take.mp hanc).symm
    refine ⟨anc.length, hlt, fun m hm hm' => ?_, by rw [heq]; exact hr⟩
    have hlen : (pre.take m).length = m := by
      rw [length_take]
      omega
    apply hbtw (pre.take m)
    · conv_lhs => rw [← heq]
      exact take_prefix_take_left hm.le
    · intro hsame
      rw [hsame] at hlen
      omega
    · exact List.take_prefix m pre

lemma inheritedCosts_of_captures (hcap : self.Captures pre)
    (face : FaceId) : self.inheritedCosts pre face = ∅ := by
  ext c
  simp only [Set.mem_empty_iff_false, iff_false]
  rintro ⟨anc, hanc, hne, hbtw, -⟩
  exact hbtw pre hanc hne.symm (prefix_refl pre) hcap

/-! ### The list of next hops -/

/-- The tables of `effective_nexthops`. -/
def ownTable (pre : Name) : List (FaceId × (UInt32 × UInt64)) :=
  ((self.routesAt pre).foldl ownStep ([], false)).1

@[inherit_doc ownTable]
def inheritedTable (pre : Name) : List (FaceId × UInt32) :=
  if (self.routesAt pre).any RibRoute.captures then [] else self.inheritLoop pre pre.length []

lemma effectiveNexthops_eq (pre : Name) :
    self.effectiveNexthops pre =
      if self.routesAt pre = [] then []
      else (self.ownTable pre).map (fun x => ⟨x.1, x.2.1.toNat⟩) ++
        ((self.inheritedTable pre).filter fun x => ((self.ownTable pre).lookup x.1).isNone).map
          fun x => ⟨x.1, x.2.toNat⟩ := by
  have hcap := foldl_snd ownStep (fun _ _ => rfl) (self.routesAt pre) ([], false)
  rw [effectiveNexthops, lookup_eq]
  split_ifs with hnil
  · rfl
  · simp only [hcap]
    rfl

lemma tracks_ownTable (pre : Name) :
    Tracks (fun face => ((self.ownTable pre).lookup face).map fun e => e.1.toNat)
      (self.ownCosts pre) := by
  have hemp : Tracks (ownBest ([], false)) fun _ => ∅ := by
    intro face c
    simp [ownBest, IsLeast]
  refine (Tracks.foldl tracks_ownStep (self.routesAt pre) ([], false) hemp).congr fun face => ?_
  rw [Set.empty_union]
  rfl

lemma tracks_inheritedTable (pre : Name) :
    Tracks (fun face => ((self.inheritedTable pre).lookup face).map UInt32.toNat)
      (self.inheritedCosts pre) := by
  have hemp : Tracks (inheritedBest ([], false)) fun _ => ∅ := by
    intro face c
    simp [inheritedBest, IsLeast]
  by_cases hcap : self.Captures pre
  · rw [inheritedTable, if_pos ((any_captures_iff self pre).mpr hcap)]
    exact hemp.congr fun face => self.inheritedCosts_of_captures hcap face
  · rw [inheritedTable, if_neg fun h => hcap ((any_captures_iff self pre).mp h)]
    refine (self.tracks_inheritLoop pre pre.length [] _ hemp).congr fun face => ?_
    rw [Set.empty_union, loopCosts_eq self pre hcap]

lemma nodup_foldl {step : List (FaceId × α) × Bool → RibRoute → List (FaceId × α) × Bool}
    (hstep : ∀ s r, Assoc.Keyed s.1 → Assoc.Keyed (step s r).1)
    (rs : List RibRoute) (s : List (FaceId × α) × Bool) (h : Assoc.Keyed s.1) :
    Assoc.Keyed (rs.foldl step s).1 :=
  foldlRecOn (motive := fun s => Assoc.Keyed s.1) rs step h fun s h r _ => hstep s r h

lemma nodup_ownTable (pre : Name) : Assoc.Keyed (self.ownTable pre) :=
  nodup_foldl (fun _ _ h => Assoc.nodup_keys_insert _ _ h) _ _ nodup_nil

lemma nodup_inheritStep (r : RibRoute) (h : Assoc.Keyed s.1) : Assoc.Keyed (inheritStep s r).1 := by
  rw [inheritStep]
  split_ifs
  · exact Assoc.nodup_keys_insert _ _ h
  · exact h

section

variable (pre : Name)

lemma nodup_inheritLoop (k : ℕ) {best : List (FaceId × UInt32)} (h : Assoc.Keyed best) :
    Assoc.Keyed (self.inheritLoop pre k best) := by
  induction k generalizing best with
  | zero => exact h
  | succ n ih =>
    rw [inheritLoop_succ]
    have hfold := nodup_foldl nodup_inheritStep (self.routesAt (pre.take n)) (best, false) h
    split_ifs
    · exact hfold
    · exact ih hfold

lemma nodup_inheritedTable : Assoc.Keyed (self.inheritedTable pre) := by
  rw [inheritedTable]
  split_ifs
  · exact nodup_nil
  · exact self.nodup_inheritLoop pre _ nodup_nil

/-- **The next hops are the effective ones.** -/
theorem mem_effectiveNexthops_iff (hop : FibNexthop) :
    hop ∈ self.effectiveNexthops pre ↔ self.Effective pre hop.faceId hop.cost := by
  obtain ⟨face, cost⟩ := hop
  have hown := self.tracks_ownTable pre face cost
  have hinh := self.tracks_inheritedTable pre face cost
  have hemp : (self.ownTable pre).lookup face = none ↔ self.ownCosts pre face = ∅ := by
    constructor
    · intro hnone
      exact (self.tracks_ownTable pre).eq_empty (by rw [hnone, Option.map_none])
    intro hnil
    cases hget : (self.ownTable pre).lookup face with
    | none => rfl
    | some e =>
      have hleas := (self.tracks_ownTable pre face e.1.toNat).mp
        (by simp only [hget, Option.map_some])
      rw [hnil] at hleas
      exact absurd hleas.1 (Set.notMem_empty _)
  rw [effectiveNexthops_eq, Effective, ← hown, ← hemp, ← hinh]
  split_ifs with hnil
  · simp [hnil]
  simp only [hnil, ne_eq, not_false_eq_true, true_and, mem_append, mem_map,
    mem_filter, FibNexthop.mk.injEq, Option.map_eq_some_iff, Option.isNone_iff_eq_none]
  constructor
  · rintro (⟨⟨f, e⟩, hmem, rfl, rfl⟩ | ⟨⟨f, c⟩, ⟨hmem, hnone⟩, rfl, rfl⟩)
    · exact .inl ⟨e, (Assoc.lookup_eq_some_iff (self.nodup_ownTable pre)).mpr hmem, rfl⟩
    · exact .inr ⟨hnone, c,
        (Assoc.lookup_eq_some_iff (self.nodup_inheritedTable pre)).mpr hmem, rfl⟩
  · rintro (⟨e, hget, rfl⟩ | ⟨hnone, c, hget, rfl⟩)
    · exact .inl ⟨(face, e), (Assoc.lookup_eq_some_iff (self.nodup_ownTable pre)).mp hget, rfl, rfl⟩
    · exact .inr ⟨(face, c), ⟨(Assoc.lookup_eq_some_iff (self.nodup_inheritedTable pre)).mp hget,
        hnone⟩, rfl, rfl⟩

lemma nodup_effectiveNexthops : ((self.effectiveNexthops pre).map FibNexthop.faceId).Nodup := by
  rw [effectiveNexthops_eq]
  split_ifs with hnil
  · exact nodup_nil
  rw [map_append, map_map, map_map]
  refine nodup_append.mpr ⟨self.nodup_ownTable pre, ?_, ?_⟩
  · exact (self.nodup_inheritedTable pre).sublist (.map _ filter_sublist)
  -- an inherited next hop is listed for faces without an own one only
  rintro _ hf _ hg rfl
  obtain ⟨x, hx, hxf⟩ := mem_map.mp hg
  have hnone := (mem_filter.mp hx).2
  rw [Option.isNone_iff_eq_none, Assoc.lookup_eq_none_iff] at hnone
  apply hnone
  rw [show x.1 = _ from hxf]
  exact hf

end

end Rib

end NdnRs
