import NdnRs.Forwarding.Fib

/-!
# Reverse routes (`ndn-engine/src/reflexive.rs`)

An Interest with a reflexive name leaves a temporary route back to the face it came from; a later
Interest under that name is sent along it. A lookup takes the route of the longest prefix and then
looks at its time. If that is over there is no result, even where a shorter prefix has a route whose
time is not over.

## Main results

* `lookup_correct_iff` — when a lookup is right.
* `counters_run` — counters and quotas.
-/

namespace NdnRs

open List Option Assoc

/-- `ReflexiveConfig`; the lifetime is in nanoseconds. -/
structure ReflexiveConfig where
  enabled : Bool := true
  maxPerFace : ℕ := 256
  maxLifetimeNs : ℕ := 8000000000

structure ReflexiveRoute where
  faceId : FaceId
  expiryNs : ℕ
  deriving DecidableEq

structure ReflexiveTable where
  routes : Trie NameComponent ReflexiveRoute
  perFace : List (FaceId × ℕ)
  live : ℕ
  enabled : Bool
  maxPerFace : ℕ
  maxLifetimeNs : ℕ
  installs : ℕ
  refused : ℕ
  expired : ℕ
  lookupHits : ℕ

namespace ReflexiveTable

def new (config : ReflexiveConfig) : ReflexiveTable :=
  { routes := .empty
    perFace := []
    live := 0
    enabled := config.enabled
    maxPerFace := config.maxPerFace
    maxLifetimeNs := config.maxLifetimeNs % 2 ^ 64
    installs := 0
    refused := 0
    expired := 0
    lookupHits := 0 }

variable (self : ReflexiveTable) (reflexiveName : Name) (faceId : FaceId)

def isEmpty : Bool := self.live = 0

def routeCount : ℕ := (self.perFace.lookup faceId).getD 0

/-- `per_face.entry(face_id).or_insert(0)`. -/
def orInsertZero : ReflexiveTable :=
  { self with perFace := Assoc.insert faceId (self.routeCount faceId) self.perFace }

def decrement : ReflexiveTable :=
  match self.perFace.lookup faceId with
  | some c => { self with perFace := Assoc.insert faceId (c - 1) self.perFace }
  | none => self

/-- `fetch_sub` on the atomic counter, which wraps. -/
def fetchSub (n removed : ℕ) : ℕ := if removed ≤ n then n - removed else n + 2 ^ 64 - removed

/-- The route that `install` makes; its time saturates. -/
def routeFor (maxLifetimeNs : ℕ) (faceId : FaceId) (lifetimeNs nowNs : ℕ) : ReflexiveRoute :=
  ⟨faceId, min (nowNs + min lifetimeNs maxLifetimeNs) (2 ^ 64 - 1)⟩

def install (lifetimeNs nowNs : ℕ) : ReflexiveTable × Bool :=
  if self.enabled = false then ({ self with refused := self.refused + 1 }, false)
  else
    let route := routeFor self.maxLifetimeNs faceId lifetimeNs nowNs
    match self.routes.get reflexiveName with
    | some existing =>
      if existing.faceId ≠ faceId then ({ self with refused := self.refused + 1 }, false)
      else ({ self with routes := self.routes.insert reflexiveName route }, true)
    | none =>
      let self := self.orInsertZero faceId
      let count := self.routeCount faceId
      if count ≥ self.maxPerFace then ({ self with refused := self.refused + 1 }, false)
      else
        ({ self with
            perFace := Assoc.insert faceId (count + 1) self.perFace
            routes := self.routes.insert reflexiveName route
            live := self.live + 1
            installs := self.installs + 1 }, true)

def lookup (name : Name) (nowNs : ℕ) : Option FaceId × ReflexiveTable :=
  match self.routes.lpm name with
  | none => (none, self)
  | some route =>
    if route.expiryNs ≤ nowNs then (none, self)
    else (some route.faceId, { self with lookupHits := self.lookupHits + 1 })

/-- One route leaves the trie. -/
def removeRoute (name : Name) : ReflexiveTable :=
  { self with routes := self.routes.remove name }

def remove : ReflexiveTable :=
  match self.routes.get reflexiveName with
  | some route =>
    let self := (self.removeRoute reflexiveName).decrement route.faceId
    { self with live := fetchSub self.live 1 }
  | none => self

/-- The loops over all routes: those that `drops` selects are dropped, and counted. -/
def dropLoop (drops : ReflexiveRoute → Bool)
    (drop : ReflexiveTable → Name → ReflexiveRoute → ReflexiveTable) :
    List (Name × ReflexiveRoute) → ReflexiveTable → ℕ → ReflexiveTable × ℕ
  | [], self, removed => (self, removed)
  | (name, route) :: rest, self, removed =>
    if drops route then dropLoop drops drop rest (drop self name route) (removed + 1)
    else dropLoop drops drop rest self removed

def removeFace : ReflexiveTable :=
  let (self, removed) := dropLoop (fun route => route.faceId = faceId)
    (fun self name _ => self.removeRoute name) self.routes.dump self 0
  { self with
    perFace := Assoc.erase faceId self.perFace
    live := fetchSub self.live removed }

def sweep (now : ℕ) : ReflexiveTable × ℕ :=
  let (self, removed) := dropLoop (fun route => route.expiryNs ≤ now)
    (fun self name route => (self.removeRoute name).decrement route.faceId) self.routes.dump self 0
  ({ self with
      live := fetchSub self.live removed
      expired := self.expired + removed }, removed)

def flush : ReflexiveTable × ℕ :=
  let (self, removed) := dropLoop (fun _ => true)
    (fun self name _ => self.removeRoute name) self.routes.dump self 0
  ({ self with perFace := [], live := 0 }, removed)

/-- The operations on a table. -/
inductive Op where
  | install (reflexiveName : Name) (faceId : FaceId) (lifetimeNs nowNs : ℕ)
  | lookup (name : Name) (nowNs : ℕ)
  | remove (reflexiveName : Name)
  | removeFace (faceId : FaceId)
  | sweep (now : ℕ)
  | flush
  | setEnabled (enabled : Bool)
  | setMaxPerFace (max : ℕ)
  | setMaxLifetime (maxNs : ℕ)

def step : Op → ReflexiveTable
  | .install reflexiveName faceId lifetimeNs nowNs =>
    (self.install reflexiveName faceId lifetimeNs nowNs).1
  | .lookup name nowNs => (self.lookup name nowNs).2
  | .remove reflexiveName => self.remove reflexiveName
  | .removeFace faceId => self.removeFace faceId
  | .sweep now => (self.sweep now).1
  | .flush => self.flush.1
  | .setEnabled enabled => { self with enabled := enabled }
  | .setMaxPerFace max => { self with maxPerFace := max }
  | .setMaxLifetime maxNs => { self with maxLifetimeNs := maxNs % 2 ^ 64 }

end ReflexiveTable

/-! ## What the table is for -/

/-- Routes by their names, and the limits on them. -/
structure ReflexiveSpec where
  routes : List (Name × ReflexiveRoute)
  enabled : Bool
  maxPerFace : ℕ
  maxLifetimeNs : ℕ

namespace ReflexiveSpec

def new (config : ReflexiveConfig) : ReflexiveSpec :=
  ⟨[], config.enabled, config.maxPerFace, config.maxLifetimeNs % 2 ^ 64⟩

variable (spec : ReflexiveSpec)

/-- How many routes lead to the face. -/
def routeCount (faceId : FaceId) : ℕ :=
  spec.routes.countP fun x => x.2.faceId = faceId

/-- A route may be installed: its name has a route to the same face already, or it has none and the
face has fewer than it may have. -/
def Accepts (reflexiveName : Name) (faceId : FaceId) : Prop :=
  spec.enabled = true ∧
    ((spec.routes.lookup reflexiveName).map ReflexiveRoute.faceId = some faceId ∨
      spec.routes.lookup reflexiveName = none ∧ spec.routeCount faceId < spec.maxPerFace)

instance (spec : ReflexiveSpec) (reflexiveName : Name) (faceId : FaceId) :
    Decidable (spec.Accepts reflexiveName faceId) :=
  inferInstanceAs (Decidable (_ ∧ (_ ∨ _ ∧ _)))

/-- Only the routes that `keeps` selects stay. -/
def keep (keeps : ReflexiveRoute → Bool) : ReflexiveSpec :=
  { spec with routes := spec.routes.filter fun x => keeps x.2 }

/-- What an operation does to the routes. -/
def step : ReflexiveTable.Op → ReflexiveSpec
  | .install reflexiveName faceId lifetimeNs nowNs =>
    if spec.Accepts reflexiveName faceId then
      { spec with
        routes := Assoc.insert reflexiveName
          (ReflexiveTable.routeFor spec.maxLifetimeNs faceId lifetimeNs nowNs) spec.routes }
    else spec
  | .lookup _ _ => spec
  | .remove reflexiveName => { spec with routes := Assoc.erase reflexiveName spec.routes }
  | .removeFace faceId => spec.keep fun route => route.faceId ≠ faceId
  | .sweep now => spec.keep fun route => now < route.expiryNs
  | .flush => spec.keep fun _ => false
  | .setEnabled enabled => { spec with enabled := enabled }
  | .setMaxPerFace max => { spec with maxPerFace := max }
  | .setMaxLifetime maxNs => { spec with maxLifetimeNs := maxNs % 2 ^ 64 }

/-- The route of a name, if its time is not over. -/
def liveRoute (now : ℕ) (name : Name) : Option ReflexiveRoute :=
  (spec.routes.lookup name).filter fun route => now < route.expiryNs

/-- **What a lookup should return**: the face of the longest prefix that has a live route, and
nothing only if no prefix has one. -/
def LookupCorrect (name : Name) (now : ℕ) (result : Option FaceId) : Prop :=
  (∀ face, result = some face ↔
    ∃ pre route, Trie.LongestMatch (spec.liveRoute now) name pre route ∧ route.faceId = face) ∧
  (result = none → ∀ pre, pre <+: name → spec.liveRoute now pre = none)

/-- If the route of the longest prefix has expired, so have those of all shorter ones. -/
def Unshadowed (name : Name) (now : ℕ) : Prop :=
  ∀ pre route, Trie.LongestMatch (fun pre => spec.routes.lookup pre) name pre route →
    route.expiryNs ≤ now → ∀ pre', pre' <+: name → spec.liveRoute now pre' = none

end ReflexiveSpec

namespace ReflexiveTable

/-! ## The table and the map -/

/-- **The table holds the routes of the map**, and counts them. -/
structure Agree (t : ReflexiveTable) (spec : ReflexiveSpec) : Prop where
  wf : t.routes.Wf
  distinct : Keyed spec.routes
  routes : ∀ name, t.routes.get name = spec.routes.lookup name
  counted : ∀ faceId, t.routeCount faceId = spec.routeCount faceId
  live : t.live = spec.routes.length
  enabled : t.enabled = spec.enabled
  maxPerFace : t.maxPerFace = spec.maxPerFace
  maxLifetimeNs : t.maxLifetimeNs = spec.maxLifetimeNs

section

variable {t : ReflexiveTable} {spec : ReflexiveSpec} {faceId : FaceId} {c : ℕ}

lemma agree_new (config : ReflexiveConfig) : (new config).Agree (.new config) where
  wf := Trie.wf_empty
  distinct := nodup_nil
  routes name := Trie.get_empty name
  counted _ := rfl
  live := rfl
  enabled := rfl
  maxPerFace := rfl
  maxLifetimeNs := rfl

lemma routeCount_insert (faceId' : FaceId) :
    { t with perFace := insert faceId c t.perFace }.routeCount faceId' =
      if faceId' = faceId then c else t.routeCount faceId' := by
  rw [routeCount, lookup_insert]
  split_ifs <;> rfl

lemma routeCount_orInsertZero (faceId' : FaceId) :
    (t.orInsertZero faceId).routeCount faceId' = t.routeCount faceId' := by
  rw [orInsertZero, routeCount_insert]
  split_ifs with heq
  · rw [heq]
  · rfl

lemma routeCount_install_le (reflexiveName : Name) (faceId faceId' : FaceId)
    (lifetimeNs nowNs : ℕ) :
    (t.install reflexiveName faceId lifetimeNs nowNs).1.routeCount faceId' ≤
      max (t.routeCount faceId') t.maxPerFace := by
  rw [install]
  by_cases hen : t.enabled = false
  · rw [if_pos hen]
    exact le_max_left _ _
  rw [if_neg hen]
  cases t.routes.get reflexiveName with
  | some existing =>
    simp only
    split_ifs
    all_goals exact le_max_left _ _
  | none =>
    simp only
    split_ifs with hfull
    · exact (routeCount_orInsertZero faceId').le.trans (le_max_left _ _)
    · refine (routeCount_insert (t := t.orInsertZero faceId) faceId').le.trans ?_
      split_ifs
      · exact (not_le.mp hfull).trans_le (le_max_right _ _)
      · exact (routeCount_orInsertZero faceId').le.trans (le_max_left _ _)

lemma routeCount_decrement (faceId' : FaceId) :
    (t.decrement faceId).routeCount faceId' =
      if faceId' = faceId then t.routeCount faceId - 1 else t.routeCount faceId' := by
  rw [decrement]
  cases hc : t.perFace.lookup faceId with
  | none =>
    split_ifs with heq
    · rw [heq, routeCount, hc]
      rfl
    · rfl
  | some c =>
    have hcnt : t.routeCount faceId = c := by rw [routeCount, hc, getD_some]
    rw [routeCount_insert, hcnt]

variable {name : Name} {route : ReflexiveRoute}

section

variable {l : List (Name × ReflexiveRoute)} (hl : Keyed l)
  (hname : l.lookup name = some route)
include hl hname

lemma countP_erase (faceId : FaceId) :
    (erase name l).countP (fun x => x.2.faceId = faceId) =
      if faceId = route.faceId then l.countP (fun x => x.2.faceId = faceId) - 1
      else l.countP fun x => x.2.faceId = faceId := by
  have hcnt := countP_erase_of_lookup
    (fun x : Name × ReflexiveRoute => decide (x.2.faceId = faceId)) hl hname
  simp only [decide_eq_true_eq] at hcnt
  split_ifs with heq
  · rw [if_pos heq.symm] at hcnt
    omega
  · rw [if_neg (Ne.symm heq)] at hcnt
    omega

lemma length_erase : (erase name l).length + 1 = l.length := by
  rw [← total_one, ← total_one]
  exact total_erase (fun _ => 1) hl hname

end

section

variable (h : t.Agree spec)
include h

lemma Agree.refused : Agree { t with refused := t.refused + 1 } spec := { h with }

lemma Agree.orInsertZero (faceId : FaceId) : (t.orInsertZero faceId).Agree spec :=
  { h with counted := fun faceId' => (routeCount_orInsertZero faceId').trans (h.counted _) }

lemma Agree.refresh {existing : ReflexiveRoute} (hname : t.routes.get name = some existing)
    (hface : existing.faceId = route.faceId) : Agree { t with routes := t.routes.insert name route }
      { spec with routes := insert name route spec.routes } := by
  rw [h.routes] at hname
  refine ⟨h.wf.insert _ _, nodup_keys_insert _ _ h.distinct, fun name' => ?_,
    fun faceId => ?_, ?_, h.enabled, h.maxPerFace, h.maxLifetimeNs⟩
  · rw [Trie.get_insert, lookup_insert, h.routes]
  · have hcnt := countP_insert_of_lookup (v := route)
      (fun x : Name × ReflexiveRoute => decide (x.2.faceId = faceId)) h.distinct hname
    rw [hface] at hcnt
    exact (h.counted faceId).trans (Nat.add_right_cancel hcnt).symm
  · have hlen := total_insert (fun _ => 1) name route spec.routes
    rw [total_one, total_one, hname, map_some, getD_some] at hlen
    exact h.live.trans (Nat.add_right_cancel hlen).symm

lemma Agree.add (hname : t.routes.get name = none) (route : ReflexiveRoute) :
    Agree { t with
        perFace := Assoc.insert route.faceId (t.routeCount route.faceId + 1) t.perFace
        routes := t.routes.insert name route
        live := t.live + 1
        installs := t.installs + 1 }
      { spec with routes := Assoc.insert name route spec.routes } := by
  rw [h.routes] at hname
  have habs := Assoc.lookup_eq_none_iff.mp hname
  refine ⟨h.wf.insert _ _, Assoc.nodup_keys_insert _ _ h.distinct, fun name' => ?_,
    fun faceId => ?_, ?_, h.enabled, h.maxPerFace, h.maxLifetimeNs⟩
  · rw [Trie.get_insert, Assoc.lookup_insert, h.routes]
  · have hcnt := Assoc.countP_insert_of_not_mem (v := route)
      (fun x : Name × ReflexiveRoute => decide (x.2.faceId = faceId)) habs
    refine (routeCount_insert (t := t) faceId).trans ?_
    rw [ReflexiveSpec.routeCount, hcnt, h.counted, h.counted, ReflexiveSpec.routeCount,
      ReflexiveSpec.routeCount]
    simp only [decide_eq_true_eq]
    split_ifs with heq hne hne
    · rw [heq]
    · exact absurd heq.symm hne
    · exact absurd hne.symm heq
    · rfl
  · have hlen := Assoc.total_insert (fun _ => 1) name route spec.routes
    rw [Assoc.total_one, Assoc.total_one, hname, map_none, getD_none] at hlen
    exact (congrArg (· + 1) h.live).trans hlen.symm

lemma agree_install (reflexiveName : Name) (faceId : FaceId) (lifetimeNs nowNs : ℕ) :
    (t.step (.install reflexiveName faceId lifetimeNs nowNs)).Agree
      (spec.step (.install reflexiveName faceId lifetimeNs nowNs)) := by
  have hrts := h.routes reflexiveName
  have hrte : routeFor spec.maxLifetimeNs faceId lifetimeNs nowNs =
      routeFor t.maxLifetimeNs faceId lifetimeNs nowNs := by rw [h.maxLifetimeNs]
  have hto : (routeFor t.maxLifetimeNs faceId lifetimeNs nowNs).faceId = faceId := rfl
  rw [step, ReflexiveSpec.step, install, hrte]
  generalize routeFor t.maxLifetimeNs faceId lifetimeNs nowNs = route at hto ⊢
  subst hto
  by_cases hen : t.enabled = false
  · have hrfs : ¬ spec.Accepts reflexiveName route.faceId := by
      rintro ⟨hspec, -⟩
      rw [← h.enabled, hen] at hspec
      exact Bool.false_ne_true hspec
    rw [if_pos hen, if_neg hrfs]
    exact h.refused
  rw [if_neg hen]
  have hen : spec.enabled = true := by
    rw [← h.enabled]
    simpa using hen
  cases hget : t.routes.get reflexiveName with
  | some existing =>
    rw [hget] at hrts
    have hacc : spec.Accepts reflexiveName route.faceId ↔ existing.faceId = route.faceId := by
      simp [ReflexiveSpec.Accepts, hen, ← hrts]
    simp only [hacc]
    by_cases hface : existing.faceId = route.faceId
    · rw [if_neg (not_not.mpr hface), if_pos hface]
      exact h.refresh hget hface
    · rw [if_pos hface, if_neg hface]
      exact h.refused
  | none =>
    rw [hget] at hrts
    have hent := h.orInsertZero route.faceId
    have hacc : spec.Accepts reflexiveName route.faceId ↔
        ¬ (t.orInsertZero route.faceId).routeCount route.faceId ≥
          (t.orInsertZero route.faceId).maxPerFace := by
      rw [hent.counted, hent.maxPerFace]
      simp [ReflexiveSpec.Accepts, hen, ← hrts]
    simp only [hacc]
    split_ifs
    · exact hent.refused
    · exact hent.add hget route

end

end

/-! ## Routes that leave -/

/-- While routes leave the table `t`, it has become `t'` and holds the routes `l`. -/
structure Holds (t t' : ReflexiveTable) (l : List (Name × ReflexiveRoute)) : Prop where
  wf : t'.routes.Wf
  routes : ∀ name, t'.routes.get name = l.lookup name
  enabled : t'.enabled = t.enabled
  maxPerFace : t'.maxPerFace = t.maxPerFace
  maxLifetimeNs : t'.maxLifetimeNs = t.maxLifetimeNs

/-- The counters of the faces are those of the routes `l`. -/
def CountedBy (t : ReflexiveTable) (l : List (Name × ReflexiveRoute)) : Prop :=
  ∀ faceId, t.routeCount faceId = l.countP fun x => x.2.faceId = faceId

section

variable {t t' : ReflexiveTable} {spec : ReflexiveSpec} {l : List (Name × ReflexiveRoute)}
  {name : Name} {route : ReflexiveRoute}

lemma Agree.holds (h : t.Agree spec) : Holds t t spec.routes :=
  ⟨h.wf, h.routes, rfl, rfl, rfl⟩

lemma Holds.removeRoute (h : Holds t t' l) (name : Name) :
    Holds t (t'.removeRoute name) (erase name l) := by
  refine ⟨h.wf.remove name, fun name' => ?_, h.enabled, h.maxPerFace, h.maxLifetimeNs⟩
  rw [ReflexiveTable.removeRoute, Trie.get_remove, lookup_erase, h.routes]

lemma Holds.decrement (h : Holds t t' l) (faceId : FaceId) : Holds t (t'.decrement faceId) l := by
  rw [ReflexiveTable.decrement]
  cases t'.perFace.lookup faceId with
  | none => exact h
  | some c => exact { h with }

@[simp] lemma live_decrement (faceId : FaceId) : (t.decrement faceId).live = t.live := by
  rw [decrement]
  cases t.perFace.lookup faceId <;> rfl

lemma CountedBy.drop (h : CountedBy t l) (hl : Keyed l) (hname : l.lookup name = some route) :
    CountedBy ((t.removeRoute name).decrement route.faceId) (erase name l) := by
  intro faceId
  have hsame : ∀ faceId, (t.removeRoute name).routeCount faceId = t.routeCount faceId :=
    fun _ => rfl
  rw [routeCount_decrement, countP_erase hl hname, hsame, hsame, h, h]
  split_ifs with heq
  · rw [heq]
  · rfl

lemma Holds.counters (h : Holds t t' l) (perFace : List (FaceId × ℕ)) (live expired : ℕ) :
    Holds t { t' with perFace := perFace, live := live, expired := expired } l :=
  { h with }

lemma Holds.agree (hh : Holds t t' l) (h : t.Agree spec) (hl : Keyed l)
    (hcnt : CountedBy t' l) (hlive : t'.live = l.length) : t'.Agree { spec with routes := l } :=
  ⟨hh.wf, hl, hh.routes, hcnt, hlive, hh.enabled.trans h.enabled,
    hh.maxPerFace.trans h.maxPerFace, hh.maxLifetimeNs.trans h.maxLifetimeNs⟩

lemma fetchSub_of_add_eq {n removed rest : ℕ} (h : removed + rest = n) :
    fetchSub n removed = rest := by
  rw [fetchSub, if_pos (by omega)]
  omega

lemma agree_remove (h : t.Agree spec) (reflexiveName : Name) :
    (t.step (.remove reflexiveName)).Agree (spec.step (.remove reflexiveName)) := by
  have hrts := h.routes reflexiveName
  rw [step, ReflexiveSpec.step, remove]
  cases hget : t.routes.get reflexiveName with
  | none =>
    rw [hget] at hrts
    rw [Assoc.erase_of_not_mem (Assoc.lookup_eq_none_iff.mp hrts.symm)]
    exact h
  | some route =>
    rw [hget] at hrts
    have hhld := (h.holds.removeRoute reflexiveName).decrement route.faceId
    have hcnt := CountedBy.drop h.counted h.distinct hrts.symm
    have hlen := length_erase h.distinct hrts.symm
    have hlive : fetchSub ((t.removeRoute reflexiveName).decrement route.faceId).live 1 =
        (erase reflexiveName spec.routes).length := by
      rw [live_decrement]
      exact fetchSub_of_add_eq (by rw [Nat.add_comm, hlen]; exact h.live.symm)
    exact (hhld.counters _ _ _).agree h (nodup_keys_erase _ h.distinct) hcnt hlive

lemma Agree.mem_dump_iff (h : t.Agree spec) {x : Name × ReflexiveRoute} :
    x ∈ t.routes.dump ↔ x ∈ spec.routes := by
  have hx : x ∈ t.routes.dump ↔ t.routes.get x.1 = some x.2 := Trie.mem_dump_iff h.wf
  rw [hx, h.routes]
  exact lookup_eq_some_iff h.distinct

section

variable (drops : ReflexiveRoute → Bool)
  (drop : ReflexiveTable → Name → ReflexiveRoute → ReflexiveTable)
  {I : ReflexiveTable → List (Name × ReflexiveRoute) → Prop}
  (hdrop : ∀ t l name route, Keyed l → l.lookup name = some route → I t l →
    I (drop t name route) (erase name l))
include hdrop

/-- **The loops over all routes.** What dropping one route keeps, a loop keeps that drops those
selected, and it counts them. -/
lemma dropLoop_induction (all : List (Name × ReflexiveRoute)) (hnd : Keyed all)
    (hl : Keyed l) (hmem : ∀ x ∈ all, x ∈ l)
    (hall : ∀ x ∈ l, drops x.2 = true → x ∈ all) (h : I t l) (removed : ℕ) :
    I (dropLoop drops drop all t removed).1 (l.filter fun x => !drops x.2) ∧
    (dropLoop drops drop all t removed).2 + (l.filter fun x => !drops x.2).length =
      removed + l.length := by
  induction all generalizing l t removed with
  | nil =>
    have hkept : (l.filter fun x => !drops x.2) = l := by
      rw [filter_eq_self]
      intro x hx
      cases hx' : drops x.2 with
      | false => rfl
      | true => cases hall x hx hx'
    rw [dropLoop, hkept]
    exact ⟨h, rfl⟩
  | cons x all ih =>
    obtain ⟨name, route⟩ := x
    rw [keyed_cons] at hnd
    have hname := (lookup_eq_some_iff hl).mpr (hmem _ (mem_cons_self ..))
    rw [dropLoop]
    split_ifs with hrte
    · have hlen := length_erase hl hname
      have hkept : ((erase name l).filter fun x => !drops x.2) = l.filter fun x => !drops x.2 :=
        filter_erase_of_not hl hname (by rw [hrte]; rfl)
      have hmem' : ∀ x ∈ all, x ∈ erase name l := by
        intro x hx
        refine mem_erase_iff.mpr ⟨hmem x (mem_cons_of_mem _ hx), fun heq => ?_⟩
        exact hnd.1 (mem_map.mpr ⟨x, hx, heq⟩)
      have hall' : ∀ x ∈ erase name l, drops x.2 = true → x ∈ all := by
        intro x hx hx'
        obtain ⟨hx, hne⟩ := mem_erase_iff.mp hx
        exact (mem_cons.mp (hall x hx hx')).resolve_left fun heq => hne (by rw [heq])
      obtain ⟨hI, hcnt⟩ := ih hnd.2 (nodup_keys_erase name hl) hmem' hall'
        (hdrop t l name route hl hname h) (removed + 1)
      rw [hkept] at hI hcnt
      exact ⟨hI, by omega⟩
    · refine ih hnd.2 hl (fun x hx => hmem x (mem_cons_of_mem _ hx)) ?_ h removed
      intro x hx hx'
      refine (mem_cons.mp (hall x hx hx')).resolve_left fun heq => ?_
      rw [heq] at hx'
      exact hrte hx'

lemma Agree.dropLoop (h : t.Agree spec) (hI : I t spec.routes) :
    I (ReflexiveTable.dropLoop drops drop t.routes.dump t 0).1
      (spec.routes.filter fun x => !drops x.2) ∧
    (ReflexiveTable.dropLoop drops drop t.routes.dump t 0).2 +
      (spec.routes.filter fun x => !drops x.2).length = spec.routes.length := by
  have hloop := dropLoop_induction drops drop hdrop t.routes.dump (Trie.nodup_dump h.wf) h.distinct
    (fun _ => h.mem_dump_iff.mp) (fun _ hx _ => h.mem_dump_iff.mpr hx) hI 0
  rwa [Nat.zero_add] at hloop

end

lemma nodup_keys_filter (h : Keyed l) (p : Name × ReflexiveRoute → Bool) :
    Keyed (l.filter p) :=
  h.sublist (filter_sublist.map Prod.fst)

section

variable (h : t.Agree spec)
include h

lemma agree_sweep (now : ℕ) :
    (t.step (.sweep now)).Agree (spec.step (.sweep now)) ∧
    (t.sweep now).2 + (spec.step (.sweep now)).routes.length = spec.routes.length := by
  have hkeep : (spec.routes.filter fun x => !decide (x.2.expiryNs ≤ now)) =
      spec.routes.filter fun x => now < x.2.expiryNs := by
    refine filter_congr fun x _ => ?_
    rw [← decide_not, decide_eq_decide, not_le]
  obtain ⟨⟨hhld, hlive, hcnt⟩, hrm⟩ := Agree.dropLoop (fun route => route.expiryNs ≤ now)
    (fun self name route => (self.removeRoute name).decrement route.faceId)
    (I := fun t' l => Holds t t' l ∧ t'.live = t.live ∧ CountedBy t' l)
    (fun t' l name route hl hname hI => ⟨(hI.1.removeRoute name).decrement _,
      (live_decrement _).trans hI.2.1, hI.2.2.drop hl hname⟩)
    h ⟨h.holds, rfl, h.counted⟩
  rw [hkeep] at hhld hcnt hrm
  refine ⟨(hhld.counters _ _ _).agree h (nodup_keys_filter h.distinct _) hcnt ?_, hrm⟩
  exact fetchSub_of_add_eq (hrm.trans (h.live.symm.trans hlive.symm))

lemma Agree.dropLoop_removeRoute (drops : ReflexiveRoute → Bool) :
    ∃ t' removed, ReflexiveTable.dropLoop drops (fun self name _ => self.removeRoute name)
        t.routes.dump t 0 = (t', removed) ∧
      Holds t t' (spec.routes.filter fun x => !drops x.2) ∧ t'.live = t.live ∧
      t'.perFace = t.perFace ∧
      removed + (spec.routes.filter fun x => !drops x.2).length = spec.routes.length := by
  obtain ⟨⟨hhld, hlive, hface⟩, hrm⟩ := Agree.dropLoop drops
    (fun self name _ => self.removeRoute name)
    (I := fun t' l => Holds t t' l ∧ t'.live = t.live ∧ t'.perFace = t.perFace)
    (fun _ _ name _ _ _ hI => ⟨hI.1.removeRoute name, hI.2.1, hI.2.2⟩) h ⟨h.holds, rfl, rfl⟩
  exact ⟨_, _, rfl, hhld, hlive, hface, hrm⟩

lemma agree_removeFace (faceId : FaceId) :
    (t.step (.removeFace faceId)).Agree (spec.step (.removeFace faceId)) := by
  have hkeep : (spec.routes.filter fun x => !decide (x.2.faceId = faceId)) =
      spec.routes.filter fun x => x.2.faceId ≠ faceId :=
    filter_congr fun x _ => decide_not.symm
  obtain ⟨t', removed, hloop, hhld, hlive, hface, hrm⟩ :=
    h.dropLoop_removeRoute (fun route => route.faceId = faceId)
  rw [hkeep] at hhld hrm
  rw [step, removeFace, hloop]
  refine (hhld.counters _ _ _).agree h (nodup_keys_filter h.distinct _) (fun faceId' => ?_) ?_
  · have hcnt : ((erase faceId t'.perFace).lookup faceId').getD 0 =
        if faceId' = faceId then 0 else t.routeCount faceId' := by
      rw [hface, lookup_erase]
      split_ifs <;> rfl
    refine hcnt.trans ?_
    rw [countP_filter]
    split_ifs with heq
    · rw [eq_comm, countP_eq_zero]
      intro x _
      simp [heq]
    · rw [h.counted, ReflexiveSpec.routeCount]
      refine countP_congr fun x _ => ?_
      simp only [Bool.and_eq_true, decide_eq_true_eq]
      exact ⟨fun hx => ⟨hx, fun hx' => heq (hx.symm.trans hx')⟩, And.left⟩
  · exact fetchSub_of_add_eq (hrm.trans (h.live.symm.trans hlive.symm))

lemma agree_flush : (t.step .flush).Agree (spec.step .flush) ∧ t.flush.2 = spec.routes.length := by
  obtain ⟨t', removed, hloop, hhld, -, -, hrm⟩ := h.dropLoop_removeRoute (fun _ => true)
  have hnone : (spec.routes.filter fun _ => false) = [] := filter_false spec.routes
  simp only [Bool.not_true] at hhld hrm
  rw [step, flush, hloop]
  refine ⟨(hhld.counters _ _ _).agree h (nodup_keys_filter h.distinct _) (fun faceId => ?_) ?_, ?_⟩
  · rw [hnone]
    rfl
  · rw [hnone]
    rfl
  · rw [hnone] at hrm
    exact hrm

/-- **One operation** does to the table what it does to the map. -/
theorem agree_step (op : Op) : (t.step op).Agree (spec.step op) := by
  cases op with
  | install reflexiveName faceId lifetimeNs nowNs =>
    exact agree_install h reflexiveName faceId lifetimeNs nowNs
  | lookup name nowNs =>
    rw [step, lookup]
    cases t.routes.lpm name with
    | none => exact h
    | some route =>
      simp only
      split_ifs
      · exact h
      · exact { h with }
  | remove reflexiveName => exact agree_remove h reflexiveName
  | removeFace faceId => exact agree_removeFace h faceId
  | sweep now => exact (agree_sweep h now).1
  | flush => exact (agree_flush h).1
  | setEnabled enabled => exact { h with enabled := rfl }
  | setMaxPerFace max => exact { h with maxPerFace := rfl }
  | setMaxLifetime maxNs => exact { h with maxLifetimeNs := rfl }

/-- **Any operations.** -/
theorem agree_run (ops : List Op) :
    (ops.foldl step t).Agree (ops.foldl ReflexiveSpec.step spec) := by
  induction ops generalizing t spec with
  | nil => exact h
  | cons op ops ih => exact ih (agree_step h op)

end

lemma Agree.dump_perm (h : t.Agree spec) : t.routes.dump.Perm spec.routes :=
  (perm_ext_iff_of_nodup (Trie.nodup_dump h.wf).of_map h.distinct.of_map).mpr
    fun _ => h.mem_dump_iff

/-- **The counters after any operations.** `live` is the number of routes and the counter of each
face the number of its routes, and no installation brings the latter above the cap. -/
theorem counters_run (config : ReflexiveConfig) (ops : List Op) :
    let t := ops.foldl step (new config)
    t.live = t.routes.dump.length ∧
    (∀ faceId, t.routeCount faceId = t.routes.dump.countP fun x => x.2.faceId = faceId) ∧
    ∀ reflexiveName faceId lifetimeNs nowNs faceId',
      (t.step (.install reflexiveName faceId lifetimeNs nowNs)).routeCount faceId' ≤
        max (t.routeCount faceId') t.maxPerFace := by
  intro t
  have h := agree_run (agree_new config) ops
  refine ⟨h.live.trans h.dump_perm.length_eq.symm, fun faceId => ?_, fun _ _ _ _ _ => ?_⟩
  · exact (h.counted faceId).trans (h.dump_perm.countP_eq _).symm
  · exact routeCount_install_le _ _ _ _ _

/-! ## Lookups -/

/-- **What a lookup returns**: nothing where no route covers the name, and otherwise the face of the
longest prefix's route, unless its time is over. -/
lemma lookup_spec (h : t.Agree spec) (name : Name) (now : ℕ) :
    ((t.lookup name now).1 = none ∧ ∀ pre, pre <+: name → spec.routes.lookup pre = none) ∨
    ∃ pre route, Trie.LongestMatch (fun pre => spec.routes.lookup pre) name pre route ∧
      (t.lookup name now).1 = if route.expiryNs ≤ now then none else some route.faceId := by
  have hrts : (fun pre => t.routes.get pre) = fun pre => spec.routes.lookup pre :=
    funext h.routes
  rw [lookup]
  rcases Trie.lpm_spec name t.routes with ⟨hnone, hall⟩ | ⟨pre, route, hsome, hlong⟩
  · rw [hnone]
    exact .inl ⟨rfl, fun pre hpre => (h.routes pre).symm.trans (hall pre hpre)⟩
  · rw [hsome]
    rw [hrts] at hlong
    refine .inr ⟨pre, route, hlong, ?_⟩
    simp only
    split_ifs <;> rfl

end

lemma liveRoute_eq_some_iff {spec : ReflexiveSpec} {now : ℕ} {name : Name}
    {route : ReflexiveRoute} :
    spec.liveRoute now name = some route ↔
      spec.routes.lookup name = some route ∧ now < route.expiryNs := by
  simp [ReflexiveSpec.liveRoute, filter_eq_some_iff]

/-- **Lookups in a table after any operations.** For every name and time, a lookup returns the face
of the longest prefix that has a live route, and nothing only if no prefix has one, iff no expired
route hides a live one: if the longest prefix with a route has an expired one, no shorter one has
a live one. -/
theorem lookup_correct_iff (config : ReflexiveConfig) (ops : List Op) (name : Name) (now : ℕ) :
    (ops.foldl ReflexiveSpec.step (.new config)).LookupCorrect name now
      ((ops.foldl step (new config)).lookup name now).1 ↔
    (ops.foldl ReflexiveSpec.step (.new config)).Unshadowed name now := by
  have h := agree_run (agree_new config) ops
  generalize ops.foldl ReflexiveSpec.step (.new config) = spec at h ⊢
  have hnol : ∀ pre, spec.routes.lookup pre = none → spec.liveRoute now pre = none := by
    intro pre hpre
    rw [ReflexiveSpec.liveRoute, hpre, filter_none]
  rcases lookup_spec h name now with ⟨hnone, hall⟩ | ⟨pre, route, hlong, hres⟩
  · -- no route covers the name
    refine iff_of_true ⟨fun face => ?_, fun _ pre hpre => hnol pre (hall pre hpre)⟩ ?_
    · rw [hnone]
      refine iff_of_false nofun ?_
      rintro ⟨pre, route, hlong, -⟩
      have hlk := (liveRoute_eq_some_iff.mp hlong.value).1
      rw [hall pre hlong.covers] at hlk
      cases hlk
    · intro pre route hlong
      have hlk := hlong.value
      simp only [hall pre hlong.covers] at hlk
      cases hlk
  by_cases hexp : route.expiryNs ≤ now
  · rw [hres, if_pos hexp]
    refine ⟨fun hcor _ _ _ _ => hcor.2 rfl, fun huns => ?_⟩
    have hnone := huns pre route hlong hexp
    refine ⟨fun face => iff_of_false nofun ?_, fun _ => hnone⟩
    rintro ⟨pre', route', hlong', -⟩
    have hval := hlong'.value
    rw [hnone pre' hlong'.covers] at hval
    cases hval
  · -- the longest prefix with a route has a live one, and so is the longest with a live one
    have hlive : Trie.LongestMatch (spec.liveRoute now) name pre route := by
      refine ⟨hlong.covers, liveRoute_eq_some_iff.mpr ⟨hlong.value, not_le.mp hexp⟩, ?_⟩
      intro pre' route' hpre' hrte'
      exact hlong.longest pre' route' hpre' (liveRoute_eq_some_iff.mp hrte').1
    rw [hres, if_neg hexp]
    refine iff_of_true ⟨fun face => ⟨fun hface => ?_, ?_⟩, nofun⟩ ?_
    · exact ⟨pre, route, hlive, some.inj hface⟩
    · rintro ⟨pre', route', hlong', rfl⟩
      rw [(hlive.unique hlong').2]
    · intro pre' route' hlong' hexp'
      rw [(hlong.unique hlong').2] at hexp'
      exact absurd hexp' hexp

namespace Sample

/-- A route for `/a` to face 1 that lives long, and one for `/a/b` to face 2 that does not. -/
def nested : List Op :=
  [.install [.ofText "a"] 1 1000 0, .install [.ofText "a", .ofText "b"] 2 10 0]

end Sample

/-- **An expired route hides a live one.** At time 50 the route for `/a/b` has expired and that for
`/a` has not. A lookup of `/a/b/c` returns nothing; after a sweep it returns face 1. -/
theorem expired_route_hides :
    ((Sample.nested.foldl step (new {})).lookup
      [.ofText "a", .ofText "b", .ofText "c"] 50).1 = none ∧
    (Sample.nested.foldl ReflexiveSpec.step (.new {})).liveRoute 50 [.ofText "a"] = some ⟨1, 1000⟩ ∧
    (((Sample.nested ++ [Op.sweep 50]).foldl step (new {})).lookup
      [.ofText "a", .ofText "b", .ofText "c"] 50).1 = some 1 := by
  decide

end ReflexiveTable

end NdnRs
