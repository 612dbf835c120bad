import Mathlib.Data.Nat.Notation
import Mathlib.Data.Finset.Card
import Mathlib.Logic.Relation

/-!
# Runs of a state machine

A machine is a step function on states and events. A guard says which events may happen in which
states; a state is reached when it is the end of a run whose steps all meet the guard.
-/

namespace Run

open List

universe u v

variable {σ : Type u} {α : Type v}

/-- `s'` follows `s` by an event that the guard allows. -/
def Step (step : σ → α → σ) (guard : σ → α → Prop) (s s' : σ) : Prop :=
  ∃ a, guard s a ∧ s' = step s a

/-- `s` is the end of a run from `init` whose steps all meet the guard. -/
def Reach (step : σ → α → σ) (guard : σ → α → Prop) (init s : σ) : Prop :=
  Relation.ReflTransGen (Step step guard) init s

/-- The events can be taken one after another from `s`. -/
def Admits (step : σ → α → σ) (guard : σ → α → Prop) : σ → List α → Prop
  | _, [] => True
  | s, a :: events => guard s a ∧ Admits step guard (step s a) events

variable {step : σ → α → σ} {guard : σ → α → Prop} {s : σ} {events : List α}

lemma admits_append {events' : List α} :
    Admits step guard s (events ++ events') ↔
      Admits step guard s events ∧ Admits step guard (events.foldl step s) events' := by
  induction events generalizing s with
  | nil => simp [Admits]
  | cons a events ih => simp [Admits, ih, and_assoc]

lemma Admits.forall_mem (h : Admits step guard s events) {p : α → Prop}
    (hp : ∀ s a, guard s a → p a) : ∀ a ∈ events, p a := by
  induction events generalizing s with
  | nil => nofun
  | cons a events ih => exact forall_mem_cons.mpr ⟨hp s a h.1, ih h.2⟩

/-- **Invariants of a list of events.** What holds at its start and is kept by each of its guarded
steps holds at its end. -/
theorem Admits.foldl_induction (h : Admits step guard s events) {motive : σ → Prop} (hs : motive s)
    (hstep : ∀ s a, a ∈ events → motive s → guard s a → motive (step s a)) :
    motive (events.foldl step s) := by
  induction events generalizing s with
  | nil => exact hs
  | cons a events ih =>
    apply ih h.2
    · exact hstep s a (mem_cons_self ..) hs h.1
    · intro s' b hb hs' hgrd
      exact hstep s' b (mem_cons_of_mem _ hb) hs' hgrd

/-- **Invariants of a loop over a list**, in terms of the elements that it has passed. -/
theorem foldl_passed {inv : List α → σ → Prop} (hs : inv [] s)
    (hstep : ∀ passed s a, inv passed s → inv (passed ++ [a]) (step s a)) (events : List α) :
    inv events (events.foldl step s) := by
  have hfold : ∀ rest passed s, inv passed s → inv (passed ++ rest) (rest.foldl step s) := by
    intro rest
    induction rest with
    | nil =>
      intro passed s h
      rwa [append_nil]
    | cons a rest ih =>
      intro passed s h
      have hrest := ih _ _ (hstep passed s a h)
      rwa [append_assoc] at hrest
  exact hfold events [] s hs

lemma foldl_unchanged {β : Type*} (field : σ → β) (h : ∀ s a, field (step s a) = field s)
    (events : List α) (s : σ) : field (events.foldl step s) = field s := by
  induction events generalizing s with
  | nil => rfl
  | cons a events ih => rw [foldl_cons, ih, h]

lemma le_foldl (field : σ → ℕ) (h : ∀ s a, field s ≤ field (step s a))
    (events : List α) (s : σ) : field s ≤ field (events.foldl step s) := by
  induction events generalizing s with
  | nil => exact Nat.le_refl _
  | cons a events ih => exact Nat.le_trans (h s a) (ih _)

lemma foldl_range_induction {step : σ → ℕ → σ} {motive : ℕ → σ → Prop} (hs : motive 0 s) (n : ℕ)
    (hstep : ∀ k s, k < n → motive k s → motive (k + 1) (step s k)) :
    motive n ((range n).foldl step s) := by
  induction n with
  | zero => exact hs
  | succ n ih =>
    rw [range_succ, foldl_append]
    exact hstep n _ (Nat.lt_succ_self n) (ih fun k s hk => hstep k s (Nat.lt_succ_of_lt hk))

/-- **Good all along**, where an invariant may depend on the events to come. Where a state is good
the next one is iff the guard allows the event, so all states along a run are good iff its events
can be taken. -/
theorem forall_prefix_iff_admits_of_rest (inv : List α → σ → Prop) (good : σ → Prop)
    (hgood : ∀ s a rest, inv (a :: rest) s → good s → (good (step s a) ↔ guard s a))
    (hinv : ∀ s a rest, inv (a :: rest) s → good s → inv rest (step s a)) (hs : inv events s)
    (hs' : good s) :
    (∀ done, done <+: events → good (done.foldl step s)) ↔ Admits step guard s events := by
  induction events generalizing s with
  | nil =>
    refine iff_of_true (fun done hdone => ?_) trivial
    rw [prefix_nil.mp hdone]
    exact hs'
  | cons a events ih =>
    have hnext := hinv s a events hs hs'
    constructor
    · intro hall
      have haft : good (step s a) := hall [a] (by simp)
      refine ⟨(hgood s a events hs hs').mp haft, (ih hnext haft).mp fun done hdone => ?_⟩
      exact hall (a :: done) (cons_prefix_cons.mpr ⟨rfl, hdone⟩)
    · rintro ⟨hgrd, hrest⟩ done hdone
      have haft := (hgood s a events hs hs').mpr hgrd
      cases done with
      | nil => exact hs'
      | cons b done =>
        obtain ⟨rfl, hdone'⟩ := cons_prefix_cons.mp hdone
        exact (ih hnext haft).mpr hrest done hdone'

/-- **Good all along.** Where a state is good the next one is iff the guard allows the event, so all
states along a run are good iff its events can be taken. -/
theorem forall_prefix_iff_admits (inv good : σ → Prop)
    (hgood : ∀ s a, inv s → good s → (good (step s a) ↔ guard s a))
    (hinv : ∀ s a, inv s → good s → inv (step s a)) (hs : inv s) (hs' : good s) (events : List α) :
    (∀ done, done <+: events → good (done.foldl step s)) ↔ Admits step guard s events :=
  forall_prefix_iff_admits_of_rest (fun _ => inv) good (fun s a _ => hgood s a)
    (fun s a _ => hinv s a) hs hs'

/-! ## Outputs -/

section Outputs

universe w x

variable {τ : Type w} {β : Type x}

/-- What a machine that has choices may put out for some events, one output for each. -/
inductive Yields (step : σ → α → σ → β → Prop) : σ → List α → List β → Prop
  | nil (s : σ) : Yields step s [] []
  | cons {s s' : σ} {a : α} {b : β} {events : List α} {outputs : List β} :
      step s a s' b → Yields step s' events outputs → Yields step s (a :: events) (b :: outputs)

/-- What a machine puts out that makes one choice for each event. -/
def outputs (apply : σ → α → σ × β) : σ → List α → List β
  | _, [] => []
  | s, a :: events => (apply s a).2 :: outputs apply (apply s a).1 events

lemma Yields.of_admits {step : σ → α → σ → β → Prop} {apply : σ → α → σ × β}
    {guard : σ → α → Prop} (hstep : ∀ s a, guard s a → step s a (apply s a).1 (apply s a).2) {s : σ}
    {events : List α} (h : Admits (fun s a => (apply s a).1) guard s events) :
    Yields step s events (outputs apply s events) := by
  induction events generalizing s with
  | nil => exact .nil s
  | cons a events ih => exact .cons (hstep s a h.1) (ih h.2)

/-- **Simulation.** Whatever they choose, two machines have the same outputs, if any two steps of
related states for an event have the same output and lead to related states. -/
theorem Yields.eq_of_rel {step : σ → α → σ → β → Prop} {step' : τ → α → τ → β → Prop}
    (R : σ → τ → Prop)
    (hstep : ∀ {s t a s' t' b c}, R s t → step s a s' b → step' t a t' c → b = c ∧ R s' t')
    {s : σ} {t : τ} (hR : R s t) {events : List α} {outputs outputs' : List β}
    (h : Yields step s events outputs) (h' : Yields step' t events outputs') :
    outputs = outputs' := by
  induction h generalizing t outputs' with
  | nil s =>
    cases h'
    rfl
  | cons ha _ ih =>
    cases h' with
    | cons ha' hrest =>
      obtain ⟨rfl, hnext⟩ := hstep hR ha ha'
      rw [ih hnext hrest]

end Outputs

namespace Reach

variable {init : σ}

lemma refl : Reach step guard init init := Relation.ReflTransGen.refl

lemma snoc (h : Reach step guard init s) (a : α) (ha : guard s a) :
    Reach step guard init (step s a) :=
  Relation.ReflTransGen.tail h ⟨a, ha, rfl⟩

lemma foldl (h : Reach step guard init s) {events : List α} (hevs : Admits step guard s events) :
    Reach step guard init (events.foldl step s) := by
  induction events generalizing s with
  | nil => exact h
  | cons a events ih => exact ih (h.snoc a hevs.1) hevs.2

/-- **Invariants.** What holds at the start and is kept by every guarded step holds in every state
reached. -/
theorem invariant (h : Reach step guard init s) (inv : σ → Prop) (hinit : inv init)
    (hstep : ∀ s a, inv s → guard s a → inv (step s a)) : inv s := by
  induction h with
  | refl => exact hinit
  | tail _ hlast ih =>
    obtain ⟨a, ha, rfl⟩ := hlast
    exact hstep _ a ih ha

end Reach

/-! ## Loops -/

section Loop

universe w

variable {ρ : Type w} {turn : σ → σ ⊕ ρ} {size : σ → ℕ}

/-- At most so many turns, each of which goes on with a state or ends with a result. -/
def turns (turn : σ → σ ⊕ ρ) : ℕ → σ → Option ρ
  | 0, _ => none
  | n + 1, s =>
    match turn s with
    | .inl s' => turns turn n s'
    | .inr r => some r

lemma exists_turns (hturn : ∀ s s', turn s = .inl s' → size s' < size s) (s : σ) :
    ∃ r, ∀ n, size s < n → turns turn n s = some r := by
  induction hsize : size s using Nat.strongRecOn generalizing s with
  | _ k ih =>
    cases hs : turn s with
    | inr r =>
      refine ⟨r, fun n hn => ?_⟩
      obtain ⟨n, rfl⟩ : ∃ m, n = m + 1 := ⟨n - 1, by omega⟩
      rw [turns, hs]
    | inl s' =>
      have hlt := hturn s s' hs
      obtain ⟨r, hr⟩ := ih (size s') (by omega) s' rfl
      refine ⟨r, fun n hn => ?_⟩
      obtain ⟨n, rfl⟩ : ∃ m, n = m + 1 := ⟨n - 1, by omega⟩
      rw [turns, hs]
      exact hr n (by omega)

/-- A turn leads from one state to another. -/
def Goes (turn : σ → σ ⊕ ρ) (s s' : σ) : Prop := turn s = .inl s'

/-- A loop comes to a result iff its turns lead to a state that ends with it. -/
lemma exists_turns_eq_some_iff {s : σ} {r : ρ} :
    (∃ n, turns turn n s = some r) ↔
      ∃ s', Relation.ReflTransGen (Goes turn) s s' ∧ turn s' = .inr r := by
  constructor
  · rintro ⟨n, h⟩
    induction n generalizing s with
    | zero => cases h
    | succ n ih =>
      rw [turns] at h
      cases hs : turn s with
      | inr r' =>
        rw [hs] at h
        cases h
        exact ⟨s, .refl, hs⟩
      | inl s₁ =>
        rw [hs] at h
        obtain ⟨s', hreach, hend⟩ := ih h
        exact ⟨s', hreach.head hs, hend⟩
  · rintro ⟨s', hreach, hend⟩
    induction hreach using Relation.ReflTransGen.head_induction_on with
    | refl => exact ⟨1, by rw [turns, hend]⟩
    | head hgo _ ih =>
      obtain ⟨n, hn⟩ := ih
      exact ⟨n + 1, by rw [turns, hgo]; exact hn⟩

lemma turns_mono {n m : ℕ} {s : σ} {r : ρ} (h : turns turn n s = some r) (hle : n ≤ m) :
    turns turn m s = some r := by
  induction n generalizing s m with
  | zero => cases h
  | succ n ih =>
    obtain ⟨m, rfl⟩ : ∃ k, m = k + 1 := ⟨m - 1, by omega⟩
    rw [turns] at h ⊢
    cases hs : turn s with
    | inr r' =>
      rw [hs] at h
      exact h
    | inl s' =>
      rw [hs] at h
      exact ih h (Nat.le_of_succ_le_succ hle)

/-- The turns lead to a state that they lead back to. -/
def Circles (turn : σ → σ ⊕ ρ) (s : σ) : Prop :=
  ∃ p, Relation.ReflTransGen (Goes turn) s p ∧ Relation.TransGen (Goes turn) p p

lemma Circles.turns_eq_none {s : σ} (h : Circles turn s) (n : ℕ) : turns turn n s = none := by
  induction n generalizing s with
  | zero => rfl
  | succ n ih =>
    obtain ⟨p, hsp, hpp⟩ := h
    obtain ⟨c, hsc, hcp⟩ : ∃ c, Goes turn s c ∧ Relation.ReflTransGen (Goes turn) c p := by
      rcases hsp.cases_head with rfl | h
      · exact Relation.TransGen.head'_iff.mp hpp
      · exact h
    rw [turns, hsc]
    exact ih ⟨p, hcp, hpp⟩

lemma exists_path {n : ℕ} {s : σ} (h : turns turn n s = none) :
    ∃ path : ℕ → σ, path 0 = s ∧ ∀ i < n, Goes turn (path i) (path (i + 1)) := by
  induction n generalizing s with
  | zero => exact ⟨fun _ => s, rfl, nofun⟩
  | succ n ih =>
    rw [turns] at h
    cases hs : turn s with
    | inr r =>
      rw [hs] at h
      cases h
    | inl s' =>
      rw [hs] at h
      obtain ⟨path, hstart, hpath⟩ := ih h
      refine ⟨fun i => i.casesOn s path, rfl, fun i hi => ?_⟩
      cases i with
      | zero => exact hs.trans (congrArg _ hstart.symm)
      | succ i => exact hpath i (Nat.lt_of_succ_lt_succ hi)

lemma reflTransGen_path {n i : ℕ} {path : ℕ → σ}
    (hpath : ∀ i < n, Goes turn (path i) (path (i + 1))) (d : ℕ) (hle : i + d ≤ n) :
    Relation.ReflTransGen (Goes turn) (path i) (path (i + d)) := by
  induction d with
  | zero => exact .refl
  | succ d ih => exact (ih (by omega)).tail (hpath (i + d) (by omega))

/-- **Loops over finitely many states.** After one turn more than there are states to go on from, a
loop has come to a result, or it circles and never does. -/
theorem turns_eq_none_iff_circles (states : Finset σ)
    (hstates : ∀ s s', turn s = .inl s' → s ∈ states) {s : σ} :
    turns turn (states.card + 1) s = none ↔ Circles turn s := by
  refine ⟨fun h => ?_, fun h => h.turns_eq_none _⟩
  obtain ⟨path, hstart, hpath⟩ := exists_path h
  -- two of the states passed are the same
  obtain ⟨i, hi, j, hj, hne, hsame⟩ := Finset.exists_ne_map_eq_of_card_lt_of_maps_to
    (s := Finset.range (states.card + 1)) (t := states) (f := path) (by simp) fun i hi =>
      hstates _ _ (hpath i (Finset.mem_range.mp hi))
  have hcircle : ∀ i j, i < j → j < states.card + 1 → path i = path j → Circles turn s := by
    intro i j hlt hj hsame
    obtain ⟨d, rfl⟩ : ∃ d, j = i + 1 + d := ⟨j - (i + 1), by omega⟩
    have hreach := reflTransGen_path hpath (i := 0) i (by omega)
    rw [Nat.zero_add, hstart] at hreach
    have hback := Relation.TransGen.head' (hpath i (by omega)) (reflTransGen_path hpath d hj.le)
    rw [← hsame] at hback
    exact ⟨path i, hreach, hback⟩
  rw [Finset.mem_range] at hi hj
  rcases Nat.lt_or_gt_of_ne hne with hlt | hlt
  · exact hcircle i j hlt hj hsame
  · exact hcircle j i hlt hi hsame.symm

/-- So many turns are enough, if the loop comes to a result at all. -/
lemma turns_eq_some_iff (states : Finset σ) (hstates : ∀ s s', turn s = .inl s' → s ∈ states)
    {s : σ} {r : ρ} :
    turns turn (states.card + 1) s = some r ↔
      ∃ s', Relation.ReflTransGen (Goes turn) s s' ∧ turn s' = .inr r := by
  rw [← exists_turns_eq_some_iff]
  refine ⟨fun h => ⟨_, h⟩, ?_⟩
  rintro ⟨n, hn⟩
  cases hall : turns turn (states.card + 1) s with
  | none =>
    rw [((turns_eq_none_iff_circles states hstates).mp hall).turns_eq_none n] at hn
    cases hn
  | some r' =>
    have hleft := turns_mono hn (Nat.le_max_left n (states.card + 1))
    rw [turns_mono hall (Nat.le_max_right n _)] at hleft
    exact hleft

/-- A loop whose measure goes down at every turn. -/
def loop (turn : σ → σ ⊕ ρ) (size : σ → ℕ)
    (hturn : ∀ s s', turn s = .inl s' → size s' < size s) (s : σ) : ρ :=
  (turns turn (size s + 1) s).get (by
    obtain ⟨r, hr⟩ := exists_turns hturn s
    rw [hr _ (Nat.lt_succ_self _)]
    rfl)

/-- **One turn of a loop.** -/
theorem loop_eq (hturn : ∀ s s', turn s = .inl s' → size s' < size s) (s : σ) :
    loop turn size hturn s =
      match turn s with
      | .inl s' => loop turn size hturn s'
      | .inr r => r := by
  obtain ⟨r, hr⟩ := exists_turns hturn s
  have hloop : loop turn size hturn s = r := by simp [loop, hr _ (Nat.lt_succ_self _)]
  rw [hloop]
  have hmore := hr (size s + 1) (Nat.lt_succ_self _)
  rw [turns] at hmore
  cases hs : turn s with
  | inr r' =>
    rw [hs] at hmore
    exact (Option.some.inj hmore).symm
  | inl s' =>
    rw [hs] at hmore
    obtain ⟨r', hr'⟩ := exists_turns hturn s'
    have hsame : some r' = some r := (hr' _ (hturn s s' hs)).symm.trans hmore
    cases hsame
    simp [loop, hr' _ (Nat.lt_succ_self _)]

end Loop

end Run
