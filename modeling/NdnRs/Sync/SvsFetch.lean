import NdnRs.Sync.PubSub

/-!
# Fetches of one name (`ndn-sync/src/svsync.rs`)

A call of `express_once` puts the sender of a channel into a table, by the name it asks for, and
waits at the receiver until a timer runs out. When it goes on, it removes what the table then has
for the name. A sender that is replaced or removed closes its channel.

## Implementation notes

A Data comes with its name. A call whose Interest cannot be sent ends as after a timeout.

## Main results

* `waiting_calls_return_iff` — when all that wait get the Data.
-/

namespace NdnRs

open List SvsPubSub

/-- Where a call is: at its receiver, with an answer in the channel, or done. -/
inductive ExpressOnce where
  | waiting
  | answered (wire : Bytes)
  | returned (res : Option Bytes)
  deriving DecidableEq

/-- The senders by name, each with the number of its call, and all calls. -/
structure PendingMap where
  pending : List (Name × (Bool × ℕ))
  calls : List (Name × ExpressOnce)

namespace PendingMap

variable (self : PendingMap)

def express (name : Name) (canBePrefix : Bool) : PendingMap :=
  ⟨Assoc.insert name (canBePrefix, self.calls.length) self.pending,
    self.calls ++ [(name, .waiting)]⟩

/-- The entry of a name is removed, and a call gets on. -/
def settle (i : ℕ) (name : Name) (call : ExpressOnce) : PendingMap :=
  ⟨Assoc.erase name self.pending, self.calls.set i (name, call)⟩

/-- `spawn_demux`, on a Data. -/
def receive (name : Name) (wire : Bytes) : PendingMap :=
  match waiterFor self.pending name with
  | some (key, (_, i)) => self.settle i key (.answered wire)
  | none => self

/-- A call finds an answer in its channel, or finds it closed. -/
def wake (i : ℕ) : PendingMap :=
  match self.calls[i]? with
  | some (name, .answered wire) => self.settle i name (.returned (some wire))
  | some (name, .waiting) =>
    if self.pending.any fun x => x.2.2 = i then self else self.settle i name (.returned none)
  | _ => self

/-- The timer of a call runs out, perhaps with an answer in the channel. -/
def timeout (i : ℕ) : PendingMap :=
  match self.calls[i]? with
  | some (_, .returned _) | none => self
  | some (name, _) => self.settle i name (.returned none)

inductive Event where
  | express (name : Name) (canBePrefix : Bool)
  | data (name : Name) (wire : Bytes)
  | wake (i : ℕ)
  | timeout (i : ℕ)

def step : Event → PendingMap
  | .express name canBePrefix => self.express name canBePrefix
  | .data name wire => self.receive name wire
  | .wake i => self.wake i
  | .timeout i => self.timeout i

/-! ## What holds in every run -/

/-- Each name has one sender in the table, and it is that of a call that waits for the name. -/
structure Ok (s : PendingMap) : Prop where
  keys : (s.pending.map Prod.fst).Nodup
  waits : ∀ x ∈ s.pending, s.calls[x.2.2]? = some (x.1, .waiting)

/-- The table has no sender of the call. -/
def Closed (s : PendingMap) (i : ℕ) : Prop := ∀ x ∈ s.pending, x.2.2 ≠ i

variable {s : PendingMap} {i : ℕ} {name : Name} {wire : Bytes} {call : ExpressOnce}

lemma Ok.express (h : s.Ok) (name : Name) (canBePrefix : Bool) :
    (s.express name canBePrefix).Ok := by
  refine ⟨Assoc.nodup_keys_insert _ _ h.keys, fun x hx => ?_⟩
  rcases Assoc.mem_insert hx with rfl | hx
  · simp [PendingMap.express]
  · have hget := h.waits x hx
    have hlt : x.2.2 < s.calls.length := (List.getElem?_eq_some_iff.mp hget).1
    simpa [PendingMap.express, getElem?_append_left hlt] using hget

/-- A call gets on that waits for the name, or has no sender in the table. -/
lemma Ok.settle (h : s.Ok) (hcall : s.calls[i]? = some (name, .waiting) ∨ s.Closed i)
    (call : ExpressOnce) : (s.settle i name call).Ok ∧ (s.settle i name call).Closed i := by
  have hne : ∀ x ∈ Assoc.erase name s.pending, x.2.2 ≠ i := by
    intro x hx heq
    obtain ⟨hmem, hkey⟩ := Assoc.mem_erase_iff.mp hx
    rcases hcall with hwait | hclosed
    · have hget := h.waits x hmem
      rw [heq, hwait] at hget
      cases hget
      exact hkey rfl
    · exact hclosed x hmem heq
  refine ⟨⟨h.keys.sublist (filter_sublist.map _), fun x hx => ?_⟩, hne⟩
  have hget := h.waits x (Assoc.mem_erase_iff.mp hx).1
  rwa [PendingMap.settle, getElem?_set_ne (hne x hx).symm]

lemma mem_of_waiterFor {pending : List (Name × (Bool × ℕ))} {x : Name × (Bool × ℕ)}
    (h : waiterFor pending name = some x) (hkeys : (pending.map Prod.fst).Nodup) :
    x ∈ pending := by
  unfold waiterFor at h
  split at h
  · next hlk =>
    cases h
    exact (Assoc.lookup_eq_some_iff hkeys).mp hlk
  · exact mem_of_find?_eq_some h

lemma Ok.closed (h : s.Ok) (hi : s.calls[i]? = some (name, call)) (hcall : call ≠ .waiting) :
    s.Closed i := by
  intro x hx heq
  have hget := h.waits x hx
  rw [heq, hi] at hget
  cases hget
  exact hcall rfl

/-- **One event** keeps the table in order. -/
lemma Ok.step (h : s.Ok) (event : Event) : (s.step event).Ok := by
  cases event with
  | express name canBePrefix => exact h.express name canBePrefix
  | data name wire =>
    rw [PendingMap.step, receive]
    cases hfor : waiterFor s.pending name with
    | none => exact h
    | some x => exact (h.settle (.inl (h.waits x (mem_of_waiterFor hfor h.keys))) _).1
  | wake i =>
    rw [PendingMap.step, wake]
    split
    · next hi => exact (h.settle (.inr (h.closed hi (by simp))) _).1
    · next hi =>
      split_ifs
      · exact h
      · exact (h.settle (.inl hi) _).1
    · exact h
  | timeout i =>
    rw [PendingMap.step, timeout]
    split
    · exact h
    · exact h
    · next name call hret hi =>
      by_cases hcall : call = .waiting
      · subst hcall
        exact (h.settle (.inl hi) _).1
      · exact (h.settle (.inr (h.closed hi hcall)) _).1

/-! ## A call without a sender -/

/-- What an event makes of a call that has no sender in the table. -/
def advance (i : ℕ) (call : ExpressOnce) : Event → ExpressOnce
  | .wake j =>
    if j = i then
      match call with
      | .answered wire => .returned (some wire)
      | .waiting => .returned none
      | .returned res => .returned res
    else call
  | .timeout j =>
    if j = i then
      match call with
      | .returned res => .returned res
      | _ => .returned none
    else call
  | _ => call

/-- What first happens to a call: it is woken, or its timer runs out. -/
def next (i : ℕ) : List Event → Option Bool
  | [] => none
  | .wake j :: later => if j = i then some true else next i later
  | .timeout j :: later => if j = i then some false else next i later
  | _ :: later => next i later

/-- The call, without a sender in the table. -/
def Rests (s : PendingMap) (i : ℕ) (name : Name) (call : ExpressOnce) : Prop :=
  s.Closed i ∧ s.calls[i]? = some (name, call)

lemma Rests.settle_of_ne (h : s.Rests i name call) {j : ℕ} (hne : j ≠ i) (key : Name)
    (call' : ExpressOnce) : (s.settle j key call').Rests i name call :=
  ⟨fun x hx => h.1 x (Assoc.mem_erase_iff.mp hx).1, (getElem?_set_ne hne).trans h.2⟩

lemma Rests.settle_self (h : s.Rests i name call) (call' : ExpressOnce) :
    (s.settle i name call').Rests i name call' :=
  ⟨fun x hx => h.1 x (Assoc.mem_erase_iff.mp hx).1,
    getElem?_set_self (List.getElem?_eq_some_iff.mp h.2).1⟩

/-- **One event** for such a call. -/
lemma Rests.step (hok : s.Ok) (h : s.Rests i name call) (event : Event) :
    (s.step event).Rests i name (advance i call event) := by
  have hlt : i < s.calls.length := (List.getElem?_eq_some_iff.mp h.2).1
  cases event with
  | express name' canBePrefix =>
    refine ⟨fun x hx => ?_, (getElem?_append_left hlt).trans h.2⟩
    rcases Assoc.mem_insert hx with rfl | hx
    · exact hlt.ne'
    · exact h.1 x hx
  | data name' wire =>
    rw [PendingMap.step, receive]
    cases hfor : waiterFor s.pending name' with
    | none => exact h
    | some x => exact h.settle_of_ne (h.1 x (mem_of_waiterFor hfor hok.keys)) _ _
  | wake j =>
    rw [PendingMap.step, wake]
    by_cases hj : j = i
    · subst hj
      rw [h.2]
      cases call with
      | answered wire => simpa [advance] using h.settle_self _
      | returned res => simpa [advance] using h
      | waiting =>
        have hany : (s.pending.any fun x => x.2.2 = j) = false :=
          any_eq_false.mpr fun x hx => by simpa using h.1 x hx
        simpa [advance, hany] using h.settle_self _
    · simp only [advance, hj, if_false]
      split
      · exact h.settle_of_ne hj _ _
      · split_ifs
        · exact h
        · exact h.settle_of_ne hj _ _
      · exact h
  | timeout j =>
    rw [PendingMap.step, timeout]
    by_cases hj : j = i
    · subst hj
      rw [h.2]
      cases call with
      | returned res => simpa [advance] using h
      | _ => simpa [advance] using h.settle_self _
    · simp only [advance, hj, if_false]
      split
      · exact h
      · exact h
      · exact h.settle_of_ne hj _ _

/-- **A run** of it. -/
lemma Rests.run (hok : s.Ok) (h : s.Rests i name call) (later : List Event) :
    (later.foldl PendingMap.step s).Rests i name (later.foldl (advance i) call) := by
  induction later generalizing s call with
  | nil => exact h
  | cons event later ih => exact ih (hok.step event) (h.step hok event)

lemma foldl_advance_returned (i : ℕ) (res : Option Bytes) (later : List Event) :
    later.foldl (advance i) (.returned res) = .returned res := by
  induction later with
  | nil => rfl
  | cons event later ih =>
    rw [foldl_cons]
    cases event <;> simp [advance, ih]

/-- With an answer in its channel, a call returns it iff it is woken before its timer runs out. -/
lemma foldl_advance_answered (i : ℕ) (wire : Bytes) (later : List Event) :
    later.foldl (advance i) (.answered wire) = .returned (some wire) ↔
      next i later = some true := by
  induction later with
  | nil => simp [next]
  | cons event later ih =>
    rw [foldl_cons]
    cases event with
    | express name canBePrefix => exact ih
    | data name wire => exact ih
    | wake j =>
      by_cases hj : j = i
      · simp [advance, next, hj, foldl_advance_returned]
      · simpa [advance, next, hj] using ih
    | timeout j =>
      by_cases hj : j = i
      · simp [advance, next, hj, foldl_advance_returned]
      · simpa [advance, next, hj] using ih

/-- With its channel closed, a call returns nothing. -/
lemma foldl_advance_waiting (i : ℕ) (wire : Bytes) (later : List Event) :
    later.foldl (advance i) .waiting ≠ .returned (some wire) := by
  induction later with
  | nil => simp
  | cons event later ih =>
    rw [foldl_cons]
    cases event with
    | express name canBePrefix => exact ih
    | data name wire => exact ih
    | wake j =>
      by_cases hj : j = i
      · simp [advance, hj, foldl_advance_returned]
      · simpa [advance, hj] using ih
    | timeout j =>
      by_cases hj : j = i
      · simp [advance, hj, foldl_advance_returned]
      · simpa [advance, hj] using ih

/-- **A Data reaches the fetches that wait for its name** iff the table has the sender of each of
them and each is woken before its timer runs out, at any point of any run and whatever comes
after. -/
theorem waiting_calls_return_iff (events later : List Event) (name : Name) (wire : Bytes) :
    let s := events.foldl step ⟨[], []⟩
    (∀ i : ℕ, s.calls[i]? = some (name, .waiting) →
      ((Event.data name wire :: later).foldl step s).calls[i]? =
        some (name, .returned (some wire))) ↔
    ∀ i : ℕ, s.calls[i]? = some (name, .waiting) →
      (s.pending.lookup name).map Prod.snd = some i ∧ next i later = some true := by
  intro s
  have hok : s.Ok := foldlRecOn events step ⟨nodup_nil, fun _ h => absurd h not_mem_nil⟩
    fun s hs event _ => hs.step event
  refine forall₂_congr fun i hi => ?_
  have hok' := hok.step (.data name wire)
  rw [foldl_cons]
  by_cases hown : (s.pending.lookup name).map Prod.snd = some i
  · -- the answer is in the channel
    obtain ⟨⟨cbp, j⟩, hslot, rfl⟩ := Option.map_eq_some_iff.mp hown
    have hrec : s.step (.data name wire) = s.settle j name (.answered wire) := by
      rw [PendingMap.step, receive, waiterFor, hslot]
    have hlt : j < s.calls.length := (List.getElem?_eq_some_iff.mp hi).1
    have hrest : (s.step (.data name wire)).Rests j name (.answered wire) := by
      rw [hrec]
      exact ⟨(hok.settle (.inl hi) _).2, getElem?_set_self hlt⟩
    rw [(hrest.run hok' later).2, and_iff_right hown, Option.some.injEq, Prod.mk.injEq,
      and_iff_right rfl]
    exact foldl_advance_answered ..
  · -- the sender was replaced or removed
    have hclosed : s.Closed i := by
      intro x hx heq
      have hget := hok.waits x hx
      rw [heq, hi] at hget
      cases hget
      have hslot := (Assoc.lookup_eq_some_iff hok.keys).mpr hx
      exact hown (by rw [hslot, ← heq]; rfl)
    have hrest : s.Rests i name .waiting := ⟨hclosed, hi⟩
    have hrun := ((hrest.step hok (.data name wire)).run hok' later).2
    refine iff_of_false (fun hret => ?_) fun h => hown h.1
    exact foldl_advance_waiting i wire later
      (Prod.mk.inj (Option.some.inj (hrun.symm.trans hret))).2


/-- Two fetches wait for one name, and only the second gets the Data. -/
theorem first_call_misses :
    let s := [Event.express [] false, .express [] false].foldl step ⟨[], []⟩
    s.calls = [([], .waiting), ([], .waiting)] ∧
      ([Event.data [] [6], .wake 0, .wake 1].foldl step s).calls =
        [([], .returned none), ([], .returned (some [6]))] := by
  decide

end PendingMap

end NdnRs
