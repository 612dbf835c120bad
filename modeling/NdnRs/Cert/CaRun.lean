import NdnRs.Cert.Ca
import NdnRs.Lib.Run

/-!
# Runs of the certificate authority

The authority serves requests concurrently: a CHALLENGE waits for its handler, and NEW, REVOKE,
clean-ups and other CHALLENGE messages run in the meantime. A state of a run holds the authority's
tables, what the handlers share, and the CHALLENGE messages in flight; the events are everything
that can happen next. Two logs are kept on the side: which certificate request opened a session, and
what was issued.
-/

namespace NdnRs.CaRun

open Bytes Tlv Function CaState

/-- A CHALLENGE message in flight. -/
inductive Task (σ : Type) where
  | opened (c : OpenedChallenge σ)
  | begun (c : OpenedChallenge σ) (state : ChallengeState)
  | verified (c : OpenedChallenge σ) (state : ChallengeState) (outcome : ChallengeOutcome)

/-- What the message said when it was opened. -/
def Task.message {σ : Type} : Task σ → OpenedChallenge σ
  | .opened c => c
  | .begun c _ => c
  | .verified c _ _ => c

/-- An issued certificate, with the certificate request of its session, the message that completed
the challenge and the state that the message was checked against. -/
structure Issued (σ : Type) where
  session : Option Session
  cert : Certificate
  challenge : OpenedChallenge σ
  state : ChallengeState

structure State (σ : Type) where
  ca : CaState
  world : σ
  tasks : ℕ → Option (Task σ)
  /-- The certificate request of the latest session with a request id. -/
  sessions : Str → Option Session
  issued : List (Issued σ)

/-- What can happen next. A message in flight sits in a slot. -/
inductive Event (σ : Type) where
  | new (inputs : NewInputs) (body : Bytes)
  | receive (slot : ℕ) (requestId : Str) (body : Bytes)
  | begin (slot : ℕ)
  | verify (slot : ℕ)
  | conclude (slot : ℕ) (clock : IssueClock)
  | revoke (body : Bytes)
  | cleanup (nowSecs ttlSecs : ℕ)
  /-- The operator changes anchors or keys. -/
  | manage (manager : SecurityManager)
  /-- Something else changes what the handlers share. -/
  | environment (world : σ)

section

variable {σ : Type} (crates : CaCrates) (cfg : CaConfig σ)

def init (manager : SecurityManager) (world : σ) : State σ :=
  { ca := ⟨manager, fun _ => none, fun _ => false, fun _ => none⟩
    world := world
    tasks := fun _ => none
    sessions := fun _ => none
    issued := [] }

/-- The record of a certificate that the end of a CHALLENGE issues. -/
def record (s : State σ) (c : OpenedChallenge σ) (state : ChallengeState)
    (outcome : ChallengeOutcome) (clock : IssueClock) : List (Issued σ) :=
  match issuedCert crates cfg s.ca c outcome clock with
  | none => []
  | some cert => [⟨s.sessions c.requestId, cert, c, state⟩]

/-- One step. A message put into a slot in use replaces a cancelled one. -/
def step (s : State σ) : Event σ → State σ
  | .new inputs body =>
    { s with
      ca := (handleNew crates cfg s.ca inputs body).2
      sessions :=
        match openSession crates cfg inputs body with
        | .error _ => s.sessions
        | .ok (session, _, _) =>
          update s.sessions (bytesToHex inputs.requestId) (some session) }
  | .receive slot requestId body =>
    { s with
      tasks := update s.tasks slot
        ((openChallenge crates cfg s.ca requestId body).toOption.map .opened) }
  | .begin slot =>
    match s.tasks slot with
    | some (.opened c) =>
      let (result, ca, world) := s.ca.beginChallenge c s.world
      { s with
        ca := ca
        world := world
        tasks := update s.tasks slot (result.toOption.map (.begun c)) }
    | _ => s
  | .verify slot =>
    match s.tasks slot with
    | some (.begun c state) =>
      let (result, world) := c.handler.verify state c.parameters s.world
      { s with
        world := world
        tasks := update s.tasks slot (result.toOption.map (.verified c state)) }
    | _ => s
  | .conclude slot clock =>
    match s.tasks slot with
    | some (.verified c state outcome) =>
      { s with
        ca := (concludeChallenge crates cfg s.ca c outcome clock).2
        tasks := update s.tasks slot none
        issued := s.issued ++ record crates cfg s c state outcome clock }
    | _ => s
  | .revoke body => { s with ca := (handleRevoke crates s.ca body).2 }
  | .cleanup nowSecs ttlSecs => { s with ca := s.ca.cleanupExpired nowSecs ttlSecs }
  | .manage manager => { s with ca := { s.ca with manager := manager } }
  | .environment world => { s with world := world }

/-- The states that runs reach whose events all meet a condition. -/
abbrev Reach (guard : State σ → Event σ → Prop) (manager : SecurityManager) (world : σ)
    (s : State σ) : Prop :=
  Run.Reach (step crates cfg) guard (init manager world) s

/-- The parts of a CHALLENGE, run one after another, are `handle_challenge`. -/
lemma handleChallenge_eq_run (s : State σ) (slot : ℕ) (requestId : Str) (body : Bytes)
    (clock : IssueClock) :
    let s' := [.receive slot requestId body, .begin slot, .verify slot, .conclude slot clock].foldl
      (step crates cfg) s
    (s'.ca, s'.world) = (handleChallenge crates cfg s.ca requestId body clock s.world).2 := by
  simp only [List.foldl_cons, List.foldl_nil, step, handleChallenge]
  rcases hopen : openChallenge crates cfg s.ca requestId body with e | c
  · simp [Except.toOption]
  · rcases hbeg : s.ca.beginChallenge c s.world with ⟨e | state, ca, w⟩
    · simp [Except.toOption, hbeg]
    · rcases hvfy : c.handler.verify state c.parameters w with ⟨e | outcome, w'⟩
      all_goals simp [Except.toOption, hbeg, hvfy]

/-! ## What a run maintains -/

/-- Every session goes back to an accepted certificate request. -/
def PendingOk (ca : CaState) (sessions : Str → Option Session) : Prop :=
  ∀ id entry, ca.pending id = some entry →
    ∃ session, sessions id = some session ∧ session.Accepted cfg ∧
      entry.certRequest = session.request

/-- A message is with a handler on offer, and is verified with the outcome that its handler
returned. -/
def TaskOk : Task σ → Prop
  | .opened c => c.handler ∈ cfg.challenges
  | .begun c _ => c.handler ∈ cfg.challenges
  | .verified c state outcome => c.handler ∈ cfg.challenges ∧
      ∃ w, (c.handler.verify state c.parameters w).1 = .ok outcome

/-- The issued certificate goes back to the accepted certificate request of its session. -/
def IssuedOk (r : Issued σ) : Prop :=
  r.challenge.handler ∈ cfg.challenges ∧
    ∃ session, r.session = some session ∧ session.Accepted cfg ∧
      r.cert.name = requestedKeyName session.cert.name ∧
      r.cert.publicKey = session.cert.publicKey

/-- What every run maintains. -/
structure Inv (s : State σ) : Prop where
  pending : PendingOk cfg s.ca s.sessions
  tasks : ∀ slot task, s.tasks slot = some task → TaskOk cfg task
  issued : ∀ r ∈ s.issued, IssuedOk cfg r

variable {crates cfg} {s : State σ}

lemma PendingOk.of_keeps {ca ca' : CaState} {sessions : Str → Option Session}
    (h : PendingOk cfg ca sessions) (hkeep : ca.Keeps ca') : PendingOk cfg ca' sessions := by
  intro id entry' hent'
  obtain ⟨entry, hent, hreq⟩ := hkeep id entry' hent'
  obtain ⟨session, hses, hacc, hrequest⟩ := h id entry hent
  exact ⟨session, hses, hacc, hreq.trans hrequest⟩

lemma PendingOk.handleNew (h : PendingOk cfg s.ca s.sessions) (inputs : NewInputs) (body : Bytes) :
    PendingOk cfg (step crates cfg s (.new inputs body)).ca
      (step crates cfg s (.new inputs body)).sessions := by
  have hclean := h.of_keeps (s.ca.keeps_cleanupExpired inputs.nowSecs 60)
  simp only [step, CaState.handleNew]
  rcases hopen : openSession crates cfg inputs body with e | ⟨session, entry, response⟩
  · exact hclean
  obtain ⟨-, hacc, hreq⟩ := openSession_eq_ok hopen
  intro id entry' hent'
  by_cases hid : id = bytesToHex inputs.requestId
  · subst hid
    simp only [update_self, Option.some.injEq] at hent'
    subst hent'
    exact ⟨session, by simp, hacc, hreq⟩
  · simp only [update_of_ne hid] at hent' ⊢
    exact hclean id entry' hent'

/-- A property of all messages in flight survives a step of one of them. -/
lemma forall_tasks_update {P : Task σ → Prop} {tasks : ℕ → Option (Task σ)}
    (h : ∀ slot task, tasks slot = some task → P task) (slot : ℕ)
    {task : Option (Task σ)} (htask : ∀ t, task = some t → P t) :
    ∀ slot' t, update tasks slot task slot' = some t → P t := by
  intro slot' t heq
  by_cases hslot : slot' = slot
  · subst hslot
    rw [update_self] at heq
    exact htask t heq
  · rw [update_of_ne hslot] at heq
    exact h slot' t heq

lemma eq_ok_of_toOption_map {ε α : Type} {result : Except ε α} {f : α → Task σ} {t : Task σ}
    (h : result.toOption.map f = some t) : ∃ a, result = .ok a ∧ t = f a := by
  cases result with
  | error e => cases h
  | ok a => exact ⟨a, rfl, (Option.some.inj h).symm⟩

lemma Inv.issuedOk (h : Inv cfg s) {slot : ℕ} {c : OpenedChallenge σ} {state : ChallengeState}
    {outcome : ChallengeOutcome} {clock : IssueClock} {r : Issued σ}
    (htask : s.tasks slot = some (.verified c state outcome))
    (hr : r ∈ record crates cfg s c state outcome clock) : IssuedOk cfg r := by
  unfold record at hr
  cases hcert : issuedCert crates cfg s.ca c outcome clock with
  | none => simp [hcert] at hr
  | some cert =>
    simp only [hcert, List.mem_singleton] at hr
    subst hr
    obtain ⟨attestation, entry, -, hent, hiss⟩ := issuedCert_eq_some hcert
    obtain ⟨session, hses, hacc, hreq⟩ := h.pending c.requestId entry hent
    obtain ⟨hname, hkey⟩ := issue_binds hacc hreq hiss
    exact ⟨(h.tasks slot _ htask).1, session, hses, hacc, hname, hkey⟩

lemma step_inv (h : Inv cfg s) (event : Event σ) : Inv cfg (step crates cfg s event) := by
  cases event with
  | new inputs body => exact ⟨h.pending.handleNew inputs body, h.tasks, h.issued⟩
  | receive slot requestId body =>
    refine ⟨h.pending, forall_tasks_update h.tasks slot ?_, h.issued⟩
    intro t ht
    obtain ⟨c, hopen, rfl⟩ := eq_ok_of_toOption_map ht
    exact (openChallenge_eq_ok hopen).2
  | begin slot =>
    simp only [step]
    split
    · next c htask =>
      refine ⟨h.pending.of_keeps (s.ca.keeps_beginChallenge _ _),
        forall_tasks_update h.tasks slot ?_, h.issued⟩
      intro t ht
      obtain ⟨state, -, rfl⟩ := eq_ok_of_toOption_map ht
      have hopened : TaskOk cfg (.opened c) := h.tasks slot _ htask
      exact hopened
    · exact h
  | verify slot =>
    simp only [step]
    split
    · next c state htask =>
      refine ⟨h.pending, forall_tasks_update h.tasks slot ?_, h.issued⟩
      intro t ht
      obtain ⟨outcome, hvfy, rfl⟩ := eq_ok_of_toOption_map ht
      have hbeg : TaskOk cfg (.begun c state) := h.tasks slot _ htask
      exact ⟨hbeg, s.world, hvfy⟩
    · exact h
  | conclude slot clock =>
    simp only [step]
    split
    · next c state outcome htask =>
      refine ⟨h.pending.of_keeps (s.ca.keeps_concludeChallenge c outcome clock),
        forall_tasks_update h.tasks slot (by simp), ?_⟩
      intro r hr
      rcases List.mem_append.mp hr with hr | hr
      · exact h.issued r hr
      · exact h.issuedOk htask hr
    · exact h
  | revoke body =>
    exact ⟨h.pending.of_keeps (s.ca.keeps_handleRevoke body), h.tasks, h.issued⟩
  | cleanup nowSecs ttlSecs =>
    exact ⟨h.pending.of_keeps (s.ca.keeps_cleanupExpired nowSecs ttlSecs), h.tasks, h.issued⟩
  | manage manager => exact ⟨h.pending, h.tasks, h.issued⟩
  | environment world => exact ⟨h.pending, h.tasks, h.issued⟩

lemma inv_init (manager : SecurityManager) (world : σ) : Inv cfg (init manager world) := by
  refine ⟨?_, ?_, ?_⟩
  · intro id entry h
    cases h
  · intro slot task h
    cases h
  · intro r hr
    cases hr

/-- **Sessions and issued certificates go back to accepted certificate requests**, in every state of
every run. -/
theorem sessions_inv {guard : State σ → Event σ → Prop} {manager : SecurityManager}
    {world : σ} (h : Reach crates cfg guard manager world s) : Inv cfg s :=
  h.invariant (Inv cfg) (inv_init manager world) fun _ event hinv _ => step_inv hinv event

end

end NdnRs.CaRun
