import NdnRs.Forwarding.StrategyStage

/-!
# Where the strategy stage sends (`ndn-engine/src/stages/strategy.rs`)

A Forward decision makes its out-records between two filters, so that a face may get a record that
the Interest is not sent to. The scope of the name is looked at by one of the three ways that an
Interest can take.

## Main results

* `forward_records_iff` — when records and sending agree.
* `localhost_stays_local_iff` — when `/localhost` stays on the host.
-/

namespace NdnRs.StrategyStage

open Bytes List Outcome Scheduled

open Pit (FaceScope OutRecord PitEntry Tables)

section

variable {self : StrategyStage} {s : State} {ctx : PacketContext} {interest : Interest}
  {name : Name} {faces : List FaceId} {now : ℕ}

/-! ## The records of a Forward decision -/

section Records

variable {pit pit' : Pit} {token : UInt64} {nonce : ℕ} {effective : List FaceId}

/-- A face gets an out-record with the nonce of the Interest: some entry has one that it did not
have. -/
def Gains (pit pit' : Pit) (interest : Interest) (faceId : FaceId) : Prop :=
  ∃ nonce, interest.nonce = some nonce ∧ ∃ token entry', pit'.get token = some entry' ∧
    hasOutRecord entry' nonce faceId = true ∧
    ¬ ∃ entry, pit.get token = some entry ∧ hasOutRecord entry nonce faceId = true

/-- There is an entry to record the faces in, and a nonce. -/
def Recordable (pit : Pit) (ctx : PacketContext) (interest : Interest) : Prop :=
  ∃ nonce token entry, interest.nonce = some nonce ∧ ctx.pitToken = some token ∧
    pit.get token = some entry

/-- No out-record of the face has the nonce of the Interest yet. -/
def Fresh (pit : Pit) (ctx : PacketContext) (interest : Interest) (faceId : FaceId) : Prop :=
  ∀ nonce token entry, interest.nonce = some nonce → ctx.pitToken = some token →
    pit.get token = some entry → hasOutRecord entry nonce faceId = false

lemma hasOutRecord_addOutRecord (entry : PitEntry) (nonce now : ℕ) (f g : FaceId) :
    hasOutRecord (entry.addOutRecord f nonce now) nonce g = true ↔
      hasOutRecord entry nonce g = true ∨ g = f := by
  have hhas : ∀ entry : PitEntry, hasOutRecord entry nonce g = true ↔
      ∃ r ∈ entry.outRecords, r.faceId = g ∧ r.lastNonce = nonce := by
    intro entry
    simp [hasOutRecord]
  rw [hhas, hhas, PitEntry.addOutRecord]
  split_ifs with hany
  · obtain ⟨old, hold, hface⟩ := any_eq_true.mp hany
    rw [decide_eq_true_iff] at hface
    simp only [mem_map, exists_exists_and_eq_and]
    constructor
    · rintro ⟨r, hr, hrg, hrnon⟩
      split_ifs at hrg hrnon with hrf
      · exact .inr (hrg.symm.trans hrf)
      · exact .inl ⟨r, hr, hrg, hrnon⟩
    · rintro (⟨r, hr, hrg, hrnon⟩ | rfl)
      · refine ⟨r, hr, ?_⟩
        split_ifs
        · exact ⟨hrg, rfl⟩
        · exact ⟨hrg, hrnon⟩
      · refine ⟨old, hold, ?_⟩
        rw [if_pos hface]
        exact ⟨hface, rfl⟩
  · simp only [mem_append, mem_singleton, or_and_right, exists_or, exists_eq_left,
      and_true]
    rw [eq_comm (a := f)]

/-- **The loop over the faces**, after some of them: the entry has the records it had and those of
the faces passed, and those go on that had none. -/
structure RecordedAt (token : UInt64) (nonce : ℕ) (pit : Pit) (entry : PitEntry)
    (passed : List FaceId) (s : Pit × List FaceId) : Prop where
  others : ∀ token', token' ≠ token → s.1.get token' = pit.get token'
  records : ∃ entry', s.1.get token = some entry' ∧
    ∀ f, hasOutRecord entry' nonce f = true ↔ hasOutRecord entry nonce f = true ∨ f ∈ passed
  kept_iff : ∀ f, f ∈ s.2 ↔ f ∈ passed ∧ hasOutRecord entry nonce f = false

variable {entry : PitEntry}

lemma RecordedAt.step {passed : List FaceId} {s : Pit × List FaceId}
    (h : RecordedAt token nonce pit entry passed s) (now : ℕ) (f : FaceId) :
    RecordedAt token nonce pit entry (passed ++ [f]) (recordFace token nonce now s f) := by
  obtain ⟨entry', hget, hrecs⟩ := h.records
  rw [recordFace, hget]
  simp only
  split_ifs with hhas
  · -- a duplicate: the entry had the record, or the face was passed before
    refine ⟨h.others, ⟨entry', hget, fun g => ?_⟩, fun g => ?_⟩
    · rw [hrecs, mem_append, mem_singleton, ← or_assoc, ← hrecs]
      refine (or_iff_left_of_imp ?_).symm
      rintro rfl
      exact hhas
    · rw [h.kept_iff, mem_append, mem_singleton]
      refine and_congr_left fun hnot => (or_iff_left_of_imp ?_).symm
      rintro rfl
      refine ((hrecs g).mp hhas).resolve_left ?_
      rw [hnot]
      exact Bool.false_ne_true
  · refine ⟨fun token' hne => ?_, ⟨entry'.addOutRecord f nonce now, ?_, fun g => ?_⟩, fun g => ?_⟩
    · rw [Pit.get_set, if_neg hne, h.others token' hne]
    · rw [Pit.get_set, if_pos rfl]
    · rw [hasOutRecord_addOutRecord, hrecs, mem_append, mem_singleton, or_assoc]
    · simp only [mem_append, mem_singleton, h.kept_iff, or_and_right]
      refine or_congr_right (and_iff_left_of_imp ?_).symm
      rintro rfl
      rw [hrecs, not_or] at hhas
      exact Bool.eq_false_iff.mpr hhas.1

lemma recordedAt_foldl (hget : pit.get token = some entry) (nonce now : ℕ)
    (effective : List FaceId) :
    RecordedAt token nonce pit entry effective
      (effective.foldl (recordFace token nonce now) (pit, [])) := by
  refine Run.foldl_passed ?_ (fun _ _ f h => h.step now f) effective
  exact ⟨fun _ _ => rfl, ⟨entry, hget, by simp⟩, by simp⟩

lemma foldl_recordFace_of_none (hget : pit.get token = none) (effective kept : List FaceId) :
    effective.foldl (recordFace token nonce now) (pit, kept) = (pit, kept ++ effective) := by
  induction effective generalizing kept with
  | nil => simp
  | cons f rest ih =>
    have hstep : recordFace token nonce now (pit, kept) f = (pit, kept ++ [f]) := by
      rw [recordFace, hget]
    rw [foldl_cons, hstep, ih, append_assoc, singleton_append]

lemma survivingFaces_of_not_recordable (h : ¬ Recordable pit ctx interest)
    (effective : List FaceId) : survivingFaces pit ctx interest effective = (pit, effective) := by
  rw [survivingFaces]
  cases hnc : interest.nonce with
  | none => rfl
  | some nonce =>
    cases htok : ctx.pitToken with
    | none => rfl
    | some token =>
      cases hget : pit.get token with
      | none => exact foldl_recordFace_of_none hget effective []
      | some entry => exact absurd ⟨nonce, token, entry, hnc, htok, hget⟩ h

lemma fresh_iff (hnc : interest.nonce = some nonce)
    (htok : ctx.pitToken = some token) (hget : pit.get token = some entry) (f : FaceId) :
    Fresh pit ctx interest f ↔ hasOutRecord entry nonce f = false := by
  refine ⟨fun hf => hf nonce token entry hnc htok hget, fun hf => ?_⟩
  intro nonce' token' entry' hnc' htok' hget'
  rw [hnc] at hnc'
  rw [htok] at htok'
  cases hnc'
  cases htok'
  rw [hget] at hget'
  cases hget'
  exact hf

lemma RecordedAt.gains_iff {s : Pit × List FaceId}
    (h : RecordedAt token nonce pit entry effective s) (hnc : interest.nonce = some nonce)
    (hget : pit.get token = some entry) (f : FaceId) :
    Gains pit s.1 interest f ↔ f ∈ effective ∧ hasOutRecord entry nonce f = false := by
  obtain ⟨entry', hget', hrecs⟩ := h.records
  constructor
  · rintro ⟨nonce', hnc', token', entry'', hget'', hhas, hnew⟩
    rw [hnc] at hnc'
    cases hnc'
    by_cases htok : token' = token
    · subst htok
      rw [hget'] at hget''
      cases hget''
      have hnot : ¬ hasOutRecord entry nonce f = true := fun hold => hnew ⟨entry, hget, hold⟩
      exact ⟨((hrecs f).mp hhas).resolve_left hnot, Bool.eq_false_iff.mpr hnot⟩
    · rw [h.others token' htok] at hget''
      exact absurd ⟨entry'', hget'', hhas⟩ hnew
  · rintro ⟨hmem, hnot⟩
    refine ⟨nonce, hnc, token, entry', hget', (hrecs f).mpr (.inr hmem), ?_⟩
    rintro ⟨entry'', hget'', hhas⟩
    rw [hget] at hget''
    cases hget''
    rw [hnot] at hhas
    cases hhas

/-- **What the out-records do**: those faces go on that had no record with the nonce, and they get
one if there is an entry. -/
lemma survivingFaces_spec (pit : Pit) (ctx : PacketContext) (interest : Interest)
    (effective : List FaceId) :
    (∀ f, f ∈ (survivingFaces pit ctx interest effective).2 ↔
      f ∈ effective ∧ Fresh pit ctx interest f) ∧
    ∀ f, Gains pit (survivingFaces pit ctx interest effective).1 interest f ↔
      Recordable pit ctx interest ∧ f ∈ effective ∧ Fresh pit ctx interest f := by
  by_cases hrec : Recordable pit ctx interest
  · obtain ⟨nonce, token, entry, hnc, htok, hget⟩ := id hrec
    have heq : survivingFaces pit ctx interest effective =
        effective.foldl (recordFace token nonce ctx.arrival) (pit, []) := by
      rw [survivingFaces, hnc, htok]
    have h := recordedAt_foldl hget nonce ctx.arrival effective
    simp only [heq, fresh_iff hnc htok hget]
    exact ⟨h.kept_iff, fun f => (h.gains_iff hnc hget f).trans (and_iff_right hrec).symm⟩
  · -- nothing is recorded, and every face is fresh
    rw [survivingFaces_of_not_recordable hrec]
    refine ⟨fun f => (and_iff_left ?_).symm, fun f => iff_of_false ?_ fun h => hrec h.1⟩
    · intro nonce token entry hnc htok hget
      exact absurd ⟨nonce, token, entry, hnc, htok, hget⟩ hrec
    · rintro ⟨nonce, -, token, entry, hget, hhas, hnew⟩
      exact hnew ⟨entry, hget, hhas⟩

/-- The records match the faces: with a Send action, those faces get a record that it names; with a
Drop, none does. -/
def RecordsMatch (pit : Pit) (interest : Interest) (o : Outcome) : Prop :=
  match o.action with
  | .send _ faces => ∀ f, Gains pit o.state.pit interest f ↔ f ∈ faces
  | .drop _ => ∀ f, ¬ Gains pit o.state.pit interest f
  | _ => True

/-- A face that the scope and the out-records leave. -/
def Survives (self : StrategyStage) (pit : Pit) (ctx : PacketContext) (interest : Interest)
    (name : Name) (faces : List FaceId) (f : FaceId) : Prop :=
  f ∈ self.effectiveFaces ctx name faces ∧ Fresh pit ctx interest f

/-- Some face is left by the last filter too, so that the Interest is sent. -/
def Sends (self : StrategyStage) (pit : Pit) (ctx : PacketContext) (interest : Interest)
    (name : Name) (faces : List FaceId) : Prop :=
  ∃ f, self.Survives pit ctx interest name faces f ∧ self.atIngressHost ctx f = false

@[simp] lemma noteDecision_pit (s : State) (ctx : PacketContext) :
    (noteDecision s ctx).pit = s.pit := by
  unfold noteDecision
  split
  · split_ifs
    · rfl
    · rfl
  · rfl

/-- The three ends of a Forward decision. -/
lemma forward_cases (self : StrategyStage) (s : State) (ctx : PacketContext) (interest : Interest)
    (name : Name) (faces : List FaceId) :
    (self.effectiveFaces ctx name faces = [] ∧
      self.forward s ctx interest name faces = { state := s, action := .nack ctx .noRoute }) ∨
    (¬ self.Sends s.pit ctx interest name faces ∧
      (self.forward s ctx interest name faces).state.pit =
        (survivingFaces s.pit ctx interest (self.effectiveFaces ctx name faces)).1 ∧
      (self.forward s ctx interest name faces).action = .drop .suppressed) ∨
    (self.Sends s.pit ctx interest name faces ∧
      (self.forward s ctx interest name faces).state.pit =
        (survivingFaces s.pit ctx interest (self.effectiveFaces ctx name faces)).1 ∧
      ∃ ctx' out, (self.forward s ctx interest name faces).action = .send ctx' out ∧
        ctx'.name = ctx.name ∧
        ∀ f, f ∈ out ↔ f ∈ ctx.outFaces ∨
          self.Survives s.pit ctx interest name faces f ∧ self.atIngressHost ctx f = false) := by
  unfold forward
  simp only
  by_cases hemp : self.effectiveFaces ctx name faces = []
  · rw [if_pos hemp]
    exact .inl ⟨hemp, rfl⟩
  rw [if_neg hemp]
  right
  have hspec := (survivingFaces_spec s.pit ctx interest (self.effectiveFaces ctx name faces)).1
  rcases hsur : survivingFaces s.pit ctx interest (self.effectiveFaces ctx name faces) with
    ⟨pit, surviving⟩
  rw [hsur] at hspec
  have hmem : ∀ f, f ∈ surviving.filter (fun f => !self.atIngressHost ctx f) ↔
      self.Survives s.pit ctx interest name faces f ∧ self.atIngressHost ctx f = false := by
    intro f
    rw [mem_filter, hspec, Bool.not_eq_true', Survives]
  by_cases hnone : surviving.filter (fun f => !self.atIngressHost ctx f) = []
  · rw [if_pos hnone]
    refine .inl ⟨?_, rfl, rfl⟩
    rintro ⟨f, hf⟩
    rw [← hmem, hnone] at hf
    cases hf
  · rw [if_neg hnone]
    obtain ⟨f, hf⟩ := exists_mem_of_ne_nil _ hnone
    refine .inr ⟨⟨f, (hmem f).mp hf⟩, noteDecision_pit _ _, _, _, rfl, rfl, fun g => ?_⟩
    rw [mem_append, hmem]

lemma process_of_none (hpacket : ctx.packet = .interest interest) (hname : ctx.name = some name)
    (htag : ctx.tags.nextHopFaceId = none) :
    self.process s ctx now =
      self.act s ctx interest name (self.decide s ctx interest name now) := by
  rw [process, hpacket, hname, nextHopOverride, htag]

/-- **The records of a Forward decision.** The faces that get an out-record with the nonce of the
Interest are those of the Send action, and no face gets one with a Drop, exactly if: the Interest
has an entry and a nonce, or no face is left to send to; the last filter takes no face out that has
just got a record; and no face was chosen before that gets none. -/
theorem forward_records_iff (hpacket : ctx.packet = .interest interest)
    (hname : ctx.name = some name) (htag : ctx.tags.nextHopFaceId = none)
    (hdecision : self.decide s ctx interest name now = some (.forward faces)) :
    RecordsMatch s.pit interest (self.process s ctx now) ↔
      (Recordable s.pit ctx interest ∨ ¬ self.Sends s.pit ctx interest name faces) ∧
      (Recordable s.pit ctx interest → ∀ f, self.Survives s.pit ctx interest name faces f →
        self.atIngressHost ctx f = true →
          self.Sends s.pit ctx interest name faces ∧ f ∈ ctx.outFaces) ∧
      (Recordable s.pit ctx interest → self.Sends s.pit ctx interest name faces →
        ∀ f ∈ ctx.outFaces, self.Survives s.pit ctx interest name faces f) := by
  have hgain := (survivingFaces_spec s.pit ctx interest (self.effectiveFaces ctx name faces)).2
  rw [process_of_none hpacket hname htag, hdecision, act]
  rcases self.forward_cases s ctx interest name faces with
    ⟨hemp, heq⟩ | ⟨hsen, hpit, hact⟩ | ⟨hsen, hpit, ctx', out, hact, -, hout⟩
  · have hnone : ∀ f, ¬ self.Survives s.pit ctx interest name faces f := by
      rintro f ⟨hmem, -⟩
      rw [hemp] at hmem
      cases hmem
    have hsen : ¬ self.Sends s.pit ctx interest name faces := fun ⟨f, hf, _⟩ => hnone f hf
    rw [heq]
    refine iff_of_true trivial ⟨.inr hsen, fun _ f hf => absurd hf (hnone f), fun _ h => ?_⟩
    exact absurd h hsen
  · rw [RecordsMatch, hact, hpit]
    simp only [hgain]
    constructor
    · intro h
      refine ⟨.inr hsen, fun hrec f hf _ => ?_, fun _ h => absurd h hsen⟩
      exact absurd ⟨hrec, hf⟩ (h f)
    · rintro ⟨-, hat, -⟩ f ⟨hrec, hf⟩
      cases hhost : self.atIngressHost ctx f with
      | true => exact hsen (hat hrec f hf hhost).1
      | false => exact hsen ⟨f, hf, hhost⟩
  · rw [RecordsMatch, hact, hpit]
    simp only [hgain, hout]
    constructor
    · intro h
      obtain ⟨g, hg, hghos⟩ := hsen
      have hrec := ((h g).mpr (.inr ⟨hg, hghos⟩)).1
      refine ⟨.inl hrec, fun _ f hf hhost => ⟨⟨g, hg, hghos⟩, ?_⟩, fun _ _ f hf => ?_⟩
      · refine ((h f).mp ⟨hrec, hf⟩).resolve_right ?_
        rw [hhost]
        rintro ⟨-, ⟨⟩⟩
      · exact ((h f).mpr (.inl hf)).2
    · rintro ⟨hrec, hat, hbef⟩ f
      have hrec' := hrec.resolve_right (not_not.mpr hsen)
      constructor
      · rintro ⟨-, hf⟩
        cases hhost : self.atIngressHost ctx f with
        | true => exact .inl (hat hrec' f hf hhost).2
        | false => exact .inr ⟨hf, rfl⟩
      · rintro (hf | ⟨hf, -⟩)
        · exact ⟨hrec', hbef hrec' hsen f hf⟩
        · exact ⟨hrec', hf⟩

end Records

/-! ## The scope of `/localhost` -/

section Scope

/-- The faces of the Send action, if the outcome is one. -/
def Outcome.sendFaces (o : Outcome) : List FaceId :=
  match o.action with
  | .send _ faces => faces
  | _ => []

/-- The faces that the dispatcher hands the Interest to. -/
def Outcome.dispatched (o : Outcome) (faceTable : FaceTable)
    (checkRateLimitOutbound : FaceId → Bool) : List FaceId :=
  match o.action with
  | .send ctx faces => dispatchSend faceTable checkRateLimitOutbound ctx faces
  | _ => []

/-- The faces that the Interest is sent on when the timer fires, if a task was left to it. -/
def Outcome.woken (o : Outcome) (pit : Pit) (faceTable : FaceTable) : List FaceId :=
  (o.scheduled.map fun task => task.wake pit faceTable).getD []

/-- A face that is known and not local. -/
def NonLocal (faceTable : FaceTable) (f : FaceId) : Prop :=
  (faceTable.get f).map Face.scope = some .nonLocal

instance (faceTable : FaceTable) (f : FaceId) : Decidable (NonLocal faceTable f) :=
  inferInstanceAs (Decidable (_ = _))

variable {f : FaceId}

lemma NonLocal.isSome {faceTable : FaceTable} (h : NonLocal faceTable f) :
    (faceTable.get f).isSome = true := by
  rw [NonLocal, Option.map_eq_some_iff] at h
  obtain ⟨face, hface, -⟩ := h
  rw [hface]
  rfl

lemma Outcome.eq_nil_of_not_send {o : Outcome} (h : ∀ ctx out, o.action ≠ .send ctx out) :
    o.sendFaces = [] ∧ ∀ faceTable check, o.dispatched faceTable check = [] := by
  unfold sendFaces dispatched
  split
  · next ctx out heq => exact absurd heq (h ctx out)
  · exact ⟨rfl, fun _ _ => rfl⟩

/-- The stage itself chooses a face: the link header names it, or a Forward decision does and no
filter takes it out. -/
def Chooses (self : StrategyStage) (s : State) (ctx : PacketContext) (interest : Interest)
    (name : Name) (now : ℕ) (f : FaceId) : Prop :=
  ctx.tags.nextHopFaceId = some f ∧ (self.faceTable.get f).isSome = true ∨
    ctx.tags.nextHopFaceId = none ∧ ∃ faces,
      self.decide s ctx interest name now = some (.forward faces) ∧
      self.Survives s.pit ctx interest name faces f ∧ self.atIngressHost ctx f = false

lemma process_of_tag (hpacket : ctx.packet = .interest interest)
    (hname : ctx.name = some name) (htag : ctx.tags.nextHopFaceId = some f) :
    self.process s ctx now =
      if (self.faceTable.get f).isSome then
        { state := s
          action := .send { ctx with outFaces := ctx.outFaces ++ [f] } (ctx.outFaces ++ [f]) }
      else { state := s, action := .drop .unknownFace } := by
  rw [process, hpacket, hname, nextHopOverride, htag]
  simp only
  split_ifs
  · rfl
  · rfl

lemma forward_scheduled (self : StrategyStage) (s : State) (ctx : PacketContext)
    (interest : Interest) (name : Name) (faces : List FaceId) :
    (self.forward s ctx interest name faces).scheduled = none := by
  unfold forward
  simp only
  split_ifs
  all_goals rfl

/-- **What is sent**: nothing, or to the faces chosen before and those that the stage chooses. -/
lemma process_send (self : StrategyStage) (s : State) (now : ℕ)
    (hpacket : ctx.packet = .interest interest) (hname : ctx.name = some name) :
    (∀ ctx' out, (self.process s ctx now).action ≠ .send ctx' out) ∧
        (∀ f, ¬ self.Chooses s ctx interest name now f) ∨
      (∃ f, self.Chooses s ctx interest name now f) ∧
        ∃ ctx' out, (self.process s ctx now).action = .send ctx' out ∧ ctx'.name = ctx.name ∧
          ∀ f, f ∈ out ↔ f ∈ ctx.outFaces ∨ self.Chooses s ctx interest name now f := by
  cases htag : ctx.tags.nextHopFaceId with
  | some f =>
    rw [process_of_tag hpacket hname htag]
    split_ifs with hexis
    · refine .inr ⟨⟨f, .inl ⟨htag, hexis⟩⟩, _, _, rfl, rfl, fun g => ?_⟩
      rw [mem_append, mem_singleton, Chooses, htag]
      refine or_congr_right ?_
      constructor
      · rintro rfl
        exact .inl ⟨rfl, hexis⟩
      · rintro (⟨h, -⟩ | ⟨h, -⟩)
        · cases h
          rfl
        · cases h
    · refine .inl ⟨fun ctx' out h => (by cases h), fun g => ?_⟩
      rw [Chooses, htag]
      rintro (⟨h, hsome⟩ | ⟨h, -⟩)
      · cases h
        exact hexis hsome
      · cases h
  | none =>
    have hcho : ∀ f, self.Chooses s ctx interest name now f ↔ ∃ faces,
        self.decide s ctx interest name now = some (.forward faces) ∧
        self.Survives s.pit ctx interest name faces f ∧ self.atIngressHost ctx f = false := by
      intro f
      rw [Chooses, htag]
      simp
    simp only [hcho]
    rw [process_of_none hpacket hname htag]
    -- only a Forward decision sends
    rcases self.decide s ctx interest name now with
      - | ⟨faces⟩ | ⟨faces, delay⟩ | ⟨reason⟩ | - | -
    case some.forward =>
      rcases self.forward_cases s ctx interest name faces with
        ⟨hemp, heq⟩ | ⟨hsen, -, hact⟩ | ⟨hsen, -, ctx', out, hact, hctx', hout⟩
      · refine .inl ⟨fun ctx' out h => ?_, ?_⟩
        · rw [act, heq] at h
          cases h
        · rintro f ⟨faces', heq', ⟨hmem, -⟩, -⟩
          cases heq'
          rw [hemp] at hmem
          cases hmem
      · refine .inl ⟨fun ctx' out h => ?_, ?_⟩
        · rw [act, hact] at h
          cases h
        · rintro f ⟨faces', heq', hf⟩
          cases heq'
          exact hsen ⟨f, hf⟩
      · obtain ⟨f, hf⟩ := hsen
        refine .inr ⟨⟨f, faces, rfl, hf⟩, ctx', out, hact, hctx', fun f => ?_⟩
        rw [hout]
        simp
    all_goals exact .inl ⟨fun ctx' out h => (by cases h), by simp⟩

/-- **What is left to a timer**: the faces of a ForwardAfter decision, as they are. -/
lemma process_scheduled (hpacket : ctx.packet = .interest interest) (hname : ctx.name = some name)
    (task : Scheduled) :
    (self.process s ctx now).scheduled = some task ↔
      ctx.tags.nextHopFaceId = none ∧ ∃ faces delay,
        self.decide s ctx interest name now = some (.forwardAfter faces delay) ∧
        task = ⟨faces, delay, ctx.rawBytes, ctx.pitToken⟩ := by
  cases htag : ctx.tags.nextHopFaceId with
  | some f =>
    rw [process_of_tag hpacket hname htag]
    split_ifs
    · simp
    · simp
  | none =>
    rw [process_of_none hpacket hname htag]
    rcases self.decide s ctx interest name now with
      - | ⟨faces⟩ | ⟨faces, delay⟩ | ⟨reason⟩ | - | -
    case some.forward => simp [act, forward_scheduled]
    case some.forwardAfter => simp [act, eq_comm]
    all_goals simp [act]

lemma Survives.isLocal {pit : Pit} {faces : List FaceId}
    (h : self.Survives pit ctx interest name faces f) (hloc : isLocalhostName name = true) :
    ¬ NonLocal self.faceTable f := by
  have hmem := h.1
  have hres : self.restrictToLocal ctx name = true := by simp [restrictToLocal, hloc]
  rw [effectiveFaces, if_pos hres, mem_filter, decide_eq_true_iff] at hmem
  rw [NonLocal, hmem.2]
  simp

lemma Chooses.tag_or_local (h : self.Chooses s ctx interest name now f)
    (hloc : isLocalhostName name = true) :
    ctx.tags.nextHopFaceId = some f ∨ ¬ NonLocal self.faceTable f := by
  rcases h with ⟨htag, -⟩ | ⟨-, faces, -, hsur, -⟩
  · exact .inl htag
  · exact .inr (hsur.isLocal hloc)

section

variable (hpacket : ctx.packet = .interest interest) (hname : ctx.name = some name)
include hpacket hname

/-- The faces of the Send action on a `/localhost` Interest. -/
lemma sendFaces_local_iff (hloc : isLocalhostName name = true) :
    (∀ f ∈ (self.process s ctx now).sendFaces, ¬ NonLocal self.faceTable f) ↔
      (∀ f, ctx.tags.nextHopFaceId = some f → ¬ NonLocal self.faceTable f) ∧
      ((∃ f, self.Chooses s ctx interest name now f) →
        ∀ f ∈ ctx.outFaces, ¬ NonLocal self.faceTable f) := by
  have htag : ∀ f, ctx.tags.nextHopFaceId = some f → NonLocal self.faceTable f →
      self.Chooses s ctx interest name now f := fun f htag hf => .inl ⟨htag, hf.isSome⟩
  rcases process_send self s now hpacket hname with
    ⟨hnot, hnone⟩ | ⟨hcho, ctx', out, hact, -, hout⟩
  · rw [(eq_nil_of_not_send hnot).1]
    refine iff_of_true (by simp) ⟨fun f h hf => hnone f (htag f h hf), ?_⟩
    rintro ⟨f, hf⟩
    exact absurd hf (hnone f)
  · have hfac : (self.process s ctx now).sendFaces = out := by rw [sendFaces, hact]
    rw [hfac]
    constructor
    · intro h
      exact ⟨fun f htag' hf => h f ((hout f).mpr (.inr (htag f htag' hf))) hf,
        fun _ f hf => h f ((hout f).mpr (.inl hf))⟩
    · rintro ⟨htag', hbef⟩ f hf
      rcases (hout f).mp hf with hold | hchosen
      · exact hbef hcho f hold
      · exact (hchosen.tag_or_local hloc).elim (htag' f) id

lemma dispatched_local
    (hloc : isLocalhostName name = true) (checkRateLimitOutbound : FaceId → Bool) :
    ∀ f ∈ (self.process s ctx now).dispatched self.faceTable checkRateLimitOutbound,
      ¬ NonLocal self.faceTable f := by
  intro f hf hnon
  rcases process_send self s now hpacket hname with ⟨hnot, -⟩ | ⟨-, ctx', out, hact, hctx', -⟩
  · rw [(eq_nil_of_not_send hnot).2] at hf
    cases hf
  · rw [dispatched, hact] at hf
    simp only [dispatchSend, mem_filter] at hf
    rw [hctx', hname, hnon] at hf
    simp [hloc] at hf

/-- What a timer transmits: the faces of a ForwardAfter decision, if it then goes on. -/
lemma woken_local_iff (pitThen : Pit) (facesThen : FaceTable) :
    (∀ f ∈ (self.process s ctx now).woken pitThen facesThen, ¬ NonLocal facesThen f) ↔
      ∀ faces delay, ctx.tags.nextHopFaceId = none →
        self.decide s ctx interest name now = some (.forwardAfter faces delay) →
        (Scheduled.mk faces delay ctx.rawBytes ctx.pitToken).proceeds pitThen = true →
        ∀ f ∈ faces, ¬ NonLocal facesThen f := by
  rw [woken]
  constructor
  · intro h faces delay htag hdec hproc f hf hnon
    rw [(process_scheduled hpacket hname _).mpr ⟨htag, faces, delay, hdec, rfl⟩,
      Option.map_some, Option.getD_some, wake, if_pos hproc] at h
    exact h f (mem_filter.mpr ⟨hf, hnon.isSome⟩) hnon
  · intro h f hf
    cases htask : (self.process s ctx now).scheduled with
    | none =>
      rw [htask] at hf
      cases hf
    | some task =>
      obtain ⟨htag, faces, delay, hdec, rfl⟩ := (process_scheduled hpacket hname _).mp htask
      rw [htask, Option.map_some, Option.getD_some, wake] at hf
      split_ifs at hf with hproc
      · exact h faces delay htag hdec hproc f (mem_filter.mp hf).1
      · cases hf

end

/-- **The scope of `/localhost`.** The faces of the Send action are not non-local, exactly if the
link header names no such face and, where the stage chooses one, none was chosen before. The
dispatcher hands the Interest to no non-local face in any case; and what is transmitted at all, also
when a timer fires later, stays off non-local faces exactly if no ForwardAfter decision that then
goes on names one. -/
theorem localhost_stays_local_iff (hpacket : ctx.packet = .interest interest)
    (hname : ctx.name = some name) (hlocalhost : isLocalhostName name = true)
    (checkRateLimitOutbound : FaceId → Bool) (pitThen : Pit) (facesThen : FaceTable) :
    ((∀ f ∈ (self.process s ctx now).sendFaces, ¬ NonLocal self.faceTable f) ↔
      (∀ f, ctx.tags.nextHopFaceId = some f → ¬ NonLocal self.faceTable f) ∧
      ((∃ f, self.Chooses s ctx interest name now f) →
        ∀ f ∈ ctx.outFaces, ¬ NonLocal self.faceTable f)) ∧
    ((∀ f ∈ (self.process s ctx now).dispatched self.faceTable checkRateLimitOutbound,
        ¬ NonLocal self.faceTable f) ∧
      (∀ f ∈ (self.process s ctx now).woken pitThen facesThen, ¬ NonLocal facesThen f) ↔
      ∀ faces delay, ctx.tags.nextHopFaceId = none →
        self.decide s ctx interest name now = some (.forwardAfter faces delay) →
        (Scheduled.mk faces delay ctx.rawBytes ctx.pitToken).proceeds pitThen = true →
        ∀ f ∈ faces, ¬ NonLocal facesThen f) := by
  refine ⟨sendFaces_local_iff hpacket hname hlocalhost, ?_⟩
  rw [and_iff_right (dispatched_local hpacket hname hlocalhost checkRateLimitOutbound)]
  exact woken_local_iff hpacket hname pitThen facesThen

end Scope

end

/-! ## Samples -/

namespace Sample

open Pit.Sample (platform interest arrival nameA run)

/-- The faces of a FIB entry. -/
def nexthopFaces (entry : Option FibEntry) : List FaceId :=
  (entry.map fun e => e.nexthops.map FibNexthop.faceId).getD []

def multicast : Strategy := ⟨fun _ => none, fun c => [.forward (nexthopFaces c.fibEntry)]⟩

/-- A strategy that forwards to all next hops five milliseconds later. -/
def delayed : Strategy :=
  ⟨fun _ => none, fun c => [.forwardAfter (nexthopFaces c.fibEntry) 5000000]⟩

/-- A local face, two faces to one host, and a face to another host. -/
def fourFaces : FaceTable :=
  [(1, ⟨.isLocal, some "unix:///run/nfd.sock".toList⟩),
    (2, ⟨.nonLocal, some "udp4://10.0.0.1:40759".toList⟩),
    (3, ⟨.nonLocal, some "udp4://10.0.0.1:6363".toList⟩),
    (4, ⟨.nonLocal, some "udp4://10.0.0.2:6363".toList⟩)]

/-- A stage with a strategy, and a route for all names. -/
def stage (strategy : Strategy) (nexthops : List FaceId) : StrategyStage :=
  { strategyTable := .empty
    defaultStrategy := strategy
    fib := Fib.new.setNexthops [] (nexthops.map fun f => ⟨f, 0⟩)
    faceTable := fourFaces
    networkRegion := [] }

/-- An Interest from a face, behind the PIT check. -/
def context (i : Interest) (faceId : FaceId) : PacketContext :=
  ⟨i.raw, .interest i, some i.name, faceId, 0,
    some (Pit.nameToken platform i.name .classical), [], {}⟩

/-- The tables behind the PIT check. -/
def state (i : Interest) (faceId : FaceId) : State :=
  ⟨(run [.interest (arrival i faceId 0)]).pit, fun _ => 0⟩

def interestA : Interest := interest nameA false 7 none

def interestLocalhost : Interest := interest [.ofText "localhost", .ofText "a"] false 7 none

end Sample

section

open Sample

lemma gains_of_any {pit pit' : Pit} {i : Interest} {f : FaceId} (nonce : ℕ) (token : UInt64)
    (hnc : i.nonce = some nonce)
    (haft : ((pit'.get token).any fun e => hasOutRecord e nonce f) = true)
    (hbef : ((pit.get token).any fun e => hasOutRecord e nonce f) = false) :
    Gains pit pit' i f := by
  rw [Option.any_eq_true] at haft
  obtain ⟨entry', hget', hhas⟩ := haft
  refine ⟨nonce, hnc, token, entry', hget', hhas, ?_⟩
  rintro ⟨entry, hget, hold⟩
  rw [hget, Option.any_some, hold] at hbef
  cases hbef

/-- The premises of `forward_records_iff` hold of an Interest from a local face that is forwarded to
two hosts, and the records match. -/
theorem forward_records_two_hosts :
    (stage multicast [3, 4]).decide (state interestA 1) (context interestA 1) interestA
        interestA.name 0 = some (.forward [3, 4]) ∧
      RecordsMatch (state interestA 1).pit interestA
        ((stage multicast [3, 4]).process (state interestA 1) (context interestA 1) 0) := by
  have hdec : (stage multicast [3, 4]).decide (state interestA 1) (context interestA 1)
      interestA interestA.name 0 = some (.forward [3, 4]) := by
    decide
  have hhost : ∀ f ∈ [3, 4],
      (stage multicast [3, 4]).atIngressHost (context interestA 1) f = false := by
    decide
  have hget : ((state interestA 1).pit.get
      (Pit.nameToken Pit.Sample.platform interestA.name .classical)).isSome = true := by
    decide
  have hrec : Recordable (state interestA 1).pit (context interestA 1) interestA := by
    obtain ⟨entry, hent⟩ := Option.isSome_iff_exists.mp hget
    exact ⟨7, _, entry, by decide, rfl, hent⟩
  refine ⟨hdec, (forward_records_iff rfl rfl rfl hdec).mpr ⟨.inl hrec, ?_, ?_⟩⟩
  · rintro - f ⟨hmem, -⟩ hat
    rw [hhost f hmem] at hat
    cases hat
  · rintro - - f ⟨⟩

/-- **Records without transmissions.** An Interest from face 2 is forwarded to faces 3 and 4, where
face 3 leads to the host of face 2: faces 3 and 4 get a record, and the Send action names face 4
alone. Forwarded to face 3 alone, the Interest is dropped, and face 3 gets a record. -/
theorem forward_records_mismatch :
    (((stage multicast [3, 4]).process (state interestA 2) (context interestA 2) 0).sendFaces =
        [4] ∧
      Gains (state interestA 2).pit
        ((stage multicast [3, 4]).process (state interestA 2) (context interestA 2) 0).state.pit
        interestA 3) ∧
    (((stage multicast [3]).process (state interestA 2) (context interestA 2) 0).action =
        .drop .suppressed ∧
      Gains (state interestA 2).pit
        ((stage multicast [3]).process (state interestA 2) (context interestA 2) 0).state.pit
        interestA 3) := by
  have hgain : ∀ nexthops, nexthops = [3, 4] ∨ nexthops = [3] → Gains (state interestA 2).pit
      ((stage multicast nexthops).process (state interestA 2) (context interestA 2) 0).state.pit
      interestA 3 := by
    rintro nexthops (rfl | rfl)
    all_goals
      exact gains_of_any 7 (Pit.nameToken Pit.Sample.platform interestA.name .classical)
        (by decide) (by decide) (by decide)
  exact ⟨⟨by decide, hgain _ (.inl rfl)⟩, ⟨by decide, hgain _ (.inr rfl)⟩⟩

/-- The premises of `localhost_stays_local_iff` hold of an Interest for `/localhost/a` that is
forwarded to faces 1 and 4, and it is handed to no non-local face. -/
theorem localhost_stays_local_multicast :
    isLocalhostName interestLocalhost.name = true ∧
    ∀ f ∈ ((stage multicast [1, 4]).process (state interestLocalhost 1)
        (context interestLocalhost 1) 0).dispatched fourFaces (fun _ => true),
      ¬ NonLocal fourFaces f := by
  have hname : isLocalhostName interestLocalhost.name = true := by decide
  refine ⟨hname, ((localhost_stays_local_iff rfl rfl hname (fun _ => true)
    (state interestLocalhost 1).pit fourFaces).2.mpr ?_).1⟩
  intro faces delay _ haft
  cases haft

/-- **A `/localhost` Interest on a non-local face.** A ForwardAfter decision names the next hops of
the FIB, and the timer sends the Interest to a non-local one of them. -/
theorem localhost_leaves_by_timer :
    isLocalhostName interestLocalhost.name = true ∧
    ((stage delayed [4]).process (state interestLocalhost 1) (context interestLocalhost 1) 0).woken
      (state interestLocalhost 1).pit fourFaces = [4] ∧
    NonLocal fourFaces 4 := by
  all_goals decide

end

end NdnRs.StrategyStage
