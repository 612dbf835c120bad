import Mathlib.Data.List.Induction

/-!
# Frames of a stream

A decoder looks at a buffer and takes a frame off its front, or fails, or waits for more. A stream
comes in chunks; after each of them the decoder is called until it waits or fails. If what a decoder
says of a buffer does not change when the buffer grows, it makes no difference how the stream is
cut.
-/

namespace Framing

open List

universe u v

variable {α : Type u} {ε : Type v}

/-- A decoder: a frame and what is left behind it, or nothing yet, or an error. -/
abbrev Decoder (α : Type u) (ε : Type v) : Type (max u v) :=
  List α → Except ε (Option (List α × List α))

/-- What a decoder says of a buffer does not change when the buffer grows, unless it waits; a frame
is not empty and is taken off the front. -/
structure Stable (decode : Decoder α ε) : Prop where
  nil : decode [] = .ok none
  split : ∀ {buf frame rest}, decode buf = .ok (some (frame, rest)) →
    frame ≠ [] ∧ frame ++ rest = buf
  frame : ∀ {buf frame rest}, decode buf = .ok (some (frame, rest)) → ∀ more,
    decode (buf ++ more) = .ok (some (frame, rest ++ more))
  error : ∀ {buf e}, decode buf = .error e → ∀ more, decode (buf ++ more) = .error e

/-- The frames so far, what is left of the buffer, and the error if there was one. -/
structure Drained (α : Type u) (ε : Type v) where
  frames : List (List α)
  rest : List α
  error : Option ε

/-- The loop that calls a decoder until it waits or fails, at most so many times. -/
def drainLoop (decode : Decoder α ε) : ℕ → List α → Drained α ε
  | 0, buf => ⟨[], buf, none⟩
  | fuel + 1, buf =>
    match decode buf with
    | .ok none => ⟨[], buf, none⟩
    | .error e => ⟨[], buf, some e⟩
    | .ok (some (frame, rest)) =>
      let d := drainLoop decode fuel rest
      ⟨frame :: d.frames, d.rest, d.error⟩

/-- The frames of a buffer. No frame is empty, so that there are no more of them than elements. -/
def drain (decode : Decoder α ε) (buf : List α) : Drained α ε :=
  drainLoop decode (buf.length + 1) buf

def start : Drained α ε := ⟨[], [], none⟩

/-- One more chunk. Nothing is read behind an error. -/
def feed (decode : Decoder α ε) (s : Drained α ε) (chunk : List α) : Drained α ε :=
  if s.error.isSome then s
  else
    let d := drain decode (s.rest ++ chunk)
    ⟨s.frames ++ d.frames, d.rest, d.error⟩

section

variable {decode : Decoder α ε} {buf frame rest more : List α} {e : ε}

lemma Stable.length_rest_lt (hs : Stable decode) (h : decode buf = .ok (some (frame, rest))) :
    rest.length < buf.length := by
  obtain ⟨hne, hspl⟩ := hs.split h
  have hpos := length_pos_iff.mpr hne
  rw [← hspl, length_append]
  omega

/-- **Induction over the frames of a buffer.** -/
theorem Stable.induction (hs : Stable decode) {motive : List α → Prop}
    (wait : ∀ buf, decode buf = .ok none → motive buf)
    (error : ∀ buf e, decode buf = .error e → motive buf)
    (frame : ∀ buf frame rest, decode buf = .ok (some (frame, rest)) → motive rest → motive buf)
    (buf : List α) : motive buf := by
  induction hlen : buf.length using Nat.strongRecOn generalizing buf with
  | ind n ih =>
    subst hlen
    rcases hdec : decode buf with e | _ | ⟨f, rest⟩
    · exact error buf e hdec
    · exact wait buf hdec
    · exact frame buf f rest hdec (ih _ (hs.length_rest_lt hdec) rest rfl)

lemma drainLoop_eq_drain (hs : Stable decode) {fuel : ℕ} (hfuel : buf.length < fuel) :
    drainLoop decode fuel buf = drain decode buf := by
  have heq : ∀ fuel', buf.length < fuel' →
      drainLoop decode fuel buf = drainLoop decode fuel' buf := by
    induction fuel generalizing buf with
    | zero => omega
    | succ fuel ih =>
      intro fuel' hfuel'
      cases fuel' with
      | zero => omega
      | succ fuel' =>
        rw [drainLoop, drainLoop]
        rcases hdec : decode buf with e | _ | ⟨f, rest⟩
        · rfl
        · rfl
        · have hlt := hs.length_rest_lt hdec
          simp only
          rw [ih (by omega) fuel' (by omega)]
  exact heq _ (Nat.lt_succ_self _)

lemma drain_of_wait (h : decode buf = .ok none) : drain decode buf = ⟨[], buf, none⟩ := by
  rw [drain, drainLoop, h]

lemma drain_of_error (h : decode buf = .error e) : drain decode buf = ⟨[], buf, some e⟩ := by
  rw [drain, drainLoop, h]

lemma drain_of_frame (hs : Stable decode) (h : decode buf = .ok (some (frame, rest))) :
    drain decode buf =
      ⟨frame :: (drain decode rest).frames, (drain decode rest).rest,
        (drain decode rest).error⟩ := by
  rw [drain, drainLoop, h]
  simp only
  rw [drainLoop_eq_drain hs (hs.length_rest_lt h)]

lemma drain_append_of_error (hs : Stable decode) (h : (drain decode buf).error = some e)
    (more : List α) :
    (drain decode (buf ++ more)).frames = (drain decode buf).frames ∧
      (drain decode (buf ++ more)).error = some e := by
  induction buf using hs.induction with
  | wait buf hdec =>
    rw [drain_of_wait hdec] at h
    cases h
  | error buf e' hdec =>
    rw [drain_of_error hdec] at h ⊢
    rw [drain_of_error (hs.error hdec more)]
    exact ⟨rfl, h⟩
  | frame buf f rest hdec ih =>
    rw [drain_of_frame hs hdec] at h ⊢
    rw [drain_of_frame hs (hs.frame hdec more)]
    obtain ⟨hfrs, herr⟩ := ih h
    exact ⟨congrArg (cons f) hfrs, herr⟩

/-- **A buffer that grows**: the frames that were there, then those of what was left and what has
come. -/
lemma drain_append (hs : Stable decode) (h : (drain decode buf).error = none) (more : List α) :
    drain decode (buf ++ more) =
      ⟨(drain decode buf).frames ++ (drain decode ((drain decode buf).rest ++ more)).frames,
        (drain decode ((drain decode buf).rest ++ more)).rest,
        (drain decode ((drain decode buf).rest ++ more)).error⟩ := by
  induction buf using hs.induction with
  | wait buf hdec =>
    rw [drain_of_wait hdec]
    rfl
  | error buf e hdec =>
    rw [drain_of_error hdec] at h
    cases h
  | frame buf f rest hdec ih =>
    rw [drain_of_frame hs hdec] at h ⊢
    rw [drain_of_frame hs (hs.frame hdec more), ih h]
    rfl

lemma flatten_frames_append_rest (hs : Stable decode) (buf : List α) :
    (drain decode buf).frames.flatten ++ (drain decode buf).rest = buf := by
  induction buf using hs.induction with
  | wait buf hdec =>
    rw [drain_of_wait hdec]
    rfl
  | error buf e hdec =>
    rw [drain_of_error hdec]
    rfl
  | frame buf f rest hdec ih =>
    rw [drain_of_frame hs hdec]
    rw [flatten_cons, append_assoc, ih]
    exact (hs.split hdec).2

end

/-- After chunks whose frames have been taken off: the frames and the error are those of all that
has come, and without an error so is what is left. -/
structure UpTo (decode : Decoder α ε) (stream : List α) (s : Drained α ε) : Prop where
  frames : s.frames = (drain decode stream).frames
  error : s.error = (drain decode stream).error
  rest : s.error = none → s.rest = (drain decode stream).rest

section

variable {decode : Decoder α ε} {stream : List α} {s : Drained α ε}

lemma upTo_start (hs : Stable decode) : UpTo decode [] start := by
  have hnil := drain_of_wait hs.nil
  refine ⟨?_, ?_, fun _ => ?_⟩
  all_goals
    rw [hnil]
    rfl

lemma UpTo.feed (hs : Stable decode) (h : UpTo decode stream s) (chunk : List α) :
    UpTo decode (stream ++ chunk) (feed decode s chunk) := by
  cases herr : s.error with
  | some e =>
    have hfeed : Framing.feed decode s chunk = s := by
      rw [Framing.feed, herr, if_pos Option.isSome_some]
    obtain ⟨hfrs, herr'⟩ := drain_append_of_error hs (h.error.symm.trans herr) chunk
    rw [hfeed]
    refine ⟨h.frames.trans hfrs.symm, herr.trans herr'.symm, fun hnone => ?_⟩
    rw [herr] at hnone
    cases hnone
  | none =>
    have hfeed : Framing.feed decode s chunk = drain decode (stream ++ chunk) := by
      rw [drain_append hs (h.error.symm.trans herr), Framing.feed, herr, if_neg (by simp),
        h.frames, h.rest herr]
    rw [hfeed]
    exact ⟨rfl, rfl, fun _ => rfl⟩

end

variable {decode : Decoder α ε}

/-- **However a stream is cut**, its frames and its error are those of the whole stream. -/
theorem upTo_chunks (hs : Stable decode) (chunks : List (List α)) :
    UpTo decode chunks.flatten (chunks.foldl (feed decode) start) := by
  induction chunks using reverseRecOn with
  | nil => exact upTo_start hs
  | append_singleton chunks chunk ih =>
    rw [foldl_append, flatten_append, flatten_singleton]
    exact ih.feed hs chunk

/-- **The frames of a stream are its beginning.** -/
theorem flatten_frames_prefix (hs : Stable decode) (chunks : List (List α)) :
    (chunks.foldl (feed decode) start).frames.flatten <+: chunks.flatten := by
  rw [(upTo_chunks hs chunks).frames]
  exact ⟨_, flatten_frames_append_rest hs chunks.flatten⟩

end Framing
