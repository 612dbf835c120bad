import NdnRs.Transport.Retransmit

/-!
# Fast retransmission (`ndn-transport/src/reliability.rs`)

A frame is declared lost when three Acks have arrived for frames that were sent after it. The
counter goes up for every Ack field with a greater TxSequence, before it is looked up whether there
is a frame that the Ack clears.

## Main results

* `hasty_eq_nil` — when no frame is declared lost too early.
-/

namespace NdnRs

open Bytes Tlv Lp Fragment List LpReliability LpEndpoint

/-- How many frames after the one with TxSequence `t` an Ack has cleared. -/
def greaterAcked (cleared : List ℕ) (t : ℕ) : ℕ := (cleared.toFinset.filter (t < ·)).card

structure AckLedger (ρ : Type) where
  endpoint : LpEndpoint ρ
  cleared : List ℕ
  hasty : List ℕ

namespace AckLedger

variable {ρ : Type}

def ack (E : RtoEstimator ρ) (now : ℕ) (l : AckLedger ρ) (ackSeq : ℕ) : AckLedger ρ :=
  let endpoint := l.endpoint.processAck E now ackSeq
  let cleared :=
    if ackSeq ∈ l.endpoint.unacked.map Prod.fst then l.cleared ++ [ackSeq] else l.cleared
  let put := endpoint.fastRetxCandidates.drop l.endpoint.fastRetxCandidates.length
  ⟨endpoint, cleared, l.hasty ++ put.filter fun t => greaterAcked cleared t < 3⟩

/-- The endpoint of a ledger goes through the Acks as one without a ledger does. -/
lemma endpoint_foldl (E : RtoEstimator ρ) (now : ℕ) (acks : List ℕ) (l : AckLedger ρ) :
    (acks.foldl (ack E now) l).endpoint = acks.foldl (processAck E now) l.endpoint := by
  exact (foldl_hom endpoint fun _ _ => rfl).symm

end AckLedger

/-- What `on_receive` does before it looks at the Acks. -/
def LpEndpoint.noteTxSeq {ρ : Type} (E : RtoEstimator ρ) (self : LpEndpoint ρ) (now : ℕ)
    (raw : Bytes) : LpEndpoint ρ :=
  match (extractAcks raw).txSeq with
  | some seq => (self.receiveTxSeq E now seq).1
  | none => self

structure FastRun (ρ : Type) where
  link : LpLink ρ
  assigned : ℕ
  cleared : List ℕ
  hasty : List ℕ

namespace FastRun

variable {ρ : Type}

def start (E : RtoEstimator ρ) (mtu : ℕ) (config : ReliabilityConfig ρ) : FastRun ρ :=
  ⟨.fromConfig E mtu config, 0, [], []⟩

/-- One call; a frame that is received is looked at Ack by Ack. -/
def step (E : RtoEstimator ρ) (s : FastRun ρ) : LinkOp ρ → FastRun ρ
  | .onReceive now later raw =>
    let l := (extractAcks raw).acks.foldl (AckLedger.ack E later)
      ⟨s.link.toLpEndpoint.noteTxSeq E now raw, s.cleared, s.hasty⟩
    { s with
      link := { s.link with toLpEndpoint := l.endpoint }
      cleared := l.cleared
      hasty := l.hasty }
  | op =>
    { s with
      link := (s.link.call E op).1
      assigned := s.assigned + (s.link.call E op).2.length }
end FastRun

/-- Each of some Acks clears one of the frames with the given TxSequences, or there is no frame
before it. -/
def AcksClear : List ℕ → List ℕ → Prop
  | _, [] => True
  | kept, ack :: acks =>
    (ack ∈ kept ∨ ∀ seq ∈ kept, ack ≤ seq) ∧ AcksClear (kept.filter (· ≠ ack)) acks

/-! ## Counters and history -/

section Greater

variable {cleared : List ℕ} {a t : ℕ}

lemma greaterAcked_append_of_lt (hnew : a ∉ cleared) (hlt : t < a) :
    greaterAcked (cleared ++ [a]) t = greaterAcked cleared t + 1 := by
  have hins : (cleared ++ [a]).toFinset = insert a cleared.toFinset := by
    ext n
    simp
  rw [greaterAcked, hins, Finset.filter_insert, if_pos hlt, Finset.card_insert_of_notMem]
  · rfl
  · simp [hnew]

lemma greaterAcked_le_append (cleared : List ℕ) (a t : ℕ) :
    greaterAcked cleared t ≤ greaterAcked (cleared ++ [a]) t := by
  refine Finset.card_le_card (Finset.filter_subset_filter _ fun n hn => ?_)
  simp only [mem_toFinset, mem_append] at hn ⊢
  exact .inl hn

end Greater

lemma LpReliability.mem_unacked_sendFragment (now payloadCap fragCount netSeq : ℕ) (acks : List ℕ)
    (pkt : Bytes) (s : LpReliability × List Bytes) (i : ℕ) :
    ∀ x ∈ (sendFragment now payloadCap fragCount netSeq acks pkt s i).1.unacked,
      x ∈ s.1.unacked ∨ x.1 = s.1.nextTxSeq ∧ x.2.nGreaterSeqAcks = 0 := by
  obtain ⟨hsub, -, -⟩ :=
    evictUnacked_spec s.1.maxUnacked s.1.unacked s.1.unackedEvictions
  intro x hx
  rw [sendFragment] at hx
  simp only [insertUnacked, mem_append, mem_cons, mem_filter] at hx
  rcases hx with hx | rfl | hx
  · exact .inl (hsub.subset hx.1)
  · exact .inr ⟨rfl, rfl⟩
  · exact .inl (hsub.subset hx.1)

/-- The TxSequences that were assigned and cleared, and the counters of the frames that are kept:
each is at most the number of later frames that an Ack cleared. -/
structure Counted (assigned : ℕ) (cleared : List ℕ) (rel : LpReliability) : Prop where
  nextTxSeq : rel.nextTxSeq = assigned % 2 ^ 64
  kept_lt : ∀ x ∈ rel.unacked, x.1 < assigned
  cleared_lt : ∀ a ∈ cleared, a < assigned
  fresh : ∀ x ∈ rel.unacked, x.1 ∉ cleared
  counted : ∀ x ∈ rel.unacked, x.2.nGreaterSeqAcks ≤ greaterAcked cleared x.1

namespace Counted

variable {assigned : ℕ} {cleared : List ℕ} {rel rel' : LpReliability}

lemma of_kept (h : Counted assigned cleared rel) (hkept : ∀ x ∈ rel'.unacked, ∃ y ∈ rel.unacked,
      y.1 = x.1 ∧ x.2.nGreaterSeqAcks ≤ y.2.nGreaterSeqAcks)
    (hnext : rel'.nextTxSeq = rel.nextTxSeq) : Counted assigned cleared rel' where
  nextTxSeq := hnext.trans h.nextTxSeq
  kept_lt := by
    intro x hx
    obtain ⟨y, hy, hkey, -⟩ := hkept x hx
    rw [← hkey]
    exact h.kept_lt y hy
  cleared_lt := h.cleared_lt
  fresh := by
    intro x hx
    obtain ⟨y, hy, hkey, -⟩ := hkept x hx
    rw [← hkey]
    exact h.fresh y hy
  counted := by
    intro x hx
    obtain ⟨y, hy, hkey, hle⟩ := hkept x hx
    rw [← hkey]
    exact hle.trans (h.counted y hy)

lemma congr (h : Counted assigned cleared rel) (huna : rel'.unacked = rel.unacked)
    (hnext : rel'.nextTxSeq = rel.nextTxSeq) : Counted assigned cleared rel' :=
  h.of_kept (fun x hx => ⟨x, huna ▸ hx, rfl, le_rfl⟩) hnext

lemma sendFragment {s : LpReliability × List Bytes} (now payloadCap fragCount netSeq : ℕ)
    (acks : List ℕ) (pkt : Bytes) (i : ℕ) (h : Counted (assigned + s.2.length) cleared s.1)
    (hfit : assigned + s.2.length < 2 ^ 64) :
    Counted (assigned + (sendFragment now payloadCap fragCount netSeq acks pkt s i).2.length)
      cleared (sendFragment now payloadCap fragCount netSeq acks pkt s i).1 := by
  obtain ⟨rel, wires⟩ := s
  have htx : rel.nextTxSeq = assigned + wires.length := by
    rw [h.nextTxSeq]
    exact Nat.mod_eq_of_lt hfit
  have hmem := mem_unacked_sendFragment now payloadCap fragCount netSeq acks pkt (rel, wires) i
  have hlen := length_sendFragment now payloadCap fragCount netSeq acks pkt (rel, wires) i
  rw [hlen, ← Nat.add_assoc]
  constructor
  · show (rel.nextTxSeq + 1) % 2 ^ 64 = _
    rw [htx]
  · intro x hx
    rcases hmem x hx with hx | ⟨hkey, -⟩
    · exact (h.kept_lt x hx).trans (Nat.lt_succ_self _)
    · rw [hkey, htx]
      exact Nat.lt_succ_self _
  · intro a ha
    exact (h.cleared_lt a ha).trans (Nat.lt_succ_self _)
  · intro x hx hclr
    rcases hmem x hx with hx | ⟨hkey, -⟩
    · exact h.fresh x hx hclr
    · rw [hkey, htx] at hclr
      exact absurd (h.cleared_lt _ hclr) (Nat.lt_irrefl _)
  · intro x hx
    rcases hmem x hx with hx | ⟨-, hzero⟩
    · exact h.counted x hx
    · rw [hzero]
      exact Nat.zero_le _

lemma onSend (h : Counted assigned cleared rel) (now : ℕ) (pkt : Bytes)
    (hfit : assigned + (rel.onSend now pkt).2.length ≤ 2 ^ 64) :
    Counted (assigned + (rel.onSend now pkt).2.length) cleared (rel.onSend now pkt).1 := by
  refine rel.onSend_induction now pkt
    (motive := fun s => Counted (assigned + s.2.length) cleared s.1) ?_ ?_
  · exact fun _ => h.congr rfl rfl
  · intro payloadCap fragCount netSeq s i hlt hs
    exact hs.sendFragment now payloadCap fragCount netSeq _ pkt i (by omega)

end Counted

/-! ## One Ack -/

lemma LpEndpoint.nGreaterSeqAcks_noteGreaterAck (ackSeq : ℕ) (x : ℕ × UnackedEntry) :
    (noteGreaterAck ackSeq x).2.nGreaterSeqAcks =
      x.2.nGreaterSeqAcks + if x.1 < ackSeq then 1 else 0 := by
  rw [noteGreaterAck]
  split_ifs <;> rfl

variable {ackSeq : ℕ} {unacked : List (ℕ × UnackedEntry)}

lemma LpEndpoint.mem_erase_noteGreaterAck
    {x : ℕ × UnackedEntry} (hx : x ∈ Assoc.erase ackSeq (unacked.map (noteGreaterAck ackSeq))) :
    x.1 ≠ ackSeq ∧ ∃ y ∈ unacked, y.1 = x.1 ∧
      x.2.nGreaterSeqAcks = y.2.nGreaterSeqAcks + if y.1 < ackSeq then 1 else 0 := by
  obtain ⟨hmem, hne⟩ := Assoc.mem_erase_iff.mp hx
  obtain ⟨y, hy, rfl⟩ := mem_map.mp hmem
  exact ⟨hne, y, hy, (noteGreaterAck_key ackSeq y).symm, nGreaterSeqAcks_noteGreaterAck ackSeq y⟩

lemma LpEndpoint.mem_lostBy {t : ℕ} (ht : t ∈ lostBy ackSeq unacked) :
    t < ackSeq ∧ ∃ y ∈ unacked, y.1 = t ∧ y.2.nGreaterSeqAcks = 2 := by
  simp only [lostBy, mem_map, mem_filter, decide_eq_true_eq] at ht
  obtain ⟨x, ⟨⟨y, hy, rfl⟩, hlt, hthr⟩, rfl⟩ := ht
  rw [noteGreaterAck_key] at hlt
  rw [nGreaterSeqAcks_noteGreaterAck, if_pos hlt, seqNumLossThreshold] at hthr
  rw [noteGreaterAck_key]
  exact ⟨hlt, y, hy, rfl, by omega⟩

namespace Counted

variable {ρ : Type} {E : RtoEstimator ρ} {assigned : ℕ} {l : AckLedger ρ}

/-- **One Ack** that clears a frame, or has no frame before it: the counters stay right, and every
candidate that it puts in has been overtaken three times. -/
lemma ack (h : Counted assigned l.cleared l.endpoint.toLpReliability)
    {ackSeq : ℕ} (hclear : ackSeq ∈ l.endpoint.unacked.map Prod.fst ∨
      ∀ seq ∈ l.endpoint.unacked.map Prod.fst, ackSeq ≤ seq) (now : ℕ) :
    Counted assigned (l.ack E now ackSeq).cleared (l.ack E now ackSeq).endpoint.toLpReliability ∧
      (l.ack E now ackSeq).hasty = l.hasty := by
  obtain ⟨estimator, heq⟩ := l.endpoint.processAck_eq E now ackSeq
  rw [AckLedger.ack, heq]
  rw [drop_left]
  by_cases hkept : ackSeq ∈ l.endpoint.unacked.map Prod.fst
  · obtain ⟨z, hz, rfl⟩ := mem_map.mp hkept
    have hnew : z.1 ∉ l.cleared := h.fresh z hz
    rw [if_pos hkept]
    refine ⟨⟨h.nextTxSeq, ?_, ?_, ?_, ?_⟩, ?_⟩
    · intro x hx
      obtain ⟨-, y, hy, hkey, -⟩ := mem_erase_noteGreaterAck hx
      rw [← hkey]
      exact h.kept_lt y hy
    · intro a ha
      rcases mem_append.mp ha with ha | ha
      · exact h.cleared_lt a ha
      · rw [mem_singleton.mp ha]
        exact h.kept_lt z hz
    · intro x hx hclr
      obtain ⟨hne, y, hy, hkey, -⟩ := mem_erase_noteGreaterAck hx
      rcases mem_append.mp hclr with hclr | hclr
      · exact h.fresh y hy (hkey ▸ hclr)
      · exact hne (mem_singleton.mp hclr)
    · intro x hx
      obtain ⟨-, y, hy, hkey, hn⟩ := mem_erase_noteGreaterAck hx
      have hle := h.counted y hy
      rw [hn, ← hkey]
      split_ifs with hlt
      · rw [greaterAcked_append_of_lt hnew hlt]
        omega
      · exact hle.trans (greaterAcked_le_append _ _ _)
    · -- the third Ack for a later frame is the third that cleared one
      rw [append_right_eq_self, filter_eq_nil_iff]
      intro t ht
      obtain ⟨hlt, y, hy, hkey, htwo⟩ := mem_lostBy ht
      have hle := h.counted y hy
      rw [hkey, htwo] at hle
      rw [decide_eq_true_eq, greaterAcked_append_of_lt hnew hlt]
      omega
  · have hbel := hclear.resolve_left hkept
    rw [if_neg hkept]
    refine ⟨h.of_kept (fun x hx => ?_) rfl, ?_⟩
    · obtain ⟨-, y, hy, hkey, hn⟩ := mem_erase_noteGreaterAck hx
      have hle := hbel y.1 (mem_map.mpr ⟨y, hy, rfl⟩)
      rw [if_neg (by omega), Nat.add_zero] at hn
      exact ⟨y, hy, hkey, hn.le⟩
    · rw [append_right_eq_self, filter_eq_nil_iff]
      intro t ht
      obtain ⟨hlt, y, hy, hkey, -⟩ := mem_lostBy ht
      have hle := hbel y.1 (mem_map.mpr ⟨y, hy, rfl⟩)
      omega

lemma foldl_ack (now : ℕ) {acks : List ℕ}
    (h : Counted assigned l.cleared l.endpoint.toLpReliability)
    (hclear : AcksClear (l.endpoint.unacked.map Prod.fst) acks) :
    Counted assigned (acks.foldl (.ack E now) l).cleared
        (acks.foldl (.ack E now) l).endpoint.toLpReliability ∧
      (acks.foldl (.ack E now) l).hasty = l.hasty := by
  induction acks generalizing l with
  | nil => exact ⟨h, rfl⟩
  | cons a acks ih =>
    obtain ⟨hcnt, hhas⟩ := h.ack (E := E) hclear.1 now
    have hkeys : (l.ack E now a).endpoint.unacked.map Prod.fst =
        (l.endpoint.unacked.map Prod.fst).filter (· ≠ a) := by
      obtain ⟨estimator, heq⟩ := l.endpoint.processAck_eq E now a
      rw [AckLedger.ack, heq]
      rw [Assoc.keys_erase, keys_map_noteGreaterAck]
    obtain ⟨hrest, hhas'⟩ := ih hcnt (hkeys ▸ hclear.2)
    exact ⟨hrest, hhas'.trans hhas⟩

/-! ## Retransmission -/

section Retransmission

variable {cleared : List ℕ} {link : LpLink ρ}

lemma expire (h : Counted assigned cleared link.toLpReliability) (seq : ℕ) :
    Counted assigned cleared (link.expire seq).toLpReliability :=
  h.of_kept (fun x hx => ⟨x, (Assoc.mem_erase_iff.mp hx).1, rfl, le_rfl⟩) rfl

lemma resend {rel rel' : LpReliability} (h : Counted assigned cleared rel) {seq : ℕ}
    {entry entry' : UnackedEntry} (hlk : rel.unacked.lookup seq = some entry)
    (huna : rel'.unacked = Assoc.insert seq entry' rel.unacked)
    (hle : entry'.nGreaterSeqAcks ≤ entry.nGreaterSeqAcks)
    (hnext : rel'.nextTxSeq = rel.nextTxSeq) : Counted assigned cleared rel' := by
  refine h.of_kept (fun x hx => ?_) hnext
  rw [huna] at hx
  rcases Assoc.mem_insert hx with rfl | hx
  · obtain ⟨before, after, heq⟩ := Assoc.exists_append_of_lookup hlk
    exact ⟨(seq, entry), by simp [heq], rfl, hle⟩
  · exact ⟨x, hx, rfl, le_rfl⟩

lemma takeFastRetransmits (h : Counted assigned cleared link.toLpReliability)
    (now : ℕ) : Counted assigned cleared (link.takeFastRetransmits now).1.toLpReliability := by
  refine foldlRecOn
    (motive := fun s : LpLink ρ × List Bytes => Counted assigned cleared s.1.toLpReliability) _ _
    h ?_
  intro s hs seq _
  rw [LpLink.fastRetransmit]
  cases hlk : s.1.unacked.lookup seq with
  | none => exact hs
  | some entry =>
    dsimp only
    split_ifs
    · exact hs.expire seq
    · exact hs.resend hlk rfl (Nat.zero_le _) rfl

lemma checkRetransmit (h : Counted assigned cleared link.toLpReliability)
    (now : ℕ) : Counted assigned cleared (link.checkRetransmit E now).1.toLpReliability := by
  refine foldlRecOn
    (motive := fun s : LpLink ρ × List Bytes => Counted assigned cleared s.1.toLpReliability) _ _
    ?_ ?_
  · refine foldlRecOn
      (motive := fun link : LpLink ρ => Counted assigned cleared link.toLpReliability) _ _ h ?_
    exact fun link hlink seq _ => hlink.expire seq
  · intro s hs seq _
    rw [LpLink.retransmit]
    cases hlk : s.1.unacked.lookup seq with
    | none => exact hs
    | some entry => exact hs.resend hlk rfl le_rfl rfl

end Retransmission

end Counted

/-! ## Runs -/

lemma LpEndpoint.noteTxSeq_spec {ρ : Type} (E : RtoEstimator ρ) (self : LpEndpoint ρ) (now : ℕ)
    (raw : Bytes) : (self.noteTxSeq E now raw).unacked = self.unacked ∧
      (self.noteTxSeq E now raw).nextTxSeq = self.nextTxSeq := by
  rw [noteTxSeq]
  cases (extractAcks raw).txSeq with
  | none => exact ⟨rfl, rfl⟩
  | some seq =>
    dsimp only
    rw [receiveTxSeq]
    dsimp only
    split_ifs <;> exact ⟨rfl, rfl⟩

namespace FastRun

variable {ρ : Type} {E : RtoEstimator ρ}

/-- Every Ack of a frame that is received clears a frame, or has no frame before it. -/
def Clears (s : FastRun ρ) : LinkOp ρ → Prop
  | .onReceive _ _ raw => AcksClear (s.link.unacked.map Prod.fst) (extractAcks raw).acks
  | _ => True

/-- The counters are right, and no candidate was put in too early. -/
structure Sound (s : FastRun ρ) : Prop where
  counted : Counted s.assigned s.cleared s.link.toLpReliability
  unhurried : s.hasty = []

lemma assigned_le_step (s : FastRun ρ) (op : LinkOp ρ) : s.assigned ≤ (s.step E op).assigned := by
  cases op with
  | onReceive now later raw => exact le_rfl
  | _ => exact Nat.le_add_right _ _

variable {s : FastRun ρ}

lemma Sound.step (h : s.Sound) {op : LinkOp ρ} (hclr : s.Clears op)
    (hfit : (s.step E op).assigned ≤ 2 ^ 64) : (s.step E op).Sound := by
  cases op with
  | onSend now pkt => exact ⟨h.counted.onSend now pkt hfit, h.unhurried⟩
  | onReceive now later raw =>
    obtain ⟨huna, hnext⟩ := s.link.toLpEndpoint.noteTxSeq_spec E now raw
    have hnot : Counted s.assigned s.cleared
        (s.link.toLpEndpoint.noteTxSeq E now raw).toLpReliability :=
      h.counted.congr huna hnext
    rw [Clears, ← huna] at hclr
    obtain ⟨hcnt, hhas⟩ := Counted.foldl_ack (E := E)
      (l := ⟨s.link.toLpEndpoint.noteTxSeq E now raw, s.cleared, s.hasty⟩) later hnot hclr
    exact ⟨hcnt, hhas.trans h.unhurried⟩
  | takeFastRetransmits now => exact ⟨h.counted.takeFastRetransmits now, h.unhurried⟩
  | checkRetransmit now => exact ⟨h.counted.checkRetransmit now, h.unhurried⟩
  | flushAcks =>
    refine ⟨?_, h.unhurried⟩
    show Counted s.assigned s.cleared s.link.flushAcks.1.toLpReliability
    rw [LpLink.flushAcks, LpEndpoint.flushAcks]
    split_ifs
    · exact h.counted
    · exact h.counted.congr rfl rfl
  | setMtu mtu => exact ⟨h.counted.congr rfl rfl, h.unhurried⟩
  | applyConfig config => exact ⟨h.counted.congr rfl rfl, h.unhurried⟩

lemma Sound.foldl {ops : List (LinkOp ρ)} (h : s.Sound) (hclr : Run.Admits (.step E) Clears s ops)
    (hfit : (ops.foldl (.step E) s).assigned ≤ 2 ^ 64) :
    (ops.foldl (.step E) s).Sound := by
  induction ops generalizing s with
  | nil => exact h
  | cons op ops ih =>
    have hle := Run.le_foldl assigned (assigned_le_step (E := E)) ops (s.step E op)
    exact ih (h.step hclr.1 (hle.trans hfit)) hclr.2 hfit

/-- **No frame is declared lost too early** where all Acks clear: in a run in which every Ack clears
a frame or has no frame before it, each frame that was put in `fast_retx_candidates` had by then
been overtaken by Acks for three later frames that were sent and not yet acked. -/
theorem hasty_eq_nil (E : RtoEstimator ρ) (mtu : ℕ) (config : ReliabilityConfig ρ)
    (ops : List (LinkOp ρ)) (hclears : Run.Admits (step E) Clears (start E mtu config) ops)
    (hfit : (ops.foldl (step E) (start E mtu config)).assigned ≤ 2 ^ 64) :
    (ops.foldl (step E) (start E mtu config)).hasty = [] := by
  refine (Sound.foldl ⟨⟨rfl, ?_, ?_, ?_, ?_⟩, rfl⟩ hclears hfit).unhurried
  all_goals exact fun _ hx => absurd hx not_mem_nil

namespace Sample

def roomForEight : ReliabilityConfig ℕ := ⟨1000, 1, 8, 8⟩

/-- Packets `0`, `1`, …, and then a frame with some Acks. -/
def acked (packets : ℕ) (acks : List ℕ) : List (LinkOp ℕ) :=
  List.replicate packets (.onSend 0 [0xAA]) ++ [.onReceive 1 1 (encodeLpAcks acks)]

def run (packets : ℕ) (acks : List ℕ) : FastRun ℕ :=
  (acked packets acks).foldl (step AckRun.Sample.fixedRto)
    (start AckRun.Sample.fixedRto 1400 roomForEight)

end Sample

/-- `hasty_eq_nil` for four packets of which all but the first are acked. -/
theorem hasty_eq_nil_three_acks :
    (Sample.run 4 [1, 2, 3]).link.fastRetxCandidates = [0] ∧
      (Sample.run 4 [1, 2, 3]).hasty = [] := by
  refine ⟨by decide, ?_⟩
  refine hasty_eq_nil _ _ _ _ ⟨trivial, trivial, trivial, trivial, ?_, trivial⟩ ?_
  · exact ⟨.inl (by decide), .inl (by decide), .inl (by decide), trivial⟩
  · decide

open Sample in
/-- **Frames declared lost too early.** Of two packets, the Ack for the second one arrives three
times; or Acks arrive for frames that were never sent. -/
theorem hasty_candidates :
    (run 2 [1, 1, 1]).link.fastRetxCandidates = [0] ∧
      (run 2 [1, 1, 1]).cleared = [1] ∧ (run 2 [1, 1, 1]).hasty = [0] ∧
      (run 2 [5, 6, 7]).link.fastRetxCandidates = [0, 1] ∧
      (run 2 [5, 6, 7]).cleared = [] ∧ (run 2 [5, 6, 7]).hasty = [0, 1] := by
  decide

end FastRun

end NdnRs
