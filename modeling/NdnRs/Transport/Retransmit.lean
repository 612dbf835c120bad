import NdnRs.Transport.Acks

/-!
# Retransmission (`ndn-transport/src/reliability.rs`)

A frame is kept from the time it is sent until an Ack clears it, its retries are used up, or newer
frames need its place. Meanwhile it is sent again by `take_fast_retransmits`, when later frames have
been acked, and by `check_retransmit`, when nothing has been heard for the retransmission timeout;
both count in the same retry counter.

## Implementation notes

A strategy for the timeout is the state that its estimator starts in. TxSequences are 64-bit
numbers; the results are about runs that do not use up all of them.

## Main results

* `frames_balanced` — where every frame is.
-/

namespace NdnRs

open Bytes Tlv Lp Fragment List Assoc

structure ReliabilityConfig (ρ : Type) where
  rtoStrategy : ρ
  maxRetries : ℕ
  maxUnacked : ℕ
  maxRetxPerTick : ℕ

/-- `LpReliability`, with what retransmission uses. -/
structure LpLink (ρ : Type) extends LpEndpoint ρ where
  maxRetries : ℕ
  maxRetxPerTick : ℕ
  rtoExpirations : ℕ
  fastRetx : ℕ

namespace LpLink

variable {ρ : Type} (E : RtoEstimator ρ)

def fromConfig (mtu : ℕ) (config : ReliabilityConfig ρ) : LpLink ρ :=
  { LpEndpoint.fromConfig E mtu config.maxUnacked with
    estimator := config.rtoStrategy
    maxRetries := config.maxRetries
    maxRetxPerTick := config.maxRetxPerTick
    rtoExpirations := 0
    fastRetx := 0 }

variable (self : LpLink ρ) (now : ℕ)

def applyConfig (config : ReliabilityConfig ρ) : LpLink ρ :=
  { self with
    estimator := config.rtoStrategy
    maxRetries := config.maxRetries
    maxUnacked := config.maxUnacked
    maxRetxPerTick := config.maxRetxPerTick }

def onSend (pkt : Bytes) : LpLink ρ × List Bytes :=
  let (endpoint, wires) := self.toLpEndpoint.onSend now pkt
  ({ self with toLpEndpoint := endpoint }, wires)

def onReceive (now later : ℕ) (raw : Bytes) : LpLink ρ × Bool :=
  let (endpoint, isDuplicate) := self.toLpEndpoint.onReceive E now later raw
  ({ self with toLpEndpoint := endpoint }, isDuplicate)

def flushAcks : LpLink ρ × Option Bytes :=
  let (endpoint, wire) := self.toLpEndpoint.flushAcks
  ({ self with toLpEndpoint := endpoint }, wire)

def setMtu (mtu : ℕ) : LpLink ρ := { self with mtu := mtu }

def expire (seq : ℕ) : LpLink ρ :=
  { self with
    unacked := Assoc.erase seq self.unacked
    rtoExpirations := self.rtoExpirations + 1 }

/-- What `take_fast_retransmits` does with a candidate. -/
def fastRetransmit (s : LpLink ρ × List Bytes) (seq : ℕ) : LpLink ρ × List Bytes :=
  match s.1.unacked.lookup seq with
  | none => s
  | some entry =>
    if entry.retxCount ≥ s.1.maxRetries then (s.1.expire seq, s.2)
    else
      ({ s.1 with
          unacked := Assoc.insert seq { entry with
            lastSent := now
            retxCount := entry.retxCount + 1
            isRetx := true
            nGreaterSeqAcks := 0 } s.1.unacked
          fastRetx := s.1.fastRetx + 1 }, s.2 ++ [entry.wire])

def takeFastRetransmits : LpLink ρ × List Bytes :=
  self.fastRetxCandidates.foldl (fastRetransmit now) ({ self with fastRetxCandidates := [] }, [])

/-- What `check_retransmit` does with a frame that is to be sent again. -/
def retransmit (s : LpLink ρ × List Bytes) (seq : ℕ) : LpLink ρ × List Bytes :=
  match s.1.unacked.lookup seq with
  | none => s
  | some entry =>
    ({ s.1 with
        unacked := Assoc.insert seq { entry with
          lastSent := now
          retxCount := entry.retxCount + 1
          isRetx := true } s.1.unacked }, s.2 ++ [entry.wire])

/-- The frames that have not been heard of for the timeout. -/
def due : List (ℕ × UnackedEntry) :=
  self.unacked.filter fun x => now - x.2.lastSent ≥ E.rtoUs self.estimator * 1000

/-- `expired` in `check_retransmit`. -/
def expired : List ℕ :=
  ((self.due E now).filter fun x => x.2.retxCount ≥ self.maxRetries).map Prod.fst

/-- `retx` in `check_retransmit`. -/
def retx : List ℕ :=
  ((self.due E now).filter fun x => x.2.retxCount < self.maxRetries).map Prod.fst

def checkRetransmit : LpLink ρ × List Bytes :=
  ((self.retx E now).take self.maxRetxPerTick).foldl (retransmit now)
    ((self.expired E now).foldl expire self, [])

/-- The state without what retransmission changes. -/
def others : LpLink ρ :=
  { self with unacked := [], fastRetxCandidates := [], rtoExpirations := 0, fastRetx := 0 }

lemma others_takeFastRetransmits : (self.takeFastRetransmits now).1.others = self.others := by
  refine Run.foldl_unchanged (fun s : LpLink ρ × List Bytes => s.1.others) (fun s seq => ?_) _ _
  rw [fastRetransmit]
  cases s.1.unacked.lookup seq with
  | none => rfl
  | some entry =>
    dsimp only
    split_ifs <;> rfl

lemma others_checkRetransmit : (self.checkRetransmit E now).1.others = self.others := by
  have hexp : ((self.expired E now).foldl expire self).others = self.others := by
    refine Run.foldl_unchanged others ?_ _ _
    exact fun _ _ => rfl
  rw [← hexp]
  refine Run.foldl_unchanged (fun s : LpLink ρ × List Bytes => s.1.others) (fun s seq => ?_) _ _
  rw [retransmit]
  cases s.1.unacked.lookup seq <;> rfl

end LpLink

/-! ## Runs -/

/-- What is called on the reliability state of a face, with the times that it sees. -/
inductive LinkOp (ρ : Type) where
  | onSend (now : ℕ) (pkt : Bytes)
  | onReceive (now later : ℕ) (raw : Bytes)
  | takeFastRetransmits (now : ℕ)
  | checkRetransmit (now : ℕ)
  | flushAcks
  | setMtu (mtu : ℕ)
  | applyConfig (config : ReliabilityConfig ρ)

namespace LinkOp

variable {ρ : Type}

/-- A packet is a slice, which has fewer than `2 ^ 63` bytes. -/
def IsSlice : LinkOp ρ → Prop
  | .onSend _ pkt => pkt.length < 2 ^ 63
  | _ => True

def KeepsConfig : LinkOp ρ → Prop
  | .applyConfig _ => False
  | _ => True

end LinkOp

/-- A call on the reliability state, with the frames that it makes. Frames that are sent again are
not made again. -/
def LpLink.call {ρ : Type} (E : RtoEstimator ρ) (self : LpLink ρ) : LinkOp ρ → LpLink ρ × List Bytes
  | .onSend now pkt => self.onSend now pkt
  | .onReceive now later raw => ((self.onReceive E now later raw).1, [])
  | .takeFastRetransmits now => ((self.takeFastRetransmits now).1, [])
  | .checkRetransmit now => ((self.checkRetransmit E now).1, [])
  | .flushAcks => (self.flushAcks.1, [])
  | .setMtu mtu => (self.setMtu mtu, [])
  | .applyConfig config => (self.applyConfig config, [])

def Lp.txSeqOf (wire : Bytes) : Option ℕ := (extractAcks wire).txSeq

/-- How many of some Acks, one after another, clear one of the frames with the given TxSequences. -/
def clearedBy : List ℕ → List ℕ → ℕ
  | _, [] => 0
  | unacked, ack :: acks =>
    (if ack ∈ unacked then 1 else 0) + clearedBy (unacked.filter (· ≠ ack)) acks

/-- A run with its history: the number of TxSequences assigned, the number of frames that an Ack
cleared, and the frames sent. -/
structure LinkRun (ρ : Type) where
  link : LpLink ρ
  assigned : ℕ
  cleared : ℕ
  transmitted : List Bytes

namespace LinkRun

variable {ρ : Type}

def start (E : RtoEstimator ρ) (mtu : ℕ) (config : ReliabilityConfig ρ) : LinkRun ρ :=
  ⟨.fromConfig E mtu config, 0, 0, []⟩

/-- One call. Every frame of a packet has a TxSequence of its own. -/
def step (E : RtoEstimator ρ) (s : LinkRun ρ) : LinkOp ρ → LinkRun ρ
  | .onSend now pkt =>
    { s with
      link := (s.link.onSend now pkt).1
      assigned := s.assigned + (s.link.onSend now pkt).2.length
      transmitted := s.transmitted ++ (s.link.onSend now pkt).2 }
  | .onReceive now later raw =>
    { s with
      link := (s.link.onReceive E now later raw).1
      cleared := s.cleared + clearedBy (s.link.unacked.map Prod.fst) (extractAcks raw).acks }
  | .takeFastRetransmits now =>
    { s with
      link := (s.link.takeFastRetransmits now).1
      transmitted := s.transmitted ++ (s.link.takeFastRetransmits now).2 }
  | .checkRetransmit now =>
    { s with
      link := (s.link.checkRetransmit E now).1
      transmitted := s.transmitted ++ (s.link.checkRetransmit E now).2 }
  | .flushAcks => { s with link := s.link.flushAcks.1 }
  | .setMtu mtu => { s with link := s.link.setMtu mtu }
  | .applyConfig config => { s with link := s.link.applyConfig config }

end LinkRun

/-- **The TxSequence of a frame** of `on_send` is the one that was put on it. -/
lemma Lp.txSeqOf_encodeLpReliable {chunk : Bytes} (hsize : chunk.length < 2 ^ 63) {txSeq : ℕ}
    (htx : txSeq < 2 ^ 64) (info : Option (ℕ × ℕ × ℕ)) {acks : List ℕ} (hfew : acks.length ≤ 16) :
    txSeqOf (encodeLpReliable chunk txSeq info acks) = some txSeq := by
  obtain ⟨hes, hlen⟩ := reliableElements_fit hsize txSeq info hfew
  have hmap : acks.map (fun ack => (TlvType.lpAck, nni ack)) = acks.map ackElement := rfl
  rw [txSeqOf, encodeLpReliable, extractAcks_writeTlv hes hlen, reliableElements,
    foldl_append, foldl_append, foldl_ackField_frag, hmap]
  show some (decodeBeU64 (nni txSeq)) = _
  rw [decodeBeU64_nni htx]

/-! ## The balance of the frames -/

/-- How often a frame with the TxSequence `t` was sent. -/
def timesSent (transmitted : List Bytes) (t : ℕ) : ℕ :=
  transmitted.countP fun wire => txSeqOf wire = some t

lemma timesSent_snoc {wire : Bytes} {seq : ℕ} (h : txSeqOf wire = some seq) (sent : List Bytes)
    (t : ℕ) : timesSent (sent ++ [wire]) t = timesSent sent t + if seq = t then 1 else 0 := by
  simp [timesSent, countP_singleton, h]

/-- **The balance**, with `gone` frames that were cleared or given up. Each frame that is kept is
there under its TxSequence, and was sent once and once more for each retry. -/
structure Accounted (maxRetries maxUnacked gone assigned : ℕ) (transmitted : List Bytes)
    (rel : LpReliability) : Prop where
  sorted : (rel.unacked.map Prod.fst).Pairwise (· < ·)
  assigned_lt : ∀ x ∈ rel.unacked, x.1 < assigned
  nextTxSeq : rel.nextTxSeq = assigned % 2 ^ 64
  wire : ∀ x ∈ rel.unacked, txSeqOf x.2.wire = some x.1
  sent : ∀ x ∈ rel.unacked, timesSent transmitted x.1 = 1 + x.2.retxCount
  sent_le : ∀ t, timesSent transmitted t ≤ 1 + maxRetries
  unsent : ∀ t, assigned ≤ t → timesSent transmitted t = 0
  balance : assigned = rel.unacked.length + gone + rel.unackedEvictions
  maxUnacked_eq : rel.maxUnacked = maxUnacked
  size : rel.unacked.length ≤ max maxUnacked 1

namespace Accounted

variable {maxRetries maxUnacked gone gone' assigned : ℕ} {transmitted : List Bytes}
  {rel rel' : LpReliability}

section

variable (h : Accounted maxRetries maxUnacked gone assigned transmitted rel)
include h

lemma nodup : (rel.unacked.map Prod.fst).Nodup :=
  h.sorted.imp Nat.ne_of_lt

/-- Frames leave, and of those that stay only the times and the counter of overtaking Acks
change. -/
lemma of_kept (hkeys : (rel'.unacked.map Prod.fst).Sublist (rel.unacked.map Prod.fst))
    (hkept : ∀ x ∈ rel'.unacked, ∃ y ∈ rel.unacked,
      y.1 = x.1 ∧ y.2.wire = x.2.wire ∧ y.2.retxCount = x.2.retxCount)
    (hnext : rel'.nextTxSeq = rel.nextTxSeq) (hmax : rel'.maxUnacked = rel.maxUnacked)
    (hbal : rel'.unacked.length + gone' + rel'.unackedEvictions =
      rel.unacked.length + gone + rel.unackedEvictions) :
    Accounted maxRetries maxUnacked gone' assigned transmitted rel' where
  sorted := h.sorted.sublist hkeys
  assigned_lt := by
    intro x hx
    obtain ⟨y, hy, hkey, -⟩ := hkept x hx
    rw [← hkey]
    exact h.assigned_lt y hy
  nextTxSeq := hnext.trans h.nextTxSeq
  wire := by
    intro x hx
    obtain ⟨y, hy, hkey, hwire, -⟩ := hkept x hx
    rw [← hkey, ← hwire]
    exact h.wire y hy
  sent := by
    intro x hx
    obtain ⟨y, hy, hkey, -, hretx⟩ := hkept x hx
    rw [← hkey, ← hretx]
    exact h.sent y hy
  sent_le := h.sent_le
  unsent := h.unsent
  balance := by rw [hbal, ← h.balance]
  maxUnacked_eq := hmax.trans h.maxUnacked_eq
  size := by
    have hle := hkeys.length_le
    rw [length_map, length_map] at hle
    exact hle.trans h.size

lemma congr (huna : rel'.unacked = rel.unacked) (hnext : rel'.nextTxSeq = rel.nextTxSeq)
    (hmax : rel'.maxUnacked = rel.maxUnacked) (hevi : rel'.unackedEvictions = rel.unackedEvictions)
    :
    Accounted maxRetries maxUnacked gone assigned transmitted rel' :=
  h.of_kept (by rw [huna]) (fun x hx => ⟨x, huna ▸ hx, rfl, rfl, rfl⟩) hnext hmax
    (by rw [huna, hevi])

lemma of_sublist (hsub : rel'.unacked.Sublist rel.unacked) (hnext : rel'.nextTxSeq = rel.nextTxSeq)
    (hmax : rel'.maxUnacked = rel.maxUnacked)
    (hbal : rel'.unacked.length + gone' + rel'.unackedEvictions =
      rel.unacked.length + gone + rel.unackedEvictions) :
    Accounted maxRetries maxUnacked gone' assigned transmitted rel' :=
  h.of_kept (hsub.map _) (fun x hx => ⟨x, hsub.subset hx, rfl, rfl, rfl⟩) hnext hmax hbal

/-- A frame with a new TxSequence is sent and kept. -/
lemma insert (hroom : rel.unacked = [] ∨ rel.unacked.length < rel.maxUnacked) (entry : UnackedEntry)
    (hretx : entry.retxCount = 0) (hwire : txSeqOf entry.wire = some assigned)
    (huna : rel'.unacked = rel.unacked ++ [(assigned, entry)])
    (hnext : rel'.nextTxSeq = (assigned + 1) % 2 ^ 64) (hmax : rel'.maxUnacked = rel.maxUnacked)
    (hevi : rel'.unackedEvictions = rel.unackedEvictions) :
    Accounted maxRetries maxUnacked gone (assigned + 1) (transmitted ++ [entry.wire]) rel' := by
  have hnew := h.unsent assigned le_rfl
  have htim := timesSent_snoc hwire transmitted
  constructor
  · rw [huna, map_append, pairwise_append]
    refine ⟨h.sorted, pairwise_singleton _ _, ?_⟩
    intro a ha b hb
    obtain ⟨x, hx, rfl⟩ := mem_map.mp ha
    rw [mem_singleton.mp hb]
    exact h.assigned_lt x hx
  · intro x hx
    rw [huna, mem_append, mem_singleton] at hx
    rcases hx with hx | rfl
    · exact (h.assigned_lt x hx).trans (Nat.lt_succ_self _)
    · exact Nat.lt_succ_self _
  · exact hnext
  · intro x hx
    rw [huna, mem_append, mem_singleton] at hx
    rcases hx with hx | rfl
    · exact h.wire x hx
    · exact hwire
  · intro x hx
    rw [huna, mem_append, mem_singleton] at hx
    rcases hx with hx | rfl
    · have hlt := h.assigned_lt x hx
      rw [htim, if_neg hlt.ne', h.sent x hx, Nat.add_zero]
    · rw [htim, if_pos rfl, hnew, hretx]
  · intro t
    have hle := h.sent_le t
    rw [htim]
    split_ifs with ht
    · rw [← ht, hnew]
      omega
    · exact hle
  · intro t ht
    rw [htim, if_neg (by omega), h.unsent t (by omega)]
  · have hbal := h.balance
    rw [huna, hevi, length_append, length_singleton]
    omega
  · exact hmax.trans h.maxUnacked_eq
  · rw [huna, length_append, length_singleton]
    rcases hroom with hnil | hlt
    · rw [hnil]
      exact le_max_right _ _
    · rw [h.maxUnacked_eq] at hlt
      exact (Nat.succ_le_of_lt hlt).trans (le_max_left _ _)

/-- A frame that is kept is sent once more. -/
lemma resend {seq : ℕ} {entry entry' : UnackedEntry} (hlk : rel.unacked.lookup seq = some entry)
    (hret : entry.retxCount < maxRetries)
    (huna : rel'.unacked = Assoc.insert seq entry' rel.unacked) (hwire : entry'.wire = entry.wire)
    (hretx : entry'.retxCount = entry.retxCount + 1) (hnext : rel'.nextTxSeq = rel.nextTxSeq)
    (hmax : rel'.maxUnacked = rel.maxUnacked) (hevi : rel'.unackedEvictions = rel.unackedEvictions)
    :
    Accounted maxRetries maxUnacked gone assigned (transmitted ++ [entry.wire]) rel' := by
  have hent : (seq, entry) ∈ rel.unacked := (Assoc.lookup_eq_some_iff h.nodup).mp hlk
  have hkeys : rel'.unacked.map Prod.fst = rel.unacked.map Prod.fst := by
    rw [huna, Assoc.keys_insert, if_pos (mem_map.mpr ⟨_, hent, rfl⟩)]
  have hlen : rel'.unacked.length = rel.unacked.length := by
    rw [← length_map Prod.fst, hkeys, length_map]
  have hmem : ∀ x ∈ rel'.unacked, x = (seq, entry') ∨ x ∈ rel.unacked ∧ x.1 ≠ seq := by
    intro x hx
    rw [huna, (Assoc.insert_perm seq entry' h.nodup).mem_iff, mem_cons, Assoc.mem_erase_iff] at hx
    exact hx
  have htim := timesSent_snoc (h.wire _ hent) transmitted
  have hseq := h.assigned_lt _ hent
  have hsent := h.sent _ hent
  constructor
  · rw [hkeys]
    exact h.sorted
  · intro x hx
    rcases hmem x hx with rfl | ⟨hx, -⟩
    · exact hseq
    · exact h.assigned_lt x hx
  · exact hnext.trans h.nextTxSeq
  · intro x hx
    rcases hmem x hx with rfl | ⟨hx, -⟩
    · rw [hwire]
      exact h.wire _ hent
    · exact h.wire x hx
  · intro x hx
    rcases hmem x hx with rfl | ⟨hx, hne⟩
    · rw [htim, if_pos rfl, hsent, hretx]
      rfl
    · rw [htim, if_neg hne.symm, h.sent x hx, Nat.add_zero]
  · intro t
    have hle := h.sent_le t
    rw [htim]
    split_ifs with ht
    · rw [← ht, hsent]
      show 1 + entry.retxCount + 1 ≤ 1 + maxRetries
      omega
    · exact hle
  · intro t ht
    have hne : seq ≠ t := fun heq => absurd hseq (by omega)
    rw [htim, if_neg hne, h.unsent t ht]
  · rw [hlen, hevi]
    exact h.balance
  · exact hmax.trans h.maxUnacked_eq
  · rw [hlen]
    exact h.size

end

end Accounted

/-! ### Packets -/

namespace LpReliability

lemma evictUnacked_spec (maxUnacked : ℕ) (unacked : List (ℕ × UnackedEntry)) (evictions : ℕ) :
    (evictUnacked maxUnacked unacked evictions).1.Sublist unacked ∧
    (evictUnacked maxUnacked unacked evictions).1.length +
      (evictUnacked maxUnacked unacked evictions).2 = unacked.length + evictions ∧
    ((evictUnacked maxUnacked unacked evictions).1 = [] ∨
      (evictUnacked maxUnacked unacked evictions).1.length < maxUnacked) := by
  induction unacked generalizing evictions with
  | nil => exact ⟨.refl _, rfl, .inl rfl⟩
  | cons x xs ih =>
    rw [evictUnacked]
    split_ifs with hfull
    · obtain ⟨hsub, hlen, hroom⟩ := ih (evictions + 1)
      refine ⟨hsub.cons x, ?_, hroom⟩
      rw [hlen, length_cons]
      omega
    · exact ⟨.refl _, rfl, .inr (Nat.lt_of_not_le hfull)⟩

lemma insertUnacked_eq {txSeq : ℕ} {entry : UnackedEntry} {unacked : List (ℕ × UnackedEntry)}
    (h : ∀ x ∈ unacked, x.1 < txSeq) :
    insertUnacked txSeq entry unacked = unacked ++ [(txSeq, entry)] := by
  have hbel : unacked.filter (fun x => x.1 < txSeq) = unacked :=
    filter_eq_self.mpr fun x hx => decide_eq_true (h x hx)
  have habov : unacked.filter (fun x => txSeq < x.1) = [] :=
    filter_eq_nil_iff.mpr fun x hx => by
      have := h x hx
      simp only [decide_eq_true_eq]
      omega
  rw [insertUnacked, hbel, habov]

lemma length_sendFragment (now payloadCap fragCount netSeq : ℕ) (acks : List ℕ) (pkt : Bytes)
    (s : LpReliability × List Bytes) (i : ℕ) :
    (sendFragment now payloadCap fragCount netSeq acks pkt s i).2.length = s.2.length + 1 :=
  length_append

end LpReliability

namespace Accounted

open LpReliability

variable {maxRetries maxUnacked gone assigned : ℕ} {transmitted : List Bytes} {pkt : Bytes}

lemma sendFragment {s : LpReliability × List Bytes} {acks : List ℕ}
    (now payloadCap fragCount netSeq : ℕ) (hacks : acks.length ≤ 16) (hsize : pkt.length < 2 ^ 63)
    (i : ℕ) (h : Accounted maxRetries maxUnacked gone (assigned + s.2.length) (transmitted ++ s.2)
      s.1) (hfit : assigned + s.2.length < 2 ^ 64) :
    Accounted maxRetries maxUnacked gone
      (assigned +
        (LpReliability.sendFragment now payloadCap fragCount netSeq acks pkt s i).2.length)
      (transmitted ++ (LpReliability.sendFragment now payloadCap fragCount netSeq acks pkt s i).2)
      (LpReliability.sendFragment now payloadCap fragCount netSeq acks pkt s i).1 := by
  obtain ⟨rel, wires⟩ := s
  obtain ⟨hsub, hlen, hroom⟩ :=
    evictUnacked_spec rel.maxUnacked rel.unacked rel.unackedEvictions
  have htx : rel.nextTxSeq = assigned + wires.length := by
    rw [h.nextTxSeq]
    exact Nat.mod_eq_of_lt hfit
  -- the frames that remain after the evictions
  have hkept : Accounted maxRetries maxUnacked gone (assigned + wires.length) (transmitted ++ wires)
      { rel with
        unacked := (evictUnacked rel.maxUnacked rel.unacked rel.unackedEvictions).1
        unackedEvictions :=
          (evictUnacked rel.maxUnacked rel.unacked rel.unackedEvictions).2 } :=
    h.of_sublist hsub rfl rfl (by dsimp only; omega)
  have hchun : (chunkAt payloadCap pkt i).length < 2 ^ 63 := by
    rw [chunkAt_eq]
    exact (Chunks.length_chunk_le payloadCap pkt i).trans_lt hsize
  have hacks' : (if i = 0 then acks else []).length ≤ 16 := by
    split_ifs
    · exact hacks
    · exact Nat.zero_le _
  have hwire : txSeqOf (frame payloadCap fragCount netSeq acks pkt i rel.nextTxSeq) =
      some (assigned + wires.length) := by
    rw [frame, txSeqOf_encodeLpReliable hchun (htx ▸ hfit) _ hacks', htx]
  rw [LpReliability.sendFragment]
  simp only [length_append, length_singleton]
  rw [← Nat.add_assoc, ← append_assoc]
  refine hkept.insert hroom ⟨frame payloadCap fragCount netSeq acks pkt i
    rel.nextTxSeq, now, now, 0, false, 0⟩ rfl hwire ?_ ?_ rfl rfl
  · have hlt : ∀ x ∈ (evictUnacked rel.maxUnacked rel.unacked
        rel.unackedEvictions).1, x.1 < rel.nextTxSeq := by
      intro x hx
      rw [htx]
      exact h.assigned_lt x (hsub.subset hx)
    rw [insertUnacked_eq hlt, htx]
  · rw [htx]

lemma onSend {rel : LpReliability}
    (h : Accounted maxRetries maxUnacked gone assigned transmitted rel) (now : ℕ)
    (hsize : pkt.length < 2 ^ 63) (hfit : assigned + (rel.onSend now pkt).2.length ≤ 2 ^ 64) :
    Accounted maxRetries maxUnacked gone (assigned + (rel.onSend now pkt).2.length)
      (transmitted ++ (rel.onSend now pkt).2) (rel.onSend now pkt).1 := by
  refine rel.onSend_induction now pkt (motive := fun s => Accounted maxRetries maxUnacked gone
    (assigned + s.2.length) (transmitted ++ s.2) s.1) ?_ ?_
  · intro nextSeq
    rw [append_nil]
    exact h.congr rfl rfl rfl rfl
  · intro payloadCap fragCount netSeq s i hlt hs
    exact hs.sendFragment now payloadCap fragCount netSeq (length_take_le _ _) hsize i (by omega)

end Accounted

/-! ### Acks -/

namespace LpEndpoint

variable {ρ : Type} (E : RtoEstimator ρ) (ackSeq : ℕ)

lemma noteGreaterAck_key (x : ℕ × UnackedEntry) : (noteGreaterAck ackSeq x).1 = x.1 := by
  rw [noteGreaterAck]
  split_ifs <;> rfl

lemma noteGreaterAck_kept (x : ℕ × UnackedEntry) :
    (noteGreaterAck ackSeq x).2.wire = x.2.wire ∧
      (noteGreaterAck ackSeq x).2.retxCount = x.2.retxCount := by
  rw [noteGreaterAck]
  split_ifs <;> exact ⟨rfl, rfl⟩

lemma keys_map_noteGreaterAck (unacked : List (ℕ × UnackedEntry)) :
    (unacked.map (noteGreaterAck ackSeq)).map Prod.fst = unacked.map Prod.fst := by
  rw [map_map]
  exact map_congr_left fun x _ => noteGreaterAck_key ackSeq x

/-- The frames that an Ack declares lost: it is the third one for a later frame. -/
def lostBy (ackSeq : ℕ) (unacked : List (ℕ × UnackedEntry)) : List ℕ :=
  ((unacked.map (noteGreaterAck ackSeq)).filter fun x =>
    x.1 < ackSeq ∧ x.2.nGreaterSeqAcks = seqNumLossThreshold).map Prod.fst

lemma processAck_eq (now : ℕ) (self : LpEndpoint ρ) (ackSeq : ℕ) :
    ∃ estimator, self.processAck E now ackSeq =
      { self with
        unacked := Assoc.erase ackSeq (self.unacked.map (noteGreaterAck ackSeq))
        fastRetxCandidates := self.fastRetxCandidates ++ lostBy ackSeq self.unacked
        estimator := estimator } := by
  rw [processAck]
  cases hlk : (self.unacked.map (noteGreaterAck ackSeq)).lookup ackSeq with
  | none =>
    refine ⟨self.estimator, ?_⟩
    rw [Assoc.erase_of_not_mem (Assoc.lookup_eq_none_iff.mp hlk)]
    rfl
  | some entry =>
    dsimp only
    split_ifs
    · exact ⟨self.estimator, rfl⟩
    · exact ⟨_, rfl⟩

end LpEndpoint

namespace Accounted

variable {ρ : Type} {E : RtoEstimator ρ} {maxRetries maxUnacked gone assigned : ℕ}
  {transmitted : List Bytes} {endpoint : LpEndpoint ρ} (now : ℕ)

lemma processAck (ackSeq : ℕ)
    (h : Accounted maxRetries maxUnacked gone assigned transmitted endpoint.toLpReliability) :
    Accounted maxRetries maxUnacked
      (gone + if ackSeq ∈ endpoint.unacked.map Prod.fst then 1 else 0) assigned transmitted
      (endpoint.processAck E now ackSeq).toLpReliability := by
  obtain ⟨estimator, heq⟩ := endpoint.processAck_eq E now ackSeq
  have hkeys := LpEndpoint.keys_map_noteGreaterAck ackSeq endpoint.unacked
  rw [heq]
  refine h.of_kept ?_ ?_ rfl rfl ?_
  · rw [← hkeys]
    exact filter_sublist.map _
  · intro x hx
    obtain ⟨y, hy, rfl⟩ := mem_map.mp (mem_erase_iff.mp hx).1
    obtain ⟨hwire, hretx⟩ := LpEndpoint.noteGreaterAck_kept ackSeq y
    exact ⟨y, hy, (LpEndpoint.noteGreaterAck_key ackSeq y).symm, hwire.symm, hretx.symm⟩
  · have hlen := length_erase_add ackSeq (hkeys.symm ▸ h.nodup)
    rw [hkeys, length_map] at hlen
    dsimp only
    omega

lemma foldl_processAck (acks : List ℕ)
    (h : Accounted maxRetries maxUnacked gone assigned transmitted endpoint.toLpReliability) :
    Accounted maxRetries maxUnacked (gone + clearedBy (endpoint.unacked.map Prod.fst) acks) assigned
      transmitted (acks.foldl (LpEndpoint.processAck E now) endpoint).toLpReliability := by
  induction acks generalizing endpoint gone with
  | nil => exact h
  | cons ack acks ih =>
    obtain ⟨estimator, heq⟩ := endpoint.processAck_eq E now ack
    have hkeys : (endpoint.processAck E now ack).unacked.map Prod.fst =
        (endpoint.unacked.map Prod.fst).filter (· ≠ ack) := by
      rw [heq]
      rw [keys_erase, LpEndpoint.keys_map_noteGreaterAck]
    have hrest := ih (h.processAck (E := E) now ack)
    rw [hkeys, Nat.add_assoc] at hrest
    exact hrest

lemma onReceive (later : ℕ) (raw : Bytes)
    (h : Accounted maxRetries maxUnacked gone assigned transmitted endpoint.toLpReliability) :
    Accounted maxRetries maxUnacked
      (gone + clearedBy (endpoint.unacked.map Prod.fst) (extractAcks raw).acks) assigned
      transmitted (endpoint.onReceive E now later raw).1.toLpReliability := by
  rw [LpEndpoint.onReceive]
  cases (extractAcks raw).txSeq with
  | none => exact h.foldl_processAck later _
  | some seq =>
    have huna : (endpoint.receiveTxSeq E now seq).1.unacked = endpoint.unacked := by
      rw [LpEndpoint.receiveTxSeq]
      dsimp only
      split_ifs <;> rfl
    have hrcv : Accounted maxRetries maxUnacked gone assigned transmitted
        (endpoint.receiveTxSeq E now seq).1.toLpReliability := by
      refine h.congr huna ?_ ?_ ?_ <;>
      · rw [LpEndpoint.receiveTxSeq]
        dsimp only
        split_ifs <;> rfl
    rw [← huna]
    exact hrcv.foldl_processAck later _

end Accounted

/-! ### Retries -/

/-- The balance of a face with a configuration, where `cleared` frames have been acked. -/
structure LpLink.Balanced {ρ : Type} (config : ReliabilityConfig ρ) (cleared assigned : ℕ)
    (transmitted : List Bytes) (link : LpLink ρ) : Prop where
  maxRetries_eq : link.maxRetries = config.maxRetries
  accounted : Accounted config.maxRetries config.maxUnacked (cleared + link.rtoExpirations)
    assigned transmitted link.toLpReliability

lemma LpLink.foldl_expire_spec {ρ : Type} (seqs : List ℕ) (link : LpLink ρ) :
    (∀ seq entry, (seqs.foldl LpLink.expire link).unacked.lookup seq = some entry →
      link.unacked.lookup seq = some entry) ∧
    (seqs.foldl LpLink.expire link).maxRetries = link.maxRetries := by
  induction seqs generalizing link with
  | nil => exact ⟨fun _ _ h => h, rfl⟩
  | cons seq' seqs ih =>
    obtain ⟨hkept, hmax⟩ := ih (link.expire seq')
    refine ⟨fun seq entry h => ?_, hmax⟩
    have hlk := hkept seq entry h
    rw [LpLink.expire] at hlk
    rw [lookup_erase] at hlk
    split_ifs at hlk
    exact hlk

namespace LpLink.Balanced

variable {ρ : Type} {E : RtoEstimator ρ} {config : ReliabilityConfig ρ} {cleared assigned : ℕ}
  {transmitted : List Bytes} {link : LpLink ρ} {s : LpLink ρ × List Bytes} (now : ℕ) {seqs : List ℕ}
  {seq : ℕ}

lemma expire (hseq : seq ∈ link.unacked.map Prod.fst)
    (h : link.Balanced config cleared assigned transmitted) :
    (link.expire seq).Balanced config cleared assigned transmitted := by
  have hlen := length_erase_add seq h.accounted.nodup
  rw [if_pos hseq] at hlen
  refine ⟨h.maxRetries_eq, h.accounted.of_sublist filter_sublist rfl rfl ?_⟩
  rw [LpLink.expire]
  dsimp only
  omega

/-- **A candidate for fast retransmission** is given up or sent again. -/
lemma fastRetransmit (seq : ℕ) (h : s.1.Balanced config cleared assigned (transmitted ++ s.2)) :
    (LpLink.fastRetransmit now s seq).1.Balanced config cleared assigned
      (transmitted ++ (LpLink.fastRetransmit now s seq).2) := by
  rw [LpLink.fastRetransmit]
  cases hlk : s.1.unacked.lookup seq with
  | none => exact h
  | some entry =>
    dsimp only
    split_ifs with hret
    · have hmem := (lookup_eq_some_iff h.accounted.nodup).mp hlk
      exact h.expire (mem_map.mpr ⟨_, hmem, rfl⟩)
    · rw [← append_assoc]
      rw [h.maxRetries_eq] at hret
      exact ⟨h.maxRetries_eq, h.accounted.resend hlk (Nat.lt_of_not_le hret) rfl rfl rfl rfl
        rfl rfl⟩

lemma takeFastRetransmits (h : link.Balanced config cleared assigned transmitted) :
    (link.takeFastRetransmits now).1.Balanced config cleared assigned
      (transmitted ++ (link.takeFastRetransmits now).2) := by
  refine foldlRecOn _ (LpLink.fastRetransmit now) (motive := fun s =>
    s.1.Balanced config cleared assigned (transmitted ++ s.2)) ?_ fun s hs seq _ =>
      hs.fastRetransmit now seq
  rw [append_nil]
  exact ⟨h.maxRetries_eq, h.accounted⟩

lemma retransmit
    (hret : ∀ entry, s.1.unacked.lookup seq = some entry → entry.retxCount < s.1.maxRetries)
    (h : s.1.Balanced config cleared assigned (transmitted ++ s.2)) :
    (LpLink.retransmit now s seq).1.Balanced config cleared assigned
      (transmitted ++ (LpLink.retransmit now s seq).2) := by
  rw [LpLink.retransmit]
  cases hlk : s.1.unacked.lookup seq with
  | none => exact h
  | some entry =>
    have hleft := hret entry hlk
    rw [h.maxRetries_eq] at hleft
    rw [← append_assoc]
    exact ⟨h.maxRetries_eq, h.accounted.resend hlk hleft rfl rfl rfl rfl rfl rfl⟩

lemma foldl_expire (hnd : seqs.Nodup) (hseqs : ∀ seq ∈ seqs, seq ∈ link.unacked.map Prod.fst)
    (h : link.Balanced config cleared assigned transmitted) :
    (seqs.foldl LpLink.expire link).Balanced config cleared assigned transmitted := by
  induction seqs generalizing link with
  | nil => exact h
  | cons seq seqs ih =>
    rw [nodup_cons] at hnd
    rw [forall_mem_cons] at hseqs
    refine ih hnd.2 (fun seq' hseq' => ?_) (h.expire hseqs.1)
    rw [LpLink.expire]
    rw [keys_erase, mem_filter]
    exact ⟨hseqs.2 seq' hseq', decide_eq_true fun heq => hnd.1 (heq ▸ hseq')⟩

lemma foldl_retransmit (hnd : seqs.Nodup)
    (hret : ∀ seq ∈ seqs, ∀ entry, s.1.unacked.lookup seq = some entry →
      entry.retxCount < s.1.maxRetries)
    (h : s.1.Balanced config cleared assigned (transmitted ++ s.2)) :
    (seqs.foldl (LpLink.retransmit now) s).1.Balanced config cleared assigned
      (transmitted ++ (seqs.foldl (LpLink.retransmit now) s).2) := by
  induction seqs generalizing s with
  | nil => exact h
  | cons seq seqs ih =>
    rw [nodup_cons] at hnd
    rw [forall_mem_cons] at hret
    refine ih hnd.2 (fun seq' hseq' entry hlk => ?_) (h.retransmit now hret.1)
    have hne : seq' ≠ seq := fun heq => hnd.1 (heq ▸ hseq')
    have hsame : (LpLink.retransmit now s seq).1.unacked.lookup seq' =
          s.1.unacked.lookup seq' ∧
        (LpLink.retransmit now s seq).1.maxRetries = s.1.maxRetries := by
      rw [LpLink.retransmit]
      cases s.1.unacked.lookup seq with
      | none => exact ⟨rfl, rfl⟩
      | some _ =>
        rw [lookup_insert, if_neg hne]
        exact ⟨rfl, rfl⟩
    rw [hsame.1] at hlk
    rw [hsame.2]
    exact hret.2 seq' hseq' entry hlk

lemma checkRetransmit (h : link.Balanced config cleared assigned transmitted) :
    (link.checkRetransmit E now).1.Balanced config cleared assigned
      (transmitted ++ (link.checkRetransmit E now).2) := by
  have hdue : ∀ p : ℕ × UnackedEntry → Bool,
      (((link.due E now).filter p).map Prod.fst).Sublist (link.unacked.map Prod.fst) :=
    fun p => (filter_sublist.trans filter_sublist).map _
  have hexp : ((link.expired E now).foldl LpLink.expire link).Balanced config cleared assigned
      transmitted :=
    h.foldl_expire (h.accounted.nodup.sublist (hdue _)) fun seq hseq => (hdue _).subset hseq
  have hretx : ((link.retx E now).take link.maxRetxPerTick).Nodup :=
    (h.accounted.nodup.sublist (hdue _)).sublist (take_sublist _ _)
  refine foldl_retransmit now hretx ?_ (by rw [append_nil]; exact hexp)
  intro seq hseq entry hlk
  obtain ⟨hkept, hmax⟩ := LpLink.foldl_expire_spec (link.expired E now) link
  obtain ⟨⟨seq', entry'⟩, hmem, rfl⟩ := mem_map.mp (mem_of_mem_take hseq)
  rw [mem_filter, LpLink.due, mem_filter, decide_eq_true_eq] at hmem
  have hent := (lookup_eq_some_iff h.accounted.nodup).mpr hmem.1.1
  rw [hkept _ _ hlk, Option.some.injEq] at hent
  rw [hmax, hent]
  exact of_decide_eq_true hmem.2

end LpLink.Balanced

/-! ### The balance along a run -/

namespace LinkRun

variable {ρ : Type} {E : RtoEstimator ρ} {config : ReliabilityConfig ρ} {s : LinkRun ρ}

lemma assigned_le_step (s : LinkRun ρ) (op : LinkOp ρ) : s.assigned ≤ (s.step E op).assigned := by
  cases op <;> first | exact le_rfl | exact Nat.le_add_right _ _

lemma balanced_step {op : LinkOp ρ}
    (h : s.link.Balanced config s.cleared s.assigned s.transmitted) (hslic : op.IsSlice)
    (hfix : op.KeepsConfig) (hfit : (s.step E op).assigned ≤ 2 ^ 64) :
    (s.step E op).link.Balanced config (s.step E op).cleared (s.step E op).assigned
      (s.step E op).transmitted := by
  cases op with
  | onSend now pkt => exact ⟨h.maxRetries_eq, h.accounted.onSend now hslic hfit⟩
  | onReceive now later raw =>
    refine ⟨h.maxRetries_eq, ?_⟩
    have hrcv := h.accounted.onReceive (E := E) now later raw
    rw [Nat.add_right_comm] at hrcv
    exact hrcv
  | takeFastRetransmits now => exact h.takeFastRetransmits now
  | checkRetransmit now => exact h.checkRetransmit now
  | flushAcks =>
    refine ⟨h.maxRetries_eq, ?_⟩
    rw [step, LpLink.flushAcks, LpEndpoint.flushAcks]
    split_ifs
    · exact h.accounted
    · exact h.accounted.congr rfl rfl rfl rfl
  | setMtu mtu => exact ⟨h.maxRetries_eq, h.accounted.congr rfl rfl rfl rfl⟩
  | applyConfig config' => exact hfix.elim

lemma balanced_start (mtu : ℕ) : (start E mtu config).link.Balanced config 0 0 [] :=
  ⟨rfl, ⟨.nil, forall_mem_nil _, rfl, forall_mem_nil _,
    forall_mem_nil _, fun _ => Nat.zero_le _, fun _ _ => rfl, rfl, rfl, Nat.zero_le _⟩⟩

lemma balanced_foldl {ops : List (LinkOp ρ)} (hsls : ∀ op ∈ ops, op.IsSlice)
    (hfix : ∀ op ∈ ops, op.KeepsConfig)
    (h : s.link.Balanced config s.cleared s.assigned s.transmitted)
    (hfit : (ops.foldl (step E) s).assigned ≤ 2 ^ 64) :
    (ops.foldl (step E) s).link.Balanced config (ops.foldl (step E) s).cleared
      (ops.foldl (step E) s).assigned (ops.foldl (step E) s).transmitted := by
  induction ops generalizing s with
  | nil => exact h
  | cons op ops ih =>
    rw [forall_mem_cons] at hsls hfix
    have hone := (Run.le_foldl assigned assigned_le_step ops (s.step E op)).trans hfit
    exact ih hsls.2 hfix.2 (balanced_step h hsls.1 hfix.1 hone) hfit

/-- **The balance along every run** with one configuration. The TxSequences assigned are those of
the frames still kept, the frames that an Ack cleared, the frames given up and the frames evicted;
no TxSequence was sent more than once and `maxRetries` times more; and no more than
`max maxUnacked 1` frames are kept. -/
theorem frames_balanced (E : RtoEstimator ρ) (mtu : ℕ) (config : ReliabilityConfig ρ)
    (ops : List (LinkOp ρ)) (hslices : ∀ op ∈ ops, op.IsSlice) (hfixed : ∀ op ∈ ops, op.KeepsConfig)
    (hfit : (ops.foldl (step E) (start E mtu config)).assigned ≤ 2 ^ 64) :
    let s := ops.foldl (step E) (start E mtu config)
    s.assigned = s.link.unacked.length + s.cleared + s.link.rtoExpirations +
      s.link.unackedEvictions ∧
    (∀ t, timesSent s.transmitted t ≤ 1 + config.maxRetries) ∧
    s.link.unacked.length ≤ max config.maxUnacked 1 := by
  have h := (balanced_foldl hslices hfixed (balanced_start mtu) hfit).accounted
  refine ⟨?_, h.sent_le, h.size⟩
  have hbal := h.balance
  omega

namespace Sample

def oneRetry : ReliabilityConfig ℕ := ⟨1000, 1, 2, 8⟩

/-- Three packets, of which the first is evicted and the second is acked; the third is sent again
after the timeout and given up after another one. -/
def ops : List (LinkOp ℕ) :=
  [.onSend 0 [0xAA], .onSend 0 [0xBB], .onSend 0 [0xCC], .onReceive 1 1 (encodeLpAcks [1]),
    .checkRetransmit 1000000, .checkRetransmit 2000000]

end Sample

open Sample in
/-- `frames_balanced` for a run in which frames leave in all ways. -/
theorem frames_balanced_three_packets :
    let s := ops.foldl (step AckRun.Sample.fixedRto)
      (start AckRun.Sample.fixedRto 1400 oneRetry)
    (s.assigned = 3 ∧ s.link.unacked = [] ∧ s.cleared = 1 ∧ s.link.rtoExpirations = 1 ∧
      s.link.unackedEvictions = 1) ∧ ∀ t, timesSent s.transmitted t ≤ 2 := by
  refine ⟨by decide, ?_⟩
  refine (frames_balanced AckRun.Sample.fixedRto 1400 oneRetry ops ?_ ?_ ?_).2.1
  · simp [ops, LinkOp.IsSlice]
  · simp [ops, LinkOp.KeepsConfig]
  · decide

end LinkRun

end NdnRs
