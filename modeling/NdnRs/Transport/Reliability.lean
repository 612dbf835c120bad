import NdnRs.Lib.Run
import NdnRs.Packet.Fragment

/-!
# Reliable sending (`ndn-transport/src/reliability.rs`)

## Main definitions

* `onSend` — cuts a packet into frames, numbers them, puts the acks that wait on the first one and
  keeps a copy of each for retransmission.

## Implementation notes

The fields that `on_send` does not use (the round-trip estimator, retransmission limits and what is
kept about received frames) are left out.
-/

namespace NdnRs

open Lp Fragment List Chunks

structure UnackedEntry where
  wire : Bytes
  firstSent : ℕ
  lastSent : ℕ
  retxCount : ℕ
  isRetx : Bool
  nGreaterSeqAcks : ℕ

/-- `LpReliability`, as far as `on_send` uses it; `unacked` is in ascending order. -/
structure LpReliability where
  nextSeq : ℕ
  nextTxSeq : ℕ
  unacked : List (ℕ × UnackedEntry)
  pendingAcks : List ℕ
  mtu : ℕ
  maxUnacked : ℕ
  unackedEvictions : ℕ

namespace LpReliability

def maxPiggybackedAcks : ℕ := 16

/-- The loop that takes the oldest frames out while there are too many. -/
def evictUnacked (maxUnacked : ℕ) :
    List (ℕ × UnackedEntry) → ℕ → List (ℕ × UnackedEntry) × ℕ
  | [], evictions => ([], evictions)
  | x :: xs, evictions =>
    if (x :: xs).length ≥ maxUnacked then evictUnacked maxUnacked xs (evictions + 1)
    else (x :: xs, evictions)

/-- `BTreeMap::insert`. -/
def insertUnacked (txSeq : ℕ) (entry : UnackedEntry) (unacked : List (ℕ × UnackedEntry)) :
    List (ℕ × UnackedEntry) :=
  (unacked.filter fun x => x.1 < txSeq) ++ (txSeq, entry) :: unacked.filter fun x => txSeq < x.1

variable (self : LpReliability)

def acksToSend : List ℕ := self.pendingAcks.take maxPiggybackedAcks

def payloadCap : ℕ :=
  self.mtu - fragOverhead - self.acksToSend.length * 10

def frame (payloadCap fragCount netSeq : ℕ) (acks : List ℕ) (pkt : Bytes) (i txSeq : ℕ) : Bytes :=
  encodeLpReliable (chunkAt payloadCap pkt i) txSeq
    (if fragCount > 1 then some (netSeq + i, i, fragCount) else none) (if i = 0 then acks else [])

/-- One turn of the loop in `on_send`. -/
def sendFragment (now payloadCap fragCount netSeq : ℕ) (acks : List ℕ) (pkt : Bytes)
    (s : LpReliability × List Bytes) (i : ℕ) : LpReliability × List Bytes :=
  let (self, wires) := s
  let txSeq := self.nextTxSeq
  let wire := frame payloadCap fragCount netSeq acks pkt i txSeq
  let (unacked, evictions) := evictUnacked self.maxUnacked self.unacked self.unackedEvictions
  ({ self with
      nextTxSeq := (txSeq + 1) % 2 ^ 64
      unacked := insertUnacked txSeq ⟨wire, now, now, 0, false, 0⟩ unacked
      unackedEvictions := evictions }, wires ++ [wire])

/-- `LpReliability::on_send`, at the time `now`. -/
def onSend (now : ℕ) (pkt : Bytes) : LpReliability × List Bytes :=
  let acks := self.acksToSend
  let payloadCap := self.payloadCap
  let self := { self with pendingAcks := self.pendingAcks.drop maxPiggybackedAcks }
  if payloadCap = 0 then (self, [])
  else
    let fragCount := count payloadCap pkt.length
    let netSeq := self.nextSeq
    let self := { self with nextSeq := (self.nextSeq + fragCount) % 2 ^ 64 }
    (List.range fragCount).foldl (sendFragment now payloadCap fragCount netSeq acks pkt) (self, [])

def txSeqAt (nextTxSeq i : ℕ) : ℕ := if i = 0 then nextTxSeq else (nextTxSeq + i) % 2 ^ 64

lemma txSeqAt_succ (nextTxSeq i : ℕ) :
    (txSeqAt nextTxSeq i + 1) % 2 ^ 64 = txSeqAt nextTxSeq (i + 1) := by
  rw [txSeqAt, txSeqAt, if_neg i.succ_ne_zero]
  split_ifs with hi
  · rw [hi]
  · rw [Nat.mod_add_mod, Nat.add_assoc]

lemma foldl_sendFragment (now payloadCap fragCount netSeq : ℕ) (acks : List ℕ) (pkt : Bytes)
    (self : LpReliability) (k : ℕ) :
    ((range k).foldl (sendFragment now payloadCap fragCount netSeq acks pkt) (self, [])).2 =
      (range k).map (fun i =>
        frame payloadCap fragCount netSeq acks pkt i (txSeqAt self.nextTxSeq i)) ∧
    ((range k).foldl (sendFragment now payloadCap fragCount netSeq acks pkt)
      (self, [])).1.nextTxSeq = txSeqAt self.nextTxSeq k := by
  refine Run.foldl_range_induction (motive := fun k (s : LpReliability × List Bytes) =>
    s.2 = (range k).map (fun i =>
      frame payloadCap fragCount netSeq acks pkt i (txSeqAt self.nextTxSeq i)) ∧
    s.1.nextTxSeq = txSeqAt self.nextTxSeq k) ⟨rfl, rfl⟩ k ?_
  rintro k s - ⟨hfrs, hnext⟩
  rw [range_succ, map_append, map_singleton, ← hfrs, ← txSeqAt_succ, ← hnext]
  exact ⟨rfl, rfl⟩

/-- **The frames of a packet**, with their TxSequences. -/
lemma onSend_eq (now : ℕ) (pkt : Bytes) (hroom : 0 < self.payloadCap) :
    (self.onSend now pkt).2 =
      (range (count self.payloadCap pkt.length)).map fun i =>
        frame self.payloadCap (count self.payloadCap pkt.length) self.nextSeq
          self.acksToSend pkt i (txSeqAt self.nextTxSeq i) := by
  rw [onSend, if_neg hroom.ne']
  exact (foldl_sendFragment _ _ _ _ _ _ _ _).1

lemma length_onSend (now : ℕ) (pkt : Bytes) :
    (self.onSend now pkt).2.length =
      if self.payloadCap = 0 then 0 else count self.payloadCap pkt.length := by
  split_ifs with hroom
  · rw [onSend, if_pos hroom]
    rfl
  · rw [self.onSend_eq now pkt (Nat.pos_of_ne_zero hroom), length_map, length_range]

/-- **A packet is sent frame by frame**: what holds before the first one and is kept by each holds
in the end. -/
lemma onSend_induction (now : ℕ) (pkt : Bytes) {motive : LpReliability × List Bytes → Prop}
    (hstart : ∀ nextSeq, motive ({ self with
      nextSeq, pendingAcks := self.pendingAcks.drop maxPiggybackedAcks }, []))
    (hframe : ∀ payloadCap fragCount netSeq s i, s.2.length < (self.onSend now pkt).2.length →
      motive s → motive (sendFragment now payloadCap fragCount netSeq self.acksToSend pkt s i)) :
    motive (self.onSend now pkt) := by
  rw [length_onSend] at hframe
  rw [onSend]
  split_ifs at hframe ⊢
  · exact hstart _
  · refine (Run.foldl_range_induction (motive := fun k s => s.2.length = k ∧ motive s)
      ⟨rfl, hstart _⟩ _ ?_).2
    rintro k s hk ⟨rfl, hs⟩
    exact ⟨length_append, hframe _ _ _ _ _ hk hs⟩

end LpReliability

end NdnRs
