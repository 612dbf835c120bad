import NdnRs.Packet.Interest

/-!
# What the PIT reads off an Interest (`ndn-packet/src/interest.rs`, `subscription.rs`)

The selectors, the nonce, the lifetime and the request for a persistent subscription that an
Interest may carry in its ApplicationParameters. All of them are decoded on demand, and a field
that cannot be read counts as absent.
-/

namespace NdnRs

open Bytes Tlv

structure Selector where
  canBePrefix : Bool
  mustBeFresh : Bool
  deriving DecidableEq

namespace Interest

def decodeSelectors (raw : Bytes) : Except TlvError Selector := do
  let ((_, value), _) ← readTlv raw
  forEachTlv id
    (fun sel typ _ => return if typ = TlvType.canBePrefix then { sel with canBePrefix := true }
      else if typ = TlvType.mustBeFresh then { sel with mustBeFresh := true }
      else sel)
    ⟨false, false⟩ value

def selectors (self : Interest) : Selector :=
  match decodeSelectors self.raw with
  | .ok sel => sel
  | .error _ => ⟨false, false⟩

def nonce (self : Interest) : Option ℕ :=
  match self.findField TlvType.nonce with
  | some val => if val.length = 4 then some (beNat val) else none
  | none => none

def maxPersistentLifetimeSecs : ℕ := 3600

/-- `Interest::lifetime`, in milliseconds, with its ceiling of one hour. -/
def lifetime (self : Interest) : Option ℕ :=
  match self.findField TlvType.interestLifetime with
  | some val =>
    match decodeNni val with
    | .ok ms => some (min ms (maxPersistentLifetimeSecs * 1000))
    | .error _ => none
  | none => none

end Interest

structure SubscriptionRequest where
  version : ℕ
  maxDataCount : ℕ
  maxLifetimeSecs : ℕ
  subscriptionId : Option Bytes
  deriving DecidableEq

namespace SubscriptionRequest

def tlvSubscriptionRequest : ℕ := 0x230

def headerLen : ℕ := 9

def maxSubscriptionIdLen : ℕ := 32

def decodeValue (bytes : Bytes) : Option SubscriptionRequest :=
  if bytes.length < headerLen ∨ bytes.length > headerLen + maxSubscriptionIdLen then none
  else
    some
      { version := beNat (bytes.take 1)
        maxDataCount := beNat ((bytes.drop 1).take 4)
        maxLifetimeSecs := beNat ((bytes.drop 5).take 4)
        subscriptionId :=
          if bytes.length > headerLen then some (bytes.drop headerLen) else none }

def findIn (appParams : Bytes) : Option SubscriptionRequest :=
  match findTlv tlvSubscriptionRequest appParams with
  | .ok (some val) => decodeValue val
  | _ => none

end SubscriptionRequest

/-- The request for a subscription that an Interest carries. -/
def Interest.subscriptionRequest (self : Interest) : Option SubscriptionRequest :=
  self.appParameters.bind SubscriptionRequest.findIn

end NdnRs
