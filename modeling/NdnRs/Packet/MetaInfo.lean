import NdnRs.Packet.Data

/-!
# MetaInfo (`ndn-packet/src/meta_info.rs`)
-/

namespace NdnRs

open Bytes Tlv

namespace TlvType

def finalBlockId : ℕ := 0x1a

end TlvType

inductive ContentType where
  | blob
  | link
  | key
  | nack
  | manifest
  | prefixAnn
  | other (code : ℕ)
  deriving DecidableEq

namespace ContentType

def fromCode : ℕ → ContentType
  | 0 => .blob
  | 1 => .link
  | 2 => .key
  | 3 => .nack
  | 4 => .manifest
  | 5 => .prefixAnn
  | c => .other c

end ContentType

/-- `MetaInfo`; the freshness period in milliseconds. -/
structure MetaInfo where
  contentType : ContentType
  freshnessPeriod : Option ℕ
  finalBlockId : Option Bytes
  deriving DecidableEq

namespace MetaInfo

def default : MetaInfo := ⟨.blob, none, none⟩

/-- The body of the loop in `MetaInfo::decode`. -/
def decodeStep (info : MetaInfo) (typ : ℕ) (val : Bytes) : Except PacketError MetaInfo :=
  if typ = TlvType.contentType then do
    let code ← decodeNni val
    return { info with contentType := .fromCode code }
  else if typ = TlvType.freshnessPeriod then do
    let ms ← decodeNni val
    return { info with freshnessPeriod := some ms }
  else if typ = TlvType.finalBlockId then
    return { info with finalBlockId := some val }
  else do
    Except.ensure (isCriticalTlvType typ = false)
      (.malformedPacket "unknown critical TLV-TYPE in MetaInfo body")
    return info

def decode (value : Bytes) : Except PacketError MetaInfo :=
  forEachTlv .tlv decodeStep default value

def finalBlockComponent (self : MetaInfo) : Option (Except PacketError NameComponent) :=
  self.finalBlockId.map fun raw => do
    let ((typ, value), _) ← (readTlv raw).mapError .tlv
    return ⟨.ofNat typ, value⟩

end MetaInfo

/-- `Data::meta_info`; an unreadable MetaInfo counts as absent. -/
def Data.metaInfo (self : Data) : Option MetaInfo :=
  match Data.findField self.raw TlvType.metaInfo with
  | .ok (some val) => (MetaInfo.decode val).toOption
  | _ => none

end NdnRs
