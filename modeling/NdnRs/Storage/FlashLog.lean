import NdnRs.Lib.Assoc
import NdnRs.Lib.Except
import NdnRs.Lib.NorMemory

/-!
# The flash log (`ndn-storage/src/flash.rs`)

A key-value store on NOR flash: an index in memory, and on flash an append-only log of records in
one of two halves of the region. A full log, or one with a torn end, is rewritten into the other
half, whose superblock is written last.

## Implementation notes

The trait asks a chip to refuse unaligned and out-of-bounds arguments with an error. Power is a
budget of cells that can still be changed: an operation that runs out of it has changed exactly the
cells in front, and nothing behind it runs. Offsets inside the region stay far below `2 ^ 32`; the
sums that can leave that range are reduced as the source's `u32` arithmetic does. The index keeps
the order of insertion, where the source's `BTreeMap` has that of the keys: a compaction writes the
same pairs in another order.
-/

namespace NdnRs.Flash

open Bytes NorMemory

/-- The constants of a chip: `READ_SIZE`, `WRITE_SIZE`, `ERASE_SIZE` and its capacity. -/
structure Geometry where
  readSize : ℕ
  writeSize : ℕ
  eraseSize : ℕ
  capacity : ℕ
  readSize_pos : 0 < readSize
  writeSize_pos : 0 < writeSize
  eraseSize_pos : 0 < eraseSize
  writeSize_lt : writeSize < 2 ^ 32
  eraseSize_lt : eraseSize < 2 ^ 32

inductive FlashError where
  | unformatted
  | outOfSpace
  | io
  deriving DecidableEq

inductive Fault where
  | flash (e : FlashError)
  | powerCut
  deriving DecidableEq

/-- A chip: its cells, and how many of them can be changed before power is lost (`none`: power
stays). -/
structure NorFlash (g : Geometry) where
  cells : Cells
  power : Option ℕ

variable {g : Geometry}

namespace NorFlash

def read (self : NorFlash g) (off n : ℕ) : Except FlashError Bytes :=
  if g.readSize ∣ off ∧ g.readSize ∣ n ∧ off + n ≤ g.capacity then .ok (slice self.cells off n)
  else .error .io

/-- Changes `n` cells one after another: `change k` are the cells once `k` of them are done. -/
def spend (n : ℕ) (change : ℕ → Cells) : EStateM Fault (NorFlash g) Unit := fun self =>
  match self.power with
  | none => .ok () ⟨change n, none⟩
  | some budget =>
    if n ≤ budget then .ok () ⟨change n, some (budget - n)⟩
    else .error .powerCut ⟨change budget, some 0⟩

def write (off : ℕ) (bytes : Bytes) : EStateM Fault (NorFlash g) Unit := fun self =>
  if g.writeSize ∣ off ∧ g.writeSize ∣ bytes.length ∧ off + bytes.length ≤ g.capacity then
    spend bytes.length (fun k => program self.cells off (bytes.take k)) self
  else .error (.flash .io) self

def erase (lo hi : ℕ) : EStateM Fault (NorFlash g) Unit := fun self =>
  if g.eraseSize ∣ lo ∧ g.eraseSize ∣ hi ∧ lo ≤ hi ∧ hi ≤ g.capacity then
    spend (hi - lo) (fun k => NorMemory.erase self.cells lo k) self
  else .error (.flash .io) self

end NorFlash

/-! ## Records -/

inductive WriteOp where
  | put (key value : Bytes)
  | delete (key : Bytes)
  deriving DecidableEq

abbrev Index := List (Bytes × Bytes)

/-- What `commit` does to the index for one operation. -/
def WriteOp.apply (index : Index) : WriteOp → Index
  | .put key value => Assoc.insert key value index
  | .delete key => index.filter fun entry => entry.1 ≠ key

def applyOps (ops : List WriteOp) (index : Index) : Index := ops.foldl WriteOp.apply index

def opPut : UInt8 := 1

def opDel : UInt8 := 2

def commitMagic : ℕ := 0x4E444E46

def erasedLen : ℕ := 0xFFFFFFFF

def superMagic : ℕ := 0x4E444E5F464C4F47

def formatVersion : ℕ := 2

/-- `align_up`, in `u32` arithmetic. -/
def alignUp (n a : ℕ) : ℕ := (n + a - 1) / a * a % 2 ^ 32

def alignDown (n a : ℕ) : ℕ := n / a * a

def headerLen (g : Geometry) : ℕ := alignUp 16 g.writeSize

def halfCapFor (g : Geometry) (cap : ℕ) : ℕ := alignDown (cap / 2) g.eraseSize

/-- One operation in the payload of a record. -/
def WriteOp.encode : WriteOp → Bytes
  | .put key value =>
    opPut :: (leBytes 4 key.length ++ key ++ leBytes 4 value.length ++ value)
  | .delete key => opDel :: (leBytes 4 key.length ++ key)

def encodePayload (ops : List WriteOp) : Bytes := ops.flatMap WriteOp.encode

/-- `encode_record`. Both lengths are cut to 32 bits, and `resize` shortens as well as pads. -/
def encodeRecord (g : Geometry) (ops : List WriteOp) : Bytes :=
  let payload := encodePayload ops
  let len := payload.length % 2 ^ 32
  let frame := leBytes 4 len ++ payload ++ leBytes 4 (len ^^^ commitMagic)
  let padded := alignUp (frame.length % 2 ^ 32) g.writeSize
  frame.take padded ++ blank (padded - frame.length)

/-- The loop of `apply_payload`; `false` for a malformed payload. The payload gets shorter in every
round, so that its length bounds the number of rounds. -/
def applyPayloadFrom : ℕ → Bytes → Index → Index × Bool
  | _, [], index => (index, true)
  | 0, _ :: _, index => (index, false)
  | fuel + 1, op :: p, index =>
    if p.length < 4 then (index, false)
    else
      let klen := leNat (p.take 4)
      let p := p.drop 4
      if p.length < klen then (index, false)
      else
        let key := p.take klen
        let p := p.drop klen
        if op = opPut then
          if p.length < 4 then (index, false)
          else
            let vlen := leNat (p.take 4)
            let p := p.drop 4
            if p.length < vlen then (index, false)
            else
              applyPayloadFrom fuel (p.drop vlen) (WriteOp.apply index (.put key (p.take vlen)))
        else if op = opDel then applyPayloadFrom fuel p (WriteOp.apply index (.delete key))
        else (index, false)

def applyPayload (payload : Bytes) (index : Index) : Index × Bool :=
  applyPayloadFrom payload.length payload index

/-! ## Reading a region -/

namespace NorFlash

def readU32 (self : NorFlash g) (off : ℕ) : Except FlashError ℕ := do
  let b ← self.read off 4
  return leNat b

/-- The generation in a superblock, if its magic and version are the expected ones. -/
def parseSuper (hdr : Bytes) : Option ℕ :=
  if leNat (hdr.take 8) ≠ superMagic ∨ leNat ((hdr.drop 8).take 4) ≠ formatVersion then none
  else some (leNat ((hdr.drop 12).take 4))

def readSuper (self : NorFlash g) (base : ℕ) : Except FlashError (Option ℕ) := do
  let hdr ← self.read base 16
  return parseSuper hdr

/-- The loop of `replay_half`: the index, the offset of the next free cell, and whether the end of
the log was torn. Every record is at least one byte long, so that the size of the half bounds the
number of rounds. -/
def replayFrom (self : NorFlash g) (endCap : ℕ) :
    ℕ → ℕ → Index → Except FlashError (Index × ℕ × Bool)
  | 0, off, index => .ok (index, off, false)
  | fuel + 1, off, index =>
    if off + 8 > endCap then .ok (index, off, false)
    else do
      let len ← self.readU32 off
      if len = erasedLen then .ok (index, off, false)
      -- the two checked additions, then the bound of the half
      else if 2 ^ 32 ≤ off + 8 + len ∨ off + 8 + len > endCap then .ok (index, off, true)
      else do
        let buf ← self.read (off + 4) (len + 4)
        if leNat ((buf.drop len).take 4) ≠ len ^^^ commitMagic then .ok (index, off, true)
        else
          match applyPayload (buf.take len) index with
          | (index', false) => .ok (index', off, true)
          | (index', true) =>
            self.replayFrom endCap fuel (off + alignUp (8 + len) g.writeSize) index'

/-- `replay_half`, into an empty index. -/
def replayHalf (self : NorFlash g) (halfCap base : ℕ) : Except FlashError (Index × ℕ × Bool) :=
  self.replayFrom (base + halfCap) halfCap (base + headerLen g) []

end NorFlash

def newer (x y : ℕ) : Bool := x ≠ y ∧ (x + 2 ^ 32 - y) % 2 ^ 32 < 0x80000000

/-- The choice of `mount` between the two halves: the base and the generation of the live one. -/
def pickHalf (halfCap : ℕ) : Option ℕ → Option ℕ → Except FlashError (ℕ × ℕ)
  | none, none => .error .unformatted
  | some gen, none => .ok (0, gen)
  | none, some gen => .ok (halfCap, gen)
  | some genA, some genB => if newer genA genB then .ok (0, genA) else .ok (halfCap, genB)

/-! ## The state of the store -/

structure FlashState (g : Geometry) where
  flash : NorFlash g
  index : Index
  halfCap : ℕ
  liveBase : ℕ
  generation : ℕ
  writeOff : ℕ
  dirtyTail : Bool

namespace FlashState

abbrev FlashM (g : Geometry) := EStateM Fault (FlashState g)

/-- An operation of the chip, from inside the store. -/
def onFlash {α : Type} (x : EStateM Fault (NorFlash g) α) : FlashM g α := fun self =>
  match x self.flash with
  | .ok a flash => .ok a { self with flash := flash }
  | .error e flash => .error e { self with flash := flash }

def otherBase (self : FlashState g) : ℕ := if self.liveBase = 0 then self.halfCap else 0

/-- The superblock that `write_half` writes. -/
def superblock (g : Geometry) (generation : ℕ) : Bytes :=
  leBytes 8 superMagic ++ leBytes 4 formatVersion ++ leBytes 4 generation ++
    blank (headerLen g - 16)

/-- The record part of `write_half`, into an erased half; the offset behind it. -/
def writeLog (base hc : ℕ) (ops : List WriteOp) : FlashM g ℕ := do
  let off := base + headerLen g
  if ops = [] then return off
  else do
    let frame := encodeRecord g ops
    if (off + frame.length) % 2 ^ 32 > base + hc then throw (.flash .outOfSpace)
    else do
      onFlash (NorFlash.write off frame)
      return off + frame.length

def writeHalf (base generation : ℕ) (ops : List WriteOp) : FlashM g ℕ := do
  let hc := (← get).halfCap
  onFlash (NorFlash.erase base (base + hc))
  let off ← writeLog base hc ops
  onFlash (NorFlash.write base (superblock g generation))
  return off

/-- The operations that `compact` rewrites the log with. -/
def indexOps (index : Index) : List WriteOp :=
  index.map fun (key, value) => .put key value

def compact : FlashM g Unit := do
  let self ← get
  let ops := indexOps self.index
  let target := self.otherBase
  let newGen := (self.generation + 1) % 2 ^ 32
  let newOff ← writeHalf target newGen ops
  modify fun self =>
    { self with liveBase := target, generation := newGen, writeOff := newOff, dirtyTail := false }

/-- The record does not fit behind the log, as `append` computes it. -/
def full (self : FlashState g) (need : ℕ) : Prop :=
  (self.writeOff + need) % 2 ^ 32 > self.liveBase + self.halfCap

instance (self : FlashState g) (need : ℕ) : Decidable (self.full need) :=
  inferInstanceAs (Decidable (_ > _))

/-- `append` rewrites the log first. -/
def compacts (self : FlashState g) (ops : List WriteOp) : Prop :=
  self.dirtyTail = true ∨ self.full (encodeRecord g ops).length

instance (self : FlashState g) (ops : List WriteOp) : Decidable (self.compacts ops) :=
  inferInstanceAs (Decidable (_ ∨ _))

/-- The compacting part of `append`. -/
def makeRoom (ops : List WriteOp) : FlashM g Unit := do
  if (← get).compacts ops then do
    compact
    if (← get).full (encodeRecord g ops).length then throw (.flash .outOfSpace)
  else return ()

def append (ops : List WriteOp) : FlashM g Unit := do
  let frame := encodeRecord g ops
  makeRoom ops
  let off := (← get).writeOff
  onFlash (NorFlash.write off frame)
  modify fun self => { self with writeOff := self.writeOff + frame.length }

def commit (ops : List WriteOp) : FlashM g Unit := do
  append ops
  modify fun self => { self with index := applyOps ops self.index }

def mount (self : FlashState g) : Except FlashError (FlashState g) := do
  Except.ensure (¬ self.halfCap < headerLen g + 8) .outOfSpace
  let a ← self.flash.readSuper 0
  let b ← self.flash.readSuper self.halfCap
  let (base, generation) ← pickHalf self.halfCap a b
  let (index, off, dirty) ← self.flash.replayHalf self.halfCap base
  return { self with
    liveBase := base
    generation := generation
    index := index
    writeOff := off
    dirtyTail := dirty }

end FlashState

/-! ## The backend -/

namespace FlashLogBackend

open FlashState

/-- The state a backend starts from. -/
def fresh (flash : NorFlash g) : FlashState g :=
  { flash := flash
    index := []
    halfCap := halfCapFor g g.capacity
    liveBase := 0
    generation := 0
    writeOff := 0
    dirtyTail := false }

def mount (flash : NorFlash g) : Except FlashError (FlashState g) := (fresh flash).mount

/-- `FlashLogBackend::format`, as an operation on the state it starts from. -/
def format : FlashM g Unit := do
  let halfCap := halfCapFor g g.capacity
  if halfCap < headerLen g + 8 then throw (.flash .outOfSpace)
  else do
    onFlash (NorFlash.erase halfCap (halfCap + halfCap))
    let off ← writeHalf 0 0 []
    modify fun self =>
      { self with liveBase := 0, generation := 0, writeOff := off, dirtyTail := false }

def put (key value : Bytes) : FlashM g Unit := commit [.put key value]

def delete (key : Bytes) : FlashM g Unit := commit [.delete key]

def writeBatch (ops : List WriteOp) : FlashM g Unit := commit ops

def get (self : FlashState g) (key : Bytes) : Option Bytes := self.index.lookup key

end FlashLogBackend

end NdnRs.Flash
