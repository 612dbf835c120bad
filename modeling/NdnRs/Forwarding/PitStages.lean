import NdnRs.Forwarding.PitTable
import NdnRs.Lib.SwapRemove

/-!
# The PIT stages (`ndn-engine/src/stages/pit.rs`, `expiry.rs`)

## Main definitions

* `PitCheckStage.process` — an Interest is checked against the table and added to it.
* `PitMatchStage.process` — a Data consumes the entries it satisfies.
* `runExpiryTask` — a timer drains the expired ones.

## Implementation notes

The replay guard and the validator keep state of their own: their verdict on an Interest comes with
its arrival, and so does the link type of its face. The trace ids of in-records are left out; this
stage never sets one. The stages that forward an Interest, answer it from the Content Store or
reject it, and the removal of a face, appear with what they do to the tables.
-/

namespace NdnRs.Pit

open Bytes SwapRemove TlvType NameHashes

variable (P : Platform)

structure Tables where
  pit : Pit
  deadNonceList : Option DeadNonceList
  deriving DecidableEq

def stripDigestComponents (name : Name) : Name :=
  match name.getLast? with
  | some c =>
    if c.typ = parametersSha256 ∨ c.typ = implicitSha256 then name.dropLast
    else name
  | none => name

/-! ## Interests -/

/-- An Interest at `PitCheckStage`: its face and arrival time, the token of its link header, the
link type of its face, and the verdicts of the replay guard and of the validator. -/
structure Arrival where
  interest : Interest
  faceId : ℕ
  arrival : ℕ
  lpPitToken : Option Bytes
  pointToPoint : Bool
  replayed : Bool
  validated : Bool

/-- `DropReason`, as far as the stage uses it. -/
inductive DropReason where
  | loopDetected
  | suppressed
  | invalidPersistentRequest
  deriving DecidableEq

/-- `Action`, as far as the stage uses it. -/
inductive Action where
  | continue
  | drop (reason : DropReason)
  deriving DecidableEq

namespace PitCheckStage

def nonceOf (i : Interest) : ℕ := i.nonce.getD 0

def lifetimeOf (i : Interest) : ℕ := i.lifetime.getD 4000

/-- The key is the stripped name for an Interest with a subscription request, accepted or not, and
the full name for any other. -/
def keyName (i : Interest) : Name :=
  if i.subscriptionRequest.isSome then stripDigestComponents i.name else i.name

/-- The bounds that `check_persistent` puts on a request. -/
def requestOk (req : SubscriptionRequest) : Bool :=
  req.version = 1 ∧ req.maxDataCount ≠ 0 ∧ req.maxLifetimeSecs ≠ 0 ∧
    req.maxLifetimeSecs ≤ Interest.maxPersistentLifetimeSecs

def checkPersistent (pit : Pit) (a : Arrival) : Pit × Except DropReason (Option PersistentState) :=
  match a.interest.subscriptionRequest with
  | none => (pit, .ok none)
  | some req =>
    if requestOk req = false then (pit, .error .invalidPersistentRequest)
    else if a.validated then
      let reapAt := a.arrival + req.maxLifetimeSecs * 1000000000
      match req.subscriptionId with
      | none => (pit, .ok (some ⟨req.maxDataCount, reapAt, none⟩))
      | some id =>
        let (pit, orphan) := pit.takeOrphan id a.arrival
        let remaining :=
          match orphan with
          | some o => o.dataCountRemaining
          | none => req.maxDataCount
        (pit, .ok (some ⟨remaining, reapAt, some id⟩))
    else (pit, .ok none)

def retxSuppressNs : ℕ := 10000000

def shouldRetxReforward (entry : PitEntry) (now : ℕ) : Bool :=
  match (entry.outRecords.map OutRecord.sentAt).max? with
  | some sentAt => now ≥ min (sentAt + retxSuppressNs) (2 ^ 64 - 1)
  | none => false

inductive CheckResult where
  | loop
  | aggregated
  | inserted
  | reForward

/-- The in-record of an Interest. -/
def recordOf (a : Arrival) (persistent : Option PersistentState) : InRecord :=
  { faceId := a.faceId
    nonce := nonceOf a.interest
    expiresAt := a.arrival + lifetimeOf a.interest * 1000000
    lpPitToken := a.lpPitToken
    selector := a.interest.selectors
    persistent := persistent
    interest := a.interest }

/-- The nonce was seen, and the Interest is not a retransmission on a point-to-point link. -/
def isLoop (a : Arrival) (entry : PitEntry) : Bool :=
  nonceOf a.interest ∈ entry.noncesSeen ∧
    ¬ (a.pointToPoint = true ∧
      entry.inRecords.any fun r => r.faceId = a.faceId ∧ r.nonce = nonceOf a.interest)

/-- The closure on an existing entry. -/
def onExisting (a : Arrival) (persistent : Option PersistentState) (entry : PitEntry) :
    PitEntry × CheckResult :=
  if isLoop a entry then ({ entry with forwardCancelled := true }, .loop)
  else
    match persistent with
    | some ps =>
      -- a re-expressed subscription replaces the record of its face, and goes upstream again
      let entry := { entry with inRecords := entry.inRecords.filter fun r => r.faceId ≠ a.faceId }
      let entry := entry.addInRecordWithPersistent (recordOf a persistent)
      ({ entry with expiresAt := max entry.expiresAt ps.reapAt, upstreamLost := false }, .reForward)
    | none =>
      let entry := entry.addInRecordWithPersistent (recordOf a none)
      (entry, if shouldRetxReforward entry a.arrival then .reForward else .aggregated)

def onNew (a : Arrival) (persistent : Option PersistentState) : PitEntry :=
  let entry := PitEntry.new a.interest.name a.arrival (lifetimeOf a.interest)
  let entry :=
    match persistent with
    | some ps => { entry with expiresAt := ps.reapAt, persistent := some ps }
    | none => entry
  entry.addInRecordWithPersistent (recordOf a persistent)

/-- `with_entry_or_insert`, with the two closures. -/
def checkEntry (pit : Pit) (token : UInt64) (a : Arrival) (persistent : Option PersistentState) :
    Pit × CheckResult :=
  match pit.get token with
  | some entry =>
    let (entry, result) := onExisting a persistent entry
    (pit.set token entry, result)
  | none => (pit.set token (onNew a persistent), .inserted)

/-- The discriminator of an Interest's entry. -/
def discOf (persistent : Option PersistentState) : PitKeyDiscriminator :=
  if persistent.isSome then .persistentAttach else .classical

def actionOf : CheckResult → Action
  | .loop => .drop .loopDetected
  | .aggregated => .drop .suppressed
  | .inserted => .continue
  | .reForward => .continue

/-- The part of `process` behind the checks of the packet. -/
def admitInterest (tables : Tables) (a : Arrival) (persistent : Option PersistentState) :
    Tables × Action :=
  let nameHash := fullNameHash P (keyName a.interest)
  let token := pitToken P nameHash (discOf persistent)
  let dead : Bool :=
    match tables.deadNonceList with
    | some dnl => dnl.contains ⟨nameHash, nonceOf a.interest⟩ a.arrival
    | none => false
  if dead then (tables, .drop .loopDetected)
  else
    let (pit, result) := checkEntry tables.pit token a persistent
    ({ tables with pit := pit }, actionOf result)

def process (tables : Tables) (a : Arrival) : Tables × Action :=
  if a.interest.sigInfo.isSome ∧ a.replayed = true then (tables, .drop .loopDetected)
  else
    match checkPersistent tables.pit a with
    | (pit, .error reason) => ({ tables with pit := pit }, .drop reason)
    | (pit, .ok persistent) => admitInterest P { tables with pit := pit } a persistent

end PitCheckStage

/-! ## Data -/

def insertDeadNonces (dnl : Option DeadNonceList) (entry : PitEntry) (now : ℕ) :
    Option DeadNonceList :=
  dnl.map fun dnl =>
    let keyName :=
      if entry.persistent.isSome then stripDigestComponents entry.name else entry.name
    let nameHash := fullNameHash P keyName
    entry.noncesSeen.foldl (fun dnl nonce => dnl.insert P ⟨nameHash, nonce⟩ now) dnl

namespace PitMatchStage

/-- The faces and link-header tokens collected so far, and the faces already in. -/
structure Collected where
  faces : List ℕ
  tokens : List (Option Bytes)
  seen : List ℕ

/-- Adds one record, unless its face is already in. -/
def collect (c : Collected) (r : ℕ × Option Bytes) : Collected :=
  if r.1 ∈ c.seen then c else ⟨c.faces ++ [r.1], c.tokens ++ [r.2], c.seen ++ [r.1]⟩

def outlet (r : InRecord) : ℕ × Option Bytes := (r.faceId, r.lpPitToken)

/-- The loop over the in-records of a persistent entry, on one of them: the record afterwards, and
whether the Data goes to its face. -/
def spend (cbpOnly entryLevel : Bool) (r : InRecord) : InRecord × Bool :=
  if cbpOnly && !r.selector.canBePrefix then (r, false)
  else
    match r.persistent with
    | some ps =>
      if 0 < ps.dataCountRemaining then
        ({ r with
            persistent := some { ps with dataCountRemaining := ps.dataCountRemaining - 1 } }, true)
      else (r, false)
    | none => (r, entryLevel)

/-- The Data used up the last credit of a record. -/
def isExhausted (r : InRecord × Bool) : Bool :=
  r.2 ∧ (r.1.persistent.map PersistentState.dataCountRemaining) = some 0

/-- The positions of the exhausted records. -/
def exhausted (rs : List (InRecord × Bool)) : List ℕ :=
  (List.range rs.length).filter fun i => (rs[i]?.map isExhausted).getD false

/-- Some record of the entry takes part as a persistent one. -/
def anyPerRecord (cbpOnly : Bool) (entry : PitEntry) : Bool :=
  entry.inRecords.any fun r => r.persistent.isSome && (!cbpOnly || r.selector.canBePrefix)

/-- The persistent branch of `consume_entry` on the entry: the entry afterwards, the deliveries,
and whether the entry is to be removed. -/
def consumePersistent (cbpOnly : Bool) (entry : PitEntry) :
    PitEntry × List (ℕ × Option Bytes) × Bool :=
  let spent := entry.inRecords.map (spend cbpOnly entry.persistent.isSome)
  let delivered := (spent.filter Prod.snd).map fun r => outlet r.1
  let left := (exhausted spent).reverse.foldl swapRemove (spent.map Prod.fst)
  let persistent := entry.persistent.map fun p =>
    { p with dataCountRemaining := p.dataCountRemaining - 1 }
  let shouldReap :=
    if anyPerRecord cbpOnly entry then !left.any fun r => r.persistent.isSome
    else (persistent.map PersistentState.dataCountRemaining) = some 0
  ({ entry with inRecords := left, persistent := persistent }, delivered, shouldReap)

/-- Removes an entry and remembers its nonces. -/
def reap (tables : Tables) (token : UInt64) (entry : PitEntry) (now : ℕ) : Tables :=
  { pit := tables.pit.remove token
    deadNonceList := insertDeadNonces P tables.deadNonceList entry now }

/-- The persistent branch of `consume_entry`. -/
def consumePersistentEntry (now : ℕ) (tables : Tables) (c : Collected) (token : UInt64)
    (cbpOnly : Bool) (entry : PitEntry) : Tables × Collected :=
  let (entry', delivered, shouldReap) := consumePersistent cbpOnly entry
  let tables := { tables with pit := tables.pit.set token entry' }
  (if shouldReap then reap P tables token entry' now else tables, delivered.foldl collect c)

/-- The classical branch of `consume_entry` for a shorter name: only the CanBePrefix records go. -/
def consumePrefixEntry (now : ℕ) (tables : Tables) (c : Collected) (token : UInt64)
    (entry : PitEntry) : Tables × Collected :=
  let (taken, rest) := drain (fun r => r.selector.canBePrefix) entry.inRecords
  let entry' := { entry with inRecords := rest }
  let tables := { tables with pit := tables.pit.set token entry' }
  (if rest.isEmpty then reap P tables token entry' now else tables,
    (taken.map outlet).foldl collect c)

/-- The classical branch of `consume_entry` for the name itself. -/
def consumeExactEntry (now : ℕ) (tables : Tables) (c : Collected) (token : UInt64)
    (entry : PitEntry) : Tables × Collected :=
  (reap P tables token entry now, (entry.inRecords.map outlet).foldl collect c)

def consumeEntry (now : ℕ) (tables : Tables) (c : Collected) (token : UInt64) (cbpOnly : Bool) :
    Tables × Collected :=
  match tables.pit.get token with
  | none => (tables, c)
  | some entry =>
    if anyPerRecord cbpOnly entry || entry.persistent.isSome then
      consumePersistentEntry P now tables c token cbpOnly entry
    else if cbpOnly then consumePrefixEntry P now tables c token entry
    else consumeExactEntry P now tables c token entry

/-- The token of the stripped name, for Data named with a trailing digest. -/
def strippedToken (name : Name) : Option UInt64 :=
  match name.getLast? with
  | some c =>
    if (c.typ = parametersSha256 ∨ c.typ = implicitSha256) ∧ name.length > 1 then
      some (pitToken P (fullNameHash P name.dropLast) .classical)
    else none
  | none => none

/-- The lookups of `process`, in order: a token, and whether only CanBePrefix records count. -/
def lookups (name : Name) : List (UInt64 × Bool) :=
  let hashes := compute P name
  let full := fullHash hashes
  [(pitToken P full .persistentAttach, false), (pitToken P full .classical, false)] ++
    (strippedToken P name).toList.map (fun token => (token, false)) ++
    ((List.range hashes.length).drop 1).reverse.flatMap fun n =>
      [(pitToken P (prefixHash hashes n) .persistentAttach, true),
        (pitToken P (prefixHash hashes n) .classical, true)]

def consumeAll (now : ℕ) (s : Tables × Collected) (ls : List (UInt64 × Bool)) :
    Tables × Collected :=
  ls.foldl (fun s l => consumeEntry P now s.1 s.2 l.1 l.2) s

/-- What `process` leaves in the packet context. -/
structure Output where
  outFaces : List ℕ
  outPitTokens : List (Option Bytes)
  unsolicited : Bool

/-- `PitMatchStage::process`, on Data of the given name. -/
def process (tables : Tables) (name : Name) (now : ℕ) : Tables × Output :=
  let (tables, c) := consumeAll P now (tables, ⟨[], [], []⟩) (lookups P name)
  (tables, ⟨c.faces, c.tokens, c.faces.isEmpty⟩)

end PitMatchStage

/-! ## Expiry -/

/-- One entry of `drain_expired_entries`, with its nonces. -/
def expireEntry (now : ℕ) (tables : Tables) (token : UInt64) : Tables :=
  match tables.pit.get token with
  | some entry => PitMatchStage.reap P tables token entry now
  | none => tables

/-- One tick of `run_expiry_task`; the budgets of lost subscriptions are swept every 1024th
time. -/
def runExpiryTask (tables : Tables) (now : ℕ) (reapOrphans : Bool) : Tables :=
  let pit := if reapOrphans then tables.pit.reapOrphans now else tables.pit
  let tables := (pit.expiredTokens now).foldl (expireEntry P now) { tables with pit := pit }
  { tables with deadNonceList := tables.deadNonceList.map fun dnl => dnl.purgeExpired now }

/-! ## Runs -/

/-- What changes the tables: an Interest, a Data, a tick of the expiry task, a transmission
upstream, the removal of an entry by a stage that answers or rejects its Interest, and the loss of
a face. -/
inductive Event where
  | interest (a : Arrival)
  | data (d : Data) (now : ℕ)
  | expiry (now : ℕ) (reapOrphans : Bool)
  | forwarded (token : UInt64) (faceId nonce now : ℕ)
  | discarded (token : UInt64) (now : ℕ)
  | faceRemoved (faceId now : ℕ)

def Event.time : Event → ℕ
  | .interest a => a.arrival
  | .data _ now => now
  | .expiry now _ => now
  | .forwarded _ _ _ now => now
  | .discarded _ now => now
  | .faceRemoved _ now => now

def step (tables : Tables) : Event → Tables
  | .interest a => (PitCheckStage.process P tables a).1
  | .data d now => (PitMatchStage.process P tables d.name now).1
  | .expiry now reapOrphans => runExpiryTask P tables now reapOrphans
  | .forwarded token faceId nonce now =>
    match tables.pit.get token with
    | some entry =>
      { tables with pit := tables.pit.set token (entry.addOutRecord faceId nonce now) }
    | none => tables
  | .discarded token _ => { tables with pit := tables.pit.remove token }
  | .faceRemoved faceId _ => { tables with pit := tables.pit.removeFace faceId }

end NdnRs.Pit
