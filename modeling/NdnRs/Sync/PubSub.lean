import NdnRs.Lib.Assoc
import NdnRs.Lib.Run
import NdnRs.Packet.MetaInfo
import NdnRs.Packet.Subscription
import NdnRs.Wire.NameUri

/-!
# Publications and subscriptions over state vector sync (`ndn-sync/src/pubsub.rs`, `svsync.rs`)

A node learns that a publisher has reached a sequence number, resolves the number to an application
name, and if somebody has subscribed to a prefix of it fetches the publication, one Data for each
segment, and delivers what the segments encapsulate. Several tasks take part: the interposing demux,
the demux of the data plane, the dispatcher, and one fetch for each segment in flight. A step of the
model is a turn of one of them.

## Implementation notes

The validator is a predicate on wires. Delays, lifetimes and the capacities of channels are left
out: a wait ends in any order, and a send that fails ends its attempt as a timeout does. What the
node sends is logged by its meaning and not by its bytes. At most one fetch at a time may be
answered by a longer name, so the order in which the source walks its table of waiters does not
matter.

## Main results

* `delivered_accepted` — when deliveries were validated.
* `answers_query_iff` — when a mapping query is answered.
-/

namespace NdnRs

open Bytes Tlv List

/-! ## Names of publications -/

/-- `decode_nni_lax`: any width goes, and at most eight bytes count. -/
def decodeNniLax (bytes : Bytes) : ℕ := beNat (bytes.take 8)

namespace NameComponent

def asSegment (self : NameComponent) : Option ℕ :=
  if self.typ = TlvType.segment then some (decodeNonnegativeInteger self.value) else none

def asVersion (self : NameComponent) : Option ℕ :=
  if self.typ = TlvType.version then some (decodeNonnegativeInteger self.value) else none

end NameComponent

namespace Name

/-- `append_seq` and `append_number`: a generic component with a number. -/
def appendNumber (self : Name) (n : ℕ) : Name := self.append (encodeNonnegInteger n)

def appendVersion (self : Name) (v : ℕ) : Name := self ++ [.version v]

def appendSegment (self : Name) (seg : ℕ) : Name :=
  self ++ [⟨TlvType.segment, encodeNonnegInteger seg⟩]

end Name

def svsDataName (node group : Name) (seq : ℕ) : Name := .appendNumber (node ++ group) seq

def maxFetchSegments : ℕ := 2 ^ 20

def finalBlockSegment (data : Data) : Option ℕ := do
  let info ← data.metaInfo
  let component ← info.finalBlockComponent
  let c ← component.toOption
  c.asSegment

def finalBlockSegmentClamped (data : Data) : Option ℕ :=
  (finalBlockSegment data).map fun last => min last maxFetchSegments

def wireContent (wire : Bytes) : Option Bytes :=
  (Data.decode wire).toOption.map fun d => d.content.getD []

/-- `reassemble`: the contents of the inner Data, one after another. -/
def reassemble (outerContents : List Bytes) : Option Bytes :=
  (outerContents.mapM wireContent).map List.flatten

def assemble (wires : List Bytes) : Option Bytes := wires.mapM wireContent >>= reassemble

/-! ## Mappings -/

namespace TlvType

def svsSeqNo : ℕ := 204
def mappingData : ℕ := 205
def mappingEntry : ℕ := 206

end TlvType

structure MappingList where
  node : Name
  pairs : List (ℕ × Name)

namespace MappingList

def decodeName (v : Bytes) : Except Unit Name := (Name.decode v).mapError fun _ => ()

/-- The loop over one entry: its last sequence number and its last name. -/
def decodeEntry (v : Bytes) : Except Unit (Option ℕ × Option Name) :=
  forEachTlv (fun _ => ()) (fun s t v =>
    if t = TlvType.svsSeqNo then return (some (decodeNniLax v), s.2)
    else if t = TlvType.name then return (s.1, some (← decodeName v))
    else return s) (none, none) v

/-- The body of the loop in `decode`. -/
def decodeStep (s : Option Name × List (ℕ × Name)) (t : ℕ) (v : Bytes) :
    Except Unit (Option Name × List (ℕ × Name)) :=
  if t = TlvType.name then return (some (← decodeName v), s.2)
  else if t = TlvType.mappingEntry then do
    match ← decodeEntry v with
    | (some seq, some app) => return (s.1, s.2 ++ [(seq, app)])
    | _ => return s
  else return s

def decode (bytes : Bytes) : Option MappingList :=
  Except.toOption do
    let ((typ, value), _) ← (readTlv bytes).mapError fun _ => ()
    Except.ensure (typ = TlvType.mappingData) ()
    let (node, pairs) ← forEachTlv (fun _ => ()) decodeStep (none, []) value
    return ⟨node.getD [], pairs⟩

end MappingList

/-- `MappingProvider`: the application names, by publisher and sequence number. -/
abbrev MappingProvider := List ((Name × ℕ) × Name)

namespace MappingProvider

def ingest (self : MappingProvider) (list : MappingList) : MappingProvider :=
  list.pairs.foldl (fun map pair => Assoc.insert (list.node, pair.1) pair.2 map) self

/-- The stored pairs of a publisher with a sequence number from `low` to `high`. -/
def pairsIn (self : MappingProvider) (node : Name) (low high : ℕ) : List (ℕ × Name) :=
  (self.filter fun x => x.1.1 = node ∧ low ≤ x.1.2 ∧ x.1.2 ≤ high).map fun x => (x.1.2, x.2)

/-- `list_range`: `none` is the panic of `BTreeMap::range`, on a map with pairs, when the range
starts behind its end. -/
def listRange (self : MappingProvider) (node : Name) (low high : ℕ) : Option MappingList :=
  if (self.any fun x => x.1.1 = node) ∧ high < low then none
  else some ⟨node, (self.pairsIn node low high).mergeSort fun x y => x.1 ≤ y.1⟩

def mappingMarker : Bytes := Str.bytes "MAPPING".toList

def queryPrefix (node group : Name) : Name := (node ++ group).append mappingMarker

def queryName (node group : Name) (low high : ℕ) : Name :=
  ((queryPrefix node group).appendNumber low).appendNumber high

def parseQuery (name group : Name) : Option (Name × ℕ × ℕ) :=
  if name.length < group.length + 3 then none
  else
    let nodeLen := name.length - group.length - 3
    let tail := name.drop nodeLen
    match tail.drop group.length with
    | [marker, low, high] =>
      if marker.value ≠ mappingMarker ∨ tail.take group.length ≠ group then none
      else some (name.take nodeLen, decodeNniLax low.value, decodeNniLax high.value)
    | _ => none

/-- **Mapping queries.** For every name that is a query, the answer is the list of the stored pairs
in the range, and no panic, iff the range does not start behind its end or nothing is stored for the
publisher. -/
theorem answers_query_iff (self : MappingProvider) (name group : Name) :
    (∀ node low high, parseQuery name group = some (node, low, high) →
      ∃ list, self.listRange node low high = some list ∧ list.node = node ∧
        list.pairs.Perm (self.pairsIn node low high)) ↔
    ∀ node low high, parseQuery name group = some (node, low, high) →
      low ≤ high ∨ ∀ x ∈ self, x.1.1 ≠ node := by
  refine forall₄_congr fun node low high _ => ?_
  have hpan : ((self.any fun x => x.1.1 = node) ∧ high < low) ↔
      ¬ (low ≤ high ∨ ∀ x ∈ self, x.1.1 ≠ node) := by
    rw [any_eq_true, not_or, not_le, and_comm]
    simp
  rw [listRange]
  split_ifs with h
  · refine iff_of_false ?_ (hpan.mp h)
    rintro ⟨list, hlist, -⟩
    cases hlist
  · exact iff_of_true ⟨_, rfl, rfl, mergeSort_perm _ _⟩ (not_not.mp (mt hpan.mpr h))

/-- **A query that panics.** Somebody asks `/p`, which has published once, for the names from the
second to the first. -/
theorem range_query_panics :
    let name := queryName [.ofText "p"] [.ofText "g"] 2 1
    name.hasPrefix (queryPrefix [.ofText "p"] [.ofText "g"]) = true ∧
    parseQuery name [.ofText "g"] = some ([.ofText "p"], 2, 1) ∧
    listRange [(([.ofText "p"], 1), [.ofText "a"])] [.ofText "p"] 2 1 = none := by
  decide

end MappingProvider

/-! ## The node -/

/-- `SyncUpdate`, as far as the dispatcher reads it. -/
structure SyncUpdate where
  publisher : Str
  lowSeq : ℕ
  highSeq : ℕ
  mapping : Option Bytes

structure Publication where
  name : Name
  payload : Bytes
  deriving DecidableEq

namespace SvsPubSub

structure Config where
  node : Name
  group : Name
  ingestValidator : Option (Bytes → Bool)
  maxRetries : ℕ
  fetchWindow : ℕ
  serveAllStored : Bool

def Config.accepts (cfg : Config) (wire : Bytes) : Bool :=
  cfg.ingestValidator.all fun v => v wire

/-- Where `express_with_retry` is, with the number of the attempt: before an attempt, waiting, with
an answer that it has not taken yet, or done. -/
inductive Attempt where
  | sleeping (attempt : ℕ)
  | waiting (attempt : ℕ)
  | answered (attempt : ℕ) (wire : Bytes)
  | done (result : Option Bytes)

namespace Attempt

/-- The wire that the attempt has. -/
def wire : Attempt → Option Bytes
  | sleeping _ => none
  | waiting _ => none
  | answered _ wire => some wire
  | done result => result

def result : Attempt → Option (Option Bytes)
  | done result => some result
  | _ => none

end Attempt

structure Target where
  publisher : Name
  seq : ℕ
  high : ℕ

def Target.next (t : Target) : Target := { t with seq := t.seq + 1 }

/-- `fetch_publication` at work, for those interested in the name: a slot for each Data, the number
of which is known once the first is there. -/
structure Fetching where
  target : Target
  appName : Name
  interested : List ℕ
  slots : List Attempt
  segCount : Option ℕ

/-- The name that a slot asks for, and whether the answer may have a longer one. -/
def Fetching.slotName (group : Name) (f : Fetching) (i : ℕ) : Name × Bool :=
  let seqName := svsDataName f.target.publisher group f.target.seq
  if i = 0 then (seqName, true) else ((seqName.appendVersion 0).appendSegment i, false)

inductive Phase where
  | idle
  | next (t : Target)
  | query (t : Target) (reply : Option Bytes)
  | fetch (f : Fetching)

def Phase.wires : Phase → List Bytes
  | .fetch f => f.slots.filterMap Attempt.wire
  | _ => []

/-- A publication sent to a subscriber, with the Data wires that it was assembled from. -/
structure Delivery where
  subscriber : ℕ
  publication : Publication
  wires : List Bytes
  assembled : assemble wires = some publication.payload

/-- What the node sends: Interests of its own, Data from the store and mapping lists to the network,
Sync Interests to the core. -/
inductive Outgoing where
  | interest (name : Name) (canBePrefix : Bool)
  | data (wire : Bytes)
  | mapping (name : Name) (list : MappingList)
  | toCore (raw : Bytes)

end SvsPubSub

/-- `SvsPubSub`, with the `SvSync` in it. -/
structure SvsPubSub where
  store : List (Name × Bytes)
  mappings : MappingProvider
  subs : List (Name × ℕ)
  queryPending : List Name
  pending : List (Name × (Bool × ℕ))
  svsIn : List Bytes
  updates : List SyncUpdate
  phase : SvsPubSub.Phase
  delivered : List SvsPubSub.Delivery
  out : List SvsPubSub.Outgoing
  interposing : Bool

namespace SvsPubSub

/-- `SvsPubSub::join_secured`: nothing is stored, known or asked for. -/
def joinSecured : SvsPubSub := ⟨[], [], [], [], [], [], [], .idle, [], [], true⟩

/-! ### Packets from the network -/

variable (cfg : Config) (self : SvsPubSub) (f : Fetching)

/-- `spawn_interpose`, on one packet: mapping queries are answered, replies to mapping queries go to
the dispatcher, and all else to the data plane. A panic ends the task. -/
def interpose (raw : Bytes) : SvsPubSub :=
  let forward := { self with svsIn := self.svsIn ++ [raw] }
  match raw.head? with
  | some 0x05 =>
    match Interest.decode raw with
    | .error _ => self
    | .ok interest =>
      if interest.name.hasPrefix (MappingProvider.queryPrefix cfg.node cfg.group) then
        match MappingProvider.parseQuery interest.name cfg.group with
        | some (node, low, high) =>
          match self.mappings.listRange node low high with
          | some list => { self with out := self.out ++ [.mapping interest.name list] }
          | none => { self with interposing := false }
        | none => self
      else forward
  | some 0x06 =>
    match Data.decode raw with
    | .ok data =>
      if data.name ∈ self.queryPending then
        let self := { self with queryPending := self.queryPending.erase data.name }
        match self.phase with
        | .query t none => { self with phase := .query t (some raw) }
        | _ => self
      else forward
    | .error _ => forward
  | _ => self

/-- The waiter for a name: that of the name itself, or one that takes longer names. -/
def waiterFor (pending : List (Name × (Bool × ℕ))) (name : Name) : Option (Name × (Bool × ℕ)) :=
  match pending.lookup name with
  | some slot => some (name, slot)
  | none => pending.find? fun x => x.2.1 && name.hasPrefix x.1

/-- A wire for the fetch in a slot. -/
def answer (i : ℕ) (raw : Bytes) : SvsPubSub :=
  match self.phase with
  | .fetch f =>
    match f.slots[i]? with
    | some (.waiting a) =>
      { self with phase := .fetch { f with slots := f.slots.set i (.answered a raw) } }
    | _ => self
  | _ => self

def findUnder (store : List (Name × Bytes)) (pre : Name) : Option Bytes :=
  let under := store.filter fun x => x.1.hasPrefix pre
  (under.foldl (fun (best : Option (Name × Bytes)) x =>
    match best with
    | some b => if Name.cmp x.1 b.1 = .lt then some x else some b
    | none => some x) none).map Prod.snd

/-- A data Interest, answered from the store. -/
def serve (interest : Interest) : SvsPubSub :=
  let served := (self.store.lookup interest.name).or
    (if interest.selectors.canBePrefix then findUnder self.store interest.name else none)
  match served with
  | some wire => { self with out := self.out ++ [.data wire] }
  | none => self

/-- `spawn_demux`, on one packet: Data go to the fetch that waits for them, Sync Interests to the
core, and data Interests are served. -/
def demuxPacket (raw : Bytes) : SvsPubSub :=
  match raw.head? with
  | some 0x06 =>
    match Data.decode raw with
    | .ok data =>
      match waiterFor self.pending data.name with
      | some (key, (_, i)) => answer { self with pending := Assoc.erase key self.pending } i raw
      | none => self
    | .error _ => self
  | some 0x05 =>
    match Interest.decode raw with
    | .error _ => self
    | .ok interest =>
      if interest.name.hasPrefix cfg.group ∧
          (interest.name[cfg.group.length]?).bind NameComponent.asVersion = some 2 then
        { self with out := self.out ++ [.toCore raw] }
      else if cfg.serveAllStored ∨ interest.name.hasPrefix (cfg.node ++ cfg.group) then
        self.serve interest
      else self
  | _ => self

def demux : SvsPubSub :=
  match self.svsIn with
  | [] => self
  | raw :: rest => demuxPacket cfg { self with svsIn := rest } raw

/-! ### The dispatcher -/

/-- An attempt begins: the waiter is registered and the Interest sent. -/
def express (name : Name × Bool) (i : ℕ) : SvsPubSub :=
  { self with
    pending := Assoc.insert name.1 (name.2, i) self.pending
    out := self.out ++ [.interest name.1 name.2] }

def goOn (t : Target) : SvsPubSub := { self with phase := .next t.next }

/-- The name is known: the publication is fetched if somebody is interested. -/
def fetchIfInterested (t : Target) (appName : Name) : SvsPubSub :=
  let interested := (self.subs.filter fun x => appName.hasPrefix x.1).map Prod.snd
  if interested = [] then self.goOn t
  else
    let f : Fetching := ⟨t, appName, interested, [.waiting 0], none⟩
    { self.express (f.slotName cfg.group 0) 0 with phase := .fetch f }

/-- `resolve_via_query`, up to its wait. -/
def startQuery (t : Target) : SvsPubSub :=
  let qname := MappingProvider.queryName t.publisher cfg.group t.seq t.seq
  { self with
    queryPending := qname :: self.queryPending.erase qname
    out := self.out ++ [.interest qname false]
    phase := .query t none }

/-- `resolve_via_query`, after its wait. -/
def endQuery (t : Target) (reply : Option Bytes) : SvsPubSub :=
  let qname := MappingProvider.queryName t.publisher cfg.group t.seq t.seq
  let self := { self with queryPending := self.queryPending.erase qname }
  let list := do
    let data ← (Data.decode (← reply)).toOption
    MappingList.decode (← data.content)
  match list with
  | none => self.goOn t
  | some list =>
    let self := { self with mappings := self.mappings.ingest list }
    match self.mappings.lookup (t.publisher, t.seq) with
    | some appName => self.fetchIfInterested cfg t appName
    | none => self.goOn t

/-- The publication is assembled and sent to all who were interested. -/
def deliver (wires : List Bytes) : SvsPubSub :=
  match h : assemble wires with
  | none => self.goOn f.target
  | some payload =>
    goOn
      { self with
        delivered := self.delivered ++
          f.interested.map fun id => ⟨id, ⟨f.appName, payload⟩, wires, h⟩ } f.target

/-- `fetch_publication`, after the first Data. -/
def afterFirst (wire : Bytes) : SvsPubSub :=
  match Data.decode wire with
  | .error _ => self.goOn f.target
  | .ok first =>
    match finalBlockSegmentClamped first with
    | none => self.deliver f [wire]
    | some last =>
      if last + 1 ≤ 1 then self.deliver f [wire]
      else { self with phase := .fetch { f with segCount := some (last + 1) } }

/-- `windowed_fetch`: one more segment while the window has room, and the results when all are
there. -/
def windowedFetch (segCount : ℕ) : SvsPubSub :=
  if f.slots.length < segCount then
    if (f.slots.filter fun a => a.result.isNone).length < max cfg.fetchWindow 1 then
      { self.express (f.slotName cfg.group f.slots.length) f.slots.length with
        phase := .fetch { f with slots := f.slots ++ [.waiting 0] } }
    else self
  else
    match f.slots.mapM Attempt.result with
    | none => self
    | some results =>
      match results.mapM id with
      | some wires => self.deliver f wires
      | none => self.goOn f.target

/-- A turn of `fetch_publication`. -/
def advanceFetch : SvsPubSub :=
  match f.segCount with
  | some segCount => self.windowedFetch cfg f segCount
  | none =>
    match f.slots with
    | [.done (some wire)] => self.afterFirst f wire
    | [.done none] => self.goOn f.target
    | _ => self

/-- The dispatcher takes an update: its mapping is merged first. -/
def takeUpdate (u : SyncUpdate) : SvsPubSub :=
  match Name.fromStr u.publisher with
  | .error _ => self
  | .ok publisher =>
    { self with
      mappings := ((u.mapping.bind MappingList.decode).map self.mappings.ingest).getD self.mappings
      phase := .next ⟨publisher, u.lowSeq, u.highSeq⟩ }

/-- A turn of the dispatcher. -/
def advance : SvsPubSub :=
  match self.phase with
  | .idle =>
    match self.updates with
    | [] => self
    | u :: rest => takeUpdate { self with updates := rest } u
  | .next t =>
    if t.seq ≤ t.high then
      match self.mappings.lookup (t.publisher, t.seq) with
      | some appName => self.fetchIfInterested cfg t appName
      | none => self.startQuery cfg t
    else { self with phase := .idle }
  | .query t (some reply) => self.endQuery cfg t (some reply)
  | .query _ none => self
  | .fetch f => self.advanceFetch cfg f

/-! ### The fetches -/

/-- The fetch in a slot goes on: it takes its answer, or begins the next attempt. -/
def wake (i : ℕ) : SvsPubSub :=
  match self.phase with
  | .fetch f =>
    let name := f.slotName cfg.group i
    match f.slots[i]? with
    | some (.answered _ wire) =>
      { self with
        pending := Assoc.erase name.1 self.pending
        phase := .fetch { f with slots := f.slots.set i (.done (some wire)) } }
    | some (.sleeping a) =>
      { self.express name i with phase := .fetch { f with slots := f.slots.set i (.waiting a) } }
    | _ => self
  | _ => self

/-- After an attempt without a result. -/
def Attempt.afterTimeout (maxRetries attempt : ℕ) : Attempt :=
  if attempt < maxRetries then .sleeping (attempt + 1) else .done none

/-- The attempt in a slot times out, perhaps with an answer that came too late. -/
def timeout (i : ℕ) : SvsPubSub :=
  match self.phase with
  | .fetch f =>
    let giveUp := fun a =>
      { self with
        pending := Assoc.erase (f.slotName cfg.group i).1 self.pending
        phase := .fetch { f with
          slots := f.slots.set i (.afterTimeout cfg.maxRetries a) } }
    match f.slots[i]? with
    | some (.waiting a) => giveUp a
    | some (.answered a _) => giveUp a
    | _ => self
  | _ => self

/-- The mapping query times out. -/
def queryTimeout : SvsPubSub :=
  match self.phase with
  | .query t _ => self.endQuery cfg t none
  | _ => self

/-! ### All tasks -/

/-- A turn of one of the tasks, or a call of the application. A publication comes with its Data, as
the publisher stores them. -/
inductive Event where
  | receive (raw : Bytes)
  | demux
  | update (u : SyncUpdate)
  | subscribe (pre : Name) (subscriber : ℕ)
  | publish (seq : ℕ) (appName : Name) (stored : List (Name × Bytes))
  | advance
  | wake (i : ℕ)
  | timeout (i : ℕ)
  | queryTimeout

def step : Event → SvsPubSub
  | .receive raw => if self.interposing then self.interpose cfg raw else self
  | .demux => self.demux cfg
  | .update u => { self with updates := self.updates ++ [u] }
  | .subscribe pre subscriber => { self with subs := self.subs ++ [(pre, subscriber)] }
  | .publish seq appName stored =>
    { self with
      mappings := Assoc.insert (cfg.node, seq) appName self.mappings
      store := stored.foldl (fun store x => Assoc.insert x.1 x.2 store) self.store }
  | .advance => self.advance cfg
  | .wake i => self.wake cfg i
  | .timeout i => self.timeout cfg i
  | .queryTimeout => self.queryTimeout cfg

/-- The packet, if it is a Data that a pending fetch waits for. -/
def awaited (raw : Bytes) : Option Bytes :=
  if raw.head? = some 0x06 then
    match Data.decode raw with
    | .ok data => (waiterFor self.pending data.name).map fun _ => raw
    | .error _ => none
  else none

/-- The Data wire that a turn hands to a pending fetch. -/
def handed : Event → Option Bytes
  | .demux => self.svsIn.head?.bind self.awaited
  | _ => none

/-! ## Where delivered wires come from -/

/-- From one state to another no wires come into hand but one that was handed in, and what is newly
delivered was made of wires in hand. -/
structure Keeps (new : Option Bytes) (s s' : SvsPubSub) : Prop where
  wires : ∀ w ∈ s'.phase.wires, w ∈ s.phase.wires ∨ new = some w
  delivered : ∀ d ∈ s'.delivered, d ∈ s.delivered ∨ ∀ w ∈ d.wires, w ∈ s.phase.wires

section Keeps

variable {cfg : Config} {self s s' : SvsPubSub} {new : Option Bytes} {f : Fetching}

lemma Keeps.of_wires (hwir : ∀ w ∈ s'.phase.wires, w ∈ s.phase.wires)
    (hdlv : s'.delivered = s.delivered) : Keeps new s s' where
  wires w hw := .inl (hwir w hw)
  delivered d hd := by
    rw [hdlv] at hd
    exact .inl hd

lemma Keeps.of_eq (hphs : s'.phase = s.phase) (hdlv : s'.delivered = s.delivered) :
    Keeps new s s' := by
  refine .of_wires (fun w hw => ?_) hdlv
  rwa [hphs] at hw

lemma Keeps.of_nil (hphs : s'.phase.wires = []) (hdlv : s'.delivered = s.delivered) :
    Keeps new s s' := by
  refine .of_wires (fun w hw => ?_) hdlv
  rw [hphs] at hw
  cases hw

lemma Keeps.of_same {t : SvsPubSub} (h : Keeps new t s') (hphs : t.phase = s.phase)
    (hdlv : t.delivered = s.delivered) : Keeps new s s' := by
  obtain ⟨hwir, hdel⟩ := h
  rw [hphs] at hwir hdel
  rw [hdlv] at hdel
  exact ⟨hwir, hdel⟩

lemma Keeps.set {i : ℕ} {a : Attempt} (hs : s.phase = .fetch f)
    (hphs : s'.phase = .fetch { f with slots := f.slots.set i a })
    (hdlv : s'.delivered = s.delivered)
    (ha : ∀ w, a.wire = some w → w ∈ s.phase.wires ∨ new = some w) : Keeps new s s' where
  wires w hw := by
    rw [hphs, Phase.wires, mem_filterMap] at hw
    obtain ⟨b, hb, hw⟩ := hw
    rcases mem_or_eq_of_mem_set hb with hb | rfl
    · rw [hs, Phase.wires]
      exact .inl (mem_filterMap.mpr ⟨b, hb, hw⟩)
    · exact ha w hw
  delivered d hd := by
    rw [hdlv] at hd
    exact .inl hd

lemma keeps_goOn (self : SvsPubSub) (t : Target) : Keeps new self (self.goOn t) :=
  .of_nil rfl rfl

lemma keeps_fetchIfInterested (self : SvsPubSub) (t : Target) (appName : Name) :
    Keeps new self (self.fetchIfInterested cfg t appName) := by
  rw [fetchIfInterested]
  split_ifs
  · exact keeps_goOn self t
  · exact .of_nil rfl rfl

lemma keeps_endQuery (self : SvsPubSub) (t : Target) (reply : Option Bytes) :
    Keeps new self (self.endQuery cfg t reply) := by
  rw [endQuery]
  simp only
  split
  · exact .of_nil rfl rfl
  · split
    · exact (keeps_fetchIfInterested _ t _).of_same rfl rfl
    · exact .of_nil rfl rfl

variable {wires : List Bytes}

lemma keeps_deliver (hwir : ∀ w ∈ wires, w ∈ self.phase.wires) :
    Keeps new self (self.deliver f wires) := by
  rw [deliver]
  split
  · exact keeps_goOn self f.target
  · refine ⟨nofun, fun d hd => ?_⟩
    rcases mem_append.mp hd with hd | hd
    · exact .inl hd
    · obtain ⟨id, -, rfl⟩ := mem_map.mp hd
      exact .inr hwir

lemma keeps_afterFirst {wire : Bytes} (hself : self.phase = .fetch f)
    (hslot : f.slots = [.done (some wire)]) : Keeps new self (self.afterFirst f wire) := by
  have hwire : ∀ w ∈ [wire], w ∈ self.phase.wires := by
    intro w hw
    rw [hself, Phase.wires, hslot]
    exact hw
  rw [afterFirst]
  split
  · exact keeps_goOn self f.target
  split
  · exact keeps_deliver hwire
  · split_ifs
    · exact keeps_deliver hwire
    · refine .of_wires (fun w hw => ?_) rfl
      rw [hself]
      exact hw

lemma mem_wires_of_results {slots : List Attempt} {results : List (Option Bytes)}
    (hres : slots.mapM Attempt.result = some results) (hwir : results.mapM id = some wires)
    {w : Bytes} (hw : w ∈ wires) : w ∈ slots.filterMap Attempt.wire := by
  induction slots generalizing results wires with
  | nil =>
    cases hres
    cases hwir
    cases hw
  | cons a slots ih =>
    rw [mapM_cons] at hres
    simp only [Option.bind_eq_bind, Option.bind_eq_some_iff] at hres
    obtain ⟨r, hr, rs, hrs, hres⟩ := hres
    cases hres
    rw [mapM_cons] at hwir
    simp only [Option.bind_eq_bind, Option.bind_eq_some_iff] at hwir
    obtain ⟨x, hx, xs, hxs, hwir⟩ := hwir
    cases hwir
    rcases mem_cons.mp hw with rfl | hw
    · have ha : a.wire = some w := by
        cases a with
        | done result =>
          cases hr
          exact hx
        | _ => cases hr
      exact mem_filterMap.mpr ⟨a, mem_cons_self .., ha⟩
    · obtain ⟨b, hb, hbw⟩ := mem_filterMap.mp (ih hrs hxs hw)
      exact mem_filterMap.mpr ⟨b, mem_cons_of_mem _ hb, hbw⟩

lemma keeps_windowedFetch (hself : self.phase = .fetch f) (segCount : ℕ) :
    Keeps new self (self.windowedFetch cfg f segCount) := by
  rw [windowedFetch]
  split_ifs
  · refine .of_wires (fun w hw => ?_) rfl
    rw [hself]
    simpa [Phase.wires, Attempt.wire] using hw
  · exact .of_eq rfl rfl
  split
  · exact .of_eq rfl rfl
  · next results hres =>
    split
    · next wires hwir =>
      refine keeps_deliver fun w hw => ?_
      rw [hself]
      exact mem_wires_of_results hres hwir hw
    · exact keeps_goOn self f.target

lemma keeps_advance (self : SvsPubSub) : Keeps new self (self.advance cfg) := by
  rw [advance]
  cases hphs : self.phase with
  | idle =>
    cases self.updates with
    | nil => exact .of_eq rfl rfl
    | cons u rest =>
      simp only [takeUpdate]
      split
      all_goals exact .of_nil rfl rfl
  | next t =>
    simp only
    split_ifs
    · split
      · exact keeps_fetchIfInterested self t _
      · exact .of_nil rfl rfl
    · exact .of_nil rfl rfl
  | query t reply =>
    cases reply with
    | none => exact .of_eq rfl rfl
    | some reply => exact keeps_endQuery self t (some reply)
  | fetch f =>
    simp only [advanceFetch]
    split
    · exact keeps_windowedFetch hphs _
    · split
      · next wire hslot => exact keeps_afterFirst hphs hslot
      · exact keeps_goOn self f.target
      · exact .of_eq rfl rfl

lemma keeps_wake (self : SvsPubSub) (i : ℕ) : Keeps new self (self.wake cfg i) := by
  rw [wake]
  cases hphs : self.phase with
  | fetch f =>
    simp only
    split
    · next a wire hslot =>
      refine .set hphs rfl rfl fun w hw => .inl ?_
      cases hw
      rw [hphs]
      exact mem_filterMap.mpr ⟨_, mem_of_getElem? hslot, rfl⟩
    · exact .set hphs rfl rfl nofun
    · exact .of_eq rfl rfl
  | _ => exact .of_eq rfl rfl

lemma Attempt.wire_afterTimeout (maxRetries attempt : ℕ) :
    (Attempt.afterTimeout maxRetries attempt).wire = none := by
  rw [afterTimeout]
  split_ifs <;> rfl

section

variable (self : SvsPubSub)

lemma keeps_timeout (i : ℕ) : Keeps new self (self.timeout cfg i) := by
  have hnone : ∀ a w, (Attempt.afterTimeout cfg.maxRetries a).wire = some w →
      w ∈ self.phase.wires ∨ new = some w := by
    intro a w hw
    rw [Attempt.wire_afterTimeout] at hw
    cases hw
  rw [timeout]
  cases hphs : self.phase with
  | fetch f =>
    rw [hphs] at hnone
    simp only
    split
    · exact .set hphs rfl rfl (hphs ▸ hnone _)
    · exact .set hphs rfl rfl (hphs ▸ hnone _)
    · exact .of_eq rfl rfl
  | _ => exact .of_eq rfl rfl

lemma keeps_answer (i : ℕ) (raw : Bytes) : Keeps (some raw) self (self.answer i raw) := by
  rw [answer]
  cases hphs : self.phase with
  | fetch f =>
    simp only
    split
    · refine .set hphs rfl rfl fun w hw => .inr ?_
      exact hw
    · exact .of_eq rfl rfl
  | _ => exact .of_eq rfl rfl

lemma keeps_interpose (raw : Bytes) : Keeps new self (self.interpose cfg raw) := by
  rw [interpose]
  simp only
  split
  · split
    · exact .of_eq rfl rfl
    · split_ifs
      · split
        · split <;> exact .of_eq rfl rfl
        · exact .of_eq rfl rfl
      · exact .of_eq rfl rfl
  · split
    · split_ifs
      · split
        · exact .of_nil rfl rfl
        · exact .of_eq rfl rfl
      · exact .of_eq rfl rfl
    · exact .of_eq rfl rfl
  · exact .of_eq rfl rfl

lemma keeps_serve (interest : Interest) : Keeps new self (self.serve interest) := by
  rw [serve]
  split <;> exact .of_eq rfl rfl

lemma keeps_demuxPacket (raw : Bytes) :
    Keeps (self.awaited raw) self (self.demuxPacket cfg raw) := by
  rw [demuxPacket]
  split
  · next hhead =>
    rw [awaited, if_pos hhead]
    cases Data.decode raw with
    | error e => exact .of_eq rfl rfl
    | ok data =>
      simp only
      cases waiterFor self.pending data.name with
      | none => exact .of_eq rfl rfl
      | some waiter => exact (keeps_answer _ waiter.2.2 raw).of_same rfl rfl
  · split
    · exact .of_eq rfl rfl
    · split_ifs
      · exact .of_eq rfl rfl
      · exact keeps_serve self _
      · exact .of_eq rfl rfl
  · exact .of_eq rfl rfl

lemma keeps_demux : Keeps (self.handed .demux) self (self.demux cfg) := by
  rw [handed, demux]
  cases self.svsIn with
  | nil => exact .of_eq rfl rfl
  | cons raw rest =>
    exact (keeps_demuxPacket { self with svsIn := rest } raw).of_same rfl rfl

end

/-- **What a turn does.** No wire comes into hand but the one that the turn hands to a fetch, and a
publication that is delivered is made of wires in hand. -/
theorem step_keeps (cfg : Config) (s : SvsPubSub) (e : Event) :
    Keeps (s.handed e) s (s.step cfg e) := by
  cases e with
  | receive raw =>
    rw [step]
    split_ifs
    · exact keeps_interpose s raw
    · exact .of_eq rfl rfl
  | demux => exact keeps_demux s
  | update u => exact .of_eq rfl rfl
  | subscribe pre subscriber => exact .of_eq rfl rfl
  | publish seq appName stored => exact .of_eq rfl rfl
  | advance => exact keeps_advance s
  | wake i => exact keeps_wake s i
  | timeout i => exact keeps_timeout s i
  | queryTimeout =>
    show Keeps _ s (s.queryTimeout cfg)
    rw [queryTimeout]
    split
    · exact keeps_endQuery s _ none
    · exact .of_eq rfl rfl

end Keeps

/-! ## What is delivered -/

/-- All wires in hand, and all that delivered publications are made of, have a property. -/
structure Holds (p : Bytes → Prop) (s : SvsPubSub) : Prop where
  wires : ∀ w ∈ s.phase.wires, p w
  delivered : ∀ d ∈ s.delivered, ∀ w ∈ d.wires, p w

variable {s : SvsPubSub}

lemma Holds.step {p : Bytes → Prop} {s' : SvsPubSub} {new : Option Bytes} (h : Holds p s)
    (hkeep : Keeps new s s') (hnew : ∀ w, new = some w → p w) : Holds p s' where
  wires w hw := by
    rcases hkeep.wires w hw with hw | hw
    · exact h.wires w hw
    · exact hnew w hw
  delivered d hd w hw := by
    rcases hkeep.delivered d hd with hd | hd
    · exact h.delivered d hd w hw
    · exact h.wires w (hd w hw)

/-- **Where delivered wires come from.** In every run, what holds of every wire that is handed to a
pending fetch holds of every wire that a delivered publication is made of. -/
theorem delivered_of_handed (p : Bytes → Prop)
    (h : Run.Reach (step cfg) (fun s e => ∀ w ∈ s.handed e, p w) joinSecured s) :
    ∀ d ∈ s.delivered, ∀ w ∈ d.wires, p w := by
  have hinv : Holds p s := by
    refine h.invariant (Holds p) ⟨nofun, nofun⟩ ?_
    intro s e hs hgrd
    exact hs.step (step_keeps cfg s e) hgrd
  exact hinv.delivered

/-! ## The validator -/

/-- **What is delivered.** In every run in which the validator accepts each Data wire that answers a
pending fetch, no subscriber gets a publication made of a wire that it rejects. -/
theorem delivered_accepted (cfg : Config) {s : SvsPubSub}
    (h : Run.Reach (step cfg) (fun s e => ∀ w ∈ s.handed e, cfg.accepts w = true) joinSecured s) :
    ∀ d ∈ s.delivered, ∀ w ∈ d.wires, cfg.accepts w = true :=
  delivered_of_handed cfg (fun w => cfg.accepts w = true) h

/-- A node of the group `/g` with a validator. -/
def sampleConfig (validator : Bytes → Bool) : Config :=
  ⟨[.ofText "n"], [.ofText "g"], some validator, 3, 10, false⟩

/-- The Data `/p/g/%01`, with the Data `/a` in it. -/
def sampleWire : Bytes :=
  [0x06, 0x17, 0x07, 0x09, 0x08, 0x01, 0x70, 0x08, 0x01, 0x67, 0x08, 0x01, 0x01, 0x15, 0x0A, 0x06,
    0x08, 0x07, 0x03, 0x08, 0x01, 0x61, 0x15, 0x01, 0x2A]

/-- The mapping of the first publication of `/p` to `/a`. -/
def sampleMapping : Bytes :=
  [0xCD, 0x0F, 0x07, 0x03, 0x08, 0x01, 0x70, 0xCE, 0x08, 0xCC, 0x01, 0x01, 0x07, 0x03, 0x08, 0x01,
    0x61]

/-- Subscriber 7 waits for `/a`; `/p` has published; the fetch is answered. -/
def sampleRun : List Event :=
  [.subscribe [.ofText "a"] 7, .update ⟨"/p".toList, 1, 1, some sampleMapping⟩, .advance, .advance,
    .receive sampleWire, .demux, .wake 0, .advance]

/-- A validator that accepts this one wire. -/
theorem delivered_accepted_sample :
    ((sampleRun.foldl (step (sampleConfig (· = sampleWire))) joinSecured).delivered.map
      fun d => (d.subscriber, d.wires)) = [(7, [sampleWire])] ∧
    ∀ d ∈ (sampleRun.foldl (step (sampleConfig (· = sampleWire))) joinSecured).delivered,
      ∀ w ∈ d.wires, (sampleConfig (· = sampleWire)).accepts w = true := by
  refine ⟨by decide, delivered_accepted _ (Run.Reach.refl.foldl ?_)⟩
  exact ⟨by decide, by decide, by decide, by decide, by decide, by decide, by decide, by decide,
    trivial⟩

/-- A validator that rejects everything: the publication is delivered all the same. -/
theorem rejected_delivered :
    ((sampleRun.foldl (step (sampleConfig fun _ => false)) joinSecured).delivered.map
      fun d => (d.subscriber, d.publication, d.wires)) =
      [(7, ⟨[.ofText "a"], [0x2A]⟩, [sampleWire])] ∧
    (sampleConfig fun _ => false).accepts sampleWire = false := by
  decide

end SvsPubSub

end NdnRs
