import NdnRs.Wire.Name

/-!
# LightVerSec models (`ndn-security/src/lvs.rs`, data model and parser)

A LightVerSec trust schema is a graph: names are walked along edges that match their components,
and a node lists the key nodes that may sign for it. The model is imported from a TLV binary.

## Implementation notes

Identifiers are kept as their UTF-8 bytes. The reader of this format is its own: it accepts any
64-bit type number and ignores types it does not know.
-/

namespace NdnRs

open Bytes Tlv List

/-- Errors of LVS parsing (`LvsError`). -/
inductive LvsError where
  | truncated (what : String)
  | lengthMismatch (offset claimed available : ℕ)
  | unsupportedVersion (actual expected : ℕ)
  | nodeIdOutOfRange (nodeId n : ℕ)
  | nodeIdMismatch (idx id : ℕ)
  | malformedConstraintOption
  | badIdentifier
  deriving DecidableEq

/-! ## Type numbers (`type_number`) -/

namespace Lvs.TypeNumber

def componentValue : ℕ := 0x21
def patternTag : ℕ := 0x23
def nodeId : ℕ := 0x25
def userFnId : ℕ := 0x27
def identifier : ℕ := 0x29
def userFnCall : ℕ := 0x31
def fnArgs : ℕ := 0x33
def consOption : ℕ := 0x41
def constraint : ℕ := 0x43
def valueEdge : ℕ := 0x51
def patternEdge : ℕ := 0x53
def keyNodeId : ℕ := 0x55
def parentId : ℕ := 0x57
def version : ℕ := 0x61
def node : ℕ := 0x63
def tagSymbol : ℕ := 0x67
def namedPatternNum : ℕ := 0x69

end Lvs.TypeNumber

/-! ## Data model -/

/-- An argument of a user function. -/
inductive LvsUserFnArg where
  | value (c : NameComponent)
  | tag (t : ℕ)
  deriving DecidableEq

/-- A call of a user function such as `$eq`. -/
structure LvsUserFnCall where
  fnId : Bytes
  args : List LvsUserFnArg
  deriving DecidableEq

/-- One way to satisfy a constraint. -/
inductive LvsConstraintOption where
  | value (c : NameComponent)
  | tag (t : ℕ)
  | userFn (call : LvsUserFnCall)
  deriving DecidableEq

structure LvsConstraint where
  options : List LvsConstraintOption
  deriving DecidableEq

structure LvsValueEdge where
  dest : ℕ
  value : NameComponent
  deriving DecidableEq

/-- An edge that matches any component satisfying its constraints and binds it to a tag. -/
structure LvsPatternEdge where
  dest : ℕ
  tag : ℕ
  constraints : List LvsConstraint
  deriving DecidableEq

/-- A node of the schema graph. -/
structure LvsNode where
  id : ℕ
  parent : Option ℕ
  ruleNames : List Bytes
  valueEdges : List LvsValueEdge
  patternEdges : List LvsPatternEdge
  signConstraints : List ℕ
  deriving DecidableEq

structure LvsModel where
  version : ℕ
  startId : ℕ
  namedPatternCnt : ℕ
  nodes : List LvsNode
  tagSymbols : List (ℕ × Bytes)
  deriving DecidableEq

/-! ## Reading the binary form -/

namespace Lvs

variable (nodes : List LvsNode) (input : Bytes)

/-- `read_tlv` of the LVS parser. -/
def readTlv : Except LvsError ((ℕ × Bytes) × Bytes) :=
  match readVaru64 input with
  | .error _ => .error (.truncated "TLV type")
  | .ok (t, tn) =>
    match readVaru64 (input.drop tn) with
    | .error _ => .error (.truncated "TLV length")
    | .ok (l, ln) =>
      let total := tn + ln + l
      if total ≥ 2 ^ 64 then .error (.truncated "TLV length overflow")
      else if total > input.length then .error (.lengthMismatch 0 total input.length)
      else .ok ((t, (input.drop (tn + ln)).take l), input.drop total)

/-- `parse_name_component`: a whole component with its own type and length. -/
def parseNameComponent (value : Bytes) : Except LvsError NameComponent :=
  match readVaru64 value with
  | .error _ => .error (.truncated "NameComponent type")
  | .ok (t, tn) =>
    match readVaru64 (value.drop tn) with
    | .error _ => .error (.truncated "NameComponent length")
    | .ok (l, ln) =>
      let endPos := tn + ln + l
      if endPos ≥ 2 ^ 64 then .error (.truncated "NameComponent length overflow")
      else if endPos > value.length then .error (.lengthMismatch 0 endPos value.length)
      else .ok ⟨.ofNat t, (value.drop (tn + ln)).take l⟩

def readUint (v : Bytes) : Except LvsError ℕ :=
  if v.length = 1 ∨ v.length = 2 ∨ v.length = 4 ∨ v.length = 8 then .ok (beNat v)
  else .error (.truncated "uint: unexpected length")

def readString (v : Bytes) : Except LvsError Bytes :=
  if Str.validUtf8 v then .ok v else .error .badIdentifier

/-- The loop `while !cursor.is_empty() { let (t, v, rest) = read_tlv(cursor)?; … }` shared by all
decoders of the format. Every element is longer than its fuel. -/
def forEach {σ : Type} (step : σ → ℕ → Bytes → Except LvsError σ) :
    ℕ → σ → Bytes → Except LvsError σ
  | 0, s, _ => .ok s
  | fuel + 1, s, cursor =>
    if cursor.isEmpty then .ok s
    else do
      let ((t, v), rest) ← readTlv cursor
      let s ← step s t v
      forEach step fuel s rest

/-- A field that must have been seen. -/
def require {α : Type} (field : Option α) (what : String) : Except LvsError α :=
  match field with
  | some a => .ok a
  | none => .error (.truncated what)

/-- `LvsUserFnArg::decode`; a value takes precedence over a tag. -/
def decodeUserFnArg : Except LvsError LvsUserFnArg := do
  let (value, tag) ← forEach
    (fun (value, tag) t v =>
      if t = TypeNumber.componentValue then do return (some (← parseNameComponent v), tag)
      else if t = TypeNumber.patternTag then do return (value, some (← readUint v))
      else return (value, tag))
    input.length ((none : Option NameComponent), (none : Option ℕ)) input
  match value, tag with
  | some v, _ => return .value v
  | none, some t => return .tag t
  | none, none => throw (.truncated "UserFnArg empty")

def decodeUserFnCall : Except LvsError LvsUserFnCall := do
  let (fnId, args) ← forEach
    (fun (fnId, args) t v =>
      if t = TypeNumber.userFnId then do return (some (← readString v), args)
      else if t = TypeNumber.fnArgs then do return (fnId, args ++ [← decodeUserFnArg v])
      else return (fnId, args))
    input.length ((none : Option Bytes), ([] : List LvsUserFnArg)) input
  return ⟨← require fnId "UserFnCall missing FnId", args⟩

/-- `LvsConstraintOption::decode`: exactly one of the three kinds. -/
def decodeConstraintOption : Except LvsError LvsConstraintOption := do
  let (value, tag, fnCall) ← forEach
    (fun (value, tag, fnCall) t v =>
      if t = TypeNumber.componentValue then do return (some (← parseNameComponent v), tag, fnCall)
      else if t = TypeNumber.patternTag then do return (value, some (← readUint v), fnCall)
      else if t = TypeNumber.userFnCall then do return (value, tag, some (← decodeUserFnCall v))
      else return (value, tag, fnCall))
    input.length
    ((none : Option NameComponent), (none : Option ℕ), (none : Option LvsUserFnCall)) input
  match value, tag, fnCall with
  | some v, none, none => return .value v
  | none, some t, none => return .tag t
  | none, none, some call => return .userFn call
  | _, _, _ => throw .malformedConstraintOption

def decodeConstraint : Except LvsError LvsConstraint := do
  let options ← forEach
    (fun options t v =>
      if t = TypeNumber.consOption then do return options ++ [← decodeConstraintOption v]
      else return options)
    input.length ([] : List LvsConstraintOption) input
  return ⟨options⟩

def decodePatternEdge : Except LvsError LvsPatternEdge := do
  let (dest, tag, constraints) ← forEach
    (fun (dest, tag, constraints) t v =>
      if t = TypeNumber.nodeId then do return (some (← readUint v), tag, constraints)
      else if t = TypeNumber.patternTag then do return (dest, some (← readUint v), constraints)
      else if t = TypeNumber.constraint then do
        return (dest, tag, constraints ++ [← decodeConstraint v])
      else return (dest, tag, constraints))
    input.length ((none : Option ℕ), (none : Option ℕ), ([] : List LvsConstraint)) input
  return ⟨← require dest "PatternEdge missing dest", ← require tag "PatternEdge missing tag",
    constraints⟩

def decodeValueEdge : Except LvsError LvsValueEdge := do
  let (dest, value) ← forEach
    (fun (dest, value) t v =>
      if t = TypeNumber.nodeId then do return (some (← readUint v), value)
      else if t = TypeNumber.componentValue then do return (dest, some (← parseNameComponent v))
      else return (dest, value))
    input.length ((none : Option ℕ), (none : Option NameComponent)) input
  return ⟨← require dest "ValueEdge missing dest", ← require value "ValueEdge missing value"⟩

def decodeTagSymbol : Except LvsError (ℕ × Bytes) := do
  let (tag, ident) ← forEach
    (fun (tag, ident) t v =>
      if t = TypeNumber.patternTag then do return (some (← readUint v), ident)
      else if t = TypeNumber.identifier then do return (tag, some (← readString v))
      else return (tag, ident))
    input.length ((none : Option ℕ), (none : Option Bytes)) input
  return (← require tag "TagSymbol missing tag", ← require ident "TagSymbol missing ident")

/-- The body of the loop in `LvsNode::decode`. The node id may still be missing. -/
def nodeStep (s : Option ℕ × LvsNode) (t : ℕ) (v : Bytes) : Except LvsError (Option ℕ × LvsNode) :=
  let (id, node) := s
  if t = TypeNumber.nodeId then do return (some (← readUint v), node)
  else if t = TypeNumber.parentId then do return (id, { node with parent := some (← readUint v) })
  else if t = TypeNumber.identifier then do
    return (id, { node with ruleNames := node.ruleNames ++ [← readString v] })
  else if t = TypeNumber.valueEdge then do
    return (id, { node with valueEdges := node.valueEdges ++ [← decodeValueEdge v] })
  else if t = TypeNumber.patternEdge then do
    return (id, { node with patternEdges := node.patternEdges ++ [← decodePatternEdge v] })
  else if t = TypeNumber.keyNodeId then do
    return (id, { node with signConstraints := node.signConstraints ++ [← readUint v] })
  else return (id, node)

def decodeNode : Except LvsError LvsNode := do
  let (id, node) ← forEach nodeStep input.length (none, ⟨0, none, [], [], [], []⟩) input
  return { node with id := ← require id "Node missing NodeId" }

/-- The variables of the loop in `LvsModel::decode`. -/
structure ModelFields where
  version : Option ℕ
  startId : Option ℕ
  namedPatternCnt : Option ℕ
  nodes : List LvsNode
  tagSymbols : List (ℕ × Bytes)

/-- The body of the loop in `LvsModel::decode`. -/
def modelStep (s : ModelFields) (t : ℕ) (v : Bytes) : Except LvsError ModelFields :=
  if t = TypeNumber.version then do return { s with version := some (← readUint v) }
  else if t = TypeNumber.nodeId then do return { s with startId := some (← readUint v) }
  else if t = TypeNumber.namedPatternNum then do
    return { s with namedPatternCnt := some (← readUint v) }
  else if t = TypeNumber.node then do return { s with nodes := s.nodes ++ [← decodeNode v] }
  else if t = TypeNumber.tagSymbol then do
    return { s with tagSymbols := s.tagSymbols ++ [← decodeTagSymbol v] }
  else return s

/-- The first check on the nodes: every node's id equals its index. -/
def checkIds : Except LvsError Unit :=
  match nodes.zipIdx.find? (fun (n, idx) => n.id ≠ idx) with
  | some (n, idx) => .error (.nodeIdMismatch idx n.id)
  | none => .ok ()

/-- The node ids that a node refers to: edge destinations, then key nodes. -/
def references (node : LvsNode) : List ℕ :=
  node.valueEdges.map (·.dest) ++ node.patternEdges.map (·.dest) ++ node.signConstraints

/-- The second check on the nodes: every reference is to an existing node. -/
def checkReferences : Except LvsError Unit :=
  match (nodes.flatMap references).find? (· ≥ nodes.length) with
  | some nodeId => .error (.nodeIdOutOfRange nodeId nodes.length)
  | none => .ok ()

end Lvs

def lvsVersion : ℕ := 0x00011000

open Lvs in
def LvsModel.decode (input : Bytes) : Except LvsError LvsModel := do
  let s ← forEach modelStep input.length ⟨none, none, none, [], []⟩ input
  let version ← require s.version "missing Version"
  Except.ensure (version = lvsVersion) (.unsupportedVersion version lvsVersion)
  let startId ← require s.startId "missing StartId"
  let namedPatternCnt ← require s.namedPatternCnt "missing NamedPatternCnt"
  checkIds s.nodes
  checkReferences s.nodes
  Except.ensure (¬ (startId ≥ s.nodes.length ∧ s.nodes.length > 0))
    (.nodeIdOutOfRange startId s.nodes.length)
  return ⟨version, startId, namedPatternCnt, s.nodes, s.tagSymbols⟩

/-- What the checks at the end of `decode` establish. -/
structure LvsModel.WellFormed (m : LvsModel) : Prop where
  version_eq : m.version = lvsVersion
  ids : ∀ (idx : ℕ) (node : LvsNode), m.nodes[idx]? = some node → node.id = idx
  references : ∀ node ∈ m.nodes, ∀ r ∈ Lvs.references node, r < m.nodes.length
  start : m.nodes ≠ [] → m.startId < m.nodes.length

end NdnRs
