import NdnRs.Security.Lvs

/-!
# Trust schemas (`ndn-security/src/trust_schema.rs`)

A trust schema says which key names may sign which Data names. Native rules and an imported
LightVerSec model are alternatives.
-/

namespace NdnRs

/-- One position of a pattern. -/
inductive PatternComponent where
  | literal (c : NameComponent)
  | capture (var : String)
  | multiCapture (var : String)
  deriving DecidableEq

abbrev NamePattern := List PatternComponent

abbrev PatternBindings := String → Option NameComponent

namespace NamePattern

/-- `NamePattern::matches` on the part of the name not consumed yet: the extended bindings of a
successful match. -/
def matchFrom : NamePattern → Name → PatternBindings → Option PatternBindings
  | [], [], bindings => some bindings
  | [], _ :: _, _ => none
  | .literal _ :: _, [], _ => none
  | .literal c :: pat, comp :: name, bindings =>
    if comp = c then matchFrom pat name bindings else none
  | .capture _ :: _, [], _ => none
  | .capture var :: pat, comp :: name, bindings =>
    match bindings var with
    | some existing => if existing = comp then matchFrom pat name bindings else none
    | none => matchFrom pat name (Function.update bindings var (some comp))
  | .multiCapture _ :: pat, _, bindings => matchFrom pat [] bindings

end NamePattern

/-- Data matching `dataPattern` must be signed by a key matching `keyPattern`; captured variables
must agree across both. -/
structure SchemaRule where
  dataPattern : NamePattern
  keyPattern : NamePattern
  deriving DecidableEq

def SchemaRule.check (rule : SchemaRule) (dataName keyName : Name) : Bool :=
  match rule.dataPattern.matchFrom dataName (fun _ => none) with
  | none => false
  | some bindings => (rule.keyPattern.matchFrom keyName bindings).isSome

structure TrustSchema where
  rules : List SchemaRule
  lvs : Option LvsModel
  userFns : UserFnRegistry

namespace TrustSchema

/-- `TrustSchema::new`: rejects everything. -/
def new : TrustSchema := ⟨[], none, .new⟩

def addRule (schema : TrustSchema) (rule : SchemaRule) : TrustSchema :=
  { schema with rules := schema.rules ++ [rule] }

/-- `TrustSchema::allows`: native rules first, then the LVS model. -/
def allows (schema : TrustSchema) (dataName keyName : Name) : Bool :=
  if schema.rules.any (·.check dataName keyName) then true
  else
    match schema.lvs with
    | some lvs => lvs.checkWith dataName keyName schema.userFns
    | none => false

def acceptAll : TrustSchema :=
  new.addRule ⟨[.multiCapture "_"], [.multiCapture "_"]⟩

/-- `TrustSchema::hierarchical`: data and key must share a top component. -/
def hierarchical : TrustSchema :=
  new.addRule ⟨[.capture "org", .multiCapture "_data"], [.capture "org", .multiCapture "_key"]⟩

@[simp] lemma acceptAll_allows (dataName keyName : Name) : acceptAll.allows dataName keyName := by
  simp [acceptAll, allows, addRule, new, SchemaRule.check, NamePattern.matchFrom]

end TrustSchema

end NdnRs
