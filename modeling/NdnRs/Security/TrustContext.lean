import Mathlib.Data.List.TakeWhile
import NdnRs.Security.Certificate
import NdnRs.Security.TrustSchema

/-!
# Trust contexts and the keyring (`ndn-security/src/trust_context/mod.rs`, `keyring.rs`)

A context owns the anchors and the schema of its namespace. A keyring holds one context per adopted
namespace and an ambient one for all other names.

## Implementation notes

The contexts' map is a list without repeated namespaces; its order stands for the iteration order
of the map, which the code leaves open.

## Main results

* `floored_iff` — when an identity keeps its floor.
-/

namespace NdnRs

open List Function

/-- One anchor-rooted namespace relationship. Anchors are stored under their own names. -/
structure SignedTrustContext where
  ns : Name
  anchors : Name → Option Certificate
  schema : TrustSchema
  enforceHierarchy : Bool
  version : ℕ
  revocations : List Name
  anchors_name : ∀ name cert, anchors name = some cert → cert.name = name

/-- `key_identity`: the components before the first `KEY` component, of whatever type. -/
def keyIdentity (keyName : Name) : Name :=
  keyName.takeWhile fun c => c.value != Str.bytes "KEY".toList

namespace SignedTrustContext

def base (ns : Name) (schema : TrustSchema) (enforceHierarchy : Bool) : SignedTrustContext :=
  ⟨ns, fun _ => none, schema, enforceHierarchy, 0, [], by simp⟩

/-- `SignedTrustContext::hierarchical`: the default. -/
def hierarchical (ns : Name) : SignedTrustContext :=
  base ns TrustSchema.hierarchical true

/-- `SignedTrustContext::ambient` before any anchor is added. -/
def ambient (schema : TrustSchema) : SignedTrustContext :=
  base [] schema false

variable (self : SignedTrustContext)

/-- `anchors.insert(cert.name, cert)`. -/
def insertAnchor (cert : Certificate) : SignedTrustContext :=
  { self with
    anchors := update self.anchors cert.name (some cert)
    anchors_name := by
      intro name cert' h
      by_cases hname : name = cert.name
      · subst hname
        rw [update_self, Option.some.injEq] at h
        rw [← h]
      · rw [update_of_ne hname] at h
        exact self.anchors_name name cert' h }

@[simp] lemma anchors_insertAnchor (cert : Certificate) :
    (self.insertAnchor cert).anchors = update self.anchors cert.name (some cert) := rfl

/-- `SignedTrustContext::add_anchor`: refuses a certificate that is not valid now. -/
def addAnchor (nowNs : ℕ) (cert : Certificate) : SignedTrustContext :=
  if cert.isValidAt nowNs then self.insertAnchor cert else self

def isRevoked (name : Name) : Bool :=
  self.revocations.any (· == name)

/-- `SignedTrustContext::authorizes`: the hierarchy floor, when enabled, and the schema. -/
def authorizes (dataName keyName : Name) : Bool :=
  if self.enforceHierarchy && !dataName.hasPrefix (keyIdentity keyName) then false
  else self.schema.allows dataName keyName

variable {self : SignedTrustContext}

/-- **The hierarchy floor.** In a context that enforces it, an authorized key's identity is a prefix
of the name it signs. -/
lemma identity_of_authorizes {dataName keyName : Name} (hflr : self.enforceHierarchy = true)
    (h : self.authorizes dataName keyName = true) : keyIdentity keyName <+: dataName := by
  rw [authorizes, hflr, Bool.true_and] at h
  split at h
  · exact absurd h Bool.false_ne_true
  · rename_i hpre
    exact Name.hasPrefix_iff.1 (by simpa using hpre)

/-- Whatever a key of the identity is authorized to sign lies under the whole identity, in every
context with the hierarchy floor. -/
def Floored (identity : Name) : Prop :=
  ∀ (self : SignedTrustContext) (key : NameComponent) (rest dataName : Name),
    self.enforceHierarchy = true → key.value = Str.bytes "KEY".toList →
    self.authorizes dataName (identity ++ key :: rest) = true → identity <+: dataName

/-- **The hierarchy floor protects an identity** iff none of its components reads `KEY`: the scan
for the marker stops at the first one. -/
theorem floored_iff (identity : Name) :
    Floored identity ↔ ∀ c ∈ identity, c.value ≠ Str.bytes "KEY".toList := by
  constructor
  · intro h c hc hkey
    -- the components before the first `KEY` are a name that the accept-all schema lets it sign
    have hstop : keyIdentity (identity ++ [c]) = keyIdentity identity := by
      simp only [keyIdentity, takeWhile_append, takeWhile_cons, hkey, bne_self_eq_false,
        Bool.false_eq_true, if_false, append_nil, ite_eq_right_iff]
      exact fun hlen => ((List.takeWhile_prefix _).eq_of_length hlen).symm
    have hpre := h (base [] TrustSchema.acceptAll true) c [] (keyIdentity identity) rfl hkey <| by
      simp [authorizes, base, hstop, Name.hasPrefix_iff]
    have hall := takeWhile_eq_self_iff.1 ((List.takeWhile_prefix _).eq_of_length_le hpre.length_le)
    exact bne_iff_ne.1 (hall c hc) hkey
  · intro h self key rest dataName hflr hkey hauth
    have hpre := identity_of_authorizes hflr hauth
    rwa [keyIdentity, takeWhile_append_of_pos (by simpa using h), takeWhile_cons_of_neg
      (by simp [hkey]), append_nil] at hpre

/-- **A key that signs outside its identity**: a key of `/home/KEY/bob` signs as if it were one of
`/home`. -/
theorem signs_outside_identity :
    let identity : Name := [.generic (Str.bytes "home".toList), .generic (Str.bytes "KEY".toList),
      .generic (Str.bytes "bob".toList)]
    let dataName : Name := [.generic (Str.bytes "home".toList), .generic [0x61]]
    (hierarchical []).enforceHierarchy = true ∧
      (hierarchical []).authorizes dataName
        (identity ++ [.generic (Str.bytes "KEY".toList), .generic [1]]) = true ∧
      ¬identity <+: dataName := by
  decide

lemma anchors_addAnchor {nowNs : ℕ} {cert found : Certificate}
    {name : Name} (h : (self.addAnchor nowNs cert).anchors name = some found) :
    found = cert ∨ self.anchors name = some found := by
  rw [addAnchor] at h
  split at h
  · by_cases hname : name = cert.name
    · rw [anchors_insertAnchor, hname, update_self, Option.some.injEq] at h
      exact .inl h.symm
    · rw [anchors_insertAnchor, update_of_ne hname] at h
      exact .inr h
  · exact .inr h

end SignedTrustContext

/-- A node's adopted contexts, at most one per namespace, and the ambient one. -/
structure Keyring where
  contexts : List SignedTrustContext
  ambient : SignedTrustContext
  nodup : (contexts.map (·.ns)).Nodup

namespace Keyring

def withAmbient (ambient : SignedTrustContext) : Keyring := ⟨[], ambient, List.nodup_nil⟩

/-- `Keyring::new`: a hierarchical root context without anchors. -/
def new : Keyring := withAmbient (.hierarchical [])

variable (self : Keyring)

def get? (ns : Name) : Option SignedTrustContext :=
  self.contexts.find? (·.ns == ns)

/-- `contexts.insert(ns, ctx)`. -/
def insert (ctx : SignedTrustContext) : Keyring where
  contexts := ctx :: self.contexts.filter (·.ns != ctx.ns)
  ambient := self.ambient
  nodup := by
    rw [List.map_cons, List.nodup_cons]
    refine ⟨?_, self.nodup.sublist (List.filter_sublist.map _)⟩
    intro hmem
    obtain ⟨other, hother, heq⟩ := List.mem_map.1 hmem
    have hne := (List.mem_filter.1 hother).2
    exact (bne_iff_ne.1 hne) heq

/-- `Keyring::adopt`: a strictly older version is refused. -/
def adopt (ctx : SignedTrustContext) : Keyring :=
  match self.get? ctx.ns with
  | some existing => if ctx.version < existing.version then self else self.insert ctx
  | none => self.insert ctx

/-- One round of the search in `context_for`. -/
def betterMatch (name : Name) (best : Option SignedTrustContext) (ctx : SignedTrustContext) :
    Option SignedTrustContext :=
  if name.hasPrefix ctx.ns &&
      best.all (fun b => decide (b.ns.length < ctx.ns.length)) then some ctx
  else best

def contextFor (name : Name) : SignedTrustContext :=
  (self.contexts.foldl (betterMatch name) none).getD self.ambient

def addAmbientAnchor (nowNs : ℕ) (cert : Certificate) : Keyring :=
  { self with ambient := self.ambient.addAnchor nowNs cert }

end Keyring

end NdnRs
