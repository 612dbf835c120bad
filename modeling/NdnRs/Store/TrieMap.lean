import NdnRs.Lib.Trie
import NdnRs.Wire.Name

/-!
# The name trie as a finite map (`ndn-store/src/trie.rs`)

A removal leaves the nodes on its way behind, without an entry.

## Main results

* `trie_refines_map` — a trie answers as the map.
-/

namespace NdnRs

open List Option Trie

/-- What changes a trie; `update` hands the entry to a function. -/
inductive TrieOp (V : Type*) where
  | insert (name : Name) (value : V)
  | update (name : Name) (f : Option V → Option V)
  | remove (name : Name)

namespace TrieOp

variable {V : Type*} {t : Trie NameComponent V}

def name : TrieOp V → Name
  | .insert name _ | .update name _ | .remove name => name

/-- The new entry of the operation's name. -/
def entry : TrieOp V → Option V → Option V
  | .insert _ value, _ => some value
  | .update _ f, old => f old
  | .remove _, _ => none

def apply (t : Trie NameComponent V) : TrieOp V → Trie NameComponent V
  | .insert name value => t.insert name value
  | .update name f => t.update name f
  | .remove name => t.remove name

/-- The operation on a map from names. -/
def applyMap (m : Name → Option V) (op : TrieOp V) : Name → Option V :=
  Function.update m op.name (op.entry (m op.name))

lemma get_apply (t : Trie NameComponent V) (op : TrieOp V) (name : Name) :
    (apply t op).get name = if name = op.name then op.entry (t.get op.name) else t.get name := by
  cases op with
  | insert => exact get_insert ..
  | update => exact get_update ..
  | remove => exact get_remove ..

lemma wf_apply (h : t.Wf) (op : TrieOp V) : (apply t op).Wf := by
  cases op with
  | insert name value => exact h.insert name value
  | update name f => exact h.update name f
  | remove name => exact h.remove name

/-- The trie and the map of the operations agree. -/
lemma agree_run (ops : List (TrieOp V)) {m : Name → Option V}
    (hwf : t.Wf) (h : ∀ name, t.get name = m name) :
    (ops.foldl apply t).Wf ∧ ∀ name, (ops.foldl apply t).get name = ops.foldl applyMap m name := by
  induction ops generalizing t m with
  | nil => exact ⟨hwf, h⟩
  | cons op ops ih =>
    refine ih (wf_apply hwf op) fun name => ?_
    rw [get_apply, applyMap, Function.update_apply, h, h]

/-- **A trie is a finite map.** After any operations a lookup returns the current value, the longest
match is that among the names with a value, the dump has each name with its value once, and the
descendants of a prefix are the values of the names that start with it. -/
theorem trie_refines_map (ops : List (TrieOp V)) :
    let t := ops.foldl apply (.empty : Trie NameComponent V)
    let m := ops.foldl applyMap fun _ => none
    (∀ name, t.get name = m name) ∧
    (∀ name v, t.lpm name = some v ↔ ∃ pre, LongestMatch m name pre v) ∧
    ((t.dump.map Prod.fst).Nodup ∧ ∀ name v, (name, v) ∈ t.dump ↔ m name = some v) ∧
    ∀ pre, (t.descendants pre).Perm ((t.dump.filter fun x => pre <+: x.1).map Prod.snd) := by
  intro t m
  obtain ⟨hwf, hget⟩ := agree_run ops (wf_empty (K := NameComponent) (V := V))
    (m := fun _ => none) fun name => get_empty name
  have hmap : (fun name => t.get name) = m := funext hget
  refine ⟨hget, fun name v => ?_, ⟨nodup_dump hwf, fun name v => ?_⟩, descendants_perm hwf⟩
  · rcases lpm_spec name t with ⟨hnone, hall⟩ | ⟨pre, v', hsome, hlong⟩
    · rw [hnone]
      refine iff_of_false nofun ?_
      rintro ⟨pre, hlong⟩
      cases (hall pre hlong.covers).symm.trans ((hget pre).trans hlong.value)
    · rw [hmap] at hlong
      rw [hsome, some.injEq]
      constructor
      · rintro rfl
        exact ⟨pre, hlong⟩
      · rintro ⟨pre', hlong'⟩
        exact (hlong.unique hlong').2.symm
  · rw [mem_dump_iff hwf, hget]

end TrieOp

end NdnRs
