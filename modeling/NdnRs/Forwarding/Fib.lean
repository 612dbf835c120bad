import NdnRs.Lib.Trie
import NdnRs.Wire.Name

/-!
# The forwarding information base (`ndn-engine/src/fib.rs`)

A name trie whose entries list next hops in the order of their costs.
-/

namespace NdnRs

open Trie

abbrev FaceId := ℕ

structure FibNexthop where
  faceId : FaceId
  cost : ℕ
  deriving DecidableEq

structure FibEntry where
  nexthops : List FibNexthop
  deriving DecidableEq

abbrev Fib := Trie NameComponent FibEntry

namespace Fib

def new : Fib := .empty

variable (self : Fib) (pre name : Name) (nexthops : List FibNexthop)

def get : Option FibEntry := Trie.get name self

def lpm : Option FibEntry := Trie.lpm name self

/-- The entry that `add_nexthop` writes: the face's old next hop is dropped, the new one is put
behind the others, and the list is sorted by cost (stably). -/
def addToEntry (entry : Option FibEntry) (faceId : FaceId) (cost : ℕ) : FibEntry :=
  let nexthops := (entry.map FibEntry.nexthops).getD []
  let nexthops := nexthops.filter (fun n => n.faceId ≠ faceId) ++ [⟨faceId, cost⟩]
  ⟨nexthops.insertionSort fun a b => a.cost ≤ b.cost⟩

def addNexthop (faceId : FaceId) (cost : ℕ) : Fib :=
  Trie.insert pre (addToEntry (self.get pre) faceId cost) self

lemma get_addNexthop (faceId : FaceId) (cost : ℕ) :
    (self.addNexthop pre faceId cost).get name =
      if name = pre then some (addToEntry (self.get pre) faceId cost) else self.get name :=
  get_insert pre name _ self

/-- The entry of some next hops: none for no next hops, and otherwise sorted by cost (stably). -/
def entryOf : Option FibEntry :=
  if nexthops = [] then none else some ⟨nexthops.insertionSort fun a b => a.cost ≤ b.cost⟩

def setNexthops : Fib :=
  match entryOf nexthops with
  | none => remove pre self
  | some entry => .insert pre entry self

lemma get_setNexthops :
    (self.setNexthops pre nexthops).get name =
      if name = pre then entryOf nexthops else self.get name := by
  rw [setNexthops]
  cases entryOf nexthops with
  | none => exact get_remove pre name self
  | some entry => exact get_insert pre name entry self

end Fib

end NdnRs
