import NdnRs.Forwarding.PitInvariant

/-!
# The lookups of a Data in the PIT

`PitMatchStage` looks a Data up under several tokens, one after another. Here is which tokens these
are, what one lookup delivers and takes away, and what all of them do to one entry.
-/

namespace NdnRs.Pit

open Bytes SwapRemove Tlv List TlvType NameHashes

open PitCheckStage PitMatchStage

variable {P : Platform}

/-! ## The lookups -/

/-- A parameters digest or an implicit digest. -/
def IsDigest (c : NameComponent) : Prop :=
  c.typ = parametersSha256 ∨ c.typ = implicitSha256

instance : DecidablePred IsDigest := fun c =>
  inferInstanceAs (Decidable (c.typ = parametersSha256 ∨ c.typ = implicitSha256))

def HasTrailingDigest (name : Name) : Prop := ∃ c ∈ name.getLast?, IsDigest c

instance : DecidablePred HasTrailingDigest := fun name =>
  inferInstanceAs (Decidable (∃ c ∈ name.getLast?, IsDigest c))

variable {name : Name}

lemma stripDigestComponents_of_not (h : ¬ HasTrailingDigest name) :
    stripDigestComponents name = name := by
  unfold stripDigestComponents
  cases hlast : name.getLast? with
  | none => rfl
  | some c =>
    have hc : ¬ IsDigest c := fun hc => h ⟨c, hlast, hc⟩
    exact if_neg hc

lemma stripDigestComponents_snoc {c : NameComponent} (hc : IsDigest c) :
    stripDigestComponents (name ++ [c]) = name := by
  unfold stripDigestComponents
  rw [getLast?_append_of_ne_nil _ (cons_ne_nil c [])]
  exact (if_pos hc).trans dropLast_concat

/-- A lookup of a Data: its own name under either kind, its name without the digest at the end, or
a proper prefix of its name, where only CanBePrefix counts. -/
inductive Lookup (P : Platform) (name : Name) : UInt64 → Bool → Prop where
  | exact (disc : PitKeyDiscriminator) : Lookup P name (nameToken P name disc) false
  | stripped (key : Name) (c : NameComponent) (hc : IsDigest c) (hname : name = key ++ [c])
      (hne : key ≠ []) : Lookup P name (nameToken P key .classical) false
  | proper (key : Name) (disc : PitKeyDiscriminator) (hprefixOf : key <+: name) (hne : key ≠ [])
      (hproper : key ≠ name) : Lookup P name (nameToken P key disc) true

variable {token : UInt64} {c : Collected}

lemma strippedToken_eq_some_iff :
    strippedToken P name = some token ↔
      ∃ key c, IsDigest c ∧ name = key ++ [c] ∧ key ≠ [] ∧ token = nameToken P key .classical := by
  unfold strippedToken
  rcases eq_nil_or_concat name with rfl | ⟨key, c, rfl⟩
  · simp
  simp only [concat_eq_append, getLast?_append_of_ne_nil _ (cons_ne_nil c []),
    getLast?_singleton, dropLast_concat, length_append, length_singleton]
  constructor
  · intro h
    split_ifs at h with hcond
    obtain ⟨hc, hlen⟩ := hcond
    cases h
    refine ⟨key, c, hc, rfl, ?_, rfl⟩
    rw [← length_pos_iff]
    omega
  · rintro ⟨key', c', hc, heq, hne, rfl⟩
    obtain ⟨rfl, hcc⟩ := append_inj' heq rfl
    cases hcc
    have hlen := length_pos_iff.mpr hne
    exact if_pos ⟨hc, by omega⟩

lemma lookups_eq (name : Name) :
    lookups P name =
      [(nameToken P name .persistentAttach, false), (nameToken P name .classical, false)] ++
        (strippedToken P name).toList.map (fun token => (token, false)) ++
        ((range name.length).drop 1).reverse.flatMap fun n =>
          [(nameToken P (name.take n) .persistentAttach, true),
            (nameToken P (name.take n) .classical, true)] := by
  have hlen : (compute P name).length = name.length :=
    length_computeFrom P 0 name
  have hwalk : ∀ n ∈ ((range name.length).drop 1).reverse,
      prefixHash (compute P name) n = fullNameHash P (name.take n) := by
    intro n hn
    have hlt := mem_range.mp (mem_of_mem_drop (mem_reverse.mp hn))
    exact prefixHash_compute P name hlt.le
  unfold lookups
  simp only [fullHash_compute P name, hlen]
  rw [flatMap_congr fun n hn => by rw [hwalk n hn]]
  rfl

lemma mem_lookups_iff {cbpOnly : Bool} :
    (token, cbpOnly) ∈ lookups P name ↔ Lookup P name token cbpOnly := by
  rw [lookups_eq]
  simp only [mem_append, mem_cons, not_mem_nil, or_false, mem_map,
    Option.mem_toList, mem_flatMap, mem_reverse, Prod.mk.injEq]
  constructor
  · rintro (((⟨rfl, rfl⟩ | ⟨rfl, rfl⟩) | ⟨t, ht, rfl, rfl⟩) | ⟨n, hn, hcase⟩)
    · exact .exact .persistentAttach
    · exact .exact .classical
    · obtain ⟨key, c, hc, hname, hne, rfl⟩ := strippedToken_eq_some_iff.mp ht
      exact .stripped key c hc hname hne
    · obtain ⟨hpos, hlt⟩ : 1 ≤ n ∧ n < name.length := by
        rw [range_eq_range', drop_range', mem_range'_1] at hn
        omega
      have hne : name.take n ≠ [] := by
        rw [← length_pos_iff, length_take]
        omega
      have hprop : name.take n ≠ name := by
        intro heq
        have := congrArg length heq
        rw [length_take] at this
        omega
      rcases hcase with ⟨rfl, rfl⟩ | ⟨rfl, rfl⟩
      all_goals exact .proper _ _ (List.take_prefix n name) hne hprop
  · intro h
    cases h with
    | exact disc =>
      cases disc with
      | persistentAttach => exact .inl (.inl (.inl ⟨rfl, rfl⟩))
      | classical => exact .inl (.inl (.inr ⟨rfl, rfl⟩))
    | stripped key c hc hname hne =>
      exact .inl (.inr ⟨_, strippedToken_eq_some_iff.mpr ⟨key, c, hc, hname, hne, rfl⟩, rfl, rfl⟩)
    | proper key disc hkey hne hprop =>
      obtain ⟨rest, rfl⟩ := hkey
      have hrest : rest ≠ [] := by
        rintro rfl
        exact hprop (append_nil key).symm
      have hpos := length_pos_iff.mpr hne
      have hrestPos := length_pos_iff.mpr hrest
      have hlt : key.length < (key ++ rest).length := by
        rw [length_append]
        omega
      refine .inr ⟨key.length, ?_, ?_⟩
      · rw [range_eq_range', drop_range', mem_range'_1]
        omega
      · rw [take_left]
        cases disc with
        | persistentAttach => exact .inl ⟨rfl, rfl⟩
        | classical => exact .inr ⟨rfl, rfl⟩

/-! ## The faces collected -/

/-- The faces already in are those collected, each once. -/
structure PitMatchStage.Collected.Ok (c : Collected) : Prop where
  seen_eq : c.seen = c.faces
  nodup : c.faces.Nodup

lemma collect_ok (hc : c.Ok) (r : ℕ × Option Bytes) :
    (collect c r).Ok ∧ ∀ f, f ∈ (collect c r).faces ↔ f ∈ c.faces ∨ f = r.1 := by
  unfold collect
  split_ifs with hseen
  · rw [hc.seen_eq] at hseen
    refine ⟨hc, fun f => ⟨.inl, ?_⟩⟩
    rintro (hf | rfl)
    · exact hf
    · exact hseen
  · rw [hc.seen_eq] at hseen
    refine ⟨⟨by rw [hc.seen_eq], ?_⟩, fun f => by simp⟩
    rw [nodup_append]
    refine ⟨hc.nodup, nodup_singleton _, ?_⟩
    rintro a ha b hb rfl
    rw [mem_singleton.mp hb] at ha
    exact hseen ha

lemma foldl_collect_ok (hc : c.Ok) (rs : List (ℕ × Option Bytes)) :
    (rs.foldl collect c).Ok ∧
      ∀ f, f ∈ (rs.foldl collect c).faces ↔ f ∈ c.faces ∨ f ∈ rs.map Prod.fst := by
  induction rs generalizing c with
  | nil => exact ⟨hc, fun f => by simp⟩
  | cons r rs ih =>
    obtain ⟨hc', hmem'⟩ := collect_ok hc r
    obtain ⟨hok, hmem⟩ := ih hc'
    refine ⟨hok, fun f => ?_⟩
    rw [foldl_cons, hmem, hmem', map_cons, mem_cons, or_assoc]

/-! ## One lookup -/

section OneLookup

variable {tables : Tables} {token' : UInt64} {entry : PitEntry} {cbpOnly : Bool} {now : ℕ}

/-- The deliveries of a lookup that finds `entry`. -/
def deliveries (cbpOnly : Bool) (entry : PitEntry) : List (ℕ × Option Bytes) :=
  if anyPerRecord cbpOnly entry || entry.persistent.isSome then
    (consumePersistent cbpOnly entry).2.1
  else if cbpOnly then
    (drain (fun r => r.selector.canBePrefix) entry.inRecords).1.map outlet
  else entry.inRecords.map outlet

lemma consumeEntry_snd (hget : tables.pit.get token = some entry) :
    (consumeEntry P now tables c token cbpOnly).2 = (deliveries cbpOnly entry).foldl collect c := by
  unfold consumeEntry deliveries
  simp only [hget]
  split_ifs
  all_goals rfl

lemma consumeEntry_of_none (hget : tables.pit.get token = none) :
    consumeEntry P now tables c token cbpOnly = (tables, c) := by
  unfold consumeEntry
  simp only [hget]

lemma consumeEntry_collected (now : ℕ) (tables : Tables) (token : UInt64) (cbpOnly : Bool)
    (hc : c.Ok) :
    (consumeEntry P now tables c token cbpOnly).2.Ok ∧
      c.faces ⊆ (consumeEntry P now tables c token cbpOnly).2.faces := by
  cases hget : tables.pit.get token with
  | none =>
    rw [consumeEntry_of_none hget]
    exact ⟨hc, fun f hf => hf⟩
  | some entry =>
    rw [consumeEntry_snd hget]
    obtain ⟨hok, hmem⟩ := foldl_collect_ok hc (deliveries cbpOnly entry)
    exact ⟨hok, fun f hf => (hmem f).mpr (.inl hf)⟩

/-- What a lookup leaves of the entry that it finds. -/
def afterLookup (cbpOnly : Bool) (entry : PitEntry) : Option PitEntry :=
  if anyPerRecord cbpOnly entry || entry.persistent.isSome then
    let (entry', _, shouldReap) := consumePersistent cbpOnly entry
    if shouldReap then none else some entry'
  else if cbpOnly then
    let rest := (drain (fun r => r.selector.canBePrefix) entry.inRecords).2
    if rest.isEmpty then none else some { entry with inRecords := rest }
  else none

lemma reap_set_get (tables : Tables) (token token' : UInt64) (entry : PitEntry) (now : ℕ)
    (shouldReap : Bool) :
    (if shouldReap then reap P { tables with pit := tables.pit.set token entry } token entry now
      else { tables with pit := tables.pit.set token entry }).pit.get token' =
      if token' = token then (if shouldReap then none else some entry)
      else tables.pit.get token' := by
  cases shouldReap with
  | true =>
    simp only [if_true, reap_pit, Pit.get_remove, Pit.get_set]
    split_ifs <;> rfl
  | false => simp only [Bool.false_eq_true, if_false, Pit.get_set]

lemma consumeEntry_get (token' : UInt64) :
    (consumeEntry P now tables c token cbpOnly).1.pit.get token' =
      if token' = token then (tables.pit.get token).bind (afterLookup cbpOnly)
      else tables.pit.get token' := by
  cases hget : tables.pit.get token with
  | none =>
    rw [consumeEntry_of_none hget]
    split_ifs with heq
    · rw [heq]
      exact hget
    · rfl
  | some entry =>
    unfold consumeEntry afterLookup
    simp only [hget, Option.bind_some]
    by_cases hpers : (anyPerRecord cbpOnly entry || entry.persistent.isSome) = true
    · rw [if_pos hpers, if_pos hpers]
      exact reap_set_get tables token token' _ now _
    · rw [if_neg hpers, if_neg hpers]
      cases cbpOnly with
      | true => exact reap_set_get tables token token' _ now _
      | false => exact Pit.get_remove tables.pit token token'

lemma consumeEntry_get_of_ne (hne : token' ≠ token) :
    (consumeEntry P now tables c token cbpOnly).1.pit.get token' = tables.pit.get token' := by
  rw [consumeEntry_get, if_neg hne]

variable {entry' : PitEntry} {mirrored : Prop} {key : Name} {r : InRecord}

lemma afterLookup_remains (h : afterLookup cbpOnly entry = some entry') : Remains entry entry' := by
  unfold afterLookup at h
  simp only at h
  split_ifs at h with hpers hreap hcbp hemp
  · cases h
    exact ⟨consumePersistent_loses cbpOnly entry,
      consumePersistent_nonempty (Bool.eq_false_iff.mpr hreap)⟩
  · cases h
    refine ⟨drain_loses (fun r => r.selector.canBePrefix) entry, fun _ => ?_⟩
    exact isEmpty_eq_false_iff.mp (Bool.eq_false_iff.mpr hemp)

/-- A classical entry: neither it nor a record of it is persistent. -/
structure IsClassical (entry : PitEntry) : Prop where
  entry_none : entry.persistent = none
  records_none : ∀ r ∈ entry.inRecords, r.persistent = none

lemma IsClassical.shrink (h : IsClassical entry) (hs : Shrinks entry entry') :
    IsClassical entry' := by
  refine ⟨?_, fun r' hr' => ?_⟩
  · rw [← Option.not_isSome_iff_eq_none, hs.persistent_eq, h.entry_none]
    simp
  · obtain ⟨r, hr, -, -, hp⟩ := hs.records r' hr'
    rw [← Option.not_isSome_iff_eq_none, hp, h.records_none r hr]
    simp

lemma EntryOk.isClassical
    (h : EntryOk P mirrored token entry key .classical) : IsClassical entry := by
  refine ⟨?_, fun r hr => ?_⟩
  · rw [← Option.not_isSome_iff_eq_none, h.persistent_iff]
    exact nofun
  · rw [← Option.not_isSome_iff_eq_none, h.record_persistent_iff r hr]
    exact nofun

lemma IsClassical.not_persistent (h : IsClassical entry) (cbpOnly : Bool) :
    (anyPerRecord cbpOnly entry || entry.persistent.isSome) = false := by
  have hany : anyPerRecord cbpOnly entry = false := by
    unfold anyPerRecord
    rw [any_eq_false]
    intro r hr
    rw [h.records_none r hr]
    simp
  rw [hany, h.entry_none]
  rfl

def InRecord.Live (r : InRecord) : Prop := ∀ ps, r.persistent = some ps → 0 < ps.dataCountRemaining

/-- A lookup that counts a record delivers to its face. -/
lemma mem_deliveries {disc : PitKeyDiscriminator}
    (hent : EntryOk P mirrored token entry key disc) (hr : r ∈ entry.inRecords) (hlive : r.Live)
    (hcnt : cbpOnly = true → r.selector.canBePrefix = true) :
    r.faceId ∈ (deliveries cbpOnly entry).map Prod.fst := by
  rw [mem_map]
  unfold deliveries
  cases disc with
  | classical =>
    rw [hent.isClassical.not_persistent cbpOnly]
    simp only [Bool.false_eq_true, if_false]
    refine ⟨outlet r, ?_, rfl⟩
    split_ifs with hcbp
    · exact mem_map_of_mem (mem_drain_fst.mpr ⟨hr, hcnt hcbp⟩)
    · exact mem_map_of_mem hr
  | persistentAttach =>
    have hsome : entry.persistent.isSome = true := hent.persistent_iff.mpr rfl
    simp only [hsome, Bool.or_true, if_true]
    obtain ⟨ps, hps⟩ := Option.isSome_iff_exists.mp ((hent.record_persistent_iff r hr).mpr rfl)
    have hskip : (cbpOnly && !r.selector.canBePrefix) = false := by
      cases cbpOnly with
      | false => rfl
      | true => simp [hcnt rfl]
    have hspen : (spend cbpOnly true r).2 = true ∧ outlet (spend cbpOnly true r).1 = outlet r := by
      unfold spend
      rw [hskip, hps]
      simp only [Bool.false_eq_true, if_false, if_pos (hlive ps hps)]
      exact ⟨trivial, rfl⟩
    refine ⟨outlet r, ?_, rfl⟩
    unfold consumePersistent
    simp only [hsome, mem_map, mem_filter]
    exact ⟨spend cbpOnly true r, ⟨⟨r, hr, rfl⟩, hspen.1⟩, hspen.2⟩

lemma IsClassical.afterLookup_false (h : IsClassical entry) : afterLookup false entry = none := by
  simp only [afterLookup, h.not_persistent, Bool.false_eq_true, if_false]

lemma IsClassical.afterLookup_true (h : IsClassical entry)
    (hr : r ∈ entry.inRecords) (hcbp : r.selector.canBePrefix = false) :
    ∃ entry', afterLookup true entry = some entry' ∧ IsClassical entry' ∧ r ∈ entry'.inRecords := by
  have hleft : r ∈ (drain (fun r => r.selector.canBePrefix) entry.inRecords).2 :=
    mem_drain_snd.mpr ⟨hr, hcbp⟩
  have hnon : (drain (fun r => r.selector.canBePrefix) entry.inRecords).2.isEmpty = false := by
    rw [isEmpty_eq_false_iff]
    exact ne_nil_of_mem hleft
  have hlos := drain_loses (fun r => r.selector.canBePrefix) entry
  refine ⟨_, ?_, h.shrink hlos.toShrinks, hleft⟩
  simp only [afterLookup, h.not_persistent, Bool.false_eq_true, if_false, if_true, hnon]

end OneLookup

/-! ## All lookups -/

section AllLookups

variable {now : ℕ} {entry : PitEntry} {r : InRecord}

lemma consumeAll_cons (s : Tables × Collected) (l : UInt64 × Bool) (ls : List (UInt64 × Bool)) :
    consumeAll P now s (l :: ls) = consumeAll P now (consumeEntry P now s.1 s.2 l.1 l.2) ls := rfl

variable {s : Tables × Collected} {ls : List (UInt64 × Bool)}

lemma consumeAll_collected (hs : s.2.Ok) (ls : List (UInt64 × Bool)) :
    (consumeAll P now s ls).2.Ok ∧ s.2.faces ⊆ (consumeAll P now s ls).2.faces := by
  induction ls generalizing s with
  | nil => exact ⟨hs, fun f hf => hf⟩
  | cons l ls ih =>
    obtain ⟨hok, hsub⟩ := consumeEntry_collected (P := P) now s.1 l.1 l.2 hs
    obtain ⟨hok', hsub'⟩ := ih hok
    exact ⟨hok', fun f hf => hsub' (hsub hf)⟩

/-- One lookup after another at the same token. -/
def afterLookups (entry : Option PitEntry) (cbpOnlys : List Bool) : Option PitEntry :=
  cbpOnlys.foldl (fun entry cbpOnly => entry.bind (afterLookup cbpOnly)) entry

/-- **The table after a Data.** Every entry goes through the lookups at its own token. -/
lemma consumeAll_get (s : Tables × Collected) (ls : List (UInt64 × Bool)) :
    (consumeAll P now s ls).1.pit.get token =
      afterLookups (s.1.pit.get token) ((ls.filter fun l => l.1 = token).map Prod.snd) := by
  induction ls generalizing s with
  | nil => rfl
  | cons l ls ih =>
    rw [consumeAll_cons, ih, consumeEntry_get]
    by_cases heq : token = l.1
    · subst heq
      simp [afterLookups]
    · have hne : ¬ l.1 = token := fun h => heq h.symm
      simp [heq, hne]

lemma consumeAll_get_of_not_mem (h : ∀ cbpOnly, (token, cbpOnly) ∉ ls) :
    (consumeAll P now s ls).1.pit.get token = s.1.pit.get token := by
  have hnil : ls.filter (fun l => l.1 = token) = [] := by
    refine filter_eq_nil_iff.mpr fun l hl heq => h l.2 ?_
    rw [← of_decide_eq_true heq]
    exact hl
  rw [consumeAll_get, hnil]
  rfl

lemma afterLookups_none (cbpOnlys : List Bool) : afterLookups none cbpOnlys = none := by
  induction cbpOnlys with
  | nil => rfl
  | cons cbpOnly cbpOnlys ih => exact ih

/-- A record that every lookup at its token counts has its face collected. -/
lemma consumeAll_collects {mirrored : Prop} {key : Name} {disc : PitKeyDiscriminator} (hs : s.2.Ok)
    (hget : s.1.pit.get token = some entry) (hent : EntryOk P mirrored token entry key disc)
    (hr : r ∈ entry.inRecords) (hlive : r.Live) (hmem : ∃ cbpOnly, (token, cbpOnly) ∈ ls)
    (hcnt : (token, true) ∈ ls → r.selector.canBePrefix = true) :
    r.faceId ∈ (consumeAll P now s ls).2.faces := by
  induction ls generalizing s with
  | nil =>
    obtain ⟨cbpOnly, hnil⟩ := hmem
    cases hnil
  | cons l ls ih =>
    obtain ⟨hok, -⟩ := consumeEntry_collected (P := P) now s.1 l.1 l.2 hs
    by_cases heq : l.1 = token
    · -- the first lookup at the token delivers
      obtain ⟨l1, l2⟩ := l
      cases heq
      apply (consumeAll_collected hok ls).2
      rw [consumeEntry_snd hget]
      apply ((foldl_collect_ok hs _).2 _).mpr
      refine .inr (mem_deliveries hent hr hlive ?_)
      rintro rfl
      exact hcnt (mem_cons_self ..)
    · have hne : token ≠ l.1 := fun h => heq h.symm
      refine ih hok ?_ ?_ fun h => hcnt (mem_cons_of_mem _ h)
      · rw [consumeEntry_get_of_ne hne]
        exact hget
      · obtain ⟨cbpOnly, hcons⟩ := hmem
        rcases mem_cons.mp hcons with rfl | htail
        · exact absurd rfl hne
        · exact ⟨cbpOnly, htail⟩

variable {cbpOnlys : List Bool}

lemma IsClassical.afterLookups_of_false_mem (h : IsClassical entry)
    (hmem : false ∈ cbpOnlys) : afterLookups (some entry) cbpOnlys = none := by
  induction cbpOnlys generalizing entry with
  | nil => cases hmem
  | cons cbpOnly cbpOnlys ih =>
    show afterLookups (afterLookup cbpOnly entry) cbpOnlys = none
    cases cbpOnly with
    | false => rw [h.afterLookup_false, afterLookups_none]
    | true =>
      have htail : false ∈ cbpOnlys := by simpa using hmem
      cases haft : afterLookup true entry with
      | none => exact afterLookups_none cbpOnlys
      | some entry' =>
        exact ih (h.shrink (afterLookup_remains haft).toShrinks) htail

lemma IsClassical.mem_afterLookups (h : IsClassical entry) (hr : r ∈ entry.inRecords)
    (hcbp : r.selector.canBePrefix = false) (hmem : false ∉ cbpOnlys) :
    ∃ entry', afterLookups (some entry) cbpOnlys = some entry' ∧ r ∈ entry'.inRecords := by
  induction cbpOnlys generalizing entry with
  | nil => exact ⟨entry, rfl, hr⟩
  | cons cbpOnly cbpOnlys ih =>
    rw [mem_cons, not_or] at hmem
    cases cbpOnly with
    | false => exact absurd rfl hmem.1
    | true =>
      obtain ⟨entry', haft, hent', hr'⟩ := h.afterLookup_true hr hcbp
      obtain ⟨entry'', haft', hr''⟩ := ih hent' hr' hmem.2
      refine ⟨entry'', ?_, hr''⟩
      rw [← haft', ← haft]
      rfl

lemma mem_filter_lookups {cbpOnly : Bool} :
    cbpOnly ∈ (ls.filter fun l => l.1 = token).map Prod.snd ↔ (token, cbpOnly) ∈ ls := by
  simp

lemma consumeAll_exact_get (hent : ∀ entry, s.1.pit.get token = some entry → IsClassical entry)
    (hmem : (token, false) ∈ ls) : (consumeAll P now s ls).1.pit.get token = none := by
  rw [consumeAll_get]
  cases hget : s.1.pit.get token with
  | none => exact afterLookups_none _
  | some entry => exact (hent entry hget).afterLookups_of_false_mem (mem_filter_lookups.mpr hmem)

lemma consumeAll_prefix_get (hget : s.1.pit.get token = some entry) (hent : IsClassical entry)
    (hr : r ∈ entry.inRecords) (hcbp : r.selector.canBePrefix = false)
    (hmem : (token, false) ∉ ls) :
    ∃ entry', (consumeAll P now s ls).1.pit.get token = some entry' ∧ r ∈ entry'.inRecords := by
  rw [consumeAll_get, hget]
  exact hent.mem_afterLookups hr hcbp fun h => hmem (mem_filter_lookups.mp h)

end AllLookups

lemma process_fst (tables : Tables) (name : Name) (now : ℕ) :
    (process P tables name now).1 =
      (consumeAll P now (tables, ⟨[], [], []⟩) (lookups P name)).1 := rfl

lemma process_outFaces (tables : Tables) (name : Name) (now : ℕ) :
    (process P tables name now).2.outFaces =
      (consumeAll P now (tables, ⟨[], [], []⟩) (lookups P name)).2.faces := rfl

lemma collected_nil_ok : (⟨[], [], []⟩ : Collected).Ok := ⟨rfl, nodup_nil⟩

end NdnRs.Pit
