import NdnRs.Packet.Lp

/-!
# The two readers of a link-layer frame (`ndn-packet/src/lp/decode.rs`, `lp/fragment.rs`)

`extract_fragment` looks at the fragmentation headers only, and `LpPacket::decode` checks the whole
frame. On a frame that the second accepts they find the same (`extractView_of_decode`). This module
says, over the elements of a frame, which frames each of them takes.

## Main definitions

* `LpPacket.Scanned` — the elements that the fast reader takes for a fragment.
* `LpPacket.WellFormed` — the elements that the decoder accepts, with a Fragment among them.

## Main results

* `LpPacket.readersAgree_iff` — the readers agree on a frame iff its elements are well formed or the
  fast reader does not take them.
-/

namespace NdnRs

open Bytes Tlv List Except TlvType

namespace Lp

/-! ## The fast reader -/

section Fast

variable {es : List (ℕ × Bytes)} {raw inner : Bytes}

/-- The elements that can be read: types and lengths are numbers of 64 bits. -/
def Readable (es : List (ℕ × Bytes)) : Prop := ∀ e ∈ es, e.1 < 2 ^ 64 ∧ e.2.length < 2 ^ 64

/-- A loop that comes to the end of the inner bytes has read elements all the way. -/
lemma exists_elements_of_extractLoop {headerLen fuel pos : ℕ} {f f' : FragmentFields}
    (h : extractLoop headerLen inner fuel pos f = some f') (hpos : pos ≤ inner.length)
    (hfuel : inner.length ≤ pos + fuel) :
    ∃ es, Readable es ∧ inner.drop pos = writeTlvs es := by
  induction fuel generalizing pos f with
  | zero => exact ⟨[], nofun, by simp; omega⟩
  | succ fuel ih =>
    rw [extractLoop] at h
    split_ifs at h with hlt
    swap
    · exact ⟨[], nofun, by simp; omega⟩
    obtain ⟨⟨t, tn⟩, ht, h⟩ := Option.bind_eq_some_iff.mp h
    obtain ⟨⟨l, ln⟩, hl, h⟩ := Option.bind_eq_some_iff.mp h
    simp only at h hl
    split_ifs at h with hfits
    obtain ⟨f₁, -, h⟩ := Option.bind_eq_some_iff.mp h
    rw [toOption_eq_some_iff] at ht hl
    rw [← drop_drop] at hl
    have htn := varu64Size_pos t
    have hread := (readVaru64_eq_ok_iff.mp ht).2.1
    obtain ⟨ht64, hl64, hlen, hbuf⟩ :=
      eq_writeTlv_append_of_readVaru64 ht hl (by rw [length_drop]; omega)
    obtain ⟨es, hes, hrest⟩ := ih h (by omega) (by omega)
    refine ⟨(t, ((inner.drop pos).drop (tn + ln)).take l) :: es,
      forall_mem_cons.mpr ⟨⟨ht64, by rw [hlen]; exact hl64⟩, hes⟩, ?_⟩
    have hafter : (inner.drop pos).drop (tn + ln + l) = inner.drop (pos + tn + ln + l) := by
      rw [drop_drop, ← Nat.add_assoc, ← Nat.add_assoc]
    rw [writeTlvs_cons, ← hrest, ← hafter]
    exact hbuf

/-- What the fast reader takes is an LpPacket element whose elements can be read. -/
lemma exists_elements_of_extractFragment (h : (extractFragment raw).isSome = true) :
    ∃ es trail, Readable es ∧ (writeTlvs es).length < 2 ^ 64 ∧
      raw = writeTlv lpPacket (writeTlvs es) ++ trail := by
  obtain ⟨hdr, h⟩ := Option.isSome_iff_exists.mp h
  rw [extractFragment] at h
  split_ifs at h with hhead
  obtain ⟨⟨t, tn⟩, ht, h⟩ := Option.bind_eq_some_iff.mp h
  obtain ⟨⟨l, ln⟩, hl, h⟩ := Option.bind_eq_some_iff.mp h
  simp only at h hl
  split_ifs at h with hfits
  obtain ⟨f, hloop, -⟩ := Option.bind_eq_some_iff.mp h
  rw [toOption_eq_some_iff] at ht hl
  obtain ⟨-, hl64, hlen, hraw⟩ := eq_writeTlv_append_of_readVaru64 ht hl hfits
  have htyp : t = lpPacket := by
    cases raw with
    | nil => cases ht
    | cons b bs =>
      obtain rfl : b = 0x64 := by simpa using hhead
      have hone : readVaru64 ((0x64 : UInt8) :: bs) = .ok (0x64, 1) := rfl
      rw [hone] at ht
      cases ht
      rfl
  obtain ⟨es, hes, hinner⟩ := exists_elements_of_extractLoop hloop (Nat.zero_le _) (by omega)
  rw [drop_zero] at hinner
  rw [hinner] at hlen hraw
  rw [htyp] at hraw
  exact ⟨es, _, hes, by rw [hlen]; exact hl64, hraw⟩

/-- The elements that the fast reader takes for a fragment: there are a Sequence, a FragIndex and a
FragCount, and every FragCount is greater than one. -/
structure Scanned (es : List (ℕ × Bytes)) : Prop where
  sequence : ∃ e ∈ es, e.1 = lpSequence
  fragIndex : ∃ e ∈ es, e.1 = lpFragIndex
  fragCount : ∃ e ∈ es, e.1 = lpFragCount
  many : ∀ e ∈ es, e.1 = lpFragCount → 1 < decodeBeU64 e.2

/-- The header, when all its fields were found. -/
def ViewFields.finish (g : ViewFields) : Option FragmentView := do
  return ⟨← g.sequence, ← g.fragIndex, ← g.fragCount, g.fragment⟩

lemma finish_isSome_iff (g : ViewFields) :
    g.finish.isSome = true ↔
      g.sequence.isSome = true ∧ g.fragIndex.isSome = true ∧ g.fragCount.isSome = true := by
  rw [ViewFields.finish]
  cases g.sequence <;> cases g.fragIndex <;> cases g.fragCount <;> simp

/-- What the loop finds among the elements, from the fields found before. -/
lemma foldlM_viewField_isSome_iff (g : ViewFields) :
    ((es.foldlM viewField g).bind ViewFields.finish).isSome = true ↔
      (g.sequence.isSome = true ∨ ∃ e ∈ es, e.1 = 0x51) ∧
      (g.fragIndex.isSome = true ∨ ∃ e ∈ es, e.1 = 0x52) ∧
      (g.fragCount.isSome = true ∨ ∃ e ∈ es, e.1 = 0x53) ∧
      ∀ e ∈ es, e.1 = 0x53 → 1 < decodeBeU64 e.2 := by
  induction es generalizing g with
  | nil => simp [finish_isSome_iff]
  | cons e es ih =>
    rw [foldlM_cons, viewField]
    by_cases hseq : e.1 = 0x51
    · simp [hseq, ih]
    by_cases hidx : e.1 = 0x52
    · simp [hidx, ih]
    by_cases hcnt : e.1 = 0x53
    · by_cases hone : decodeBeU64 e.2 ≤ 1
      · simp [hcnt, hone]
      · simp [hcnt, hone, ih, Nat.not_le.mp hone]
    by_cases hfrag : e.1 = 0x50 <;> simp [hseq, hidx, hcnt, hfrag, ih]

lemma viewOf_isSome_iff : (viewOf es).isSome = true ↔ Scanned es := by
  have hview : viewOf es =
      (es.foldlM viewField ⟨none, none, none, []⟩).bind ViewFields.finish := rfl
  rw [hview, foldlM_viewField_isSome_iff]
  simp only [Option.isSome_none, Bool.false_eq_true, false_or]
  exact ⟨fun h => ⟨h.1, h.2.1, h.2.2.1, h.2.2.2⟩, fun h => ⟨h.1, h.2, h.3, h.4⟩⟩

end Fast

end Lp

namespace LpPacket

open Lp

/-! ## The decoder -/

section Full

variable {s s' : DecodeState} {p p' lp : LpPacket} {t : ℕ} {v raw : Bytes} {es : List (ℕ × Bytes)}

/-- A header may stand behind another: it is of a greater type, or both are acks. -/
def Follows (prev t : ℕ) : Prop := prev < t ∨ (t = prev ∧ t = lpAck)

/-- What `decode` asks of a header, apart from its place: a Nack can be read up to its reason, a
PitToken is not empty, a CachePolicy can be read to its end, and a header of any other type is known
or not critical. -/
def HeaderOk (e : ℕ × Bytes) : Prop :=
  if e.1 = TlvType.nack then ReadsUpTo nackReason e.2
  else if e.1 = lpPitToken then e.2 ≠ []
  else if e.1 = lpCachePolicy then ∃ es, (∀ d ∈ es, ElementOk d) ∧ e.2 = writeTlvs es
  else e.1 ∈ [lpSequence, lpFragIndex, lpFragCount] ∨ e.1 ∈ headerSetters.map Prod.fst ∨
    isCriticalTlvType e.1 = false

/-- The elements that `decode` accepts, with a Fragment among them: headers in ascending order, then
the Fragment, then nothing. -/
def WellFormed (es : List (ℕ × Bytes)) : Prop :=
  ∃ hs fragment, es = hs ++ [(lpFragment, fragment)] ∧ (hs.map Prod.fst).IsChain Follows ∧
    ∀ e ∈ hs, ElementOk e ∧ e.1 ≠ lpFragment ∧ HeaderOk e

lemma decodeNackHeader_isOk_iff :
    (∃ header, decodeNackHeader v = .ok header) ↔ ReadsUpTo nackReason v := by
  rw [← findTlv_isOk_iff, decodeNackHeader]
  simp only [bind_eq_ok_iff, mapError_eq_ok_iff, pure_eq_ok, ok.injEq]
  constructor
  · rintro ⟨_, found, hfound, -⟩
    exact ⟨found, hfound⟩
  · rintro ⟨found, hfound⟩
    exact ⟨_, found, hfound, rfl⟩

lemma decodeCachePolicy_isOk_iff (policy : Option CachePolicyType) :
    (∃ policy', decodeCachePolicy policy v = .ok policy') ↔
      ∃ es, (∀ d ∈ es, ElementOk d) ∧ v = writeTlvs es := by
  simp only [decodeCachePolicy, forEachTlv_eq_ok_iff]
  constructor
  · rintro ⟨_, es, hes, hv, -⟩
    exact ⟨es, hes, hv⟩
  · rintro ⟨es, hes, hv⟩
    exact ⟨_, es, hes, hv, List.foldlM_pure⟩

lemma headerOk_iff_of_ne (hnack : t ≠ TlvType.nack) (htok : t ≠ lpPitToken)
    (hpol : t ≠ lpCachePolicy) :
    HeaderOk (t, v) ↔ t ∈ [lpSequence, lpFragIndex, lpFragCount] ∨
      t ∈ headerSetters.map Prod.fst ∨ isCriticalTlvType t = false := by
  rw [HeaderOk, if_neg hnack, if_neg htok, if_neg hpol]

lemma headerSetters_isOk_iff :
    ∀ x ∈ headerSetters, ∀ p v, (∃ p', x.2 p v = .ok p') ↔ HeaderOk (x.1, v) := by
  simp only [headerSetters, forall_mem_cons]
  refine ⟨?_, ?_, ?_, ?_, ?_, ?_, ?_, ?_, ?_, ?_, ?_, ?_, ?_, forall_mem_nil _⟩ <;> intro p v
  case refine_1 =>
    rw [HeaderOk, if_pos rfl, ← decodeNackHeader_isOk_iff]
    simp only [bind_eq_ok_iff, pure_eq_ok, ok.injEq]
    constructor
    · rintro ⟨-, header, h, -⟩
      exact ⟨header, h⟩
    · rintro ⟨header, h⟩
      exact ⟨_, header, h, rfl⟩
  case refine_4 =>
    have hnack : lpPitToken ≠ TlvType.nack := by decide
    rw [HeaderOk, if_neg hnack, if_pos rfl]
    simp only [bind_eq_ok_iff, ensure_eq_ok_iff, pure_eq_ok, ok.injEq, exists_const]
    constructor
    · rintro ⟨-, h, -⟩
      exact h
    · exact fun h => ⟨_, h, rfl⟩
  case refine_7 =>
    have hnack : lpCachePolicy ≠ TlvType.nack := by decide
    have htok : lpCachePolicy ≠ lpPitToken := by decide
    rw [HeaderOk, if_neg hnack, if_neg htok, if_pos rfl, ← decodeCachePolicy_isOk_iff p.cachePolicy]
    simp only [bind_eq_ok_iff, pure_eq_ok, ok.injEq]
    constructor
    · rintro ⟨-, policy, h, -⟩
      exact ⟨policy, h⟩
    · rintro ⟨policy, h⟩
      exact ⟨_, policy, h, rfl⟩
  all_goals
    -- the other headers are taken as they are
    rw [headerOk_iff_of_ne (by decide) (by decide) (by decide)]
    exact ⟨fun _ => .inr (.inl (by simp [headerSetters])), fun _ => ⟨_, rfl⟩⟩

lemma assignHeader_isOk_iff (hknown : t ∉ [lpSequence, lpFragIndex, lpFragCount]) :
    (∃ p', p.assignHeader t v = .ok p') ↔ HeaderOk (t, v) := by
  rw [assignHeader]
  cases hset : headerSetters.lookup t with
  | some setter =>
    obtain ⟨before, after, hmem⟩ := Assoc.exists_append_of_lookup hset
    exact headerSetters_isOk_iff (t, setter) (by simp [hmem]) p v
  | none =>
    have hnew : t ∉ headerSetters.map Prod.fst := by
      intro hmem
      obtain ⟨x, hx, rfl⟩ := mem_map.mp hmem
      have := lookup_eq_none_iff.mp hset x hx
      simp at this
    have hne : ∀ t' ∈ headerSetters.map Prod.fst, t ≠ t' := fun t' ht' h => hnew (h ▸ ht')
    rw [headerOk_iff_of_ne (hne _ (by simp [headerSetters])) (hne _ (by simp [headerSetters]))
      (hne _ (by simp [headerSetters]))]
    have hbare : t = TlvType.interest ∨ t = TlvType.data → isCriticalTlvType t = true := by
      rintro (rfl | rfl) <;> rfl
    by_cases hcrit : isCriticalTlvType t = false
    · have hnot : ¬ (t = TlvType.interest ∨ t = TlvType.data) := by
        intro h
        rw [hbare h] at hcrit
        cases hcrit
      simp [hcrit, hnot]
    · refine iff_of_false ?_ (by simp [hknown, hnew, hcrit])
      rintro ⟨p', h⟩
      simp only at h
      split_ifs at h
      obtain ⟨_, hens, -⟩ := bind_eq_ok_iff.mp h
      exact hcrit (ensure_eq_ok_iff.mp hens)

/-- **Which headers the decoder takes**, whatever it has read before. -/
lemma assign_isOk_iff (hfrag : t ≠ lpFragment) :
    (∃ p', p.assign t v = .ok p') ↔ HeaderOk (t, v) := by
  have hthree : t ∈ [lpSequence, lpFragIndex, lpFragCount] → HeaderOk (t, v) := by
    intro hmem
    have hne : t ≠ TlvType.nack ∧ t ≠ lpPitToken ∧ t ≠ lpCachePolicy := by
      simp only [mem_cons, not_mem_nil, or_false] at hmem
      rcases hmem with rfl | rfl | rfl <;> decide
    exact (headerOk_iff_of_ne hne.1 hne.2.1 hne.2.2).mpr (.inl hmem)
  rw [assign, if_neg hfrag]
  split_ifs with hseq hidx hcnt
  · exact ⟨fun _ => hthree (by simp [hseq]), fun _ => ⟨_, rfl⟩⟩
  · exact ⟨fun _ => hthree (by simp [hidx]), fun _ => ⟨_, rfl⟩⟩
  · exact ⟨fun _ => hthree (by simp [hcnt]), fun _ => ⟨_, rfl⟩⟩
  · exact assignHeader_isOk_iff (by simp [hseq, hidx, hcnt])

lemma isChain_cons_iff (lastTyp : Option ℕ) (ts : List ℕ) :
    (lastTyp.toList ++ t :: ts).IsChain Follows ↔
      mayFollow lastTyp t = true ∧ ((some t).toList ++ ts).IsChain Follows := by
  cases lastTyp with
  | none => simp [mayFollow]
  | some prev => simp [mayFollow, Follows]

/-- Behind the fragment the loop takes nothing. -/
lemma foldlM_decodeStep_seen {lastTyp : Option ℕ} :
    (∃ s', es.foldlM (fun s e => decodeStep s e.1 e.2) ⟨p, lastTyp, true⟩ = .ok s' ∧
      s'.fragmentSeen = true) ↔ es = [] := by
  cases es with
  | nil => exact ⟨fun _ => rfl, fun _ => ⟨_, rfl, rfl⟩⟩
  | cons e es =>
    refine ⟨?_, nofun⟩
    rintro ⟨s', h, -⟩
    rw [foldlM_cons, bind_eq_ok_iff] at h
    obtain ⟨s₁, hstep, -⟩ := h
    cases (decodeStep_eq_ok_iff.mp hstep).1

/-- **Which elements the loop of the decoder passes**, up to a fragment: induction on the elements,
with the type of the last header in front of them. -/
lemma foldlM_decodeStep_isOk_iff (lastTyp : Option ℕ) (p : LpPacket) :
    (∃ s', es.foldlM (fun s e => decodeStep s e.1 e.2) ⟨p, lastTyp, false⟩ = .ok s' ∧
      s'.fragmentSeen = true) ↔
      ∃ hs fragment, es = hs ++ [(lpFragment, fragment)] ∧
        (lastTyp.toList ++ hs.map Prod.fst).IsChain Follows ∧
        ∀ e ∈ hs, e.1 ≠ lpFragment ∧ HeaderOk e := by
  induction es generalizing lastTyp p with
  | nil => simp
  | cons e es ih =>
    obtain ⟨t, v⟩ := e
    simp only [foldlM_cons, bind_eq_ok_iff, decodeStep_eq_ok_iff, true_and]
    by_cases hfrag : t = lpFragment
    · subst hfrag
      simp only [true_or, true_and, if_true]
      constructor
      · rintro ⟨s', ⟨_, ⟨p', -, rfl⟩, hfold⟩, hseen⟩
        obtain rfl := foldlM_decodeStep_seen.mp ⟨s', hfold, hseen⟩
        refine ⟨[], v, rfl, ?_, nofun⟩
        cases lastTyp <;> simp
      · rintro ⟨hs, fragment, heq, -, hhs⟩
        cases hs with
        | nil =>
          obtain ⟨-, rfl⟩ := cons_eq_cons.mp heq
          exact ⟨_, ⟨_, ⟨_, rfl, rfl⟩, rfl⟩, rfl⟩
        | cons d hs =>
          obtain ⟨rfl, -⟩ := cons_eq_cons.mp heq
          exact absurd rfl (hhs _ mem_cons_self).1
    · simp only [hfrag, false_or, if_false]
      constructor
      · rintro ⟨s', ⟨_, ⟨hfol, p', hasg, rfl⟩, hfold⟩, hseen⟩
        obtain ⟨hs, fragment, rfl, hchain, hhs⟩ := (ih (some t) p').mp ⟨s', hfold, hseen⟩
        refine ⟨(t, v) :: hs, fragment, rfl, (isChain_cons_iff _ _).mpr ⟨hfol, hchain⟩, ?_⟩
        exact forall_mem_cons.mpr ⟨⟨hfrag, (assign_isOk_iff hfrag).mp ⟨p', hasg⟩⟩, hhs⟩
      · rintro ⟨hs, fragment, heq, hchain, hhs⟩
        cases hs with
        | nil => exact absurd (congrArg Prod.fst (cons_eq_cons.mp heq).1) hfrag
        | cons d hs =>
          obtain ⟨rfl, rfl⟩ := cons_eq_cons.mp heq
          rw [forall_mem_cons] at hhs
          obtain ⟨hfol, hchain⟩ := (isChain_cons_iff _ _).mp hchain
          obtain ⟨p', hasg⟩ := (assign_isOk_iff (p := p) hfrag).mpr hhs.1.2
          obtain ⟨s', hfold, hseen⟩ := (ih (some t) p').mpr ⟨hs, fragment, rfl, hchain, hhs.2⟩
          exact ⟨s', ⟨_, ⟨hfol, p', hasg, rfl⟩, hfold⟩, hseen⟩

/-- The packet has a fragment once the loop has passed one. -/
lemma fragment_isSome_foldlM (h : es.foldlM (fun s e => decodeStep s e.1 e.2) s = .ok s')
    (hinv : s.packet.fragment.isSome = s.fragmentSeen) :
    s'.packet.fragment.isSome = s'.fragmentSeen := by
  induction es generalizing s with
  | nil =>
    cases h
    exact hinv
  | cons e es ih =>
    rw [foldlM_cons, bind_eq_ok_iff] at h
    obtain ⟨s₁, hstep, hrest⟩ := h
    refine ih hrest ?_
    obtain ⟨hseen, -, p', hasg, rfl⟩ := decodeStep_eq_ok_iff.mp hstep
    obtain ⟨-, -, -, hfrag⟩ := assign_spec hasg
    have h50 : lpFragment = 0x50 := rfl
    rw [h50]
    by_cases ht : e.1 = 0x50
    · rw [if_pos ht, hfrag, if_pos ht]
      rfl
    · rw [if_neg ht, hfrag, if_neg ht, hinv, hseen]

/-- **The frames that the decoder accepts with a Fragment.** -/
lemma decode_writeTlv_isOk_iff (hes : Readable es) (hlen : (writeTlvs es).length < 2 ^ 64)
    (trail : Bytes) :
    (∃ lp, decode (writeTlv lpPacket (writeTlvs es) ++ trail) = .ok lp ∧
      lp.fragment.isSome = true) ↔ WellFormed es := by
  have htyp : lpPacket < 2 ^ 64 := by decide
  simp only [decode_eq_ok_iff]
  constructor
  · rintro ⟨lp, ⟨es', trail', s, hes', hlen', heq, hfold, -, rfl⟩, hfrag⟩
    obtain ⟨-, hval, -⟩ := writeTlv_append_inj htyp hlen htyp hlen' heq
    obtain rfl := writeTlvs_inj hes (fun e he => (hes' e he).wide) hval
    rw [fragment_isSome_foldlM hfold rfl] at hfrag
    obtain ⟨hs, fragment, rfl, hchain, hhs⟩ :=
      (foldlM_decodeStep_isOk_iff none {}).mp ⟨s, hfold, hfrag⟩
    exact ⟨hs, fragment, rfl, hchain, fun e he => ⟨hes' e (by simp [he]), hhs e he⟩⟩
  · rintro ⟨hs, fragment, rfl, hchain, hhs⟩
    obtain ⟨s, hfold, hseen⟩ := (foldlM_decodeStep_isOk_iff none {}).mpr
      ⟨hs, fragment, rfl, hchain, fun e he => (hhs e he).2⟩
    have hfrag : s.packet.fragment.isSome = true := by
      rw [fragment_isSome_foldlM hfold rfl, hseen]
    have hok : ∀ e ∈ hs ++ [(lpFragment, fragment)], ElementOk e := by
      intro e he
      rcases mem_append.mp he with he | he
      · exact (hhs e he).1
      · obtain rfl := mem_singleton.mp he
        exact ⟨(by decide : lpFragment < 2 ^ 32), (hes _ (by simp)).2⟩
    have hne : s.packet.fragment ≠ none := Option.isSome_iff_ne_none.mp hfrag
    exact ⟨s.packet, ⟨_, trail, s, hok, hlen, rfl, hfold, .inl hne, rfl⟩, hfrag⟩

end Full

/-! ## When they agree -/

/-- The two readers agree on a frame: the fast one finds a header iff the other accepts the frame as
one of several and has all of Sequence, FragIndex and Fragment, and then with the same values. -/
def ReadersAgree (raw : Bytes) : Prop :=
  ∀ view, extractView raw = some view ↔
    ∃ lp, decode raw = .ok lp ∧ lp.isFragmented = true ∧ lp.sequence = some view.sequence ∧
      lp.fragIndex = some view.fragIndex ∧ lp.fragCount = some view.fragCount ∧
      lp.fragment = some view.fragment

/-- The readers differ only on a frame that the fast one takes, though the other rejects it or finds
no Fragment in it. -/
lemma readersAgree_iff_decode (raw : Bytes) :
    ReadersAgree raw ↔
      ((extractFragment raw).isSome = true →
        ∃ lp, decode raw = .ok lp ∧ lp.fragment.isSome = true) := by
  constructor
  · intro h hsome
    obtain ⟨header, hhdr⟩ := Option.isSome_iff_exists.mp hsome
    have hview : extractView raw =
        some ⟨header.sequence, header.fragIndex, header.fragCount, header.fragment raw⟩ := by
      rw [extractView, hhdr]
      rfl
    obtain ⟨lp, hlp, -, -, -, -, hfrag⟩ := (h _).mp hview
    exact ⟨lp, hlp, by rw [hfrag]; rfl⟩
  · intro h view
    constructor
    · intro hview
      have hsome : (extractFragment raw).isSome = true := by
        rw [← Option.isSome_map, ← extractView, hview]
        rfl
      obtain ⟨lp, hlp, hfrag⟩ := h hsome
      obtain ⟨fragment, hfrag⟩ := Option.isSome_iff_exists.mp hfrag
      rw [extractView_of_decode hlp] at hview
      split_ifs at hview with hfragmented
      obtain ⟨sequence, hseq, hview⟩ := Option.bind_eq_some_iff.mp hview
      obtain ⟨fragIndex, hidx, hview⟩ := Option.bind_eq_some_iff.mp hview
      obtain ⟨fragCount, hcnt, hview⟩ := Option.bind_eq_some_iff.mp hview
      rw [hfrag] at hview
      cases hview
      exact ⟨lp, hlp, hfragmented, hseq, hidx, hcnt, hfrag⟩
    · rintro ⟨lp, hlp, hfragmented, hseq, hidx, hcnt, hfrag⟩
      rw [extractView_of_decode hlp, if_pos hfragmented, hseq, hidx, hcnt, hfrag]
      rfl

/-- **When the two readers agree.** Take the elements of the frame (a byte string has at most one
such list). The readers agree iff the fast reader does not take them, or they are headers in
ascending order, each of them sound, with a single Fragment at the end. -/
theorem readersAgree_iff (raw : Bytes) :
    ReadersAgree raw ↔
      ∀ es trail, Readable es → (writeTlvs es).length < 2 ^ 64 →
        raw = writeTlv lpPacket (writeTlvs es) ++ trail → Scanned es → WellFormed es := by
  have hview : ∀ raw, (extractFragment raw).isSome = (extractView raw).isSome := by
    intro raw
    rw [extractView, Option.isSome_map]
  rw [readersAgree_iff_decode]
  constructor
  · rintro h es trail hes hlen rfl hscan
    refine (decode_writeTlv_isOk_iff hes hlen trail).mp (h ?_)
    rw [hview, extractView_writeTlv hes hlen, viewOf_isSome_iff]
    exact hscan
  · intro h hsome
    obtain ⟨es, trail, hes, hlen, rfl⟩ := exists_elements_of_extractFragment hsome
    rw [hview, extractView_writeTlv hes hlen, viewOf_isSome_iff] at hsome
    exact (decode_writeTlv_isOk_iff hes hlen trail).mpr (h es trail hes hlen rfl hsome)

lemma not_readersAgree {raw : Bytes} {view : FragmentView} (hview : extractView raw = some view)
    (hrej : (decode raw).isOk = false) : ¬ ReadersAgree raw := by
  intro hagr
  obtain ⟨lp, hlp, -⟩ := (hagr view).mp hview
  rw [hlp] at hrej
  cases hrej

/-- A frame with Sequence, FragIndex and FragCount and without a Fragment. -/
def noFragment : Bytes :=
  writeTlv lpPacket (writeTlvs [(lpSequence, [7]), (lpFragIndex, [0]), (lpFragCount, [2])])

/-- A frame with FragCount in front of Sequence. -/
def outOfOrder : Bytes :=
  writeTlv lpPacket (writeTlvs [(lpFragCount, [2]), (lpSequence, [7]), (lpFragIndex, [0]),
    (lpFragment, [5])])

/-- **Frames that only the fast reader takes.** The one without a Fragment is taken with an empty
one; the other is taken out of order. -/
theorem fast_reader_takes_rejected :
    extractView noFragment = some ⟨7, 0, 2, []⟩ ∧ (decode noFragment).isOk = false ∧
      extractView outOfOrder = some ⟨7, 0, 2, [5]⟩ ∧ (decode outOfOrder).isOk = false ∧
      ¬ ReadersAgree noFragment ∧ ¬ ReadersAgree outOfOrder := by
  have hnone : extractView noFragment = some ⟨7, 0, 2, []⟩ := by decide
  have hnone' : (decode noFragment).isOk = false := by decide
  have hord : extractView outOfOrder = some ⟨7, 0, 2, [5]⟩ := by decide
  have hord' : (decode outOfOrder).isOk = false := by decide
  exact ⟨hnone, hnone', hord, hord', not_readersAgree hnone hnone', not_readersAgree hord hord'⟩

end LpPacket

end NdnRs
