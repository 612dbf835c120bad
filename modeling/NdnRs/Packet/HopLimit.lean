import NdnRs.Lib.Run
import NdnRs.Packet.InterestRegion

/-!
# Decrementing the hop limit (`ndn-packet/src/interest.rs`)

A forwarder lowers the HopLimit of an Interest in its wire. There are two functions for it, one that
copies the wire and one that writes into it; both walk the body by hand. The copying one takes the
length of the header as that of the buffer less that of the value, so that bytes behind the Interest
are counted as part of its header, and it starts to read in the middle of the Interest.

The positions are numbers of 64 bits, whose sums wrap around in a release build (a build with
overflow checks panics there). A walk over bytes that are no elements can so be led back to where it
was, and then never returns.

## Main definitions

* `hopLimitTurn` — one turn of the walk.
* `decrementHopLimit`, `decrementHopLimitInPlace` — the two functions; the outer `none` stands for a
  call that does not return.

## Main results

* `hopLimitLoop_eq_none_iff` — the walk does not return iff it circles.
* `decrementHopLimit_decodes` — the hop limit is lowered by one, and when both functions do it.
-/

namespace NdnRs.Interest

open Bytes Tlv List

/-- One turn of the walk over the body: it goes on at another position, or ends, with the offset of
the HopLimit's byte if it has found one. -/
def hopLimitTurn (body : Bytes) (pos : ℕ) : ℕ ⊕ Option ℕ :=
  if pos < body.length then
    match readVaru64 (body.drop pos) with
    | .error _ => .inr none
    | .ok (typ, typeLen) =>
      match readVaru64 (body.drop (pos + typeLen)) with
      | .error _ => .inr none
      | .ok (len, lenLen) =>
        let valOff := typeLen + lenLen
        let stop := (pos + valOff + len) % 2 ^ 64
        if stop > body.length then .inr none
        else if typ = TlvType.hopLimit ∧ len = 1 then .inr (some (pos + valOff))
        else .inl stop
  else .inr none

/-- The walk, from a position on. It goes on from positions inside the body only: when it has not
returned after so many turns it never does (`hopLimitLoop_eq_none_iff`). -/
def hopLimitLoop (body : Bytes) (pos : ℕ) : Option (Option ℕ) :=
  Run.turns (hopLimitTurn body) (body.length + 1) pos

/-- The wire with one hop less in the byte, and the new hop limit. -/
def lowerHopLimit (raw : Bytes) (absValueByte : ℕ) : Bytes × UInt8 :=
  let current := raw.getD absValueByte 0
  let new := if current = 0 then 0 else current - 1
  (raw.set absValueByte new, new)

/-- `decrement_hop_limit`; what follows the Interest counts as part of its header. -/
def decrementHopLimit (raw : Bytes) : Option (Option (Bytes × UInt8)) :=
  match readTlv raw with
  | .ok ((_, value), _) =>
    let headerLen := raw.length - value.length
    (hopLimitLoop (raw.drop headerLen) 0).map
      (Option.map fun off => lowerHopLimit raw (headerLen + off))
  | .error _ => some none

/-- `decrement_hop_limit_in_place`, with the bytes it leaves: the same walk over the whole buffer,
from behind the header on. -/
def decrementHopLimitInPlace (wire : Bytes) : Option (Option (Bytes × UInt8)) :=
  match readVaru64 wire with
  | .error _ => some none
  | .ok (_, typeLen) =>
    match readVaru64 (wire.drop typeLen) with
    | .error _ => some none
    | .ok (_, lenLen) =>
      (hopLimitLoop wire (typeLen + lenLen)).map (Option.map (lowerHopLimit wire))

/-! ## The walk -/

section Walk

variable {body : Bytes} {pos : ℕ}

private lemma mem_range_of_goes (pos pos' : ℕ) (h : hopLimitTurn body pos = .inl pos') :
    pos ∈ Finset.range body.length := by
  rw [hopLimitTurn] at h
  split_ifs at h with hpos
  exact Finset.mem_range.mpr hpos

/-- **Where the walk ends.** -/
lemma hopLimitLoop_eq_some_iff {found : Option ℕ} :
    hopLimitLoop body pos = some found ↔
      ∃ q, Relation.ReflTransGen (Run.Goes (hopLimitTurn body)) pos q ∧
        hopLimitTurn body q = .inr found := by
  have h := Run.turns_eq_some_iff (Finset.range body.length) mem_range_of_goes (s := pos)
    (r := found)
  rwa [Finset.card_range] at h

/-- A HopLimit is found two bytes behind the start of its element. -/
lemma hopLimitTurn_eq_found {off : ℕ} (h : hopLimitTurn body pos = .inr (some off)) :
    off = pos + 2 := by
  rw [hopLimitTurn] at h
  split_ifs at h
  swap
  · cases h
  split at h
  · cases h
  next typ typeLen htyp =>
  split at h
  · cases h
  next len lenLen hlen =>
  obtain ⟨-, rfl, -⟩ := readVaru64_eq_ok_iff.mp htyp
  obtain ⟨-, rfl, -⟩ := readVaru64_eq_ok_iff.mp hlen
  simp only at h
  split_ifs at h with hfits hhop
  · cases h
  obtain ⟨rfl, rfl⟩ := hhop
  cases h
  rfl

variable (pre tail : Bytes)

lemma hopLimitTurn_writeTlv {e : ℕ × Bytes} (he : ElementOk e)
    (hsize : (pre ++ (writeTlv e.1 e.2 ++ tail)).length < 2 ^ 64) :
    hopLimitTurn (pre ++ (writeTlv e.1 e.2 ++ tail)) pre.length =
      if e.1 = TlvType.hopLimit ∧ e.2.length = 1 then
        .inr (some (pre.length + (varu64Size e.1 + varu64Size e.2.length)))
      else .inl (pre.length + (writeTlv e.1 e.2).length) := by
  have hlen : (writeTlv e.1 e.2).length = varu64Size e.1 + varu64Size e.2.length + e.2.length := by
    rw [writeTlv_length, tlvSize]
  have hpos := varu64Size_pos e.1
  have htyp : e.1 < 2 ^ 64 := he.1.trans (by decide)
  have hall : (pre ++ (writeTlv e.1 e.2 ++ tail)).length =
      pre.length + (writeTlv e.1 e.2).length + tail.length := by
    simp only [length_append, Nat.add_assoc]
  -- the element is inside the body, so that the sum does not wrap
  have hstop : (pre.length + (varu64Size e.1 + varu64Size e.2.length) + e.2.length) % 2 ^ 64 =
      pre.length + (writeTlv e.1 e.2).length := by
    rw [Nat.mod_eq_of_lt (by omega)]
    omega
  rw [hopLimitTurn, if_pos (by omega), drop_left, readVaru64_writeTlv _ _ htyp]
  simp only
  rw [← drop_drop, drop_left, readVaru64_drop_writeTlv _ _ he.2]
  simp only
  rw [hstop, if_neg (by omega)]

/-- The walk steps over elements that are not the HopLimit. -/
lemma walk_writeTlvs {skip : List (ℕ × Bytes)}
    (hskip : ∀ e ∈ skip, ElementOk e ∧ e.1 ≠ TlvType.hopLimit)
    (hsize : (pre ++ (writeTlvs skip ++ tail)).length < 2 ^ 64) :
    Relation.ReflTransGen (Run.Goes (hopLimitTurn (pre ++ (writeTlvs skip ++ tail)))) pre.length
      (pre.length + (writeTlvs skip).length) := by
  induction skip generalizing pre with
  | nil => exact .refl
  | cons e skip ih =>
    obtain ⟨⟨he, hne⟩, hskip⟩ := forall_mem_cons.mp hskip
    have hass : pre ++ (writeTlvs (e :: skip) ++ tail) =
        pre ++ (writeTlv e.1 e.2 ++ (writeTlvs skip ++ tail)) := by simp
    have hass' : pre ++ (writeTlv e.1 e.2 ++ (writeTlvs skip ++ tail)) =
        (pre ++ writeTlv e.1 e.2) ++ (writeTlvs skip ++ tail) := by simp
    rw [hass] at hsize ⊢
    have hgo := hopLimitTurn_writeTlv pre (writeTlvs skip ++ tail) he hsize
    rw [if_neg fun h => hne h.1] at hgo
    rw [hass'] at hsize
    have hrest := ih (pre ++ writeTlv e.1 e.2) hskip hsize
    rw [← hass', length_append, Nat.add_assoc] at hrest
    rw [writeTlvs_cons, length_append]
    exact hrest.head hgo

lemma hopLimitTurn_hopLimit (hop : UInt8)
    (hsize : (pre ++ (writeTlv TlvType.hopLimit [hop] ++ tail)).length < 2 ^ 64) :
    hopLimitTurn (pre ++ (writeTlv TlvType.hopLimit [hop] ++ tail)) pre.length =
      .inr (some (pre.length + 2)) := by
  have hok : ElementOk (TlvType.hopLimit, [hop]) := ⟨by simp [TlvType.hopLimit], by simp⟩
  rw [hopLimitTurn_writeTlv pre tail hok hsize, if_pos ⟨rfl, rfl⟩]
  rfl

lemma lowerHopLimit_writeTlv {hop : UInt8} (hhop : hop ≠ 0) :
    lowerHopLimit (pre ++ (writeTlv TlvType.hopLimit [hop] ++ tail)) (pre.length + 2) =
      (pre ++ (writeTlv TlvType.hopLimit [hop - 1] ++ tail), hop - 1) := by
  -- the byte stands behind the two of the element's header
  have hspl : ∀ b : UInt8, pre ++ (writeTlv TlvType.hopLimit [b] ++ tail) =
      (pre ++ [0x22, 0x01]) ++ b :: tail := by
    intro b
    have hbs : writeTlv TlvType.hopLimit [b] = [0x22, 0x01, b] := rfl
    simp [hbs]
  have hat : pre.length + 2 = (pre ++ [0x22, 0x01]).length := by simp
  have hget : ((pre ++ [0x22, 0x01]) ++ hop :: tail).getD (pre ++ [0x22, 0x01]).length 0 = hop := by
    simp [getD]
  rw [hspl, hspl, hat, lowerHopLimit, hget, if_neg hhop, set_append_right _ _ le_rfl, Nat.sub_self,
    set_cons_zero]

end Walk

/-! ## What is written -/

/-- The fields of the second Interest, the hop limit apart, are those of the first. -/
structure SameButHopLimit (i j : Interest) : Prop where
  name : j.name = i.name
  selectors : j.selectors = i.selectors
  forwardingHint : j.forwardingHint = i.forwardingHint
  nonce : j.nonce = i.nonce
  lifetime : j.lifetime = i.lifetime
  reflexiveName : j.reflexiveName = i.reflexiveName
  appParameters : j.appParameters = i.appParameters
  sigInfo : j.sigInfo = i.sigInfo
  sigValue : j.sigValue = i.sigValue
  signedRegion : j.signedRegion = i.signedRegion

section Written

variable {i : Interest} {nameVal : Bytes} {pre post : List (ℕ × Bytes)} {rest : Bytes} {hop : UInt8}

/-- The elements of an Interest with a HopLimit. -/
private abbrev hopBody (nameVal : Bytes) (pre post : List (ℕ × Bytes)) (hop : UInt8) :
    List (ℕ × Bytes) := (TlvType.name, nameVal) :: (pre ++ (TlvType.hopLimit, [hop]) :: post)

/-- An Interest with another byte as its hop limit. -/
private def withHop (name : Name) (nameVal : Bytes) (pre post : List (ℕ × Bytes)) (rest : Bytes)
    (hop : UInt8) : Interest :=
  ⟨writeTlv TlvType.interest (writeTlvs (hopBody nameVal pre post hop)) ++ rest, name⟩

private lemma bodyFold_hopLimit (s : BodyState) (v w : Bytes) :
    bodyFold s (pre ++ (TlvType.hopLimit, v) :: post) =
      bodyFold s (pre ++ (TlvType.hopLimit, w) :: post) := by
  have hstep : ∀ s, bodyStep s TlvType.hopLimit v = bodyStep s TlvType.hopLimit w := fun _ => rfl
  simp only [bodyFold, foldlM_append, foldlM_cons, hstep]

private lemma Layout.withHop
    (h : Layout i nameVal (pre ++ (TlvType.hopLimit, [hop]) :: post) rest) (hop' : UInt8) :
    Layout (withHop i.name nameVal pre post rest hop') nameVal
      (pre ++ (TlvType.hopLimit, [hop']) :: post) rest := by
  obtain ⟨htyp, hlen, -⟩ := readTlv_eq_ok_iff.mp h.read
  have hsize : (writeTlvs (hopBody nameVal pre post hop')).length < 2 ^ 64 := by
    refine lt_of_eq_of_lt ?_ hlen
    simp [writeTlv_length, tlvSize]
  obtain ⟨s, hfold, hpsdc⟩ := h.body
  refine ⟨readTlv_writeTlv _ htyp hsize, ?_, h.named, h.nonempty, s, ?_, hpsdc⟩
  · intro e he
    have hok := h.ok e
    simp only [mem_cons, mem_append] at he hok
    rcases he with he | he | rfl | he
    · exact hok (.inl he)
    · exact hok (.inr (.inl he))
    · exact ⟨by simp [TlvType.hopLimit], by simp⟩
    · exact hok (.inr (.inr (.inr he)))
  · rw [bodyFold_hopLimit _ [hop'] [hop]]
    exact hfold

/-- Two Interests that differ in their hop limit agree in all other fields. -/
private lemma Layout.sameButHopLimit {j : Interest} {v w : Bytes}
    (hi : Layout i nameVal (pre ++ (TlvType.hopLimit, v) :: post) rest)
    (hj : Layout j nameVal (pre ++ (TlvType.hopLimit, w) :: post) rest)
    (hname : j.name = i.name) : i.SameButHopLimit j := by
  have hfld : ∀ typ, typ ≠ TlvType.name → typ ≠ TlvType.hopLimit →
      j.findField typ = i.findField typ := by
    intro typ htyp hne
    rw [hi.findField_eq htyp, hj.findField_eq htyp]
    simp [find?_append, hne.symm]
  have happ : j.appParameters = i.appParameters := hfld _ (by decide) (by decide)
  refine ⟨hname, ?_, ?_, ?_, ?_, ?_, happ, ?_, hfld _ (by decide) (by decide), ?_⟩
  · have hcbp : TlvType.hopLimit ≠ TlvType.canBePrefix := by decide
    have hmbf : TlvType.hopLimit ≠ TlvType.mustBeFresh := by decide
    rw [hi.selectors_eq, hj.selectors_eq]
    simp [hcbp, hmbf]
  · rw [forwardingHint, forwardingHint, hfld _ (by decide) (by decide)]
  · rw [nonce, nonce, hfld _ (by decide) (by decide)]
  · rw [lifetime, lifetime, hfld _ (by decide) (by decide)]
  · rw [reflexiveName, reflexiveName, hfld _ (by decide) (by decide)]
  · rw [sigInfo, sigInfo, hfld _ (by decide) (by decide)]
  · rw [hi.signedRegion_eq, hj.signedRegion_eq, hname, happ, hfld _ (by decide) (by decide)]

private lemma Layout.hopLimit_eq_some_iff {es : List (ℕ × Bytes)} (h : Layout i nameVal es rest) :
    i.hopLimit = some hop ↔ ∃ pre post, es = pre ++ (TlvType.hopLimit, [hop]) :: post ∧
      ∀ e ∈ pre, e.1 ≠ TlvType.hopLimit := by
  have hfind : i.hopLimit = some hop ↔
      es.find? (fun e => e.1 = TlvType.hopLimit) = some (TlvType.hopLimit, [hop]) := by
    rw [hopLimit, h.findField_eq (by decide)]
    cases hes : es.find? fun e => e.1 = TlvType.hopLimit with
    | none => simp
    | some e =>
      obtain ⟨typ, val⟩ := e
      have htyp : typ = TlvType.hopLimit := by simpa using find?_some hes
      subst htyp
      rcases val with _ | ⟨b, _ | ⟨c, bs⟩⟩
      all_goals simp
  rw [hfind, find?_eq_some_iff_append]
  simp

/-- The header of an Interest with a hop limit, whichever byte that is. -/
private def hopHeader (nameVal : Bytes) (pre post : List (ℕ × Bytes)) : Bytes :=
  writeVaru64 TlvType.interest ++ writeVaru64 (writeTlvs (hopBody nameVal pre post 0)).length

private lemma withHop_raw (name : Name) (hop : UInt8) :
    (withHop name nameVal pre post rest hop).raw = hopHeader nameVal pre post ++
      (writeTlvs ((TlvType.name, nameVal) :: pre) ++
        (writeTlv TlvType.hopLimit [hop] ++ (writeTlvs post ++ rest))) := by
  have hlen : (writeTlvs (hopBody nameVal pre post hop)).length =
      (writeTlvs (hopBody nameVal pre post 0)).length := by
    simp [writeTlv_length, tlvSize]
  simp only [Interest.withHop, hopHeader, writeTlv.eq_1 TlvType.interest, hlen]
  simp

variable {hop : UInt8} (h : Layout i nameVal (pre ++ (TlvType.hopLimit, [hop]) :: post) rest)
  (hpre : ∀ e ∈ pre, e.1 ≠ TlvType.hopLimit) (hhop : hop ≠ 0) (hsize : i.raw.length < 2 ^ 64)

include h in
private lemma Layout.raw_eq : i.raw = hopHeader nameVal pre post ++
    (writeTlvs ((TlvType.name, nameVal) :: pre) ++
      (writeTlv TlvType.hopLimit [hop] ++ (writeTlvs post ++ rest))) := by
  rw [← withHop_raw i.name]
  exact (readTlv_eq_ok_iff.mp h.read).2.2

include h hpre in
private lemma Layout.skip_ok :
    ∀ e ∈ (TlvType.name, nameVal) :: pre, ElementOk e ∧ e.1 ≠ TlvType.hopLimit := by
  intro e he
  refine ⟨h.ok e (by simp only [mem_cons, mem_append] at he ⊢; tauto), ?_⟩
  rcases mem_cons.mp he with rfl | he
  · simp [TlvType.name, TlvType.hopLimit]
  · exact hpre e he

private lemma hopHeader_length (hop : UInt8) :
    (hopHeader nameVal pre post).length = varu64Size TlvType.interest +
      varu64Size (writeTlvs (hopBody nameVal pre post hop)).length := by
  simp [hopHeader, writeTlv_length, tlvSize]

include h hhop in
/-- What is written, with the byte at its place in the wire. -/
private lemma Layout.lowerHopLimit_eq {at_ : ℕ} (hat : at_ = (hopHeader nameVal pre post).length +
      (writeTlvs ((TlvType.name, nameVal) :: pre)).length + 2) :
    lowerHopLimit i.raw at_ =
      ((Interest.withHop i.name nameVal pre post rest (hop - 1)).raw, hop - 1) := by
  rw [hat, h.raw_eq, ← append_assoc, ← length_append, lowerHopLimit_writeTlv _ _ hhop, withHop_raw,
    append_assoc]

include h hpre hhop hsize in
private lemma Layout.decrementHopLimitInPlace_eq : decrementHopLimitInPlace i.raw =
    some (some ((Interest.withHop i.name nameVal pre post rest (hop - 1)).raw, hop - 1)) := by
  obtain ⟨htyp, hlen, hraw⟩ := readTlv_eq_ok_iff.mp h.read
  have hread := readVaru64_writeTlv (writeTlvs (hopBody nameVal pre post hop)) rest
    (htyp.trans (by decide))
  have hread' := readVaru64_drop_writeTlv TlvType.interest rest hlen
  rw [← hraw] at hread hread'
  have hloop : hopLimitLoop i.raw (hopHeader nameVal pre post).length =
      some (some ((hopHeader nameVal pre post).length +
        (writeTlvs ((TlvType.name, nameVal) :: pre)).length + 2)) := by
    have hraw' := h.raw_eq
    rw [hraw'] at hsize ⊢
    refine hopLimitLoop_eq_some_iff.mpr ⟨_, walk_writeTlvs _ _ (h.skip_ok hpre) hsize, ?_⟩
    rw [← append_assoc] at hsize ⊢
    rw [← length_append]
    exact hopLimitTurn_hopLimit _ _ hop hsize
  rw [decrementHopLimitInPlace, hread]
  simp only
  rw [hread']
  simp only
  rw [← hopHeader_length hop, hloop, Option.map_some, Option.map_some, h.lowerHopLimit_eq hhop rfl]

end Written

/-! ## When both do it -/

/-- The first HopLimit among the elements of a value is at the offset. -/
def HopLimitAt (value : Bytes) (offset : ℕ) (hop : UInt8) : Prop :=
  ∃ pre post, (∀ e ∈ pre, ElementOk e ∧ e.1 ≠ TlvType.hopLimit) ∧
    value = writeTlvs pre ++ (writeTlv TlvType.hopLimit [hop] ++ post) ∧
    offset = (writeTlvs pre).length

/-- The walk that starts as many bytes into the value as stand behind it arrives at the offset. -/
def Arrives (value rest : Bytes) (offset : ℕ) : Prop :=
  rest.length ≤ offset ∧
    Relation.ReflTransGen (Run.Goes (hopLimitTurn ((value ++ rest).drop rest.length))) 0
      (offset - rest.length)

section Copying

variable {raw value rest out hdr : Bytes} {offset : ℕ} {hop : UInt8}

/-- A byte is changed at one place only. -/
lemma eq_of_lowerHopLimit_eq {a b : ℕ} (hb : raw.getD b 0 = hop) (hhop : hop ≠ 0)
    (ha : lowerHopLimit raw a = (out, hop - 1)) (hlow : lowerHopLimit raw b = (out, hop - 1)) :
    a = b := by
  by_contra hne
  have hlt : b < raw.length := by
    by_contra hge
    rw [getD_eq_getElem?_getD, getElem?_eq_none (by omega)] at hb
    exact hhop hb.symm
  have hout : out = raw.set b (hop - 1) := by
    have h := hlow
    rw [lowerHopLimit, hb, if_neg hhop] at h
    exact (congrArg Prod.fst h).symm
  have hset : ∃ new, out = raw.set a new := ⟨_, (congrArg Prod.fst ha).symm⟩
  obtain ⟨new, hset⟩ := hset
  have hkept : out.getD b 0 = hop := by
    rw [hset, ← hb, getD_eq_getElem?_getD, getD_eq_getElem?_getD, getElem?_set_ne hne]
  rw [hout, getD_eq_getElem?_getD, getElem?_set_self hlt, Option.getD_some] at hkept
  grind

lemma getD_hopLimit (hdr front back : Bytes) (hop : UInt8) :
    (hdr ++ (front ++ (writeTlv TlvType.hopLimit [hop] ++ back))).getD
      (hdr.length + front.length + 2) 0 = hop := by
  have hbs : writeTlv TlvType.hopLimit [hop] = [0x22, 0x01, hop] := rfl
  have hspl : hdr ++ (front ++ (writeTlv TlvType.hopLimit [hop] ++ back)) =
      (hdr ++ (front ++ [0x22, 0x01])) ++ hop :: back := by simp [hbs]
  have hpos : hdr.length + front.length + 2 = (hdr ++ (front ++ [0x22, 0x01])).length := by
    simp [Nat.add_assoc]
  rw [hspl, hpos]
  simp [getD]

/-- The copying function writes what the other writes iff its walk arrives at the HopLimit. -/
lemma decrementHopLimit_eq_iff (hsize : raw.length < 2 ^ 64)
    (hread : readTlv raw = .ok ((TlvType.interest, value), rest))
    (hraw : raw = hdr ++ (value ++ rest)) (hat : HopLimitAt value offset hop) (hhop : hop ≠ 0)
    (hout : lowerHopLimit raw (hdr.length + offset + 2) = (out, hop - 1)) :
    decrementHopLimit raw = some (some (out, hop - 1)) ↔ Arrives value rest offset := by
  obtain ⟨pre, post, hpre, rfl, rfl⟩ := hat
  have hlen : raw.length - (writeTlvs pre ++ (writeTlv TlvType.hopLimit [hop] ++ post)).length =
      hdr.length + rest.length := by
    rw [hraw]
    simp only [length_append]
    omega
  have hbody : raw.drop (hdr.length + rest.length) =
      (writeTlvs pre ++ (writeTlv TlvType.hopLimit [hop] ++ post) ++ rest).drop rest.length := by
    rw [hraw, ← drop_drop, drop_left]
  rw [decrementHopLimit, hread]
  simp only
  rw [hlen, hbody, Arrives]
  constructor
  · intro h
    obtain ⟨found, hloop, hfound⟩ := Option.map_eq_some_iff.mp h
    obtain ⟨off, rfl, hlower⟩ := Option.map_eq_some_iff.mp hfound
    obtain ⟨q, hwalk, hturn⟩ := hopLimitLoop_eq_some_iff.mp hloop
    obtain rfl := hopLimitTurn_eq_found hturn
    have hbyte := getD_hopLimit hdr (writeTlvs pre) (post ++ rest) hop
    rw [← append_assoc _ post, ← append_assoc (writeTlvs pre), ← hraw] at hbyte
    have hsame := eq_of_lowerHopLimit_eq hbyte hhop hlower hout
    have hq : q = (writeTlvs pre).length - rest.length := by omega
    rw [hq] at hwalk
    exact ⟨by omega, hwalk⟩
  · rintro ⟨hle, hwalk⟩
    have hcut : (writeTlvs pre ++ (writeTlv TlvType.hopLimit [hop] ++ post) ++ rest).drop
        rest.length = (writeTlvs pre).drop rest.length ++
          (writeTlv TlvType.hopLimit [hop] ++ (post ++ rest)) := by
      rw [append_assoc, append_assoc, drop_append_of_le_length hle]
    have hshort : ((writeTlvs pre).drop rest.length ++
        (writeTlv TlvType.hopLimit [hop] ++ (post ++ rest))).length < 2 ^ 64 := by
      rw [← hcut, ← hbody, length_drop]
      omega
    have hturn := hopLimitTurn_hopLimit _ _ hop hshort
    rw [length_drop, ← hcut] at hturn
    rw [hopLimitLoop_eq_some_iff.mpr ⟨_, hwalk, hturn⟩, Option.map_some, Option.map_some, ← hout]
    congr 3
    omega

end Copying

/-- **The hop limit is lowered by one.** On an Interest whose hop limit is not zero the function
that writes in place succeeds, and leaves the same Interest with a hop less. The one that copies
does the same iff its walk arrives at the HopLimit, which it starts for as many bytes into the
Interest as follow it. -/
theorem decrementHopLimit_decodes {raw : Bytes} {i : Interest} {hop : UInt8}
    (hsize : raw.length < 2 ^ 64) (hdecode : decode raw = .ok i) (hlimit : i.hopLimit = some hop)
    (hhop : 1 ≤ hop) :
    ∃ value rest offset out j, readTlv raw = .ok ((TlvType.interest, value), rest) ∧
      HopLimitAt value offset hop ∧
      decrementHopLimitInPlace raw = some (some (out, hop - 1)) ∧
      decode out = .ok j ∧ i.SameButHopLimit j ∧ j.hopLimit = some (hop - 1) ∧
      (decrementHopLimit raw = some (some (out, hop - 1)) ↔ Arrives value rest offset) := by
  obtain ⟨rfl, nameVal, es, rest, h⟩ := decode_eq_ok_iff_layout.mp hdecode
  obtain ⟨pre, post, rfl, hpre⟩ := h.hopLimit_eq_some_iff.mp hlimit
  have hne : hop ≠ 0 := by
    rintro rfl
    exact absurd hhop (by decide)
  have hj := h.withHop (hop - 1)
  have hat : HopLimitAt (writeTlvs (hopBody nameVal pre post hop))
      (writeTlvs ((TlvType.name, nameVal) :: pre)).length hop :=
    ⟨_, writeTlvs post, h.skip_ok hpre, by simp, rfl⟩
  have hraw : i.raw =
      hopHeader nameVal pre post ++ (writeTlvs (hopBody nameVal pre post hop) ++ rest) := by
    rw [h.raw_eq]
    simp
  exact ⟨_, rest, _, _, _, h.read, hat, h.decrementHopLimitInPlace_eq hpre hne hsize,
    decode_eq_ok_iff_layout.mpr ⟨rfl, nameVal, _, rest, hj⟩, h.sameButHopLimit hj rfl,
    hj.hopLimit_eq_some_iff.mpr ⟨pre, post, rfl, hpre⟩,
    decrementHopLimit_eq_iff hsize h.read hraw hat hne (h.lowerHopLimit_eq hne rfl)⟩

def fiveHops : Bytes := [0x05, 0x08, 0x07, 0x03, 0x08, 0x01, 0x61, 0x22, 0x01, 0x05]

/-- Five hops become four, also where as many bytes follow the Interest as its Name has: the walk of
the copying function then starts at the HopLimit. -/
theorem five_hops_become_four :
    let wire := fiveHops ++ [0, 0, 0, 0, 0]
    decrementHopLimit wire = some (some (wire.set 9 4, 4)) ∧
    ∃ value rest offset out j, readTlv wire = .ok ((TlvType.interest, value), rest) ∧
      HopLimitAt value offset 5 ∧ decrementHopLimitInPlace wire = some (some (out, 4)) ∧
      decode out = .ok j ∧ SameButHopLimit ⟨wire, [.generic [0x61]]⟩ j ∧ j.hopLimit = some 4 ∧
      (decrementHopLimit wire = some (some (out, 4)) ↔ Arrives value rest offset) :=
  ⟨by decide, decrementHopLimit_decodes (by decide) (by decide)
    (by decide : Interest.hopLimit ⟨fiveHops ++ [0, 0, 0, 0, 0], [.generic [0x61]]⟩ = some 5)
    (by decide)⟩

/-- **A byte behind the Interest.** It is accepted with its hop limit, and written into; the copying
function starts one byte late and finds none. -/
theorem trailing_bytes_hide_hop_limit :
    let wire := fiveHops ++ [0x00]
    (∃ i, decode wire = .ok i ∧ i.hopLimit = some 5) ∧
      decrementHopLimitInPlace wire = some (some (wire.set 9 4, 4)) ∧
      decrementHopLimit wire = some none := by
  refine ⟨⟨⟨fiveHops ++ [0x00], [.generic [0x61]]⟩, by decide, by decide⟩, ?_, ?_⟩ <;> decide

end NdnRs.Interest
