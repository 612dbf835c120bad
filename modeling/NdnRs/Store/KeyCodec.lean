import NdnRs.Lib.LexCode
import NdnRs.Wire.Name

/-!
# Keys of the persistent content stores (`ndn-store/src/cs_keycodec.rs`)

The persistent stores keep their entries in an ordered table of byte strings. A name's key is its
components one after another, each as its type, its length and its bytes, so that the table is in
the canonical order of names and a prefix lookup is a range scan.

## Main results

* `key_codec_correct` — round trip, order and prefix scans.
-/

namespace NdnRs.KeyCodec

open Bytes List UInt8

/-! ## The codec -/

def writeVar (val : ℕ) : Bytes :=
  if val < 253 then [UInt8.ofNat val]
  else if val ≤ 0xFFFF then 253 :: beBytes 2 val
  else if val ≤ 0xFFFFFFFF then 254 :: beBytes 4 val
  else 255 :: beBytes 8 val

/-- `read_var`: the value and the number of bytes consumed. A longer form than needed is read. -/
def readVar : Bytes → Option (ℕ × ℕ)
  | [] => none
  | first :: rest =>
    if first.toNat ≤ 252 then some (first.toNat, 1)
    else if first.toNat = 253 then
      if rest.length < 2 then none else some (beNat (rest.take 2), 3)
    else if first.toNat = 254 then
      if rest.length < 4 then none else some (beNat (rest.take 4), 5)
    else
      if rest.length < 8 then none else some (beNat (rest.take 8), 9)

def componentKey (comp : NameComponent) : Bytes :=
  writeVar comp.typ.toNat ++ writeVar comp.value.length ++ comp.value

def nameToKey (name : Name) : Bytes := name.flatMap componentKey

/-- The loop of `key_to_name`, on the bytes from `pos` on. Every turn consumes a byte, so the length
of the key is fuel enough. -/
def keyToNameLoop : ℕ → Name → Bytes → Option Name
  | _, components, [] => some components
  | 0, _, _ :: _ => none
  | fuel + 1, components, key@(_ :: _) => do
    let (typ, consumed) ← readVar key
    let key := key.drop consumed
    let (len, consumed) ← readVar key
    let key := key.drop consumed
    if len > key.length then none
    else keyToNameLoop fuel (components ++ [⟨.ofNat typ, key.take len⟩]) (key.drop len)

def keyToName (key : Bytes) : Option Name := keyToNameLoop key.length [] key

/-- The loop of `prefix_upper_bound`, on the bytes from the last one back. -/
def prefixUpperBoundLoop : Bytes → Option Bytes
  | [] => none
  | last :: end_ =>
    if last < 0xFF then some ((last + 1) :: end_).reverse else prefixUpperBoundLoop end_

/-- `prefix_upper_bound`; `none` is the end of the table. -/
def prefixUpperBound (pre : Bytes) : Option Bytes := prefixUpperBoundLoop pre.reverse

/-- The key is in the range from `pre` to `prefix_upper_bound(pre)`. -/
def InScan (pre key : Bytes) : Prop :=
  (compare pre key).isLE ∧ ∀ bound, prefixUpperBound pre = some bound → compare key bound = .lt

/-! ## Integers -/

lemma writeVar_ne_nil (val : ℕ) : writeVar val ≠ [] := by
  unfold writeVar
  split_ifs <;> exact cons_ne_nil _ _

lemma readVar_writeVar {val : ℕ} (hval : val < 2 ^ 64) (key : Bytes) :
    readVar (writeVar val ++ key) = some (val, (writeVar val).length) := by
  have hwide : ∀ w, val < 256 ^ w → ¬ (beBytes w val ++ key).length < w ∧
      beNat ((beBytes w val ++ key).take w) = val := by
    intro w hw
    rw [take_append_of_le_length (by simp), take_of_length_le (by simp),
      beNat_beBytes hw, length_append, beBytes_length]
    exact ⟨by omega, rfl⟩
  unfold writeVar
  split_ifs with h1 h2 h4
  · have hbyte : (ofNat val).toNat = val := by
      rw [toNat_ofNat']
      omega
    rw [singleton_append, readVar, hbyte, if_pos (by omega)]
    rfl
  · obtain ⟨hlen, hvalue⟩ := hwide 2 (by omega)
    simp only [cons_append, readVar, if_neg hlen, hvalue]
    rfl
  · obtain ⟨hlen, hvalue⟩ := hwide 4 (by omega)
    simp only [cons_append, readVar, if_neg hlen, hvalue]
    rfl
  · obtain ⟨hlen, hvalue⟩ := hwide 8 (by omega)
    simp only [cons_append, readVar, if_neg hlen, hvalue]
    rfl

/-- The marker of an integer's width, or the integer itself. -/
def marker (val : ℕ) : ℕ :=
  if val < 253 then val else if val ≤ 0xFFFF then 253 else if val ≤ 0xFFFFFFFF then 254 else 255

/-- The width behind the marker. -/
def width (val : ℕ) : ℕ :=
  if val < 253 then 0 else if val ≤ 0xFFFF then 2 else if val ≤ 0xFFFFFFFF then 4 else 8

lemma writeVar_eq (val : ℕ) : writeVar val = ofNat (marker val) :: beBytes (width val) val := by
  unfold writeVar marker width
  split_ifs <;> rfl

/-- Integers are written in the order of their values. -/
lemma writeVar_preserves :
    LexCode.Preserves compare compare (fun val => val < 2 ^ 64) writeVar := by
  intro a b ha hb t t'
  have hmar : ∀ val, (ofNat (marker val)).toNat = marker val := by
    intro val
    rw [toNat_ofNat', marker]
    split_ifs <;> omega
  rw [writeVar_eq, writeVar_eq, List.cons_append, List.cons_append, List.compareLex_cons_cons,
    LexCode.compare_uint8, hmar, hmar]
  rcases lt_trichotomy (marker a) (marker b) with hlt | heq | hgt
  · -- a smaller marker stands for smaller values
    have hab : a < b := by
      revert hlt
      unfold marker
      split_ifs <;> omega
    rw [Nat.compare_eq_lt.mpr hlt, Nat.compare_eq_lt.mpr hab]
    rfl
  · -- equal markers: the same single byte, or wide forms of one width
    have hwid : width a = width b ∧
        (width a = 0 ∧ a = b ∨ a < 256 ^ width a ∧ b < 256 ^ width a) := by
      revert heq
      unfold marker width
      split_ifs <;> omega
    obtain ⟨hw, ⟨hzero, hab⟩ | ⟨hwa, hwb⟩⟩ := hwid
    · rw [heq, Nat.compare_eq_eq.mpr rfl, Ordering.eq_then, ← hw, hzero, hab,
        Nat.compare_eq_eq.mpr rfl]
      rfl
    · rw [heq, Nat.compare_eq_eq.mpr rfl, Ordering.eq_then, ← hw,
        LexCode.compareLex_append (by simp), LexCode.compareLex_beBytes hwa hwb]
  · have hab : b < a := by
      revert hgt
      unfold marker
      split_ifs <;> omega
    rw [Nat.compare_eq_gt.mpr hgt, Nat.compare_eq_gt.mpr hab]
    rfl

/-! ## Names -/

def Sized (comp : NameComponent) : Prop := comp.value.length < 2 ^ 64

lemma componentKey_ne_nil (comp : NameComponent) : componentKey comp ≠ [] := by
  intro h
  rw [componentKey, append_assoc, append_eq_nil_iff] at h
  exact writeVar_ne_nil _ h.1

lemma componentKey_preserves : LexCode.Preserves NameComponent.cmp compare Sized componentKey := by
  intro a b ha hb t t'
  rw [componentKey, componentKey]
  simp only [append_assoc]
  rw [writeVar_preserves _ _ a.typ.toNat_lt b.typ.toNat_lt, writeVar_preserves _ _ ha hb,
    NameComponent.cmp, Ordering.then_assoc, Ordering.then_assoc]
  have htyp : compare a.typ b.typ = compare a.typ.toNat b.typ.toNat := by
    simp only [compare, compareOfLessAndEq, UInt64.lt_iff_toNat_lt, UInt64.toNat_inj]
  rw [htyp]
  congr 1
  -- the bytes are reached only behind equal lengths
  by_cases hlen : a.value.length = b.value.length
  · rw [LexCode.compareLex_append hlen]
    rfl
  have hne : compare a.value.length b.value.length ≠ .eq :=
    fun h => hlen (Nat.compare_eq_eq.mp h)
  cases hcmp : compare a.value.length b.value.length with
  | eq => exact absurd hcmp hne
  | lt => rfl
  | gt => rfl

lemma keyToNameLoop_componentKey {comp : NameComponent} (hcomp : Sized comp) (fuel : ℕ)
    (components : Name) (key : Bytes) :
    keyToNameLoop (fuel + 1) components (componentKey comp ++ key) =
      keyToNameLoop fuel (components ++ [comp]) key := by
  obtain ⟨first, rest, hcons⟩ :=
    exists_cons_of_ne_nil (l := componentKey comp ++ key) (by simp [componentKey_ne_nil comp])
  have htyp : readVar (componentKey comp ++ key) =
      some (comp.typ.toNat, (writeVar comp.typ.toNat).length) := by
    rw [componentKey, append_assoc, append_assoc, readVar_writeVar comp.typ.toNat_lt]
  rw [hcons, keyToNameLoop, ← hcons, htyp]
  simp only [componentKey, append_assoc, Option.bind_eq_bind, Option.bind_some,
    drop_left, readVar_writeVar hcomp, length_append, take_left,
    UInt64.ofNat_toNat]
  rw [if_neg (by omega)]

variable {name : Name} {b : UInt8}

lemma keyToNameLoop_nameToKey (hname : ∀ comp ∈ name, Sized comp) (fuel : ℕ)
    (hfuel : name.length ≤ fuel) (components : Name) :
    keyToNameLoop fuel components (nameToKey name) = some (components ++ name) := by
  induction name generalizing fuel components with
  | nil =>
    cases fuel <;> rw [append_nil] <;> rfl
  | cons comp name ih =>
    rw [forall_mem_cons] at hname
    obtain ⟨fuel, rfl⟩ : ∃ fuel', fuel = fuel' + 1 :=
      ⟨fuel - 1, by rw [length_cons] at hfuel; omega⟩
    rw [nameToKey, flatMap_cons, keyToNameLoop_componentKey hname.1]
    rw [length_cons] at hfuel
    have := ih hname.2 fuel (by omega) (components ++ [comp])
    rw [nameToKey] at this
    rw [this, append_assoc, singleton_append]

lemma length_le_nameToKey (name : Name) : name.length ≤ (nameToKey name).length := by
  induction name with
  | nil => exact le_rfl
  | cons comp name ih =>
    have hpos : 0 < (componentKey comp).length :=
      length_pos_of_ne_nil (componentKey_ne_nil comp)
    rw [nameToKey, flatMap_cons, length_append, length_cons]
    rw [nameToKey] at ih
    omega

/-- **A key is decoded to its name.** -/
theorem keyToName_nameToKey (hname : ∀ comp ∈ name, Sized comp) :
    keyToName (nameToKey name) = some name :=
  keyToNameLoop_nameToKey hname _ (length_le_nameToKey name) []

/-- **Keys are ordered as names are.** -/
theorem compare_nameToKey {n m : Name} (hn : ∀ comp ∈ n, Sized comp)
    (hm : ∀ comp ∈ m, Sized comp) : compare (nameToKey n) (nameToKey m) = n.cmp m :=
  componentKey_preserves.compareLex_flatMap componentKey_ne_nil hn hm

/-! ## Prefix scans -/

lemma prefixUpperBoundLoop_snoc (pre : Bytes) (first : UInt8) :
    prefixUpperBoundLoop (pre ++ [first]) =
      ((prefixUpperBoundLoop pre).map (first :: ·)).or
        (if first < 0xFF then some [first + 1] else none) := by
  induction pre with
  | nil =>
    rfl
  | cons last pre ih =>
    rw [cons_append, prefixUpperBoundLoop, prefixUpperBoundLoop]
    by_cases hlast : last < 0xFF
    · rw [if_pos hlast, if_pos hlast]
      simp
    · rw [if_neg hlast, if_neg hlast]
      exact ih

lemma prefixUpperBound_cons (first : UInt8) (pre : Bytes) :
    prefixUpperBound (first :: pre) =
      ((prefixUpperBound pre).map (first :: ·)).or
        (if first < 0xFF then some [first + 1] else none) := by
  rw [prefixUpperBound, reverse_cons, prefixUpperBoundLoop_snoc]
  rfl

lemma compare_cons (x y : UInt8) (xs ys : Bytes) :
    compare (x :: xs) (y :: ys) = (compare x.toNat y.toNat).then (compare xs ys) := by
  rw [← LexCode.compare_uint8]
  exact List.compareLex_cons_cons

lemma toNat_succ (hb : b < 0xFF) : (b + 1).toNat = b.toNat + 1 := by
  have : b.toNat < 255 := lt_iff_toNat_lt.mp hb
  simp
  omega

lemma not_inScan_of_lt {c : UInt8} (hbc : b.toNat < c.toNat) (pre key : Bytes) :
    ¬ InScan (b :: pre) (c :: key) := by
  rintro ⟨-, hbd⟩
  have hb : b < 0xFF := by
    refine lt_iff_toNat_lt.mpr (hbc.trans_le ?_)
    have := c.toNat_lt
    simp
    omega
  rw [prefixUpperBound_cons, if_pos hb] at hbd
  cases hrest : prefixUpperBound pre with
  | some bound =>
    have hlt := hbd (b :: bound) (by rw [hrest]; rfl)
    rw [compare_cons, Nat.compare_eq_gt.mpr hbc] at hlt
    cases hlt
  | none =>
    have hlt := hbd [b + 1] (by rw [hrest]; rfl)
    rw [compare_cons, toNat_succ hb] at hlt
    rcases Nat.lt_or_eq_of_le (Nat.succ_le_of_lt hbc) with hgt | heq
    · rw [Nat.compare_eq_gt.mpr hgt] at hlt
      cases hlt
    · rw [Nat.compare_eq_eq.mpr heq.symm] at hlt
      cases key <;> cases hlt

lemma inScan_cons_self (b : UInt8) (pre key : Bytes) :
    InScan (b :: pre) (b :: key) ↔ InScan pre key := by
  have hsame : ∀ xs ys : Bytes, compare (b :: xs) (b :: ys) = compare xs ys := by
    intro xs ys
    rw [compare_cons, Nat.compare_eq_eq.mpr rfl, Ordering.eq_then]
  rw [InScan, InScan, hsame, prefixUpperBound_cons]
  refine and_congr_right fun _ => ?_
  cases hrest : prefixUpperBound pre with
  | some bound =>
    constructor
    · rintro h bound' ⟨⟩
      rw [← hsame]
      exact h _ rfl
    · rintro h bound' ⟨⟩
      rw [hsame]
      exact h _ rfl
  | none =>
    -- the next byte bounds every key that goes on with `b`
    refine ⟨fun _ _ h => absurd h nofun, fun _ bound h => ?_⟩
    rw [Option.map_none, Option.none_or] at h
    split_ifs at h with hb
    cases h
    rw [compare_cons, toNat_succ hb, Nat.compare_eq_lt.mpr (Nat.lt_succ_self _)]
    rfl

/-- **A scan covers the extensions.** A byte string is in the range from `pre` to its upper bound
iff it starts with `pre`. -/
theorem inScan_iff {pre key : Bytes} : InScan pre key ↔ pre <+: key := by
  induction pre generalizing key with
  | nil =>
    refine ⟨fun _ => nil_prefix, fun _ => ⟨?_, nofun⟩⟩
    cases key <;> rfl
  | cons b pre ih =>
    cases key with
    | nil =>
      refine ⟨fun h => ?_, fun h => ?_⟩
      · cases h.1
      · cases prefix_nil.mp h
    | cons c key =>
      rcases lt_trichotomy b.toNat c.toNat with hlt | heq | hgt
      · refine ⟨fun h => absurd h (not_inScan_of_lt hlt pre key), fun h => ?_⟩
        rw [(cons_prefix_cons.mp h).1] at hlt
        omega
      · obtain rfl := UInt8.toNat_inj.mp heq
        rw [inScan_cons_self, ih, cons_prefix_cons]
        simp
      refine ⟨fun h => ?_, fun h => ?_⟩
      · have hle := h.1
        rw [compare_cons, Nat.compare_eq_gt.mpr hgt] at hle
        cases hle
      · rw [(cons_prefix_cons.mp h).1] at hgt
        omega

/-- **The key codec.** On names with any component types and bytes: keys are decoded to their
names, so different names have different keys; the byte order of keys is the canonical order of
names; and a key is in the prefix scan of another iff its name has the other as a prefix. -/
theorem key_codec_correct {n m : Name} (hn : ∀ comp ∈ n, Sized comp) (hm : ∀ comp ∈ m, Sized comp) :
    keyToName (nameToKey n) = some n ∧
    (nameToKey n = nameToKey m → n = m) ∧
    compare (nameToKey n) (nameToKey m) = n.cmp m ∧
    (InScan (nameToKey m) (nameToKey n) ↔ n.hasPrefix m = true) := by
  refine ⟨keyToName_nameToKey hn, fun hkey => ?_, compare_nameToKey hn hm, ?_⟩
  · have hback := keyToName_nameToKey hn
    rw [hkey, keyToName_nameToKey hm] at hback
    exact (Option.some.inj hback).symm
  · rw [inScan_iff, Name.hasPrefix_iff]
    exact componentKey_preserves.prefix_flatMap_iff componentKey_ne_nil hm hn

/-- A maximal byte, and a type of eight bytes. -/
def sample : Name := [⟨8, [0xFF]⟩, ⟨0x100000000, []⟩]

/-- `key_codec_correct` for a prefix that ends in a maximal byte, and a type of eight bytes. -/
theorem key_codec_correct_sample :
    keyToName (nameToKey sample) = some sample ∧
    (InScan (nameToKey (sample.take 1)) (nameToKey sample) ↔
      Name.hasPrefix sample (sample.take 1) = true) := by
  have h := key_codec_correct (n := sample) (m := sample.take 1) (by simp [Sized, sample])
    (by simp [Sized, sample])
  exact ⟨h.1, h.2.2.2⟩

end NdnRs.KeyCodec
