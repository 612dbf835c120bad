import NdnRs.Lib.Bytes

/-!
# Order-preserving codes

A code maps values to strings of symbols. It preserves an order when comparing two encodings
symbol by symbol, whatever follows them, compares the values first and what follows only when they
are equal. Such a code is prefix-free, and writing values one after another preserves the
lexicographic order on lists of values and the relation of being a prefix.
-/

namespace NdnRs.LexCode

open Bytes List Ordering

section Codes

variable {α β : Type*} {cmp : α → α → Ordering} {out : β → β → Ordering}

lemma compareLex_append {s s' : List β} (hlen : s.length = s'.length) (t t' : List β) :
    List.compareLex out (s ++ t) (s' ++ t') =
      (List.compareLex out s s').then (List.compareLex out t t') := by
  induction s generalizing s' with
  | nil =>
    obtain rfl := List.eq_nil_of_length_eq_zero hlen.symm
    rfl
  | cons x s ih =>
    cases s' with
    | nil => cases hlen
    | cons y s' =>
      rw [List.cons_append, List.cons_append, List.compareLex_cons_cons,
        List.compareLex_cons_cons, ih (Nat.succ.inj hlen), then_assoc]

/-- The code compares encodings, whatever follows them, by their values and then by what follows,
for the values that satisfy `ok`. -/
def Preserves (cmp : α → α → Ordering) (out : β → β → Ordering) (ok : α → Prop)
    (enc : α → List β) : Prop :=
  ∀ a b, ok a → ok b → ∀ t t', List.compareLex out (enc a ++ t) (enc b ++ t') =
    (cmp a b).then (List.compareLex out t t')

namespace Preserves

variable {ok : α → Prop} {enc : α → List β} {as bs : List α}

/-- **Concatenation preserves the lexicographic order.** -/
theorem compareLex_flatMap (h : Preserves cmp out ok enc) (hne : ∀ a, enc a ≠ [])
    (has : ∀ a ∈ as, ok a) (hbs : ∀ b ∈ bs, ok b) :
    List.compareLex out (as.flatMap enc) (bs.flatMap enc) = List.compareLex cmp as bs := by
  induction as generalizing bs with
  | nil =>
    cases bs with
    | nil => rfl
    | cons b bs =>
      obtain ⟨x, s, hs⟩ := List.exists_cons_of_ne_nil (hne b)
      rw [List.flatMap_cons, hs]
      rfl
  | cons a as ih =>
    cases bs with
    | nil =>
      obtain ⟨x, s, hs⟩ := List.exists_cons_of_ne_nil (hne a)
      rw [List.flatMap_cons, hs]
      rfl
    | cons b bs =>
      rw [List.forall_mem_cons] at has hbs
      rw [List.flatMap_cons, List.flatMap_cons, h a b has.1 hbs.1, ih has.2 hbs.2,
        List.compareLex_cons_cons]

lemma eq_of_append_eq [Std.LawfulEqCmp cmp] [Std.ReflCmp out] (h : Preserves cmp out ok enc)
    {a b : α} (ha : ok a) (hb : ok b) {t t' : List β} (heq : enc a ++ t = enc b ++ t') : a = b := by
  have hcmp := h a b ha hb t t'
  have hself : List.compareLex out (enc b ++ t') (enc b ++ t') = .eq := Std.ReflCmp.compare_self
  rw [heq, hself] at hcmp
  exact Std.LawfulEqCmp.eq_of_compare (then_eq_eq.mp hcmp.symm).1

/-- **Concatenation preserves and reflects prefixes.** -/
theorem prefix_flatMap_iff [Std.LawfulEqCmp cmp] [Std.ReflCmp out] (h : Preserves cmp out ok enc)
    (hne : ∀ a, enc a ≠ []) (has : ∀ a ∈ as, ok a) (hbs : ∀ b ∈ bs, ok b) :
    as.flatMap enc <+: bs.flatMap enc ↔ as <+: bs := by
  constructor
  · intro hpre
    induction as generalizing bs with
    | nil => exact nil_prefix
    | cons a as ih =>
      rw [forall_mem_cons] at has
      cases bs with
      | nil =>
        rw [flatMap_cons, flatMap_nil, prefix_nil, append_eq_nil_iff] at hpre
        exact absurd hpre.1 (hne a)
      | cons b bs =>
        rw [forall_mem_cons] at hbs
        obtain ⟨t, ht⟩ := hpre
        rw [flatMap_cons, flatMap_cons, append_assoc] at ht
        obtain rfl := h.eq_of_append_eq has.1 hbs.1 ht
        rw [append_cancel_left_eq] at ht
        exact cons_prefix_cons.mpr ⟨rfl, ih has.2 hbs.2 ⟨t, ht⟩⟩
  · rintro ⟨cs, rfl⟩
    rw [flatMap_append]
    exact prefix_append _ _

end Preserves

end Codes

/-! ## Big-endian integers -/

lemma compare_uint8 (x y : UInt8) : compare x y = compare x.toNat y.toNat := by
  simp only [compare, compareOfLessAndEq, UInt8.lt_iff_toNat_lt, UInt8.toNat_inj]

/-- Byte strings of one length are compared by the numbers they denote. -/
lemma compareLex_eq_compare_beNat {xs ys : Bytes} (hlen : xs.length = ys.length) :
    List.compareLex compare xs ys = compare (beNat xs) (beNat ys) := by
  induction xs generalizing ys with
  | nil =>
    obtain rfl := List.eq_nil_of_length_eq_zero hlen.symm
    rfl
  | cons x xs ih =>
    cases ys with
    | nil => cases hlen
    | cons y ys =>
      have hlen' : xs.length = ys.length := Nat.succ.inj hlen
      have hx := beNat_lt xs
      have hy := beNat_lt ys
      rw [← hlen'] at hy
      rw [List.compareLex_cons_cons, compare_uint8, ih hlen', beNat_cons, beNat_cons, ← hlen']
      -- the leading digits decide unless they are equal
      rcases lt_trichotomy x.toNat y.toNat with hlt | heq | hgt
      · have hword : (x.toNat + 1) * 256 ^ xs.length ≤ y.toNat * 256 ^ xs.length :=
          Nat.mul_le_mul_right _ hlt
        rw [Nat.compare_eq_lt.mpr hlt, lt_then, eq_comm, Nat.compare_eq_lt]
        rw [Nat.succ_mul] at hword
        omega
      · rw [heq, Nat.compare_eq_eq.mpr rfl, eq_then, Nat.compare_eq_ite_lt,
          Nat.compare_eq_ite_lt]
        simp only [Nat.add_lt_add_iff_left]
      · have hword : (y.toNat + 1) * 256 ^ xs.length ≤ x.toNat * 256 ^ xs.length :=
          Nat.mul_le_mul_right _ hgt
        rw [Nat.compare_eq_gt.mpr hgt, gt_then, eq_comm, Nat.compare_eq_gt]
        rw [Nat.succ_mul] at hword
        omega

lemma compareLex_beBytes {w v v' : ℕ} (hv : v < 256 ^ w) (hv' : v' < 256 ^ w) :
    List.compareLex compare (beBytes w v) (beBytes w v') = compare v v' := by
  rw [compareLex_eq_compare_beNat (by simp), beNat_beBytes hv, beNat_beBytes hv']

end NdnRs.LexCode
