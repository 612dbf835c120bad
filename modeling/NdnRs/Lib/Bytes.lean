import Mathlib.Tactic

/-!
# Byte strings and fixed-width integers

Byte strings are lists of bytes. A fixed-width unsigned integer travels as its big-endian
byte string, most significant byte first; this file has the two directions and the facts
that make them inverse to each other. On storage the same bytes stand in the other order.
-/

abbrev Bytes := List UInt8

namespace Bytes

open List

/-- The number denoted by a big-endian byte string, on top of the digits read so far. -/
def beNatFrom : ℕ → Bytes → ℕ
  | acc, [] => acc
  | acc, b :: bs => beNatFrom (acc * 256 + b.toNat) bs

def beNat (bs : Bytes) : ℕ := beNatFrom 0 bs

/-- The low `w` bytes of `v`, most significant byte first. -/
def beBytes : ℕ → ℕ → Bytes
  | 0, _ => []
  | w + 1, v => .ofNat (v / 256 ^ w) :: beBytes w v

variable (w v : ℕ) (bs : Bytes)

@[simp] lemma beBytes_length : (beBytes w v).length = w := by
  induction w with
  | zero => rfl
  | succ w ih => simp [beBytes, ih]

lemma beNatFrom_eq (acc : ℕ) (bs : Bytes) :
    beNatFrom acc bs = acc * 256 ^ bs.length + beNat bs := by
  induction bs generalizing acc with
  | nil => simp [beNatFrom, beNat]
  | cons b bs ih =>
    have hhead : beNat (b :: bs) = b.toNat * 256 ^ bs.length + beNat bs := by
      rw [beNat, beNatFrom, ih]
      simp
    rw [beNatFrom, ih, hhead, length_cons]
    ring

@[simp] lemma beNat_nil : beNat [] = 0 := rfl

lemma beNat_cons (b : UInt8) (bs : Bytes) :
    beNat (b :: bs) = b.toNat * 256 ^ bs.length + beNat bs := by
  rw [beNat, beNatFrom, beNatFrom_eq]
  simp

lemma beNat_lt : beNat bs < 256 ^ bs.length := by
  induction bs with
  | nil => simp
  | cons b bs ih =>
    have hb : b.toNat < 256 := b.toNat_lt
    rw [beNat_cons, length_cons, pow_succ]
    calc b.toNat * 256 ^ bs.length + beNat bs
        < b.toNat * 256 ^ bs.length + 256 ^ bs.length := by omega
      _ = (b.toNat + 1) * 256 ^ bs.length := by ring
      _ ≤ 256 * 256 ^ bs.length := Nat.mul_le_mul_right _ hb
      _ = 256 ^ bs.length * 256 := by ring

lemma beNat_beBytes_mod : beNat (beBytes w v) = v % 256 ^ w := by
  induction w with
  | zero => simp [beBytes, Nat.mod_one]
  | succ w ih =>
    have hbyte : (UInt8.ofNat (v / 256 ^ w)).toNat = v / 256 ^ w % 256 := by
      simp
    rw [beBytes, beNat_cons, beBytes_length, ih, hbyte, pow_succ, Nat.mod_mul]
    ring

lemma beNat_beBytes {w v : ℕ} (hv : v < 256 ^ w) : beNat (beBytes w v) = v := by
  rw [beNat_beBytes_mod, Nat.mod_eq_of_lt hv]

lemma beBytes_mod : beBytes w (v % 256 ^ w) = beBytes w v := by
  -- every digit below position `w` survives a reduction modulo any larger power
  suffices h : ∀ k ≤ w, beBytes k (v % 256 ^ w) = beBytes k v from h w le_rfl
  intro k
  induction k with
  | zero => intro _; rfl
  | succ k ih =>
    intro hk
    have hdig : v % 256 ^ w / 256 ^ k % 256 = v / 256 ^ k % 256 := by
      obtain ⟨d, rfl⟩ : ∃ d, w = k + 1 + d := ⟨w - (k + 1), by omega⟩
      have hspl : (256 : ℕ) ^ (k + 1 + d) = 256 ^ k * (256 * 256 ^ d) := by ring
      rw [hspl, Nat.mod_mul_right_div_self, Nat.mod_mul_right_mod]
    have hbyte : UInt8.ofNat (v % 256 ^ w / 256 ^ k) = UInt8.ofNat (v / 256 ^ k) := by
      apply UInt8.toNat_inj.mp
      simpa using hdig
    rw [beBytes, beBytes, hbyte, ih (by omega)]

lemma take_beBytes {k w : ℕ} (hk : k ≤ w) (v : ℕ) :
    (beBytes w v).take k = beBytes k (v / 256 ^ (w - k)) := by
  induction w generalizing k with
  | zero =>
    obtain rfl := Nat.le_zero.mp hk
    rfl
  | succ w ih =>
    cases k with
    | zero => rfl
    | succ k =>
      have hpow : 256 ^ (w - k) * 256 ^ k = 256 ^ w := by
        rw [← pow_add, Nat.sub_add_cancel (Nat.le_of_succ_le_succ hk)]
      rw [beBytes, take_succ_cons, ih (Nat.le_of_succ_le_succ hk), beBytes,
        Nat.succ_sub_succ, Nat.div_div_eq_div_mul, hpow]

lemma beBytes_beNat : beBytes bs.length (beNat bs) = bs := by
  induction bs with
  | nil => rfl
  | cons b bs ih =>
    have hlt : beNat bs < 256 ^ bs.length := beNat_lt bs
    have hpos : 0 < 256 ^ bs.length := by positivity
    have hdiv : beNat (b :: bs) / 256 ^ bs.length = b.toNat := by
      rw [beNat_cons, Nat.mul_comm, Nat.mul_add_div hpos, Nat.div_eq_of_lt hlt, Nat.add_zero]
    have hmod : beNat (b :: bs) % 256 ^ bs.length = beNat bs := by
      rw [beNat_cons, Nat.mul_comm, Nat.mul_add_mod, Nat.mod_eq_of_lt hlt]
    rw [length_cons, beBytes, hdiv, UInt8.ofNat_toNat, ← beBytes_mod, hmod, ih]

/-! ## Least significant byte first -/

def leNat (bs : Bytes) : ℕ := beNat bs.reverse

/-- The low `w` bytes of `v`, least significant byte first. -/
def leBytes (w v : ℕ) : Bytes := (beBytes w v).reverse

@[simp] lemma leBytes_length : (leBytes w v).length = w := by
  simp [leBytes]

lemma leNat_leBytes {w v : ℕ} (hv : v < 256 ^ w) : leNat (leBytes w v) = v := by
  rw [leNat, leBytes, reverse_reverse, beNat_beBytes hv]

lemma leBytes_leNat : leBytes bs.length (leNat bs) = bs := by
  have h := beBytes_beNat bs.reverse
  rw [length_reverse] at h
  rw [leNat, leBytes, h, reverse_reverse]

lemma leNat_lt : leNat bs < 256 ^ bs.length := by
  have h := beNat_lt bs.reverse
  rwa [length_reverse] at h

lemma leNat_snoc (b : UInt8) : leNat (bs ++ [b]) = b.toNat * 256 ^ bs.length + leNat bs := by
  rw [leNat, reverse_append, reverse_singleton, singleton_append, beNat_cons, length_reverse, leNat]

end Bytes
