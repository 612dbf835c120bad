import NdnRs.Lib.Text

/-!
# Base64 (URL-safe alphabet, no padding)

Three bytes are four characters; one or two bytes at the end are two or three characters, whose
unused bits are zero. Decoding accepts nothing else.
-/

namespace Base64

open Option

def encodeChar (n : ℕ) : Char :=
  if n < 26 then .ofNat (65 + n)
  else if n < 52 then .ofNat (97 + (n - 26))
  else if n < 62 then .ofNat (48 + (n - 52))
  else if n = 62 then '-'
  else '_'

def decodeChar (c : Char) : Option ℕ :=
  if 'A' ≤ c ∧ c ≤ 'Z' then some (c.toNat - 65)
  else if 'a' ≤ c ∧ c ≤ 'z' then some (c.toNat - 97 + 26)
  else if '0' ≤ c ∧ c ≤ '9' then some (c.toNat - 48 + 52)
  else if c = '-' then some 62
  else if c = '_' then some 63
  else none

lemma decodeChar_encodeChar {n : ℕ} (h : n < 64) : decodeChar (encodeChar n) = some n := by
  have hall : ∀ m : Fin 64, decodeChar (encodeChar m) = some m.val := by decide
  exact hall ⟨n, h⟩

def encode : Bytes → Str
  | a :: b :: c :: rest =>
    encodeChar (a.toNat / 4) :: encodeChar (a.toNat % 4 * 16 + b.toNat / 16) ::
      encodeChar (b.toNat % 16 * 4 + c.toNat / 64) :: encodeChar (c.toNat % 64) :: encode rest
  | [a, b] =>
    [encodeChar (a.toNat / 4), encodeChar (a.toNat % 4 * 16 + b.toNat / 16),
      encodeChar (b.toNat % 16 * 4)]
  | [a] => [encodeChar (a.toNat / 4), encodeChar (a.toNat % 4 * 16)]
  | [] => []

/-- Decode; unused bits at the end must be zero. -/
def decode : Str → Option Bytes
  | w :: x :: y :: z :: rest => do
    let w ← decodeChar w
    let x ← decodeChar x
    let y ← decodeChar y
    let z ← decodeChar z
    let bytes ← decode rest
    some (.ofNat (w * 4 + x / 16) :: UInt8.ofNat (x % 16 * 16 + y / 4) ::
      UInt8.ofNat (y % 4 * 64 + z) :: bytes)
  | [w, x, y] => do
    let w ← decodeChar w
    let x ← decodeChar x
    let y ← decodeChar y
    if y % 4 = 0 then some [UInt8.ofNat (w * 4 + x / 16), .ofNat (x % 16 * 16 + y / 4)]
    else none
  | [w, x] => do
    let w ← decodeChar w
    let x ← decodeChar x
    if x % 16 = 0 then some [UInt8.ofNat (w * 4 + x / 16)] else none
  | [_] => none
  | [] => some []

private lemma ofNat_eq {b : UInt8} {n : ℕ} (h : n = b.toNat) : UInt8.ofNat n = b := by
  rw [h, UInt8.ofNat_toNat]

/-- **Decoding what was encoded gives the bytes back.** -/
theorem decode_encode (bytes : Bytes) : decode (encode bytes) = some bytes := by
  induction bytes using encode.induct with
  | case1 a b c rest ih =>
    have ha := a.toNat_lt
    have hb := b.toNat_lt
    have hc := c.toNat_lt
    rw [encode, decode, decodeChar_encodeChar (by omega), decodeChar_encodeChar (by omega),
      decodeChar_encodeChar (by omega), decodeChar_encodeChar (by omega), ih]
    simp only [bind_eq_bind, bind_some, Option.some.injEq, List.cons.injEq, and_true]
    refine ⟨ofNat_eq ?_, ofNat_eq ?_, ofNat_eq ?_⟩ <;> omega
  | case2 a b =>
    have ha := a.toNat_lt
    have hb := b.toNat_lt
    rw [encode, decode, decodeChar_encodeChar (by omega), decodeChar_encodeChar (by omega),
      decodeChar_encodeChar (by omega)]
    simp only [bind_eq_bind, bind_some]
    rw [if_pos (by omega)]
    simp only [Option.some.injEq, List.cons.injEq, and_true]
    refine ⟨ofNat_eq ?_, ofNat_eq ?_⟩ <;> omega
  | case3 a =>
    have ha := a.toNat_lt
    rw [encode, decode, decodeChar_encodeChar (by omega), decodeChar_encodeChar (by omega)]
    simp only [bind_eq_bind, bind_some]
    rw [if_pos (by omega)]
    simp only [Option.some.injEq, List.cons.injEq, and_true]
    exact ofNat_eq (by omega)
  | case4 => rfl

end Base64
