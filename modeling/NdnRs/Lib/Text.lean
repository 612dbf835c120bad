import NdnRs.Lib.Bytes

/-!
# Text

Strings as lists of characters, with the standard-library operations on them that textual
formats use: UTF-8 bytes, trimming, prefix stripping, decimal and hexadecimal numbers.
-/

abbrev Str := List Char

namespace Str

open List

def bytes (s : Str) : Bytes := s.flatMap String.utf8EncodeChar

@[simp] lemma bytes_nil : bytes [] = [] := rfl

@[simp] lemma bytes_append (s t : Str) : bytes (s ++ t) = bytes s ++ bytes t := by
  simp [bytes]

@[simp] lemma bytes_cons (c : Char) (s : Str) :
    bytes (c :: s) = String.utf8EncodeChar c ++ bytes s := rfl

def isContinuation (b : UInt8) : Bool := 0x80 ≤ b && b ≤ 0xBF

/-- The character with the given leading bits and continuation bytes. -/
def utf8Char (lead : ℕ) (continuation : Bytes) : Char :=
  Char.ofNat (continuation.foldl (fun n b => n * 64 + b.toNat % 64) lead)

/-- `str::from_utf8`: shortest forms only, no surrogates, nothing above `U+10FFFF`. -/
def fromUtf8 : Bytes → Option Str
  | [] => some []
  | b :: rest =>
    if b < 0x80 then (fromUtf8 rest).map (utf8Char b.toNat [] :: ·)
    else if 0xC2 ≤ b && b ≤ 0xDF then
      match rest with
      | c :: rest =>
        if isContinuation c then (fromUtf8 rest).map (utf8Char (b.toNat % 32) [c] :: ·) else none
      | _ => none
    else if 0xE0 ≤ b && b ≤ 0xEF then
      match rest with
      | c :: d :: rest =>
        if (if b = 0xE0 then 0xA0 ≤ c && c ≤ 0xBF
          else if b = 0xED then 0x80 ≤ c && c ≤ 0x9F
          else isContinuation c) && isContinuation d then
          (fromUtf8 rest).map (utf8Char (b.toNat % 16) [c, d] :: ·)
        else none
      | _ => none
    else if 0xF0 ≤ b && b ≤ 0xF4 then
      match rest with
      | c :: d :: e :: rest =>
        if (if b = 0xF0 then 0x90 ≤ c && c ≤ 0xBF
          else if b = 0xF4 then 0x80 ≤ c && c ≤ 0x8F
          else isContinuation c) && isContinuation d && isContinuation e then
          (fromUtf8 rest).map (utf8Char (b.toNat % 8) [c, d, e] :: ·)
        else none
      | _ => none
    else none

def validUtf8 (bytes : Bytes) : Bool := (fromUtf8 bytes).isSome

/-! ## White space -/

/-- The Unicode `White_Space` property. -/
def isWhitespace (c : Char) : Bool :=
  let n := c.toNat
  (0x09 ≤ n && n ≤ 0x0D) || n == 0x20 || n == 0x85 || n == 0xA0 || n == 0x1680 ||
    (0x2000 ≤ n && n ≤ 0x200A) || n == 0x2028 || n == 0x2029 || n == 0x202F || n == 0x205F ||
    n == 0x3000

def trim (s : Str) : Str :=
  ((s.dropWhile isWhitespace).reverse.dropWhile isWhitespace).reverse

variable {s pre : Str} {c : Char} {n : ℕ}

private lemma dropWhile_eq_self (h : ∀ c ∈ s, isWhitespace c = false) :
    s.dropWhile isWhitespace = s := by
  cases s with
  | nil => rfl
  | cons c s => rw [dropWhile_cons, h c (by simp), if_neg (by simp)]

lemma trim_eq_self (h : ∀ c ∈ s, isWhitespace c = false) : trim s = s := by
  have hrev : ∀ c ∈ s.reverse, isWhitespace c = false := by
    intro c hc
    exact h c (mem_reverse.mp hc)
  rw [trim, dropWhile_eq_self h, dropWhile_eq_self hrev, reverse_reverse]

/-! ## Separators -/

/-- `str::split_once`: the text before the first occurrence of a separator, and the text behind
it. -/
def splitOnce (sep : Str) : Str → Option (Str × Str)
  | [] => if sep = [] then some ([], []) else none
  | c :: s =>
    if sep.isPrefixOf (c :: s) then some ([], (c :: s).drop sep.length)
    else (splitOnce sep s).map fun (before, behind) => (c :: before, behind)

/-- `str::rsplit_once`, on a character: the text before its last occurrence, and the text behind
it. -/
def rsplitOnce (sep : Char) : Str → Option (Str × Str)
  | [] => none
  | c :: s =>
    match rsplitOnce sep s with
    | some (before, behind) => some (c :: before, behind)
    | none => if c = sep then some ([], s) else none

/-! ## Prefixes -/

def stripPrefix (pre s : Str) : Option Str :=
  if pre.isPrefixOf s then some (s.drop pre.length) else none

@[simp] lemma stripPrefix_append (pre s : Str) : stripPrefix pre (pre ++ s) = some s := by
  simp [stripPrefix]

lemma stripPrefix_eq_none_of_mem (hc : c ∈ pre) (hs : c ∉ s) : stripPrefix pre s = none := by
  have hnot : ¬ pre <+: s := fun hpre => hs (hpre.subset hc)
  simp [stripPrefix, hnot]

lemma stripPrefix_eq_none_of_diverge {other : Str}
    (h : pre.isPrefixOf other = false ∧ other.isPrefixOf pre = false) (s : Str) :
    stripPrefix pre (other ++ s) = none := by
  have hnot : ¬ pre <+: other ++ s := by
    intro hpre
    rcases prefix_or_prefix_of_prefix hpre (prefix_append other s) with hp | hp
    all_goals simp [List.isPrefixOf_iff_prefix.mpr hp] at h
  simp [stripPrefix, hnot]

/-! ## Decimal numbers -/

def decimal (n : ℕ) : Str := Nat.toDigits 10 n

/-- Parse a 64-bit unsigned decimal number: an optional `+`, then at least one digit. -/
def parseU64 (s : Str) : Option ℕ :=
  let digits := if s.head? = some '+' then s.tail else s
  if digits ≠ [] ∧ digits.all Char.isDigit = true then
    let n := Nat.ofDigitChars 10 digits 0
    if n < 2 ^ 64 then some n else none
  else none

lemma isDigit_of_mem_decimal (h : c ∈ decimal n) : c.isDigit = true :=
  Nat.isDigit_of_mem_toDigits (by norm_num) (by norm_num) h

lemma decimal_ne_nil (n : ℕ) : decimal n ≠ [] := Nat.toDigits_ne_nil

lemma parseU64_decimal (hn : n < 2 ^ 64) : parseU64 (decimal n) = some n := by
  have hplus : (decimal n).head? ≠ some '+' := by
    intro h
    have hmem : '+' ∈ decimal n := mem_of_mem_head? h
    have hdig := isDigit_of_mem_decimal hmem
    revert hdig
    decide
  have hall : (decimal n).all Char.isDigit = true := by
    rw [all_eq_true]
    intro c hc
    exact isDigit_of_mem_decimal hc
  have hval : Nat.ofDigitChars 10 (decimal n) 0 = n := Nat.ofDigitChars_ten_toDigits
  rw [parseU64, if_neg hplus]
  simpa [decimal_ne_nil, hall, hval] using hn

/-! ## Hexadecimal bytes -/

def hexChar (letterA d : ℕ) : Char := .ofNat (if d < 10 then 48 + d else letterA + d - 10)

/-- A byte as two hexadecimal digits, in upper case (`{:02X}`) or lower case (`{:02x}`). -/
def hexByte (upper : Bool) (b : UInt8) : Str :=
  let letterA := if upper then 65 else 97
  [hexChar letterA (b.toNat / 16), hexChar letterA (b.toNat % 16)]

def hexDigit (b : UInt8) : Option ℕ :=
  if 48 ≤ b ∧ b ≤ 57 then some (b.toNat - 48)
  else if 65 ≤ b ∧ b ≤ 70 then some (b.toNat - 65 + 10)
  else if 97 ≤ b ∧ b ≤ 102 then some (b.toNat - 97 + 10)
  else none

lemma forall_byte {p : UInt8 → Prop} (h : ∀ n : Fin 256, p (.ofNat n)) (b : UInt8) : p b := by
  have hb := h ⟨b.toNat, b.toNat_lt⟩
  simpa using hb

lemma hexDigit_hexByte (upper : Bool) (b : UInt8) :
    ∃ h l, bytes (hexByte upper b) = [h, l] ∧ hexDigit h = some (b.toNat / 16) ∧
      hexDigit l = some (b.toNat % 16) := by
  have hchk : ∀ n : Fin 256, (bytes (hexByte upper (.ofNat n))).map hexDigit =
      [some ((UInt8.ofNat n).toNat / 16), some ((UInt8.ofNat n).toNat % 16)] := by
    cases upper <;> decide +kernel
  have hmap := forall_byte (p := fun b => (bytes (hexByte upper b)).map hexDigit =
    [some (b.toNat / 16), some (b.toNat % 16)]) hchk b
  obtain ⟨h, rest, hbs, hh, hrest⟩ := map_eq_cons_iff.mp hmap
  obtain ⟨l, rfl, hl⟩ := map_eq_singleton_iff.mp hrest
  exact ⟨h, l, hbs, hh, hl⟩

/-! ## Quoted strings -/

end Str
