import NdnRs.Wire.Name

/-!
# The textual form of names (`Display` and `FromStr` of `name.rs`)

Names are printed as `/a/b/c` URIs and parsed back. Names and keys travel through strings inside
the certificate authority, so the two directions have to be inverse.

## Main results

* `display_roundtrip` — every printed name parses back.
-/

namespace NdnRs.Name

open Bytes Str List TlvType

/-! ## Printing -/

/-- The bytes that `percent_encode_component` emits raw: ASCII letters and digits and `-._~`. -/
def isUnreserved (b : UInt8) : Bool :=
  (48 ≤ b && b ≤ 57) || (65 ≤ b && b ≤ 90) || (97 ≤ b && b ≤ 122) ||
    b == 45 || b == 46 || b == 95 || b == 126

/-- One byte of `percent_encode_component`. -/
def percentEncodeByte (b : UInt8) : Str :=
  if isUnreserved b then [Char.ofNat b.toNat] else '%' :: hexByte true b

def percentEncodeComponent (value : Bytes) : Str := value.flatMap percentEncodeByte

/-- The byte `.`. -/
def period : UInt8 := 46

/-- `write_uri_value`: an empty value, or one of periods only, gets three more periods. -/
def writeUriValue (value : Bytes) : Str :=
  if value.all (· == period) then .replicate (value.length + 3) '.'
  else percentEncodeComponent value

def hexValue (value : Bytes) : Str := value.flatMap (hexByte false)

/-- The `<prefix>=` of the components that hold a number, by component type. -/
def integerPrefix (typ : UInt64) : Option Str :=
  if typ = TlvType.segment then some "seg=".toList
  else if typ = byteOffset then some "off=".toList
  else if typ = version then some "v=".toList
  else if typ = timestamp then some "t=".toList
  else if typ = sequenceNum then some "seq=".toList
  else none

/-- The general form `<type>=<value>` of a typed component. -/
def displayTyped (c : NameComponent) : Str :=
  decimal c.typ.toNat ++ '=' :: writeUriValue c.value

/-- One component of `Display`. -/
def displayComponent (c : NameComponent) : Str :=
  if c.typ = implicitSha256 then "sha256digest=".toList ++ hexValue c.value
  else if c.typ = parametersSha256 then "params-sha256=".toList ++ hexValue c.value
  else if c.typ = keyword then "keyword=".toList ++ percentEncodeComponent c.value
  else
    match integerPrefix c.typ with
    | some pre =>
      match canonicalNonnegInteger c.value with
      | some n => pre ++ decimal n
      | none => displayTyped c
    | none =>
      if c.typ = genericNameComponent then writeUriValue c.value else displayTyped c

/-- The `Display` text of a name. -/
def display (self : Name) : Str := '/' :: ['/'].intercalate (self.map displayComponent)

/-! ## Parsing -/

def percentDecode : Bytes → Option Bytes
  | [] => some []
  | b :: rest =>
    if b = 37 then
      match rest with
      | h :: l :: rest' =>
        match hexDigit h, hexDigit l, percentDecode rest' with
        | some hi, some lo, some out => some (.ofNat (hi * 16 + lo) :: out)
        | _, _, _ => none
      | _ => none
    else
      match percentDecode rest with
      | some out => some (b :: out)
      | none => none

/-- The pairs of digits of `parse_hex`. -/
def parseHexPairs : Bytes → Option Bytes
  | [] => some []
  | [_] => none
  | h :: l :: rest =>
    match hexDigit h, hexDigit l, parseHexPairs rest with
    | some hi, some lo, some out => some (.ofNat (hi * 16 + lo) :: out)
    | _, _, _ => none

def parseHex (s : Str) : Option Bytes := parseHexPairs s.bytes

/-- `split_typed_prefix`: a non-empty run of digits in front of the first `=`. -/
def splitTypedPrefix (part : Str) : Option (Str × Str) :=
  if '=' ∈ part then
    let head := part.takeWhile (· ≠ '=')
    let tail := part.drop (head.length + 1)
    if head ≠ [] ∧ head.all Char.isDigit = true then some (head, tail) else none
  else none

def decodeUriValue (s : Str) : Except NameError Bytes :=
  match percentDecode s.bytes with
  | none => .error ⟨"invalid percent-encoding"⟩
  | some decoded =>
    if decoded.all (· == period) then
      if decoded.length < 3 then .error ⟨"component of one or two periods is illegal"⟩
      else .ok (decoded.drop 3)
    else .ok decoded

/-- `parse_integer_prefix`: not a number behind the prefix falls back to a generic component
that holds the whole part. -/
def parseIntegerPrefix (part pre : Str) (typ : UInt64) : Option (Except NameError NameComponent) :=
  (stripPrefix pre part).map fun rest =>
    match parseU64 rest with
    | some n => .ok ⟨typ, encodeNonnegInteger n⟩
    | none =>
      match percentDecode part.bytes with
      | some d => .ok (.generic d)
      | none => .error ⟨"invalid percent-encoding"⟩

def integerPrefixes : List (Str × UInt64) :=
  [("seg=".toList, segment), ("v=".toList, version),
   ("off=".toList, byteOffset), ("t=".toList, timestamp),
   ("seq=".toList, sequenceNum)]

/-- A digest component: hexadecimal behind its prefix. -/
def parseDigest (typ : UInt64) (message : String) (hex : Str) : Except NameError NameComponent :=
  match parseHex hex with
  | some value => .ok ⟨typ, value⟩
  | none => .error ⟨message⟩

/-- The end of `parse_component`: `<type>=<value>`, else a generic component. -/
def parseTypedOrGeneric (part : Str) : Except NameError NameComponent :=
  match splitTypedPrefix part with
  | some (typStr, valStr) =>
    match parseU64 typStr with
    | none => .error ⟨"invalid typed-component TLV-TYPE"⟩
    | some typ =>
      match decodeUriValue valStr with
      | .ok value => .ok ⟨.ofNat typ, value⟩
      | .error e => .error e
  | none =>
    match decodeUriValue part with
    | .ok value => .ok (.generic value)
    | .error e => .error e

def parseComponent (part : Str) : Except NameError NameComponent :=
  match integerPrefixes.findSome? fun p => parseIntegerPrefix part p.1 p.2 with
  | some r => r
  | none =>
    match stripPrefix "sha256digest=".toList part with
    | some hex => parseDigest implicitSha256 "invalid sha256digest hex" hex
    | none =>
      match stripPrefix "params-sha256=".toList part with
      | some hex => parseDigest parametersSha256 "invalid params-sha256 hex" hex
      | none =>
        match stripPrefix "keyword=".toList part with
        | some rest =>
          match percentDecode rest.bytes with
          | some value => .ok ⟨keyword, value⟩
          | none => .error ⟨"invalid percent-encoding"⟩
        | none => parseTypedOrGeneric part

/-- `Name::from_str`. Empty parts are skipped. -/
def fromStr (s : Str) : Except NameError Name :=
  let s := trim s
  if s = [] ∨ s = ['/'] then .ok []
  else if s.head? ≠ some '/' then .error ⟨"name must start with '/'"⟩
  else ((s.tail.splitOn '/').filter (· ≠ [])).mapM parseComponent

/-! ## Values read back -/

variable (b : UInt8) (value : Bytes) (c : NameComponent) {typ : UInt64} {pre : Str} (n : Name)

private lemma unreserved_bytes (h : isUnreserved b = true) :
    String.utf8EncodeChar (.ofNat b.toNat) = [b] ∧ b ≠ 37 := by
  have hchk : ∀ n : Fin 256, isUnreserved (.ofNat n) = true →
      String.utf8EncodeChar (Char.ofNat (UInt8.ofNat n).toNat) = [UInt8.ofNat n] ∧
        UInt8.ofNat n ≠ 37 := by
    decide +kernel
  exact forall_byte (p := fun b => isUnreserved b = true →
    String.utf8EncodeChar (.ofNat b.toNat) = [b] ∧ b ≠ 37) hchk b h

private lemma ofNat_halves : UInt8.ofNat (b.toNat / 16) * 16 + UInt8.ofNat (b.toNat % 16) = b := by
  have h : UInt8.ofNat (b.toNat / 16 * 16 + b.toNat % 16) = b := by
    rw [Nat.div_add_mod', UInt8.ofNat_toNat]
  simpa using h

lemma percentDecode_percentEncodeComponent :
    percentDecode (percentEncodeComponent value).bytes = some value := by
  induction value with
  | nil => rfl
  | cons b value ih =>
    have hcons : percentEncodeComponent (b :: value) =
        percentEncodeByte b ++ percentEncodeComponent value := rfl
    rw [hcons, bytes_append]
    by_cases hraw : isUnreserved b = true
    · obtain ⟨hbyte, hne⟩ := unreserved_bytes b hraw
      have hone : (percentEncodeByte b).bytes = [b] := by
        simp [percentEncodeByte, hraw, hbyte]
      rw [hone, singleton_append, percentDecode.eq_def]
      simp only [hne, if_false, ih]
    · obtain ⟨h, l, hhex, hh, hl⟩ := hexDigit_hexByte true b
      have hthr : (percentEncodeByte b).bytes = [37, h, l] := by
        have hper : String.utf8EncodeChar '%' = [37] := by decide
        simp [percentEncodeByte, hraw, hper, hhex]
      rw [hthr, cons_append, percentDecode.eq_def]
      simp [hh, hl, ih, ofNat_halves]

lemma parseHex_hexValue : parseHex (hexValue value) = some value := by
  unfold parseHex
  induction value with
  | nil => rfl
  | cons b value ih =>
    obtain ⟨h, l, hhex, hh, hl⟩ := hexDigit_hexByte false b
    have hcons : hexValue (b :: value) = hexByte false b ++ hexValue value := rfl
    rw [hcons, bytes_append, hhex]
    simp [parseHexPairs, hh, hl, ih, ofNat_halves]

private lemma percentDecode_replicate (n : ℕ) :
    percentDecode (bytes (replicate n '.')) = some (replicate n period) := by
  induction n with
  | zero => rfl
  | succ n ih =>
    have hper : String.utf8EncodeChar '.' = [period] := by decide
    have hne : period ≠ 37 := by decide
    rw [replicate_succ, bytes_cons, hper, singleton_append, percentDecode.eq_def]
    simp [hne, ih, replicate_succ]

lemma decodeUriValue_writeUriValue : decodeUriValue (writeUriValue value) = .ok value := by
  unfold writeUriValue
  by_cases hdots : value.all (· == period) = true
  · -- periods only: three were added and three are dropped
    have hval : value = replicate value.length period := by
      rw [eq_replicate_iff]
      refine ⟨rfl, fun b hb => ?_⟩
      simpa using all_eq_true.mp hdots b hb
    rw [if_pos hdots, decodeUriValue, percentDecode_replicate]
    simp only [all_replicate, length_replicate]
    rw [if_pos (by simp), if_neg (by omega), drop_replicate, Nat.add_sub_cancel, ← hval]
  · rw [if_neg hdots, decodeUriValue, percentDecode_percentEncodeComponent]
    simp only [hdots]
    rfl

/-! ## Characters of printed components -/

def Plain (c : Char) : Prop := c ≠ '/' ∧ isWhitespace c = false

instance (c : Char) : Decidable (Plain c) := by
  unfold Plain
  infer_instance

variable {s : Str}

private lemma plain_of_all (h : s.all (fun c => decide (Plain c)) = true) : ∀ c ∈ s, Plain c := by
  intro c hc
  exact of_decide_eq_true (all_eq_true.mp h c hc)

private lemma plain_of_isDigit {c : Char} (h : c.isDigit = true) : Plain c ∧ c ≠ '=' := by
  have hran : 48 ≤ c.toNat ∧ c.toNat ≤ 57 := by
    simpa [Char.isDigit, UInt32.le_iff_toNat_le] using h
  have hne : ∀ d : Char, d.toNat < 48 ∨ 57 < d.toNat → c ≠ d := by
    rintro d hd rfl
    omega
  refine ⟨⟨hne '/' (by decide), ?_⟩, hne '=' (by decide)⟩
  unfold isWhitespace
  simp only [Bool.or_eq_false_iff, Bool.and_eq_false_iff, decide_eq_false_iff_not,
    beq_eq_false_iff_ne]
  omega

private lemma plain_percentEncodeByte : ∀ c ∈ percentEncodeByte b, Plain c ∧ c ≠ '=' := by
  have hchk : ∀ n : Fin 256,
      (percentEncodeByte (.ofNat n)).all (fun c => decide (Plain c ∧ c ≠ '=')) = true := by
    decide +kernel
  intro c hc
  have hall := forall_byte
    (p := fun b => (percentEncodeByte b).all (fun c => decide (Plain c ∧ c ≠ '=')) = true) hchk b
  exact of_decide_eq_true (all_eq_true.mp hall c hc)

private lemma plain_hexValue : ∀ c ∈ hexValue value, Plain c := by
  have hchk : ∀ n : Fin 256, (hexByte false (.ofNat n)).all (fun c => decide (Plain c)) = true := by
    decide +kernel
  intro c hc
  obtain ⟨b, -, hb⟩ := mem_flatMap.mp hc
  exact plain_of_all
    (forall_byte (p := fun b => (hexByte false b).all (fun c => decide (Plain c)) = true) hchk b)
    c hb

private lemma plain_percentEncodeComponent :
    ∀ c ∈ percentEncodeComponent value, Plain c ∧ c ≠ '=' := by
  intro c hc
  obtain ⟨b, -, hb⟩ := mem_flatMap.mp hc
  exact plain_percentEncodeByte b c hb

private lemma plain_writeUriValue : ∀ c ∈ writeUriValue value, Plain c ∧ c ≠ '=' := by
  intro c hc
  unfold writeUriValue at hc
  split_ifs at hc with hdots
  · obtain rfl := eq_of_mem_replicate hc
    decide
  · exact plain_percentEncodeComponent value c hc

private lemma plain_decimal (n : ℕ) : ∀ c ∈ decimal n, Plain c :=
  fun _ hc => (plain_of_isDigit (isDigit_of_mem_decimal hc)).1

/-- The six forms of a printed component. -/
private lemma displayComponent_cases :
    (c.typ = implicitSha256 ∧ displayComponent c = "sha256digest=".toList ++ hexValue c.value) ∨
    (c.typ = parametersSha256 ∧ displayComponent c = "params-sha256=".toList ++ hexValue c.value) ∨
    (c.typ = keyword ∧ displayComponent c = "keyword=".toList ++ percentEncodeComponent c.value) ∨
    (∃ pre n, integerPrefix c.typ = some pre ∧ canonicalNonnegInteger c.value = some n ∧
      displayComponent c = pre ++ decimal n) ∨
    (c.typ = genericNameComponent ∧ displayComponent c = writeUriValue c.value) ∨
    displayComponent c = displayTyped c := by
  by_cases h1 : c.typ = implicitSha256
  · exact .inl ⟨h1, by simp [displayComponent, h1]⟩
  by_cases h2 : c.typ = parametersSha256
  · exact .inr (.inl ⟨h2, by rw [displayComponent, if_neg h1, if_pos h2]⟩)
  by_cases h3 : c.typ = keyword
  · exact .inr (.inr (.inl ⟨h3, by rw [displayComponent, if_neg h1, if_neg h2, if_pos h3]⟩))
  have hrest : displayComponent c = match integerPrefix c.typ with
      | some pre =>
        match canonicalNonnegInteger c.value with
        | some n => pre ++ decimal n
        | none => displayTyped c
      | none =>
        if c.typ = genericNameComponent then writeUriValue c.value
        else displayTyped c := by
    rw [displayComponent, if_neg h1, if_neg h2, if_neg h3]
  cases hpre : integerPrefix c.typ with
  | none =>
    simp only [hpre] at hrest
    by_cases h4 : c.typ = genericNameComponent
    · rw [if_pos h4] at hrest
      exact .inr (.inr (.inr (.inr (.inl ⟨h4, hrest⟩))))
    · rw [if_neg h4] at hrest
      exact .inr (.inr (.inr (.inr (.inr hrest))))
  | some pre =>
    cases hcan : canonicalNonnegInteger c.value with
    | none =>
      simp only [hpre, hcan] at hrest
      exact .inr (.inr (.inr (.inr (.inr hrest))))
    | some n =>
      simp only [hpre, hcan] at hrest
      exact .inr (.inr (.inr (.inl ⟨pre, n, rfl, rfl, hrest⟩)))

private lemma integerPrefix_cases (h : integerPrefix typ = some pre) :
    (pre, typ) ∈ integerPrefixes := by
  unfold integerPrefix at h
  split_ifs at h with h1 h2 h3 h4 h5 <;> simp only [Option.some.injEq] at h <;> subst h <;>
    simp [integerPrefixes, *]

/-- Printed components hold no separator and no white space. -/
private lemma plain_displayComponent : ∀ d ∈ displayComponent c, Plain d := by
  have happ : ∀ s t : Str, (∀ d ∈ s, Plain d) → (∀ d ∈ t, Plain d) → ∀ d ∈ s ++ t, Plain d := by
    intro s t hs ht d hd
    rcases mem_append.mp hd with hd | hd
    · exact hs d hd
    · exact ht d hd
  rcases displayComponent_cases c with ⟨-, h⟩ | ⟨-, h⟩ | ⟨-, h⟩ | ⟨pre, n, hpre, -, h⟩ | ⟨-, h⟩ | h
  · rw [h]
    exact happ _ _ (plain_of_all (by decide)) (plain_hexValue c.value)
  · rw [h]
    exact happ _ _ (plain_of_all (by decide)) (plain_hexValue c.value)
  · rw [h]
    exact happ _ _ (plain_of_all (by decide)) fun d hd =>
      (plain_percentEncodeComponent c.value d hd).1
  · have hpln : integerPrefixes.all (fun p => p.1.all fun d => decide (Plain d)) = true := by
      decide
    rw [h]
    exact happ _ _ (plain_of_all (all_eq_true.mp hpln _ (integerPrefix_cases hpre)))
      (plain_decimal n)
  · rw [h]
    exact fun d hd => (plain_writeUriValue c.value d hd).1
  · rw [h]
    refine happ _ ('=' :: writeUriValue c.value) (plain_decimal _) fun d hd => ?_
    rcases mem_cons.mp hd with rfl | hd
    · decide
    · exact (plain_writeUriValue c.value d hd).1

private lemma writeUriValue_ne_nil : writeUriValue value ≠ [] := by
  intro hnil
  have hback := decodeUriValue_writeUriValue value
  rw [hnil] at hback
  simp [decodeUriValue, percentDecode] at hback

private lemma displayComponent_ne_nil : displayComponent c ≠ [] := by
  rcases displayComponent_cases c with ⟨-, h⟩ | ⟨-, h⟩ | ⟨-, h⟩ | ⟨pre, n, -, -, h⟩ | ⟨-, h⟩ | h
  · simp [h]
  · simp [h]
  · simp [h]
  · simp [h, decimal_ne_nil]
  · rw [h]
    exact writeUriValue_ne_nil c.value
  · simp [h, displayTyped]

/-! ## Components read back -/

/-- The textual prefixes that `parse_component` tries before the general forms. -/
private def textPrefixes : List Str :=
  integerPrefixes.map Prod.fst ++
    ["sha256digest=".toList, "params-sha256=".toList, "keyword=".toList]

private lemma parseComponent_of_untyped {part : Str}
    (h : ∀ pre ∈ textPrefixes, stripPrefix pre part = none) :
    parseComponent part = parseTypedOrGeneric part := by
  have hint : (integerPrefixes.findSome? fun p => parseIntegerPrefix part p.1 p.2) = none := by
    rw [findSome?_eq_none_iff]
    intro p hp
    have hnone := h p.1 (mem_append_left _ (mem_map_of_mem hp))
    rw [parseIntegerPrefix, hnone, Option.map_none]
  rw [parseComponent, hint, h _ (by simp [textPrefixes]), h _ (by simp [textPrefixes]),
    h _ (by simp [textPrefixes])]

private lemma parseComponent_writeUriValue :
    parseComponent (writeUriValue value) = .ok (.generic value) := by
  have heq : '=' ∉ writeUriValue value := fun hmem => (plain_writeUriValue value _ hmem).2 rfl
  have hhld : ∀ pre ∈ textPrefixes, '=' ∈ pre := by decide
  rw [parseComponent_of_untyped fun pre hpre => stripPrefix_eq_none_of_mem (hhld pre hpre) heq,
    parseTypedOrGeneric, splitTypedPrefix, if_neg heq, decodeUriValue_writeUriValue]

private lemma splitTypedPrefix_decimal (n : ℕ) (rest : Str) :
    splitTypedPrefix (decimal n ++ '=' :: rest) = some (decimal n, rest) := by
  have hne : ∀ c ∈ decimal n, decide (c ≠ '=') = true := fun c hc => by
    simpa using (plain_of_isDigit (isDigit_of_mem_decimal hc)).2
  have hhead : (decimal n ++ '=' :: rest).takeWhile (· ≠ '=') = decimal n := by
    rw [takeWhile_append_of_pos hne]
    simp
  have hall : (decimal n).all Char.isDigit = true :=
    all_eq_true.mpr fun c hc => isDigit_of_mem_decimal hc
  rw [splitTypedPrefix, if_pos (by simp)]
  simp only [hhead]
  rw [if_pos ⟨decimal_ne_nil n, hall⟩]
  simp

private lemma parseComponent_displayTyped : parseComponent (displayTyped c) = .ok c := by
  obtain ⟨d, ds, hd⟩ := exists_cons_of_ne_nil (decimal_ne_nil c.typ.toNat)
  have hdig : d.isDigit = true := isDigit_of_mem_decimal (n := c.typ.toNat) (by simp [hd])
  have hnone : ∀ pre ∈ textPrefixes, stripPrefix pre (displayTyped c) = none := by
    have hlet : ∀ pre ∈ textPrefixes, ∃ x xs, pre = x :: xs ∧ x.isDigit = false := by
      intro pre hpre
      have hchk : ∀ pre ∈ textPrefixes, pre.head?.all (fun x => !x.isDigit) = true ∧ pre ≠ [] := by
        decide
      obtain ⟨hhead, hpne⟩ := hchk pre hpre
      obtain ⟨x, xs, rfl⟩ := exists_cons_of_ne_nil hpne
      exact ⟨x, xs, rfl, by simpa using hhead⟩
    intro pre hpre
    obtain ⟨x, xs, rfl, hx⟩ := hlet pre hpre
    have hxd : x ≠ d := by
      rintro rfl
      simp [hx] at hdig
    simp [stripPrefix, displayTyped, hd, hxd]
  rw [parseComponent_of_untyped hnone, parseTypedOrGeneric, displayTyped, splitTypedPrefix_decimal]
  simp only [parseU64_decimal c.typ.toNat_lt, decodeUriValue_writeUriValue, UInt64.ofNat_toNat]

private lemma findSome_of_pairwise {ps : List (Str × UInt64)} {r : Except NameError NameComponent}
    (hdiv : ps.Pairwise fun p q => p.1.isPrefixOf q.1 = false ∧ q.1.isPrefixOf p.1 = false)
    (hmem : (pre, typ) ∈ ps) (hr : parseIntegerPrefix (pre ++ s) pre typ = some r) :
    (ps.findSome? fun p => parseIntegerPrefix (pre ++ s) p.1 p.2) = some r := by
  induction ps with
  | nil => exact absurd hmem not_mem_nil
  | cons p ps ih =>
    rw [pairwise_cons] at hdiv
    rcases mem_cons.mp hmem with rfl | hmem
    · rw [findSome?_cons, hr]
    -- the head is another prefix
    have hhead : parseIntegerPrefix (pre ++ s) p.1 p.2 = none := by
      rw [parseIntegerPrefix, stripPrefix_eq_none_of_diverge (hdiv.1 _ hmem), Option.map_none]
    rw [findSome?_cons, hhead]
    exact ih hdiv.2 hmem

private lemma parseComponent_integer
    (hmem : (pre, typ) ∈ integerPrefixes) {n : ℕ} (hn : n < 2 ^ 64) :
    parseComponent (pre ++ decimal n) = .ok ⟨typ, encodeNonnegInteger n⟩ := by
  have hpar : parseIntegerPrefix (pre ++ decimal n) pre typ =
      some (.ok ⟨typ, encodeNonnegInteger n⟩) := by
    rw [parseIntegerPrefix, stripPrefix_append, Option.map_some, parseU64_decimal hn]
  rw [parseComponent, findSome_of_pairwise (by decide) hmem hpar]

private lemma findSome_integerPrefixes
    (h : ∀ p ∈ integerPrefixes, p.1.isPrefixOf pre = false ∧ pre.isPrefixOf p.1 = false) (s : Str) :
    (integerPrefixes.findSome? fun p => parseIntegerPrefix (pre ++ s) p.1 p.2) = none := by
  rw [findSome?_eq_none_iff]
  intro p hp
  rw [parseIntegerPrefix, stripPrefix_eq_none_of_diverge (h p hp), Option.map_none]

/-- **One component.** Parsing a printed component gives it back. -/
theorem parseComponent_displayComponent : parseComponent (displayComponent c) = .ok c := by
  rcases displayComponent_cases c with
    ⟨htyp, h⟩ | ⟨htyp, h⟩ | ⟨htyp, h⟩ | ⟨pre, n, hpre, hcan, h⟩ | ⟨htyp, h⟩ | h
  · rw [h, parseComponent, findSome_integerPrefixes (by decide), stripPrefix_append]
    simp only [parseDigest, parseHex_hexValue, ← htyp]
  · rw [h, parseComponent, findSome_integerPrefixes (by decide),
      stripPrefix_eq_none_of_diverge (by decide), stripPrefix_append]
    simp only [parseDigest, parseHex_hexValue, ← htyp]
  · rw [h, parseComponent, findSome_integerPrefixes (by decide),
      stripPrefix_eq_none_of_diverge (by decide), stripPrefix_eq_none_of_diverge (by decide),
      stripPrefix_append]
    simp only [percentDecode_percentEncodeComponent, ← htyp]
  · obtain ⟨hn, henc⟩ := canonicalNonnegInteger_eq_some hcan
    rw [h, parseComponent_integer (integerPrefix_cases hpre) hn, henc]
  · rw [h, parseComponent_writeUriValue, NameComponent.generic, ← htyp]
  · rw [h, parseComponent_displayTyped]

/-! ## Names read back -/

private lemma mapM_parseComponent : (n.map displayComponent).mapM parseComponent = .ok n := by
  induction n with
  | nil => rfl
  | cons c n ih =>
    rw [map_cons, mapM_cons, parseComponent_displayComponent, ih]
    rfl

private lemma not_isWhitespace_display : ∀ c ∈ display n, isWhitespace c = false := by
  have hpar : ∀ c ∈ ['/'].intercalate (n.map displayComponent), isWhitespace c = false := by
    induction n with
    | nil => simp
    | cons comp n ih =>
      have hcomp : ∀ c ∈ displayComponent comp, isWhitespace c = false :=
        fun c hc => (plain_displayComponent comp c hc).2
      by_cases hn : n = []
      · subst hn
        simpa using hcomp
      rw [map_cons, intercalate_cons_of_ne_nil (by simpa using hn)]
      intro c hc
      simp only [append_assoc, mem_append, mem_singleton] at hc
      rcases hc with hc | rfl | hc
      · exact hcomp c hc
      · decide
      · exact ih c hc
  intro c hc
  rcases mem_cons.mp hc with rfl | hc
  · decide
  · exact hpar c hc

/-- **Names survive their text.** Parsing the string that `Display` prints gives back the
name, whatever the types and bytes of its components.

**Proof sketch.** The text holds no white space, so trimming does nothing; no component prints
a `/` or the empty string, so splitting at `/` and skipping empty parts gives back the printed
components; each of them parses back by `parseComponent_displayComponent`. -/
theorem fromStr_display : fromStr (display n) = .ok n := by
  rw [fromStr, trim_eq_self (not_isWhitespace_display n)]
  cases n with
  | nil => rfl
  | cons c n =>
    have hpar : ∀ part ∈ (c :: n).map displayComponent, '/' ∉ part := by
      intro part hpart hslas
      obtain ⟨d, -, rfl⟩ := mem_map.mp hpart
      exact (plain_displayComponent d _ hslas).1 rfl
    have hspl : (['/'].intercalate ((c :: n).map displayComponent)).splitOn '/' =
        (c :: n).map displayComponent := splitOn_intercalate '/' hpar (by simp)
    have hflt : ((c :: n).map displayComponent).filter (· ≠ []) =
        (c :: n).map displayComponent := by
      rw [filter_eq_self]
      intro part hpart
      obtain ⟨d, -, rfl⟩ := mem_map.mp hpart
      simpa using displayComponent_ne_nil d
    have hlong : ['/'].intercalate ((c :: n).map displayComponent) ≠ [] := by
      intro hnil
      rw [hnil] at hspl
      simp only [splitOn_nil, map_cons, List.cons.injEq] at hspl
      exact displayComponent_ne_nil c hspl.1.symm
    rw [display, if_neg (by simpa using hlong), if_neg (by simp), tail_cons, hspl, hflt,
      mapM_parseComponent]

lemma eq_of_display_eq {m n : Name} (h : display m = display n) : m = n := by
  have hm := fromStr_display m
  rw [h, fromStr_display n] at hm
  exact (Except.ok.inj hm).symm

/-- **The text of a name is its own.** Parsing it gives back an equal name, so no two names have
the same text. -/
theorem display_roundtrip (n : Name) :
    fromStr (display n) = .ok n ∧ ∀ m : Name, display m = display n → m = n := by
  exact ⟨fromStr_display n, fun m h => eq_of_display_eq h⟩

end NdnRs.Name
