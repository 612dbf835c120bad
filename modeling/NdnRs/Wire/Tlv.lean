import NdnRs.Lib.Bytes
import NdnRs.Lib.Except

/-!
# The TLV codec (`ndn-tlv`)

Reading and writing of Type-Length-Value elements. A reader is the byte string that is still
unread: the source keeps a buffer and a cursor, and everything it returns is a slice of what
lies behind the cursor. A writer is the byte string it has emitted.
-/

namespace NdnRs

open Bytes List Except

/-- Errors of TLV decoding (`TlvError`). -/
inductive TlvError where
  | unexpectedEof
  | unknownCriticalType (typ : ℕ)
  | invalidLength (typ expected got : ℕ)
  | invalidUtf8 (typ : ℕ)
  | missingField (name : String)
  | duplicateField (typ : ℕ)
  | nonMinimalVarNumber
  | typeOutOfRange
  deriving DecidableEq

namespace Tlv

/-! ## Variable-width integers -/

/-- The multi-byte branches of `read_varu64`: `w` bytes behind the marker, refused when the
value also fits the next narrower form. -/
def readWide (w minimum : ℕ) (rest : Bytes) : Except TlvError (ℕ × ℕ) :=
  if rest.length < w then .error .unexpectedEof
  else
    let v := beNat (rest.take w)
    if v < minimum then .error .nonMinimalVarNumber else .ok (v, w + 1)

/-- `read_varu64`: the value and the number of bytes consumed. -/
def readVaru64 : Bytes → Except TlvError (ℕ × ℕ)
  | [] => .error .unexpectedEof
  | first :: rest =>
    if first.toNat ≤ 252 then .ok (first.toNat, 1)
    else if first.toNat = 253 then readWide 2 253 rest
    else if first.toNat = 254 then readWide 4 0x10000 rest
    else readWide 8 0x100000000 rest

variable (value : ℕ)

/-- `write_varu64`: the bytes it emits. -/
def writeVaru64 : Bytes :=
  if value < 253 then [UInt8.ofNat value]
  else if value < 0x10000 then 0xFD :: beBytes 2 value
  else if value < 0x100000000 then 0xFE :: beBytes 4 value
  else 0xFF :: beBytes 8 value

def varu64Size : ℕ :=
  if value < 253 then 1
  else if value < 0x10000 then 3
  else if value < 0x100000000 then 5
  else 9

@[simp] lemma writeVaru64_length : (writeVaru64 value).length = varu64Size value := by
  unfold writeVaru64 varu64Size
  split_ifs <;> simp

lemma varu64Size_le : varu64Size value ≤ 9 := by
  rw [varu64Size]
  split_ifs <;> decide

lemma varu64Size_pos : 0 < varu64Size value := by
  unfold varu64Size
  split_ifs <;> omega

lemma varu64Size_lt_nine {value : ℕ} (h : value < 0x100000000) : varu64Size value < 9 := by
  unfold varu64Size
  split_ifs <;> omega

variable {v typ : ℕ} (rest : Bytes) {buf value : Bytes}

private lemma readWide_beBytes {w minimum : ℕ} (hlo : minimum ≤ v)
    (hhi : v < 256 ^ w) : readWide w minimum (beBytes w v ++ rest) = .ok (v, w + 1) := by
  have htake : (beBytes w v ++ rest).take w = beBytes w v := by
    rw [take_append_of_le_length (by simp), take_of_length_le (by simp)]
  have hlen : ¬ (beBytes w v ++ rest).length < w := by simp
  rw [readWide, if_neg hlen, htake, beNat_beBytes hhi]
  simp [Nat.not_lt.mpr hlo]

private lemma readWide_eq_ok {w minimum n : ℕ} {rest : Bytes}
    (h : readWide w minimum rest = .ok (v, n)) :
    n = w + 1 ∧ minimum ≤ v ∧ v < 256 ^ w ∧ rest = beBytes w v ++ rest.drop w := by
  unfold readWide at h
  split_ifs at h with hlen
  have hw : (rest.take w).length = w := by
    rw [length_take]
    omega
  simp only at h
  split_ifs at h with hmin
  obtain ⟨rfl, rfl⟩ := h
  refine ⟨rfl, by omega, ?_, ?_⟩
  · simpa only [hw] using beNat_lt (rest.take w)
  · have hback : beBytes w (beNat (rest.take w)) = rest.take w := by
      simpa only [hw] using beBytes_beNat (rest.take w)
    rw [hback, take_append_drop]

lemma readVaru64_writeVaru64 (hv : v < 2 ^ 64) :
    readVaru64 (writeVaru64 v ++ rest) = .ok (v, varu64Size v) := by
  unfold writeVaru64 varu64Size
  split_ifs with h1 h2 h3
  · have hbyte : (UInt8.ofNat v).toNat = v := by
      simp
      omega
    simp only [cons_append, nil_append, readVaru64, hbyte]
    rw [if_pos (by omega)]
  · have hlo : 253 ≤ v := by omega
    exact readWide_beBytes (w := 2) rest hlo h2
  · have hlo : 0x10000 ≤ v := by omega
    exact readWide_beBytes (w := 4) rest hlo h3
  · have hlo : 0x100000000 ≤ v := by omega
    exact readWide_beBytes (w := 8) rest hlo hv

/-- **The variable-width integer, exactly.** `read_varu64` accepts an input iff it starts with
what `write_varu64` emits for the value it returns: non-minimal forms are refused. -/
theorem readVaru64_eq_ok_iff {n : ℕ} :
    readVaru64 buf = .ok (v, n) ↔
      v < 2 ^ 64 ∧ n = varu64Size v ∧ ∃ rest, buf = writeVaru64 v ++ rest := by
  constructor
  · intro h
    cases buf with
    | nil => simp [readVaru64] at h
    | cons first rest =>
      rw [readVaru64] at h
      have hmark : ∀ {k : UInt8}, first.toNat = k.toNat → first = k := UInt8.toNat_inj.mp
      split_ifs at h with h0 h1 h2
      · obtain ⟨rfl, rfl⟩ := h
        have hlt : first.toNat < 253 := by omega
        refine ⟨by omega, by simp [varu64Size, hlt], rest, ?_⟩
        simp [writeVaru64, hlt]
      · obtain ⟨rfl, hlo, hhi, hrest⟩ := readWide_eq_ok h
        have hlo' : ¬ v < 253 := by omega
        have hhi' : v < 0x10000 := by omega
        refine ⟨by omega, by simp [varu64Size, hlo', hhi'], rest.drop 2, ?_⟩
        rw [writeVaru64, if_neg hlo', if_pos hhi', cons_append, ← hrest]
        rw [hmark (k := 0xFD) (by simpa using h1)]
      · obtain ⟨rfl, hlo, hhi, hrest⟩ := readWide_eq_ok h
        have hlo' : ¬ v < 0x10000 := by omega
        have hhi' : v < 0x100000000 := by omega
        have hsmal : ¬ v < 253 := by omega
        refine ⟨by omega, by simp [varu64Size, hsmal, hlo', hhi'], rest.drop 4, ?_⟩
        rw [writeVaru64, if_neg hsmal, if_neg hlo', if_pos hhi', cons_append, ← hrest]
        rw [hmark (k := 0xFE) (by simpa using h2)]
      · obtain ⟨rfl, hlo, hhi, hrest⟩ := readWide_eq_ok h
        have hlo' : ¬ v < 0x100000000 := by omega
        have hsmal : ¬ v < 253 := by omega
        have hmid : ¬ v < 0x10000 := by omega
        have hfst : first.toNat < 256 := first.toNat_lt
        refine ⟨by omega, by simp [varu64Size, hsmal, hmid, hlo'], rest.drop 8, ?_⟩
        rw [writeVaru64, if_neg hsmal, if_neg hmid, if_neg hlo', cons_append, ← hrest]
        rw [hmark (k := 0xFF) (by simp; omega)]
  · rintro ⟨hv, rfl, rest, rfl⟩
    exact readVaru64_writeVaru64 rest hv

/-! ## Elements -/

/-- `TlvReader::read_type`: the type must fit 32 bits and not use the 9-byte form. -/
def readType (buf : Bytes) : Except TlvError (ℕ × Bytes) :=
  match readVaru64 buf with
  | .error e => .error e
  | .ok (v, n) => if n = 9 ∨ v > 0xFFFFFFFF then .error .typeOutOfRange else .ok (v, buf.drop n)

/-- `TlvReader::read_length`: a length beyond the bytes that remain is refused. -/
def readLength (buf : Bytes) : Except TlvError (ℕ × Bytes) :=
  match readVaru64 buf with
  | .error e => .error e
  | .ok (v, n) =>
    let rest := buf.drop n
    if v > rest.length then .error .unexpectedEof else .ok (v, rest)

def readBytes (len : ℕ) (buf : Bytes) : Except TlvError (Bytes × Bytes) :=
  if len > buf.length then .error .unexpectedEof else .ok (buf.take len, buf.drop len)

/-- `TlvReader::read_tlv`: the type and value of the next element, and what follows it. -/
def readTlv (buf : Bytes) : Except TlvError ((ℕ × Bytes) × Bytes) := do
  let (typ, buf) ← readType buf
  let (len, buf) ← readLength buf
  let (val, buf) ← readBytes len buf
  return ((typ, val), buf)

/-- `TlvWriter::write_tlv`: one element. -/
def writeTlv (typ : ℕ) (value : Bytes) : Bytes :=
  writeVaru64 typ ++ writeVaru64 value.length ++ value

def tlvSize (typ valueLen : ℕ) : ℕ := varu64Size typ + varu64Size valueLen + valueLen

@[simp] lemma writeTlv_length (typ : ℕ) (value : Bytes) :
    (writeTlv typ value).length = tlvSize typ value.length := by
  simp [writeTlv, tlvSize, Nat.add_assoc]

lemma length_le_length_writeTlv (typ : ℕ) (value : Bytes) :
    value.length ≤ (writeTlv typ value).length := by
  rw [writeTlv_length, tlvSize]
  omega

lemma writeTlv_ne_nil (typ : ℕ) (value : Bytes) : writeTlv typ value ≠ [] := by
  have hpos := varu64Size_pos typ
  intro h
  have hlen := congrArg length h
  simp only [writeTlv_length, tlvSize, length_nil] at hlen
  omega

private lemma readType_eq_ok_iff {rest : Bytes} :
    readType buf = .ok (typ, rest) ↔ typ < 2 ^ 32 ∧ buf = writeVaru64 typ ++ rest := by
  constructor
  · intro h
    unfold readType at h
    split at h
    · cases h
    next v n hread =>
    split_ifs at h with hran
    obtain ⟨rfl, rfl⟩ := h
    obtain ⟨-, rfl, tail, rfl⟩ := readVaru64_eq_ok_iff.mp hread
    refine ⟨by omega, ?_⟩
    rw [← writeVaru64_length, drop_left]
  · rintro ⟨htyp, rfl⟩
    have hnine := varu64Size_lt_nine htyp
    rw [readType, readVaru64_writeVaru64 rest (by omega)]
    simp only
    rw [if_neg (by omega), ← writeVaru64_length, drop_left]

private lemma readLength_eq_ok_iff {rest : Bytes} {len : ℕ} :
    readLength buf = .ok (len, rest) ↔
      len < 2 ^ 64 ∧ len ≤ rest.length ∧ buf = writeVaru64 len ++ rest := by
  constructor
  · intro h
    unfold readLength at h
    split at h
    · cases h
    next v n hread =>
    simp only at h
    split_ifs at h with hlong
    obtain ⟨rfl, rfl⟩ := h
    obtain ⟨hv, rfl, tail, rfl⟩ := readVaru64_eq_ok_iff.mp hread
    refine ⟨hv, by omega, ?_⟩
    rw [← writeVaru64_length, drop_left]
  · rintro ⟨hlen, hfits, rfl⟩
    rw [readLength, readVaru64_writeVaru64 rest hlen]
    simp only
    rw [← writeVaru64_length, drop_left, if_neg (by omega)]

/-- **One element, exactly.** `read_tlv` accepts an input iff it starts with what `write_tlv`
emits for the type and value returned. -/
theorem readTlv_eq_ok_iff {rest : Bytes} :
    readTlv buf = .ok ((typ, value), rest) ↔
      typ < 2 ^ 32 ∧ value.length < 2 ^ 64 ∧ buf = writeTlv typ value ++ rest := by
  constructor
  · intro h
    obtain ⟨⟨t, buf₁⟩, htype, h⟩ := bind_eq_ok_iff.mp h
    obtain ⟨⟨len, buf₂⟩, hlen, h⟩ := bind_eq_ok_iff.mp h
    obtain ⟨⟨val, buf₃⟩, hbs, h⟩ := bind_eq_ok_iff.mp h
    obtain ⟨⟨rfl, rfl⟩, rfl⟩ := h
    obtain ⟨ht, rfl⟩ := readType_eq_ok_iff.mp htype
    obtain ⟨hl, hfits, rfl⟩ := readLength_eq_ok_iff.mp hlen
    simp only [readBytes, Nat.not_lt.mpr hfits, if_false, ok.injEq,
      Prod.mk.injEq] at hbs
    obtain ⟨rfl, rfl⟩ := hbs
    have htake : (buf₂.take len).length = len := by
      rw [length_take]
      omega
    refine ⟨ht, by omega, ?_⟩
    rw [writeTlv, htake, append_assoc, append_assoc, take_append_drop]
  · rintro ⟨htyp, hval, rfl⟩
    have htype : readType (writeTlv typ value ++ rest) =
        .ok (typ, writeVaru64 value.length ++ (value ++ rest)) :=
      readType_eq_ok_iff.mpr ⟨htyp, by simp [writeTlv]⟩
    have hlen : readLength (writeVaru64 value.length ++ (value ++ rest)) =
        .ok (value.length, value ++ rest) :=
      readLength_eq_ok_iff.mpr ⟨hval, by simp, rfl⟩
    simp [readTlv, htype, hlen, readBytes]

lemma readTlv_writeTlv (htyp : typ < 2 ^ 32) (hval : value.length < 2 ^ 64) :
    readTlv (writeTlv typ value ++ rest) = .ok ((typ, value), rest) :=
  readTlv_eq_ok_iff.mpr ⟨htyp, hval, rfl⟩

lemma readTlv_writeTlv_self (htyp : typ < 2 ^ 32) (hval : value.length < 2 ^ 64) :
    readTlv (writeTlv typ value) = .ok ((typ, value), []) := by
  have h := readTlv_writeTlv [] htyp hval
  rwa [append_nil] at h

lemma readVaru64_writeTlv (value rest : Bytes) (htyp : typ < 2 ^ 64) :
    readVaru64 (writeTlv typ value ++ rest) = .ok (typ, varu64Size typ) := by
  rw [writeTlv, append_assoc, append_assoc]
  exact readVaru64_writeVaru64 _ htyp

lemma readVaru64_drop_writeTlv (typ : ℕ) (rest : Bytes) (hval : value.length < 2 ^ 64) :
    readVaru64 ((writeTlv typ value ++ rest).drop (varu64Size typ)) =
      .ok (value.length, varu64Size value.length) := by
  rw [writeTlv, append_assoc, append_assoc, ← writeVaru64_length, drop_left]
  exact readVaru64_writeVaru64 _ hval

/-- What stands in front of a reader that finds a type, a length and as many bytes behind them. -/
lemma eq_writeTlv_append_of_readVaru64 {tn len ln : ℕ} (htyp : readVaru64 buf = .ok (typ, tn))
    (hlen : readVaru64 (buf.drop tn) = .ok (len, ln)) (hfits : tn + ln + len ≤ buf.length) :
    typ < 2 ^ 64 ∧ len < 2 ^ 64 ∧ ((buf.drop (tn + ln)).take len).length = len ∧
      buf = writeTlv typ ((buf.drop (tn + ln)).take len) ++ buf.drop (tn + ln + len) := by
  have hval : ((buf.drop (tn + ln)).take len).length = len := by
    rw [length_take, length_drop]
    omega
  obtain ⟨ht, rfl, tail, hbuf⟩ := readVaru64_eq_ok_iff.mp htyp
  have htail : buf.drop (varu64Size typ) = tail := by
    rw [hbuf, ← writeVaru64_length, drop_left]
  rw [htail] at hlen
  obtain ⟨hl, rfl, rest, hrest⟩ := readVaru64_eq_ok_iff.mp hlen
  have hdrop : buf.drop (varu64Size typ + varu64Size len) = rest := by
    rw [← drop_drop, htail, hrest, ← writeVaru64_length, drop_left]
  refine ⟨ht, hl, hval, ?_⟩
  have hafter : buf.drop (varu64Size typ + varu64Size len + len) = rest.drop len := by
    rw [← drop_drop, hdrop]
  rw [writeTlv, hval, hafter, hdrop, append_assoc, take_append_drop, append_assoc, ← hrest, ← hbuf]

/-- An element is found again in front of whatever follows it. -/
lemma writeTlv_append_inj {typ' : ℕ} {value' rest rest' : Bytes}
    (ht : typ < 2 ^ 64) (hv : value.length < 2 ^ 64) (ht' : typ' < 2 ^ 64)
    (hv' : value'.length < 2 ^ 64)
    (h : writeTlv typ value ++ rest = writeTlv typ' value' ++ rest') :
    typ = typ' ∧ value = value' ∧ rest = rest' := by
  have htyp := readVaru64_writeTlv value rest ht
  rw [h, readVaru64_writeTlv value' rest' ht', ok.injEq, Prod.mk.injEq] at htyp
  obtain ⟨rfl, -⟩ := htyp
  have hlen := readVaru64_drop_writeTlv typ' rest hv
  rw [h, readVaru64_drop_writeTlv typ' rest' hv', ok.injEq, Prod.mk.injEq] at hlen
  rw [writeTlv, writeTlv, hlen.1, append_assoc, append_assoc, append_assoc, append_assoc,
    append_cancel_left_eq, append_cancel_left_eq] at h
  exact ⟨rfl, append_inj h hlen.1.symm⟩

lemma readTlv_length_lt {rest : Bytes}
    (h : readTlv buf = .ok ((typ, value), rest)) : rest.length < buf.length := by
  obtain ⟨-, -, rfl⟩ := readTlv_eq_ok_iff.mp h
  have hpos := varu64Size_pos typ
  rw [length_append, writeTlv_length, tlvSize]
  omega

/-! ## Loops over elements

The decoders walk a buffer with `while !reader.is_empty()`. The loop below carries fuel, one unit
per byte; `walkTlv_of_ne_nil` is its equation without it. -/

section Loops

variable {ε σ : Type}

/-- The fuelled body of `walkTlv`. -/
def walkTlvFuel (onErr : TlvError → ε)
    (step : σ → ℕ → Bytes → Bytes → Except ε (ForInStep σ)) : ℕ → σ → Bytes → Except ε σ
  | 0, s, _ => .ok s
  | fuel + 1, s, buf =>
    if buf.isEmpty then .ok s
    else do
      let ((typ, val), rest) ← (readTlv buf).mapError onErr
      match ← step s typ val rest with
      | .done s => return s
      | .yield s => walkTlvFuel onErr step fuel s rest

/-- The loop `while !reader.is_empty() { let (typ, val) = reader.read_tlv()?; … }`. The body
gets the element and the unread remainder behind it; it may fail, leave the loop or go on. -/
def walkTlv (onErr : TlvError → ε) (step : σ → ℕ → Bytes → Bytes → Except ε (ForInStep σ))
    (s : σ) (buf : Bytes) : Except ε σ :=
  walkTlvFuel onErr step buf.length s buf

variable (onErr : TlvError → ε) (step : σ → ℕ → Bytes → Bytes → Except ε (ForInStep σ))

/-- What the loop does after its body. -/
def walkTlvNext (rest : Bytes) : ForInStep σ → Except ε σ
  | .done s => .ok s
  | .yield s => walkTlv onErr step s rest

private lemma walkTlvFuel_succ {fuel : ℕ} {b : UInt8} {bs : Bytes}
    (h : ∀ s rest, rest.length ≤ bs.length →
      walkTlvFuel onErr step fuel s rest = walkTlv onErr step s rest) (s : σ) :
    walkTlvFuel onErr step (fuel + 1) s (b :: bs) =
      (readTlv (b :: bs)).mapError onErr >>= fun r =>
        step s r.1.1 r.1.2 r.2 >>= walkTlvNext onErr step r.2 := by
  rw [walkTlvFuel]
  cases hread : readTlv (b :: bs) with
  | error e => rfl
  | ok r =>
    obtain ⟨⟨typ, val⟩, rest⟩ := r
    have hrest : rest.length < (b :: bs).length := readTlv_length_lt hread
    simp only [isEmpty_cons, Bool.false_eq_true, if_false, Except.mapError, Except.ok_bind]
    congr 1
    funext flow
    cases flow with
    | done s' => rfl
    | yield s' => exact h s' rest (Nat.lt_succ_iff.mp hrest)

/-- Fuel beyond the length of the buffer is never used. -/
private lemma walkTlvFuel_eq (fuel : ℕ) (s : σ) (buf : Bytes) (h : buf.length ≤ fuel) :
    walkTlvFuel onErr step fuel s buf = walkTlv onErr step s buf := by
  induction fuel using Nat.strong_induction_on generalizing s buf with
  | _ fuel ih =>
    cases buf with
    | nil => cases fuel <;> rfl
    | cons b bs =>
      obtain ⟨k, rfl⟩ : ∃ k, fuel = k + 1 := ⟨fuel - 1, by simp at h; omega⟩
      rw [length_cons] at h
      -- both sides continue on the same remainder, with different amounts of fuel left
      rw [walkTlv, length_cons, walkTlvFuel_succ onErr step fun s rest _ => ih k _ s rest _,
        walkTlvFuel_succ onErr step fun s rest hle => ih bs.length (by omega) s rest hle]
      all_goals omega

variable (s : σ)

@[simp] lemma walkTlv_nil : walkTlv onErr step s [] = .ok s := rfl

lemma walkTlv_of_ne_nil {buf : Bytes} (h : buf ≠ []) :
    walkTlv onErr step s buf =
      (readTlv buf).mapError onErr >>= fun r =>
        step s r.1.1 r.1.2 r.2 >>= walkTlvNext onErr step r.2 := by
  obtain ⟨b, bs, rfl⟩ := exists_cons_of_ne_nil h
  exact walkTlvFuel_succ onErr step (walkTlvFuel_eq onErr step _) s

lemma walkTlv_writeTlv {typ : ℕ} {value : Bytes} (rest : Bytes) (htyp : typ < 2 ^ 32)
    (hval : value.length < 2 ^ 64) :
    walkTlv onErr step s (writeTlv typ value ++ rest) =
      step s typ value rest >>= walkTlvNext onErr step rest := by
  have hne : writeTlv typ value ++ rest ≠ [] := by simp [writeTlv_ne_nil]
  rw [walkTlv_of_ne_nil onErr step s hne, readTlv_writeTlv rest htyp hval]
  rfl

end Loops

section Find

variable {ε σ : Type} (onErr : TlvError → ε) (step : σ → ℕ → Bytes → Except ε σ)

/-- The loop whose body never leaves early and does not look at the remainder. -/
def forEachTlv (s : σ) (buf : Bytes) : Except ε σ :=
  walkTlv onErr (fun s typ val _ => return .yield (← step s typ val)) s buf

@[simp] lemma forEachTlv_nil (s : σ) : forEachTlv onErr step s [] = .ok s := rfl

lemma forEachTlv_writeTlv (s : σ) {typ : ℕ} {value : Bytes} (rest : Bytes) (htyp : typ < 2 ^ 32)
    (hval : value.length < 2 ^ 64) :
    forEachTlv onErr step s (writeTlv typ value ++ rest) =
      step s typ value >>= fun s' => forEachTlv onErr step s' rest := by
  rw [forEachTlv, walkTlv_writeTlv onErr _ s rest htyp hval]
  cases step s typ value <;> rfl

def ElementOk (e : ℕ × Bytes) : Prop := e.1 < 2 ^ 32 ∧ e.2.length < 2 ^ 64

def writeTlvs (es : List (ℕ × Bytes)) : Bytes := es.flatMap fun e => writeTlv e.1 e.2

@[simp] lemma writeTlvs_nil : writeTlvs [] = [] := rfl

@[simp] lemma writeTlvs_cons (e : ℕ × Bytes) (es : List (ℕ × Bytes)) :
    writeTlvs (e :: es) = writeTlv e.1 e.2 ++ writeTlvs es := rfl

@[simp] lemma writeTlvs_append (es fs : List (ℕ × Bytes)) :
    writeTlvs (es ++ fs) = writeTlvs es ++ writeTlvs fs := by
  simp [writeTlvs]

variable {es : List (ℕ × Bytes)} (target : ℕ) {e : ℕ × Bytes} {s s' : σ}

/-- A loop with fuel for some elements has fuel for a turn and the elements behind the first. -/
lemma exists_fuel {fuel : ℕ} (h : (writeTlvs (e :: es)).length ≤ fuel) :
    ∃ fuel', fuel = fuel' + 1 ∧ (writeTlvs es).length ≤ fuel' := by
  have hpos : 0 < (writeTlv e.1 e.2).length := length_pos_of_ne_nil (writeTlv_ne_nil _ _)
  rw [writeTlvs_cons, length_append] at h
  exact ⟨fuel - 1, by omega, by omega⟩

lemma length_le_writeTlvs (he : e ∈ es) : e.2.length ≤ (writeTlvs es).length := by
  induction es with
  | nil => cases he
  | cons d es ih =>
    have hd := length_le_length_writeTlv d.1 d.2
    rw [writeTlvs_cons, length_append]
    rcases mem_cons.mp he with rfl | he
    · omega
    · have := ih he
      omega

lemma elementOk_of_length (htyp : ∀ e ∈ es, e.1 < 2 ^ 32)
    (hlen : (writeTlvs es).length < 2 ^ 64) : ∀ e ∈ es, ElementOk e :=
  fun e he => ⟨htyp e he, (length_le_writeTlvs he).trans_lt hlen⟩

lemma writeTlvs_inj {fs : List (ℕ × Bytes)} (hes : ∀ e ∈ es, e.1 < 2 ^ 64 ∧ e.2.length < 2 ^ 64)
    (hfs : ∀ e ∈ fs, e.1 < 2 ^ 64 ∧ e.2.length < 2 ^ 64) (h : writeTlvs es = writeTlvs fs) :
    es = fs := by
  induction es generalizing fs with
  | nil =>
    cases fs with
    | nil => rfl
    | cons f fs => simp [writeTlv_ne_nil] at h
  | cons e es ih =>
    cases fs with
    | nil => simp [writeTlv_ne_nil] at h
    | cons f fs =>
      obtain ⟨htyp, hval⟩ := hes e (by simp)
      obtain ⟨htyp', hval'⟩ := hfs f (by simp)
      rw [writeTlvs_cons, writeTlvs_cons] at h
      obtain ⟨htypes, hvalues, htail⟩ := writeTlv_append_inj htyp hval htyp' hval' h
      rw [ih (fun d hd => hes d (by simp [hd])) (fun d hd => hfs d (by simp [hd])) htail,
        Prod.ext htypes hvalues]

lemma ElementOk.wide (h : ElementOk e) : e.1 < 2 ^ 64 ∧ e.2.length < 2 ^ 64 :=
  ⟨h.1.trans (by decide), h.2⟩

lemma writeTlvs_injective {fs : List (ℕ × Bytes)} (hes : ∀ e ∈ es, ElementOk e)
    (hfs : ∀ e ∈ fs, ElementOk e) (h : writeTlvs es = writeTlvs fs) : es = fs :=
  writeTlvs_inj (fun e he => (hes e he).wide) (fun e he => (hfs e he).wide) h

private lemma forEachTlv_eq_ok_of_ne_nil {onErr : TlvError → ε} {step : σ → ℕ → Bytes → Except ε σ}
    {buf : Bytes} (hne : buf ≠ []) (h : forEachTlv onErr step s buf = .ok s') :
    ∃ e rest s₁, ElementOk e ∧ buf = writeTlv e.1 e.2 ++ rest ∧ step s e.1 e.2 = .ok s₁ ∧
      forEachTlv onErr step s₁ rest = .ok s' := by
  rw [forEachTlv, walkTlv_of_ne_nil _ _ _ hne] at h
  obtain ⟨⟨e, rest⟩, hread, h⟩ := bind_eq_ok_iff.mp h
  rw [mapError_eq_ok_iff] at hread
  obtain ⟨htyp, hval, hbuf⟩ := readTlv_eq_ok_iff.mp hread
  obtain ⟨flow, hstep, h⟩ := bind_eq_ok_iff.mp h
  obtain ⟨s₁, hs₁, hflow⟩ := bind_eq_ok_iff.mp hstep
  simp only [pure_eq_ok, ok.injEq] at hflow
  subst hflow
  exact ⟨e, rest, s₁, ⟨htyp, hval⟩, hbuf, hs₁, h⟩

/-- **The loop as a fold.** `forEachTlv` succeeds iff the buffer is a sequence of written
elements and the body succeeds on all of them in order. -/
theorem forEachTlv_eq_ok_iff {onErr : TlvError → ε} {step : σ → ℕ → Bytes → Except ε σ}
    {buf : Bytes} :
    forEachTlv onErr step s buf = .ok s' ↔
      ∃ es : List (ℕ × Bytes), (∀ e ∈ es, ElementOk e) ∧ buf = writeTlvs es ∧
        es.foldlM (fun s e => step s e.1 e.2) s = .ok s' := by
  constructor
  · -- induction on the length: every element read shortens the buffer
    intro h
    induction hlen : buf.length using Nat.strong_induction_on generalizing s buf with
    | _ len ih =>
      by_cases hne : buf = []
      · subst hne
        exact ⟨[], by simp, rfl, h⟩
      obtain ⟨e, rest, s₁, hok, rfl, hstep, hrest⟩ := forEachTlv_eq_ok_of_ne_nil hne h
      have hshor : rest.length < len := by
        have hpos := varu64Size_pos e.1
        rw [length_append, writeTlv_length, tlvSize] at hlen
        omega
      obtain ⟨es, hes, rfl, hfold⟩ := ih _ hshor hrest rfl
      refine ⟨e :: es, ?_, rfl, ?_⟩
      · intro d hd
        rcases mem_cons.mp hd with rfl | hd
        · exact hok
        · exact hes d hd
      · rw [foldlM_cons, hstep, ok_bind, hfold]
  · rintro ⟨es, hes, rfl, hfold⟩
    induction es generalizing s with
    | nil => simpa using hfold
    | cons e es ih =>
      obtain ⟨htyp, hval⟩ := hes e (by simp)
      rw [foldlM_cons] at hfold
      obtain ⟨s₁, hstep, hfold⟩ := bind_eq_ok_iff.mp hfold
      rw [writeTlvs_cons, forEachTlv_writeTlv _ _ _ _ htyp hval, hstep, ok_bind]
      exact ih (fun d hd => hes d (by simp [hd])) hfold

/-- The loop that returns the value of the first element of type `target`. -/
def findTlv (target : ℕ) (buf : Bytes) : Except TlvError (Option Bytes) :=
  walkTlv id (fun s typ val _ => return if typ = target then .done (some val) else .yield s)
    none buf

@[simp] lemma findTlv_nil : findTlv target [] = .ok none := rfl

lemma findTlv_writeTlv {typ : ℕ} {value : Bytes} (rest : Bytes)
    (htyp : typ < 2 ^ 32) (hval : value.length < 2 ^ 64) :
    findTlv target (writeTlv typ value ++ rest) =
      if typ = target then .ok (some value) else findTlv target rest := by
  rw [findTlv, walkTlv_writeTlv id _ none rest htyp hval]
  split_ifs with h <;> rfl

/-- The elements of a value can be read up to the first of type `target`, or to the end. -/
def ReadsUpTo (target : ℕ) (buf : Bytes) : Prop :=
  ∃ es : List (ℕ × Bytes), (∀ e ∈ es, ElementOk e) ∧
    (buf = writeTlvs es ∨ ∃ value rest, ElementOk (target, value) ∧
      buf = writeTlvs es ++ (writeTlv target value ++ rest))

/-- The search fails only at an element that cannot be read and that it comes to. -/
lemma findTlv_isOk_iff {buf : Bytes} :
    (∃ found, findTlv target buf = .ok found) ↔ ReadsUpTo target buf := by
  constructor
  · -- induction on the length: every element read shortens the buffer
    rintro ⟨found, h⟩
    induction hlen : buf.length using Nat.strong_induction_on generalizing buf with
    | _ len ih =>
      by_cases hne : buf = []
      · exact ⟨[], by simp, .inl hne⟩
      have hread := h
      rw [findTlv, walkTlv_of_ne_nil _ _ _ hne] at hread
      obtain ⟨⟨e, rest⟩, hread, -⟩ := bind_eq_ok_iff.mp hread
      rw [mapError_eq_ok_iff] at hread
      have hshort := readTlv_length_lt hread
      obtain ⟨htyp, hval, rfl⟩ := readTlv_eq_ok_iff.mp hread
      rw [findTlv_writeTlv target rest htyp hval] at h
      split_ifs at h with htarget
      · subst htarget
        exact ⟨[], by simp, .inr ⟨e.2, rest, ⟨htyp, hval⟩, rfl⟩⟩
      obtain ⟨es, hes, hrest⟩ := ih rest.length (by omega) h rfl
      refine ⟨e :: es, forall_mem_cons.mpr ⟨⟨htyp, hval⟩, hes⟩, ?_⟩
      rw [writeTlvs_cons]
      rcases hrest with rfl | ⟨value, tail, hvalue, rfl⟩
      · exact .inl rfl
      · exact .inr ⟨value, tail, hvalue, (append_assoc ..).symm⟩
  · rintro ⟨es, hes, hbuf⟩
    induction es generalizing buf with
    | nil =>
      rcases hbuf with rfl | ⟨value, rest, hvalue, rfl⟩
      · exact ⟨none, rfl⟩
      · refine ⟨some value, ?_⟩
        rw [writeTlvs_nil, nil_append, findTlv_writeTlv target rest hvalue.1 hvalue.2, if_pos rfl]
    | cons e es ih =>
      rw [forall_mem_cons] at hes
      obtain ⟨tail, rfl, htail⟩ : ∃ tail, buf = writeTlv e.1 e.2 ++ tail ∧
          (tail = writeTlvs es ∨ ∃ value rest, ElementOk (target, value) ∧
            tail = writeTlvs es ++ (writeTlv target value ++ rest)) := by
        rcases hbuf with rfl | ⟨value, rest, hvalue, rfl⟩
        · exact ⟨_, rfl, .inl rfl⟩
        · exact ⟨_, append_assoc .., .inr ⟨value, rest, hvalue, rfl⟩⟩
      rw [findTlv_writeTlv target tail hes.1.1 hes.1.2]
      split_ifs
      · exact ⟨some e.2, rfl⟩
      · exact ih hes.2 htail

lemma findTlv_writeTlvs (hes : ∀ e ∈ es, ElementOk e) :
    findTlv target (writeTlvs es) = .ok ((es.find? fun e => e.1 = target).map Prod.snd) := by
  induction es with
  | nil => rfl
  | cons e es ih =>
    obtain ⟨htyp, hval⟩ := hes e (by simp)
    rw [writeTlvs_cons, findTlv_writeTlv target _ htyp hval, find?_cons]
    by_cases h : e.1 = target
    · simp [h]
    · rw [if_neg h, ih fun d hd => hes d (by simp [hd])]
      simp [h]

end Find

section Scan

variable {σ : Type}

/-- The fuelled body of `scanTlv`. -/
def scanTlvFuel (step : σ → ℕ → Bytes → σ) : ℕ → σ → Bytes → σ
  | 0, s, _ => s
  | fuel + 1, s, buf =>
    if buf.isEmpty then s
    else
      match readTlv buf with
      | .error _ => s
      | .ok ((typ, val), rest) => scanTlvFuel step fuel (step s typ val) rest

variable (step : σ → ℕ → Bytes → σ) {es : List (ℕ × Bytes)}

/-- The loop
`while !reader.is_empty() { let Ok((typ, val)) = reader.read_tlv() else { break }; … }`:
it stops quietly at the first element that cannot be read. -/
def scanTlv (s : σ) (buf : Bytes) : σ :=
  scanTlvFuel step buf.length s buf

lemma scanTlvFuel_writeTlvs
    (hes : ∀ e ∈ es, ElementOk e) (fuel : ℕ) (hfuel : (writeTlvs es).length ≤ fuel) (s : σ) :
    scanTlvFuel step fuel s (writeTlvs es) = es.foldl (fun s e => step s e.1 e.2) s := by
  induction es generalizing fuel s with
  | nil => cases fuel <;> rfl
  | cons e es ih =>
    rw [forall_mem_cons] at hes
    obtain ⟨fuel, rfl, hrest⟩ := exists_fuel hfuel
    have hne : (writeTlv e.1 e.2 ++ writeTlvs es).isEmpty = false := by
      simp [writeTlv_ne_nil]
    rw [writeTlvs_cons, scanTlvFuel, hne, readTlv_writeTlv _ hes.1.1 hes.1.2, foldl_cons]
    exact ih hes.2 fuel hrest _

/-- **The quiet loop as a fold**, over elements as written. -/
lemma scanTlv_writeTlvs (hes : ∀ e ∈ es, ElementOk e) (s : σ) :
    scanTlv step s (writeTlvs es) = es.foldl (fun s e => step s e.1 e.2) s :=
  scanTlvFuel_writeTlvs step hes _ le_rfl s

end Scan

end Tlv

end NdnRs
