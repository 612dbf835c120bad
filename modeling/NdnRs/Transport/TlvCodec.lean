import NdnRs.Lib.Framing
import NdnRs.Wire.Tlv

/-!
# Frames of a byte stream (`ndn-transport/src/tlv_codec.rs`)

On a stream a frame is a TLV element. The decoder takes one off the buffer when it is there, fails
on a length that is too large and waits in all other cases, also on a number that is not minimal.

## Main results

* `decode_chunks` — the frames do not depend on the chunks.
* `waits_only_on_completable_iff` — when it waits in vain.
-/

namespace NdnRs.TlvCodec

open Bytes Tlv List

/-- `std::io::ErrorKind`, as far as the codec uses it. -/
inductive ErrorKind where
  | invalidData
  deriving DecidableEq

/-- `std::io::Error`. -/
structure IoError where
  kind : ErrorKind
  message : String
  deriving DecidableEq

def maxFrameSize : ℕ := 64 * 1024

def checkedAdd (a b : ℕ) : Option ℕ := if a + b < 2 ^ 64 then some (a + b) else none

/-- `TlvCodec::decode`: a frame, and the buffer behind it. -/
def decode (src : Bytes) : Except IoError (Option (Bytes × Bytes)) :=
  if src = [] then .ok none
  else
    match readVaru64 src with
    | .error _ => .ok none
    | .ok (_, typeLen) =>
      if src.length < typeLen + 1 then .ok none
      else
        match readVaru64 (src.drop typeLen) with
        | .error _ => .ok none
        | .ok (valueLen, lenLen) =>
          if valueLen > maxFrameSize then
            .error ⟨.invalidData, "TLV frame exceeds maximum size"⟩
          else
            match checkedAdd (typeLen + lenLen) valueLen with
            | none => .error ⟨.invalidData, "TLV frame length overflow"⟩
            | some frameLen =>
              if src.length < frameLen then .ok none
              else .ok (some (src.take frameLen, src.drop frameLen))

/-! ## What the decoder answers -/

section

variable {src : Bytes} {typ len : ℕ}

lemma decode_of_header (htyp : typ < 2 ^ 64) (hlen : len < 2 ^ 64) (rest : Bytes) :
    decode (writeVaru64 typ ++ (writeVaru64 len ++ rest)) =
      if maxFrameSize < len then .error ⟨.invalidData, "TLV frame exceeds maximum size"⟩
      else if rest.length < len then .ok none
      else .ok (some (writeVaru64 typ ++ (writeVaru64 len ++ rest.take len), rest.drop len)) := by
  have hlen' := varu64Size_pos len
  have hdrop : (writeVaru64 typ ++ (writeVaru64 len ++ rest)).drop (varu64Size typ) =
      writeVaru64 len ++ rest := by
    rw [← writeVaru64_length, drop_left]
  have hlen2 : (writeVaru64 typ ++ (writeVaru64 len ++ rest)).length =
      varu64Size typ + (varu64Size len + rest.length) := by simp
  have hne : writeVaru64 typ ++ (writeVaru64 len ++ rest) ≠ [] := by
    intro hnil
    rw [hnil, length_nil] at hlen2
    omega
  rw [decode, if_neg hne, readVaru64_writeVaru64 _ htyp]
  simp only
  rw [if_neg (by omega), hdrop, readVaru64_writeVaru64 _ hlen]
  simp only
  by_cases hmax : maxFrameSize < len
  · rw [if_pos hmax, if_pos hmax]
  have hadd : checkedAdd (varu64Size typ + varu64Size len) len =
      some (varu64Size typ + varu64Size len + len) := by
    have h1 := varu64Size_le typ
    have h2 := varu64Size_le len
    rw [maxFrameSize] at hmax
    rw [checkedAdd, if_pos (by omega)]
  rw [if_neg hmax, if_neg hmax, hadd]
  simp only
  by_cases hshor : rest.length < len
  · rw [if_pos hshor, if_pos (by omega)]
  · rw [if_neg hshor, if_neg (by omega), ← append_assoc]
    have hhead : (writeVaru64 typ ++ writeVaru64 len).length = varu64Size typ + varu64Size len := by
      simp
    rw [← hhead, take_length_add_append, drop_length_add_append, append_assoc]

/-- The decoder waits for more bytes unless it has a type and a length. -/
lemma header_of_decode (h : decode src ≠ .ok none) : ∃ typ len rest, typ < 2 ^ 64 ∧ len < 2 ^ 64 ∧
    src = writeVaru64 typ ++ (writeVaru64 len ++ rest) := by
  rw [decode] at h
  split_ifs at h with hnil
  · exact absurd rfl h
  cases htyp : readVaru64 src with
  | error e => simp [htyp] at h
  | ok p =>
    obtain ⟨typ, typeLen⟩ := p
    rw [htyp] at h
    obtain ⟨htyp', rfl, rest, rfl⟩ := readVaru64_eq_ok_iff.mp htyp
    simp only at h
    split_ifs at h
    · exact absurd rfl h
    rw [← writeVaru64_length, drop_left] at h
    cases hlen : readVaru64 rest with
    | error e => simp [hlen] at h
    | ok q =>
      obtain ⟨hlen', -, rest', rfl⟩ := readVaru64_eq_ok_iff.mp hlen
      exact ⟨typ, q.1, rest', htyp', hlen', rfl⟩

/-- **The frames of the decoder**: elements that are not too large. -/
lemma decode_eq_some_iff {frame rest : Bytes} :
    decode src = .ok (some (frame, rest)) ↔ ∃ typ value, typ < 2 ^ 64 ∧
      value.length ≤ maxFrameSize ∧ frame = writeTlv typ value ∧ src = frame ++ rest := by
  constructor
  · intro h
    obtain ⟨typ, len, tail, htyp, hlen, rfl⟩ := header_of_decode (by rw [h]; nofun)
    rw [decode_of_header htyp hlen] at h
    by_cases hmax : maxFrameSize < len
    · rw [if_pos hmax] at h
      cases h
    rw [if_neg hmax] at h
    by_cases hshor : tail.length < len
    · rw [if_pos hshor] at h
      cases h
    rw [if_neg hshor] at h
    have hval : (tail.take len).length = len := length_take_of_le (not_lt.mp hshor)
    obtain ⟨rfl, rfl⟩ := h
    refine ⟨typ, tail.take len, htyp, by omega, ?_, ?_⟩
    · rw [writeTlv, hval, append_assoc]
    · simp only [append_assoc, take_append_drop]
  · rintro ⟨typ, value, htyp, hval, rfl, rfl⟩
    have hlen : value.length < 2 ^ 64 := by
      rw [maxFrameSize] at hval
      omega
    simp only [writeTlv, append_assoc]
    rw [decode_of_header htyp hlen, if_neg (not_lt.mpr hval), if_neg (by simp), take_left,
      drop_left]

/-- **The error of the decoder**: a length that is too large. -/
lemma decode_eq_error_iff {e : IoError} :
    decode src = .error e ↔ ∃ typ len tail, typ < 2 ^ 64 ∧ len < 2 ^ 64 ∧ maxFrameSize < len ∧
      src = writeVaru64 typ ++ (writeVaru64 len ++ tail) ∧
      e = ⟨.invalidData, "TLV frame exceeds maximum size"⟩ := by
  constructor
  · intro h
    obtain ⟨typ, len, tail, htyp, hlen, rfl⟩ := header_of_decode (by rw [h]; nofun)
    rw [decode_of_header htyp hlen] at h
    by_cases hmax : maxFrameSize < len
    · rw [if_pos hmax, Except.error.injEq] at h
      exact ⟨typ, len, tail, htyp, hlen, hmax, rfl, h.symm⟩
    · split_ifs at h
  · rintro ⟨typ, len, tail, htyp, hlen, hmax, rfl, rfl⟩
    rw [decode_of_header htyp hlen, if_pos hmax]

end

/-! ## Chunks -/

/-- **The decoder stays with its answer** when more bytes come. -/
lemma stable_decode : Framing.Stable decode where
  nil := rfl
  split := by
    intro buf frame rest h
    obtain ⟨typ, value, -, -, rfl, rfl⟩ := decode_eq_some_iff.mp h
    refine ⟨fun hnil => ?_, rfl⟩
    have hlen2 := congrArg length hnil
    have hpos := varu64Size_pos typ
    rw [writeTlv_length, tlvSize, length_nil] at hlen2
    omega
  frame := by
    intro buf frame rest h more
    obtain ⟨typ, value, htyp, hval, rfl, rfl⟩ := decode_eq_some_iff.mp h
    exact decode_eq_some_iff.mpr ⟨typ, value, htyp, hval, rfl, append_assoc ..⟩
  error := by
    intro buf e h more
    obtain ⟨typ, len, tail, htyp, hlen, hmax, rfl, rfl⟩ := decode_eq_error_iff.mp h
    refine decode_eq_error_iff.mpr ⟨typ, len, tail ++ more, htyp, hlen, hmax, ?_, rfl⟩
    rw [append_assoc, append_assoc]

/-- **However a stream is cut**, the decoder emits the same frames and the same first error as for
the whole stream at once, and the frames are the beginning of the stream. -/
theorem decode_chunks (chunks : List Bytes) :
    (chunks.foldl (Framing.feed decode) Framing.start).frames =
        (Framing.feed decode Framing.start chunks.flatten).frames ∧
      (chunks.foldl (Framing.feed decode) Framing.start).error =
        (Framing.feed decode Framing.start chunks.flatten).error ∧
      (chunks.foldl (Framing.feed decode) Framing.start).frames.flatten <+: chunks.flatten := by
  have hcut := Framing.upTo_chunks stable_decode chunks
  have hwhl := Framing.upTo_chunks stable_decode [chunks.flatten]
  rw [flatten_singleton] at hwhl
  exact ⟨hcut.frames.trans hwhl.frames.symm, hcut.error.trans hwhl.error.symm,
    Framing.flatten_frames_prefix stable_decode chunks⟩

/-! ## Waiting -/

/-- The buffer is the beginning of a frame that is not too large. -/
def Completable (buf : Bytes) : Prop :=
  ∃ typ value, typ < 2 ^ 64 ∧ value.length ≤ maxFrameSize ∧ buf <+: writeTlv typ value

/-- The least number of `w` bytes that starts with the bytes that are there. -/
def lowest (w : ℕ) (bs : Bytes) : ℕ := beNat (bs.take w) * 256 ^ (w - bs.length)

def highest (w : ℕ) (bs : Bytes) : ℕ := lowest w bs + (256 ^ (w - bs.length) - 1)

/-- A number of `w` bytes that starts with the bytes that are there can be at least `minimum`, and
at most `bound`. -/
def CanBe (w minimum bound : ℕ) (bs : Bytes) : Prop :=
  minimum ≤ highest w bs ∧ lowest w bs ≤ bound ∧ minimum ≤ bound

instance (w minimum bound : ℕ) (bs : Bytes) : Decidable (CanBe w minimum bound bs) :=
  inferInstanceAs (Decidable (_ ∧ _ ∧ _))

/-- A VAR-NUMBER that starts with the bytes that are there can be minimal and at most `bound`. -/
def Hopeful (bound : ℕ) : Bytes → Prop
  | [] => True
  | first :: rest =>
    if first.toNat ≤ 252 then True
    else if first.toNat = 253 then CanBe 2 253 bound rest
    else if first.toNat = 254 then CanBe 4 0x10000 bound rest
    else CanBe 8 0x100000000 bound rest

instance (bound : ℕ) : DecidablePred (Hopeful bound)
  | [] => .isTrue trivial
  | first :: rest => inferInstanceAs (Decidable
      (if first.toNat ≤ 252 then True
      else if first.toNat = 253 then CanBe 2 253 bound rest
      else if first.toNat = 254 then CanBe 4 0x10000 bound rest
      else CanBe 8 0x100000000 bound rest))

def Comparable (a b : Bytes) : Prop := a <+: b ∨ b <+: a

variable {a b buf : Bytes} {w bound typ : ℕ}

lemma comparable_iff_take : Comparable a b ↔ a.take b.length = b.take a.length := by
  rcases le_total a.length b.length with h | h
  · rw [take_of_length_le h, Comparable, prefix_iff_eq_take]
    refine or_iff_left_of_imp fun hb => ?_
    rw [← hb.eq_of_length_le h]
    exact take_length.symm
  · rw [take_of_length_le h, Comparable, or_comm, prefix_iff_eq_take, eq_comm (a := b)]
    refine or_iff_left_of_imp fun ha => ?_
    rw [ha.eq_of_length_le h]
    exact take_length

variable {v : ℕ} {rest : Bytes} {minimum : ℕ}

/-- The numbers that some bytes can become. -/
lemma comparable_beBytes_iff (hv : v < 256 ^ w) (bs : Bytes) :
    Comparable bs (beBytes w v) ↔ lowest w bs ≤ v ∧ v ≤ highest w bs := by
  have hpos : 0 < 256 ^ (w - bs.length) := Nat.pow_pos (by decide)
  have htake : (beBytes w v).take bs.length =
      beBytes (bs.take w).length (v / 256 ^ (w - bs.length)) := by
    rw [length_take]
    rcases le_total w bs.length with h | h
    · rw [min_eq_left h, Nat.sub_eq_zero_of_le h, pow_zero, Nat.div_one,
        take_of_length_le (by simpa using h)]
    · rw [min_eq_right h, take_beBytes h]
  have hlt : v / 256 ^ (w - bs.length) < 256 ^ (bs.take w).length := by
    rw [Nat.div_lt_iff_lt_mul hpos, ← pow_add, length_take]
    refine hv.trans_le (Nat.pow_le_pow_right (by decide) ?_)
    omega
  rw [comparable_iff_take, beBytes_length, htake]
  have hquot : bs.take w = beBytes (bs.take w).length (v / 256 ^ (w - bs.length)) ↔
      beNat (bs.take w) = v / 256 ^ (w - bs.length) := by
    constructor
    · intro h
      have hnat := congrArg beNat h
      rwa [beNat_beBytes hlt] at hnat
    · intro h
      rw [← h, beBytes_beNat]
  rw [hquot, lowest, highest, lowest, eq_comm, Nat.div_eq_iff hpos]
  omega

lemma canBe_iff (hmin : minimum < 256 ^ w) (bs : Bytes) :
    CanBe w minimum bound bs ↔ ∃ v, minimum ≤ v ∧ v < 256 ^ w ∧ v ≤ bound ∧
      Comparable bs (beBytes w v) := by
  have hpos : 0 < 256 ^ (w - bs.length) := Nat.pow_pos (by decide)
  have hlowest : lowest w bs < 256 ^ w := by
    have hlt := beNat_lt (bs.take w)
    have hpow : 256 ^ (bs.take w).length * 256 ^ (w - bs.length) = 256 ^ w := by
      rw [← pow_add, length_take]
      congr 1
      omega
    rw [lowest, ← hpow]
    exact Nat.mul_lt_mul_of_pos_right hlt hpos
  constructor
  · rintro ⟨hhigh, hlow, hbd⟩
    refine ⟨max minimum (lowest w bs), le_max_left .., max_lt hmin hlowest, max_le hbd hlow, ?_⟩
    rw [comparable_beBytes_iff (max_lt hmin hlowest)]
    exact ⟨le_max_right .., max_le hhigh (Nat.le_add_right ..)⟩
  · rintro ⟨v, hle, hv, hbd, hcmp⟩
    obtain ⟨hlow, hhigh⟩ := (comparable_beBytes_iff hv bs).mp hcmp
    exact ⟨hle.trans hhigh, hlow.trans hbd, hle.trans hbd⟩

lemma comparable_cons_cons {a b : UInt8} {as bs : Bytes} :
    Comparable (a :: as) (b :: bs) ↔ a = b ∧ Comparable as bs := by
  rw [Comparable, cons_prefix_cons, cons_prefix_cons, eq_comm (a := b), ← and_or_left]
  rfl

/-- What a number can start with. -/
lemma comparable_writeVaru64_iff (hv : v < 2 ^ 64) (first : UInt8) (rest : Bytes) :
    Comparable (first :: rest) (writeVaru64 v) ↔
      (first.toNat = v ∧ v ≤ 252) ∨
      (first.toNat = 253 ∧ 253 ≤ v ∧ v < 256 ^ 2 ∧ Comparable rest (beBytes 2 v)) ∨
      (first.toNat = 254 ∧ 0x10000 ≤ v ∧ v < 256 ^ 4 ∧ Comparable rest (beBytes 4 v)) ∨
      (first.toNat = 255 ∧ 0x100000000 ≤ v ∧ v < 256 ^ 8 ∧ Comparable rest (beBytes 8 v)) := by
  have hnil : Comparable rest [] := .inr nil_prefix
  unfold writeVaru64
  split_ifs with h1 h2 h3
  · have hbyte : (UInt8.ofNat v).toNat = v := by
      simp
      omega
    rw [comparable_cons_cons, ← UInt8.toNat_inj, hbyte]
    simp only [hnil, and_true]
    omega
  · have hran : ¬ v ≤ 252 ∧ 253 ≤ v ∧ v < 65536 ∧ ¬ 65536 ≤ v ∧ ¬ 4294967296 ≤ v := by omega
    rw [comparable_cons_cons, ← UInt8.toNat_inj]
    simp [hran]
  · have hran : ¬ v ≤ 252 ∧ ¬ v < 65536 ∧ 65536 ≤ v ∧ v < 4294967296 ∧ ¬ 4294967296 ≤ v := by
      omega
    rw [comparable_cons_cons, ← UInt8.toNat_inj]
    simp [hran]
  · have hran : ¬ v ≤ 252 ∧ ¬ v < 65536 ∧ ¬ v < 4294967296 ∧ 4294967296 ≤ v ∧
        v < 18446744073709551616 := by omega
    rw [comparable_cons_cons, ← UInt8.toNat_inj]
    simp [hran]

/-- The bytes behind the first one, when it says how many there are. -/
lemma canBe_iff_comparable {first : UInt8} (hmin : minimum < 256 ^ w) (hw : w ≤ 8)
    (hform : ∀ v < 2 ^ 64, Comparable (first :: rest) (writeVaru64 v) ↔
      minimum ≤ v ∧ v < 256 ^ w ∧ Comparable rest (beBytes w v)) :
    CanBe w minimum bound rest ↔
      ∃ v, v < 2 ^ 64 ∧ v ≤ bound ∧ Comparable (first :: rest) (writeVaru64 v) := by
  rw [canBe_iff hmin]
  constructor
  · rintro ⟨v, hmin, hwid, hle, hrest⟩
    have hv : v < 2 ^ 64 := hwid.trans_le (Nat.pow_le_pow_right (n := 256) (by decide) hw)
    exact ⟨v, hv, hle, (hform v hv).mpr ⟨hmin, hwid, hrest⟩⟩
  · rintro ⟨v, hv, hle, hcmp⟩
    obtain ⟨hmin, hwid, hrest⟩ := (hform v hv).mp hcmp
    exact ⟨v, hmin, hwid, hle, hrest⟩

/-- **The bytes of a number are hopeful** iff they are the beginning of one that is not too large,
or start with it. -/
lemma hopeful_iff (hbd : 252 ≤ bound) (bs : Bytes) :
    Hopeful bound bs ↔ ∃ v, v < 2 ^ 64 ∧ v ≤ bound ∧ Comparable bs (writeVaru64 v) := by
  cases bs with
  | nil => exact iff_of_true trivial ⟨0, by decide, Nat.zero_le _, .inl nil_prefix⟩
  | cons first rest =>
    have hbyte := first.toNat_lt
    rw [Hopeful]
    split_ifs with h1 h2 h3
    · refine iff_of_true trivial ⟨first.toNat, by omega, by omega, ?_⟩
      exact (comparable_writeVaru64_iff (by omega) first rest).mpr (.inl ⟨rfl, h1⟩)
    all_goals
      refine canBe_iff_comparable (by decide) (by decide) fun v hv => ?_
      rw [comparable_writeVaru64_iff hv, or_iff_right (by omega)]
    · simp [h2]
    · simp [h3]
    · have h4 : first.toNat = 255 := by omega
      simp [h4]

lemma comparable_of_prefix {c : Bytes} (h : a <+: b ++ c) : Comparable a b :=
  prefix_or_prefix_of_prefix h (prefix_append b c)

lemma Completable.hopeful_type (h : Completable buf) : Hopeful (2 ^ 64 - 1) buf := by
  obtain ⟨typ, value, htyp, -, hbuf⟩ := h
  rw [writeTlv, append_assoc] at hbuf
  exact (hopeful_iff (by decide) buf).mpr ⟨typ, htyp, by omega, comparable_of_prefix hbuf⟩

/-- A number is read back, so that it is the only one that some bytes start with. -/
lemma writeVaru64_append_inj {v' : ℕ} {rest' : Bytes} (hv : v < 2 ^ 64) (hv' : v' < 2 ^ 64)
    (h : writeVaru64 v ++ rest = writeVaru64 v' ++ rest') : v = v' ∧ rest = rest' := by
  have hread := readVaru64_writeVaru64 rest hv
  rw [h, readVaru64_writeVaru64 rest' hv', Except.ok.injEq, Prod.mk.injEq] at hread
  obtain ⟨rfl, -⟩ := hread
  exact ⟨rfl, append_cancel_left h⟩

lemma Completable.hopeful_length (htyp : typ < 2 ^ 64)
    (h : Completable (writeVaru64 typ ++ rest)) : Hopeful maxFrameSize rest := by
  obtain ⟨typ', value, htyp', hval, hbuf⟩ := h
  obtain ⟨tail, htail⟩ := hbuf
  rw [writeTlv, append_assoc, append_assoc] at htail
  obtain ⟨-, hrest⟩ := writeVaru64_append_inj htyp htyp' htail
  refine (hopeful_iff (by decide) rest).mpr
    ⟨value.length, ?_, hval, comparable_of_prefix ⟨tail, hrest⟩⟩
  rw [maxFrameSize] at hval
  omega

lemma completable_of_hopeful_type (h : Hopeful (2 ^ 64 - 1) buf)
    (hread : ∀ typ n, readVaru64 buf ≠ .ok (typ, n)) : Completable buf := by
  obtain ⟨typ, htyp, -, hpre | ⟨rest, rfl⟩⟩ := (hopeful_iff (by decide) buf).mp h
  · refine ⟨typ, [], htyp, Nat.zero_le _, hpre.trans ?_⟩
    rw [writeTlv, append_assoc]
    exact prefix_append ..
  · exact absurd (readVaru64_writeVaru64 rest htyp) (hread _ _)

lemma completable_of_hopeful_length (htyp : typ < 2 ^ 64)
    (h : Hopeful maxFrameSize rest) (hwait : decode (writeVaru64 typ ++ rest) = .ok none) :
    Completable (writeVaru64 typ ++ rest) := by
  obtain ⟨len, hlen, hmax, hpre | ⟨tail, rfl⟩⟩ := (hopeful_iff (by decide) rest).mp h
  · refine ⟨typ, replicate len 0, htyp, by rwa [length_replicate], ?_⟩
    rw [writeTlv, append_assoc, prefix_append_right_inj, length_replicate]
    exact hpre.trans (prefix_append ..)
  rw [decode_of_header htyp hlen, if_neg (not_lt.mpr hmax)] at hwait
  have hshor : tail.length < len := by
    by_contra hlong
    rw [if_neg hlong] at hwait
    cases hwait
  refine ⟨typ, tail ++ replicate (len - tail.length) 0, htyp, ?_, ?_⟩
  · rw [length_append, length_replicate]
    omega
  · rw [writeTlv, append_assoc, prefix_append_right_inj, length_append,
      length_replicate, Nat.add_sub_cancel' hshor.le, prefix_append_right_inj]
    exact prefix_append ..

/-- **The decoder waits only for what can come**, exactly if the type that the buffer starts with
can still be a minimal number, and so can the length behind it, with a value that is not too large;
a length that is there and too large is no matter, since the decoder fails on it. -/
theorem waits_only_on_completable_iff (buf : Bytes) :
    (decode buf = .ok none → Completable buf) ↔
      Hopeful (2 ^ 64 - 1) buf ∧ ∀ typ n, readVaru64 buf = .ok (typ, n) →
        Hopeful maxFrameSize (buf.drop n) ∨
          ∃ len k, readVaru64 (buf.drop n) = .ok (len, k) ∧ maxFrameSize < len := by
  by_cases hread : ∃ typ n, readVaru64 buf = .ok (typ, n)
  · obtain ⟨typ, n, hread⟩ := hread
    obtain ⟨htyp, rfl, rest, rfl⟩ := readVaru64_eq_ok_iff.mp hread
    have htype : Hopeful (2 ^ 64 - 1) (writeVaru64 typ ++ rest) :=
      (hopeful_iff (by decide) _).mpr ⟨typ, htyp, by omega, .inr (prefix_append ..)⟩
    have hdrop : (writeVaru64 typ ++ rest).drop (varu64Size typ) = rest := by
      rw [← writeVaru64_length, drop_left]
    have hlen2 : (∀ typ' n, readVaru64 (writeVaru64 typ ++ rest) = .ok (typ', n) →
        Hopeful maxFrameSize ((writeVaru64 typ ++ rest).drop n) ∨ ∃ len k,
          readVaru64 ((writeVaru64 typ ++ rest).drop n) = .ok (len, k) ∧ maxFrameSize < len) ↔
        Hopeful maxFrameSize rest ∨
          ∃ len k, readVaru64 rest = .ok (len, k) ∧ maxFrameSize < len := by
      constructor
      · intro h
        have hrest := h typ _ hread
        rwa [hdrop] at hrest
      · intro h typ' n hread'
        rw [hread, Except.ok.injEq, Prod.mk.injEq] at hread'
        rwa [← hread'.2, hdrop]
    rw [hlen2, and_iff_right htype]
    constructor
    · intro h
      by_contra hnot
      obtain ⟨hhl, hover⟩ := not_or.mp hnot
      have hwait : decode (writeVaru64 typ ++ rest) = .ok none := by
        by_contra hhead
        obtain ⟨typ', len, tail, htyp', hlen, heq⟩ := header_of_decode hhead
        -- a length that is there would be too large, or hopeful
        obtain ⟨-, rfl⟩ := writeVaru64_append_inj htyp htyp' heq
        have hmax : len ≤ maxFrameSize := by
          by_contra hlar
          exact hover ⟨len, _, readVaru64_writeVaru64 tail hlen, not_le.mp hlar⟩
        exact hhl ((hopeful_iff (by decide) _).mpr ⟨len, hlen, hmax, .inr (prefix_append ..)⟩)
      exact hhl ((h hwait).hopeful_length htyp)
    · rintro (hhop | ⟨len, k, hlen, hlar⟩) hwait
      · exact completable_of_hopeful_length htyp hhop hwait
      · obtain ⟨hlen', -, tail, rfl⟩ := readVaru64_eq_ok_iff.mp hlen
        rw [decode_of_header htyp hlen', if_pos hlar] at hwait
        cases hwait
  · push Not at hread
    have hwait : decode buf = .ok none := by
      by_contra hhead
      obtain ⟨typ, len, rest, htyp, -, heq⟩ := header_of_decode hhead
      exact hread typ _ (heq ▸ readVaru64_writeVaru64 _ htyp)
    constructor
    · intro h
      exact ⟨(h hwait).hopeful_type, fun typ n hok => absurd hok (hread typ n)⟩
    · rintro ⟨h, -⟩ -
      exact completable_of_hopeful_type h hread

/-- **A header that is not minimal.** The type 5, written in three bytes: whatever follows, the
decoder waits for more, and no frame starts so. -/
theorem waits_forever :
    (∀ more, decode ([0xFD, 0x00, 0x05] ++ more) = .ok none) ∧
      ¬ Completable [0xFD, 0x00, 0x05] := by
  refine ⟨fun more => rfl, fun h => ?_⟩
  have hhl : ¬ Hopeful (2 ^ 64 - 1) [0xFD, 0x00, 0x05] := by decide
  exact hhl h.hopeful_type

end NdnRs.TlvCodec
