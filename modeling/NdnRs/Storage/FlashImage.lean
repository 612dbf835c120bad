import NdnRs.Storage.FlashLog

/-!
# What a flash region holds

The cells of a half that carries a log: a superblock, complete records, and an end that is blank or
holds the front part of one more record. Mounting reads such a half back.
-/

namespace NdnRs.Flash

open Bytes NorMemory List Except WriteOp

variable {g : Geometry}

/-! ## Records -/

variable (op : WriteOp) (ops : List WriteOp)

def payloadLen : ℕ := (encodePayload ops).length

/-- The length of a record with a payload of `n` bytes. -/
def recordLen (g : Geometry) (n : ℕ) : ℕ := (8 + n + g.writeSize - 1) / g.writeSize * g.writeSize

/-- A record whose length fits 32 bits, and whose parts lie where the chip can read them. -/
structure RecordOk (g : Geometry) (ops : List WriteOp) : Prop where
  fits : recordLen g (payloadLen ops) < 2 ^ 32
  payload_aligned : g.readSize ∣ payloadLen ops
  record_aligned : g.readSize ∣ recordLen g (payloadLen ops)

lemma le_recordLen (g : Geometry) (n : ℕ) : 8 + n ≤ recordLen g n := by
  have hpos := g.writeSize_pos
  have hdiv := Nat.div_add_mod (8 + n + g.writeSize - 1) g.writeSize
  have hmod := Nat.mod_lt (8 + n + g.writeSize - 1) hpos
  rw [Nat.mul_comm] at hdiv
  unfold recordLen
  omega

lemma recordLen_lt (g : Geometry) (n : ℕ) : recordLen g n < 8 + n + g.writeSize := by
  have hle := Nat.div_mul_le_self (8 + n + g.writeSize - 1) g.writeSize
  unfold recordLen
  omega

lemma alignUp_eq_recordLen {n : ℕ} (h : recordLen g n < 2 ^ 32) :
    alignUp (8 + n) g.writeSize = recordLen g n :=
  Nat.mod_eq_of_lt h

lemma encodeRecord_eq {ops : List WriteOp} (h : recordLen g (payloadLen ops) < 2 ^ 32) :
    encodeRecord g ops =
      leBytes 4 (payloadLen ops) ++ (encodePayload ops ++
        (leBytes 4 (payloadLen ops ^^^ commitMagic) ++
          blank (recordLen g (payloadLen ops) - (8 + payloadLen ops)))) := by
  have hle := le_recordLen g (payloadLen ops)
  have hlen : (encodePayload ops).length = payloadLen ops := rfl
  have hmod : payloadLen ops % 2 ^ 32 = payloadLen ops := Nat.mod_eq_of_lt (by omega)
  have hfram : (leBytes 4 (payloadLen ops) ++ encodePayload ops ++
      leBytes 4 (payloadLen ops ^^^ commitMagic)).length = 8 + payloadLen ops := by
    simp only [length_append, leBytes_length, hlen]
    omega
  have hmod8 : (8 + payloadLen ops) % 2 ^ 32 = 8 + payloadLen ops := Nat.mod_eq_of_lt (by omega)
  simp only [encodeRecord, hlen, hmod, hfram, hmod8, alignUp_eq_recordLen h]
  rw [take_of_length_le (by omega)]
  simp only [append_assoc]

lemma encodeRecord_length {ops : List WriteOp} (h : recordLen g (payloadLen ops) < 2 ^ 32) :
    (encodeRecord g ops).length = recordLen g (payloadLen ops) := by
  have hle := le_recordLen g (payloadLen ops)
  have hlen : (encodePayload ops).length = payloadLen ops := rfl
  rw [encodeRecord_eq h]
  simp only [length_append, leBytes_length, length_replicate, hlen]
  omega

/-! ## Payloads -/

lemma applyPayloadFrom_encode (hop : op.encode.length < 2 ^ 32) (fuel : ℕ)
    (rest : Bytes) (index : Index) :
    applyPayloadFrom (fuel + 1) (op.encode ++ rest) index =
      applyPayloadFrom fuel rest (op.apply index) := by
  cases op with
  | put key value =>
    have hlen : (put key value).encode.length = 9 + key.length + value.length := by
      simp only [encode, length_cons, length_append, leBytes_length]
      omega
    have hkey : leNat (leBytes 4 key.length) = key.length := leNat_leBytes (by omega)
    have hval : leNat (leBytes 4 value.length) = value.length := leNat_leBytes (by omega)
    simp [encode, applyPayloadFrom, hkey, hval, opPut]
  | delete key =>
    have hlen : (delete key).encode.length = 5 + key.length := by
      simp only [encode, length_cons, length_append, leBytes_length]
      omega
    have hkey : leNat (leBytes 4 key.length) = key.length := leNat_leBytes (by omega)
    simp [encode, applyPayloadFrom, hkey, opPut, opDel]

lemma WriteOp.encode_ne_nil : 0 < op.encode.length := by
  cases op <;> simp [encode]

lemma payloadLen_cons : payloadLen (op :: ops) = op.encode.length + payloadLen ops := by
  simp [payloadLen, encodePayload]

lemma length_le_payloadLen : ops.length ≤ payloadLen ops := by
  induction ops with
  | nil => simp
  | cons op ops ih =>
    have hop := op.encode_ne_nil
    rw [payloadLen_cons, length_cons]
    omega

/-- The rounds of `apply_payload` on a payload that `encode_record` wrote. -/
lemma applyPayloadFrom_encodePayload (h : payloadLen ops < 2 ^ 32)
    {fuel : ℕ} (hfuel : ops.length ≤ fuel) (index : Index) :
    applyPayloadFrom fuel (encodePayload ops) index = (applyOps ops index, true) := by
  induction ops generalizing fuel index with
  | nil => cases fuel <;> rfl
  | cons op ops ih =>
    rw [payloadLen_cons] at h
    rw [length_cons] at hfuel
    obtain ⟨fuel, rfl⟩ : ∃ n, fuel = n + 1 := ⟨fuel - 1, by omega⟩
    have hcons : encodePayload (op :: ops) = op.encode ++ encodePayload ops := rfl
    rw [hcons, applyPayloadFrom_encode op (by omega), ih (by omega) (by omega)]
    rfl

/-- **A payload is read back as its operations.** -/
theorem applyPayload_encodePayload (h : payloadLen ops < 2 ^ 32)
    (index : Index) : applyPayload (encodePayload ops) index = (applyOps ops index, true) :=
  applyPayloadFrom_encodePayload ops h (length_le_payloadLen ops) index

/-! ## Replaying a log -/

def halfCap (g : Geometry) : ℕ := halfCapFor g g.capacity

/-- A chip that can read a word at the start of each half and behind each superblock. -/
structure Readable (g : Geometry) : Prop where
  word_aligned : g.readSize ∣ 4
  header_aligned : g.readSize ∣ headerLen g
  half_aligned : g.readSize ∣ halfCap g

/-- A readable region of a size the log is made for. -/
structure Region (g : Geometry) : Prop extends Readable g where
  capacity_lt : g.capacity < 2 ^ 28
  room : headerLen g + 8 ≤ halfCap g

lemma two_halfCap_le (g : Geometry) : halfCap g + halfCap g ≤ g.capacity := by
  have h : halfCap g ≤ g.capacity / 2 := Nat.div_mul_le_self _ _
  omega

lemma headerLen_eq (g : Geometry) : headerLen g = recordLen g 8 := by
  have hlt := g.writeSize_lt
  have hhdr : headerLen g = alignUp (8 + 8) g.writeSize := rfl
  rw [hhdr, alignUp_eq_recordLen]
  by_cases hw : g.writeSize ≤ 16
  · have := recordLen_lt g 8
    omega
  · -- a write unit above 16 is the length of the header itself
    have hone : (8 + 8 + g.writeSize - 1) / g.writeSize = 1 := by
      apply Nat.div_eq_of_lt_le <;> omega
    rw [recordLen, hone]
    omega

lemma headerLen_ge (g : Geometry) : 16 ≤ headerLen g := by
  rw [headerLen_eq]
  exact le_recordLen g 8

lemma writeSize_le_headerLen (g : Geometry) : g.writeSize ≤ headerLen g := by
  have hpos := g.writeSize_pos
  have hone : 1 ≤ (8 + 8 + g.writeSize - 1) / g.writeSize := by
    rw [Nat.le_div_iff_mul_le hpos]
    omega
  rw [headerLen_eq, recordLen]
  exact Nat.le_mul_of_pos_left _ hone

/-- The end of a log: blank, or the front part of a record that did not get through. -/
inductive Tail (g : Geometry) : Bytes → Prop
  | clean (n : ℕ) : Tail g (blank n)
  | broken (ops : List WriteOp) (p k : ℕ) (hops : RecordOk g ops)
      (hp : p < 8 + payloadLen ops) : Tail g (torn (encodeRecord g ops) p ++ blank k)

def logBytes (g : Geometry) (recs : List (List WriteOp)) : Bytes := recs.flatMap (encodeRecord g)

def replayed (recs : List (List WriteOp)) (index : Index) : Index :=
  recs.foldl (fun index ops => applyOps ops index) index

namespace NorFlash

variable {flash : NorFlash g} {bs : Bytes} {tail : Bytes}

lemma read_of_holds {off n : ℕ} (h : Holds flash.cells off bs) (hn : bs.length = n)
    (hoff : g.readSize ∣ off) (hlen : g.readSize ∣ n) (hcap : off + n ≤ g.capacity) :
    flash.read off n = .ok bs := by
  rw [read, if_pos ⟨hoff, hlen, hcap⟩, h.slice_eq hn.symm]

lemma readU32_of_holds (hg : Region g) {off : ℕ} (h : Holds flash.cells off bs)
    (hn : bs.length = 4) (hoff : g.readSize ∣ off) (hcap : off + 4 ≤ g.capacity) :
    flash.readU32 off = .ok (leNat bs) := by
  rw [readU32, read_of_holds h hn hoff hg.word_aligned hcap]
  rfl

section Frame

variable {endCap off n : ℕ} {index : Index} {payload footer rest : Bytes}

section

variable (hg : Region g) (hcap : endCap ≤ g.capacity) (hoff : g.readSize ∣ off)
include hg hcap hoff

lemma reads_of_frame (hn : g.readSize ∣ n) (hpl : payload.length = n) (hftr : footer.length = 4)
    (hhld : Holds flash.cells off (leBytes 4 n ++ (payload ++ (footer ++ rest))))
    (hfit : off + 8 + n ≤ endCap) :
    flash.readU32 off = .ok n ∧ flash.read (off + 4) (n + 4) = .ok (payload ++ footer) := by
  have hcap28 := hg.capacity_lt
  rw [holds_append, ← append_assoc, holds_append] at hhld
  obtain ⟨hlen, hbody, -⟩ := hhld
  rw [leBytes_length] at hbody
  constructor
  · rw [readU32_of_holds hg hlen (leBytes_length ..) hoff (by omega), leNat_leBytes (by omega)]
  · apply read_of_holds hbody
    · rw [length_append, hpl, hftr]
    · exact Nat.dvd_add hoff hg.word_aligned
    · exact Nat.dvd_add hn hg.word_aligned
    · omega

lemma replayFrom_broken (hn : g.readSize ∣ n) (hpl : payload.length = n) (hftr : footer.length = 4)
    (hhld : Holds flash.cells off (leBytes 4 n ++ (payload ++ (footer ++ rest))))
    (hfit : off + 8 + n ≤ endCap) (hbad : leNat footer ≠ n ^^^ commitMagic) (fuel : ℕ) :
    flash.replayFrom endCap (fuel + 1) off index = .ok (index, off, true) := by
  have hcap28 := hg.capacity_lt
  obtain ⟨hlen, hbuf⟩ := reads_of_frame hg hcap hoff hn hpl hftr hhld hfit
  have hera : n ≠ erasedLen := by
    unfold erasedLen
    omega
  have hfoot : leNat (((payload ++ footer).drop n).take 4) = leNat footer := by
    rw [drop_append_of_le_length hpl.ge, drop_of_length_le hpl.le,
      nil_append, take_of_length_le hftr.le]
  rw [replayFrom, if_neg (by omega), hlen, ok_bind, if_neg hera, if_neg (by omega), hbuf,
    ok_bind, hfoot, if_pos hbad]

/-- A complete record is applied, and the replay goes on behind it. -/
lemma replayFrom_record {ops : List WriteOp} (hops : RecordOk g ops)
    (hhld : Holds flash.cells off (encodeRecord g ops ++ rest))
    (hfit : off + recordLen g (payloadLen ops) ≤ endCap) (fuel : ℕ) :
    flash.replayFrom endCap (fuel + 1) off index =
      flash.replayFrom endCap fuel (off + recordLen g (payloadLen ops)) (applyOps ops index) := by
  have hcap28 := hg.capacity_lt
  have hle := le_recordLen g (payloadLen ops)
  have hpl : (encodePayload ops).length = payloadLen ops := rfl
  have hftr := leBytes_length 4 (payloadLen ops ^^^ commitMagic)
  rw [encodeRecord_eq hops.fits] at hhld
  simp only [append_assoc] at hhld
  obtain ⟨hlen, hbuf⟩ := reads_of_frame hg hcap hoff hops.payload_aligned hpl hftr hhld (by omega)
  have hera : payloadLen ops ≠ erasedLen := by
    unfold erasedLen
    omega
  have hxor : payloadLen ops ^^^ commitMagic < 2 ^ 31 :=
    Nat.xor_lt_two_pow (by omega) (by decide)
  have hfoot : leNat (((encodePayload ops ++ leBytes 4 (payloadLen ops ^^^ commitMagic)).drop
      (payloadLen ops)).take 4) = payloadLen ops ^^^ commitMagic := by
    rw [drop_append_of_le_length hpl.ge, drop_of_length_le hpl.le,
      nil_append, take_of_length_le hftr.le, leNat_leBytes (by omega)]
  have htake : (encodePayload ops ++ leBytes 4 (payloadLen ops ^^^ commitMagic)).take
      (payloadLen ops) = encodePayload ops := by
    rw [take_append_of_le_length hpl.ge, take_of_length_le hpl.le]
  rw [replayFrom, if_neg (by omega), hlen, ok_bind, if_neg hera, if_neg (by omega), hbuf,
    ok_bind, hfoot, if_neg (fun h => h rfl), htake,
    applyPayload_encodePayload ops (by omega), alignUp_eq_recordLen hops.fits]

end

end Frame

lemma leNat_torn_ge {p : ℕ} (hbs : bs.length = 4) (hp : p < 4) :
    0xFF000000 ≤ leNat (torn bs p) := by
  obtain ⟨front, hfrt, hlen⟩ := torn_snoc (hbs ▸ hp)
  have h255 : (0xFF : UInt8).toNat = 255 := rfl
  rw [hfrt, leNat_snoc, hlen, hbs, h255]
  omega

lemma eq_blank_of_erased (hbs : bs.length = 4) (h : leNat bs = erasedLen) : bs = blank 4 := by
  have hback := leBytes_leNat bs
  rw [hbs, h] at hback
  rw [← hback]
  decide

lemma replayFrom_blank (hg : Region g) {endCap off n fuel : ℕ} {index : Index}
    (hcap : endCap ≤ g.capacity) (hoff : g.readSize ∣ off)
    (hhld : Holds flash.cells off (blank n)) (hend : off + n = endCap) :
    flash.replayFrom endCap (fuel + 1) off index = .ok (index, off, false) := by
  by_cases hn : n < 8
  · rw [replayFrom, if_pos (by omega)]
  have hspl : blank n = blank 4 ++ blank (n - 4) := by
    rw [← replicate_add]
    congr 1
    omega
  rw [hspl, holds_append] at hhld
  have hlen := readU32_of_holds hg hhld.1 (by simp) hoff (by omega)
  have hera : leNat (blank 4) = erasedLen := by decide
  rw [replayFrom, if_neg (by omega), hlen, ok_bind, if_pos hera]

/-- **The end of a log is dropped.** The replay stops in front of it, and calls it clean only when
it is blank. -/
lemma replayFrom_tail (hg : Region g) {endCap off : ℕ}
    (hcap : endCap ≤ g.capacity) (hoff : g.readSize ∣ off) (htail : Tail g tail)
    (hhld : Holds flash.cells off tail) (hend : off + tail.length = endCap) (fuel : ℕ)
    (index : Index) :
    ∃ dirty, flash.replayFrom endCap (fuel + 1) off index = .ok (index, off, dirty) ∧
      (dirty = false → tail = blank tail.length) := by
  have hcap28 := hg.capacity_lt
  cases htail with
  | clean n =>
    refine ⟨false, replayFrom_blank hg hcap hoff hhld (by simpa using hend), fun _ => ?_⟩
    rw [length_replicate]
  | broken ops p k hops hp =>
    have hle := le_recordLen g (payloadLen ops)
    rw [length_append, torn_length, encodeRecord_length hops.fits, length_replicate] at hend
    rw [encodeRecord_eq hops.fits, torn_append, torn_append, torn_append, torn_blank] at hhld ⊢
    rw [leBytes_length] at hhld ⊢
    simp only [append_assoc] at hhld ⊢
    by_cases hp4 : p < 4
    · -- cut inside the length word: the rest of the record is still blank
      have hzero : p - 4 = 0 := by omega
      have hword := (holds_append.mp hhld).1
      have hlen := readU32_of_holds hg hword (by simp) hoff (by omega)
      have hge := leNat_torn_ge (leBytes_length 4 (payloadLen ops)) hp4
      by_cases hera : leNat (torn (leBytes 4 (payloadLen ops)) p) = erasedLen
      · refine ⟨false, ?_, fun _ => ?_⟩
        · rw [replayFrom, if_neg (by omega), hlen, ok_bind, if_pos hera]
        · rw [eq_blank_of_erased (by simp) hera, hzero]
          simp
      · refine ⟨true, ?_, by simp⟩
        rw [replayFrom, if_neg (by omega), hlen, ok_bind, if_neg hera,
          if_pos (by omega)]
    · -- cut behind the length word: the last byte of the footer is still blank
      rw [torn_of_le (by rw [leBytes_length]; omega)] at hhld
      refine ⟨true, ?_, by simp⟩
      have hge := leNat_torn_ge (leBytes_length 4 (payloadLen ops ^^^ commitMagic))
        (p := p - 4 - (encodePayload ops).length) (by
          have : (encodePayload ops).length = payloadLen ops := rfl
          omega)
      have hxor : payloadLen ops ^^^ commitMagic < 2 ^ 31 :=
        Nat.xor_lt_two_pow (by omega) (by decide)
      exact replayFrom_broken hg hcap hoff hops.payload_aligned (torn_length ..) (by simp) hhld
        (by omega) (by omega) fuel

/-- **Replaying a log** applies its complete records, and only them. -/
theorem replayFrom_log (hg : Region g) {endCap : ℕ}
    (hcap : endCap ≤ g.capacity) (htail : Tail g tail) (recs : List (List WriteOp))
    (hrecs : ∀ ops ∈ recs, RecordOk g ops) {off fuel : ℕ} (hfuel : recs.length < fuel)
    (hoff : g.readSize ∣ off) (hhld : Holds flash.cells off (logBytes g recs ++ tail))
    (hend : off + (logBytes g recs).length + tail.length = endCap) (index : Index) :
    ∃ dirty, flash.replayFrom endCap fuel off index =
        .ok (replayed recs index, off + (logBytes g recs).length, dirty) ∧
      (dirty = false → tail = blank tail.length) := by
  induction recs generalizing off fuel index with
  | nil =>
    obtain ⟨fuel, rfl⟩ : ∃ n, fuel = n + 1 := ⟨fuel - 1, by omega⟩
    exact replayFrom_tail hg hcap hoff htail hhld hend fuel index
  | cons ops recs ih =>
    obtain ⟨fuel, rfl⟩ : ∃ n, fuel = n + 1 := ⟨fuel - 1, by omega⟩
    have hops := hrecs ops (mem_cons_self ..)
    have hsize := encodeRecord_length hops.fits
    have hcons : logBytes g (ops :: recs) = encodeRecord g ops ++ logBytes g recs := rfl
    rw [hcons, append_assoc] at hhld
    rw [hcons, length_append] at hend
    obtain ⟨hrec, hrest⟩ := holds_append.mp hhld
    rw [hsize] at hrest
    rw [hcons, length_append, hsize, ← Nat.add_assoc,
      replayFrom_record hg hcap hoff hops hhld (by omega)]
    apply ih
    · intro ops' hops'
      exact hrecs ops' (mem_cons_of_mem _ hops')
    · rw [length_cons] at hfuel
      omega
    · exact Nat.dvd_add hoff hops.record_aligned
    · exact hrest
    · omega

end NorFlash

/-! ## The index a log stands for -/

open NorFlash FlashState

variable {index : Index} {recs : List (List WriteOp)} {base generation : ℕ} {cells : Cells}

lemma nodup_apply (h : Assoc.Keyed index) : Assoc.Keyed (op.apply index) := by
  cases op with
  | put key value => exact Assoc.nodup_keys_insert key value h
  | delete key => exact h.sublist (filter_sublist.map _)

lemma nodup_applyOps (h : Assoc.Keyed index) :
    Assoc.Keyed (applyOps ops index) := by
  induction ops generalizing index with
  | nil => exact h
  | cons op ops ih => exact ih (nodup_apply op h)

lemma nodup_replayed (recs : List (List WriteOp)) (h : Assoc.Keyed index) :
    Assoc.Keyed (replayed recs index) := by
  induction recs generalizing index with
  | nil => exact h
  | cons ops recs ih => exact ih (nodup_applyOps ops h)

lemma applyOps_indexOps_append (front index : Index) (h : Assoc.Keyed (front ++ index)) :
    applyOps (indexOps index) front = front ++ index := by
  induction index generalizing front with
  | nil => simp [applyOps, indexOps]
  | cons entry index ih =>
    obtain ⟨key, value⟩ := entry
    have hfres : key ∉ front.map Prod.fst := by
      rw [Assoc.Keyed, map_append, map_cons] at h
      intro hmem
      exact disjoint_of_nodup_append h hmem (mem_cons_self ..)
    have hput : apply front (.put key value) = front ++ [(key, value)] :=
      Assoc.insert_of_not_mem hfres
    have hcons : applyOps (indexOps ((key, value) :: index)) front =
        applyOps (indexOps index) (apply front (.put key value)) := rfl
    rw [hcons, hput, ih _ (by simpa using h), append_assoc, singleton_append]

/-- **The operations of a compaction** rebuild the index. -/
lemma applyOps_indexOps (h : Assoc.Keyed index) : applyOps (indexOps index) [] = index :=
  applyOps_indexOps_append [] index h

lemma payloadLen_indexOps_cons (key value : Bytes) (index : Index) :
    payloadLen (indexOps ((key, value) :: index)) =
      (put key value).encode.length + payloadLen (indexOps index) :=
  payloadLen_cons ..

lemma length_encode_put (key value : Bytes) :
    (put key value).encode.length = 9 + key.length + value.length := by
  simp only [encode, length_cons, length_append, leBytes_length]
  omega

/-- One operation makes the index longer by at most its own length. -/
lemma payloadLen_apply_le (index : Index) :
    payloadLen (indexOps (op.apply index)) ≤ payloadLen (indexOps index) + op.encode.length := by
  cases op with
  | put key value =>
    induction index with
    | nil =>
      have hput : apply [] (.put key value) = [(key, value)] := rfl
      rw [hput, payloadLen_indexOps_cons]
      omega
    | cons entry index ih =>
      obtain ⟨key', value'⟩ := entry
      have hput : apply ((key', value') :: index) (.put key value) =
          if key = key' then (key', value) :: index
          else (key', value') :: apply index (.put key value) := rfl
      rw [hput]
      split_ifs with hkey
      · rw [payloadLen_indexOps_cons, payloadLen_indexOps_cons, hkey, length_encode_put,
          length_encode_put]
        omega
      · rw [payloadLen_indexOps_cons, payloadLen_indexOps_cons]
        omega
  | delete key =>
    induction index with
    | nil => simp [apply, indexOps, payloadLen, encodePayload]
    | cons entry index ih =>
      obtain ⟨key', value'⟩ := entry
      have hdel : apply ((key', value') :: index) (.delete key) =
          if key' ≠ key then (key', value') :: apply index (.delete key)
          else apply index (.delete key) := by
        simp [apply, filter_cons]
      rw [hdel]
      split_ifs with hkey
      · rw [payloadLen_indexOps_cons, payloadLen_indexOps_cons]
        omega
      · rw [payloadLen_indexOps_cons]
        omega

lemma payloadLen_applyOps_le (index : Index) :
    payloadLen (indexOps (applyOps ops index)) ≤ payloadLen (indexOps index) + payloadLen ops := by
  induction ops generalizing index with
  | nil => exact Nat.le_add_right ..
  | cons op ops ih =>
    have hstep := payloadLen_apply_le op index
    have hrest := ih (op.apply index)
    have hcons : applyOps (op :: ops) index = applyOps ops (op.apply index) := rfl
    rw [hcons, payloadLen_cons]
    omega

/-- **An index is no longer than its log.** -/
lemma payloadLen_replayed_le (h : ∀ ops ∈ recs, RecordOk g ops) (index : Index) :
    payloadLen (indexOps (replayed recs index)) ≤
      payloadLen (indexOps index) + (logBytes g recs).length := by
  induction recs generalizing index with
  | nil => exact Nat.le_add_right ..
  | cons ops recs ih =>
    have hlen := encodeRecord_length (h ops (mem_cons_self ..)).fits
    have hle := le_recordLen g (payloadLen ops)
    have hstep := payloadLen_applyOps_le ops index
    have hrest := ih (fun ops' hops' => h ops' (mem_cons_of_mem _ hops')) (applyOps ops index)
    have hcons : replayed (ops :: recs) index = replayed recs (applyOps ops index) := rfl
    have hbs : logBytes g (ops :: recs) = encodeRecord g ops ++ logBytes g recs := rfl
    rw [hcons, hbs, length_append]
    omega

/-! ## Superblocks -/

/-- The generation in the superblock at `base`, as `mount` reads it. -/
def superAt (cells : Cells) (base : ℕ) : Option ℕ := parseSuper (slice cells base 16)

def superHead : Bytes := leBytes 8 superMagic ++ leBytes 4 formatVersion

lemma parseSuper_superHead {bs : Bytes} (h : bs.length = 4) :
    parseSuper (superHead ++ bs) = some (leNat bs) := by
  have h8 : (superHead ++ bs).take 8 = leBytes 8 superMagic := by
    exact take_left' (leBytes_length ..)
  have h12 : ((superHead ++ bs).drop 8).take 4 = leBytes 4 formatVersion := by
    exact take_left' (leBytes_length ..)
  have h16 : ((superHead ++ bs).drop 12).take 4 = bs := by
    rw [drop_left' (by simp [superHead]), take_of_length_le h.le]
  have hmag : leNat (leBytes 8 superMagic) = superMagic := leNat_leBytes (by decide)
  have hvsn : leNat (leBytes 4 formatVersion) = formatVersion := leNat_leBytes (by decide)
  rw [parseSuper, h8, h12, h16, if_neg]
  rintro (hne | hne)
  · exact hne hmag
  · exact hne hvsn

lemma parseSuper_eq_none {hdr : Bytes} (hlen : hdr.length = 16) (h : hdr.take 12 ≠ superHead) :
    parseSuper hdr = none := by
  rw [parseSuper, if_pos]
  by_contra hboth
  rw [not_or, not_not, not_not] at hboth
  obtain ⟨hmag, hvsn⟩ := hboth
  apply h
  have h8 := leBytes_leNat (hdr.take 8)
  have h4 := leBytes_leNat ((hdr.drop 8).take 4)
  have hlen8 : (hdr.take 8).length = 8 := by
    rw [length_take]
    omega
  have hlen4 : ((hdr.drop 8).take 4).length = 4 := by
    rw [length_take, length_drop]
    omega
  rw [hmag, hlen8] at h8
  rw [hvsn, hlen4] at h4
  calc hdr.take 12 = hdr.take (8 + 4) := rfl
    _ = hdr.take 8 ++ (hdr.drop 8).take 4 := take_add
    _ = superHead := by rw [superHead, h8, h4]

lemma superblock_eq (g : Geometry) (generation : ℕ) :
    superblock g generation = superHead ++ (leBytes 4 generation ++ blank (headerLen g - 16)) := by
  simp [superblock, superHead]

@[simp] lemma superblock_length (g : Geometry) (generation : ℕ) :
    (superblock g generation).length = headerLen g := by
  have h := headerLen_ge g
  simp only [superblock, length_append, leBytes_length, length_replicate]
  omega

lemma superAt_superblock (hgen : generation < 2 ^ 32)
    (h : Holds cells base (superblock g generation)) : superAt cells base = some generation := by
  rw [superblock_eq, ← append_assoc, holds_append] at h
  rw [superAt, h.1.slice_eq (by simp [superHead]), parseSuper_superHead (leBytes_length ..),
    leNat_leBytes (by omega)]

lemma superAt_torn_eq_none {base generation p : ℕ} (hp : p < 12)
    (h : Holds cells base (torn (superblock g generation) p)) : superAt cells base = none := by
  have hhead : superHead.length = 12 := rfl
  rw [superblock_eq, ← append_assoc, torn_append, holds_append] at h
  apply parseSuper_eq_none (slice_length ..)
  rw [h.1.slice_eq (by simp [superHead]), torn_append]
  rw [take_left' (by rw [torn_length, hhead])]
  -- the first byte that is missing would not have been blank
  have hcut : ∀ p < 12, torn superHead p ≠ superHead := by decide
  exact hcut p hp

lemma torn_superblock (g : Geometry) (generation : ℕ) {p : ℕ} (hp : 12 ≤ p) :
    ∃ generation' < 2 ^ 32, torn (superblock g generation) p = superblock g generation' := by
  have hlen : (torn (leBytes 4 generation) (p - superHead.length)).length = 4 := by simp
  refine ⟨leNat (torn (leBytes 4 generation) (p - superHead.length)), ?_, ?_⟩
  · have hlt := leNat_lt (torn (leBytes 4 generation) (p - superHead.length))
    rw [hlen] at hlt
    omega
  · have hback := leBytes_leNat (torn (leBytes 4 generation) (p - superHead.length))
    rw [hlen] at hback
    rw [superblock_eq, superblock_eq, torn_append, torn_append, torn_blank, hback,
      torn_of_le (show superHead.length ≤ p from hp)]

/-! ## Halves -/

/-- The half at `base` carries a log: its superblock, the complete records and the end. -/
structure HalfImage (g : Geometry) (cells : Cells) (base generation : ℕ)
    (recs : List (List WriteOp)) (tail : Bytes) : Prop where
  holds : Holds cells base (superblock g generation ++ (logBytes g recs ++ tail))
  length_eq : headerLen g + (logBytes g recs).length + tail.length = halfCap g
  generation_lt : generation < 2 ^ 32
  recs_ok : ∀ ops ∈ recs, RecordOk g ops
  tail_ok : Tail g tail

/-- The half that `mount` picks carries the log. -/
structure Durable (g : Geometry) (cells : Cells) (base generation : ℕ)
    (recs : List (List WriteOp)) (tail : Bytes) : Prop where
  base_eq : base = 0 ∨ base = halfCap g
  image : HalfImage g cells base generation recs tail
  picked : pickHalf (halfCap g) (superAt cells 0) (superAt cells (halfCap g)) =
    .ok (base, generation)

namespace HalfImage

variable {cells cells' : Cells} {base generation : ℕ} {recs : List (List WriteOp)} {tail : Bytes}

section

variable (h : HalfImage g cells base generation recs tail)
include h

lemma superAt_eq : superAt cells base = some generation :=
  superAt_superblock h.generation_lt (holds_append.mp h.holds).1

lemma bytes_length : (superblock g generation ++ (logBytes g recs ++ tail)).length = halfCap g := by
  rw [length_append, length_append, superblock_length, ← Nat.add_assoc, h.length_eq]

lemma congr (hcls : ∀ a, base ≤ a → a < base + halfCap g → cells' a = cells a) :
    HalfImage g cells' base generation recs tail := by
  refine ⟨h.holds.congr ?_, h.length_eq, h.generation_lt, h.recs_ok, h.tail_ok⟩
  rw [h.bytes_length]
  exact hcls

end

end HalfImage

lemma length_le_logBytes (h : ∀ ops ∈ recs, RecordOk g ops) :
    recs.length ≤ (logBytes g recs).length := by
  induction recs with
  | nil => simp
  | cons ops recs ih =>
    have hops := h ops (mem_cons_self ..)
    have hlen := encodeRecord_length hops.fits
    have hle := le_recordLen g (payloadLen ops)
    have htail := ih fun ops' hops' => h ops' (mem_cons_of_mem _ hops')
    have hcons : logBytes g (ops :: recs) = encodeRecord g ops ++ logBytes g recs := rfl
    rw [hcons, length_append, length_cons]
    omega

/-! ## Mounting -/

lemma readSuper_eq (hg : Region g) (flash : NorFlash g) {base : ℕ}
    (hbase : base = 0 ∨ base = halfCap g) :
    flash.readSuper base = .ok (superAt flash.cells base) := by
  have hroom := hg.room
  have htwo := two_halfCap_le g
  have halig : g.readSize ∣ base := by
    rcases hbase with rfl | rfl
    · exact Nat.dvd_zero _
    · exact hg.half_aligned
  have hread : flash.read base 16 = .ok (slice flash.cells base 16) := by
    have h16 : g.readSize ∣ 16 := hg.word_aligned.trans (by decide)
    have hhead := headerLen_ge g
    rw [NorFlash.read, if_pos ⟨halig, h16, by omega⟩]
  rw [readSuper, hread]
  rfl

/-- The state in memory is the one that `mount` reads off the flash. -/
structure Mounted (st : FlashState g) (recs : List (List WriteOp)) (tail : Bytes) : Prop where
  halfCap_eq : st.halfCap = halfCap g
  durable : Durable g st.flash.cells st.liveBase st.generation recs tail
  index_eq : st.index = replayed recs []
  writeOff_eq : st.writeOff = st.liveBase + headerLen g + (logBytes g recs).length
  clean : st.dirtyTail = false → tail = blank tail.length

/-- **Mounting.** A region with a log is mounted, with the index of the log. -/
theorem mount_durable (hg : Region g) {flash : NorFlash g} {tail : Bytes}
    (h : Durable g flash.cells base generation recs tail) :
    ∃ st, FlashLogBackend.mount flash = .ok st ∧ st.flash = flash ∧ Mounted st recs tail := by
  have htwo := two_halfCap_le g
  have hroom := hg.room
  have hhead := headerLen_ge g
  have himag := h.image
  have hlen := himag.length_eq
  have hcnt := length_le_logBytes himag.recs_ok
  have hlog := (holds_append.mp himag.holds).2
  rw [superblock_length] at hlog
  have hbase : g.readSize ∣ base := by
    rcases h.base_eq with rfl | rfl
    · exact Nat.dvd_zero _
    · exact hg.half_aligned
  have hcap : base + halfCap g ≤ g.capacity := by
    rcases h.base_eq with rfl | rfl <;> omega
  obtain ⟨dirty, hrpl, hclean⟩ := replayFrom_log hg hcap himag.tail_ok recs himag.recs_ok
    (show recs.length < halfCap g by omega) (Nat.dvd_add hbase hg.header_aligned) hlog (by omega) []
  have hmoun : FlashLogBackend.mount flash = .ok
      { flash := flash
        index := replayed recs []
        halfCap := halfCap g
        liveBase := base
        generation := generation
        writeOff := base + headerLen g + (logBytes g recs).length
        dirtyTail := dirty } := by
    have hhalf : (FlashLogBackend.fresh flash).halfCap = halfCap g := rfl
    have hflas : (FlashLogBackend.fresh flash).flash = flash := rfl
    rw [FlashLogBackend.mount, FlashState.mount, hhalf, hflas, ensure_of (by omega),
      ok_bind, readSuper_eq hg flash (.inl rfl), ok_bind,
      readSuper_eq hg flash (.inr rfl), ok_bind, h.picked, ok_bind]
    simp only [NorFlash.replayHalf, hrpl, ok_bind]
    rfl
  exact ⟨_, hmoun, rfl, rfl, h, rfl, rfl, hclean⟩

end NdnRs.Flash
