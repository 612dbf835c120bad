import NdnRs.Wire.Tlv

/-!
# Nested TLV records (`ndn-tlv/src/writer.rs`, `reader.rs`)

A `TlvWriter` emits elements into a buffer, and builds the value of a container element with an
inner writer. Reading the buffer until it is empty gives the elements back; the value of a container
is read the same way.

## Main results

* `records_canonical` — writer and reader are inverse.
-/

namespace NdnRs.Tlv

open Bytes List Except Tlv

/-! ## Records -/

/-- An element with its value, or a container with the records inside it. -/
inductive Record where
  | leaf (typ : ℕ) (value : Bytes)
  | nested (typ : ℕ) (records : List Record)
  deriving Repr

structure TlvWriter where
  buf : Bytes

namespace TlvWriter

def new : TlvWriter := ⟨[]⟩

variable (self : TlvWriter)

def writeTlv (typ : ℕ) (value : Bytes) : TlvWriter :=
  ⟨self.buf ++ writeVaru64 typ ++ writeVaru64 value.length ++ value⟩

/-- `TlvWriter::write_nested`: the value is built first, in a writer of its own. -/
def writeNested (typ : ℕ) (f : TlvWriter → TlvWriter) : TlvWriter :=
  let inner := f new
  ⟨self.buf ++ writeVaru64 typ ++ writeVaru64 inner.buf.length ++ inner.buf⟩

def writeVaru64 (value : ℕ) : TlvWriter := ⟨self.buf ++ Tlv.writeVaru64 value⟩

def writeRaw (data : Bytes) : TlvWriter := ⟨self.buf ++ data⟩

def sliceFrom (start : ℕ) : Bytes := self.buf.drop start

def finish : Bytes := self.buf

section Buf

variable (w : TlvWriter) (typ : ℕ) (value : Bytes)

@[simp] lemma buf_new : new.buf = [] := rfl

@[simp] lemma finish_eq : w.finish = w.buf := rfl

@[simp] lemma buf_writeTlv : (w.writeTlv typ value).buf = w.buf ++ Tlv.writeTlv typ value := by
  simp only [writeTlv, Tlv.writeTlv, append_assoc]

@[simp] lemma buf_writeNested (f : TlvWriter → TlvWriter) :
    (w.writeNested typ f).buf = w.buf ++ Tlv.writeTlv typ (f new).buf := by
  simp only [writeNested, Tlv.writeTlv, append_assoc]

@[simp] lemma buf_writeVaru64 (v : ℕ) : (w.writeVaru64 v).buf = w.buf ++ Tlv.writeVaru64 v := rfl

@[simp] lemma buf_writeRaw : (w.writeRaw value).buf = w.buf ++ value := rfl

end Buf

mutual

def record (self : TlvWriter) : Record → TlvWriter
  | .leaf typ value => self.writeTlv typ value
  | .nested typ rs => self.writeNested typ fun inner => inner.records rs

/-- Writes records one after another. -/
def records (self : TlvWriter) : List Record → TlvWriter
  | [] => self
  | r :: rs => (self.record r).records rs

end

end TlvWriter

/-- The loop `while !reader.is_empty() { … reader.read_tlv()? … }`, with the elements it reads. -/
def readAll (buf : Bytes) : Except TlvError (List (ℕ × Bytes)) :=
  forEachTlv id (fun es typ value => .ok (es ++ [(typ, value)])) [] buf

mutual

/-- An element as a record: the value of a container is read on. -/
def Record.readLike : Record → ℕ × Bytes → Except TlvError Record
  | .leaf _ _, e => .ok (.leaf e.1 e.2)
  | .nested _ rs, e => do
    let es ← readAll e.2
    let inner ← readEachLike rs es
    return .nested e.1 inner

/-- Elements as records, one after another; those beyond the given records are not read on. -/
def readEachLike : List Record → List (ℕ × Bytes) → Except TlvError (List Record)
  | _, [] => .ok []
  | [], es => .ok (es.map fun e => .leaf e.1 e.2)
  | r :: rs, e :: es => do
    let first ← r.readLike e
    let rest ← readEachLike rs es
    return first :: rest

end

/-- Reads records, descending where the given ones are containers. -/
def readLike (like : List Record) (buf : Bytes) : Except TlvError (List Record) := do
  let es ← readAll buf
  readEachLike like es

/-! ## Elements -/

/-- **Reading elements, exactly.** A buffer is read as elements iff it is those elements as
written. -/
theorem readAll_eq_ok_iff {buf : Bytes} {es : List (ℕ × Bytes)} :
    readAll buf = .ok es ↔ (∀ e ∈ es, ElementOk e) ∧ buf = writeTlvs es := by
  have hfold : ∀ es acc : List (ℕ × Bytes),
      es.foldlM (fun acc e => (.ok (acc ++ [(e.1, e.2)]) : Except TlvError _)) acc =
        .ok (acc ++ es) := by
    intro es
    induction es with
    | nil =>
      intro acc
      rw [append_nil]
      rfl
    | cons e es ih =>
      intro acc
      rw [foldlM_cons, ok_bind, ih, append_assoc]
      rfl
  rw [readAll, forEachTlv_eq_ok_iff]
  constructor
  · rintro ⟨es', hes, hbuf, h⟩
    rw [hfold, ok.injEq, nil_append] at h
    rw [← h]
    exact ⟨hes, hbuf⟩
  · rintro ⟨hes, hbuf⟩
    exact ⟨es, hes, hbuf, by rw [hfold, nil_append]⟩

/-- The type and the encoded value of a record. -/
def Record.element : Record → ℕ × Bytes
  | .leaf typ value => (typ, value)
  | .nested typ rs => (typ, (TlvWriter.new.records rs).buf)

lemma buf_record (w : TlvWriter) (r : Record) :
    (w.record r).buf = w.buf ++ writeTlv r.element.1 r.element.2 := by
  cases r with
  | leaf typ value => rw [TlvWriter.record, TlvWriter.buf_writeTlv, Record.element]
  | nested typ rs => rw [TlvWriter.record, TlvWriter.buf_writeNested, Record.element]

lemma buf_records (w : TlvWriter) (rs : List Record) :
    (w.records rs).buf = w.buf ++ writeTlvs (rs.map Record.element) := by
  induction rs generalizing w with
  | nil => simp [TlvWriter.records]
  | cons r rs ih =>
    rw [TlvWriter.records, ih, buf_record, map_cons, writeTlvs_cons, append_assoc]

lemma element_nested (typ : ℕ) (rs : List Record) :
    (Record.nested typ rs).element = (typ, writeTlvs (rs.map Record.element)) := by
  rw [Record.element, buf_records]
  rfl

lemma finish_records (rs : List Record) :
    (TlvWriter.new.records rs).finish = writeTlvs (rs.map Record.element) :=
  buf_records .new rs

/-! ## Round trips -/

mutual

/-- The types of a record, at every depth, fit 32 bits. -/
def Record.TypesOk : Record → Prop
  | .leaf typ _ => typ < 2 ^ 32
  | .nested typ rs => typ < 2 ^ 32 ∧ AllTypesOk rs

def AllTypesOk : List Record → Prop
  | [] => True
  | r :: rs => r.TypesOk ∧ AllTypesOk rs

end

lemma Record.TypesOk.typ_lt {r : Record} (h : r.TypesOk) : r.element.1 < 2 ^ 32 := by
  cases r with
  | leaf typ value => exact h
  | nested typ rs => exact h.1

lemma AllTypesOk.elementOk {rs : List Record} (h : AllTypesOk rs)
    (hlen : (writeTlvs (rs.map Record.element)).length < 2 ^ 64) :
    ∀ e ∈ rs.map Record.element, ElementOk e := by
  refine elementOk_of_length (fun e he => ?_) hlen
  obtain ⟨r, hr, rfl⟩ := mem_map.mp he
  clear hlen he
  induction rs with
  | nil => cases hr
  | cons r' rs ih =>
    rcases mem_cons.mp hr with rfl | hr
    · exact h.1.typ_lt
    · exact ih h.2 hr

mutual

lemma Record.readLike_element (r : Record) (h : r.TypesOk)
    (hlen : r.element.2.length < 2 ^ 64) : r.readLike r.element = .ok r := by
  cases r with
  | leaf typ value => rfl
  | nested typ rs =>
    rw [element_nested] at hlen ⊢
    have hread : readAll (writeTlvs (rs.map Record.element)) = .ok (rs.map Record.element) :=
      readAll_eq_ok_iff.mpr ⟨h.2.elementOk hlen, rfl⟩
    rw [Record.readLike, hread, ok_bind, readEachLike_elements rs h.2 hlen]
    rfl

lemma readEachLike_elements (rs : List Record) (h : AllTypesOk rs)
    (hlen : (writeTlvs (rs.map Record.element)).length < 2 ^ 64) :
    readEachLike rs (rs.map Record.element) = .ok rs := by
  cases rs with
  | nil => rfl
  | cons r rs =>
    have hr := length_le_length_writeTlv r.element.1 r.element.2
    rw [map_cons, writeTlvs_cons, length_append] at hlen
    rw [map_cons, readEachLike, Record.readLike_element r h.1 (by omega), ok_bind,
      readEachLike_elements rs h.2 (by omega)]
    rfl

end

mutual

lemma Record.element_of_readLike (like : Record) {e : ℕ × Bytes} {r : Record}
    (h : like.readLike e = .ok r) : r.element = e := by
  cases like with
  | leaf typ value =>
    cases h
    rfl
  | nested typ rs =>
    rw [Record.readLike] at h
    obtain ⟨es, hes, h⟩ := bind_eq_ok_iff.mp h
    obtain ⟨inner, hinn, h⟩ := bind_eq_ok_iff.mp h
    cases h
    rw [element_nested, elements_of_readEachLike rs hinn, ← (readAll_eq_ok_iff.mp hes).2]

lemma elements_of_readEachLike (like : List Record) {es : List (ℕ × Bytes)} {rs : List Record}
    (h : readEachLike like es = .ok rs) : rs.map Record.element = es := by
  cases like with
  | nil =>
    cases es with
    | nil =>
      cases h
      rfl
    | cons e es =>
      cases h
      rw [map_map]
      exact map_id _
  | cons r like =>
    cases es with
    | nil =>
      cases h
      rfl
    | cons e es =>
      rw [readEachLike] at h
      obtain ⟨first, hfst, h⟩ := bind_eq_ok_iff.mp h
      obtain ⟨rest, hrest, h⟩ := bind_eq_ok_iff.mp h
      cases h
      rw [map_cons, Record.element_of_readLike r hfst, elements_of_readEachLike like hrest]

end

/-- **The encoding is canonical.** Records whose types fit 32 bits, at any depth and within what a
length can count, are read back as they were written; and a buffer that is read completely, however
deep, is what writing the records read from it gives. -/
theorem records_canonical :
    (∀ rs : List Record, AllTypesOk rs → (TlvWriter.new.records rs).finish.length < 2 ^ 64 →
      readLike rs (TlvWriter.new.records rs).finish = .ok rs) ∧
    ∀ (like : List Record) (buf : Bytes) (rs : List Record), readLike like buf = .ok rs →
      (TlvWriter.new.records rs).finish = buf := by
  constructor
  · intro rs htyp hlen
    rw [finish_records] at hlen ⊢
    have hread : readAll (writeTlvs (rs.map Record.element)) = .ok (rs.map Record.element) :=
      readAll_eq_ok_iff.mpr ⟨htyp.elementOk hlen, rfl⟩
    rw [readLike, hread, ok_bind, readEachLike_elements rs htyp hlen]
  · intro like buf rs h
    obtain ⟨es, hes, h⟩ := bind_eq_ok_iff.mp h
    rw [finish_records, elements_of_readEachLike like h, ← (readAll_eq_ok_iff.mp hes).2]

/-- `records_canonical`, for a container in a container next to an element with a wide type. -/
theorem records_canonical_sample :
    readLike [.nested 7 [.nested 8 [.leaf 1 [2, 3]], .leaf 70000 []], .leaf 33 [4]]
      (TlvWriter.new.records
        [.nested 7 [.nested 8 [.leaf 1 [2, 3]], .leaf 70000 []], .leaf 33 [4]]).finish =
      .ok [.nested 7 [.nested 8 [.leaf 1 [2, 3]], .leaf 70000 []], .leaf 33 [4]] ∧
    (TlvWriter.new.records [.leaf 7 [8, 0]]).finish = [7, 2, 8, 0] := by
  refine ⟨records_canonical.1 _ ?_ ?_, records_canonical.2 [] _ _ ?_⟩
  · simp [AllTypesOk, Record.TypesOk]
  · decide
  · rfl

end NdnRs.Tlv
