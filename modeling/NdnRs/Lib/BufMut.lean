import NdnRs.Lib.Bytes

/-!
# Buffers that bytes are put into

A buffer takes slices of bytes one after another. One that grows takes any; a slice of memory takes
what still fits into it and fails otherwise. Code that is written for any buffer puts the same bytes
into each.
-/

/-- A buffer that bytes are put into; it fails when they do not fit. -/
class BufMut (B : Type) where
  putSlice : B → Bytes → Option B

/-- Only the bytes put into the buffer count, and not how they were cut into slices. -/
class LawfulBufMut (B : Type) [BufMut B] : Prop where
  putSlice_nil (b : B) : BufMut.putSlice b [] = some b
  putSlice_append (b : B) (xs ys : Bytes) :
    BufMut.putSlice b (xs ++ ys) = (BufMut.putSlice b xs).bind fun b => BufMut.putSlice b ys

namespace BufMut

variable {B : Type} [BufMut B] [LawfulBufMut B]

lemma bind_putSlice (b : B) (xs ys : Bytes) :
    ((putSlice b xs).bind fun b => putSlice b ys) = putSlice b (xs ++ ys) :=
  (LawfulBufMut.putSlice_append b xs ys).symm

lemma foldlM_putSlice {α : Type} (f : α → Bytes) (b : B) (as : List α) :
    as.foldlM (fun b a => putSlice b (f a)) b = putSlice b (as.flatMap f) := by
  induction as generalizing b with
  | nil => exact (LawfulBufMut.putSlice_nil b).symm
  | cons a as ih =>
    rw [List.foldlM_cons, List.flatMap_cons, LawfulBufMut.putSlice_append]
    congr 1
    funext b
    exact ih b

end BufMut

structure BytesMut where
  bytes : Bytes

instance : BufMut BytesMut where
  putSlice b xs := some ⟨b.bytes ++ xs⟩

instance : LawfulBufMut BytesMut where
  putSlice_nil b := by simp [BufMut.putSlice]
  putSlice_append b xs ys := by simp [BufMut.putSlice]

@[simp] lemma BytesMut.putSlice_eq (b : BytesMut) (xs : Bytes) :
    BufMut.putSlice b xs = some ⟨b.bytes ++ xs⟩ := rfl

structure SliceMut where
  written : Bytes
  room : Bytes

instance : BufMut SliceMut where
  putSlice b xs :=
    if xs.length ≤ b.room.length then some ⟨b.written ++ xs, b.room.drop xs.length⟩ else none

variable {b : SliceMut} {xs : Bytes}

lemma SliceMut.putSlice_of_le (h : xs.length ≤ b.room.length) :
    BufMut.putSlice b xs = some ⟨b.written ++ xs, b.room.drop xs.length⟩ :=
  if_pos h

lemma SliceMut.putSlice_of_lt (h : b.room.length < xs.length) : BufMut.putSlice b xs = none :=
  if_neg (Nat.not_le.mpr h)

instance : LawfulBufMut SliceMut where
  putSlice_nil b := by simp [BufMut.putSlice]
  putSlice_append b xs ys := by
    rcases Nat.lt_or_ge b.room.length xs.length with hx | hx
    · have hxy : b.room.length < (xs ++ ys).length := by
        rw [List.length_append]
        omega
      rw [SliceMut.putSlice_of_lt hx, SliceMut.putSlice_of_lt hxy, Option.bind_none]
    · rw [SliceMut.putSlice_of_le hx, Option.bind_some]
      rcases Nat.lt_or_ge (b.room.length - xs.length) ys.length with hy | hy
      · have hxy : b.room.length < (xs ++ ys).length := by
          rw [List.length_append]
          omega
        have hy' : (b.room.drop xs.length).length < ys.length := by
          rw [List.length_drop]
          exact hy
        rw [SliceMut.putSlice_of_lt hxy, SliceMut.putSlice_of_lt hy']
      · have hxy : (xs ++ ys).length ≤ b.room.length := by
          rw [List.length_append]
          omega
        have hy' : ys.length ≤ (b.room.drop xs.length).length := by
          rw [List.length_drop]
          exact hy
        rw [SliceMut.putSlice_of_le hxy, SliceMut.putSlice_of_le hy']
        simp
