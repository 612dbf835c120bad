import NdnRs.Lib.Bytes

/-!
# NOR memory

Cells that hold a byte each. Programming clears bits and never sets one; erasing sets all bits of a
range of cells. Both go through their cells in order, so that power lost on the way leaves a
first part done and the rest as it was.
-/

namespace NorMemory

open Bytes List

abbrev Cells := ℕ → UInt8

variable (m : Cells) (off n : ℕ)

/-- `n` erased cells. -/
abbrev blank : Bytes := .replicate n 0xFF

/-- The bytes in the `n` cells from `off` on. -/
def slice : Bytes := (List.range n).map fun i => m (off + i)

/-- Clears, from address `off` on, the bits that are zero in `bs`. -/
def program (bs : Bytes) : Cells := fun a =>
  if off ≤ a ∧ a < off + bs.length then m a &&& bs.getD (a - off) 0xFF else m a

/-- Sets all bits of the `n` cells from `off` on. -/
def erase : Cells := fun a =>
  if off ≤ a ∧ a < off + n then 0xFF else m a

/-- The cells from `off` on hold `bs`. -/
def Holds (bs : Bytes) : Prop := slice m off bs.length = bs

/-! ## Reading -/

@[simp] lemma slice_length : (slice m off n).length = n := by
  simp [slice]

lemma slice_add (off a b : ℕ) : slice m off (a + b) = slice m off a ++ slice m (off + a) b := by
  simp [slice, range_add, Nat.add_assoc]

variable {m : Cells} {off n : ℕ} {bs : Bytes} {m' : Cells} {a p : ℕ}

lemma slice_congr (h : ∀ a, off ≤ a → a < off + n → m a = m' a) :
    slice m off n = slice m' off n := by
  apply map_congr_left
  intro i hi
  apply h
  · omega
  · have := mem_range.mp hi
    omega

lemma holds_append {a b : Bytes} :
    Holds m off (a ++ b) ↔ Holds m off a ∧ Holds m (off + a.length) b := by
  unfold Holds
  rw [length_append, slice_add]
  constructor
  · intro h
    exact append_inj h (slice_length ..)
  · rintro ⟨ha, hb⟩
    rw [ha, hb]

lemma Holds.congr (h : Holds m off bs)
    (hm : ∀ a, off ≤ a → a < off + bs.length → m' a = m a) : Holds m' off bs := by
  rw [Holds, slice_congr hm]
  exact h

lemma Holds.cell {i : ℕ} (h : Holds m off bs) (hi : i < bs.length) :
    m (off + i) = bs.getD i 0xFF := by
  have hget : (slice m off bs.length).getD i 0xFF = m (off + i) := by
    simp [slice, getD_eq_getElem?_getD, hi]
  rw [← hget, h]

lemma Holds.slice_eq (h : Holds m off bs) (hn : n = bs.length) : slice m off n = bs := by
  rw [hn]
  exact h

/-! ## Programming and erasing -/

lemma program_outside (h : a < off ∨ off + bs.length ≤ a) : program m off bs a = m a := by
  rw [program, if_neg]
  omega

lemma erase_outside (h : a < off ∨ off + n ≤ a) : erase m off n a = m a := by
  rw [erase, if_neg]
  omega

/-- **Frame.** Programming does not change what other cells hold. -/
lemma Holds.program_frame {off' : ℕ} {bs' : Bytes} (h : Holds m off bs)
    (hdisj : off + bs.length ≤ off' ∨ off' + bs'.length ≤ off) :
    Holds (program m off' bs') off bs := by
  apply h.congr
  intro a h₁ h₂
  apply program_outside
  omega

lemma holds_erase (m : Cells) (off n : ℕ) : Holds (erase m off n) off (blank n) := by
  apply ext_getElem
  · simp
  · intro i hi _
    have hi' : i < n := by simpa using hi
    simp [slice, erase, hi']

lemma erase_zero (m : Cells) (off : ℕ) : erase m off 0 = m := by
  funext a
  apply erase_outside
  omega

/-- **Programming blank cells stores the bytes.** -/
lemma Holds.program (h : Holds m off (blank n))
    (hn : bs.length ≤ n) : Holds (program m off bs) off (bs ++ blank (n - bs.length)) := by
  have hblan : ∀ i < n, m (off + i) = 0xFF := by
    intro i hi
    have hcell := h.cell (by simpa using hi)
    simpa [getD_eq_getElem?_getD, hi] using hcell
  apply ext_getElem
  · simp
  intro i hi _
  have hi' : i < n := by
    simp only [slice_length, length_append, length_replicate] at hi
    omega
  have hff : ∀ b : UInt8, 255 &&& b = b := by
    intro b
    exact UInt8.neg_one_and
  by_cases hib : i < bs.length
  · simp [slice, NorMemory.program, hib, hblan i hi', hff]
  · rw [getElem_append_right (by omega)]
    simp [slice, NorMemory.program, hib, hblan i hi']

/-! ## Torn strings -/

/-- What blank cells hold after the first `p` bytes of `bs` were programmed into them. -/
def torn (bs : Bytes) (p : ℕ) : Bytes := bs.take p ++ blank (bs.length - p)

@[simp] lemma torn_length (bs : Bytes) (p : ℕ) : (torn bs p).length = bs.length := by
  simp only [torn, length_append, length_take, length_replicate]
  omega

lemma torn_of_le (h : bs.length ≤ p) : torn bs p = bs := by
  rw [torn, take_of_length_le h, Nat.sub_eq_zero_of_le h]
  simp

@[simp] lemma torn_zero (bs : Bytes) : torn bs 0 = blank bs.length := by
  simp [torn]

@[simp] lemma torn_blank (n p : ℕ) : torn (blank n) p = blank n := by
  rw [torn, take_replicate, length_replicate, ← replicate_add]
  congr 1
  omega

/-- **Where a concatenation is torn.** -/
lemma torn_append (a b : Bytes) (p : ℕ) : torn (a ++ b) p = torn a p ++ torn b (p - a.length) := by
  unfold torn
  rcases Nat.le_total a.length p with h | h
  · rw [take_append, take_of_length_le h, Nat.sub_eq_zero_of_le h, length_append]
    simp only [replicate_zero, append_nil, append_assoc]
    congr 3
    omega
  · rw [take_append, Nat.sub_eq_zero_of_le h, length_append, take_zero,
      append_nil, nil_append, Nat.sub_zero, append_assoc, ← replicate_add]
    congr 2
    omega

lemma torn_snoc (h : p < bs.length) :
    ∃ front, torn bs p = front ++ [0xFF] ∧ front.length = bs.length - 1 := by
  refine ⟨bs.take p ++ blank (bs.length - p - 1), ?_, ?_⟩
  · have hlen : bs.length - p = bs.length - p - 1 + 1 := by omega
    rw [torn, hlen, blank, replicate_succ', append_assoc]
    rfl
  · simp only [length_append, length_take, length_replicate]
    omega

/-- **An interrupted program operation leaves a torn string.** -/
lemma Holds.program_take (h : Holds m off (blank bs.length)) (p : ℕ) :
    Holds (NorMemory.program m off (bs.take p)) off (torn bs p) := by
  have hle : (bs.take p).length ≤ bs.length := by
    rw [length_take]
    omega
  have hprg := h.program hle
  have hsub : bs.length - (bs.take p).length = bs.length - p := by
    rw [length_take]
    omega
  rwa [hsub] at hprg

end NorMemory
