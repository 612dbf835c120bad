import NdnRs.Lib.Hoare
import NdnRs.Lib.Run
import NdnRs.Storage.FlashImage

/-!
# Power cuts of the flash log (`ndn-storage/src/flash.rs`)

What a store leaves on its flash when an operation is stopped anywhere. Each function that writes
has a triple whose error part says what a caller, or the next `mount`, can rely on; the run of a
store with restarts and power cuts is then an induction over its events.

## Implementation notes

The generation that a torn superblock shows can be anything: both halves then carry the same index,
so it does not matter which one `mount` picks, and it picks the same one until the next compaction.
The argument needs no bound on the number of compactions.

## Main results

* `mount_after_cut` — what a store holds after a cut.
-/

namespace NdnRs.Flash

open Bytes NorMemory Hoare List FlashLogBackend
open Triple (bind)

open NorFlash FlashState

variable {g : Geometry}

/-! ## The operations of the chip -/

variable {P : FlashState g → Prop} {Q : Unit → FlashState g → Prop}
  {E : Fault → FlashState g → Prop} {off target : ℕ} {cells : Cells}

/-- **Writing.** The bytes land, or the chip refuses and nothing changes, or power is lost and a
first part of the bytes has landed. -/
theorem triple_write {bytes : Bytes} (hok : ∀ st flash, P st → off + bytes.length ≤ g.capacity →
      flash.cells = program st.flash.cells off bytes → Q () { st with flash := flash })
    (hio : ∀ st, P st → E (.flash .io) st)
    (hcut : ∀ st flash p, P st → off + bytes.length ≤ g.capacity →
      flash.cells = program st.flash.cells off (bytes.take p) →
      E .powerCut { st with flash := flash }) :
    Triple P (onFlash (write off bytes)) Q E := by
  intro st hst
  unfold onFlash write spend
  by_cases hargs : g.writeSize ∣ off ∧ g.writeSize ∣ bytes.length ∧ off + bytes.length ≤ g.capacity
  · rw [if_pos hargs]
    cases hpow : st.flash.power with
    | none =>
      apply hok st _ hst hargs.2.2
      simp only [take_length]
    | some budget =>
      by_cases hbud : bytes.length ≤ budget
      · simp only [if_pos hbud]
        apply hok st _ hst hargs.2.2
        simp only [take_length]
      · simp only [if_neg hbud]
        exact hcut st _ budget hst hargs.2.2 rfl
  · rw [if_neg hargs]
    exact hio st hst

/-- **Erasing**, in the same way. -/
theorem triple_erase {lo hi : ℕ}
    (hok : ∀ st flash, P st → flash.cells = erase st.flash.cells lo (hi - lo) →
      Q () { st with flash := flash })
    (hio : ∀ st, P st → E (.flash .io) st)
    (hcut : ∀ st flash p, P st → p < hi - lo →
      flash.cells = erase st.flash.cells lo p → E .powerCut { st with flash := flash }) :
    Triple P (onFlash (erase lo hi)) Q E := by
  intro st hst
  unfold onFlash NorFlash.erase NorFlash.spend
  by_cases hargs : g.eraseSize ∣ lo ∧ g.eraseSize ∣ hi ∧ lo ≤ hi ∧ hi ≤ g.capacity
  · rw [if_pos hargs]
    cases hpow : st.flash.power with
    | none => exact hok st _ hst rfl
    | some budget =>
      by_cases hbud : hi - lo ≤ budget
      · simp only [if_pos hbud]
        exact hok st _ hst rfl
      · simp only [if_neg hbud]
        exact hcut st _ budget hst (by omega) rfl
  · rw [if_neg hargs]
    exact hio st hst

/-! ## Rewriting a half -/

/-- Only cells of the half at `target` differ. -/
def OnlyHalf (g : Geometry) (target : ℕ) (cells cells' : Cells) : Prop :=
  ∀ a, a < target ∨ target + halfCap g ≤ a → cells' a = cells a

lemma onlyHalf_program {bs : Bytes} (hlo : target ≤ off)
    (hhi : off + bs.length ≤ target + halfCap g) :
    OnlyHalf g target cells (program cells off bs) := by
  intro a ha
  apply program_outside
  omega

lemma onlyHalf_erase {p : ℕ} (hp : p ≤ halfCap g) :
    OnlyHalf g target cells (erase cells target p) := by
  intro a ha
  apply erase_outside
  omega

section WriteHalf

variable {st : FlashState g} {generation : ℕ} {ops : List WriteOp}

/-- The records of a half that was rewritten with `ops`. -/
def freshRecs (ops : List WriteOp) : List (List WriteOp) := if ops = [] then [] else [ops]

/-- What `write_half` leaves behind them. -/
def freshTail (g : Geometry) (ops : List WriteOp) : Bytes :=
  blank (halfCap g - headerLen g - (logBytes g (freshRecs ops)).length)

/-- The log is there, and the superblock is not. -/
def Logged (g : Geometry) (target : ℕ) (ops : List WriteOp) (cells : Cells) : Prop :=
  Holds cells target (blank (headerLen g) ++ (logBytes g (freshRecs ops) ++ freshTail g ops))

/-- What `F` says of the cells does not depend on the half at `target`. -/
def Frames (g : Geometry) (target : ℕ) (F : Cells → Prop) : Prop :=
  ∀ cells cells', F cells → OnlyHalf g target cells cells' → F cells'

/-- On the way through `write_half`: only the flash has changed, what is known of the other cells
still holds, and the half is as `H` says. -/
def Stage (F : Cells → Prop) (st : FlashState g) (H : Cells → Prop) (s : FlashState g) : Prop :=
  ∃ flash, s = { st with flash := flash } ∧ F flash.cells ∧ H flash.cells

/-- How `write_half` can stop: with nothing changed, with a half that has no superblock, or, if
power was lost, with a half that has one and its complete log. -/
def Interrupted (F : Cells → Prop) (st : FlashState g) (target : ℕ) (ops : List WriteOp)
    (e : Fault) (s : FlashState g) : Prop :=
  ∃ flash, s = { st with flash := flash } ∧
    (flash.cells = st.flash.cells ∨
      (F flash.cells ∧ superAt flash.cells target = none) ∨
      (e = .powerCut ∧ F flash.cells ∧ ∃ generation',
        HalfImage g flash.cells target generation' (freshRecs ops) (freshTail g ops)))

variable {base n : ℕ} {rest : Bytes}

lemma blank_split {m : ℕ} (h : m ≤ n) : blank n = blank m ++ blank (n - m) := by
  rw [← replicate_add]
  congr 1
  omega

lemma superAt_blank (hn : 16 ≤ n)
    (h : Holds cells base (blank n ++ rest)) : superAt cells base = none := by
  rw [blank_split hn, append_assoc, holds_append] at h
  rw [superAt, h.1.slice_eq (by simp)]
  decide

lemma superAt_erase {p : ℕ} (hp : 0 < p) : superAt (erase cells base p) base = none := by
  apply parseSuper_eq_none (slice_length ..)
  intro h
  have hcell : erase cells base p base = 0xFF := by
    rw [NorMemory.erase, if_pos (by omega)]
  have hfst : ((slice (erase cells base p) base 16).take 12).head? = some 0xFF := by
    simp [slice, range_succ_eq_map, hcell]
  rw [h] at hfst
  exact absurd hfst (by decide)

variable {F : Cells → Prop}

/-- Before the superblock is there, an interruption leaves the half without one. -/
lemma interrupted_of_blank {flash : NorFlash g} {e : Fault}
    (hcls : F flash.cells) (hhld : Holds flash.cells target (blank (headerLen g) ++ rest)) :
    Interrupted F st target ops e { st with flash := flash } :=
  ⟨flash, rfl, .inr (.inl ⟨hcls, superAt_blank (headerLen_ge g) hhld⟩)⟩

section

variable (hF : Frames g target F)
include hF

lemma triple_eraseHalf (hst : F st.flash.cells) :
    Triple (fun s => s = st) (onFlash (erase target (target + halfCap g)))
      (fun _ => Stage F st fun cells => Holds cells target (blank (halfCap g)))
      (Interrupted F st target ops) := by
  apply triple_erase
  · rintro _ flash rfl hcls
    rw [Nat.add_sub_cancel_left] at hcls
    refine ⟨flash, rfl, hF _ _ hst ?_, ?_⟩
    · rw [hcls]
      exact onlyHalf_erase le_rfl
    · rw [hcls]
      exact holds_erase ..
  · rintro _ rfl
    exact ⟨_, rfl, .inl rfl⟩
  · rintro _ flash p rfl hp hcls
    rw [Nat.add_sub_cancel_left] at hp
    refine ⟨flash, rfl, ?_⟩
    by_cases hzero : p = 0
    · left
      rw [hcls, hzero, erase_zero]
    · refine .inr (.inl ⟨hF _ _ hst ?_, ?_⟩)
      · rw [hcls]
        exact onlyHalf_erase hp.le
      · rw [hcls]
        exact superAt_erase (Nat.pos_of_ne_zero hzero)

omit hF in
private lemma program_behind_header {bs : Bytes} (hhld : Holds cells target (blank (halfCap g)))
    (hfit : headerLen g + bs.length ≤ halfCap g) :
    OnlyHalf g target cells (program cells (target + headerLen g) bs) ∧
      Holds (program cells (target + headerLen g) bs) target
        (blank (headerLen g) ++ (bs ++ blank (halfCap g - headerLen g - bs.length))) := by
  rw [blank_split (show headerLen g ≤ halfCap g by omega), holds_append, length_replicate] at hhld
  refine ⟨onlyHalf_program (by omega) (by omega), holds_append.mpr ?_⟩
  rw [length_replicate]
  refine ⟨hhld.1.program_frame (.inl ?_), hhld.2.program (by omega)⟩
  rw [length_replicate]

lemma triple_writeLog (hg : Region g) :
    Triple (Stage F st fun cells => Holds cells target (blank (halfCap g)))
      (writeLog target (halfCap g) ops)
      (fun off s => (off = target + headerLen g + (logBytes g (freshRecs ops)).length ∧
          headerLen g + (logBytes g (freshRecs ops)).length ≤ halfCap g) ∧
        Stage F st (Logged g target ops) s)
      (Interrupted F st target ops) := by
  have hcap28 := hg.capacity_lt
  have hroom := hg.room
  have hspl := blank_split (show headerLen g ≤ halfCap g by omega)
  apply Triple.ite
  · intro hnil
    apply Triple.pure
    rintro _ ⟨flash, rfl, hcls, hhld⟩
    have hlog : logBytes g (freshRecs ops) = [] := by
      simp [freshRecs, hnil, logBytes]
    rw [hlog, length_nil, Nat.add_zero]
    refine ⟨⟨rfl, by omega⟩, flash, rfl, hcls, ?_⟩
    rw [Logged, freshTail, hlog, length_nil, nil_append, Nat.sub_zero, ← hspl]
    exact hhld
  · intro hne
    have hlog : logBytes g (freshRecs ops) = encodeRecord g ops := by
      simp [freshRecs, hne, logBytes]
    apply Triple.ite
    · intro _
      rintro _ ⟨flash, rfl, hcls, hhld⟩
      rw [hspl] at hhld
      exact interrupted_of_blank hcls hhld
    · intro hfit
      refine bind (triple_write (Q := fun _ s =>
        headerLen g + (logBytes g (freshRecs ops)).length ≤ halfCap g ∧
          Stage F st (Logged g target ops) s) ?_ ?_ ?_) ?_
      · rintro _ flash' ⟨flash, rfl, hcls, hhld⟩ hbd hprg
        obtain ⟨honly, hwr⟩ := program_behind_header
          (show Holds flash.cells target (blank (halfCap g)) from hhld)
          (show headerLen g + (encodeRecord g ops).length ≤ halfCap g by omega)
        rw [← hprg] at honly hwr
        refine ⟨?_, flash', rfl, hF _ _ hcls honly, ?_⟩
        · rw [hlog]
          omega
        · rw [Logged, freshTail, hlog]
          exact hwr
      · rintro _ ⟨flash, rfl, hcls, hhld⟩
        rw [hspl] at hhld
        exact interrupted_of_blank hcls hhld
      · rintro _ flash' p ⟨flash, rfl, hcls, hhld⟩ hbd hprg
        have htake : ((encodeRecord g ops).take p).length ≤ (encodeRecord g ops).length :=
          length_take_le' ..
        obtain ⟨honly, hwr⟩ := program_behind_header
          (show Holds flash.cells target (blank (halfCap g)) from hhld)
          (show headerLen g + ((encodeRecord g ops).take p).length ≤ halfCap g by omega)
        rw [← hprg] at honly hwr
        exact interrupted_of_blank (hF _ _ hcls honly) hwr
      · intro _ s hs
        exact ⟨⟨by rw [hlog], hs.1⟩, hs.2⟩

lemma triple_writeSuper (hops : ops ≠ [] → RecordOk g ops) (hgen : generation < 2 ^ 32)
    (hfits : headerLen g + (logBytes g (freshRecs ops)).length ≤ halfCap g) :
    Triple (Stage F st (Logged g target ops)) (onFlash (write target (superblock g generation)))
      (fun _ => Stage F st fun cells =>
        HalfImage g cells target generation (freshRecs ops) (freshTail g ops))
      (Interrupted F st target ops) := by
  have hhead := headerLen_ge g
  have hlen := superblock_length g generation
  -- with a superblock in front, the log makes the half complete
  have himag : ∀ cells generation', generation' < 2 ^ 32 →
      Holds cells target (superblock g generation') →
      Holds cells (target + headerLen g) (logBytes g (freshRecs ops) ++ freshTail g ops) →
      HalfImage g cells target generation' (freshRecs ops) (freshTail g ops) := by
    intro cells generation' hgen' hsup hrest
    refine ⟨?_, ?_, hgen', ?_, .clean _⟩
    · rw [holds_append, superblock_length]
      exact ⟨hsup, hrest⟩
    · rw [freshTail, length_replicate]
      omega
    intro ops' hops'
    unfold freshRecs at hops'
    split_ifs at hops' with hnil
    · cases hops'
    · rw [mem_singleton.mp hops']
      exact hops hnil
  apply triple_write
  · rintro _ flash' ⟨flash, rfl, hcls, hhld⟩ _ hprg
    rw [Logged, holds_append, length_replicate] at hhld
    refine ⟨flash', rfl, hF _ _ hcls ?_, himag _ _ hgen ?_ ?_⟩
    · rw [hprg]
      exact onlyHalf_program le_rfl (by omega)
    · have hsup := hhld.1.program hlen.le
      rw [hlen, Nat.sub_self, blank, replicate_zero, append_nil] at hsup
      rw [hprg]
      exact hsup
    · rw [hprg]
      exact hhld.2.program_frame (.inr (by omega))
  · rintro _ ⟨flash, rfl, hcls, hhld⟩
    exact interrupted_of_blank hcls hhld
  · rintro _ flash' p ⟨flash, rfl, hcls, hhld⟩ _ hprg
    have htake : ((superblock g generation).take p).length ≤ (superblock g generation).length :=
      length_take_le' ..
    rw [Logged, holds_append, length_replicate] at hhld
    have hF' : F flash'.cells := by
      apply hF _ _ hcls
      rw [hprg]
      exact onlyHalf_program le_rfl (by omega)
    have hsup : Holds flash'.cells target (torn (superblock g generation) p) := by
      rw [hprg]
      apply Holds.program_take
      rw [hlen]
      exact hhld.1
    by_cases hp : p < 12
    · exact ⟨flash', rfl, .inr (.inl ⟨hF', superAt_torn_eq_none hp hsup⟩)⟩
    · obtain ⟨generation', hgen', htorn⟩ := torn_superblock g generation (Nat.le_of_not_lt hp)
      rw [htorn] at hsup
      refine ⟨flash', rfl, .inr (.inr ⟨rfl, hF', generation', himag _ _ hgen' hsup ?_⟩)⟩
      rw [hprg]
      exact hhld.2.program_frame (.inr (by omega))

/-- **Rewriting a half.** It ends with the half holding its superblock and its log, and is
harmless for all other cells wherever it stops. -/
theorem triple_writeHalf (hg : Region g) (hst : F st.flash.cells)
    (hops : ops ≠ [] → RecordOk g ops) (hgen : generation < 2 ^ 32)
    (hhalf : st.halfCap = halfCap g) :
    Triple (fun s => s = st) (writeHalf target generation ops)
      (fun off s => off = target + headerLen g + (logBytes g (freshRecs ops)).length ∧
        Stage F st (fun cells =>
          HalfImage g cells target generation (freshRecs ops) (freshTail g ops)) s)
      (Interrupted F st target ops) := by
  apply Triple.get
  intro t ht
  rw [ht, hhalf]
  apply bind (triple_eraseHalf hF hst)
  intro _
  apply bind (triple_writeLog hF hg)
  intro off
  apply Triple.assume
  rintro ⟨hoff, hfits⟩
  apply bind (triple_writeSuper hF hops hgen hfits)
  intro _ s hs
  exact ⟨hoff, hs⟩

end

end WriteHalf

/-! ## The choice between the halves -/

/-- The two halves, in either order. -/
def Halves (g : Geometry) (base target : ℕ) : Prop :=
  (base = 0 ∧ target = halfCap g) ∨ (base = halfCap g ∧ target = 0)

lemma Halves.target_eq {base : ℕ} (h : Halves g base target) : target = 0 ∨ target = halfCap g := by
  rcases h with ⟨-, ht⟩ | ⟨-, ht⟩
  · exact .inr ht
  · exact .inl ht

section Choice

variable {base generation generation' : ℕ}

section

variable (h : Halves g base target) (hbase : superAt cells base = some generation)
include h hbase

lemma pickHalf_none (htgt : superAt cells target = none) :
    pickHalf (halfCap g) (superAt cells 0) (superAt cells (halfCap g)) =
      .ok (base, generation) := by
  rcases h with ⟨rfl, rfl⟩ | ⟨rfl, rfl⟩
  all_goals
    rw [hbase, htgt]
    rfl

lemma pickHalf_either (htgt : superAt cells target = some generation') :
    pickHalf (halfCap g) (superAt cells 0) (superAt cells (halfCap g)) =
        .ok (base, generation) ∨
      pickHalf (halfCap g) (superAt cells 0) (superAt cells (halfCap g)) =
        .ok (target, generation') := by
  rcases h with ⟨rfl, rfl⟩ | ⟨rfl, rfl⟩
  · rw [hbase, htgt, pickHalf]
    split_ifs
    · exact .inl rfl
    · exact .inr rfl
  · rw [hbase, htgt, pickHalf]
    split_ifs
    · exact .inr rfl
    · exact .inl rfl

end

lemma newer_succ (hgen : generation < 2 ^ 32) :
    newer ((generation + 1) % 2 ^ 32) generation = true ∧
      newer generation ((generation + 1) % 2 ^ 32) = false := by
  simp only [newer, decide_eq_true_eq, decide_eq_false_iff_not]
  by_cases hwrap : generation + 1 = 2 ^ 32
  · omega
  · omega

lemma pickHalf_succ (h : Halves g base target) (hgen : generation < 2 ^ 32)
    (hbase : superAt cells base = some generation)
    (htgt : superAt cells target = some ((generation + 1) % 2 ^ 32)) :
    pickHalf (halfCap g) (superAt cells 0) (superAt cells (halfCap g)) =
      .ok (target, (generation + 1) % 2 ^ 32) := by
  obtain ⟨hnew, holder⟩ := newer_succ hgen
  rcases h with ⟨rfl, rfl⟩ | ⟨rfl, rfl⟩
  · rw [hbase, htgt, pickHalf, holder]
    rfl
  · rw [hbase, htgt, pickHalf, hnew]
    rfl

end Choice

/-! ## Compacting -/

/-- Mounting the cells gives `index`. -/
def Recovers (g : Geometry) (cells : Cells) (index : Index) : Prop :=
  ∃ base generation recs tail, Durable g cells base generation recs tail ∧ replayed recs [] = index

/-- How an operation can stop: with an error, which leaves the store mounted as it was; or because
power was lost, which leaves the index from before or the one from after on the flash. -/
def Stopped (before after : Index) (e : Fault) (s : FlashState g) : Prop :=
  match e with
  | .flash _ => (∃ recs tail, Mounted s recs tail) ∧ s.index = before
  | .powerCut => Recovers g s.flash.cells before ∨ Recovers g s.flash.cells after

section Compact

variable {st : FlashState g} {recs : List (List WriteOp)} {tail : Bytes}

lemma Mounted.halves (hg : Region g) (h : Mounted st recs tail) :
    Halves g st.liveBase st.otherBase := by
  have hroom := hg.room
  unfold otherBase
  rcases h.durable.base_eq with hbase | hbase
  · left
    rw [if_pos hbase]
    exact ⟨hbase, h.halfCap_eq⟩
  · right
    rw [if_neg (by omega)]
    exact ⟨hbase, rfl⟩

lemma Mounted.of_durable (h : Mounted st recs tail) {flash : NorFlash g}
    (hdur : Durable g flash.cells st.liveBase st.generation recs tail) :
    Mounted { st with flash := flash } recs tail :=
  ⟨h.halfCap_eq, hdur, h.index_eq, h.writeOff_eq, h.clean⟩

lemma Mounted.nodup (h : Mounted st recs tail) : (st.index.map Prod.fst).Nodup := by
  rw [h.index_eq]
  exact nodup_replayed recs (by simp)

lemma Mounted.replayed_freshRecs (h : Mounted st recs tail) :
    replayed (freshRecs (indexOps st.index)) [] = st.index := by
  have happ := applyOps_indexOps h.nodup
  unfold freshRecs
  split_ifs with hnil
  · rw [hnil] at happ
    exact happ
  · exact happ

section

variable (hg : Region g) (h : Mounted st recs tail)
include hg h

lemma Mounted.compaction_fits : recordLen g (payloadLen (indexOps st.index)) < 2 ^ 32 := by
  have hcap := hg.capacity_lt
  have htwo := two_halfCap_le g
  have hlog := h.durable.image.length_eq
  have hidx := payloadLen_replayed_le h.durable.image.recs_ok []
  have hnil : payloadLen (indexOps []) = 0 := rfl
  have hrec := recordLen_lt g (payloadLen (indexOps st.index))
  have hwrt := writeSize_le_headerLen g
  rw [h.index_eq] at hrec ⊢
  omega

/-- What an interrupted compaction leaves behind. -/
lemma Mounted.stopped_of_interrupted (after : Index) {e : Fault} {s : FlashState g}
    (hs : Interrupted (fun cells => HalfImage g cells st.liveBase st.generation recs tail) st
      st.otherBase (indexOps st.index) e s) :
    Stopped st.index after e s := by
  obtain ⟨flash, rfl, hcls⟩ := hs
  have hhlv := h.halves hg
  -- the live half is chosen, as long as the other one has no superblock
  have hkept : Durable g flash.cells st.liveBase st.generation recs tail →
      Stopped st.index after e { st with flash := flash } := by
    intro hdur
    cases e with
    | flash err => exact ⟨⟨recs, tail, h.of_durable hdur⟩, rfl⟩
    | powerCut => exact .inl ⟨_, _, recs, tail, hdur, h.index_eq.symm⟩
  rcases hcls with hsame | ⟨himag, hnone⟩ | ⟨rfl, himag, generation', htgt⟩
  · apply hkept
    rw [hsame]
    exact h.durable
  · exact hkept ⟨h.durable.base_eq, himag, pickHalf_none hhlv himag.superAt_eq hnone⟩
  -- both halves carry the index: whichever is chosen will do
  rcases pickHalf_either hhlv himag.superAt_eq htgt.superAt_eq with hpick | hpick
  · exact hkept ⟨h.durable.base_eq, himag, hpick⟩
  · exact .inl ⟨_, _, _, _, ⟨hhlv.target_eq, htgt, hpick⟩, h.replayed_freshRecs⟩

/-- **Compacting** keeps the index, and leaves a log with a blank end. -/
theorem triple_compact
    (hops : indexOps st.index ≠ [] → RecordOk g (indexOps st.index)) (after : Index) :
    Triple (fun s => s = st) compact
      (fun _ s => (∃ recs' tail', Mounted s recs' tail') ∧ s.index = st.index ∧ s.dirtyTail = false)
      (Stopped st.index after) := by
  have hhlv := h.halves hg
  have hF : Frames g st.otherBase
      fun cells => HalfImage g cells st.liveBase st.generation recs tail := by
    intro cells cells' himag honly
    apply himag.congr
    intro a hlo hhi
    apply honly
    rcases hhlv with ⟨hb, ht⟩ | ⟨hb, ht⟩ <;> omega
  apply Triple.get
  intro t ht
  rw [ht]
  refine bind ((triple_writeHalf hF hg h.durable.image hops (Nat.mod_lt _ (by decide))
    h.halfCap_eq).consequence (fun _ hs => hs) (fun _ _ hs => hs)
    (fun e s hs => h.stopped_of_interrupted hg after hs)) ?_
  intro off
  rintro _ ⟨hoff, flash, rfl, himag, hnew⟩
  refine ⟨⟨_, _, h.halfCap_eq, ⟨hhlv.target_eq, hnew, ?_⟩, h.replayed_freshRecs.symm, hoff,
    fun _ => ?_⟩, rfl, rfl⟩
  · exact pickHalf_succ hhlv h.durable.image.generation_lt himag.superAt_eq hnew.superAt_eq
  · rw [freshTail, length_replicate]

end

end Compact

/-! ## Appending -/

section Append

variable {st : FlashState g} {recs : List (List WriteOp)} {tail : Bytes} {ops : List WriteOp}
  {p : ℕ} {bs : Bytes}

lemma torn_encodeRecord (hops : RecordOk g ops) (hp : 8 + payloadLen ops ≤ p) :
    torn (encodeRecord g ops) p = encodeRecord g ops := by
  have hpl : (encodePayload ops).length = payloadLen ops := rfl
  rw [encodeRecord_eq hops.fits, torn_append, torn_append, torn_append, torn_blank,
    leBytes_length, hpl]
  rw [torn_of_le (by rw [leBytes_length]; omega), torn_of_le (by omega),
    torn_of_le (by rw [leBytes_length]; omega)]

variable {k base generation : ℕ}

lemma take_append_blank (hk : bs.length ≤ k) :
    bs.take p ++ blank (k - (bs.take p).length) = torn bs p ++ blank (k - bs.length) := by
  rw [torn, append_assoc, ← replicate_add, length_take]
  congr 2
  omega

/-- Programming the blank end of the live log changes the log only. -/
lemma Durable.program_tail (h : Durable g cells base generation recs (blank k))
    (hbs : bs.length ≤ k) {recs' : List (List WriteOp)} {tail' : Bytes}
    (hlog : logBytes g recs' ++ tail' = logBytes g recs ++ (bs ++ blank (k - bs.length)))
    (hrecs : ∀ ops ∈ recs', RecordOk g ops) (htail : Tail g tail') :
    Durable g (program cells (base + headerLen g + (logBytes g recs).length) bs) base generation
      recs' tail' := by
  have hhead := headerLen_ge g
  have hlen := h.image.length_eq
  rw [length_replicate] at hlen
  -- the superblocks are outside the programmed cells
  have hsup : ∀ b, b = 0 ∨ b = halfCap g →
      superAt (program cells (base + headerLen g + (logBytes g recs).length) bs) b =
        superAt cells b := by
    intro b hb
    unfold superAt
    congr 1
    apply slice_congr
    intro a hlo hhi
    apply program_outside
    rcases h.base_eq with hbase | hbase <;> rcases hb with hb | hb <;> omega
  refine ⟨h.base_eq, ⟨?_, ?_, h.image.generation_lt, hrecs, htail⟩, ?_⟩
  · have hhld := h.image.holds
    rw [holds_append, superblock_length, holds_append] at hhld
    obtain ⟨hsb, hrecords, hblan⟩ := hhld
    rw [hlog, holds_append, superblock_length, holds_append]
    refine ⟨hsb.program_frame (.inl ?_), hrecords.program_frame (.inl le_rfl), hblan.program hbs⟩
    rw [superblock_length]
    omega
  · have hsame := congrArg length hlog
    simp only [length_append, length_replicate] at hsame
    omega
  · rw [hsup 0 (.inl rfl), hsup _ (.inr rfl)]
    exact h.picked

lemma logBytes_snoc (g : Geometry) (recs : List (List WriteOp)) (ops : List WriteOp) :
    logBytes g (recs ++ [ops]) = logBytes g recs ++ encodeRecord g ops := by
  simp [logBytes]

lemma replayed_snoc (recs : List (List WriteOp)) (ops : List WriteOp) (index : Index) :
    replayed (recs ++ [ops]) index = applyOps ops (replayed recs index) := by
  simp [replayed]

section

variable (h : Durable g cells base generation recs (blank k)) (hops : RecordOk g ops)
  (hk : (encodeRecord g ops).length ≤ k)
include h hops hk

lemma Durable.append_record :
    Durable g (program cells (base + headerLen g + (logBytes g recs).length) (encodeRecord g ops))
      base generation (recs ++ [ops]) (blank (k - (encodeRecord g ops).length)) := by
  apply h.program_tail hk
  · rw [logBytes_snoc, append_assoc]
  · intro ops' hops'
    rcases mem_append.mp hops' with hmem | hmem
    · exact h.image.recs_ok ops' hmem
    · rw [mem_singleton.mp hmem]
      exact hops
  · exact .clean _

lemma Durable.recovers_torn (p : ℕ) :
    Recovers g (program cells (base + headerLen g + (logBytes g recs).length)
        ((encodeRecord g ops).take p)) (replayed recs []) ∨
      Recovers g (program cells (base + headerLen g + (logBytes g recs).length)
        ((encodeRecord g ops).take p)) (applyOps ops (replayed recs [])) := by
  have htake : ((encodeRecord g ops).take p).length ≤ k :=
    (length_take_le' ..).trans hk
  by_cases hp : p < 8 + payloadLen ops
  · left
    refine ⟨base, generation, recs, _, h.program_tail htake rfl h.image.recs_ok ?_, rfl⟩
    rw [take_append_blank hk]
    exact .broken ops p _ hops hp
  · right
    refine ⟨base, generation, recs ++ [ops], blank (k - (encodeRecord g ops).length),
      h.program_tail htake ?_ ?_ (.clean _), replayed_snoc ..⟩
    · rw [take_append_blank hk, torn_encodeRecord hops (Nat.le_of_not_lt hp), logBytes_snoc,
        append_assoc]
    · exact (h.append_record hops hk).image.recs_ok

end

/-- A step of the store that the log can take: its record can be read back, and so can the record
of a compaction that it starts. -/
structure StepOk (st : FlashState g) (ops : List WriteOp) : Prop where
  record : RecordOk g ops
  compaction : st.compacts ops → st.index ≠ [] →
    g.readSize ∣ payloadLen (indexOps st.index) ∧
      g.readSize ∣ recordLen g (payloadLen (indexOps st.index))

section

variable (hg : Region g) (h : Mounted st recs tail)
include hg h

lemma triple_makeRoom (hstep : StepOk st ops) (after : Index) :
    Triple (fun s => s = st) (makeRoom ops)
      (fun _ s => (∃ recs' tail', Mounted s recs' tail') ∧ s.index = st.index ∧
        s.dirtyTail = false ∧ ¬ s.full (encodeRecord g ops).length)
      (Stopped st.index after) := by
  apply Triple.get
  intro t ht
  rw [ht]
  apply Triple.ite
  · intro hcom
    have hops : indexOps st.index ≠ [] → RecordOk g (indexOps st.index) := by
      intro hne
      have hidx : st.index ≠ [] := fun hnil => hne (by rw [hnil]; rfl)
      obtain ⟨hpl, hrec⟩ := hstep.compaction hcom hidx
      exact ⟨h.compaction_fits hg, hpl, hrec⟩
    refine bind (triple_compact hg h hops after) ?_
    intro _
    apply Triple.get
    rintro s ⟨hmnt, hidx, hclean⟩
    apply Triple.ite
    · intro _
      rintro _ rfl
      exact ⟨hmnt, hidx⟩
    · intro hroom
      rintro _ rfl
      exact ⟨hmnt, hidx, hclean, hroom⟩
  · intro hnot s hs
    rw [hs]
    have hclean : st.dirtyTail = false := Bool.eq_false_iff.mpr fun hdir => hnot (.inl hdir)
    exact ⟨⟨recs, tail, h⟩, rfl, hclean, fun hfull => hnot (.inr hfull)⟩

/-- Where the blank end of a mounted log is, and that the next record fits there once `append` has
made sure of it. -/
lemma Mounted.room (hclean : st.dirtyTail = false) (hfull : ¬ st.full (encodeRecord g ops).length)
    (hbd : st.writeOff + (encodeRecord g ops).length ≤ g.capacity) :
    (encodeRecord g ops).length ≤ tail.length ∧
      Durable g st.flash.cells st.liveBase st.generation recs (blank tail.length) := by
  have hcap := hg.capacity_lt
  have hoff := h.writeOff_eq
  have hlen := h.durable.image.length_eq
  have hhalf := h.halfCap_eq
  unfold full at hfull
  refine ⟨by omega, ?_⟩
  rw [← h.clean hclean]
  exact h.durable

/-- **Committing.** The operations are in the index and on the flash, or the store is as it was, or
power was lost and the flash holds the index from before or the one from after. -/
theorem triple_commit (hstep : StepOk st ops) :
    Triple (fun s => s = st) (commit ops)
      (fun _ s => (∃ recs' tail', Mounted s recs' tail') ∧ s.index = applyOps ops st.index)
      (Stopped st.index (applyOps ops st.index)) := by
  refine bind (R := fun _ s => (∃ recs' tail', Mounted
    { s with index := applyOps ops s.index } recs' tail') ∧ s.index = st.index) ?_ ?_
  · refine bind (triple_makeRoom hg h hstep _) ?_
    intro _
    apply Triple.get
    rintro s ⟨⟨recs', tail', hmnt⟩, hidx, hclean, hfull⟩
    refine bind (triple_write (Q := fun _ s' => (∃ recs' tail', Mounted
      { s' with
        writeOff := s'.writeOff + (encodeRecord g ops).length
        index := applyOps ops s'.index } recs' tail') ∧ s'.index = st.index) ?_ ?_ ?_) ?_
    · rintro _ flash rfl hbd hcls
      obtain ⟨hroom, hdur⟩ := hmnt.room hg hclean hfull hbd
      have hnew := hdur.append_record hstep.record hroom
      rw [← hmnt.writeOff_eq, ← hcls] at hnew
      refine ⟨⟨recs' ++ [ops], _, hmnt.halfCap_eq, hnew, ?_, ?_, fun _ => ?_⟩, hidx⟩
      · rw [replayed_snoc, ← hmnt.index_eq]
      · rw [logBytes_snoc, length_append, ← Nat.add_assoc]
        exact congrArg (· + _) hmnt.writeOff_eq
      · rw [length_replicate]
    · rintro _ rfl
      exact ⟨⟨recs', tail', hmnt⟩, hidx⟩
    · rintro _ flash p rfl hbd hcls
      obtain ⟨hroom, hdur⟩ := hmnt.room hg hclean hfull hbd
      have htorn := hdur.recovers_torn hstep.record hroom p
      rw [← hmnt.writeOff_eq, ← hcls, ← hmnt.index_eq, hidx] at htorn
      exact htorn
    · intro _ s' hs'
      exact hs'
  · intro _
    apply Triple.modify
    rintro s ⟨hmnt, hidx⟩
    exact ⟨hmnt, by rw [hidx]⟩

end

end Append

/-! ## Formatting -/

/-- **Formatting** leaves a mounted store with an empty index. -/
theorem triple_format (hread : Readable g) (hcap : g.capacity < 2 ^ 28) (flash : NorFlash g) :
    Triple (fun s => s = fresh flash) format
      (fun _ s => Region g ∧ (∃ recs tail, Mounted s recs tail) ∧ s.index = [])
      (fun _ _ => True) := by
  have hF : Frames g 0 fun cells => Holds cells (halfCap g) (blank (halfCap g)) := by
    intro cells cells' hhld honly
    apply hhld.congr
    intro a hlo _
    apply honly
    omega
  apply Triple.ite
  · intro _ _ _
    trivial
  intro hroom
  have hg : Region g := ⟨hread, hcap, Nat.le_of_not_lt hroom⟩
  refine bind (R := fun _ s => ∃ flash', s = { fresh flash with
    flash := flash' } ∧ Holds flash'.cells (halfCap g) (blank (halfCap g))) ?_ ?_
  · apply triple_erase
    · rintro _ flash' rfl hcls
      rw [Nat.add_sub_cancel_left] at hcls
      refine ⟨flash', rfl, ?_⟩
      rw [hcls]
      exact holds_erase ..
    · intro _ _
      trivial
    · intros
      trivial
  · intro _
    apply Triple.forall_state
    rintro _ ⟨flash', rfl, hblan⟩
    refine bind ((triple_writeHalf hF hg hblan (fun h => absurd rfl h) (by decide)
      rfl).consequence (fun _ hs => hs) (fun _ _ hs => hs) (fun _ _ _ => trivial)) ?_
    intro off
    rintro _ ⟨hoff, flash'', rfl, hoth, himag⟩
    have hnone : superAt flash''.cells (halfCap g) = none := by
      apply superAt_blank (headerLen_ge g)
      rw [blank_split (show headerLen g ≤ halfCap g by have := hg.room; omega)] at hoth
      exact hoth
    refine ⟨hg, ⟨_, _, rfl, ⟨.inl rfl, himag, ?_⟩, rfl, hoff, fun _ => ?_⟩, rfl⟩
    · exact pickHalf_none (.inl ⟨rfl, rfl⟩) himag.superAt_eq hnone
    · rw [freshTail, length_replicate]

/-! ## Runs -/

/-- A write request of the backend. -/
inductive Request where
  | put (key value : Bytes)
  | delete (key : Bytes)
  | writeBatch (ops : List WriteOp)
  deriving DecidableEq

namespace Request

def ops : Request → List WriteOp
  | .put key value => [.put key value]
  | .delete key => [.delete key]
  | .writeBatch ops => ops

def run : Request → FlashM g Unit
  | .put key value => FlashLogBackend.put key value
  | .delete key => FlashLogBackend.delete key
  | .writeBatch ops => FlashLogBackend.writeBatch ops

lemma run_eq_commit (request : Request) : (request.run : FlashM g Unit) = commit request.ops := by
  cases request <;> rfl

/-- The request, with power for changing `power` cells (`none`: power stays). -/
def runWith (request : Request) (power : Option ℕ) (st : FlashState g) :
    EStateM.Result Fault (FlashState g) Unit :=
  request.run { st with flash := ⟨st.flash.cells, power⟩ }

end Request

/-- What happens to a store: a request, during which power may be lost, or a restart. -/
inductive Event where
  | request (request : Request) (power : Option ℕ)
  | mount
  deriving DecidableEq

def flashOf : EStateM.Result Fault (FlashState g) Unit → NorFlash g
  | .ok _ st => st.flash
  | .error _ st => st.flash

/-- One event. After a loss of power the region is mounted again. -/
def step (s : Except FlashError (FlashState g)) (event : Event) :
    Except FlashError (FlashState g) := do
  let st ← s
  match event with
  | .mount => mount st.flash
  | .request request power =>
    match request.runWith power st with
    | .ok _ st' => .ok st'
    | .error (.flash _) st' => .ok st'
    | .error .powerCut st' => mount st'.flash

/-- The steps whose records can be read back. -/
def Allowed (s : Except FlashError (FlashState g)) (event : Event) : Prop :=
  match s, event with
  | .ok st, .request request _ => StepOk st request.ops
  | _, _ => True

/-- The region is mounted after power was lost during a request, when `budget` more cells had been
changed. -/
def mountAfterCut (st : FlashState g) (request : Request) (budget : ℕ) :
    Except FlashError (FlashState g) :=
  mount (flashOf (request.runWith (some budget) st))

section Run

variable {st : FlashState g} {recs : List (List WriteOp)} {tail : Bytes} {request : Request}

lemma Mounted.runWith (hg : Region g) (h : Mounted st recs tail) (hstep : StepOk st request.ops)
    (power : Option ℕ) :
    (∀ u s, request.runWith power st = .ok u s →
      (∃ recs' tail', Mounted s recs' tail') ∧ s.index = applyOps request.ops st.index) ∧
    ∀ e s, request.runWith power st = .error e s →
      Stopped st.index (applyOps request.ops st.index) e s := by
  have hpow : Mounted { st with flash := ⟨st.flash.cells, power⟩ } recs tail :=
    h.of_durable h.durable
  have hcom := triple_commit hg hpow ⟨hstep.record, hstep.compaction⟩
  rw [Request.runWith, Request.run_eq_commit]
  constructor
  · intro u s hrun
    exact hcom.of_ok rfl hrun
  · intro e s hrun
    exact hcom.of_error rfl hrun

lemma Recovers.mount (hg : Region g) {flash : NorFlash g} {index : Index}
    (h : Recovers g flash.cells index) :
    ∃ st recs tail, mount flash = .ok st ∧ Mounted st recs tail ∧ st.index = index := by
  obtain ⟨base, generation, recs, tail, hdur, hidx⟩ := h
  obtain ⟨st, hmoun, -, hmnt⟩ := mount_durable hg hdur
  exact ⟨st, recs, tail, hmoun, hmnt, hmnt.index_eq.trans hidx⟩

lemma Mounted.recovers (h : Mounted st recs tail) : Recovers g st.flash.cells st.index :=
  ⟨_, _, recs, tail, h.durable, h.index_eq.symm⟩

lemma Mounted.step (hg : Region g) (h : Mounted st recs tail) (event : Event)
    (hall : Allowed (.ok st) event) :
    ∃ st' recs' tail', Flash.step (.ok st) event = .ok st' ∧ Mounted st' recs' tail' := by
  unfold Flash.step
  rw [Except.ok_bind]
  cases event with
  | mount =>
    obtain ⟨st', recs', tail', hmoun, hmnt, -⟩ := h.recovers.mount hg
    exact ⟨st', recs', tail', hmoun, hmnt⟩
  | request request power =>
    obtain ⟨hok, herr⟩ := h.runWith hg hall power
    simp only
    cases hcase : request.runWith power st with
    | ok u st' =>
      obtain ⟨⟨recs', tail', hmnt⟩, -⟩ := hok u st' hcase
      exact ⟨st', recs', tail', rfl, hmnt⟩
    | error e st' =>
      cases e with
      | flash err =>
        obtain ⟨⟨recs', tail', hmnt⟩, -⟩ := herr _ _ hcase
        exact ⟨st', recs', tail', rfl, hmnt⟩
      | powerCut =>
        rcases herr _ _ hcase with hrcv | hrcv
        all_goals
          obtain ⟨st'', recs', tail', hmoun, hmnt, -⟩ := hrcv.mount hg
          exact ⟨st'', recs', tail', hmoun, hmnt⟩

lemma mounted_of_reach (hg : Region g) (h : Mounted st recs tail)
    {s : Except FlashError (FlashState g)} (hs : Run.Reach Flash.step Allowed (.ok st) s) :
    ∃ st' recs' tail', s = .ok st' ∧ Mounted st' recs' tail' := by
  apply hs.invariant
  · exact ⟨st, recs, tail, rfl, h⟩
  · rintro _ event ⟨st', recs', tail', rfl, hmnt⟩ hall
    exact hmnt.step hg event hall

/-- **Power cuts.** After a completed format and any requests, restarts and power cuts whose
records can be read back, a loss of power at any point of the next request leaves a region that
mounts, with exactly the index from before the request or the one from after it; a request that the
store has refused leaves the one from before. -/
theorem mount_after_cut (hcap : g.capacity < 2 ^ 28) (hread : Readable g) (flash : NorFlash g)
    {st₀ : FlashState g}
    (hformat : FlashLogBackend.format (FlashLogBackend.fresh flash) = .ok () st₀)
    {s : Except FlashError (FlashState g)} (hs : Run.Reach Flash.step Allowed (.ok st₀) s) :
    ∃ st, s = .ok st ∧ ∀ (request : Request) (budget : ℕ), StepOk st request.ops →
      ∃ st', mountAfterCut st request budget = .ok st' ∧
        (st'.index = st.index ∨ st'.index = applyOps request.ops st.index) ∧
        ∀ e s', request.runWith (some budget) st = .error (.flash e) s' → st'.index = st.index := by
  obtain ⟨hg, ⟨recs₀, tail₀, hmnt₀⟩, -⟩ := (triple_format hread hcap flash).of_ok rfl hformat
  obtain ⟨st, recs, tail, rfl, hmnt⟩ := mounted_of_reach hg hmnt₀ hs
  refine ⟨st, rfl, ?_⟩
  intro request budget hstep
  obtain ⟨hok, herr⟩ := hmnt.runWith hg hstep (some budget)
  unfold mountAfterCut
  cases hcase : request.runWith (some budget) st with
  | ok u s' =>
    obtain ⟨⟨recs', tail', hmnt'⟩, hidx⟩ := hok u s' hcase
    obtain ⟨st', _, _, hmoun, -, hidx'⟩ := hmnt'.recovers.mount hg
    refine ⟨st', hmoun, .inr (hidx'.trans hidx), ?_⟩
    intro e s'' h
    cases h
  | error e s' =>
    cases e with
    | flash err =>
      obtain ⟨⟨recs', tail', hmnt'⟩, hidx⟩ := herr _ _ hcase
      obtain ⟨st', _, _, hmoun, -, hidx'⟩ := hmnt'.recovers.mount hg
      exact ⟨st', hmoun, .inl (hidx'.trans hidx), fun _ _ _ => hidx'.trans hidx⟩
    | powerCut =>
      rcases herr _ _ hcase with hrcv | hrcv
      · obtain ⟨st', _, _, hmoun, -, hidx⟩ := hrcv.mount hg
        exact ⟨st', hmoun, .inl hidx, fun _ _ _ => hidx⟩
      · obtain ⟨st', _, _, hmoun, -, hidx⟩ := hrcv.mount hg
        refine ⟨st', hmoun, .inr hidx, ?_⟩
        intro e s'' h
        cases h

end Run

/-- A chip with the constants of the mock flash in the source's tests. -/
def mockChip : Geometry where
  readSize := 1
  writeSize := 4
  eraseSize := 64
  capacity := 256
  readSize_pos := by decide
  writeSize_pos := by decide
  eraseSize_pos := by decide
  writeSize_lt := by decide
  eraseSize_lt := by decide

def wordChip : Geometry :=
  { mockChip with readSize := 4, readSize_pos := by decide }

/-- The state that formatting a blank chip ends with. -/
def formatted (g : Geometry) : FlashState g :=
  match format (fresh ⟨fun _ => 0xFF, none⟩) with
  | .ok _ st => st
  | .error _ st => st

/-- A put, another one cut after ten cells, and a batch on the mock chip. -/
theorem mount_after_cut_mockChip :
    ∃ st, [Event.request (.put [97] [98]) none, Event.request (.put [99] [100]) (some 10)].foldl
        Flash.step (.ok (formatted mockChip)) = .ok st ∧
      ∃ st', mountAfterCut st (.writeBatch [.delete [97], .put [99] [101]]) 7 = .ok st' ∧
        (st'.index = st.index ∨ st'.index = applyOps [.delete [97], .put [99] [101]] st.index) := by
  have hok : ∀ (st : FlashState mockChip) (ops : List WriteOp),
      recordLen mockChip (payloadLen ops) < 2 ^ 32 → StepOk st ops :=
    fun st ops hfits => ⟨⟨hfits, one_dvd _, one_dvd _⟩, fun _ _ => ⟨one_dvd _, one_dvd _⟩⟩
  have hrch : Run.Reach Flash.step Allowed (.ok (formatted mockChip))
      ([Event.request (.put [97] [98]) none, Event.request (.put [99] [100]) (some 10)].foldl
        Flash.step (.ok (formatted mockChip))) := by
    apply Run.Reach.refl.foldl
    refine ⟨hok _ _ (by decide), ?_, trivial⟩
    exact hok _ _ (by decide)
  obtain ⟨st, hst, hcut⟩ := mount_after_cut (g := mockChip) (by decide)
    ⟨one_dvd _, one_dvd _, one_dvd _⟩ ⟨fun _ => 0xFF, none⟩ rfl hrch
  obtain ⟨st', hmoun, hidx, -⟩ := hcut (.writeBatch [.delete [97], .put [99] [101]]) 7
    (hok _ _ (by decide))
  exact ⟨st, hst, st', hmoun, hidx⟩

set_option maxRecDepth 4000 in
/-- A chip that reads whole words cannot mount the log after a put of one byte. -/
theorem word_chip_unmountable :
    FlashLogBackend.format (FlashLogBackend.fresh ⟨fun _ => 0xFF, none⟩) =
        .ok () (formatted wordChip) ∧
      ∃ st, Flash.step (.ok (formatted wordChip)) (.request (.put [97] [98]) none) = .ok st ∧
        st.index = [([97], [98])] ∧
        mountAfterCut st (.put [99] [100]) 0 = .error .io := by
  refine ⟨rfl, _, rfl, rfl, rfl⟩

end NdnRs.Flash
