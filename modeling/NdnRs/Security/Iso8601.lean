import NdnRs.Lib.Bytes

/-!
# Validity dates (`ndn-security/src/iso8601.rs`)

Certificates carry the ends of their validity period as `YYYYMMDDTHHMMSS` strings; the code
works with nanoseconds since the epoch in 64 bits.

## Main results

* `parseIsoBasic_exact_iff` — when parsing a date is exact.
* `parseIsoBasic_formatIsoBasic_toNat` — the round trip, down to the second.
-/

namespace NdnRs.Iso8601

open List

def letterT : UInt8 := 84

/-- `read_u32`: decimal digits only. -/
def readU32 (slot : Bytes) : Option ℕ :=
  if slot.all (fun b => 48 ≤ b && b ≤ 57) then
    some (slot.foldl (fun v b => v * 10 + (b.toNat - 48)) 0)
  else none

/-- `write_u32`: the low `w` decimal digits of a number. -/
def writeU32 : ℕ → ℕ → Bytes
  | 0, _ => []
  | w + 1, v => writeU32 w (v / 10) ++ [UInt8.ofNat (48 + v % 10)]

/-- `days_from_civil`: days since 1970-01-01 in the proleptic Gregorian calendar. -/
def daysFromCivil (y m d : ℕ) : ℤ :=
  let y : ℤ := if m ≤ 2 then (y : ℤ) - 1 else y
  let era : ℤ := .tdiv (if y ≥ 0 then y else y - 399) 400
  let yoe : ℕ := (y - era * 400).toNat
  let doy : ℕ := (153 * (if m > 2 then m - 3 else m + 9) + 2) / 5 + d - 1
  let doe : ℕ := yoe * 365 + yoe / 4 - yoe / 100 + doy
  era * 146097 + doe - 719468

/-- `civil_from_days`: year, month and day of a number of days since 1970-01-01. -/
def civilFromDays (z : ℤ) : ℕ × ℕ × ℕ :=
  let z := z + 719468
  let era : ℤ := .tdiv (if z ≥ 0 then z else z - 146096) 146097
  let doe : ℕ := (z - era * 146097).toNat
  let yoe : ℕ := (doe - doe / 1460 + doe / 36524 - doe / 146096) / 365
  let y : ℤ := yoe + era * 400
  let doy : ℕ := doe - (365 * yoe + yoe / 4 - yoe / 100)
  let mp : ℕ := (5 * doy + 2) / 153
  let d : ℕ := doy - (153 * mp + 2) / 5 + 1
  let m : ℕ := if mp < 10 then mp + 3 else mp - 9
  let y : ℤ := if m ≤ 2 then y + 1 else y
  (y.toNat, m, d)

def ymdhmsToUnixSecs (y mo d h mi s : ℕ) : Option ℕ :=
  if ¬ (1 ≤ mo ∧ mo ≤ 12) ∨ ¬ (1 ≤ d ∧ d ≤ 31) ∨ h > 23 ∨ mi > 59 ∨ s > 60 then none
  else
    let days := daysFromCivil y mo d
    if days < 0 then none
    else some (days.toNat * 86400 + h * 3600 + mi * 60 + s)

/-- `parse_iso_basic`: nanoseconds since the epoch, with the product taken in 64 bits. -/
def parseIsoBasic (bytes : Bytes) : Option ℕ :=
  if bytes.length ≠ 15 ∨ bytes[8]? ≠ some letterT then none
  else do
    let y ← readU32 (bytes.take 4)
    let mo ← readU32 ((bytes.drop 4).take 2)
    let d ← readU32 ((bytes.drop 6).take 2)
    let h ← readU32 ((bytes.drop 9).take 2)
    let mi ← readU32 ((bytes.drop 11).take 2)
    let s ← readU32 ((bytes.drop 13).take 2)
    let secs ← ymdhmsToUnixSecs y mo d h mi s
    return secs * 1000000000 % 2 ^ 64

def formatIsoBasic (unixNs : ℕ) : Bytes :=
  let secs := unixNs / 1000000000
  let secsInDay := secs % 86400
  let (y, mo, d) := civilFromDays (secs / 86400 : ℕ)
  writeU32 4 y ++ writeU32 2 mo ++ writeU32 2 d ++ [letterT] ++ writeU32 2 (secsInDay / 3600) ++
    writeU32 2 (secsInDay % 3600 / 60) ++ writeU32 2 (secsInDay % 60)

/-! ## Round trips -/

@[simp] lemma length_writeU32 (w v : ℕ) : (writeU32 w v).length = w := by
  induction w generalizing v with
  | zero => rfl
  | succ w ih => simp [writeU32, ih]

/-- What is written is read, up to the digits that there is room for. -/
lemma readU32_writeU32 (w v : ℕ) : readU32 (writeU32 w v) = some (v % 10 ^ w) := by
  induction w generalizing v with
  | zero => simp [writeU32, readU32, Nat.mod_one]
  | succ w ih =>
    have hread := ih (v / 10)
    rw [readU32] at hread
    split_ifs at hread with hdig
    have hdigit : (UInt8.ofNat (48 + v % 10)).toNat = 48 + v % 10 := by
      rw [UInt8.toNat_ofNat']
      omega
    have hlast : (48 ≤ UInt8.ofNat (48 + v % 10) && UInt8.ofNat (48 + v % 10) ≤ 57) = true := by
      simp only [Bool.and_eq_true, decide_eq_true_eq, UInt8.le_iff_toNat_le, hdigit]
      exact ⟨by simp, by simp; omega⟩
    rw [writeU32, readU32, all_append, hdig, foldl_append, Option.some.inj hread]
    simp only [all_cons, hlast, all_nil, Bool.and_self, if_true, foldl_cons,
      foldl_nil, hdigit, Option.some.injEq]
    rw [pow_succ', Nat.mod_mul]
    omega

/-- The year of a day of the 400-year cycle, as `civil_from_days` computes it. -/
def yearOfEra (doe : ℕ) : ℕ := (doe - doe / 1460 + doe / 36524 - doe / 146096) / 365

def yearStart (yoe : ℕ) : ℕ := 365 * yoe + yoe / 4 - yoe / 100

lemma yearOfEra_mono : Monotone yearOfEra :=
  monotone_nat_of_le_succ fun doe => Nat.div_le_div_right (by omega)

lemma yearOfEra_bounds {doe : ℕ} (h : doe < 146097) :
    yearOfEra doe < 400 ∧ yearStart (yearOfEra doe) ≤ doe ∧
      doe ≤ yearStart (yearOfEra doe) + 365 := by
  -- the last day of the cycle is a leap day, which `yearStart` does not count
  by_cases hleap : doe = 146096
  · rw [hleap]
    decide
  -- the formula is right on the first and the last day of every year, and it is monotone
  have hends : ∀ y ∈ range 400,
      yearOfEra (yearStart y) = y ∧ yearOfEra (yearStart (y + 1) - 1) = y := by
    decide +kernel
  obtain ⟨y, hy⟩ : ∃ y, y = Nat.findGreatest (fun y => yearStart y ≤ doe) 399 := ⟨_, rfl⟩
  have hy399 : y ≤ 399 := hy ▸ Nat.findGreatest_le 399
  have hle : yearStart y ≤ doe := by
    rw [hy]
    exact Nat.findGreatest_spec (P := fun y => yearStart y ≤ doe) (Nat.zero_le 399)
      (by simp [yearStart])
  have hlt : doe < yearStart (y + 1) := by
    by_cases hlast : y + 1 ≤ 399
    · exact not_le.1 (Nat.findGreatest_is_greatest (P := fun y => yearStart y ≤ doe)
        (hy ▸ Nat.lt_succ_self y) hlast)
    · obtain rfl : y = 399 := by omega
      exact lt_of_lt_of_eq (show doe < 146096 by omega) (by decide)
  obtain ⟨hfst, hlast⟩ := hends y (mem_range.2 (by omega))
  have hyear : yearOfEra doe = y :=
    le_antisymm ((yearOfEra_mono (by omega)).trans_eq hlast)
      (hfst.symm.le.trans (yearOfEra_mono hle))
  rw [hyear]
  refine ⟨by omega, hle, ?_⟩
  unfold yearStart at hlt ⊢
  omega

/-- The month, counted from March, and the day of a day of the year. -/
lemma monthOfYear_bounds {doy : ℕ} (h : doy ≤ 365) :
    (5 * doy + 2) / 153 ≤ 11 ∧ (153 * ((5 * doy + 2) / 153) + 2) / 5 ≤ doy ∧
      doy ≤ (153 * ((5 * doy + 2) / 153) + 2) / 5 + 30 := by
  omega

/-- **Days survive the calendar.** -/
lemma daysFromCivil_civilFromDays (n : ℕ) :
    ∃ y m d, civilFromDays n = (y, m, d) ∧ daysFromCivil y m d = n ∧ (1 ≤ m ∧ m ≤ 12) ∧
      (1 ≤ d ∧ d ≤ 31) ∧ y ≤ (n + 719468) / 146097 * 400 + 400 := by
  obtain ⟨era, hera⟩ : ∃ era, (n + 719468) / 146097 = era := ⟨_, rfl⟩
  obtain ⟨doe, hdoe⟩ : ∃ doe, (n + 719468) % 146097 = doe := ⟨_, rfl⟩
  have hn : (n : ℤ) + 719468 = era * 146097 + doe := by omega
  have hdoe_lt : doe < 146097 := by omega
  obtain ⟨hyoe400, hle, hge⟩ := yearOfEra_bounds hdoe_lt
  obtain ⟨doy, hdoy⟩ : ∃ doy, doe = yearStart (yearOfEra doe) + doy := Nat.exists_eq_add_of_le hle
  obtain ⟨hmp11, hday, hday30⟩ := monthOfYear_bounds (show doy ≤ 365 by omega)
  have hdoe_sub : doe - yearStart (yearOfEra doe) = doy := by omega
  obtain ⟨yoe, hyoe⟩ : ∃ yoe, yearOfEra doe = yoe := ⟨_, rfl⟩
  obtain ⟨mp, hmp⟩ : ∃ mp, (5 * doy + 2) / 153 = mp := ⟨_, rfl⟩
  rw [hyoe] at hyoe400 hdoe_sub hdoy
  rw [hmp] at hmp11 hday hday30
  obtain ⟨m, hm⟩ : ∃ m, (if mp < 10 then mp + 3 else mp - 9) = m := ⟨_, rfl⟩
  refine ⟨if m ≤ 2 then yoe + era * 400 + 1 else yoe + era * 400, m,
    doy - (153 * mp + 2) / 5 + 1, ?_, ?_, ?_, ?_, ?_⟩
  · have hif : (if (n : ℤ) + 719468 ≥ 0 then (n : ℤ) + 719468 else (n : ℤ) + 719468 - 146096) =
        (n : ℤ) + 719468 := if_pos (by omega)
    have hdiv : Int.tdiv ((n : ℤ) + 719468) 146097 = era := by
      rw [Int.tdiv_eq_ediv_of_nonneg (by omega)]
      omega
    have htoNat : ((n : ℤ) + 719468 - era * 146097).toNat = doe := by
      rw [hn]
      simp
    rw [yearStart] at hdoe_sub
    rw [yearOfEra] at hyoe
    simp only [civilFromDays, hif, hdiv, htoNat, hyoe, hdoe_sub, hmp, hm]
    rw [Prod.mk.injEq]
    refine ⟨?_, rfl⟩
    clear * -
    split_ifs <;> omega
  · have hyear : (if m ≤ 2 then
          ((if m ≤ 2 then yoe + era * 400 + 1 else yoe + era * 400 : ℕ) : ℤ) - 1
        else ((if m ≤ 2 then yoe + era * 400 + 1 else yoe + era * 400 : ℕ) : ℤ)) =
        yoe + era * 400 := by
      split_ifs <;> simp
    have hif : (if (yoe : ℤ) + era * 400 ≥ 0 then (yoe : ℤ) + era * 400 else
        (yoe : ℤ) + era * 400 - 399) = (yoe : ℤ) + era * 400 := if_pos (by omega)
    have hdiv : Int.tdiv ((yoe : ℤ) + era * 400) 400 = era := by
      rw [Int.tdiv_eq_ediv_of_nonneg (by omega)]
      omega
    have htoNat : ((yoe : ℤ) + era * 400 - era * 400).toNat = yoe := by omega
    have hmon : (if m > 2 then m - 3 else m + 9) = mp := by
      clear hyoe hmp hday hday30 hdoy hdoe hera hn hdiv hif hyear
      split_ifs at hm ⊢ <;> omega
    simp only [daysFromCivil, hyear, hif, hdiv, htoNat, hmon]
    rw [yearStart] at hdoy
    clear hyoe hmp hmon hm hdiv hif hyear
    omega
  · clear hyoe hmp hday hday30 hdoy hdoe hera hn
    split_ifs at hm <;> omega
  · clear hyoe hmp hm hdoy hdoe hera hn
    omega
  · clear hyoe hmp hm hdoy hdoe hn
    split_ifs <;> omega

lemma readU32_slot (pre rest : Bytes) {w v : ℕ} (hv : v < 10 ^ w) :
    readU32 (((pre ++ (writeU32 w v ++ rest)).drop pre.length).take w) = some v := by
  rw [drop_left, take_left' (length_writeU32 w v), readU32_writeU32, Nat.mod_eq_of_lt hv]

/-- The text of a date and a time of day. -/
def text (y m d h mi s : ℕ) : Bytes :=
  writeU32 4 y ++ writeU32 2 m ++ writeU32 2 d ++ [letterT] ++ writeU32 2 h ++ writeU32 2 mi ++
    writeU32 2 s

/-- Each number of the text is read in its place. -/
lemma parseIsoBasic_text {y m d h mi s : ℕ} (hy : y < 10 ^ 4) (hm : m < 10 ^ 2) (hd : d < 10 ^ 2)
    (hh : h < 10 ^ 2) (hmi : mi < 10 ^ 2) (hs : s < 10 ^ 2) :
    parseIsoBasic (text y m d h mi s) =
      (ymdhmsToUnixSecs y m d h mi s).map fun secs => secs * 1000000000 % 2 ^ 64 := by
  have hslot := And.intro (readU32_slot (writeU32 4 y) (writeU32 2 d ++ letterT :: (writeU32 2 h ++
      (writeU32 2 mi ++ writeU32 2 s))) hm) <|
    And.intro (readU32_slot (writeU32 4 y ++ writeU32 2 m) (letterT :: (writeU32 2 h ++
      (writeU32 2 mi ++ writeU32 2 s))) hd) <|
    And.intro (readU32_slot (writeU32 4 y ++ writeU32 2 m ++ writeU32 2 d ++ [letterT])
      (writeU32 2 mi ++ writeU32 2 s) hh) <|
    And.intro (readU32_slot (writeU32 4 y ++ writeU32 2 m ++ writeU32 2 d ++ [letterT] ++
      writeU32 2 h) (writeU32 2 s) hmi) <|
    (readU32_slot (writeU32 4 y ++ writeU32 2 m ++ writeU32 2 d ++ [letterT] ++ writeU32 2 h ++
      writeU32 2 mi) [] hs)
  simp only [append_assoc, cons_append, nil_append, append_nil,
    length_append, length_writeU32, length_cons, length_nil] at hslot
  simp only [text, append_assoc, cons_append, nil_append]
  rw [parseIsoBasic, if_neg (by simp), take_left' (length_writeU32 4 y), readU32_writeU32,
    Nat.mod_eq_of_lt hy, hslot.1, hslot.2.1, hslot.2.2.1, hslot.2.2.2.1, hslot.2.2.2.2]
  cases hunix : ymdhmsToUnixSecs y m d h mi s <;> simp [hunix]

/-- **Dates survive the text**, up to whole seconds. -/
lemma parseIsoBasic_formatIsoBasic {ns : ℕ} (hns : ns < 2 ^ 64) :
    parseIsoBasic (formatIsoBasic ns) = some (ns / 1000000000 * 1000000000) := by
  obtain ⟨y, m, d, hciv, hdays, hm, hd, hy⟩ :=
    daysFromCivil_civilFromDays (ns / 1000000000 / 86400)
  obtain ⟨secs, hsecs⟩ : ∃ secs, ns / 1000000000 = secs := ⟨_, rfl⟩
  obtain ⟨h, hh⟩ : ∃ h, secs % 86400 / 3600 = h := ⟨_, rfl⟩
  obtain ⟨mi, hmi⟩ : ∃ mi, secs % 86400 % 3600 / 60 = mi := ⟨_, rfl⟩
  obtain ⟨s, hs⟩ : ∃ s, secs % 86400 % 60 = s := ⟨_, rfl⟩
  rw [hsecs] at hciv hdays hy ⊢
  have hunix : ymdhmsToUnixSecs y m d h mi s = some secs := by
    rw [ymdhmsToUnixSecs, if_neg (by omega), hdays]
    simp only [Option.ite_none_left_eq_some, Option.some.injEq]
    omega
  have hfmt : formatIsoBasic ns = text y m d h mi s := by
    simp only [formatIsoBasic, hsecs, hciv, hh, hmi, hs, text]
  rw [hfmt, parseIsoBasic_text (by omega) (by omega) (by omega) (by omega) (by omega) (by omega),
    hunix, Option.map_some, Option.some.injEq]
  omega

/-- **What is read of a written time** is the time without its fraction of a second. -/
theorem parseIsoBasic_formatIsoBasic_toNat (t : UInt64) :
    parseIsoBasic (formatIsoBasic t.toNat) = some (t.toNat / 1000000000 * 1000000000) :=
  parseIsoBasic_formatIsoBasic t.toNat_lt

/-! ## The calendar -/

def isLeap (y : ℕ) : Bool := y % 4 = 0 && (y % 100 ≠ 0 || y % 400 = 0)

def yearDays (y : ℕ) : ℕ := if isLeap y then 366 else 365

def monthDays (y m : ℕ) : ℕ :=
  if m = 2 then if isLeap y then 29 else 28 else if m ∈ [4, 6, 9, 11] then 30 else 31

/-- The days since 1970-01-01, counted year by year and month by month. -/
def dayCount (y m d : ℕ) : ℕ :=
  ((range' 1970 (y - 1970)).map yearDays).sum + ((range' 1 (m - 1)).map (monthDays y)).sum + (d - 1)

/-- A date and a time that the calendar has, from 1970 to 9999. -/
structure DateTime where
  (y m d h mi s : ℕ)
  year : 1970 ≤ y ∧ y ≤ 9999
  month : 1 ≤ m ∧ m ≤ 12
  day : 1 ≤ d ∧ d ≤ monthDays y m
  time : h ≤ 23 ∧ mi ≤ 59 ∧ s ≤ 59

def DateTime.seconds (t : DateTime) : ℕ :=
  dayCount t.y t.m t.d * 86400 + t.h * 3600 + t.mi * 60 + t.s

/-- The leap years up to a year. -/
def leaps (y : ℕ) : ℕ := y / 4 - y / 100 + y / 400

lemma leaps_succ (y : ℕ) : leaps (y + 1) = leaps y + if isLeap (y + 1) then 1 else 0 := by
  have hle : y / 100 ≤ y / 4 := Nat.div_le_div_left (by decide) (by decide)
  simp only [leaps, Nat.succ_div, isLeap, Nat.dvd_iff_mod_eq_zero, Bool.and_eq_true,
    Bool.or_eq_true, decide_eq_true_eq]
  generalize y / 100 = a, y / 4 = b, y / 400 = c at *
  split_ifs <;> omega

lemma sum_yearDays (n : ℕ) :
    ((range' 1970 n).map yearDays).sum + 477 = 365 * n + leaps (1969 + n) := by
  induction n with
  | zero => rfl
  | succ n ih =>
    rw [range'_1_concat, map_append, sum_append, map_singleton, sum_singleton, yearDays,
      ← add_assoc, leaps_succ, add_right_comm 1969]
    split_ifs <;> omega

/-- The source lets a year begin in March, and so counts the leap day at its end. -/
lemma sum_monthDays (y : ℕ) {m : ℕ} (hm : 1 ≤ m ∧ m ≤ 12) :
    ((range' 1 (m - 1)).map (monthDays y)).sum + (if m ≤ 2 then 306 else 0) =
      (153 * (if m > 2 then m - 3 else m + 9) + 2) / 5 +
        if m ≤ 2 then 0 else if isLeap y then 60 else 59 := by
  obtain ⟨hlo, hhi⟩ := hm
  unfold monthDays
  cases isLeap y <;> interval_cases m <;> rfl

lemma daysFromCivil_eq_dayCount {y m d : ℕ} (hy : 1970 ≤ y) (hm : 1 ≤ m ∧ m ≤ 12) (hd : 1 ≤ d) :
    daysFromCivil y m d = dayCount y m d := by
  obtain ⟨n, rfl⟩ := Nat.exists_eq_add_of_le hy
  obtain ⟨mp, hmp⟩ : ∃ mp, (if m > 2 then m - 3 else m + 9) = mp := ⟨_, rfl⟩
  obtain ⟨z, hz⟩ : ∃ z, (if m ≤ 2 then 1969 + n else 1970 + n) = z := ⟨_, rfl⟩
  have hyear : (if m ≤ 2 then ((1970 + n : ℕ) : ℤ) - 1 else (1970 + n : ℕ)) = z := by
    split_ifs at hz ⊢ <;> omega
  have hdays : daysFromCivil (1970 + n) m d = 365 * z + leaps z - 719468 +
      ((153 * mp + 2) / 5 + d - 1 : ℕ) := by
    have hyoe : ((z : ℤ) - z / 400 * 400).toNat = z % 400 := by omega
    have hfour : z / 4 = z / 400 * 100 + z % 400 / 4 := by omega
    have hcent : z / 100 = z / 400 * 4 + z % 400 / 100 := by omega
    simp only [daysFromCivil, hyear, if_pos (Int.natCast_nonneg z), ge_iff_le, hmp,
      Int.tdiv_eq_ediv_of_nonneg (Int.natCast_nonneg z), hyoe, leaps, hfour, hcent]
    omega
  have hmon := sum_monthDays (1970 + n) hm
  have hyears := sum_yearDays n
  have hleap := leaps_succ (1969 + n)
  rw [hmp] at hmon
  rw [show 1969 + n + 1 = 1970 + n by omega] at hleap
  rw [hdays, dayCount, Nat.add_sub_cancel_left]
  split_ifs at hz hmon hleap <;> subst hz <;> omega

/-- **A date is read exactly** iff its nanoseconds since the epoch fit into 64 bits. -/
theorem parseIsoBasic_exact_iff (t : DateTime) :
    (∀ ns ∈ parseIsoBasic (text t.y t.m t.d t.h t.mi t.s), ns = t.seconds * 1000000000) ↔
      t.seconds * 1000000000 < 2 ^ 64 := by
  have hday : t.d ≤ 31 := t.day.2.trans (by unfold monthDays; split_ifs <;> omega)
  obtain ⟨hy, hm, hd, ht⟩ := And.intro t.year (And.intro t.month (And.intro t.day t.time))
  have hunix : ymdhmsToUnixSecs t.y t.m t.d t.h t.mi t.s = some t.seconds := by
    rw [ymdhmsToUnixSecs, if_neg (by omega), daysFromCivil_eq_dayCount hy.1 hm hd.1]
    simp [DateTime.seconds]
  rw [parseIsoBasic_text (by omega) (by omega) (by omega) (by omega) (by omega) (by omega), hunix]
  simp only [Option.map_some, Option.mem_def, Option.some.injEq, forall_eq']
  omega

/-- A certificate that is valid until the middle of 2554 is taken to have expired in 1970. -/
theorem far_date_wraps : ∃ t : DateTime, t.y = 2554 ∧
    ∃ ns ∈ parseIsoBasic (text t.y t.m t.d t.h t.mi t.s),
      ns < 86400 * 1000000000 ∧ ns ≠ t.seconds * 1000000000 :=
  ⟨⟨2554, 7, 22, 0, 0, 0, by decide, by decide, by decide, by decide⟩, rfl, 1526290448384,
    by decide, by decide, by decide +kernel⟩

end NdnRs.Iso8601
