import Mathlib.Tactic

/-! The proleptic Gregorian calendar. -/

namespace LevelPgServer

structure CivilDate where
  year : Int
  month : Nat
  day : Nat
  deriving DecidableEq, Repr

namespace CivilDate

/-- The date of a day counted from 1970-01-01. The years are counted from March on, in eras of 400. -/
def ofDays (days : Int) : CivilDate :=
  let shifted := days + 719468
  let era := shifted.fdiv 146097
  let doe := (shifted - era * 146097).toNat
  let yoe := (doe - doe / 1460 + doe / 36524 - doe / 146096) / 365
  let doy := doe - (365 * yoe + yoe / 4 - yoe / 100)
  let mp := (5 * doy + 2) / 153
  let month := if mp < 10 then mp + 3 else mp - 9
  { year := yoe + era * 400 + if month ≤ 2 then 1 else 0
    month := month
    day := doy - (153 * mp + 2) / 5 + 1 }

example : ofDays 0 = ⟨1970, 1, 1⟩ ∧ ofDays 11016 = ⟨2000, 2, 29⟩ ∧ ofDays (-719528) = ⟨0, 1, 1⟩ := by decide

/-- A year that is written with four characters, the minus of a negative one included. -/
def FourPlaces (year : Int) : Prop := (1000 ≤ year ∧ year ≤ 9999) ∨ (-999 ≤ year ∧ year ≤ -100)

instance (year : Int) : Decidable (FourPlaces year) := inferInstanceAs (Decidable (_ ∨ _))

theorem length_repr_eq_iff {n k : Nat} (hk : 0 < k) : n.repr.length = k + 1 ↔ 10 ^ k ≤ n ∧ n < 10 ^ (k + 1) := by
  have hle := Nat.length_toDigits_le_iff (b := 10) (n := n) (k := k) (by decide) hk
  have hle' := Nat.length_toDigits_le_iff (b := 10) (n := n) (k := k + 1) (by decide) (Nat.succ_pos k)
  rw [← String.length_toList, Nat.toList_repr]
  omega

theorem length_toString_eq_four {year : Int} : (toString year).length = 4 ↔ FourPlaces year := by
  rw [FourPlaces]
  cases year with
  | ofNat n =>
    have htext : toString (Int.ofNat n) = n.repr := rfl
    rw [htext, length_repr_eq_iff (k := 3) (by decide)]
    simp only [Int.ofNat_eq_natCast]
    omega
  | negSucc n =>
    have htext : toString (Int.negSucc n) = "-" ++ (n + 1).repr := rfl
    have hthree := length_repr_eq_iff (n := n + 1) (k := 2) (by decide)
    have hminus : "-".length = 1 := rfl
    rw [htext, String.length_append, hminus]
    omega

def IsLeap (year : Int) : Prop := year % 4 = 0 ∧ (year % 100 ≠ 0 ∨ year % 400 = 0)

instance (year : Int) : Decidable (IsLeap year) := inferInstanceAs (Decidable (_ ∧ _))

def daysInMonth (year : Int) (month : Nat) : Nat :=
  if month = 2 then if IsLeap year then 29 else 28
  else if month ∈ [4, 6, 9, 11] then 30 else 31

theorem daysInMonth_le (year : Int) (month : Nat) : daysInMonth year month ≤ 31 := by
  rw [daysInMonth]
  split_ifs <;> omega

def Valid (d : CivilDate) : Prop := 1 ≤ d.month ∧ d.month ≤ 12 ∧ 1 ≤ d.day ∧ d.day ≤ daysInMonth d.year d.month

/-- The day on which a month starts. -/
def monthStart (year : Int) (month : Nat) : Int :=
  let y := if month ≤ 2 then year - 1 else year
  let mp : Nat := if month ≤ 2 then month + 9 else month - 3
  365 * y + y.fdiv 4 - y.fdiv 100 + y.fdiv 400 + ((153 * mp + 2) / 5 : Nat) - 719468

theorem monthStart_le {year : Int} {month : Nat} (hy : year ≤ 9999) (h : month ≤ 12) :
    monthStart year month ≤ 366 * 9999 := by
  simp only [monthStart]
  rw [Int.fdiv_eq_ediv_of_nonneg _ (by decide), Int.fdiv_eq_ediv_of_nonneg _ (by decide),
    Int.fdiv_eq_ediv_of_nonneg _ (by decide)]
  split_ifs <;> omega

theorem monthStart_le_last {year : Int} {month : Nat} (hy : year ≤ 9999) (h : month ≤ 12) :
    monthStart year month ≤ 2932866 := by
  simp only [monthStart]
  rw [Int.fdiv_eq_ediv_of_nonneg _ (by decide), Int.fdiv_eq_ediv_of_nonneg _ (by decide),
    Int.fdiv_eq_ediv_of_nonneg _ (by decide)]
  split_ifs <;> omega

/-- The year of a day lies in its era, or is the first of the next. -/
theorem year_ofDays (days : Int) :
    400 * ((days + 719468) / 146097) ≤ (ofDays days).year ∧ (ofDays days).year ≤ 400 * ((days + 719468) / 146097) + 400 := by
  simp only [ofDays]
  rw [Int.fdiv_eq_ediv_of_nonneg _ (by decide)]
  have hdoe : (days + 719468 - (days + 719468) / 146097 * 146097).toNat ≤ 146096 := by omega
  generalize (days + 719468 - (days + 719468) / 146097 * 146097).toNat = doe at *
  have hyoe : (doe - doe / 1460 + doe / 36524 - doe / 146096) / 365 ≤ 399 := by omega
  generalize (doe - doe / 1460 + doe / 36524 - doe / 146096) / 365 = yoe at *
  split_ifs <;> omega

/-- The year of an era that a day belongs to, and the day of that year; the years start in March. -/
theorem yearOfEra {c q t doy : Nat} (hc : c < 4) (hq : q < 25) (ht : t < 4) (hdoy : doy ≤ 365)
    (hleap : doy = 365 → t = 3 ∧ (q ≠ 24 ∨ c = 3)) :
    let doe := 36524 * c + 1461 * q + 365 * t + doy
    (doe - doe / 1460 + doe / 36524 - doe / 146096) / 365 = 100 * c + 4 * q + t := by
  intro doe
  have hdoe : doe = 36524 * c + 1461 * q + 365 * t + doy := rfl
  clear_value doe
  have hyear : 365 * t + doy ≤ 1460 := by omega
  have h1 : doe / 1460 = 25 * c + q ∨ doe / 1460 = 25 * c + q + 1 ∧ 1000 ≤ 365 * t + doy := by omega
  have h2 : doe / 36524 = c ∧ doe / 146096 = 0 ∨ doe = 146096 ∧ c = 3 ∧ q = 24 ∧ t = 3 := by omega
  obtain ⟨h2, h3⟩ | ⟨rfl, rfl, rfl, rfl⟩ := h2
  · rw [h2, h3]
    obtain h1 | ⟨h1, h4⟩ := h1
    · rw [h1]
      omega
    · rw [h1]
      omega
  · rfl

def ofMarch (year : Int) (doy : Nat) : CivilDate :=
  let mp := (5 * doy + 2) / 153
  let month := if mp < 10 then mp + 3 else mp - 9
  { year := year + if month ≤ 2 then 1 else 0, month := month, day := doy - (153 * mp + 2) / 5 + 1 }

theorem ofDays_eq_ofMarch (era : Int) {c q t doy : Nat} (hc : c < 4) (hq : q < 25) (ht : t < 4) (hdoy : doy ≤ 365)
    (hleap : doy = 365 → t = 3 ∧ (q ≠ 24 ∨ c = 3)) :
    ofDays (era * 146097 + (36524 * c + 1461 * q + 365 * t + doy : Nat) - 719468) =
      ofMarch (100 * c + 4 * q + t + era * 400) doy := by
  have hyoe := yearOfEra hc hq ht hdoy hleap
  dsimp only at hyoe
  have hlt : 36524 * c + 1461 * q + 365 * t + doy < 146097 := by
    by_cases h : doy = 365
    · have := hleap h
      omega
    · omega
  generalize hdoe : 36524 * c + 1461 * q + 365 * t + doy = doe at *
  have hera : (era * 146097 + (doe : Int) - 719468 + 719468).fdiv 146097 = era := by
    rw [Int.fdiv_eq_ediv_of_nonneg _ (by omega)]
    omega
  have hrest : (era * 146097 + (doe : Int) - 719468 + 719468 - era * 146097).toNat = doe := by omega
  have hquarter : (100 * c + 4 * q + t) / 4 = 25 * c + q := by omega
  have hhundred : (100 * c + 4 * q + t) / 100 = c := by omega
  have hday : doe - (365 * (100 * c + 4 * q + t) + (25 * c + q) - c) = doy := by omega
  simp only [ofDays, ofMarch, hera, hrest, hyoe, hquarter, hhundred, hday]
  congr 2

theorem exists_era (days : Int) :
    ∃ (era : Int) (c q t doy : Nat), c < 4 ∧ q < 25 ∧ t < 4 ∧ doy ≤ 365 ∧ (doy = 365 → t = 3 ∧ (q ≠ 24 ∨ c = 3)) ∧
      days = era * 146097 + (36524 * c + 1461 * q + 365 * t + doy : Nat) - 719468 := by
  obtain ⟨doe, hdoe⟩ : ∃ doe : Nat, (doe : Int) = (days + 719468) % 146097 := ⟨_, Int.toNat_of_nonneg (by omega)⟩
  have hlast : doe = 146096 ∨ doe < 146096 := by omega
  obtain rfl | hlt := hlast
  · exact ⟨(days + 719468) / 146097, 3, 24, 3, 365, by omega, by omega, by omega, by omega, by omega, by omega⟩
  · have hrest : doe % 36524 % 1461 = 1460 ∨ doe % 36524 % 1461 < 1460 := by omega
    obtain hrest | hrest := hrest
    · refine ⟨(days + 719468) / 146097, doe / 36524, doe % 36524 / 1461, 3, 365, by omega, by omega, by omega,
        by omega, by omega, by omega⟩
    · refine ⟨(days + 719468) / 146097, doe / 36524, doe % 36524 / 1461, doe % 36524 % 1461 / 365,
        doe % 36524 % 1461 % 365, by omega, by omega, by omega, by omega, by omega, by omega⟩

theorem ofMarch_valid {year : Int} {doy : Nat} (hdoy : doy ≤ 365) (hleap : doy = 365 → IsLeap (year + 1)) :
    (ofMarch year doy).Valid := by
  obtain ⟨mp, hmp⟩ : ∃ mp, mp = (5 * doy + 2) / 153 := ⟨_, rfl⟩
  have hle : mp ≤ 11 := by omega
  simp only [Valid, ofMarch, ← hmp]
  interval_cases mp <;> simp [daysInMonth] <;> try omega
  split
  · omega
  · next h =>
    have : doy ≠ 365 := fun he => h (hleap he)
    omega

/-- The day `k` of a month. -/
theorem ofMarch_month (year : Int) {mp k : Nat} (hmp : mp ≤ 11)
    (hk : k < daysInMonth (year + if 10 ≤ mp then 1 else 0) (if mp < 10 then mp + 3 else mp - 9)) :
    ofMarch year ((153 * mp + 2) / 5 + k) =
      ⟨year + if 10 ≤ mp then 1 else 0, if mp < 10 then mp + 3 else mp - 9, k + 1⟩ := by
  have hk' : k < if mp = 11 then 29 else if mp ∈ [1, 3, 6, 8] then 30 else 31 := by
    refine lt_of_lt_of_le hk ?_
    interval_cases mp <;> simp [daysInMonth]
    split <;> omega
  have hmonth : (5 * ((153 * mp + 2) / 5 + k) + 2) / 153 = mp := by
    interval_cases mp <;> simp at hk' <;> omega
  simp only [ofMarch, hmonth]
  congr 1
  · interval_cases mp <;> rfl
  · omega

theorem ofDays_valid (days : Int) : (ofDays days).Valid := by
  obtain ⟨era, c, q, t, doy, hc, hq, ht, hdoy, hleap, rfl⟩ := exists_era days
  rw [ofDays_eq_ofMarch era hc hq ht hdoy hleap]
  refine ofMarch_valid hdoy fun h => ?_
  obtain ⟨rfl, h⟩ := hleap h
  simp only [IsLeap]
  omega

theorem ofDays_monthStart {year : Int} {month k : Nat} (hm : 1 ≤ month) (hm' : month ≤ 12)
    (hk : k < daysInMonth year month) : ofDays (monthStart year month + k) = ⟨year, month, k + 1⟩ := by
  obtain ⟨mp, hmp⟩ : ∃ mp, mp = if month ≤ 2 then month + 9 else month - 3 := ⟨_, rfl⟩
  obtain ⟨y, hy⟩ : ∃ y, y = if month ≤ 2 then year - 1 else year := ⟨_, rfl⟩
  have hmonth : month = if mp < 10 then mp + 3 else mp - 9 := by
    split_ifs at hmp ⊢ <;> omega
  have hyear : year = y + if 10 ≤ mp then 1 else 0 := by
    split_ifs at hmp hy ⊢ <;> omega
  have hle : mp ≤ 11 := by
    split_ifs at hmp <;> omega
  obtain ⟨era, c, q, t, hc, hq, ht, hparts⟩ : ∃ (era : Int) (c q t : Nat), c < 4 ∧ q < 25 ∧ t < 4 ∧
      y = 100 * c + 4 * q + t + era * 400 := by
    refine ⟨y / 400, (y % 400).toNat / 100, (y % 400).toNat % 100 / 4, (y % 400).toNat % 4, ?_, ?_, ?_, ?_⟩ <;> omega
  have hk' : k < if mp = 11 then if IsLeap (y + 1) then 29 else 28 else if mp ∈ [1, 3, 6, 8] then 30 else 31 := by
    refine lt_of_lt_of_le hk ?_
    rw [hyear, hmonth]
    interval_cases mp <;> simp [daysInMonth]
  have hdoy : (153 * mp + 2) / 5 + k ≤ 365 := by
    have : k < if mp = 11 then 29 else if mp ∈ [1, 3, 6, 8] then 30 else 31 := by
      split_ifs at hk' ⊢ <;> omega
    interval_cases mp <;> simp at this <;> omega
  have hleap : (153 * mp + 2) / 5 + k = 365 → t = 3 ∧ (q ≠ 24 ∨ c = 3) := by
    intro h
    have hlast : mp = 11 ∧ k = 28 := by
      interval_cases mp <;> simp at hk' <;> omega
    obtain ⟨rfl, rfl⟩ := hlast
    have hl : IsLeap (y + 1) := by
      by_contra hl
      simp [hl] at hk'
    simp only [IsLeap] at hl
    omega
  have hstart : monthStart year month + k =
      era * 146097 + (36524 * c + 1461 * q + 365 * t + ((153 * mp + 2) / 5 + k) : Nat) - 719468 := by
    simp only [monthStart, ← hmp, ← hy]
    rw [Int.fdiv_eq_ediv_of_nonneg _ (by decide), Int.fdiv_eq_ediv_of_nonneg _ (by decide),
      Int.fdiv_eq_ediv_of_nonneg _ (by decide)]
    omega
  rw [hstart, ofDays_eq_ofMarch era hc hq ht hdoy hleap, ← hparts, ofMarch_month y hle (by rwa [← hyear, ← hmonth]),
    ← hyear, ← hmonth]

end CivilDate

end LevelPgServer
