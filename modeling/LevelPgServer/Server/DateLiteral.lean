import LevelPgServer.Common.ParseTime
import LevelPgServer.Execution.DataRow
import LevelPgServer.Server.ErrorMessage
import LevelPgServer.Server.RowFrame
import Mathlib.Data.List.TakeWhile

namespace LevelPgServer

open Regex ParseNode DBDataTypeHandler ExceptRules ByteOrder ExecutionResult
open SqlParser (isDigit datePattern timePattern seqs lit digit)

def Conversions.calendar (conv : Conversions) : Conversions :=
  { conv with parseTime := ParseTime.parseTime, parseTime_lt := ParseTime.parseTime_lt }

namespace ParseTime

/-- A date, or a date with a time of day, as it stands in the quotes of a literal. -/
def IsLiteral (s : Bytes) : Prop := Matches datePattern s ∨ Matches (seqs [datePattern, lit " ", timePattern]) s

/-- The numbers of a literal; those of a time of day that is not there are zero. -/
structure Fields where
  year : Nat
  month : Nat
  day : Nat
  hour : Nat := 0
  minute : Nat := 0
  second : Nat := 0
  deriving DecidableEq, Repr

def fieldsOf (s : Bytes) : Fields where
  year := decimal (s.take 4)
  month := decimal ((s.drop 5).take 2)
  day := decimal ((s.drop 8).take 2)
  hour := decimal ((s.drop 11).take 2)
  minute := decimal ((s.drop 14).take 2)
  second := decimal ((s.drop 17).take 2)

namespace Fields

def IsTime (f : Fields) : Prop :=
  CivilDate.Valid ⟨f.year, f.month, f.day⟩ ∧ f.hour < 24 ∧ f.minute < 60 ∧ f.second < 60

/-- The fields before the first one that is out of its range; the rest are those of an empty `std::tm`. -/
def read (f : Fields) : Fields :=
  if f.month < 1 ∨ 12 < f.month then ⟨f.year, 1, 0, 0, 0, 0⟩
  else if f.day < 1 ∨ 31 < f.day then ⟨f.year, f.month, 0, 0, 0, 0⟩
  else if 23 < f.hour then ⟨f.year, f.month, f.day, 0, 0, 0⟩
  else if 59 < f.minute then ⟨f.year, f.month, f.day, f.hour, 0, 0⟩
  else if 60 < f.second then ⟨f.year, f.month, f.day, f.hour, f.minute, 0⟩
  else f

/-- Not after the first second of 1970. -/
def Early (f : Fields) : Prop :=
  f.year < 1970 ∨ f.year = 1970 ∧ f.month = 1 ∧
    (f.day = 0 ∨ f.day = 1 ∧ f.hour = 0 ∧ f.minute = 0 ∧ f.second = 0)

def toTm (f : Fields) : Tm := ⟨f.year - 1900, f.month - 1, f.day, f.hour, f.minute, f.second⟩

structure InRange (f : Fields) : Prop where
  month : 1 ≤ f.month ∧ f.month ≤ 12
  day : f.day ≤ 31
  hour : f.hour ≤ 23
  minute : f.minute ≤ 59
  second : f.second ≤ 60

theorem IsTime.inRange {f : Fields} (h : f.IsTime) : 1 ≤ f.day ∧ f.InRange := by
  obtain ⟨⟨h1, h2, h3, h4⟩, h5, h6, h7⟩ := h
  have hle := CivilDate.daysInMonth_le f.year f.month
  dsimp only at h1 h2 h3 h4
  exact ⟨h3, ⟨h1, h2⟩, by omega, by omega, by omega, by omega⟩

theorem read_of_inRange {f : Fields} (hd : 1 ≤ f.day) (h : f.InRange) : f.read = f := by
  obtain ⟨⟨h1, h2⟩, h3, h4, h5, h6⟩ := h
  rw [read, if_neg (by omega), if_neg (by omega), if_neg (by omega), if_neg (by omega), if_neg (by omega)]

theorem timegm_toTm {f : Fields} (h : f.InRange) :
    timegm f.toTm = 86400 * (CivilDate.monthStart f.year f.month + ((f.day : Int) - 1)) +
      (3600 * f.hour + 60 * f.minute + f.second) := by
  obtain ⟨h1, h2⟩ := h.month
  have hmonth : (((f.month : Int) - 1) % 12 + 1).toNat = f.month := by omega
  have hyear : (1900 + ((f.year : Int) - 1900) + ((f.month : Int) - 1) / 12) = f.year := by omega
  simp only [timegm, toTm, hmonth, hyear]
  ring

/-- What a conversion lets through is accepted when it is after the first second of 1970. -/
theorem timegm_le_iff {f : Fields} (h : f.InRange) : timegm f.toTm ≤ 0 ↔ f.Early := by
  rw [timegm_toTm h]
  obtain ⟨⟨h1, h2⟩, h3, h4, h5, h6⟩ := h
  obtain ⟨y, hy⟩ : ∃ y : Int, y = f.year := ⟨_, rfl⟩
  have hstart : (f.year < 1970 → CivilDate.monthStart f.year f.month + f.day ≤ 0) ∧
      (f.year = 1970 ∧ f.month = 1 → CivilDate.monthStart f.year f.month = 0) ∧
      (1970 ≤ f.year ∧ (1970 < f.year ∨ 1 < f.month) → 31 ≤ CivilDate.monthStart f.year f.month) := by
    simp only [CivilDate.monthStart]
    rw [Int.fdiv_eq_ediv_of_nonneg _ (by decide), Int.fdiv_eq_ediv_of_nonneg _ (by decide),
      Int.fdiv_eq_ediv_of_nonneg _ (by decide)]
    refine ⟨fun h => ?_, fun h => ?_, fun h => ?_⟩
    · split_ifs <;> omega
    · split_ifs <;> omega
    · split_ifs <;> omega
  rw [Early]
  omega

/-- The fields of a `std::tm`, counted as they are written. -/
def ofTm (time : Tm) : Fields :=
  ⟨(time.year + 1900).toNat, (time.mon + 1).toNat, time.mday.toNat, time.hour.toNat, time.min.toNat, time.sec.toNat⟩

@[simp] theorem ofTm_toTm (f : Fields) : ofTm f.toTm = f := by
  simp [ofTm, toTm]

theorem toTm_ofTm {time : Tm} (h : Bounded time) :
    (ofTm time).toTm = time ∧ (ofTm time).InRange ∧ (ofTm time).year ≤ 9999 := by
  obtain ⟨⟨h1, h2⟩, ⟨h3, h4⟩, ⟨h5, h6⟩, ⟨h7, h8⟩, ⟨h9, h10⟩, ⟨h11, h12⟩⟩ := h
  have hm : ∀ n : Int, 0 ≤ n → (n.toNat : Int) = n := fun n hn => Int.toNat_of_nonneg hn
  refine ⟨?_, ⟨?_, ?_, ?_, ?_, ?_⟩, ?_⟩
  · rw [toTm, ofTm]
    dsimp only
    rw [hm _ (by omega), hm _ (by omega), hm _ h5, hm _ h7, hm _ h9, hm _ h11, add_sub_cancel_right,
      add_sub_cancel_right]
  all_goals
    simp only [ofTm]
    omega

end Fields

/-- What `std::get_time` reads of a text before it stops; the rest are the fields of an empty `std::tm`. -/
def readFields (s : Bytes) : Fields :=
  .ofTm (getTime (if s.length < 19 then dateFormat else dateTimeFormat) (skipSpace s) {})

theorem readFields_inRange (s : Bytes) : (readFields s).InRange ∧ (readFields s).year ≤ 9999 :=
  (Fields.toTm_ofTm (bounded_empty.getTime _)).2

theorem parseTime_eq {s : Bytes} (h : 10 ≤ s.length) :
    parseTime s = if timegm (readFields s).toTm = -1 then 0 else timegm (readFields s).toTm := by
  rw [parseTime, if_neg (by omega), readFields, (Fields.toTm_ofTm (bounded_empty.getTime _)).1]

/-- A text fails where it is too short or what is read of it is not after the first second of 1970. -/
theorem parseTime_le_iff (s : Bytes) : parseTime s ≤ 0 ↔ s.length < 10 ∨ (readFields s).Early := by
  by_cases h : s.length < 10
  · rw [parseTime, if_pos h]
    exact iff_of_true le_rfl (.inl h)
  · rw [or_iff_right h, ← Fields.timegm_le_iff (readFields_inRange s).1, parseTime_eq (by omega)]
    split <;> omega

section Text

/-- `n` decimal digits. -/
def Digits (n : Nat) (s : Bytes) : Prop := s.length = n ∧ s.all isDigit = true

theorem isDigit_iff {c : UInt8} : isDigit c = true ↔ 48 ≤ c.toNat ∧ c.toNat ≤ 57 := by
  simp [isDigit, UInt8.le_iff_toNat_le]

theorem digits_two {s : Bytes} (h : Digits 2 s) : ∃ a b, s = [a, b] ∧ isDigit a = true ∧ isDigit b = true := by
  obtain ⟨hlen, hall⟩ := h
  obtain ⟨a, b, rfl⟩ := List.length_eq_two.mp hlen
  simp only [List.all_cons, List.all_nil, Bool.and_true, Bool.and_eq_true] at hall
  exact ⟨a, b, rfl, hall.1, hall.2⟩

theorem twoDigits_decimal {s : Bytes} (h : Digits 2 s) : twoDigits (decimal s) = s := by
  obtain ⟨a, b, rfl, ha, hb⟩ := digits_two h
  rw [isDigit_iff] at ha hb
  simp only [twoDigits, decimal, List.foldl, List.cons.injEq, and_true]
  refine ⟨UInt8.toNat_inj.mp ?_, UInt8.toNat_inj.mp ?_⟩
  · rw [UInt8.toNat_ofNat']
    omega
  · rw [UInt8.toNat_ofNat']
    omega

theorem decimal_twoDigits (n : Nat) : decimal (twoDigits n) = n % 100 := by
  simp only [twoDigits, decimal, List.foldl, UInt8.toNat_ofNat']
  omega

theorem digits_twoDigits (n : Nat) : Digits 2 (twoDigits n) := by
  refine ⟨rfl, ?_⟩
  simp only [twoDigits, List.all_cons, List.all_nil, Bool.and_true, Bool.and_eq_true, isDigit_iff, UInt8.toNat_ofNat']
  omega

theorem digits_four {s : Bytes} (h : Digits 4 s) : ∃ u v, s = u ++ v ∧ Digits 2 u ∧ Digits 2 v := by
  obtain ⟨hlen, hall⟩ := h
  refine ⟨s.take 2, s.drop 2, (List.take_append_drop 2 s).symm, ⟨by simp [hlen], ?_⟩, ⟨by simp [hlen], ?_⟩⟩
  · exact List.all_eq_true.mpr fun c hc => List.all_eq_true.mp hall c (List.mem_of_mem_take hc)
  · exact List.all_eq_true.mpr fun c hc => List.all_eq_true.mp hall c (List.mem_of_mem_drop hc)

theorem decimal_append_two {u v : Bytes} (hv : Digits 2 v) : decimal (u ++ v) = 100 * decimal u + decimal v := by
  obtain ⟨a, b, rfl, -, -⟩ := digits_two hv
  simp only [decimal, List.foldl_append, List.foldl]
  omega

theorem decimal_lt_hundred {s : Bytes} (h : Digits 2 s) : decimal s < 100 := by
  obtain ⟨a, b, rfl, ha, hb⟩ := digits_two h
  rw [isDigit_iff] at ha hb
  simp only [decimal, List.foldl]
  omega

theorem intText_year {n : Nat} (h : 1000 ≤ n) (h' : n ≤ 9999) :
    PostgresProtocol.intText n = twoDigits (n / 100) ++ twoDigits n := by
  have hchar : ∀ d < 10, UInt8.ofNat (Nat.digitChar d).toNat = UInt8.ofNat (48 + d) := by decide
  rw [PostgresProtocol.intText_natCast, Nat.toDigits_eq_if (by decide), if_neg (by omega),
    Nat.toDigits_eq_if (by decide), if_neg (by omega), Nat.toDigits_eq_if (by decide), if_neg (by omega),
    Nat.toDigits_eq_if (by decide), if_pos (by omega)]
  simp only [List.map_append, List.map_cons, List.map_nil, twoDigits]
  rw [hchar _ (by omega), hchar _ (by omega), hchar _ (by omega), hchar _ (by omega)]
  simp only [List.cons_append, List.nil_append, List.cons.injEq, and_true]
  exact ⟨congrArg _ (by omega), congrArg _ (by omega)⟩

theorem intText_decimal {s : Bytes} (h : Digits 4 s) (hle : 1000 ≤ decimal s) :
    PostgresProtocol.intText (decimal s) = s ∧ decimal s ≤ 9999 := by
  obtain ⟨u, v, rfl, hu, hv⟩ := digits_four h
  have hlt := decimal_lt_hundred hu
  have hlt' := decimal_lt_hundred hv
  rw [decimal_append_two hv] at hle ⊢
  have hle' : 100 * decimal u + decimal v ≤ 9999 := by omega
  rw [intText_year hle hle', show (100 * decimal u + decimal v) / 100 = decimal u by omega]
  refine ⟨?_, hle'⟩
  have hlow : twoDigits (100 * decimal u + decimal v) = twoDigits (decimal v) := by
    simp only [twoDigits, List.cons.injEq, and_true]
    refine ⟨congrArg _ ?_, congrArg _ ?_⟩ <;> omega
  rw [hlow, twoDigits_decimal hu, twoDigits_decimal hv]

theorem toNat_toLower (a : UInt8) :
    (Tools.toLower a).toNat = if 65 ≤ a.toNat ∧ a.toNat ≤ 90 then a.toNat + 32 else a.toNat := by
  rw [Tools.toLower]
  simp only [UInt8.le_iff_toNat_le, UInt8.reduceToNat]
  by_cases h : 65 ≤ a.toNat ∧ a.toNat ≤ 90
  · rw [if_pos h, if_pos h, UInt8.toNat_add]
    simp only [UInt8.reduceToNat]
    omega
  · rw [if_neg h, if_neg h]

theorem toLower_eq_iff {a c : UInt8} (hc : c.toNat < 65) : Tools.toLower a = c ↔ a = c := by
  rw [← UInt8.toNat_inj, toNat_toLower, ← UInt8.toNat_inj]
  split_ifs <;> omega

theorem matches_digit {s : Bytes} : Matches digit s ↔ Digits 1 s := by
  have hlower : ∀ c : UInt8, (isDigit c || isDigit (Tools.toLower c)) = isDigit c := by
    intro c
    rw [Bool.eq_iff_iff, Bool.or_eq_true, isDigit_iff, isDigit_iff, toNat_toLower]
    split_ifs <;> omega
  rw [digit, SqlParser.letter, matches_one, Digits, List.length_eq_one_iff]
  constructor
  · rintro ⟨c, rfl, h⟩
    rw [hlower] at h
    exact ⟨⟨c, rfl⟩, by simp [h]⟩
  · rintro ⟨⟨c, rfl⟩, h⟩
    exact ⟨c, rfl, by rw [hlower]; simpa using h⟩

theorem Digits.append {m n : Nat} {s t : Bytes} (hs : Digits m s) (ht : Digits n t) : Digits (m + n) (s ++ t) :=
  ⟨by rw [List.length_append, hs.1, ht.1], by rw [List.all_append, hs.2, ht.2]; rfl⟩

theorem matches_two {s : Bytes} (h : Matches (digit.times 2) s) : Digits 2 s := by
  obtain ⟨y, z, rfl, hy, hz⟩ := matches_seq.mp h
  exact (matches_digit.mp hy).append (matches_digit.mp hz)

theorem matches_four {s : Bytes} (h : Matches (digit.times 4) s) : Digits 4 s := by
  obtain ⟨a, s, rfl, ha, h⟩ := matches_seq.mp h
  obtain ⟨b, s, rfl, hb, h⟩ := matches_seq.mp h
  exact (matches_digit.mp ha).append ((matches_digit.mp hb).append (matches_two h))

theorem matches_chr {c : UInt8} (hc : c.toNat < 65) {s : Bytes} (h : Matches (SqlParser.chr c) s) : s = [c] := by
  rw [SqlParser.chr, SqlParser.letter, matches_one] at h
  obtain ⟨a, rfl, ha⟩ := h
  rw [(toLower_eq_iff hc).mpr rfl, Bool.or_eq_true, beq_iff_eq, beq_iff_eq, toLower_eq_iff hc, or_self] at ha
  rw [ha]

theorem matches_pairs {c : UInt8} (hc : c.toNat < 65) {s : Bytes}
    (h : Matches ((Regex.seq (SqlParser.chr c) (digit.times 2)).times 2) s) :
    ∃ u v, s = c :: u ++ c :: v ∧ Digits 2 u ∧ Digits 2 v := by
  obtain ⟨s, t, rfl, hs, ht⟩ := matches_seq.mp h
  obtain ⟨x, u, rfl, hx, hu⟩ := matches_seq.mp hs
  obtain ⟨y, v, rfl, hy, hv⟩ := matches_seq.mp ht
  obtain rfl := matches_chr hc hx
  obtain rfl := matches_chr hc hy
  exact ⟨u, v, rfl, matches_two hu, matches_two hv⟩

theorem matches_date {s : Bytes} (h : Matches datePattern s) :
    ∃ y m d, s = y ++ 45 :: m ++ 45 :: d ∧ Digits 4 y ∧ Digits 2 m ∧ Digits 2 d := by
  obtain ⟨y, t, rfl, hy, ht⟩ := matches_seq.mp h
  obtain ⟨m, d, rfl, hm, hd⟩ := @matches_pairs 45 (by decide) t ht
  exact ⟨y, m, d, by simp, matches_four hy, hm, hd⟩

theorem matches_time {s : Bytes} (h : Matches timePattern s) :
    ∃ hr mi sec, s = hr ++ 58 :: mi ++ 58 :: sec ∧ Digits 2 hr ∧ Digits 2 mi ∧ Digits 2 sec := by
  obtain ⟨y, t, rfl, hy, ht⟩ := matches_seq.mp h
  obtain ⟨m, d, rfl, hm, hd⟩ := @matches_pairs 58 (by decide) t ht
  exact ⟨y, m, d, by simp, matches_two hy, hm, hd⟩

/-- A literal is a date that is followed by nothing, or by a blank and a time of day. -/
theorem literal_parts {s : Bytes} (h : IsLiteral s) :
    ∃ y m d, Digits 4 y ∧ Digits 2 m ∧ Digits 2 d ∧ (s = y ++ 45 :: m ++ 45 :: d ∨
      ∃ hr mi sec, Digits 2 hr ∧ Digits 2 mi ∧ Digits 2 sec ∧
        s = y ++ 45 :: m ++ 45 :: d ++ 32 :: hr ++ 58 :: mi ++ 58 :: sec) := by
  obtain h | h := h
  · obtain ⟨y, m, d, rfl, hy, hm, hd⟩ := matches_date h
    exact ⟨y, m, d, hy, hm, hd, .inl rfl⟩
  · obtain ⟨s, t, rfl, hs, ht⟩ := matches_seq.mp h
    obtain ⟨x, t, rfl, hx, ht⟩ := matches_seq.mp ht
    obtain ⟨y, m, d, rfl, hy, hm, hd⟩ := matches_date hs
    obtain ⟨hr, mi, sec, rfl, hh, hmi, hsec⟩ := matches_time ht
    obtain rfl : x = [32] := matches_chr (by decide) hx
    exact ⟨y, m, d, hy, hm, hd, .inr ⟨hr, mi, sec, hh, hmi, hsec, by simp⟩⟩

theorem matches_two_digits {s : Bytes} (h : Digits 2 s) : Matches (digit.times 2) s := by
  obtain ⟨a, b, rfl, ha, hb⟩ := digits_two h
  exact matches_seq.mpr ⟨[a], [b], rfl, matches_digit.mpr ⟨rfl, by simp [ha]⟩, matches_digit.mpr ⟨rfl, by simp [hb]⟩⟩

theorem matches_four_digits {s : Bytes} (h : Digits 4 s) : Matches (digit.times 4) s := by
  obtain ⟨u, v, rfl, hu, hv⟩ := digits_four h
  obtain ⟨a, b, rfl, ha, hb⟩ := digits_two hu
  exact matches_seq.mpr ⟨[a], b :: v, rfl, matches_digit.mpr ⟨rfl, by simp [ha]⟩, matches_seq.mpr
    ⟨[b], v, rfl, matches_digit.mpr ⟨rfl, by simp [hb]⟩, matches_two_digits hv⟩⟩

theorem matches_chr_self (c : UInt8) : Matches (SqlParser.chr c) [c] := by
  rw [SqlParser.chr, SqlParser.letter, matches_one]
  exact ⟨c, rfl, by simp⟩

theorem matches_two_pairs {c : UInt8} {u v : Bytes} (hu : Digits 2 u) (hv : Digits 2 v) :
    Matches ((Regex.seq (SqlParser.chr c) (digit.times 2)).times 2) (c :: u ++ c :: v) :=
  matches_seq.mpr ⟨c :: u, c :: v, rfl, matches_seq.mpr ⟨[c], u, rfl, matches_chr_self c, matches_two_digits hu⟩,
    matches_seq.mpr ⟨[c], v, rfl, matches_chr_self c, matches_two_digits hv⟩⟩

theorem isLiteral_date {y m d : Bytes} (hy : Digits 4 y) (hm : Digits 2 m) (hd : Digits 2 d) :
    Matches datePattern (y ++ 45 :: m ++ 45 :: d) :=
  matches_seq.mpr ⟨y, 45 :: m ++ 45 :: d, by simp, matches_four_digits hy, matches_two_pairs hm hd⟩

theorem isLiteral_time {hr mi sec : Bytes} (hh : Digits 2 hr) (hmi : Digits 2 mi) (hs : Digits 2 sec) :
    Matches timePattern (hr ++ 58 :: mi ++ 58 :: sec) :=
  matches_seq.mpr ⟨hr, 58 :: mi ++ 58 :: sec, by simp, matches_two_digits hh, matches_two_pairs hmi hs⟩

end Text

section Read

theorem getNumber_digits {n : Nat} {ds : Bytes} (h : Digits n ds) (hn : n ≠ 0) (lo hi : Nat) (rest : Bytes) :
    getNumber lo hi n (ds ++ rest) =
      if lo ≤ decimal ds ∧ decimal ds ≤ hi then some (decimal ds, rest) else none := by
  have htake : ((ds ++ rest).take n).takeWhile isDigit = ds := by
    rw [List.take_left' h.1]
    exact List.takeWhile_eq_self_iff.mpr (List.all_eq_true.mp h.2)
  have hne : ds ≠ [] := by
    rintro rfl
    exact hn h.1.symm
  rw [getNumber]
  simp only [htake, ne_eq, hne, not_false_eq_true, true_and, List.drop_left]

theorem getTime_char (c : UInt8) (items : List Item) (s : Bytes) (time : Tm) :
    getTime (.char c :: items) (c :: s) time = getTime items s time := by
  simp [getTime, Item.read]

/-- A conversion with the range of its field: it goes on, or it leaves the fields as they are. -/
theorem getTime_number {item : Item} {lo hi n : Nat} {set : Tm → Nat → Tm}
    (hitem : ∀ s time, item.read s time = (getNumber lo hi n s).map fun r => (set time r.1, r.2)) (hn : n ≠ 0)
    {ds : Bytes} (h : Digits n ds) (items : List Item) (rest : Bytes) (time : Tm) :
    getTime (item :: items) (ds ++ rest) time =
      if lo ≤ decimal ds ∧ decimal ds ≤ hi then getTime items rest (set time (decimal ds)) else time := by
  rw [getTime, hitem, getNumber_digits h hn]
  by_cases hr : lo ≤ decimal ds ∧ decimal ds ≤ hi
  · rw [if_pos hr, if_pos hr]
    rfl
  · rw [if_neg hr, if_neg hr]
    rfl

theorem decimal_le_four {s : Bytes} (h : Digits 4 s) : decimal s ≤ 9999 := by
  obtain ⟨u, v, rfl, hu, hv⟩ := digits_four h
  have hlt := decimal_lt_hundred hu
  have hlt' := decimal_lt_hundred hv
  rw [decimal_append_two hv]
  omega

theorem getTime_date {y m d : Bytes} (hy : Digits 4 y) (hm : Digits 2 m) (hd : Digits 2 d) (items : List Item)
    (rest : Bytes) :
    getTime (dateFormat ++ items) (y ++ 45 :: m ++ 45 :: d ++ rest) {} =
      if decimal m < 1 ∨ 12 < decimal m then { year := decimal y - 1900 }
      else if decimal d < 1 ∨ 31 < decimal d then { year := decimal y - 1900, mon := decimal m - 1 }
      else getTime items rest { year := decimal y - 1900, mon := decimal m - 1, mday := decimal d } := by
  have hyle := decimal_le_four hy
  simp only [dateFormat, List.cons_append, List.nil_append, List.append_assoc]
  rw [@getTime_number .year 0 9999 4 (fun time n => { time with year := n - 1900 }) (fun _ _ => rfl) (by decide) _ hy,
    if_pos ⟨Nat.zero_le _, hyle⟩, getTime_char,
    @getTime_number .month 1 12 2 (fun time n => { time with mon := n - 1 }) (fun _ _ => rfl) (by decide) _ hm]
  by_cases h1 : decimal m < 1 ∨ 12 < decimal m
  · rw [if_pos h1, if_neg (by omega)]
  · rw [if_neg h1, if_pos (by omega), getTime_char,
      @getTime_number .day 1 31 2 (fun time n => { time with mday := n }) (fun _ _ => rfl) (by decide) _ hd]
    by_cases h2 : decimal d < 1 ∨ 31 < decimal d
    · rw [if_pos h2, if_neg (by omega)]
    · rw [if_neg h2, if_pos (by omega)]

theorem not_isSpace {c : UInt8} (h : isDigit c = true) : SqlParser.isSpace c = false := by
  rw [isDigit_iff] at h
  simp [SqlParser.isSpace, UInt8.le_iff_toNat_le, ← UInt8.toNat_inj]
  omega

theorem getTime_clock {hr mi sec : Bytes} (hh : Digits 2 hr) (hm : Digits 2 mi) (hs : Digits 2 sec) (time : Tm) :
    getTime [.space, .hour, .char 58, .minute, .char 58, .second] (32 :: hr ++ 58 :: mi ++ 58 :: sec) time =
      if 23 < decimal hr then time
      else if 59 < decimal mi then { time with hour := decimal hr }
      else if 60 < decimal sec then { time with hour := decimal hr, min := decimal mi }
      else { time with hour := decimal hr, min := decimal mi, sec := decimal sec } := by
  have hblank : getTime [.space, .hour, .char 58, .minute, .char 58, .second] (32 :: hr ++ 58 :: mi ++ 58 :: sec) time =
      getTime [.hour, .char 58, .minute, .char 58, .second] (hr ++ (58 :: mi ++ 58 :: sec)) time := by
    obtain ⟨a, b, rfl, ha, -⟩ := digits_two hh
    simp [getTime, Item.read, show SqlParser.isSpace 32 = true from rfl, not_isSpace ha]
  rw [hblank, @getTime_number .hour 0 23 2 (fun time n => { time with hour := n }) (fun _ _ => rfl) (by decide) _ hh]
  by_cases h1 : 23 < decimal hr
  · rw [if_pos h1, if_neg (by omega)]
  · rw [if_neg h1, if_pos (by omega), List.cons_append, getTime_char,
      @getTime_number .minute 0 59 2 (fun time n => { time with min := n }) (fun _ _ => rfl) (by decide) _ hm]
    by_cases h2 : 59 < decimal mi
    · rw [if_pos h2, if_neg (by omega)]
    · have hlast := @getTime_number .second 0 60 2 (fun time n => { time with sec := n }) (fun _ _ => rfl)
        (by decide) _ hs [] []
      rw [List.append_nil] at hlast
      rw [if_neg h2, if_pos (by omega), getTime_char, hlast]
      by_cases h3 : 60 < decimal sec
      · rw [if_pos h3, if_neg (by omega)]
      · rw [if_neg h3, if_pos (by omega)]
        rfl

def fullText (s : Bytes) : Bytes := if s.length = 10 then s ++ bytes " 00:00:00" else s

/-- What is known of a literal: its text with the time of day, and the time that is read from it. -/
structure Parts (s y m d hr mi sec : Bytes) : Prop where
  year : Digits 4 y
  month : Digits 2 m
  day : Digits 2 d
  hour : Digits 2 hr
  minute : Digits 2 mi
  second : Digits 2 sec
  full : fullText s = y ++ 45 :: m ++ 45 :: d ++ 32 :: hr ++ 58 :: mi ++ 58 :: sec
  fields : fieldsOf s = ⟨decimal y, decimal m, decimal d, decimal hr, decimal mi, decimal sec⟩
  read : readFields s = (fieldsOf s).read

theorem fieldsOf_date {y m d : Bytes} (hy : Digits 4 y) (hm : Digits 2 m) (hd : Digits 2 d) (rest : Bytes) :
    fieldsOf (y ++ 45 :: m ++ 45 :: d ++ rest) =
      ⟨decimal y, decimal m, decimal d, decimal ((rest.drop 1).take 2), decimal ((rest.drop 4).take 2),
        decimal ((rest.drop 7).take 2)⟩ := by
  obtain ⟨u, v, rfl, hu, hv⟩ := digits_four hy
  obtain ⟨a, b, rfl, -, -⟩ := digits_two hu
  obtain ⟨a, b, rfl, -, -⟩ := digits_two hv
  obtain ⟨a, b, rfl, -, -⟩ := digits_two hm
  obtain ⟨a, b, rfl, -, -⟩ := digits_two hd
  rfl

theorem read_time (y m d hr mi sec : Nat) :
    (Fields.read ⟨y, m, d, hr, mi, sec⟩).toTm =
      if m < 1 ∨ 12 < m then { year := y - 1900 }
      else if d < 1 ∨ 31 < d then { year := y - 1900, mon := m - 1 }
      else if 23 < hr then { year := y - 1900, mon := m - 1, mday := d }
      else if 59 < mi then { year := y - 1900, mon := m - 1, mday := d, hour := hr }
      else if 60 < sec then { year := y - 1900, mon := m - 1, mday := d, hour := hr, min := mi }
      else { year := y - 1900, mon := m - 1, mday := d, hour := hr, min := mi, sec := sec } := by
  rw [Fields.read]
  split_ifs <;> rfl

theorem skipSpace_date {y m d : Bytes} (hy : Digits 4 y) (rest : Bytes) :
    skipSpace (y ++ 45 :: m ++ 45 :: d ++ rest) = y ++ 45 :: m ++ 45 :: d ++ rest := by
  obtain ⟨u, v, rfl, hu, -⟩ := digits_four hy
  obtain ⟨a, b, rfl, ha, -⟩ := digits_two hu
  simp only [skipSpace, List.append_assoc, List.cons_append]
  rw [List.dropWhile_cons_of_neg (by simp [not_isSpace ha])]

theorem readFields_eq {s : Bytes} {format : List Item} {f : Fields}
    (hformat : (if s.length < 19 then dateFormat else dateTimeFormat) = format)
    (htime : getTime format (skipSpace s) {} = f.toTm) : readFields s = f := by
  rw [readFields, hformat, htime, Fields.ofTm_toTm]

theorem exists_parts {s : Bytes} (h : IsLiteral s) : ∃ y m d hr mi sec, Parts s y m d hr mi sec := by
  obtain ⟨y, m, d, hy, hm, hd, rfl | ⟨hr, mi, sec, hh, hmi, hs, rfl⟩⟩ := literal_parts h
  · have hzero : Digits 2 (bytes "00") := ⟨rfl, rfl⟩
    have hlen : (y ++ 45 :: m ++ 45 :: d).length = 10 := by simp [hy.1, hm.1, hd.1]
    have hfields : fieldsOf (y ++ 45 :: m ++ 45 :: d) = ⟨decimal y, decimal m, decimal d, 0, 0, 0⟩ := by
      have h := fieldsOf_date hy hm hd []
      rwa [List.append_nil] at h
    refine ⟨y, m, d, bytes "00", bytes "00", bytes "00", hy, hm, hd, hzero, hzero, hzero, ?_, hfields, ?_⟩
    · rw [fullText, if_pos hlen]
      simp [bytes]
    · have htime := getTime_date hy hm hd [] []
      have hskip := @skipSpace_date y m d hy []
      rw [List.append_nil] at htime hskip
      rw [List.append_nil] at htime
      refine readFields_eq (if_pos (by omega)) ?_
      rw [hskip, htime, hfields, read_time]
      rfl
  · have hlen : (y ++ 45 :: m ++ 45 :: d ++ 32 :: hr ++ 58 :: mi ++ 58 :: sec).length = 19 := by
      simp [hy.1, hm.1, hd.1, hh.1, hmi.1, hs.1]
    have hrest : y ++ 45 :: m ++ 45 :: d ++ 32 :: hr ++ 58 :: mi ++ 58 :: sec =
        y ++ 45 :: m ++ 45 :: d ++ (32 :: hr ++ 58 :: mi ++ 58 :: sec) := by simp
    have hfields : fieldsOf (y ++ 45 :: m ++ 45 :: d ++ 32 :: hr ++ 58 :: mi ++ 58 :: sec) =
        ⟨decimal y, decimal m, decimal d, decimal hr, decimal mi, decimal sec⟩ := by
      rw [hrest, fieldsOf_date hy hm hd]
      obtain ⟨a, b, rfl, -, -⟩ := digits_two hh
      obtain ⟨a, b, rfl, -, -⟩ := digits_two hmi
      obtain ⟨a, b, rfl, -, -⟩ := digits_two hs
      rfl
    refine ⟨y, m, d, hr, mi, sec, hy, hm, hd, hh, hmi, hs, ?_, hfields, ?_⟩
    · rw [fullText, if_neg (by omega)]
    · refine readFields_eq (if_neg (by omega)) ?_
      rw [hfields, hrest, skipSpace_date hy, dateTimeFormat, getTime_date hy hm hd, getTime_clock hh hmi hs, read_time]

end Read

section Print

open PostgresProtocol (intText)

/-- What `strftime` prints for a time of the calendar. -/
def clockTexts (date : CivilDate) (hour minute second : Nat) : Bytes :=
  intText date.year ++ 45 :: twoDigits date.month ++ 45 :: twoDigits date.day ++ 32 :: twoDigits hour ++
    58 :: twoDigits minute ++ 58 :: twoDigits second

theorem dateTime_eq (double : Double → Bytes) (hdouble : ∀ d, double d ≠ []) (v : Int) :
    (Formats.gregorian double hdouble).dateTime v =
      if (CivilDate.ofTime v).Representable then
        some (clockTexts (CivilDate.ofTime v) ((v % 86400).toNat / 3600) ((v % 86400).toNat / 60 % 60)
          ((v % 86400).toNat % 60))
      else none := by
  rw [Formats.gregorian]
  simp [CivilDate.text, clockText, clockTexts, bytes, Int.fmod_eq_emod_of_nonneg]

theorem Fields.IsTime.ofTime {f : Fields} (h : f.IsTime) :
    CivilDate.ofTime (timegm f.toTm) = ⟨f.year, f.month, f.day⟩ ∧
      (timegm f.toTm % 86400).toNat = 3600 * f.hour + 60 * f.minute + f.second := by
  obtain ⟨hd, hin⟩ := h.inRange
  obtain ⟨⟨h1, h2, h3, h4⟩, h5, h6, h7⟩ := h
  rw [timegm_toTm hin]
  dsimp only at h1 h2 h3 h4
  have hday : (f.day : Int) - 1 = (f.day - 1 : Nat) := by omega
  rw [CivilDate.ofTime, Int.fdiv_eq_ediv_of_nonneg _ (by decide), hday]
  refine ⟨?_, by omega⟩
  rw [show (86400 * (CivilDate.monthStart f.year f.month + ((f.day - 1 : Nat) : Int)) +
      (3600 * f.hour + 60 * f.minute + f.second)) / 86400 = CivilDate.monthStart f.year f.month + (f.day - 1 : Nat) by
    omega, CivilDate.ofDays_monthStart h1 h2 (by omega)]
  rw [Nat.sub_add_cancel h3]

variable {s y m d hr mi sec : Bytes} (double : Double → Bytes) (hdouble : ∀ d, double d ≠ [])

/-- A time of the calendar from 1970 on is printed as it was written. -/
theorem Parts.dateTime (hp : Parts s y m d hr mi sec) (h : (fieldsOf s).IsTime) (hyear : 1000 ≤ (fieldsOf s).year) :
    (Formats.gregorian double hdouble).dateTime (timegm (fieldsOf s).toTm) = some (fullText s) := by
  obtain ⟨hdate, hclock⟩ := h.ofTime
  obtain ⟨-, h5, h6, h7⟩ := h
  rw [hp.fields] at hyear h5 h6 h7
  dsimp only at hyear h5 h6 h7
  obtain ⟨hy, hle⟩ := intText_decimal hp.year hyear
  have hrep : CivilDate.Representable ⟨(fieldsOf s).year, (fieldsOf s).month, (fieldsOf s).day⟩ := by
    rw [hp.fields, CivilDate.Representable]
    dsimp only
    omega
  rw [dateTime_eq, hdate, hclock, if_pos hrep, hp.full, clockTexts, hp.fields]
  dsimp only
  rw [hy, twoDigits_decimal hp.month, twoDigits_decimal hp.day,
    show (3600 * decimal hr + 60 * decimal mi + decimal sec) / 3600 = decimal hr by omega,
    show (3600 * decimal hr + 60 * decimal mi + decimal sec) / 60 % 60 = decimal mi by omega,
    show (3600 * decimal hr + 60 * decimal mi + decimal sec) % 60 = decimal sec by omega,
    twoDigits_decimal hp.hour, twoDigits_decimal hp.minute, twoDigits_decimal hp.second]

theorem cons_append_inj {c : UInt8} {n : Nat} {u t t' : Bytes} (hu : Digits 2 u)
    (h : c :: (twoDigits n ++ t) = c :: (u ++ t')) : twoDigits n = u ∧ t = t' :=
  List.append_inj (List.cons.inj h).2 hu.1.symm

theorem year_of_intText {year : Int} {y : Bytes} (hy : Digits 4 y) (h : intText year = y) :
    year = decimal y := by
  have hlen : (intText year).length = 4 := by rw [h, hy.1]
  obtain hpos | hneg := PostgresProtocol.length_intText_eq_four.mp hlen
  · obtain ⟨n, rfl⟩ : ∃ n : Nat, year = n := ⟨year.toNat, by omega⟩
    rw [intText_year (by omega) (by omega)] at h
    rw [← h, decimal_append_two (digits_twoDigits n), decimal_twoDigits, decimal_twoDigits]
    omega
  · obtain ⟨n, rfl⟩ : ∃ n : Nat, year = Int.negSucc n := Int.eq_negSucc_of_lt_zero (by omega)
    have hdigit : isDigit 45 = true := List.all_eq_true.mp hy.2 45 (by
      rw [← h, intText, show toString (Int.negSucc n) = "-" ++ (n + 1).repr from rfl]
      simp [bytes])
    exact absurd hdigit (by decide)

theorem Parts.isTime (hp : Parts s y m d hr mi sec) {v : Int}
    (h : (Formats.gregorian double hdouble).dateTime v = some (fullText s)) : (fieldsOf s).IsTime := by
  rw [dateTime_eq] at h
  split at h
  · have hvalid : (CivilDate.ofTime v).Valid := CivilDate.ofDays_valid _
    have htext := Option.some.inj h
    have hlen : (intText (CivilDate.ofTime v).year).length = y.length := by
      have := congrArg List.length htext
      rw [hp.full] at this
      simp only [clockTexts, List.length_append, List.length_cons, hp.month.1, hp.day.1, hp.hour.1, hp.minute.1,
        hp.second.1, (digits_twoDigits _).1] at this
      omega
    rw [hp.full, clockTexts] at htext
    simp only [List.append_assoc, List.cons_append] at htext
    obtain ⟨hy, htext⟩ := List.append_inj htext hlen
    obtain ⟨hm, htext⟩ := cons_append_inj hp.month htext
    obtain ⟨hd, htext⟩ := cons_append_inj hp.day htext
    obtain ⟨hh, htext⟩ := cons_append_inj hp.hour htext
    obtain ⟨hmi, htext⟩ := cons_append_inj hp.minute htext
    have hs := (List.cons.inj htext).2
    obtain ⟨h1, h2, h3, h4⟩ := hvalid
    have hyear := year_of_intText hp.year hy
    have hmonth := congrArg decimal hm
    have hday := congrArg decimal hd
    have hhour := congrArg decimal hh
    have hminute := congrArg decimal hmi
    have hsecond := congrArg decimal hs
    rw [decimal_twoDigits] at hmonth hday hhour hminute hsecond
    have hle : CivilDate.daysInMonth (CivilDate.ofTime v).year (CivilDate.ofTime v).month ≤ 31 :=
      CivilDate.daysInMonth_le _ _
    rw [Nat.mod_eq_of_lt (by omega)] at hmonth hday
    rw [hp.fields, Fields.IsTime, CivilDate.Valid]
    dsimp only
    rw [← hyear, ← hmonth, ← hday]
    exact ⟨⟨h1, h2, h3, h4⟩, by omega, by omega, by omega⟩
  · cases h

theorem year_stored {s : Bytes} (h : 0 < parseTime s) :
    1600 ≤ (CivilDate.ofTime (parseTime s)).year ∧ (CivilDate.ofTime (parseTime s)).year ≤ 10000 := by
  obtain ⟨hlen, hearly⟩ := not_or.mp (mt (parseTime_le_iff s).mpr (not_le.mpr h))
  obtain ⟨hin, hyear⟩ := readFields_inRange s
  have hv : parseTime s = timegm (readFields s).toTm := by
    rw [parseTime_eq (by omega)] at h ⊢
    split at h
    · omega
    · next hne => rw [if_neg hne]
  have hstart := @CivilDate.monthStart_le_last (readFields s).year (readFields s).month (by omega) hin.month.2
  rw [Fields.timegm_toTm hin] at hv
  have hbounds := CivilDate.year_ofDays ((parseTime s).fdiv 86400)
  rw [CivilDate.ofTime]
  rw [Int.fdiv_eq_ediv_of_nonneg _ (by decide)] at hbounds ⊢
  have hd := hin.day
  have hh := hin.hour
  have hm := hin.minute
  have hs := hin.second
  omega

/-- A text that begins with more than four digits is read as a year alone. -/
theorem early_tenThousand {t : Bytes} (h : t.length = 14) : (readFields (bytes "10000" ++ 45 :: t)).Early := by
  have hfields : readFields (bytes "10000" ++ 45 :: t) = ⟨1000, 1, 0, 0, 0, 0⟩ :=
    @readFields_eq _ dateTimeFormat _ (if_neg (by simp [bytes, h])) rfl
  rw [hfields]
  exact .inl (by decide)

theorem isLiteral_of_printed {s : Bytes} (hpos : 0 < parseTime s)
    (h : (Formats.gregorian double hdouble).dateTime (parseTime s) = some (fullText s)) : IsLiteral s := by
  obtain ⟨hlow, hhigh⟩ := year_stored hpos
  rw [dateTime_eq] at h
  split at h
  swap
  · cases h
  have htext := Option.some.inj h
  generalize (CivilDate.ofTime (parseTime s)) = date at htext hlow hhigh
  generalize ((parseTime s) % 86400).toNat = clock at htext
  obtain ⟨year, month, day⟩ := date
  dsimp only at hlow hhigh
  obtain ⟨n, rfl⟩ : ∃ n : Nat, year = n := ⟨year.toNat, by omega⟩
  have hdate : ∀ hy : Digits 4 (intText n), IsLiteral s := by
    intro hy
    rw [fullText] at htext
    split at htext
    · next hlen =>
      have hsplit : (intText n ++ 45 :: twoDigits month ++ 45 :: twoDigits day) ++ (32 :: twoDigits (clock / 3600) ++
          58 :: twoDigits (clock / 60 % 60) ++ 58 :: twoDigits (clock % 60)) = s ++ bytes " 00:00:00" := by
        rw [← htext]
        simp [clockTexts]
      have hs := (List.append_inj hsplit (by simp [hy.1, hlen, (digits_twoDigits _).1])).1
      exact .inl (hs ▸ isLiteral_date hy (digits_twoDigits _) (digits_twoDigits _))
    · refine .inr (matches_seq.mpr ⟨intText n ++ 45 :: twoDigits month ++ 45 :: twoDigits day,
        32 :: (twoDigits (clock / 3600) ++ 58 :: twoDigits (clock / 60 % 60) ++ 58 :: twoDigits (clock % 60)), ?_,
        isLiteral_date hy (digits_twoDigits _) (digits_twoDigits _), matches_seq.mpr ⟨[32], _, rfl, matches_chr_self 32,
          isLiteral_time (digits_twoDigits _) (digits_twoDigits _) (digits_twoDigits _)⟩⟩)
      rw [← htext]
      simp [clockTexts]
  by_cases hn : n ≤ 9999
  · refine hdate ⟨?_, ?_⟩
    · rw [intText_year (by omega) hn]
      rfl
    · rw [intText_year (by omega) hn, List.all_append, (digits_twoDigits _).2, (digits_twoDigits _).2]
      rfl
  · obtain rfl : n = 10000 := by omega
    have hs : s = bytes "10000" ++ 45 :: (twoDigits month ++ 45 :: twoDigits day ++ 32 :: twoDigits (clock / 3600) ++
        58 :: twoDigits (clock / 60 % 60) ++ 58 :: twoDigits (clock % 60)) := by
      have hlen := congrArg List.length htext
      rw [fullText] at htext hlen
      split at htext
      · next hten =>
        rw [if_pos hten, List.length_append, hten] at hlen
        simp [clockTexts, show intText 10000 = bytes "10000" from rfl, bytes, (digits_twoDigits _).1] at hlen
      · rw [← htext]
        simp [clockTexts, show intText 10000 = bytes "10000" from rfl]
    have hearly := early_tenThousand (t := twoDigits month ++ 45 :: twoDigits day ++ 32 :: twoDigits (clock / 3600) ++
      58 :: twoDigits (clock / 60 % 60) ++ 58 :: twoDigits (clock % 60)) (by simp [(digits_twoDigits _).1])
    rw [← hs] at hearly
    exact absurd ((parseTime_le_iff s).mpr (.inr hearly)) (not_le.mpr hpos)

end Print

section Stored

/-- The node fails as a DATETIME, or the value that is stored for it is printed as the literal. -/
def Prints (conv : Conversions) (fmt : Formats) (p : ParseNode) : Prop :=
  match fromNode conv .datetime p with
  | .error _ => True
  | .ok r => ∃ bs v, (getHandler .datetime).write conv r = .ok bs ∧ (getHandler .datetime).read bs = .ok (.int v) ∧
      fmt.dateTime v = some (fullText p.getString)

/-- The text of a token of one of the two rules is a literal in `D'` and `'`. -/
theorem isLiteral_of_token {t : Bytes}
    (h : Matches (seqs [lit "d'", datePattern, lit "'"]) t ∨
      Matches (seqs [lit "d'", datePattern, lit " ", timePattern, lit "'"]) t) :
    IsLiteral ((t.drop 2).take (t.length - 3)) := by
  have hcut : ∀ u s q : Bytes, Matches (lit "d'") u → Matches (lit "'") q →
      (((u ++ (s ++ q)).drop 2).take ((u ++ (s ++ q)).length - 3)) = s := by
    intro u s q hu hq
    obtain ⟨x, y, rfl, hx, hy⟩ := matches_seq.mp hu
    obtain ⟨a, rfl, -⟩ := matches_one.mp hx
    obtain ⟨b, rfl, -⟩ := matches_one.mp hy
    obtain ⟨c, rfl, -⟩ := matches_one.mp hq
    simp
  obtain h | h := h
  · obtain ⟨u, t, rfl, hu, h⟩ := matches_seq.mp h
    obtain ⟨s, q, rfl, hs, hq⟩ := matches_seq.mp h
    rw [hcut u s q hu hq]
    exact .inl hs
  · obtain ⟨u, t, rfl, hu, h⟩ := matches_seq.mp h
    obtain ⟨s, t, rfl, hs, h⟩ := matches_seq.mp h
    obtain ⟨x, t, rfl, hx, h⟩ := matches_seq.mp h
    obtain ⟨k, q, rfl, hk, hq⟩ := matches_seq.mp h
    have hall := hcut u (s ++ (x ++ k)) q hu hq
    simp only [List.append_assoc] at hall
    rw [hall]
    exact .inr (matches_seq.mpr ⟨s, x ++ k, rfl, hs, matches_seq.mpr ⟨x, k, rfl, hx, hk⟩⟩)

variable (conv : Conversions) (double : Double → Bytes) (hdouble : ∀ d, double d ≠ [])

theorem fromNode_literal {p : ParseNode} (hp : p.type = .date ∨ p.type = .param ∧ p.getOp = .textParam)
    (hne : p.getString ≠ []) :
    fromNode conv.calendar .datetime p =
      if parseTime p.getString ≤ 0 then throwExecution ("Wrong Time Format:" ++ text p.getString)
      else .ok (.int (parseTime p.getString)) := by
  have htime : timeOfNode conv.calendar p = timeToInt conv.calendar p.getString := by
    rw [timeOfNode.eq_def]
    obtain h | ⟨h, hop⟩ := hp
    · rw [h]
    · rw [h, hop]
  rw [fromNode, fromDatetimeNode, htime, timeToInt, if_neg hne]
  have hcalendar : conv.calendar.parseTime = parseTime := rfl
  rw [hcalendar]
  by_cases h : parseTime p.getString ≤ 0
  · rw [if_pos h, if_pos h]
    rfl
  · rw [if_neg h, if_neg h]
    rfl

theorem stored {v : Int} (h0 : 0 < v) (h : v < 2 ^ 63) :
    ∃ bs, (getHandler .datetime).write conv (.int v) = .ok bs ∧ (getHandler .datetime).read bs = .ok (.int v) := by
  have hmin : IntType.int64.min ≤ v := by simp only [IntType.min]; omega
  have hmax : v ≤ IntType.int64.max := by simp only [IntType.max]; omega
  have hcheck : IntType.int64.checkValue v = .ok () := if_neg (by omega)
  refine ⟨intToLittle 8 v, ?_, ?_⟩
  · rw [getHandler, DBDataTypeHandler.write, getInt_int, ok_bind, hcheck]
    rfl
  · have hread := DataRow.read_int hmin hmax []
    rwa [List.append_nil] at hread

/-- The nodes of the two rules for dates, and those of the parameters in text mode, whatever their text. -/
inductive IsDateNode : ParseNode → Prop
  | token {t : Bytes} (h : Matches (seqs [lit "d'", datePattern, lit "'"]) t ∨
      Matches (seqs [lit "d'", datePattern, lit " ", timePattern, lit "'"]) t) :
      IsDateNode (.node .date .none t ((t.drop 2).take (t.length - 3)) [])
  | param {p : ParseNode} (htype : p.type = .param) (hop : p.getOp = .textParam) : IsDateNode p

theorem IsDateNode.type {p : ParseNode} (h : IsDateNode p) :
    p.type = .date ∨ p.type = .param ∧ p.getOp = .textParam := by
  cases h with
  | token => exact .inl rfl
  | param htype hop => exact .inr ⟨htype, hop⟩

/-- An empty text, which only a parameter has, is stored as the first second of 1970. -/
theorem prints_empty {p : ParseNode} (hp : IsDateNode p) (hempty : p.getString = []) :
    ¬ Prints conv.calendar (Formats.gregorian double hdouble) p := by
  have htime : timeOfNode conv.calendar p = .ok 0 := by
    rw [timeOfNode.eq_def]
    obtain h | ⟨h, hop⟩ := hp.type
    · rw [h]
      exact if_pos hempty
    · rw [h, hop]
      exact if_pos hempty
  rw [Prints, fromNode, fromDatetimeNode, htime]
  rintro ⟨bs, v, -, -, htext⟩
  rw [dateTime_eq, hempty] at htext
  split at htext
  · exact absurd (Option.some.inj htext) (by simp [clockTexts, fullText])
  · cases htext

/-- A text is refused or kept as it is exactly when it is a literal of a time of the calendar, or what is read of it
is not after the first second of 1970. -/
theorem prints_iff {p : ParseNode} (hp : IsDateNode p) :
    Prints conv.calendar (Formats.gregorian double hdouble) p ↔
      IsLiteral p.getString ∧ (fieldsOf p.getString).IsTime ∨
        p.getString ≠ [] ∧ (p.getString.length < 10 ∨ (readFields p.getString).Early) := by
  by_cases hne : p.getString = []
  · refine iff_of_false (prints_empty conv double hdouble hp hne) ?_
    rintro (⟨hl, -⟩ | ⟨h, -⟩)
    · obtain ⟨y, m, d, hr, mi, sec, hparts⟩ := exists_parts hl
      have hfull := hparts.full
      rw [hne] at hfull
      simp [fullText] at hfull
    · exact h hne
  rw [Prints, fromNode_literal conv hp.type hne]
  by_cases hle : parseTime p.getString ≤ 0
  · rw [if_pos hle]
    exact iff_of_true trivial (.inr ⟨hne, (parseTime_le_iff _).mp hle⟩)
  · rw [if_neg hle, or_iff_left fun h => hle ((parseTime_le_iff _).mpr h.2)]
    have hpos : 0 < parseTime p.getString := not_le.mp hle
    obtain ⟨bs, hw, hread⟩ := stored conv.calendar hpos (parseTime_lt _)
    constructor
    · rintro ⟨bs', v, hw', hread', htext⟩
      cases hw.symm.trans hw'
      cases hread.symm.trans hread'
      have hl := isLiteral_of_printed double hdouble hpos htext
      obtain ⟨y, m, d, hr, mi, sec, hparts⟩ := exists_parts hl
      exact ⟨hl, hparts.isTime double hdouble htext⟩
    · rintro ⟨hl, htime⟩
      obtain ⟨y, m, d, hr, mi, sec, hparts⟩ := exists_parts hl
      obtain ⟨hd, hin⟩ := htime.inRange
      obtain ⟨hlen, hearly⟩ := not_or.mp (mt (parseTime_le_iff _).mpr hle)
      have hfields : readFields p.getString = fieldsOf p.getString := hparts.read.trans (Fields.read_of_inRange hd hin)
      have hv : parseTime p.getString = timegm (fieldsOf p.getString).toTm := by
        rw [parseTime_eq (by omega), hfields] at hpos ⊢
        split at hpos
        · omega
        · next h => rw [if_neg h]
      refine ⟨bs, _, hw, hread, ?_⟩
      rw [hv]
      refine hparts.dateTime double hdouble htime ?_
      rw [hfields, Fields.Early] at hearly
      omega

/-- The text of a token is a literal; it is read up to the first field that is out of its range. -/
theorem readFields_token {t : Bytes}
    (h : Matches (seqs [lit "d'", datePattern, lit "'"]) t ∨
      Matches (seqs [lit "d'", datePattern, lit " ", timePattern, lit "'"]) t) :
    IsLiteral ((t.drop 2).take (t.length - 3)) ∧
      readFields ((t.drop 2).take (t.length - 3)) = (fieldsOf ((t.drop 2).take (t.length - 3))).read := by
  have hl := isLiteral_of_token h
  obtain ⟨y, m, d, hr, mi, sec, hparts⟩ := exists_parts hl
  exact ⟨hl, hparts.read⟩

def dateNode (s : String) : ParseNode := .node .date .none (bytes ("D'" ++ s ++ "'")) (bytes s) []

theorem isDateNode_of_longest {s : String}
    (hlen : ((bytes ("D'" ++ s ++ "'")).drop 2).take ((bytes ("D'" ++ s ++ "'")).length - 3) = bytes s)
    (h : (seqs [lit "d'", datePattern, lit "'"]).longest (bytes ("D'" ++ s ++ "'")) =
      some (bytes ("D'" ++ s ++ "'")).length) : IsDateNode (dateNode s) := by
  have hm := (longest_some h).2.1
  rw [List.take_length] at hm
  have htoken := IsDateNode.token (.inl hm)
  rwa [hlen] at htoken

theorem prints_iff_leap :
    Prints decimalConversions.calendar (Formats.gregorian (fun _ => [48]) (by simp)) (dateNode "2020-02-29") ↔
      IsLiteral (bytes "2020-02-29") ∧ (fieldsOf (bytes "2020-02-29")).IsTime ∨
        bytes "2020-02-29" ≠ [] ∧ ((bytes "2020-02-29").length < 10 ∨ (readFields (bytes "2020-02-29")).Early) :=
  @prints_iff decimalConversions (fun _ => [48]) (by simp) (dateNode "2020-02-29")
    (isDateNode_of_longest (by decide) (by decide +kernel))

/-- Texts that are taken for another time. -/
example : parseTime (bytes "2020-01-01xyz") = parseTime (bytes "2020-01-01") ∧
    parseTime (bytes "2020-01-01 12:34:5") = parseTime (bytes "2020-01-01") ∧
    parseTime (bytes "2020-01-01 12:34:56.7") = parseTime (bytes "2020-01-01 12:34:56") := by decide +kernel

/-- 31 February is stored as the second of March. -/
theorem february_not_printed :
    IsDateNode (dateNode "2020-02-31") ∧
      fromNode decimalConversions.calendar .datetime (dateNode "2020-02-31") = .ok (.int 1583107200) ∧
      (Formats.gregorian (fun _ => [48]) (by simp)).dateTime 1583107200 = some (bytes "2020-03-02 00:00:00") ∧
      ¬ Prints decimalConversions.calendar (Formats.gregorian (fun _ => [48]) (by simp)) (dateNode "2020-02-31") := by
  have hv : parseTime (dateNode "2020-02-31").getString = 1583107200 := by decide +kernel
  have hnode : fromNode decimalConversions.calendar .datetime (dateNode "2020-02-31") = .ok (.int 1583107200) := by
    rw [fromNode_literal decimalConversions (.inl rfl) (by decide), hv]
    rfl
  have htext : (Formats.gregorian (fun _ => [48]) (by simp)).dateTime 1583107200 =
      some (bytes "2020-03-02 00:00:00") := by
    rw [dateTime_eq, if_pos (by decide +kernel)]
    decide +kernel
  refine ⟨isDateNode_of_longest (by decide) (by decide +kernel), hnode, htext, fun h => ?_⟩
  rw [Prints, hnode] at h
  obtain ⟨bs, v, hw, hread, h⟩ := h
  obtain ⟨bs', hw', hread'⟩ := stored decimalConversions.calendar (show (0 : Int) < 1583107200 by decide) (by decide)
  cases hw.symm.trans hw'
  cases hread.symm.trans hread'
  rw [htext] at h
  exact absurd (Option.some.inj h) (by decide +kernel)

end Stored

end ParseTime

end LevelPgServer
