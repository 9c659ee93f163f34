import LevelPgServer.Lib.CivilDate
import LevelPgServer.Lib.ExceptRules
import LevelPgServer.Server.Messages

namespace LevelPgServer

open ByteOrder PgDataWriter

/-- `%02d`. -/
def twoDigits (n : Nat) : Bytes := [UInt8.ofNat (48 + n / 10 % 10), UInt8.ofNat (48 + n % 10)]

namespace CivilDate

/-- `%Y-%m-%d`; the year has as many digits as it needs. -/
def text (d : CivilDate) : Bytes :=
  PostgresProtocol.intText d.year ++ bytes "-" ++ twoDigits d.month ++ bytes "-" ++ twoDigits d.day

/-- The years `gmtime` can return: `tm_year` is an `int` counted from 1900. -/
def Representable (d : CivilDate) : Prop := -2 ^ 31 ≤ d.year - 1900 ∧ d.year - 1900 < 2 ^ 31

instance (d : CivilDate) : Decidable d.Representable := inferInstanceAs (Decidable (_ ∧ _))

def ofTime (v : Int) : CivilDate := ofDays (v.fdiv 86400)

end CivilDate

/-- `%H:%M:%S`. -/
def clockText (v : Int) : Bytes :=
  let seconds := (v.fmod 86400).toNat
  twoDigits (seconds / 3600) ++ bytes ":" ++ twoDigits (seconds / 60 % 60) ++ bytes ":" ++ twoDigits (seconds % 60)

/-- A C library whose `gmtime` and `strftime` follow the Gregorian calendar. -/
def Formats.gregorian (double : Double → Bytes) (double_ne_nil : ∀ d, double d ≠ []) : Formats where
  double := double
  double_ne_nil := double_ne_nil
  date v := if (CivilDate.ofTime v).Representable then some (CivilDate.ofTime v).text else none
  dateTime v :=
    if (CivilDate.ofTime v).Representable then some ((CivilDate.ofTime v).text ++ bytes " " ++ clockText v) else none

namespace PostgresProtocol

/-- One DataRow frame: the number of columns as a signed 16-bit number, and every column with its
length and its text, or as NULL. -/
def IsDataRow (fs : List Field) (out : Bytes) : Prop :=
  ∃ count, count.length = 2 ∧ intOfLittle count.reverse = fs.length ∧
    out = frame (char "D") (count ++ fs.flatMap Field.message)

def DateFits (conv : Conversions) : Fallible (DBDataType × ExecutionResult) → Prop
  | .ok (.date, result) | .ok (.datetime, result) =>
    ∀ v, result.isNull = false → result.getInt conv = .ok v → (CivilDate.ofTime v).Representable →
      CivilDate.FourPlaces (CivilDate.ofTime v).year
  | _ => True

theorem length_intText_eq_four {year : Int} : (intText year).length = 4 ↔ CivilDate.FourPlaces year := by
  rw [← CivilDate.length_toString_eq_four, intText, bytes, List.length_map, String.length_toList]

theorem length_date {d : CivilDate} : d.text.length = 10 ↔ CivilDate.FourPlaces d.year := by
  rw [← length_intText_eq_four]
  simp [CivilDate.text, twoDigits, bytes]

theorem length_dateTime {d : CivilDate} {v : Int} :
    (d.text ++ bytes " " ++ clockText v).length = 19 ↔ CivilDate.FourPlaces d.year := by
  rw [← length_intText_eq_four]
  simp [CivilDate.text, clockText, twoDigits, bytes]

theorem intOfLittle_count {n : Nat} : intOfLittle (intToBig 2 n).reverse = n ↔ n < 32768 := by
  rw [intToBig, List.reverse_reverse]
  constructor
  · intro h
    have hlt := BitVec.toInt_lt (x := BitVec.ofNat (8 * (intToLittle 2 (n : Int)).length) (ofLittle (intToLittle 2 (n : Int))))
    rw [intOfLittle] at h
    rw [h, length_intToLittle] at hlt
    omega
  · intro h
    exact intOfLittle_intToLittle (by decide) (by omega) (by omega)

section

variable {conv : Conversions} {double : Double → Bytes} {double_ne_nil : ∀ d, double d ≠ []}

theorem wellTimed_time {result : ExecutionResult} {len : Nat} {print : Int → Bytes} {text : Option Bytes}
    (hprint : ∀ v, (print v).length = len ↔ CivilDate.FourPlaces (CivilDate.ofTime v).year)
    (h : (if result.isNull then .ok none else do
      let v ← result.getInt conv
      return if (CivilDate.ofTime v).Representable then some (print v) else none : Fallible (Option Bytes)) = .ok text) :
    (⟨.time len, text⟩ : Field).WellTimed ↔
      ∀ v, result.isNull = false → result.getInt conv = .ok v → (CivilDate.ofTime v).Representable →
        CivilDate.FourPlaces (CivilDate.ofTime v).year := by
  cases hnull : result.isNull with
  | true =>
    rw [hnull, if_pos rfl] at h
    cases h
    exact iff_of_true (fun _ _ _ ht => by cases ht) (by simp)
  | false =>
    rw [hnull, if_neg Bool.false_ne_true] at h
    obtain ⟨v, hv, htext⟩ := ExceptRules.bind_eq_ok.mp h
    rw [hv]
    by_cases hr : (CivilDate.ofTime v).Representable
    · rw [if_pos hr] at htext
      cases htext
      constructor
      · intro ht u _ hu _
        cases hu
        exact (hprint v).mp (ht len _ rfl rfl)
      · intro hfour len' t hlen ht
        cases hlen
        cases ht
        exact (hprint v).mpr (hfour v rfl rfl hr)
    · rw [if_neg hr] at htext
      cases htext
      refine iff_of_true (fun _ _ _ ht => by cases ht) fun u _ hu hur => ?_
      cases hu
      exact absurd hur hr

theorem wellTimed_iff {c : Fallible (DBDataType × ExecutionResult)} {f : Field}
    (h : field conv (.gregorian double double_ne_nil) c = .ok f) : f.WellTimed ↔ DateFits conv c := by
  rw [field] at h
  obtain ⟨⟨type, result⟩, rfl, hcolumn⟩ := ExceptRules.bind_eq_ok.mp h
  obtain ⟨text, htext, hf⟩ := ExceptRules.bind_eq_ok.mp hcolumn
  cases hf
  cases type with
  | date => exact wellTimed_time (fun v => length_date) htext
  | datetime => exact wellTimed_time (fun v => length_dateTime) htext
  | bool | int16 | int32 | int64 | float | double | string | bytes =>
    exact iff_of_true (fun len t hp => by cases hp) trivial

theorem wellTimed_all_iff {row : List (Fallible (DBDataType × ExecutionResult))} {fs : List Field}
    (h : rowFields conv (.gregorian double double_ne_nil) row = .ok fs) :
    (∀ f ∈ fs, f.WellTimed) ↔ ∀ c ∈ row, DateFits conv c := by
  induction row generalizing fs with
  | nil =>
    cases h
    simp
  | cons c row ih =>
    rw [rowFields, List.mapM_cons] at h
    obtain ⟨f, hf, h⟩ := ExceptRules.bind_eq_ok.mp h
    obtain ⟨gs, hgs, h⟩ := ExceptRules.bind_eq_ok.mp h
    cases h
    simp only [List.forall_mem_cons, wellTimed_iff hf, ih hgs]

end

theorem isDataRow_rowBytes_iff {fs : List Field} {size pos : Nat} (hsize : size < 2 ^ 32) (hfit : RowFits size pos fs)
    (hbound : (rowBytes size pos fs).length ≤ size) :
    IsDataRow fs (rowBytes size pos fs) ↔ fs.length < 32768 ∧ ∀ f ∈ fs, f.WellTimed := by
  constructor
  · rintro ⟨count, hcount, hread, heq⟩
    have hlen := congrArg List.length heq
    rw [rowBytes, frame, List.append_assoc, List.cons_append, List.cons_append, List.cons.injEq] at heq
    have htail := (List.append_inj heq.2 (by simp)).2
    have hparts := List.append_inj htail (by simp [hcount])
    rw [← hparts.1] at hread
    have hflat : (fs.flatMap Field.message).length < 2 ^ 32 := by
      rw [hlen] at hbound
      simp only [frame, List.length_append, List.length_cons] at hbound
      omega
    refine ⟨intOfLittle_count.mp hread, Field.wellTimed_of_prefix (x := []) (y := []) hsize hfit.2 hflat ?_⟩
    rw [List.append_nil, List.append_nil, hparts.2]
  · rintro ⟨hcount, ht⟩
    refine ⟨intToBig 2 fs.length, by simp, intOfLittle_count.mpr hcount, ?_⟩
    have hwritten := Field.writtenAll_eq ht hfit.2
    rw [rowBytes, hwritten, frame]
    have hlen : 4 + (intToBig 2 fs.length ++ fs.flatMap Field.message).length = 6 + (fs.flatMap Field.message).length := by
      simp
      omega
    rw [hlen, List.append_assoc]

/-- Where the writer is not full after `buildData`, one DataRow frame has been appended, exactly
when the columns can be counted and every date that is printed has a year of four characters. -/
theorem buildData_isDataRow_iff {conv : Conversions} {double : Double → Bytes} {double_ne_nil : ∀ d, double d ≠ []}
    {row : List (Fallible (DBDataType × ExecutionResult))} {w w' : PgDataWriter} (hw : w.Framed) (hsize : w.size = blockSize)
    (hbound : w.data.length ≤ w.size)
    (h : buildData conv (.gregorian double double_ne_nil) row w = .ok w') (hfull : w'.full = false) :
    (∃ fs out, rowFields conv (.gregorian double double_ne_nil) row = .ok fs ∧ w'.data = w.data ++ out ∧ IsDataRow fs out) ↔
      row.length < 32768 ∧ ∀ c ∈ row, DateFits conv c := by
  rw [buildData_eq] at h
  cases hrow : rowFields conv (.gregorian double double_ne_nil) row with
  | error f =>
    rw [hrow] at h
    cases h
  | ok fs =>
    rw [hrow] at h
    cases h
    have hprinted := printed_of_rowFields _ _ hrow
    have hfit : RowFits w.size w.data.length fs := by
      by_contra hne
      exact absurd (writeRow_of_not_fits hprinted hw hne).1 (by simp [hfull])
    obtain ⟨-, -, hdata⟩ := writeRow_of_fits hprinted hw hfit
    have hlen : (rowBytes w.size w.data.length fs).length ≤ w.size := by
      have hgrows : Grows w (fs.foldl (fun w f => f.write w) ((w.begin (char "D")).addInt16 fs.length)) :=
        (grows_begin hw.full (char "D")).trans ((grows_put _ _).trans (grows_writeAll hprinted _))
      have hroom := hgrows.bound hbound
      rw [(puts_row hprinted hw.full).data hw.full hfit, hgrows.ext.size] at hroom
      simp only [List.length_append, List.length_cons, length_intToBig] at hroom
      simp only [rowBytes, List.length_append, List.length_cons, length_intToBig, length_toBig]
      omega
    have hiff := isDataRow_rowBytes_iff (by rw [hsize]; decide) hfit hlen
    rw [← length_rowFields _ _ hrow, ← wellTimed_all_iff hrow, ← hiff]
    constructor
    · rintro ⟨fs', out, hfs, hout, hmessage⟩
      cases hfs
      rw [hdata] at hout
      rwa [List.append_cancel_left hout]
    · exact fun hmessage => ⟨fs, _, rfl, hdata, hmessage⟩

def integerFormats : Formats := .gregorian (fun _ => [48]) fun _ => List.cons_ne_nil 48 []

theorem buildData_isDataRow_iff_epoch :
    (∃ fs out, rowFields decimalConversions integerFormats [.ok (.date, .int 0)] = .ok fs ∧
      [68, 0, 0, 0, 20, 0, 1, 0, 0, 0, 10] ++ bytes "1970-01-01" = [] ++ out ∧ IsDataRow fs out) ↔
      ([.ok (.date, .int 0)] : List (Fallible (DBDataType × ExecutionResult))).length < 32768 ∧
        ∀ c ∈ [.ok (.date, .int 0)], DateFits decimalConversions c :=
  @buildData_isDataRow_iff decimalConversions (fun _ => [48]) (fun _ => List.cons_ne_nil 48 []) _ { size := blockSize }
    ⟨blockSize, [68, 0, 0, 0, 20, 0, 1, 0, 0, 0, 10] ++ bytes "1970-01-01", 21, false⟩
    (framed_new blockSize) rfl (Nat.zero_le _) (by decide +kernel) rfl

/-- The first second of the year 10000 is announced with 10 bytes and printed with 11. -/
theorem year10000_not_dataRow :
    ∃ w', buildData decimalConversions integerFormats [.ok (.date, .int 253402300800)] { size := blockSize } = .ok w' ∧
      w'.full = false ∧ w'.data = [68, 0, 0, 0, 21, 0, 1, 0, 0, 0, 10] ++ bytes "10000-01-01" ∧
      ¬ ∃ fs out, rowFields decimalConversions integerFormats [.ok (.date, .int 253402300800)] = .ok fs ∧
        w'.data = [] ++ out ∧ IsDataRow fs out := by
  refine ⟨PgDataWriter.mk blockSize ([68, 0, 0, 0, 21, 0, 1, 0, 0, 0, 10] ++ bytes "10000-01-01") 22 false,
    by decide +kernel, rfl, rfl, ?_⟩
  rintro ⟨fs, out, hfs, hout, count, hcount, -, hmessage⟩
  have hrow : rowFields decimalConversions integerFormats [.ok (.date, .int 253402300800)] =
      .ok [⟨.time 10, some (bytes "10000-01-01")⟩] := by decide +kernel
  rw [hrow] at hfs
  cases hfs
  obtain ⟨a, b, rfl⟩ := List.length_eq_two.mp hcount
  have hannounced : (frame (char "D") ([a, b] ++
      [(⟨.time 10, some (bytes "10000-01-01")⟩ : Field)].flatMap Field.message))[10]? = some 11 := by rfl
  rw [← hmessage, ← List.nil_append out, ← hout] at hannounced
  exact absurd hannounced (by decide)

end PostgresProtocol

end LevelPgServer
