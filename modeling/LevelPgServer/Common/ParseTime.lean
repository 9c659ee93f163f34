import LevelPgServer.Common.SqlLexer
import LevelPgServer.Lib.CivilDate

namespace LevelPgServer

/-- `std::tm`: the years count from 1900 and the months from 0. -/
structure Tm where
  year : Int := 0
  mon : Int := 0
  mday : Int := 0
  hour : Int := 0
  min : Int := 0
  sec : Int := 0
  deriving DecidableEq, Repr

namespace ParseTime

open SqlParser (isDigit isSpace)

/-- The conversions of a format; the last one is a character that stands for itself. -/
inductive Item
  | year | month | day | hour | minute | second | space
  | char (c : UInt8)
  deriving DecidableEq, Repr

def decimal (ds : Bytes) : Nat := ds.foldl (fun n c => 10 * n + (c.toNat - 48)) 0

/-- A number of at most `width` digits between `lo` and `hi`, with what follows it. -/
def getNumber (lo hi width : Nat) (s : Bytes) : Option (Nat × Bytes) :=
  let ds := (s.take width).takeWhile isDigit
  if ds ≠ [] ∧ lo ≤ decimal ds ∧ decimal ds ≤ hi then some (decimal ds, s.drop ds.length) else none

def Item.read (item : Item) (s : Bytes) (time : Tm) : Option (Tm × Bytes) :=
  match item with
  | year => (getNumber 0 9999 4 s).map fun r => ({ time with year := r.1 - 1900 }, r.2)
  | month => (getNumber 1 12 2 s).map fun r => ({ time with mon := r.1 - 1 }, r.2)
  | day => (getNumber 1 31 2 s).map fun r => ({ time with mday := r.1 }, r.2)
  | hour => (getNumber 0 23 2 s).map fun r => ({ time with hour := r.1 }, r.2)
  | minute => (getNumber 0 59 2 s).map fun r => ({ time with min := r.1 }, r.2)
  | second => (getNumber 0 60 2 s).map fun r => ({ time with sec := r.1 }, r.2)
  | space => some (time, s.dropWhile isSpace)
  | char c => if s.head? = some c then some (time, s.tail) else none

/-- `std::get_time`: once a conversion fails, the others do not take place, and what has been read stays. -/
def getTime : List Item → Bytes → Tm → Tm
  | [], _, time => time
  | item :: items, s, time =>
    match item.read s time with
    | some (time, s) => getTime items s time
    | none => time

/-- `%Y-%m-%d`. -/
def dateFormat : List Item := [.year, .char 45, .month, .char 45, .day]

/-- `%Y-%m-%d %H:%M:%S`. -/
def dateTimeFormat : List Item := dateFormat ++ [.space, .hour, .char 58, .minute, .char 58, .second]

def timegm (time : Tm) : Int :=
  let days := CivilDate.monthStart (1900 + time.year + time.mon / 12) (time.mon % 12 + 1).toNat + (time.mday - 1)
  86400 * days + 3600 * time.hour + 60 * time.min + time.sec

def skipSpace (s : Bytes) : Bytes := s.dropWhile isSpace

def parseTime (sTime : Bytes) : Int :=
  if sTime.length < 10 then 0
  else
    let format := if sTime.length < 19 then dateFormat else dateTimeFormat
    let iRetTime := timegm (getTime format (skipSpace sTime) {})
    if iRetTime = -1 then 0 else iRetTime

example : parseTime (bytes "2020-02-29") = 1582934400 ∧ parseTime (bytes "2020-02-31") = 1583107200 := by decide +kernel

section Bounds

structure Bounded (time : Tm) : Prop where
  year : -1900 ≤ time.year ∧ time.year ≤ 8099
  mon : 0 ≤ time.mon ∧ time.mon ≤ 11
  mday : 0 ≤ time.mday ∧ time.mday ≤ 31
  hour : 0 ≤ time.hour ∧ time.hour ≤ 23
  min : 0 ≤ time.min ∧ time.min ≤ 59
  sec : 0 ≤ time.sec ∧ time.sec ≤ 60

theorem bounded_empty : Bounded {} := by constructor <;> decide

theorem le_of_getNumber {lo hi width : Nat} {s : Bytes} {r : Nat × Bytes} (h : getNumber lo hi width s = some r) :
    lo ≤ r.1 ∧ r.1 ≤ hi := by
  rw [getNumber] at h
  split at h
  · next hd =>
    cases h
    exact hd.2
  · cases h

theorem Bounded.read {time time' : Tm} {s s' : Bytes} {item : Item} (hb : Bounded time)
    (h : item.read s time = some (time', s')) : Bounded time' := by
  cases item with
  | year | month | day | hour | minute | second =>
    obtain ⟨r, hr, h⟩ := Option.map_eq_some_iff.mp h
    have hle := le_of_getNumber hr
    cases h
    obtain ⟨hy, hmo, hd, hh, hmi, hs⟩ := hb
    constructor <;> dsimp only <;> omega
  | space =>
    cases h
    exact hb
  | char c =>
    rw [Item.read] at h
    split at h
    · cases h
      exact hb
    · cases h

theorem Bounded.getTime {items : List Item} {time : Tm} (hb : Bounded time) (s : Bytes) :
    Bounded (getTime items s time) := by
  induction items generalizing time s with
  | nil => exact hb
  | cons item items ih =>
    rw [ParseTime.getTime]
    split
    · next time' s' h => exact ih (hb.read h) s'
    · exact hb

theorem Bounded.timegm_lt {time : Tm} (hb : Bounded time) : timegm time < 2 ^ 63 := by
  obtain ⟨hy, ⟨hm, hm'⟩, hd, hh, hmi, hs⟩ := hb
  have hmonth : (time.mon % 12 + 1).toNat = time.mon.toNat + 1 := by omega
  have hyear : time.mon / 12 = 0 := by omega
  have hstart : CivilDate.monthStart (1900 + time.year) (time.mon.toNat + 1) ≤ 366 * 9999 :=
    CivilDate.monthStart_le (by omega) (by omega)
  rw [timegm, hmonth, hyear, Int.add_zero]
  omega

theorem parseTime_lt (s : Bytes) : parseTime s < 2 ^ 63 := by
  rw [parseTime]
  split
  · decide
  · generalize (if s.length < 19 then dateFormat else dateTimeFormat) = format
    dsimp only
    split
    · decide
    · exact (bounded_empty.getTime _).timegm_lt

end Bounds

end ParseTime

end LevelPgServer
