import LevelPgServer.Common.ConfigInfo
import LevelPgServer.Lib.Binary64

namespace LevelPgServer

inductive ExecutionResult
  | null
  | string (s : Bytes)
  | maxString
  | int (v : Int)
  | double (v : Double)
  deriving DecidableEq, Repr

/-- The conversions between text and values that come from the libraries; `parseTime`
reads a date with `std::get_time` and `timegm`. -/
structure Conversions where
  simpleAtoi : Bytes → Option Int
  simpleAtod : Bytes → Option Double
  formatDouble : Double → String
  parseTime : Bytes → Int
  parseTime_lt : ∀ s, parseTime s < 2 ^ 63

theorem noTime_lt (_ : Bytes) : (0 : Int) < 2 ^ 63 := by decide

/-- Conversions that read whole decimal numbers and no dates. -/
def decimalConversions : Conversions where
  simpleAtoi s := (text s).toInt?
  simpleAtod s := (text s).toInt?.map Double.ofInt
  formatDouble _ := ""
  parseTime _ := 0
  parseTime_lt := noTime_lt

def digitConversions : Conversions where
  simpleAtoi s :=
    if s ≠ [] ∧ s.all (fun c => 48 ≤ c && c ≤ 57) then some (s.foldl (fun n c => 10 * n + (c.toNat - 48)) 0 : Nat)
    else none
  simpleAtod _ := none
  formatDouble _ := ""
  parseTime _ := 0
  parseTime_lt := noTime_lt

namespace ExecutionResult

variable (conv : Conversions)

def isNull : ExecutionResult → Bool
  | null => true
  | _ => false

def isMaxString : ExecutionResult → Bool
  | maxString => true
  | _ => false

def toString : ExecutionResult → String
  | null => "null"
  | string s => "string:" ++ text s
  | maxString => "string_max"
  | int v => "int:" ++ ToString.toString v
  | double v => "double:" ++ conv.formatDouble v

def getString : ExecutionResult → Fallible Bytes
  | string s => .ok s
  | r => throwExecution ("wrong DataType expect string, got " ++ r.toString conv)

def getInt : ExecutionResult → Fallible Int
  | int v => .ok v
  | r => throwExecution ("wrong DataType expect int, got " ++ r.toString conv)

def getDouble : ExecutionResult → Fallible Double
  | int v => .ok (Double.ofInt v)
  | double v => .ok v
  | r => throwExecution ("wrong DataType expect double, got " ++ r.toString conv)

@[simp] theorem getString_string (s : Bytes) : (string s).getString conv = .ok s := rfl
@[simp] theorem getInt_int (v : Int) : (int v).getInt conv = .ok v := rfl
@[simp] theorem getDouble_int (v : Int) : (int v).getDouble conv = .ok (Double.ofInt v) := rfl
@[simp] theorem getDouble_double (v : Double) : (double v).getDouble conv = .ok v := rfl
@[simp] theorem isMaxString_string (s : Bytes) : (string s).isMaxString = false := rfl
@[simp] theorem isMaxString_maxString : maxString.isMaxString = true := rfl

end ExecutionResult

end LevelPgServer
