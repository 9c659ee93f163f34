import LevelPgServer.Common.ParseTools
import LevelPgServer.Execution.ExecutionResult

namespace LevelPgServer

open ParseNode ExecutionResult ByteOrder

inductive IntType
  | bool | int16 | int32 | int64
  deriving DecidableEq, Repr

def IntType.size : IntType → Nat
  | bool => 1
  | int16 => 2
  | int32 => 4
  | int64 => 8

def IntType.min : IntType → Int
  | bool => 0
  | int16 => -2 ^ 15
  | int32 => -2 ^ 31
  | int64 => -2 ^ 63

def IntType.max : IntType → Int
  | bool => 1
  | int16 => 2 ^ 15 - 1
  | int32 => 2 ^ 31 - 1
  | int64 => 2 ^ 63 - 1

def IntType.checkValue (t : IntType) (value : Int) : Fallible Unit :=
  if value < t.min ∨ t.max < value then
    throwParse ("integer " ++ ToString.toString value ++ " exceed data type range")
  else .ok ()

inductive FloatType
  | float | double
  deriving DecidableEq, Repr

def FloatType.size : FloatType → Nat
  | float => 4
  | double => 8

def FloatType.lowest : FloatType → Double
  | float => Double.lowestSingle
  | double => Double.lowestDouble

def FloatType.max : FloatType → Double
  | float => Double.maxSingle
  | double => Double.maxDouble

def FloatType.checkValue (conv : Conversions) (t : FloatType) (value : Double) : Fallible Unit :=
  if !value.isNaN ∧ t.max.orderKey < |value.orderKey| then
    throwParse ("float " ++ conv.formatDouble value ++ " exceed data type range")
  else .ok ()

/-- The handler classes; the handlers of BOOL, DATE and DATETIME override only `fromNode`
and what no other function here calls. -/
inductive DBDataTypeHandler
  | int (type : IntType)
  | float (type : FloatType)
  | string
  deriving DecidableEq, Repr

def getHandler : DBDataType → DBDataTypeHandler
  | .bool => .int .bool
  | .int16 => .int .int16
  | .int32 => .int .int32
  | .int64 | .date | .datetime => .int .int64
  | .float => .float .float
  | .double => .float .double
  | .string | .bytes => .string

/-- `numeric_limits<uint16_t>::max()`: the length that stands for the greatest string. -/
def maxLength : Nat := 65535

namespace DBDataTypeHandler

variable (conv : Conversions)

def getSize (h : DBDataTypeHandler) (result : ExecutionResult) : Fallible Nat :=
  match h with
  | int t => .ok t.size
  | float t => .ok t.size
  | string =>
    if result.isMaxString then .ok 2
    else do
      let s ← result.getString conv
      return s.length + 2

/-- `getSize` of the bytes at `pData`. -/
def getSizeAt (h : DBDataTypeHandler) (pData : Bytes) : Fallible Nat :=
  match h with
  | int t => .ok t.size
  | float t => .ok t.size
  | string =>
    if pData.length < 2 then .error .undefined
    else
      let len := ofLittle (pData.take 2) + 2
      if len = maxLength then .ok 2 else .ok len

def setToMin : DBDataTypeHandler → ExecutionResult
  | int t => .int t.min
  | float t => .double t.lowest
  | string => .string []

def setToMax : DBDataTypeHandler → ExecutionResult
  | int t => .int t.max
  | float t => .double t.max
  | string => .maxString

def readInt (t : IntType) (pData : Bytes) : Fallible ExecutionResult :=
  match t with
  | .bool => if 1 < ofLittle pData then .error .undefined else .ok (.int (ofLittle pData))
  | _ => .ok (.int (intOfLittle pData))

def readFloat (t : FloatType) (pData : Bytes) : ExecutionResult :=
  match t with
  | .float => .double (Single.widen ⟨BitVec.ofNat 32 (ofLittle pData)⟩)
  | .double => .double ⟨BitVec.ofNat 64 (ofLittle pData)⟩

def read (h : DBDataTypeHandler) (pData : Bytes) : Fallible ExecutionResult :=
  match h with
  | int t => if pData.length < t.size then .error .undefined else readInt t (pData.take t.size)
  | float t => if pData.length < t.size then .error .undefined else .ok (readFloat t (pData.take t.size))
  | string =>
    if pData.length < 2 then .error .undefined
    else
      let len := ofLittle (pData.take 2)
      if len = maxLength then .ok .maxString
      else if pData.length < 2 + len then .error .undefined
      else .ok (.string ((pData.drop 2).take len))

def writeFloat (t : FloatType) (value : Double) : Bytes :=
  match t with
  | .float => toLittle 4 value.narrow.bits.toNat
  | .double => toLittle 8 value.bits.toNat

/-- The bytes `write` stores. -/
def write (h : DBDataTypeHandler) (result : ExecutionResult) : Fallible Bytes :=
  match h with
  | int t => do
    let value ← result.getInt conv
    t.checkValue value
    return intToLittle t.size value
  | float t => do
    let value ← result.getDouble conv
    t.checkValue conv value
    return writeFloat t value
  | string =>
    if result.isMaxString then .ok (toLittle 2 maxLength)
    else do
      let s ← result.getString conv
      if maxLength ≤ s.length then throwExecution "too large string value"
      else return toLittle 2 s.length ++ s

/-- `std::string_view::compare`. -/
def compareBytes : Bytes → Bytes → Ordering
  | [], [] => .eq
  | [], _ :: _ => .lt
  | _ :: _, [] => .gt
  | a :: as, b :: bs => if a < b then .lt else if b < a then .gt else compareBytes as bs

def compareInt (a b : Int) : Ordering := if a = b then .eq else if a < b then .lt else .gt

def compareDouble (a b : Double) : Ordering := if a.eq b then .eq else if a.lt b then .lt else .gt

/-- The sign of what `compare` returns. -/
def compare (h : DBDataTypeHandler) (a b : ExecutionResult) : Fallible Ordering :=
  match h with
  | int _ => do
    let aa ← a.getInt conv
    let bb ← b.getInt conv
    return compareInt aa bb
  | float _ => do
    let aa ← a.getDouble conv
    let bb ← b.getDouble conv
    return compareDouble aa bb
  | string =>
    if a.isMaxString then .ok (if b.isMaxString then .eq else .gt)
    else if b.isMaxString then .ok .lt
    else do
      let s ← a.getString conv
      let t ← b.getString conv
      return compareBytes s t

def stringToInt (t : IntType) (s : Bytes) : Fallible Int :=
  if s = [] then .ok 0
  else match conv.simpleAtoi s with
  | none => throwParse ("Could not convert to int:" ++ text s)
  | some value => do
    t.checkValue value
    return value

def stringToDouble (s : Bytes) : Fallible Double :=
  if s = [] then .ok (Double.ofInt 0)
  else match conv.simpleAtod s with
  | none => throwParse ("Could not convert to double:" ++ text s)
  | some value => .ok value

def valueMap : List (Bytes × Bool) :=
  [(bytes "1", true), (bytes "true", true), (bytes "on", true), (bytes "yes", true), (bytes "t", true),
    (bytes "y", true), (bytes "0", false), (bytes "false", false), (bytes "off", false), (bytes "no", false),
    (bytes "f", false), (bytes "n", false)]

def stringToBool (s : Bytes) : Fallible Bool :=
  match valueMap.find? (fun kv => Tools.equalsIgnoreCase s kv.1) with
  | some (_, v) => .ok v
  | none => throwExecution ("unexpected bool value: " ++ text s)

def timeToInt (sTime : Bytes) : Fallible Int :=
  if sTime = [] then .ok 0
  else if conv.parseTime sTime ≤ 0 then throwExecution ("Wrong Time Format:" ++ text sTime)
  else .ok (conv.parseTime sTime)

def parameterUnbound {α : Type} : Fallible α := throwExecution "parameter unbound"

def wrongConstType (pValue : ParseNode) : String := "wrong const value type:" ++ text pValue.sExpr

def intOfNode (t : IntType) (pValue : ParseNode) : Fallible Int :=
  match pValue.type, pValue.getOp with
  | .int, _ => stringToInt conv t pValue.getString
  | .param, .textParam => stringToInt conv t pValue.getString
  | .param, .binaryParam => Tools.binaryToInt pValue.getString
  | .param, .unboundParam => parameterUnbound
  | .param, _ => .error .undefined
  | _, _ => throwExecution (wrongConstType pValue)

def fromIntNode (t : IntType) (pValue : ParseNode) : Fallible ExecutionResult := do
  let value ← intOfNode conv t pValue
  t.checkValue value
  return .int value

def boolOfNode (pValue : ParseNode) : Fallible Bool :=
  match pValue.type, pValue.getOp with
  | .int, _ => .ok (pValue.getString != bytes "0")
  | .str, _ => stringToBool pValue.getString
  | .param, .textParam => stringToBool pValue.getString
  | .param, .binaryParam => do
    let n ← Tools.binaryToInt pValue.getString
    return n != 0
  | .param, .unboundParam => parameterUnbound
  | .param, _ => .error .undefined
  | _, _ => throwExecution (wrongConstType pValue)

def fromBoolNode (pValue : ParseNode) : Fallible ExecutionResult := do
  let value ← boolOfNode pValue
  return .int (if value then 1 else 0)

def timeOfNode (pValue : ParseNode) : Fallible Int :=
  match pValue.type, pValue.getOp with
  | .date, _ => timeToInt conv pValue.getString
  | .param, .textParam => timeToInt conv pValue.getString
  | .param, .unboundParam => parameterUnbound
  | .param, .binaryParam => throwExecution "Wrong bind parameter mode for datetime"
  | .param, _ => .error .undefined
  | _, _ => throwParse (wrongConstType pValue)

def fromDatetimeNode (pValue : ParseNode) : Fallible ExecutionResult := do
  let value ← timeOfNode conv pValue
  return .int value

def doubleOfNode (pValue : ParseNode) : Fallible Double :=
  match pValue.type, pValue.getOp with
  | .int, _ | .float, _ => stringToDouble conv pValue.getString
  | .param, .textParam => stringToDouble conv pValue.getString
  | .param, .binaryParam => Tools.binaryToDouble pValue.getString
  | .param, .unboundParam => parameterUnbound
  | .param, _ => .error .undefined
  | _, _ => throwParse (wrongConstType pValue)

def fromFloatNode (t : FloatType) (pValue : ParseNode) : Fallible ExecutionResult := do
  let value ← doubleOfNode conv pValue
  t.checkValue conv value
  return .double value

def fromStringNode (pValue : ParseNode) : Fallible ExecutionResult :=
  match pValue.type, pValue.getOp with
  | .str, _ | .binary, _ | .param, .textParam => .ok (.string pValue.getString)
  | .param, .unboundParam => parameterUnbound
  | .param, _ => throwExecution "wrong bind param mode"
  | _, _ => throwExecution ("Wrong data type for " ++ text pValue.sExpr ++ ", expect string")

def fromNode (type : DBDataType) (pValue : ParseNode) : Fallible ExecutionResult :=
  match type with
  | .bool => fromBoolNode pValue
  | .int16 => fromIntNode conv .int16 pValue
  | .int32 => fromIntNode conv .int32 pValue
  | .int64 => fromIntNode conv .int64 pValue
  | .date | .datetime => fromDatetimeNode conv pValue
  | .float => fromFloatNode conv .float pValue
  | .double => fromFloatNode conv .double pValue
  | .string | .bytes => fromStringNode pValue

def fromString (type : DBDataType) (s : Bytes) : Fallible ExecutionResult :=
  match type with
  | .bool => do
    let value ← stringToBool s
    return .int (if value then 1 else 0)
  | .int16 => do
    let value ← stringToInt conv .int16 s
    return .int value
  | .int32 => do
    let value ← stringToInt conv .int32 s
    return .int value
  | .int64 => do
    let value ← stringToInt conv .int64 s
    return .int value
  | .date | .datetime => do
    let value ← timeToInt conv s
    return .int value
  | .float => do
    let value ← stringToDouble conv s
    FloatType.checkValue conv .float value
    return .double value
  | .double => do
    let value ← stringToDouble conv s
    FloatType.checkValue conv .double value
    return .double value
  | .string | .bytes => .ok (.string s)

/-- The sum is an `int64_t`, and leaving its range is undefined. -/
def add (h : DBDataTypeHandler) (result more : ExecutionResult) : Fallible ExecutionResult :=
  match h with
  | int .bool => throwExecution "add is not supported for bool"
  | int t => do
    let a ← result.getInt conv
    let b ← more.getInt conv
    if a + b < IntType.int64.min ∨ IntType.int64.max < a + b then .error .undefined
    else do
      t.checkValue (a + b)
      return .int (a + b)
  | float t => do
    let a ← result.getDouble conv
    let b ← more.getDouble conv
    t.checkValue conv (a.add b)
    return .double (a.add b)
  | string => throwExecution "add is not supported for string"

def div (h : DBDataTypeHandler) (result : ExecutionResult) (value : Nat) : Fallible ExecutionResult :=
  match h with
  | int .bool => throwExecution "div is not supported for bool"
  | int _ => do
    let v ← result.getInt conv
    return .double ((Double.ofInt v).div (Double.ofInt value))
  | float _ => do
    let v ← result.getDouble conv
    return .double (v.div (Double.ofInt value))
  | string => throwExecution "div is not supported for string"

end DBDataTypeHandler

namespace ExecutionResult

variable (conv : Conversions)

def compare (a b : ExecutionResult) (type : DBDataType) : Fallible Ordering := (getHandler type).compare conv a b

def add (result more : ExecutionResult) (type : DBDataType) : Fallible ExecutionResult :=
  (getHandler type).add conv result more

def div (result : ExecutionResult) (value : Nat) (type : DBDataType) : Fallible ExecutionResult :=
  if value = 0 then throwExecution "Divide zero" else (getHandler type).div conv result value

end ExecutionResult

end LevelPgServer
