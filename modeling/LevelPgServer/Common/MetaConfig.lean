import LevelPgServer.Common.ConfigInfo
import LevelPgServer.Common.ParseTime
import LevelPgServer.Lib.Captures

namespace LevelPgServer

open Captures
open SqlParser (isDigit isSpace)

/-- A table while its lines are read; `named` once it is in the map of the tables. -/
structure Section where
  table : TableInfo := {}
  named : Bool := false
  deriving Repr

/-- The configuration while it is loaded; `pCurrentTable` is the last table that was started. -/
structure MetaConfigLoader where
  workerNum : Nat := 20
  timeout : Nat := 60
  execBuffer : Nat := 1024 * 1024 * 1024
  tables : List Section := []
  current : Option Section := none
  deriving Repr

/-- Why a file is refused: a `ConfigException`, what `std::stol` throws, or an operation that the
language leaves undefined. -/
inductive LoadError
  | config (what : String)
  | number
  | undefined
  deriving DecidableEq, Repr

namespace MetaConfigLoader

def liftConfig {α : Type} : Except String α → Except LoadError α
  | .ok a => .ok a
  | .error what => .error (.config what)

/-- `[^=\s]+`. -/
def keyChar (c : UInt8) : Bool := c != 61 && !isSpace c

def notEquals (c : UInt8) : Bool := c != 61

/-- `([^=\s]+)\s*=\s*([^=]+)\s*`. -/
def attributeRegex : List (Item UInt8) :=
  [.run keyChar 1 true, .run isSpace 0 false, .one (· == 61), .run isSpace 0 false, .run notEquals 1 true,
    .run isSpace 0 false]

def nameChar (c : UInt8) : Bool := c != 58 && !isSpace c

def typeChar (c : UInt8) : Bool := c != 58 && c != 40 && c != 41 && !isSpace c

/-- `([^:\s]+):([^:\(\)\s]+)`, and `\([\d]+\)`, which may follow. -/
def columnRegex : List (Item UInt8) := [.run nameChar 1 true, .one (· == 58), .run typeChar 1 true]

def lengthRegex : List (Item UInt8) := [.one (· == 40), .run isDigit 1 true, .one (· == 41)]

/-- `m_dataTypeMap`. -/
def dataTypes : List (Bytes × DBDataType) :=
  [(bytes "bool", .bool), (bytes "int16", .int16), (bytes "int32", .int32), (bytes "int64", .int64),
    (bytes "date", .date), (bytes "datetime", .datetime), (bytes "float", .float), (bytes "double", .double),
    (bytes "varchar", .string), (bytes "bytes", .bytes)]

def getDataType (sType : Bytes) : Option DBDataType := dataTypes.lookup sType

/-- `std::stol`, which looks at nothing behind the digits. -/
def stol (s : Bytes) : Option Int :=
  let s := s.dropWhile isSpace
  let ds := ((if s.head? = some 45 ∨ s.head? = some 43 then s.tail else s)).takeWhile isDigit
  let v : Int := if s.head? = some 45 then -(ParseTime.decimal ds : Int) else ParseTime.decimal ds
  if ds ≠ [] ∧ -2 ^ 63 ≤ v ∧ v < 2 ^ 63 then some v else none

def addColumn (t : TableInfo) (sValue : Bytes) : Except LoadError TableInfo :=
  match search columnRegex sValue with
  | some ([name, sType], rest) =>
    match getDataType sType with
    | none => .error (.config ("Unknown datatype " ++ text sType))
    | some type =>
      match matchAt lengthRegex rest with
      | some ([ds], _) =>
        if 2 ^ 31 ≤ ParseTime.decimal ds then .error .undefined
        else if ParseTime.decimal ds = 0 then .error (.config ("Illegal type length (" ++ text ds ++ ")"))
        else .ok (t.addColumn name type (ParseTime.decimal ds))
      | _ => .ok (t.addColumn name type 0)
  | _ => .error (.config ("Illegal attribute value " ++ text sValue))

def splitCommas : Bytes → List Bytes
  | [] => [[]]
  | c :: s =>
    if c = 44 then [] :: splitCommas s
    else match splitCommas s with
    | [] => [[c]]
    | piece :: pieces => (c :: piece) :: pieces

/-- `absl::StrSplit` with `SkipWhitespace`: only pieces without any text are left out. -/
def splitKeys (sValue : Bytes) : List Bytes := (splitCommas sValue).filter fun piece => !piece.all isSpace

def addKeys (t : TableInfo) (sValue : Bytes) : Except LoadError TableInfo :=
  liftConfig do
    let t ← t.addKeyColumns (splitKeys sValue)
    t.evaluate

def addAttribute (t : TableInfo) (key value : Bytes) : TableInfo :=
  if t.attr.any (fun kv => kv.1 == key) then
    { t with attr := t.attr.map fun kv => if kv.1 == key then (key, value) else kv }
  else { t with attr := t.attr ++ [(key, value)] }

def named (config : MetaConfigLoader) : List TableInfo :=
  ((config.tables ++ config.current.toList).filter Section.named).map Section.table

def getTableInfo (config : MetaConfigLoader) (name : Bytes) : Option TableInfo :=
  config.named.find? fun t => t.name == name

/-- `setName` and `addTable`; a table that is in the map twice is deleted twice. -/
def nameTable (config : MetaConfigLoader) (s : Section) (name : Bytes) : Except LoadError Section :=
  if (config.getTableInfo name).isSome then .error (.config ("table " ++ text name ++ " already defined!"))
  else if s.named then .error .undefined
  else .ok { table := { s.table with name }, named := true }

def setGlobal (config : MetaConfigLoader) (sKey sValue : Bytes) : Except LoadError MetaConfigLoader :=
  let number : Except LoadError Nat := match stol sValue with
    | some v => .ok (v % 2 ^ 32).toNat
    | none => .error .number
  if sKey = bytes "worker_num" then do return { config with workerNum := ← number }
  else if sKey = bytes "timeout" then do return { config with timeout := ← number }
  else if sKey = bytes "execution_buffer" then do return { config with execBuffer := ← number }
  else .ok config

def setTable (config : MetaConfigLoader) (s : Section) (sKey sValue : Bytes) : Except LoadError Section :=
  if sKey = bytes "name" then config.nameTable s sValue
  else if sKey = bytes "column" then do return { s with table := ← addColumn s.table sValue }
  else if sKey = bytes "key" then do return { s with table := ← addKeys s.table sValue }
  else .ok { s with table := addAttribute s.table sKey sValue }

def setAttribute (config : MetaConfigLoader) (sKey sValue : Bytes) : Except LoadError MetaConfigLoader :=
  match config.current with
  | none => config.setGlobal sKey sValue
  | some s => do return { config with current := some (← config.setTable s sKey sValue) }

def startTable (config : MetaConfigLoader) : MetaConfigLoader :=
  { config with tables := config.tables ++ config.current.toList, current := some {} }

def loadLine (config : MetaConfigLoader) (line : Bytes) : Except LoadError MetaConfigLoader :=
  let line := line.takeWhile (· != 35)
  if bytes "[table]" <:+: line then .ok config.startTable
  else
    match search attributeRegex line with
    | some ([sKey, sValue], _) => config.setAttribute sKey sValue
    | _ => .ok config

/-- `load` of the lines of a file. -/
def load (config : MetaConfigLoader) (infile : Option (List Bytes)) : Except LoadError MetaConfigLoader :=
  match infile with
  | none => .error (.config "reading config file failed")
  | some lines => lines.foldlM loadLine { config with tables := [], current := none }

end MetaConfigLoader

end LevelPgServer
