import LevelPgServer.Execution.LevelDBScanPlan

namespace LevelPgServer

open ParseNode

/-- The type of a constant; an absent type is `UNKNOWN`. -/
def ParseNode.getConstResultType (pNode : ParseNode) : Option DBDataType :=
  match pNode.type with
  | .int => some .int64
  | .str => some .string
  | .binary => some .bytes
  | .float => some .double
  | .date => some .datetime
  | _ => none

/-- A row as the plan above sees it: `getResult` while the plan stands at the row. -/
abbrev Row := Nat → DBDataType → Fallible ExecutionResult

def indexOfName (fits : Bytes → Bool) : List Bytes → Option Nat
  | [] => none
  | s :: names => if fits s then some 0 else (indexOfName fits names).map (· + 1)

structure ConstPlan where
  columns : List Bytes := []
  rows : List ParseNode := []

namespace ConstPlan

def columnName (index : Nat) : Bytes := bytes "c" ++ bytes (ToString.toString (index + 1))

def addRow (plan : ConstPlan) (pRow : ParseNode) : ConstPlan where
  columns := if plan.rows = [] then plan.columns ++ (List.range pRow.children.length).map columnName else plan.columns
  rows := plan.rows ++ [pRow]

def addProjection (plan : ConstPlan) (pNode : ParseNode) : Option Nat :=
  if pNode.type = .name then indexOfName (· == pNode.getString) plan.columns else none

/-- The loop of `getResultType` behind a row whose value has the type `lastType`. -/
def checkTypes (index : Nat) (lastType : NodeType) (result : Option DBDataType) :
    List ParseNode → Fallible (Option DBDataType)
  | [] => .ok result
  | pRow :: rows =>
    let pValue := pRow.getChild index
    if pValue.type ≠ lastType ∧ lastType ≠ .none then
      throwParse ("value " ++ text pValue.sExpr ++ " at column " ++ ToString.toString (index + 1) ++
        " does not match with previous rows:")
    else checkTypes index pValue.type pValue.getConstResultType rows

def getResultType (plan : ConstPlan) (index : Nat) : Fallible (Option DBDataType) :=
  checkTypes index .none none plan.rows

def row (conv : Conversions) (pRow : ParseNode) : Row := fun index type =>
  match pRow.children[index]? with
  | some pValue => DBDataTypeHandler.fromNode conv type pValue
  | none => .error .undefined

def run (conv : Conversions) (plan : ConstPlan) : Run Row := ⟨plan.rows.map (row conv), none⟩

end ConstPlan

namespace ShowTables

def columns : List Bytes := [bytes "TableName", bytes "Info"]

def addProjection (pNode : ParseNode) : Option Nat :=
  if pNode.type = .name then indexOfName (Tools.equalsIgnoreCase pNode.getString) columns else none

def row (pTable : TableInfo) : Row := fun index _ =>
  match index with
  | 0 => .ok (.string pTable.name)
  | 1 => .ok (.string (pTable.getAttribute (bytes "info") []))
  | _ => .error .undefined

def run (tables : List TableInfo) : Run Row := ⟨tables.map row, none⟩

end ShowTables

namespace ShowColumns

def columns : List Bytes := [bytes "Field", bytes "Type", bytes "KeyPosition", bytes "Precision"]

def addProjection (pNode : ParseNode) : Option Nat :=
  if pNode.type = .name then indexOfName (fun s => Tools.equalsIgnoreCase s pNode.getString) columns else none

def getResultType : Nat → DBDataType
  | 0 | 1 => .string
  | _ => .int64

/-- `MetaConfig::typeToString`: the name a type has in the configuration. -/
def typeToString : DBDataType → Bytes
  | .bool => bytes "bool"
  | .int16 => bytes "int16"
  | .int32 => bytes "int32"
  | .int64 => bytes "int64"
  | .date => bytes "date"
  | .datetime => bytes "datetime"
  | .float => bytes "float"
  | .double => bytes "double"
  | .string => bytes "varchar"
  | .bytes => bytes "bytes"

def row (pColumn : DBColumnInfo) : Row := fun index _ =>
  match index with
  | 0 => .ok (.string pColumn.name)
  | 1 => .ok (.string (typeToString pColumn.type))
  | 2 => .ok (.int (match pColumn.keyIndex with
    | none => -1
    | some k => k))
  | 3 => .ok (.int (if pColumn.len = 0 then -1 else pColumn.len))
  | _ => .error .undefined

def run (pEntry : TableInfo) : Run Row := ⟨pEntry.columns.map row, none⟩

end ShowColumns

end LevelPgServer
