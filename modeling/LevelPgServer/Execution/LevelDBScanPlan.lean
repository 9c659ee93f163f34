import LevelPgServer.Execution.KeySearchRange
import LevelPgServer.Lib.Scatter

namespace LevelPgServer

open ParseNode

/-- What the calls of `next` on a plan deliver: its rows, and the fault that ends them if
they do not end by themselves. -/
structure Run (ρ : Type) where
  rows : List ρ
  fault : Option Fault
  deriving DecidableEq

namespace Run

variable {ρ : Type}

def done : Run ρ := ⟨[], none⟩

def failed (f : Fault) : Run ρ := ⟨[], some f⟩

def cons (r : ρ) (run : Run ρ) : Run ρ := ⟨r :: run.rows, run.fault⟩

/-- One run after another; the second starts only when the first has ended by itself. -/
def append (a b : Run ρ) : Run ρ :=
  match a.fault with
  | some _ => a
  | none => ⟨a.rows ++ b.rows, b.fault⟩

end Run

/-- What a plan offers to the plan above it, whatever its state `σ` and its rows `ρ` are. -/
structure PlanOps (σ ρ : Type) where
  addProjection : σ → ParseNode → Fallible (Option Nat × σ)
  getResultType : σ → Nat → Fallible DBDataType
  getResult : σ → ρ → Nat → DBDataType → Fallible ExecutionResult

/-- A value column is in `columnValues` once it has been projected. -/
structure LevelDBScanPlan where
  table : TableInfo
  keyTypes : List DBDataType
  valueTypes : List DBDataType
  columnValues : List Bool
  projectValue : Bool := false
  searchRange : Option KeySearchRange := none

namespace LevelDBScanPlan

variable (conv : Conversions)

def collectTypes : List DBColumnInfo → List DBDataType × List DBDataType → List DBDataType × List DBDataType
  | [], acc => acc
  | c :: cs, acc =>
    match c.keyIndex with
    | none => collectTypes cs (acc.1, acc.2 ++ [c.type])
    | some k => collectTypes cs (acc.1.set k c.type, acc.2)

/-- The constructor. Every key type is set by the column of that key, whatever stood there before. -/
def create (t : TableInfo) : LevelDBScanPlan :=
  let types := collectTypes t.columns (List.replicate t.getKeyCount .int16, [])
  { table := t
    keyTypes := types.1
    valueTypes := types.2
    columnValues := List.replicate (t.getColumnCount - t.getKeyCount) false }

def setPredicate (plan : LevelDBScanPlan) (pNode : ParseNode) : Fallible (LevelDBScanPlan × List Bytes) := do
  let r ← KeySearchRange.build conv plan.keyTypes plan.table pNode
  return ({ plan with searchRange := some r.1 }, r.2)

def addProjection (plan : LevelDBScanPlan) (pNode : ParseNode) : Fallible (Option Nat × LevelDBScanPlan) :=
  if Tools.isRowKeyNode pNode then .ok (some (plan.columnValues.length + plan.table.getKeyCount), plan)
  else if pNode.type = .name then
    match plan.table.getColumnByName pNode.getString with
    | none => throwParse ("Unknown column: " ++ text pNode.getString)
    | some pColumn =>
      match pColumn.keyIndex, pColumn.valueIndex with
      | some k, _ => .ok (some k, plan)
      | none, some v =>
        .ok (some (plan.table.getKeyCount + v),
          { plan with projectValue := true, columnValues := plan.columnValues.set v true })
      | none, none => .error .undefined
  else .ok (none, plan)

def getResultType (plan : LevelDBScanPlan) (index : Nat) : Option DBDataType :=
  if index = plan.table.getColumnCount then some .bytes
  else if index < plan.table.getKeyCount then (plan.table.getKeyColumn index).map DBColumnInfo.type
  else (plan.table.getValueColumn (index - plan.table.getKeyCount)).map DBColumnInfo.type

def getResult (plan : LevelDBScanPlan) (e : Entry) (columnIndex : Nat) : Fallible ExecutionResult :=
  if columnIndex < plan.table.getKeyCount then DataRow.getResult plan.keyTypes e.1 columnIndex
  else
    let v := columnIndex - plan.table.getKeyCount
    if v < plan.columnValues.length then
      if plan.columnValues.getD v false then DataRow.getResult plan.valueTypes e.2 v else .error .undefined
    else .ok (.string e.1)

/-- The type of a column; an index out of range is one the C++ reads past its vectors with. -/
def columnType (plan : LevelDBScanPlan) (index : Nat) : Fallible DBDataType :=
  match plan.getResultType index with
  | some type => .ok type
  | none => .error .undefined

def ops : PlanOps LevelDBScanPlan Entry := ⟨addProjection, columnType, fun plan e index _ => plan.getResult e index⟩

def keyValues (plan : LevelDBScanPlan) (e : Entry) : Fallible (List ExecutionResult) :=
  (List.range plan.table.getKeyCount).mapM (DataRow.getResult plan.keyTypes e.1)

def columnResults (plan : LevelDBScanPlan) (e : Entry) : Fallible (List ExecutionResult) :=
  if plan.projectValue then
    ((List.range plan.columnValues.length).filter (fun i => plan.columnValues.getD i false)).mapM
      (DataRow.getResult plan.valueTypes e.2)
  else .ok []

def scanFrom (plan : LevelDBScanPlan) (range : KeySearchRange) : List Entry → Run Entry
  | [] => .done
  | e :: es =>
    match plan.keyValues e with
    | .error f => .failed f
    | .ok ks =>
      match range.exceedEnd conv ks with
      | .error f => .failed f
      | .ok true => .done
      | .ok false =>
        match plan.columnResults e with
        | .error f => .failed f
        | .ok _ => .cons e (scanFrom plan range es)

/-- The range `begin` falls back on when no predicate was set. -/
def begin (plan : LevelDBScanPlan) : Fallible KeySearchRange :=
  match plan.searchRange with
  | some range => .ok range
  | none => do
    let r ← KeySearchRange.build conv plan.keyTypes plan.table .null
    return r.1

def run (plan : LevelDBScanPlan) (db : LevelDB) : Run Entry :=
  match plan.begin conv with
  | .error f => .failed f
  | .ok range =>
    match range.seekStart conv plan.table.keyTypes (.createIterator db) with
    | .error f => .failed f
    | .ok ahead => plan.scanFrom conv range ahead

theorem collectTypes_eq (cs : List DBColumnInfo) (acc : List DBDataType × List DBDataType) :
    collectTypes cs acc = (Scatter.scatter (cs.map (fun c => (c.keyIndex, c.type))) acc.1,
      acc.2 ++ (cs.filter (fun c => c.keyIndex.isNone)).map DBColumnInfo.type) := by
  induction cs generalizing acc with
  | nil => simp [collectTypes, Scatter.scatter]
  | cons c cs ih =>
    rw [collectTypes]
    cases hk : c.keyIndex with
    | none => simp [ih, Scatter.scatter, hk]
    | some k => simp [ih, Scatter.scatter, hk]

theorem create_valueTypes {t : TableInfo} (h : t.Valid) : (create t).valueTypes = t.valueTypes := by
  rw [create, collectTypes_eq, TableInfo.valueTypes, h.valueColumns, List.nil_append]

theorem create_keyTypes {t : TableInfo} (h : t.Valid) : (create t).keyTypes = t.keyTypes := by
  rw [create, collectTypes_eq]
  refine Scatter.scatter_eq ?_ (fun k ty hk => ?_) (fun k ty ty' hk hm => ?_)
  · simp [h.length_keyTypes, TableInfo.getKeyCount]
  · rw [h.getElem?_keyTypes, Option.map_eq_some_iff] at hk
    obtain ⟨c, hc, rfl⟩ := hk
    rw [TableInfo.getKeyColumn, Option.bind_eq_some_iff] at hc
    obtain ⟨i, hi, hc⟩ := hc
    exact List.mem_map.mpr ⟨c, List.mem_of_getElem? hc, by rw [(h.keyIndex i c hc k).mpr hi]⟩
  · obtain ⟨c, hc, he⟩ := List.mem_map.mp hm
    obtain ⟨i, hi⟩ := List.mem_iff_getElem?.mp hc
    obtain ⟨hck, rfl⟩ := Prod.mk.inj he
    rw [h.getElem?_keyTypes, h.getKeyColumn hi hck] at hk
    exact Option.some.inj hk

end LevelDBScanPlan

end LevelPgServer
