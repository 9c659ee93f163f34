import LevelPgServer.Execution.LimitPlan
import LevelPgServer.Execution.ProjectionPlan
import LevelPgServer.Execution.ReadFilePlan
import LevelPgServer.Execution.ReverseScan
import LevelPgServer.Execution.SortPlan

namespace LevelPgServer

open ParseNode LevelDBPlanBuilder

/-- The plans that a query is built of. The order of a scan and of a union is its `m_order`. -/
inductive Plan
  | empty
  | showTables (tables : List TableInfo)
  | showColumns (pEntry : TableInfo)
  | const (plan : ConstPlan)
  | readFile (plan : ReadFilePlan)
  | scan (plan : LevelDBScanPlan) (order : SortOrder)
  | unionAll (hasOrder : Bool) (order : SortOrder) (plans : List Plan)
  | filter (predicatesInOr : List (List FilterPlan.PredicateInfo)) (child : Plan)
  | groupBy (plan : GroupByPlan) (child : Plan)
  | sort (plan : SortPlan) (child : Plan)
  | limit (plan : LimitPlan) (child : Plan)
  | projection (plan : ProjectionPlan) (child : Plan)

/-- What a run finds outside of the plan: the tables, the lines of the files, and the number of
blocks that the memory pool gives out to a sort. -/
structure Storage where
  tables : Bytes → LevelDB
  files : Bytes → Option (List Bytes)
  blocks : SortPlan → Nat

namespace Plan

mutual

def addProjection : Plan → ParseNode → Fallible (Option Nat × Plan)
  | empty, _ => .ok (none, empty)
  | showTables tables, pNode => .ok (ShowTables.addProjection pNode, showTables tables)
  | showColumns pEntry, pNode => .ok (ShowColumns.addProjection pNode, showColumns pEntry)
  | const plan, pNode => .ok (plan.addProjection pNode, const plan)
  | readFile plan, pNode => .ok (plan.addProjection pNode, readFile plan)
  | scan plan order, pNode => do
    let (i, plan) ← plan.addProjection pNode
    return (i, scan plan order)
  | unionAll hasOrder order plans, pNode => do
    let (i, plans) ← addProjections plans none pNode
    return (i, unionAll hasOrder order plans)
  | filter predicatesInOr child, pNode => do
    let (i, child) ← child.addProjection pNode
    return (i, filter predicatesInOr child)
  | groupBy plan child, pNode => do
    let (i, plan, child) ← plan.addProjection child.addProjection child pNode
    return (i, groupBy plan child)
  | sort plan child, pNode => do
    let (i, plan, child) ← plan.addProjection child.addProjection pNode
    return (i, sort plan child)
  | limit plan child, pNode => do
    let (i, child) ← child.addProjection pNode
    return (i, limit plan child)
  | projection plan child, pNode => .ok (plan.addProjection pNode, projection plan child)

/-- The loop of a union; the first child without the column ends it. -/
def addProjections : List Plan → Option Nat → ParseNode → Fallible (Option Nat × List Plan)
  | [], lastProj, _ => .ok (lastProj, [])
  | p :: ps, lastProj, pNode => do
    let (proj, p) ← p.addProjection pNode
    match proj with
    | none => return (none, p :: ps)
    | some i =>
      if lastProj.isSome ∧ lastProj ≠ some i then throwParse ("projection conflict for " ++ text pNode.sExpr)
      else do
        let (r, ps) ← addProjections ps (some i) pNode
        return (r, p :: ps)

end

def widen : DBDataType → DBDataType
  | .int16 | .int32 | .int64 => .int64
  | type => type

mutual

def getResultType : Plan → Nat → Fallible (Option DBDataType)
  | empty, _ => .ok none
  | showTables _, _ => .ok (some .string)
  | showColumns _, index => .ok (some (ShowColumns.getResultType index))
  | const plan, index => plan.getResultType index
  | readFile plan, index => plan.getResultType index
  | scan plan _, index =>
    match plan.getResultType index with
    | some type => .ok (some type)
    | none => .error .undefined
  | unionAll _ _ plans, index => do
    let type ← firstResultType plans index
    return type.map widen
  | filter _ child, index => child.getResultType index
  | groupBy plan child, index => plan.getResultType child.getResultType index
  | sort plan child, index =>
    match plan.proj[index]? with
    | some proj => child.getResultType proj.subIndex
    | none => .error .undefined
  | limit _ child, index => child.getResultType index
  | projection plan child, index => plan.getResultType child.getResultType index

def firstResultType : List Plan → Nat → Fallible (Option DBDataType)
  | [], _ => .error .undefined
  | p :: _, index => p.getResultType index

end

/-- The type of a column whose handler is used; `UNKNOWN` has none. -/
def columnType (plan : Plan) (index : Nat) : Fallible DBDataType := do
  match ← plan.getResultType index with
  | some type => return type
  | none => .error .undefined

def ops : PlanOps Plan Row := ⟨addProjection, columnType, fun _ row index type => row index type⟩

mutual

def getAllColumns : Plan → List Bytes
  | empty => []
  | showTables _ => ShowTables.columns
  | showColumns _ => ShowColumns.columns
  | const plan => plan.columns
  | readFile plan => plan.columns.map DBColumnInfo.name
  | scan plan _ => plan.table.columns.map DBColumnInfo.name
  | unionAll _ _ plans => firstColumns plans
  | filter _ child => child.getAllColumns
  | groupBy plan _ => plan.proj.map AggrFunc.name
  | sort _ child => child.getAllColumns
  | limit _ child => child.getAllColumns
  | projection plan _ => plan.proj.map ProjectionInfo.name

def firstColumns : List Plan → List Bytes
  | [] => []
  | p :: _ => p.getAllColumns

end

mutual

/-- A scan counts its value columns and one more. -/
def getResultColumns : Plan → Nat
  | empty => 0
  | showTables _ => 2
  | showColumns _ => 4
  | const plan => plan.columns.length
  | readFile plan => plan.columns.length
  | scan plan _ => plan.columnValues.length + 1
  | unionAll _ _ plans => firstResultColumns plans
  | filter _ child => child.getResultColumns
  | groupBy plan _ => plan.proj.length
  | sort plan _ => plan.proj.length
  | limit _ child => child.getResultColumns
  | projection plan _ => plan.proj.length

def firstResultColumns : List Plan → Nat
  | [] => 0
  | p :: _ => p.getResultColumns

end

/-- The name at an index of a list of names, which the C++ reads past its end where the index is out of range. -/
def nameAt (names : List Bytes) (index : Nat) : Fallible Bytes :=
  match names[index]? with
  | some name => .ok name
  | none => .error .undefined

mutual

/-- A scan names the columns in the order of the table, whatever their indexes are. -/
def getProjectionName : Plan → Nat → Fallible Bytes
  | empty, _ => .ok []
  | showTables _, index => .ok (if index = 0 then bytes "TableName" else bytes "Info")
  | showColumns _, index => nameAt ShowColumns.columns index
  | const plan, index => nameAt plan.columns index
  | readFile plan, index => nameAt (plan.columns.map DBColumnInfo.name) index
  | scan plan _, index => nameAt (plan.table.columns.map DBColumnInfo.name) index
  | unionAll _ _ plans, index => firstProjectionName plans index
  | filter _ child, index => child.getProjectionName index
  | groupBy plan _, index => nameAt (plan.proj.map AggrFunc.name) index
  | sort plan _, index => nameAt (plan.proj.map SortProjection.name) index
  | limit _ child, index => child.getProjectionName index
  | projection plan _, index => nameAt (plan.proj.map ProjectionInfo.name) index

def firstProjectionName : List Plan → Nat → Fallible Bytes
  | [], _ => .error .undefined
  | p :: _, index => p.getProjectionName index

end

/-- `ensureSortOrder` of a scan: the answer, and `m_order` afterwards. -/
def ensureScanOrder (plan : LevelDBScanPlan) (m_order : SortOrder) (iSortIndex : Nat) (sColumn : Bytes)
    (order : SortOrder) : Bool × SortOrder :=
  if plan.table.getColumnCount < iSortIndex then (false, m_order)
  else match plan.table.getColumnByName sColumn with
  | none => (false, m_order)
  | some pColumn =>
    if pColumn.keyIndex ≠ some iSortIndex then (false, m_order)
    else if order = .any then (true, m_order)
    else if m_order = .any then (true, order)
    else (m_order = order, m_order)

mutual

def ensureSortOrder : Plan → Nat → Bytes → SortOrder → Bool × Plan
  | empty, _, _, _ => (false, empty)
  | showTables tables, _, _, _ => (false, showTables tables)
  | showColumns pEntry, _, _, _ => (false, showColumns pEntry)
  | const plan, _, _, _ => (false, const plan)
  | readFile plan, _, _, _ => (false, readFile plan)
  | scan plan m_order, iSortIndex, sColumn, order =>
    let r := ensureScanOrder plan m_order iSortIndex sColumn order
    (r.1, scan plan r.2)
  | unionAll hasOrder m_order plans, iSortIndex, sColumn, order =>
    if hasOrder then
      let r := ensureSortOrders plans iSortIndex sColumn order
      (r.1, unionAll hasOrder (if r.1 then order else m_order) r.2)
    else (false, unionAll hasOrder m_order plans)
  | filter predicatesInOr child, iSortIndex, sColumn, order =>
    let r := child.ensureSortOrder iSortIndex sColumn order
    (r.1, filter predicatesInOr r.2)
  | groupBy plan child, iSortIndex, sColumn, order =>
    let r := child.ensureSortOrder iSortIndex sColumn order
    (r.1, groupBy plan r.2)
  | sort plan child, iSortIndex, sColumn, order =>
    let r := plan.ensureSortOrder iSortIndex sColumn order
    (r.1, sort r.2 child)
  | limit plan child, iSortIndex, sColumn, order =>
    let r := child.ensureSortOrder iSortIndex sColumn order
    (r.1, limit plan r.2)
  | projection plan child, iSortIndex, sColumn, order =>
    match (plan.find sColumn).bind (plan.proj[·]?) with
    | none => (false, projection plan child)
    | some proj =>
      let r := child.ensureSortOrder iSortIndex proj.raw order
      (r.1, projection plan r.2)

def ensureSortOrders : List Plan → Nat → Bytes → SortOrder → Bool × List Plan
  | [], _, _, _ => (true, [])
  | p :: ps, iSortIndex, sColumn, order =>
    let r := p.ensureSortOrder iSortIndex sColumn order
    if r.1 then
      let rest := ensureSortOrders ps iSortIndex sColumn order
      (rest.1, r.2 :: rest.2)
    else (false, r.2 :: ps)

end

section Run

variable (conv : Conversions) (std : StdSort) (st : Storage)

def runScan (plan : LevelDBScanPlan) (order : SortOrder) : Run Row :=
  let db := st.tables plan.table.name
  let run := if order = .descend then plan.runReversed conv db else plan.run conv db
  ⟨run.rows.map (fun e index _ => plan.getResult e index), run.fault⟩

def appendAll : List (Run Row) → Run Row
  | [] => .done
  | run :: runs => run.append (appendAll runs)

mutual

def run : Plan → Run Row
  | empty => .done
  | showTables tables => ShowTables.run tables
  | showColumns pEntry => ShowColumns.run pEntry
  | const plan => plan.run conv
  | readFile plan => plan.run conv (st.files plan.path)
  | scan plan order => runScan conv st plan order
  | unionAll _ order plans => appendAll (if order = .descend then (runs plans).reverse else runs plans)
  | filter predicatesInOr child => FilterPlan.run conv ops predicatesInOr child child.run
  | groupBy plan child => plan.run conv child.columnType child.run
  | sort plan child => plan.run conv std child.columnType (st.blocks plan) child.run
  | limit plan child => plan.run child.run
  | projection plan child => plan.run conv child.run

def runs : List Plan → List (Run Row)
  | [] => []
  | p :: ps => p.run :: runs ps

end

end Run

end Plan

end LevelPgServer
