import LevelPgServer.Execution.Plan

namespace LevelPgServer

open ParseNode LevelDBPlanBuilder

structure MetaConfig where
  tables : List TableInfo

namespace MetaConfig

def getTableInfo (config : MetaConfig) (name : Bytes) : Option TableInfo := config.tables.find? (·.name == name)

end MetaConfig

namespace Plan

def ofScan (info : ScanPlanInfo) : Plan :=
  match info.predicatesInOr with
  | none => scan info.scan .any
  | some predicatesInOr => filter predicatesInOr (scan info.scan .any)

def ofSelect : SelectPlan → Plan
  | .single info => ofScan info
  | .unionAll plans => unionAll true .any (plans.map ofScan)

end Plan

namespace SelectPlanBuilder

variable (conv : Conversions)

def sortOrder (pChild : ParseNode) : SortOrder := if (pChild.getChild 1).getOp = .asc then .ascend else .descend

/-- The calls of `ensureSortOrder` for an ORDER BY list, up to the first refusal. -/
def askOrder : Nat → List ParseNode → Plan → Bool × Plan
  | _, [], plan => (true, plan)
  | index, pChild :: rest, plan =>
    let r := plan.ensureSortOrder index (pChild.getChild 0).getString (sortOrder pChild)
    if r.1 then askOrder (index + 1) rest r.2 else (false, r.2)

def addSortSpecifications (column : ParseNode → ParseNode) (order : ParseNode → SortOrder) :
    List ParseNode → SortPlan → Plan → Fallible (SortPlan × Plan)
  | [], plan, child => .ok (plan, child)
  | pChild :: rest, plan, child => do
    let (plan, child) ← plan.addSortSpecification child.addProjection (column pChild) (order pChild)
    addSortSpecifications column order rest plan child

def buildPlanForOrderBy (pNode : ParseNode) (plan : Plan) : Fallible Plan :=
  match pNode with
  | .null => .ok plan
  | _ =>
    let r := askOrder 0 pNode.children plan
    if r.1 then .ok r.2
    else do
      let (sort, child) ← addSortSpecifications (·.getChild 0) sortOrder pNode.children {} r.2
      return .sort sort child

def wrongGroupBy {α : Type} : Fallible α := throwParse "Wrong group by clause!"

/-- The calls of `ensureSortOrder` for a GROUP BY list; the result says whether a sort is needed. -/
def askAnyOrder : Nat → List ParseNode → Plan → Fallible (Bool × Plan)
  | _, [], plan => .ok (false, plan)
  | index, pChild :: rest, plan =>
    if pChild.type ≠ .name then wrongGroupBy
    else
      let r := plan.ensureSortOrder index pChild.getString .any
      if r.1 then askAnyOrder (index + 1) rest r.2 else .ok (true, r.2)

def addGroupByColumns : List ParseNode → GroupByPlan → Plan → Fallible (GroupByPlan × Plan)
  | [], plan, child => .ok (plan, child)
  | pChild :: rest, plan, child => do
    let (plan, child) ← plan.addGroupByColumn child.addProjection pChild
    addGroupByColumns rest plan child

def buildPlanForGroupBy (pNode : ParseNode) (plan : Plan) : Fallible Plan :=
  match pNode with
  | .null => .ok plan
  | _ => do
    let (needSort, plan) ← askAnyOrder 0 pNode.children plan
    let child ← if needSort then do
        let (sort, child) ← addSortSpecifications id (fun _ => .any) pNode.children {} plan
        pure (.sort sort child)
      else pure plan
    let (groupBy, child) ← addGroupByColumns pNode.children {} child
    return .groupBy groupBy child

def nodeValueToInt (pNode : ParseNode) : Fallible Int :=
  match conv.simpleAtoi pNode.getString with
  | some iValue => .ok iValue
  | none => throwParse ("Could not convert to int:" ++ text pNode.getString)

def buildPlanForLimit (pNode : ParseNode) (plan : Plan) : Fallible Plan :=
  match pNode with
  | .null => .ok plan
  | _ => do
    let iOffset ← nodeValueToInt conv (pNode.getChild 1)
    let iCount ← nodeValueToInt conv (pNode.getChild 0)
    return .limit (.setLimit iCount iOffset) plan

def buildPlanForFilter (pNode : ParseNode) (plan : Plan) : Fallible Plan :=
  match pNode with
  | .null => .ok plan
  | _ => do
    let (predicatesInOr, child) ← FilterPlan.setPredicate conv Plan.ops pNode plan
    return .filter predicatesInOr child

/-- The node that stands for a column of `select *`. -/
def nameNode (column : Bytes) : ParseNode := .node .name .none column column []

/-- The loop over the columns of `select *`; what `project` returns is not looked at. -/
def projectColumns : List Bytes → ProjectionPlan → Plan → Fallible (ProjectionPlan × Plan)
  | [], proj, child => .ok (proj, child)
  | column :: columns, proj, child => do
    let (_, proj, child) ← proj.project child.addProjection child (nameNode column) column
    projectColumns columns proj child

def unrecognizedColumn {α : Type} (pColumn : ParseNode) : Fallible α :=
  throwParse ("Unrecognized column " ++ text pColumn.sExpr)

/-- `ProjectionPlan::addGroupBy`. -/
def addGroupBy (proj : ProjectionPlan) (child : Plan) : Fallible (Option (ProjectionPlan × Plan)) := do
  let r ← ProjectionPlan.projectAgain (fun pNode p => p.addProjection pNode) proj.proj (.groupBy {} child)
  return r.map (fun s => ({ proj with proj := s.1 }, s.2))

/-- The expression of a projection and the name it is given, without an alias its text. -/
def aliased (pColumn : ParseNode) : ParseNode × Bytes :=
  let isAs := pColumn.type = .op ∧ pColumn.getOp = .as
  let sAlias := if isAs then (pColumn.getChild 1).getString else []
  let pColumn := if isAs then pColumn.getChild 0 else pColumn
  (pColumn, if sAlias = [] then pColumn.sExpr else sAlias)

/-- A column that the child does not have may be a function, which needs a group-by first. -/
def projectColumn (pNode : ParseNode) (proj : ProjectionPlan) (child : Plan) : Fallible (ProjectionPlan × Plan) := do
  let (pColumn, sAlias) := aliased pNode
  let (ok, proj, child) ← proj.project child.addProjection child pColumn sAlias
  if ok then return (proj, child)
  else if pColumn.type ≠ .func then unrecognizedColumn pColumn
  else
    match ← addGroupBy proj child with
    | none => unrecognizedColumn pColumn
    | some (proj, child) =>
      let (ok, proj, child) ← proj.project child.addProjection child pColumn sAlias
      if ok then return (proj, child) else unrecognizedColumn pColumn

def projectList : List ParseNode → ProjectionPlan → Plan → Fallible (ProjectionPlan × Plan)
  | [], proj, child => .ok (proj, child)
  | pColumn :: rest, proj, child => do
    let (proj, child) ← projectColumn pColumn proj child
    projectList rest proj child

def isAllColumns (pNode : ParseNode) : Bool := pNode.type == .info && pNode.getOp == .allColumns

def buildPlanForProjection (pNode : ParseNode) (plan : Plan) : Fallible Plan :=
  if isAllColumns pNode then
    let columns := plan.getAllColumns
    if columns = [] then throwParse "select * is not supported in current projection context"
    else do
      let (proj, child) ← projectColumns columns {} plan
      return .projection proj child
  else do
    let (proj, child) ← projectList pNode.children {} plan
    return .projection proj child

/-- A `ConfigException` is answered like an `ExecutionException`. -/
def getPath (t : TableInfo) : Fallible Bytes :=
  match t.attr.lookup (bytes "path") with
  | some path => .ok path
  | none => throwExecution ("attribute path for " ++ text t.name ++ " not found")

def buildPlanForReadFile (t : TableInfo) : Fallible Plan := do
  let path ← getPath t
  let ignoreFirstLine := Tools.equalsIgnoreCase (t.getAttribute (bytes "ignore_first_line") (bytes "false")) (bytes "true")
  let plan ← ReadFilePlan.create path (t.getAttribute (bytes "seperator") (bytes ",")) ignoreFirstLine
  return .readFile { plan with columns := t.columns }

variable (std : StdSort) (config : MetaConfig)

def tableNotFound {α : Type} (pTable : ParseNode) : Fallible α :=
  throwParse ("table " ++ text pTable.getString ++ " not found")

/-- The plan that delivers the rows of the FROM clause that satisfy the WHERE clause; `subplan`
is the plan of a subquery. -/
def buildFrom (pTable pPredicate : ParseNode) (subplan : Fallible Plan) : Fallible Plan :=
  if pTable.type ≠ .name then do
    let plan ← subplan
    buildPlanForFilter conv pPredicate plan
  else
    match config.getTableInfo pTable.getString with
    | none => tableNotFound pTable
    | some t =>
      if 0 < t.getKeyCount then do
        let plan ← buildSelectPlan conv std t pPredicate
        return .ofSelect plan
      else do
        let plan ← buildPlanForReadFile t
        buildPlanForFilter conv pPredicate plan

structure Clauses where
  project : ParseNode
  table : ParseNode
  predicate : ParseNode := .null
  groupBy : ParseNode := .null
  having : ParseNode := .null
  orderBy : ParseNode := .null
  limit : ParseNode := .null

def Clauses.of (cs : List ParseNode) : Clauses where
  project := cs.getD 0 .null
  table := cs.getD 1 .null
  predicate := cs.getD 2 .null
  groupBy := cs.getD 3 .null
  having := cs.getD 4 .null
  orderBy := cs.getD 5 .null
  limit := cs.getD 6 .null

/-- The clauses after FROM and WHERE, in the order in which their plans are stacked. -/
def buildClauses (c : Clauses) (plan : Plan) : Fallible Plan := do
  let plan ← buildPlanForGroupBy c.groupBy plan
  let plan ← buildPlanForFilter conv c.having plan
  let plan ← buildPlanForOrderBy c.orderBy plan
  let plan ← buildPlanForLimit conv c.limit plan
  buildPlanForProjection c.project plan

def build (c : Clauses) (subplan : Fallible Plan) : Fallible Plan :=
  if c.predicate.isFalseConst then .ok .empty
  else do
    let pPredicate := if c.predicate.isTrueConst then .null else c.predicate
    let plan ← buildFrom conv std config c.table pPredicate subplan
    buildClauses conv c plan

end SelectPlanBuilder

namespace BuildPlan

open SelectPlanBuilder

variable (conv : Conversions) (std : StdSort) (config : MetaConfig)

def buildPlanForDesc (pNode : ParseNode) : Fallible Plan :=
  let pTable := pNode.getChild 0
  let pTable := if pTable.type ≠ .name then pTable.getChild 1 else pTable
  match config.getTableInfo pTable.getString with
  | none => throwParse ("Undefined table " ++ text pTable.getString)
  | some pEntry => .ok (.showColumns pEntry)

/-- The loop over the rows of a VALUES list, each as long as the one before it. -/
def addRows : Option ParseNode → List ParseNode → ConstPlan → Fallible ConstPlan
  | _, [], plan => .ok plan
  | pLastRow, pRow :: rows, plan =>
    match pLastRow with
    | none => addRows (some pRow) rows (plan.addRow pRow)
    | some pLast =>
      if pLast.children.length ≠ pRow.children.length then
        throwParse ("Values column number does not match: expect " ++ ToString.toString pLast.children.length ++
          " but got " ++ ToString.toString pRow.children.length)
      else addRows (some pRow) rows (plan.addRow pRow)

def buildPlanForConst (pNode : ParseNode) : Fallible Plan := do
  let plan ← addRows none pNode.children {}
  return .const plan

mutual

/-- `buildPlan` on the statements that the grammar allows inside another one. -/
def buildPlan : ParseNode → Fallible Plan
  | .null => .error .undefined
  | .node type op sExpr sValue children =>
    match op with
    | .showTables => .ok (.showTables config.tables)
    | .descTable => buildPlanForDesc config (.node type op sExpr sValue children)
    | .select => build conv std config (.of children) ((subplans children).getD 1 (.error .undefined))
    | .values => buildPlanForConst (children.getD 0 .null)
    | _ => throwParse ("not supported: " ++ text sExpr)

def subplans : List ParseNode → List (Fallible Plan)
  | [] => []
  | c :: cs => buildPlan c :: subplans cs

end

end BuildPlan

def Storage.empty : Storage := ⟨fun _ => [], fun _ => none, fun _ => 0⟩

namespace SelectPlanBuilder

def intNode (s : String) : ParseNode := .node .int .none (bytes s) (bytes s) []

def starNode : ParseNode := .node .info .allColumns (bytes "*") [] []

def valuesNode (rows : List (List ParseNode)) : ParseNode :=
  .node .plan .values [] (bytes "Values") [.node .list .none [] (bytes "ValueList")
    (rows.map (.node .list .none [] (bytes "ExprList")))]

def Clauses.node (c : Clauses) : ParseNode :=
  .node .plan .select [] (bytes "SelectStmt") [c.project, c.table, c.predicate, c.groupBy, c.having, c.orderBy, c.limit]

def limitNode (count offset : String) : ParseNode :=
  .node .parent .none [] (bytes "Limit") [intNode count, intNode offset]

end SelectPlanBuilder

end LevelPgServer
