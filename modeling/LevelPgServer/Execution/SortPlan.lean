import LevelPgServer.Execution.ConstPlan
import LevelPgServer.Execution.ExecutionBuffer
import LevelPgServer.PlanBuilder.LevelDBPlanBuilder

namespace LevelPgServer

open ParseNode LevelDBPlanBuilder

inductive SortOrder
  | ascend | descend | any
  deriving DecidableEq, Repr

structure SortProjection where
  subIndex : Nat
  name : Bytes
  deriving DecidableEq, Repr

structure SortSpec where
  index : Nat
  subIndex : Nat
  column : Bytes
  order : SortOrder
  deriving DecidableEq, Repr

structure SortPlan where
  proj : List SortProjection := []
  sort : List SortSpec := []
  deriving DecidableEq, Repr

namespace SortPlan

/-- `addProjection` of a node that the child has at `index`. -/
def addColumn (plan : SortPlan) (index : Nat) (sExpr : Bytes) : Nat × SortPlan :=
  match plan.proj.findIdx? (fun p => p.subIndex == index) with
  | some i => (i, plan)
  | none => (plan.proj.length, { plan with proj := plan.proj ++ [⟨index, sExpr⟩] })

def addProjection {σ : Type} (add : ParseNode → Fallible (Option Nat × σ)) (plan : SortPlan) (pNode : ParseNode) :
    Fallible (Option Nat × SortPlan × σ) := do
  let (index, child) ← add pNode
  match index with
  | none => return (none, plan, child)
  | some i =>
    let r := plan.addColumn i pNode.sExpr
    return (some r.1, r.2, child)

def addSortSpecification {σ : Type} (add : ParseNode → Fallible (Option Nat × σ)) (plan : SortPlan) (pNode : ParseNode)
    (order : SortOrder) : Fallible (SortPlan × σ) := do
  let (index, plan, child) ← plan.addProjection add pNode
  match index with
  | none => throwParse ("unrecognized column " ++ text pNode.sExpr)
  | some i =>
    let subIndex := (plan.proj[i]?.map SortProjection.subIndex).getD 0
    return ({ plan with sort := plan.sort ++ [{ index := i, subIndex, column := pNode.sExpr, order }] }, child)

def setOrder (plan : SortPlan) (i : Nat) (order : SortOrder) : SortPlan :=
  { plan with sort := plan.sort.modify i (fun spec => { spec with order }) }

def ensureSortOrder (plan : SortPlan) (iSortIndex : Nat) (sColumn : Bytes) (order : SortOrder) : Bool × SortPlan :=
  match plan.sort[iSortIndex]? with
  | none => (false, plan)
  | some spec =>
    if sColumn ≠ spec.column then (false, plan)
    else if order = .any then (true, plan)
    else if spec.order = .any then (true, plan.setOrder iSortIndex order)
    else (spec.order = order, plan)

variable (conv : Conversions)

/-- `DataRow::compare` of two rows at one column. -/
def compareAt (types : List DBDataType) (index : Nat) (a b : Bytes) : Fallible Ordering := do
  let x ← DataRow.getResult types a index
  let y ← DataRow.getResult types b index
  match types[index]? with
  | some type => x.compare conv y type
  | none => .error .undefined

/-- The lambda `comp` of `begin`. -/
def comp (types : List DBDataType) : List SortSpec → Bytes → Bytes → Fallible Bool
  | [], _, _ => .ok false
  | spec :: specs, pRow1, pRow2 => do
    let n ← compareAt conv types spec.index pRow1 pRow2
    if n = .eq then comp types specs pRow1 pRow2
    else match spec.order with
    | .ascend | .any => return n == .lt
    | .descend => return n == .gt

def comesBefore (types : List DBDataType) (specs : List SortSpec) (a b : Bytes) : Bool :=
  comp conv types specs a b = .ok true

/-- Whether every comparison that the sort may ask for has a value. -/
def comparable (types : List DBDataType) (specs : List SortSpec) (rows : List Bytes) : Bool :=
  rows.all fun a => rows.all fun b => (comp conv types specs a b).toOption.isSome

/-- The loop of `begin` over the rows of the child. -/
def collectRows (proj : List SortProjection) (types : List DBDataType) (fault : Option Fault) :
    List Row → Nat → ExecutionBuffer → Fallible (List Bytes)
  | [], _, _ =>
    match fault with
    | some f => .error f
    | none => .ok []
  | r :: rs, pool, buffer => do
    let results ← (proj.zip types).mapM (fun p => r p.1.subIndex p.2)
    let (row, pool, buffer) ← buffer.copyRow conv types results pool
    let rows ← collectRows proj types fault rs pool buffer
    return row :: rows

def sortBufferSize : Nat := 64 * 1024 * 1024

def row (types : List DBDataType) (pRow : Bytes) : Row := fun index _ => DataRow.getResult types pRow index

/-- `begin`, which reads all rows of the child, and the calls of `next` behind it. -/
def «begin» (std : StdSort) (plan : SortPlan) (columnType : Nat → Fallible DBDataType) (pool : Nat) (child : Run Row) :
    Fallible (List Row) := do
  let types ← plan.proj.mapM (fun p => columnType p.subIndex)
  let rows ← collectRows conv plan.proj types child.fault child.rows pool { total := sortBufferSize }
  if comparable conv types plan.sort rows then
    return (std.sort (comesBefore conv types plan.sort) rows).map (row types)
  else .error .undefined

def run (std : StdSort) (plan : SortPlan) (columnType : Nat → Fallible DBDataType) (pool : Nat) (child : Run Row) :
    Run Row :=
  match plan.begin conv std columnType pool child with
  | .error f => .failed f
  | .ok rows => ⟨rows, none⟩

end SortPlan

end LevelPgServer
