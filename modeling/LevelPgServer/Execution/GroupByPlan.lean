import LevelPgServer.Execution.ConstPlan

namespace LevelPgServer

open ParseNode

inductive FuncType
  | first | sum | avg | count | max | min
  deriving DecidableEq, Repr

/-- `m_iCount` and `m_value` of a function belong to the run and stand in `Acc`. -/
structure AggrFunc where
  func : FuncType
  name : Bytes
  index : Nat
  deriving DecidableEq, Repr

structure GroupByPlan where
  proj : List AggrFunc := []
  groupby : List Nat := []
  deriving DecidableEq, Repr

namespace GroupByPlan

/-- `m_typeMap`. -/
def funcOf (name : Bytes) : Option FuncType :=
  [(bytes "sum", .sum), (bytes "avg", .avg), (bytes "count", .count), (bytes "max", .max),
    (bytes "min", FuncType.min)].lookup name

def unrecognized {α : Type} (pNode : ParseNode) : Fallible α :=
  throwParse ("Unrecognized projection column " ++ text pNode.sExpr)

def push (plan : GroupByPlan) (func : AggrFunc) : Nat × GroupByPlan :=
  (plan.proj.length, { plan with proj := plan.proj ++ [func] })

def addProjection {σ : Type} (add : ParseNode → Fallible (Option Nat × σ)) (plan : GroupByPlan) (child : σ)
    (pNode : ParseNode) : Fallible (Option Nat × GroupByPlan × σ) :=
  match pNode.type with
  | .name => do
    let (index, child) ← add pNode
    match index with
    | none => unrecognized pNode
    | some i =>
      let r := plan.push ⟨.first, pNode.getString, i⟩
      return (some r.1, r.2, child)
  | .func =>
    match funcOf pNode.getString with
    | none => throwParse ("Unknown function " ++ text pNode.sExpr)
    | some func => do
      let (index, child) ← add (pNode.getChild 0)
      match index with
      | none => unrecognized (pNode.getChild 0)
      | some i =>
        let r := plan.push ⟨func, pNode.sExpr, i⟩
        return (some r.1, r.2, child)
  | _ => .ok (none, plan, child)

def addGroupByColumn {σ : Type} (add : ParseNode → Fallible (Option Nat × σ)) (plan : GroupByPlan)
    (pNode : ParseNode) : Fallible (GroupByPlan × σ) := do
  let (index, child) ← add pNode
  match index with
  | none => throwParse ("Unrecognized sort column " ++ text pNode.sExpr)
  | some i => return ({ plan with groupby := plan.groupby ++ [i] }, child)

def getResultType (plan : GroupByPlan) (type : Nat → Fallible (Option DBDataType)) (index : Nat) :
    Fallible (Option DBDataType) :=
  match plan.proj[index]? with
  | none => .error .undefined
  | some func =>
    match func.func with
    | .avg => .ok (some .double)
    | .first | .min | .max | .sum => type func.index
    | .count => .ok (some .int64)

structure Acc where
  func : AggrFunc
  count : Nat
  value : ExecutionResult
  deriving DecidableEq, Repr

variable (conv : Conversions) (columnType : Nat → Fallible DBDataType)

def read (row : Row) (index : Nat) : Fallible ExecutionResult := do
  let type ← columnType index
  row index type

def start (row : Row) (func : AggrFunc) : Fallible Acc := do
  let value ← read columnType row func.index
  return ⟨func, 1, value⟩

def update (row : Row) (acc : Acc) : Fallible Acc :=
  let acc := { acc with count := acc.count + 1 }
  match acc.func.func with
  | .first | .count => .ok acc
  | .min => do
    let type ← columnType acc.func.index
    let info ← row acc.func.index type
    let n ← info.compare conv acc.value type
    return if n = .lt then { acc with value := info } else acc
  | .max => do
    let type ← columnType acc.func.index
    let info ← row acc.func.index type
    let n ← info.compare conv acc.value type
    return if n = .gt then { acc with value := info } else acc
  | .sum | .avg => do
    let type ← columnType acc.func.index
    let info ← row acc.func.index type
    let value ← acc.value.add conv info type
    return { acc with value }

/-- The loop over the group columns: what `m_last` is afterwards, and whether nothing changed. -/
def compareLast (row : Row) : List (Nat × DBDataType) → List ExecutionResult → Fallible (List ExecutionResult × Bool)
  | (index, type) :: columns, last :: lasts => do
    let result ← row index type
    let n ← result.compare conv last type
    let rest ← compareLast row columns lasts
    return if n = .eq then (last :: rest.1, rest.2) else (result :: rest.1, false)
  | _, _ => .ok ([], true)

def groupRow (accs : List Acc) : Row := fun index type =>
  match accs[index]? with
  | none => .error .undefined
  | some acc =>
    match acc.func.func with
    | .first | .min | .max | .sum => .ok acc.value
    | .count => .ok (.int acc.count)
    | .avg => acc.value.div conv acc.count type

/-- The calls of `next` from inside a group on; `columns` are the group columns with their types. -/
def nextAll (proj : List AggrFunc) (columns : List (Nat × DBDataType)) (fault : Option Fault) :
    List Row → List Acc → List ExecutionResult → Run Row
  | [], accs, _ =>
    match fault with
    | some f => .failed f
    | none => ⟨[groupRow conv accs], none⟩
  | r :: rs, accs, last =>
    match compareLast conv r columns last with
    | .error f => .failed f
    | .ok (last, true) =>
      match accs.mapM (update conv columnType r) with
      | .error f => .failed f
      | .ok accs => nextAll proj columns fault rs accs last
    | .ok (last, false) =>
      .cons (groupRow conv accs) (match proj.mapM (start columnType r) with
        | .error f => .failed f
        | .ok accs => nextAll proj columns fault rs accs last)

/-- The part of `begin` behind the first row. -/
def readLast (plan : GroupByPlan) (row : Row) : Fallible (List (Nat × DBDataType) × List ExecutionResult) := do
  let columns ← plan.groupby.mapM (fun index => do
    let type ← columnType index
    let result ← row index type
    return ((index, type), result))
  return (columns.map Prod.fst, columns.map Prod.snd)

def run (plan : GroupByPlan) (child : Run Row) : Run Row :=
  match child.rows with
  | [] => ⟨[], child.fault⟩
  | r :: rs =>
    match plan.readLast columnType r with
    | .error f => .failed f
    | .ok (columns, last) =>
      match plan.proj.mapM (start columnType r) with
      | .error f => .failed f
      | .ok accs => nextAll conv columnType plan.proj columns child.fault rs accs last

end GroupByPlan

end LevelPgServer
