import LevelPgServer.Execution.GroupByPlan

namespace LevelPgServer

open ParseNode

/-- A constant has no index in the child. -/
structure ProjectionInfo where
  subIndex : Option Nat
  name : Bytes
  raw : Bytes
  node : ParseNode

/-- `m_map` holds, for each name, the position of the last column that was given it. -/
structure ProjectionPlan where
  proj : List ProjectionInfo := []
  map : List (Bytes × Nat) := []

namespace ProjectionPlan

def find (plan : ProjectionPlan) (name : Bytes) : Option Nat := plan.map.lookup name

def addProjection (plan : ProjectionPlan) (pNode : ParseNode) : Option Nat := plan.find pNode.getString

def push (plan : ProjectionPlan) (subIndex : Option Nat) (pNode : ParseNode) (sName : Bytes) : ProjectionPlan where
  proj := plan.proj ++ [{ subIndex, name := sName, raw := pNode.sExpr, node := pNode }]
  map := (sName, plan.proj.length) :: plan.map

/-- `project` on a child whose `addProjection` is `add`; `false` leaves the projection as it is. -/
def project {σ : Type} (add : ParseNode → Fallible (Option Nat × σ)) (plan : ProjectionPlan) (child : σ)
    (pNode : ParseNode) (sName : Bytes) : Fallible (Bool × ProjectionPlan × σ) :=
  if !pNode.isConst then do
    let (index, child) ← add pNode
    match index with
    | none => return (false, plan, child)
    | some i => return (true, plan.push (some i) pNode sName, child)
  else if pNode.type = .param then .ok (false, plan, child)
  else .ok (true, plan.push none pNode sName, child)

def getResultType (plan : ProjectionPlan) (type : Nat → Fallible (Option DBDataType)) (index : Nat) :
    Fallible (Option DBDataType) :=
  match plan.proj[index]? with
  | none => .error .undefined
  | some proj =>
    match proj.subIndex with
    | none => .ok proj.node.getConstResultType
    | some i => type i

def row (conv : Conversions) (plan : ProjectionPlan) (r : Row) : Row := fun index type =>
  match plan.proj[index]? with
  | none => .error .undefined
  | some proj =>
    match proj.subIndex with
    | none => DBDataTypeHandler.fromNode conv type proj.node
    | some i => r i type

def run (conv : Conversions) (plan : ProjectionPlan) (child : Run Row) : Run Row :=
  ⟨child.rows.map (plan.row conv), child.fault⟩

/-- The loop of `addGroupBy` over the columns, which are projected once more from the new group-by. -/
def projectAgain {σ : Type} (add : ParseNode → σ → Fallible (Option Nat × σ)) :
    List ProjectionInfo → σ → Fallible (Option (List ProjectionInfo × σ))
  | [], child => .ok (some ([], child))
  | proj :: projs, child => do
    let (index, child) ← add proj.node child
    match index with
    | none => return none
    | some i =>
      let rest ← projectAgain add projs child
      return rest.map (fun r => ({ proj with subIndex := some i } :: r.1, r.2))

end ProjectionPlan

end LevelPgServer
