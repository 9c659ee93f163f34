import LevelPgServer.Execution.LevelDBScanPlan

namespace LevelPgServer.FilterPlan

open ParseNode

/-- One comparison; an index that is absent, `-1` in the C++, means the constant. -/
structure PredicateInfo where
  sExpr : Bytes
  op : Operation
  leftIndex : Option Nat
  rightIndex : Option Nat
  leftConst : ExecutionResult := .null
  rightConst : ExecutionResult := .null
  deriving DecidableEq

/-- `std::string_view::find(p) != npos`. -/
def contains (s p : Bytes) : Bool := s.tails.any (fun u => p.isPrefixOf u)

/-- How an operator other than LIKE reads the result of a comparison. -/
def accepts (op : Operation) (n : Ordering) : Option Bool :=
  match op with
  | .compEq => some (n == .eq)
  | .compNe => some (n != .eq)
  | .compLe => some (n != .gt)
  | .compLt => some (n == .lt)
  | .compGt => some (n == .gt)
  | .compGe => some (n != .lt)
  | _ => none

def test (conv : Conversions) (type : DBDataType) (op : Operation) (sExpr : Bytes)
    (result1 result2 : ExecutionResult) : Fallible Bool :=
  if op = .compLike then do
    let s ← result1.getString conv
    let p ← result2.getString conv
    return contains s p
  else do
    let n ← (getHandler type).compare conv result1 result2
    match accepts op n with
    | some b => return b
    | none => throwParse ("Unsupported operation " ++ text sExpr)

variable {σ ρ : Type} (conv : Conversions) (ops : PlanOps σ ρ)

/-- The value of one side, with the type of its column if it has one. -/
def operand (plan : σ) (row : ρ) (index : Option Nat) (const : ExecutionResult) :
    Fallible (ExecutionResult × Option DBDataType) :=
  match index with
  | some i => do
    let type ← ops.getResultType plan i
    let r ← ops.getResult plan row i type
    return (r, some type)
  | none => .ok (const, none)

def evaluate (plan : σ) (row : ρ) (info : PredicateInfo) : Fallible Bool := do
  let right ← operand ops plan row info.rightIndex info.rightConst
  let left ← operand ops plan row info.leftIndex info.leftConst
  -- the left column, when there is one, decides the type
  match left.2.or right.2 with
  | none => .error .undefined
  | some type => test conv type info.op info.sExpr left.1 right.1

def evaluateAll (plan : σ) (row : ρ) : List PredicateInfo → Fallible Bool
  | [] => .ok true
  | info :: infos => do
    let b ← evaluate conv ops plan row info
    if b then evaluateAll plan row infos else return false

def evaluateAny (plan : σ) (row : ρ) : List (List PredicateInfo) → Fallible Bool
  | [] => .ok false
  | infos :: rest => do
    let b ← evaluateAll conv ops plan row infos
    if b then return true else evaluateAny plan row rest

def filterRows (predicatesInOr : List (List PredicateInfo)) (plan : σ) (fault : Option Fault) : List ρ → Run ρ
  | [] => ⟨[], fault⟩
  | r :: rs =>
    match evaluateAny conv ops plan r predicatesInOr with
    | .error f => .failed f
    | .ok true => .cons r (filterRows predicatesInOr plan fault rs)
    | .ok false => filterRows predicatesInOr plan fault rs

def run (predicatesInOr : List (List PredicateInfo)) (plan : σ) (child : Run ρ) : Run ρ :=
  filterRows conv ops predicatesInOr plan child.fault child.rows

def unsupportedPredicate {α : Type} (sExpr : Bytes) : Fallible α :=
  throwParse ("Unsupported predicate " ++ text sExpr)

def constOperand (plan : σ) (sExpr : Bytes) (index : Option Nat) (node : ParseNode) (other : Option Nat) :
    Fallible ExecutionResult :=
  match index with
  | some _ => .ok .null
  | none =>
    if node.isConst then
      match other with
      | some i => do
        let type ← ops.getResultType plan i
        DBDataTypeHandler.fromNode conv type node
      | none => .error .undefined
    else unsupportedPredicate sExpr

def addComparison (pPredicate : ParseNode) (plan : σ) : Fallible (PredicateInfo × σ) := do
  let pLeft := pPredicate.getChild 0
  let pRight := pPredicate.getChild 1
  let (leftIndex, plan) ← ops.addProjection plan pLeft
  let (rightIndex, plan) ← ops.addProjection plan pRight
  if leftIndex.isNone ∧ rightIndex.isNone then
    throwParse ("Unrecognized predicate " ++ text pPredicate.sExpr)
  else
    let leftConst ← constOperand conv ops plan pPredicate.sExpr leftIndex pLeft rightIndex
    let rightConst ← constOperand conv ops plan pPredicate.sExpr rightIndex pRight leftIndex
    return ({ sExpr := pPredicate.sExpr, op := pPredicate.getOp, leftIndex, rightIndex, leftConst, rightConst }, plan)

mutual

def doAddPredicate (pIgnore : List Bytes) : ParseNode → List PredicateInfo × σ → Fallible (List PredicateInfo × σ)
  | .null, _ => .error .undefined
  | .node type op sExpr sValue children, s =>
    if type ≠ .op then unsupportedPredicate sExpr
    else if op = .and then doAddPredicates pIgnore children s
    else if children.length ≠ 2 then unsupportedPredicate sExpr
    else if sExpr ∈ pIgnore then .ok s
    else do
      let (info, plan) ← addComparison conv ops (.node type op sExpr sValue children) s.2
      return (s.1 ++ [info], plan)

def doAddPredicates (pIgnore : List Bytes) : List ParseNode → List PredicateInfo × σ →
    Fallible (List PredicateInfo × σ)
  | [], s => .ok s
  | c :: cs, s => do
    let s ← doAddPredicate pIgnore c s
    doAddPredicates pIgnore cs s

end

def addPredicate (pIgnore : List Bytes) (pPredicate : ParseNode) (plan : σ) :
    Fallible (List PredicateInfo × σ) :=
  doAddPredicate conv ops pIgnore pPredicate ([], plan)

def addPredicates : List ParseNode → σ → Fallible (List (List PredicateInfo) × σ)
  | [], plan => .ok ([], plan)
  | c :: cs, plan => do
    let (infos, plan) ← addPredicate conv ops [] c plan
    let (rest, plan) ← addPredicates cs plan
    return (infos :: rest, plan)

def setPredicate (pNode : ParseNode) (plan : σ) : Fallible (List (List PredicateInfo) × σ) :=
  if pNode.getOp = .or then addPredicates conv ops pNode.children plan
  else addPredicates conv ops [pNode] plan

end LevelPgServer.FilterPlan
