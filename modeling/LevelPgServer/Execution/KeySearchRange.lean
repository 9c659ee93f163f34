import LevelPgServer.Execution.LevelDBHandler

namespace LevelPgServer.KeySearchRange

open ParseNode DBDataTypeHandler

/-- `m_iKeyIndex` is absent where the C++ has `-1`. -/
structure KeyPredicateInfo where
  keyIndex : Option Nat := none
  value : ParseNode := .null
  op : Operation := .none
  sExpr : Bytes := []

/-- `m_predicates`, one for each key column, and `m_endPredicate`. -/
structure Predicates where
  predicates : List KeyPredicateInfo
  endPredicate : KeyPredicateInfo := {}

def Predicates.at (s : Predicates) (k : Nat) : KeyPredicateInfo := s.predicates.getD k {}

def Predicates.set (s : Predicates) (k : Nat) (info : KeyPredicateInfo) : Predicates :=
  { s with predicates := s.predicates.set k info }

/-- Whether a comparison `op` gives way to the one already found, `old`. -/
def keepsOld (op old : Operation) : Bool :=
  match op with
  | .compGt => old == .compEq
  | .compGe => old == .compEq || old == .compGt
  | .compLe => old == .compLt
  | _ => false

def setPredicateInfo (t : TableInfo) (op : Operation) (pKey pValue pPredicate : ParseNode) (s : Predicates) :
    Fallible Predicates :=
  match t.getColumnByName pKey.getString with
  | none => .error .undefined
  | some pKeyColumn =>
    match pKeyColumn.keyIndex with
    | none => .ok s
    | some k =>
      let info : KeyPredicateInfo := { keyIndex := some k, value := pValue, op, sExpr := pPredicate.sExpr }
      match op with
      | .compEq | .compGt | .compGe =>
        .ok (if keepsOld op (s.at k).op then s else s.set k info)
      | .compLe | .compLt =>
        .ok (if keepsOld op s.endPredicate.op then s else { s with endPredicate := info })
      | _ => .error .undefined

def reverseOp : Operation → Option Operation
  | .compEq => some .compEq
  | .compLe => some .compGe
  | .compLt => some .compGt
  | .compGt => some .compLt
  | .compGe => some .compLe
  | _ => none

def setComparison (t : TableInfo) (pPredicate : ParseNode) (s : Predicates) : Fallible Predicates :=
  match reverseOp pPredicate.getOp with
  | none => .ok s
  | some rop =>
    let pLeft := pPredicate.getChild 0
    let pRight := pPredicate.getChild 1
    if pLeft.type = .name ∧ pRight.isConst then setPredicateInfo t pPredicate.getOp pLeft pRight pPredicate s
    else if pRight.type = .name ∧ pLeft.isConst then setPredicateInfo t rop pRight pLeft pPredicate s
    else .ok s

mutual

def doSetPredicate (t : TableInfo) : ParseNode → Predicates → Fallible Predicates
  | .null, s => .ok s
  | .node type op sExpr sValue children, s =>
    if type ≠ .op then .ok s
    else if op = .and then doSetPredicates t children s
    else setComparison t (.node type op sExpr sValue children) s

def doSetPredicates (t : TableInfo) : List ParseNode → Predicates → Fallible Predicates
  | [], s => .ok s
  | c :: cs, s => do
    let s ← doSetPredicate t c s
    doSetPredicates t cs s

end

/-- What the first loop of the constructor has found out before a column. -/
structure Scan where
  endPredicate : KeyPredicateInfo
  startInclusive : Bool := true
  endInclusive : Bool := true
  seekToFirst : Bool := true
  seekToLast : Bool := true
  keyValid : Bool := true
  solved : List Bytes := []

/-- The end predicate at key column `i`, whose own predicate is `info`. -/
def Scan.endStep (i : Nat) (info : KeyPredicateInfo) (s : Scan) : Scan :=
  match s.endPredicate.op with
  | .compLt | .compLe =>
    if s.endPredicate.keyIndex = some i then
      if !s.keyValid ∨ info.op = .compEq then
        { s with endPredicate := { s.endPredicate with op := .none, keyIndex := none } }
      else
        { s with
          endInclusive := s.endPredicate.op == .compLe
          keyValid := false
          solved := s.endPredicate.sExpr :: s.solved
          seekToLast := false }
    else s
  | _ => s

def Scan.startStep (info : KeyPredicateInfo) (s : Scan) : Scan :=
  match info.op with
  | .compEq => { s with solved := info.sExpr :: s.solved, seekToFirst := false, seekToLast := false }
  | .compGt | .compGe =>
    { s with
      startInclusive := info.op == .compGe
      keyValid := false
      solved := info.sExpr :: s.solved
      seekToFirst := false }
  | _ => { s with keyValid := false }

/-- One column: its predicate as it is kept, and the state after it. -/
def Scan.step (i : Nat) (info : KeyPredicateInfo) (s : Scan) : KeyPredicateInfo × Scan :=
  let info := if s.keyValid then info else { info with op := .none }
  (info, (s.endStep i info).startStep info)

def scanPredicates (i : Nat) : List KeyPredicateInfo → Scan → List KeyPredicateInfo × Scan
  | [], s => ([], s)
  | info :: infos, s =>
    let r := s.step i info
    let rest := scanPredicates (i + 1) infos r.2
    (r.1 :: rest.1, rest.2)

def startValue (conv : Conversions) (type : DBDataType) (info : KeyPredicateInfo) (nextStartMax : Bool) :
    Fallible ExecutionResult :=
  match info.op with
  | .compEq | .compGe | .compGt => fromNode conv type info.value
  | _ => .ok (if nextStartMax then (getHandler type).setToMax else (getHandler type).setToMin)

def endValue (conv : Conversions) (type : DBDataType) (i : Nat) (endPredicate : KeyPredicateInfo)
    (nextEndMax : Bool) : Fallible ExecutionResult :=
  if endPredicate.keyIndex = some i then fromNode conv type endPredicate.value
  else .ok (if nextEndMax then (getHandler type).setToMax else (getHandler type).setToMin)

/-- Columns behind `>` start at their greatest value, so that keys that agree up to there are left out. -/
def updateStartMax (op : Operation) (nextStartMax : Bool) : Bool :=
  match op with
  | .compGe => false
  | .compGt => true
  | _ => nextStartMax

/-- The second loop: the first and the last key of the range, column by column. -/
def keyResults (conv : Conversions) (endPredicate : KeyPredicateInfo) (i : Nat) (nextStartMax nextEndMax : Bool) :
    List DBDataType → List KeyPredicateInfo → Fallible (List ExecutionResult × List ExecutionResult)
  | type :: types, info :: infos => do
    let start ← startValue conv type info nextStartMax
    if info.op = .compEq then
      let rest ← keyResults conv endPredicate (i + 1) nextStartMax nextEndMax types infos
      return (start :: rest.1, start :: rest.2)
    let nextStartMax := updateStartMax info.op nextStartMax
    let last ← endValue conv type i endPredicate nextEndMax
    let nextEndMax := if endPredicate.keyIndex = some i then endPredicate.op == .compLe else nextEndMax
    let rest ← keyResults conv endPredicate (i + 1) nextStartMax nextEndMax types infos
    return (start :: rest.1, last :: rest.2)
  | _, _ => .ok ([], [])

end KeySearchRange

structure KeySearchRange where
  keyTypes : List DBDataType
  startKeyResults : List ExecutionResult
  endKeyResults : List ExecutionResult
  startRow : Bytes
  endRow : Bytes
  startInclusive : Bool
  endInclusive : Bool
  seekToFirst : Bool
  seekToLast : Bool

namespace KeySearchRange

/-- The constructor: the range, and the texts of the comparisons it stands for. -/
def build (conv : Conversions) (keyTypes : List DBDataType) (t : TableInfo) (pNode : ParseNode) :
    Fallible (KeySearchRange × List Bytes) := do
  let p ← doSetPredicate t pNode { predicates := List.replicate keyTypes.length {} }
  let scan := scanPredicates 0 p.predicates { endPredicate := p.endPredicate }
  let r ← keyResults conv scan.2.endPredicate 0 false true keyTypes scan.1
  let startRow ← DataRow.copyRow conv keyTypes r.1
  let endRow ← DataRow.copyRow conv keyTypes r.2
  return ({
      keyTypes, startRow, endRow
      startKeyResults := r.1
      endKeyResults := r.2
      startInclusive := scan.2.startInclusive
      endInclusive := scan.2.endInclusive
      seekToFirst := scan.2.seekToFirst
      seekToLast := scan.2.seekToLast }, scan.2.solved)

def skipStart (conv : Conversions) (range : KeySearchRange) : List Entry → Fallible (List Entry)
  | [] => .ok []
  | e :: es => do
    let n ← DataRow.compare conv range.keyTypes e.1 range.startRow
    if n = .gt then return e :: es else skipStart conv range es

/-- `seekStart`: the entries from the position it leaves the iterator at. -/
def seekStart (conv : Conversions) (range : KeySearchRange) (compareTypes : List DBDataType)
    (it : LevelDBIterator) : Fallible (List Entry) :=
  if range.seekToFirst then .ok it.first.ahead
  else
    let ahead := (it.seek conv compareTypes range.startRow).ahead
    if range.startInclusive then .ok ahead else range.skipStart conv ahead

/-- The loop over the key columns of `exceedEnd`, `compareStart` and `startAfterEnd`. -/
def compareResults (conv : Conversions) : List DBDataType → List ExecutionResult → List ExecutionResult →
    Fallible Ordering
  | t :: ts, a :: as, b :: bs => do
    let n ← (getHandler t).compare conv a b
    if n ≠ .eq then return n else compareResults conv ts as bs
  | _, _, _ => .ok .eq

def exceedEnd (conv : Conversions) (range : KeySearchRange) (keyValues : List ExecutionResult) : Fallible Bool :=
  if range.seekToLast then .ok false
  else do
    let n ← compareResults conv range.keyTypes keyValues range.endKeyResults
    return n == .gt || (n == .eq && !range.endInclusive)

def compareStart (conv : Conversions) (a b : KeySearchRange) : Fallible Ordering :=
  if a.seekToFirst then .ok (if b.seekToFirst then .eq else .lt)
  else if b.seekToFirst then .ok .gt
  else compareResults conv a.keyTypes a.startKeyResults b.startKeyResults

def startAfterEnd (conv : Conversions) (a b : KeySearchRange) : Fallible Bool :=
  if a.seekToFirst || b.seekToLast then .ok false
  else do
    let n ← compareResults conv a.keyTypes a.startKeyResults b.endKeyResults
    return n == .gt || (n == .eq && (!b.endInclusive || !a.startInclusive))

end KeySearchRange

end LevelPgServer
