import LevelPgServer.Execution.LevelDBScanPlan

namespace LevelPgServer

namespace LevelDBIterator

def last (it : LevelDBIterator) : LevelDBIterator :=
  match it.entries.reverse with
  | [] => ⟨[], []⟩
  | e :: es => ⟨es, [e]⟩

def behind (it : LevelDBIterator) : List Entry :=
  match it.ahead with
  | [] => []
  | e :: _ => e :: it.before

end LevelDBIterator

namespace KeySearchRange

/-- The loop behind the end: entries that do not come before it are passed over, but for an
inclusive end itself. -/
def skipEnd (conv : Conversions) (range : KeySearchRange) : List Entry → Fallible (List Entry)
  | [] => .ok []
  | e :: es => do
    let n ← DataRow.compare conv range.keyTypes e.1 range.endRow
    if n = .eq ∧ range.endInclusive then return e :: es
    else if n = .lt then return e :: es
    else skipEnd conv range es

/-- `seekStartReversed`: the entries from the position it leaves the iterator at, backwards. -/
def seekStartReversed (conv : Conversions) (range : KeySearchRange) (compareTypes : List DBDataType)
    (it : LevelDBIterator) : Fallible (List Entry) :=
  if range.seekToLast then .ok it.last.behind
  else
    let it := it.seek conv compareTypes range.endRow
    if it.valid then range.skipEnd conv it.behind else .ok it.last.behind

def exceedEndReversed (conv : Conversions) (range : KeySearchRange) (keyValues : List ExecutionResult) :
    Fallible Bool :=
  if range.seekToFirst then .ok false
  else do
    let n ← compareResults conv range.keyTypes keyValues range.startKeyResults
    return n == .lt || (n == .eq && !range.startInclusive)

end KeySearchRange

namespace LevelDBScanPlan

variable (conv : Conversions)

def scanBackFrom (plan : LevelDBScanPlan) (range : KeySearchRange) : List Entry → Run Entry
  | [] => .done
  | e :: es =>
    match plan.keyValues e with
    | .error f => .failed f
    | .ok ks =>
      match range.exceedEndReversed conv ks with
      | .error f => .failed f
      | .ok true => .done
      | .ok false =>
        match plan.columnResults e with
        | .error f => .failed f
        | .ok _ => .cons e (scanBackFrom plan range es)

def runReversed (plan : LevelDBScanPlan) (db : LevelDB) : Run Entry :=
  match plan.begin conv with
  | .error f => .failed f
  | .ok range =>
    match range.seekStartReversed conv plan.table.keyTypes (.createIterator db) with
    | .error f => .failed f
    | .ok behind => plan.scanBackFrom conv range behind

end LevelDBScanPlan

end LevelPgServer
