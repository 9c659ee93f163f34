import LevelPgServer.Execution.Plan

/-! The row counters of the plans, with the calls of `next` that change them, and the tags that are made of them. -/

namespace LevelPgServer

open ParseNode LevelDBPlanBuilder

/-- What some calls of `next` deliver, and the counter of the plan after the last of them. -/
abbrev Counted (ρ : Type) := Run ρ × Nat

def Counted.cons {ρ : Type} (r : ρ) (rest : Counted ρ) : Counted ρ := (.cons r rest.1, rest.2)

/-- A counter that starts at `n` has been raised once for each row. -/
def Counted.Raised {ρ : Type} (n : Nat) (c : Counted ρ) : Prop := c.2 = n + c.1.rows.length

namespace Counted

variable {ρ : Type} {n : Nat}

theorem raised_done : @Raised ρ n (.done, n) := rfl

theorem raised_failed (f : Fault) : @Raised ρ n (.failed f, n) := rfl

theorem Raised.cons {c : Counted ρ} (h : Raised (n + 1) c) (r : ρ) : Raised n (Counted.cons r c) := by
  rw [Raised] at h
  change c.2 = n + (r :: c.1.rows).length
  rw [h, List.length_cons, Nat.add_assoc, Nat.add_comm 1]

end Counted

open Counted

namespace LevelDBScanPlan

variable (conv : Conversions)

/-- The calls of `next` with the iterator at each of the entries: the first call, for which `m_iRows` is 0, seeks,
the others move on. A call that has read the entry raises `m_iRows`. -/
def countFrom (plan : LevelDBScanPlan) (exceed : List ExecutionResult → Fallible Bool) : List Entry → Nat →
    Counted Entry
  | [], m_iRows => (.done, m_iRows)
  | e :: es, m_iRows =>
    match plan.keyValues e with
    | .error f => (.failed f, m_iRows)
    | .ok ks =>
      match exceed ks with
      | .error f => (.failed f, m_iRows)
      | .ok true => (.done, m_iRows)
      | .ok false =>
        match plan.columnResults e with
        | .error f => (.failed f, m_iRows)
        | .ok _ => .cons e (countFrom plan exceed es (m_iRows + 1))

/-- `begin`, which resets `m_iRows`, and all calls of `next`. -/
def counted (plan : LevelDBScanPlan) (order : SortOrder) (db : LevelDB) : Counted Entry :=
  match plan.begin conv with
  | .error f => (.failed f, 0)
  | .ok range =>
    if order = .descend then
      match range.seekStartReversed conv plan.table.keyTypes (.createIterator db) with
      | .error f => (.failed f, 0)
      | .ok behind => plan.countFrom (range.exceedEndReversed conv) behind 0
    else
      match range.seekStart conv plan.table.keyTypes (.createIterator db) with
      | .error f => (.failed f, 0)
      | .ok ahead => plan.countFrom (range.exceedEnd conv) ahead 0

variable {conv} {plan : LevelDBScanPlan}

theorem countFrom_raised (exceed : List ExecutionResult → Fallible Bool) (es : List Entry) (n : Nat) :
    Raised n (plan.countFrom exceed es n) := by
  induction es generalizing n with
  | nil => exact raised_done
  | cons e es ih =>
    rw [countFrom]
    split
    · exact raised_failed _
    · split
      · exact raised_failed _
      · exact raised_done
      · split
        · exact raised_failed _
        · exact (ih (n + 1)).cons e

theorem countFrom_scanFrom (range : KeySearchRange) (es : List Entry) (n : Nat) :
    (plan.countFrom (range.exceedEnd conv) es n).1 = plan.scanFrom conv range es := by
  induction es generalizing n with
  | nil => rfl
  | cons e es ih =>
    rw [countFrom, scanFrom]
    cases plan.keyValues e with
    | error f => rfl
    | ok ks =>
      dsimp only
      cases range.exceedEnd conv ks with
      | error f => rfl
      | ok b =>
        cases b with
        | true => rfl
        | false =>
          dsimp only
          cases plan.columnResults e with
          | error f => rfl
          | ok _ => exact congrArg (Run.cons e) (ih (n + 1))

theorem countFrom_scanBackFrom (range : KeySearchRange) (es : List Entry) (n : Nat) :
    (plan.countFrom (range.exceedEndReversed conv) es n).1 = plan.scanBackFrom conv range es := by
  induction es generalizing n with
  | nil => rfl
  | cons e es ih =>
    rw [countFrom, scanBackFrom]
    cases plan.keyValues e with
    | error f => rfl
    | ok ks =>
      dsimp only
      cases range.exceedEndReversed conv ks with
      | error f => rfl
      | ok b =>
        cases b with
        | true => rfl
        | false =>
          dsimp only
          cases plan.columnResults e with
          | error f => rfl
          | ok _ => exact congrArg (Run.cons e) (ih (n + 1))

theorem counted_run (order : SortOrder) (db : LevelDB) :
    (plan.counted conv order db).1 = if order = .descend then plan.runReversed conv db else plan.run conv db := by
  rw [counted, runReversed, LevelDBScanPlan.run]
  cases plan.begin conv with
  | error f => exact (ite_self _).symm
  | ok range =>
    dsimp only
    split
    · cases range.seekStartReversed conv plan.table.keyTypes (.createIterator db) with
      | error f => rfl
      | ok behind => exact countFrom_scanBackFrom range behind 0
    · cases range.seekStart conv plan.table.keyTypes (.createIterator db) with
      | error f => rfl
      | ok ahead => exact countFrom_scanFrom range ahead 0

theorem counted_raised (order : SortOrder) (db : LevelDB) : Raised 0 (plan.counted conv order db) := by
  rw [counted]
  split
  · exact raised_failed _
  · split
    · split
      · exact raised_failed _
      · exact countFrom_raised _ _ 0
    · split
      · exact raised_failed _
      · exact countFrom_raised _ _ 0

end LevelDBScanPlan

namespace UnionAllPlan

variable {ρ : Type}

/-- The calls of `next` on the current child; each row raises `m_iCurrentRow`. At its end the next child is begun. -/
def countChild (fault : Option Fault) (others : Nat → Counted ρ) : List ρ → Nat → Counted ρ
  | [], m_iCurrentRow =>
    match fault with
    | some f => (.failed f, m_iCurrentRow)
    | none => others m_iCurrentRow
  | r :: rs, m_iCurrentRow => .cons r (countChild fault others rs (m_iCurrentRow + 1))

/-- The calls of `next` over the children from `m_iCurrentIndex` on. -/
def countAll : List (Run ρ) → Nat → Counted ρ
  | [], m_iCurrentRow => (.done, m_iCurrentRow)
  | child :: children, m_iCurrentRow => countChild child.fault (countAll children) child.rows m_iCurrentRow

theorem countChild_raised {fault : Option Fault} {others : Nat → Counted ρ} (hothers : ∀ n, Raised n (others n))
    (rows : List ρ) (n : Nat) : Raised n (countChild fault others rows n) := by
  induction rows generalizing n with
  | nil =>
    cases fault with
    | none => exact hothers n
    | some f => exact raised_failed f
  | cons r rs ih => exact (ih (n + 1)).cons r

theorem countAll_raised (children : List (Run ρ)) (n : Nat) : Raised n (countAll children n) := by
  induction children generalizing n with
  | nil => exact raised_done
  | cons child children ih => exact countChild_raised ih child.rows n

theorem countChild_append {fault : Option Fault} {others : Nat → Counted ρ} {run : Run ρ}
    (hothers : ∀ n, (others n).1 = run) (rows : List ρ) (n : Nat) :
    (countChild fault others rows n).1 = (⟨rows, fault⟩ : Run ρ).append run := by
  induction rows generalizing n with
  | nil =>
    cases fault with
    | none => exact hothers n
    | some f => rfl
  | cons r rs ih =>
    rw [countChild]
    change Run.cons r (countChild fault others rs (n + 1)).1 = _
    rw [ih (n + 1)]
    cases fault <;> rfl

end UnionAllPlan

namespace FilterPlan

variable {σ ρ : Type} (conv : Conversions) (ops : PlanOps σ ρ)

/-- The calls of `next` over the rows of the child; one that finds a match raises `m_iCurrent`. -/
def countRows (predicatesInOr : List (List PredicateInfo)) (plan : σ) (fault : Option Fault) : List ρ → Nat → Counted ρ
  | [], m_iCurrent => (⟨[], fault⟩, m_iCurrent)
  | r :: rs, m_iCurrent =>
    match evaluateAny conv ops plan r predicatesInOr with
    | .error f => (.failed f, m_iCurrent)
    | .ok true => .cons r (countRows predicatesInOr plan fault rs (m_iCurrent + 1))
    | .ok false => countRows predicatesInOr plan fault rs m_iCurrent

variable {conv ops} {predicatesInOr : List (List PredicateInfo)} {plan : σ} {fault : Option Fault}

theorem countRows_raised (rows : List ρ) (n : Nat) :
    Raised n (countRows conv ops predicatesInOr plan fault rows n) := by
  induction rows generalizing n with
  | nil => rfl
  | cons r rs ih =>
    rw [countRows]
    split
    · exact raised_failed _
    · exact (ih (n + 1)).cons r
    · exact ih n

theorem countRows_filterRows (rows : List ρ) (n : Nat) :
    (countRows conv ops predicatesInOr plan fault rows n).1 = filterRows conv ops predicatesInOr plan fault rows := by
  induction rows generalizing n with
  | nil => rfl
  | cons r rs ih =>
    rw [countRows, filterRows]
    cases evaluateAny conv ops plan r predicatesInOr with
    | error f => rfl
    | ok b =>
      cases b with
      | true => exact congrArg (Run.cons r) (ih (n + 1))
      | false => exact ih n

end FilterPlan

namespace GroupByPlan

variable (conv : Conversions) (columnType : Nat → Fallible DBDataType)

/-- The calls of `next` from inside a group on; the end of a group raises `m_iRows`. -/
def countGroups (proj : List AggrFunc) (columns : List (Nat × DBDataType)) (fault : Option Fault) :
    List Row → List Acc → List ExecutionResult → Nat → Counted Row
  | [], accs, _, m_iRows =>
    match fault with
    | some f => (.failed f, m_iRows)
    | none => .cons (groupRow conv accs) (.done, m_iRows + 1)
  | r :: rs, accs, last, m_iRows =>
    match compareLast conv r columns last with
    | .error f => (.failed f, m_iRows)
    | .ok (last, true) =>
      match accs.mapM (update conv columnType r) with
      | .error f => (.failed f, m_iRows)
      | .ok accs => countGroups proj columns fault rs accs last m_iRows
    | .ok (last, false) =>
      .cons (groupRow conv accs) (match proj.mapM (start columnType r) with
        | .error f => (.failed f, m_iRows + 1)
        | .ok accs => countGroups proj columns fault rs accs last (m_iRows + 1))

/-- `begin`, which resets `m_iRows`, and all calls of `next`. -/
def counted (plan : GroupByPlan) (child : Run Row) : Counted Row :=
  match child.rows with
  | [] => (⟨[], child.fault⟩, 0)
  | r :: rs =>
    match plan.readLast columnType r with
    | .error f => (.failed f, 0)
    | .ok (columns, last) =>
      match plan.proj.mapM (start columnType r) with
      | .error f => (.failed f, 0)
      | .ok accs => countGroups conv columnType plan.proj columns child.fault rs accs last 0

variable {conv columnType} {proj : List AggrFunc} {columns : List (Nat × DBDataType)} {fault : Option Fault}

theorem countGroups_raised (rows : List Row) (accs : List Acc) (last : List ExecutionResult) (n : Nat) :
    Raised n (countGroups conv columnType proj columns fault rows accs last n) := by
  induction rows generalizing accs last n with
  | nil =>
    cases fault with
    | none => exact raised_done.cons _
    | some f => exact raised_failed f
  | cons r rs ih =>
    rw [countGroups]
    split
    · exact raised_failed _
    · split
      · exact raised_failed _
      · exact ih _ _ n
    · refine Raised.cons ?_ _
      split
      · exact raised_failed _
      · exact ih _ _ (n + 1)

theorem countGroups_nextAll (rows : List Row) (accs : List Acc) (last : List ExecutionResult) (n : Nat) :
    (countGroups conv columnType proj columns fault rows accs last n).1 =
      nextAll conv columnType proj columns fault rows accs last := by
  induction rows generalizing accs last n with
  | nil => cases fault <;> rfl
  | cons r rs ih =>
    rw [countGroups, nextAll]
    cases compareLast conv r columns last with
    | error f => rfl
    | ok result =>
      obtain ⟨last', same⟩ := result
      cases same with
      | true =>
        dsimp only
        cases accs.mapM (update conv columnType r) with
        | error f => rfl
        | ok accs' => exact ih _ _ n
      | false =>
        dsimp only
        cases proj.mapM (start columnType r) with
        | error f => rfl
        | ok accs' => exact congrArg (Run.cons _) (ih _ _ (n + 1))

theorem counted_run (plan : GroupByPlan) (child : Run Row) :
    (plan.counted conv columnType child).1 = plan.run conv columnType child := by
  rw [counted, GroupByPlan.run]
  cases child.rows with
  | nil => rfl
  | cons r rs =>
    dsimp only
    cases plan.readLast columnType r with
    | error f => rfl
    | ok result =>
      dsimp only
      cases plan.proj.mapM (start columnType r) with
      | error f => rfl
      | ok accs => exact countGroups_nextAll _ _ _ 0

theorem counted_raised (plan : GroupByPlan) (child : Run Row) : Raised 0 (plan.counted conv columnType child) := by
  rw [counted]
  split
  · rfl
  · split
    · exact raised_failed _
    · split
      · exact raised_failed _
      · exact countGroups_raised _ _ _ 0

end GroupByPlan

namespace ReadFilePlan

variable (conv : Conversions)

/-- The calls of `next` over the lines; one that has set its tokens raises `m_iRowCount`. -/
def countLines (plan : ReadFilePlan) : List Bytes → Nat → Counted Row
  | [], m_iRowCount => (.done, m_iRowCount)
  | line :: lines, m_iRowCount =>
    match plan.readLine conv line with
    | .error f => (.failed f, m_iRowCount)
    | .ok results => .cons (row results) (countLines plan lines (m_iRowCount + 1))

/-- `begin` and all calls of `next`; `begin` leaves `m_iRowCount` as it is. -/
def counted (plan : ReadFilePlan) (m_iRowCount : Nat) (file : Option (List Bytes)) : Counted Row :=
  match file with
  | none => (.failed (.thrown (.execution ("File " ++ text plan.path ++ " does not exists!"))), m_iRowCount)
  | some lines => plan.countLines conv (if plan.ignoreFirstLine then lines.tail else lines) m_iRowCount

variable {conv} {plan : ReadFilePlan}

theorem countLines_raised (lines : List Bytes) (n : Nat) : Raised n (plan.countLines conv lines n) := by
  induction lines generalizing n with
  | nil => exact raised_done
  | cons line lines ih =>
    rw [countLines]
    split
    · exact raised_failed _
    · exact (ih (n + 1)).cons _

theorem countLines_readLines (lines : List Bytes) (n : Nat) :
    (plan.countLines conv lines n).1 = plan.readLines conv lines := by
  induction lines generalizing n with
  | nil => rfl
  | cons line lines ih =>
    rw [countLines, readLines]
    cases plan.readLine conv line with
    | error f => rfl
    | ok results => exact congrArg (Run.cons _) (ih (n + 1))

theorem counted_run (n : Nat) (file : Option (List Bytes)) : (plan.counted conv n file).1 = plan.run conv file := by
  cases file with
  | none => rfl
  | some lines => exact countLines_readLines _ n

theorem counted_raised (n : Nat) (file : Option (List Bytes)) : Raised n (plan.counted conv n file) := by
  cases file with
  | none => exact raised_failed _
  | some lines => exact countLines_raised _ n

end ReadFilePlan

namespace Plan

variable (conv : Conversions) (std : StdSort) (st : Storage)

/-- The children of a union, as `begin` orders them. -/
def orderedRuns (order : SortOrder) (plans : List Plan) : List (Run Row) :=
  if order = .descend then (runs conv std st plans).reverse else runs conv std st plans

theorem countAll_appendAll (children : List (Run Row)) (n : Nat) :
    (UnionAllPlan.countAll children n).1 = appendAll children := by
  induction children generalizing n with
  | nil => rfl
  | cons child children ih => exact UnionAllPlan.countChild_append ih child.rows n

def selectTag (n : Nat) : Bytes := bytes "SELECT " ++ bytes (ToString.toString n)

/-- `getInfoString` after a run: the counter of the plan, or what it has been made of; a projection and a sort ask
their child. Only the counter of a file is not set back by `begin`: `m_iRowCount` is what earlier runs have left in
it, 0 in a new plan. -/
def getInfoString (m_iRowCount : Nat) : Plan → Bytes
  | empty => bytes "SELECT 0"
  | showTables tables => selectTag tables.length
  | showColumns pEntry => selectTag pEntry.getColumnCount
  | const plan => selectTag plan.rows.length
  | readFile plan => selectTag (plan.counted conv m_iRowCount (st.files plan.path)).2
  | scan plan order => selectTag (plan.counted conv order (st.tables plan.table.name)).2
  | unionAll _ order plans => selectTag (UnionAllPlan.countAll (orderedRuns conv std st order plans) 0).2
  | filter predicatesInOr child =>
    selectTag (FilterPlan.countRows conv ops predicatesInOr child (child.run conv std st).fault
      (child.run conv std st).rows 0).2
  | groupBy plan child => selectTag (plan.counted conv child.columnType (child.run conv std st)).2
  | sort _ child => child.getInfoString m_iRowCount
  | limit plan child => selectTag (plan.count (child.run conv std st))
  | projection _ child => child.getInfoString m_iRowCount

end Plan

end LevelPgServer
