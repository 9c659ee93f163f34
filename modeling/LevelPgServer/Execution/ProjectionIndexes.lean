import LevelPgServer.Common.ColumnPartition
import LevelPgServer.Execution.Plan

/-! The indexes that `addProjection` gives out, over any sequence of calls. -/

namespace LevelPgServer

open ParseNode

/-- The function, the column and the name of a projection on a group-by. -/
def GroupByPlan.funcFor (pNode : ParseNode) : Fallible (Option (FuncType × ParseNode × Bytes)) :=
  match pNode.type with
  | .name => .ok (some (.first, pNode, pNode.getString))
  | .func =>
    match GroupByPlan.funcOf pNode.getString with
    | none => throwParse ("Unknown function " ++ text pNode.sExpr)
    | some func => .ok (some (func, pNode.getChild 0, pNode.sExpr))
  | _ => .ok none

theorem GroupByPlan.addProjection_funcFor {σ : Type} (add : ParseNode → Fallible (Option Nat × σ)) (plan : GroupByPlan)
    (child : σ) (pNode : ParseNode) : plan.addProjection add child pNode =
      match GroupByPlan.funcFor pNode with
      | .error f => .error f
      | .ok none => .ok (none, plan, child)
      | .ok (some (func, pColumn, name)) => do
        let (index, child) ← add pColumn
        match index with
        | none => GroupByPlan.unrecognized pColumn
        | some i => return (some plan.proj.length, (plan.push ⟨func, name, i⟩).2, child) := by
  rw [GroupByPlan.addProjection, GroupByPlan.funcFor]
  cases pNode.type with
  | name => rfl
  | func => cases GroupByPlan.funcOf pNode.getString <;> rfl
  | _ => rfl

namespace SortPlan

theorem addColumn_findIdx? (plan : SortPlan) (index : Nat) (sExpr : Bytes) :
    (plan.addColumn index sExpr).2.proj.findIdx? (fun p => p.subIndex == index) =
      some (plan.addColumn index sExpr).1 := by
  rw [addColumn]
  split
  · next i hi => exact hi
  · next hnone =>
    rw [List.findIdx?_append, hnone]
    simp

theorem addColumn_getElem? (plan : SortPlan) (index : Nat) (sExpr : Bytes) :
    ∃ proj, (plan.addColumn index sExpr).2.proj[(plan.addColumn index sExpr).1]? = some proj ∧
      proj.subIndex = index := by
  obtain ⟨hlt, hsub, -⟩ := List.findIdx?_eq_some_iff_getElem.mp (plan.addColumn_findIdx? index sExpr)
  exact ⟨_, List.getElem?_eq_getElem hlt, eq_of_beq hsub⟩

theorem getElem?_addColumn {plan : SortPlan} {i : Nat} {proj : SortProjection} (h : plan.proj[i]? = some proj)
    (index : Nat)
    (sExpr : Bytes) : (plan.addColumn index sExpr).2.proj[i]? = some proj := by
  rw [addColumn]
  split
  · exact h
  · rw [List.getElem?_append_left (List.getElem?_eq_some_iff.mp h).1, h]

theorem addColumn_of_findIdx? {plan : SortPlan} {index i : Nat}
    (h : plan.proj.findIdx? (fun p => p.subIndex == index) = some i)
    (sExpr : Bytes) : (plan.addColumn index sExpr).1 = i := by
  rw [addColumn, h]

end SortPlan

namespace Plan

mutual

/-- `addProjection` with the plan that it leaves behind, also where it throws. -/
def project : Plan → ParseNode → Fallible (Option Nat) × Plan
  | empty, _ => (.ok none, empty)
  | showTables tables, pNode => (.ok (ShowTables.addProjection pNode), showTables tables)
  | showColumns pEntry, pNode => (.ok (ShowColumns.addProjection pNode), showColumns pEntry)
  | const plan, pNode => (.ok (plan.addProjection pNode), const plan)
  | readFile plan, pNode => (.ok (plan.addProjection pNode), readFile plan)
  | scan plan order, pNode =>
    match plan.addProjection pNode with
    | .ok (i, plan) => (.ok i, scan plan order)
    | .error f => (.error f, scan plan order)
  | unionAll hasOrder order plans, pNode =>
    let r := projectAll plans none pNode
    (r.1, unionAll hasOrder order r.2)
  | filter predicatesInOr child, pNode =>
    let r := child.project pNode
    (r.1, filter predicatesInOr r.2)
  | groupBy plan child, pNode =>
    match GroupByPlan.funcFor pNode with
    | .error f => (.error f, groupBy plan child)
    | .ok none => (.ok none, groupBy plan child)
    | .ok (some (func, pColumn, name)) =>
      let r := child.project pColumn
      match r.1 with
      | .error f => (.error f, groupBy plan r.2)
      | .ok none => (GroupByPlan.unrecognized pColumn, groupBy plan r.2)
      | .ok (some i) => (.ok (some plan.proj.length), groupBy (plan.push ⟨func, name, i⟩).2 r.2)
  | sort plan child, pNode =>
    let r := child.project pNode
    match r.1 with
    | .error f => (.error f, sort plan r.2)
    | .ok none => (.ok none, sort plan r.2)
    | .ok (some i) => (.ok (some (plan.addColumn i pNode.sExpr).1), sort (plan.addColumn i pNode.sExpr).2 r.2)
  | limit plan child, pNode =>
    let r := child.project pNode
    (r.1, limit plan r.2)
  | projection plan child, pNode => (.ok (plan.addProjection pNode), projection plan child)

def projectAll : List Plan → Option Nat → ParseNode → Fallible (Option Nat) × List Plan
  | [], lastProj, _ => (.ok lastProj, [])
  | p :: ps, lastProj, pNode =>
    let r := p.project pNode
    match r.1 with
    | .error f => (.error f, r.2 :: ps)
    | .ok none => (.ok none, r.2 :: ps)
    | .ok (some i) =>
      if lastProj.isSome ∧ lastProj ≠ some i then
        (throwParse ("projection conflict for " ++ text pNode.sExpr), r.2 :: ps)
      else
        let rest := projectAll ps (some i) pNode
        (rest.1, r.2 :: rest.2)

end

/-- An exception takes the plan with it. -/
def returned {α : Type} (r : Fallible (Option Nat) × α) : Fallible (Option Nat × α) :=
  match r.1 with
  | .ok i => .ok (i, r.2)
  | .error f => .error f

mutual

theorem addProjection_eq : ∀ (p : Plan) (n : ParseNode), p.addProjection n = returned (p.project n)
  | empty, _ => rfl
  | showTables _, _ => rfl
  | showColumns _, _ => rfl
  | const _, _ => rfl
  | readFile _, _ => rfl
  | scan plan _, n => by
    rw [addProjection, project]
    cases plan.addProjection n with
    | error f => rfl
    | ok r => rfl
  | unionAll _ _ plans, n => by
    rw [addProjection, project, addProjections_eq plans none n, returned, returned]
    cases (projectAll plans none n).1 <;> rfl
  | filter _ child, n => by
    rw [addProjection, project, addProjection_eq child n, returned, returned]
    cases (child.project n).1 <;> rfl
  | groupBy plan child, n => by
    rw [addProjection, project, GroupByPlan.addProjection_funcFor]
    cases GroupByPlan.funcFor n with
    | error f => rfl
    | ok target =>
      cases target with
      | none => rfl
      | some target =>
        obtain ⟨func, pColumn, name⟩ := target
        dsimp only
        rw [addProjection_eq child pColumn, returned]
        cases (child.project pColumn).1 with
        | error f => rfl
        | ok i => cases i <;> rfl
  | sort plan child, n => by
    rw [addProjection, project, SortPlan.addProjection, addProjection_eq child n, returned]
    cases (child.project n).1 with
    | error f => rfl
    | ok i => cases i <;> rfl
  | limit _ child, n => by
    rw [addProjection, project, addProjection_eq child n, returned, returned]
    cases (child.project n).1 <;> rfl
  | projection _ _, _ => rfl

theorem addProjections_eq : ∀ (ps : List Plan) (lastProj : Option Nat) (n : ParseNode),
    addProjections ps lastProj n = returned (projectAll ps lastProj n)
  | [], _, _ => rfl
  | p :: ps, lastProj, n => by
    rw [addProjections, projectAll, addProjection_eq p n, returned]
    cases (p.project n).1 with
    | error f => rfl
    | ok i =>
      cases i with
      | none => rfl
      | some i =>
        dsimp only
        by_cases hconflict : lastProj.isSome ∧ lastProj ≠ some i
        · rw [if_pos hconflict]
          simp only [bind, Except.bind, if_pos hconflict]
          rfl
        · rw [if_neg hconflict]
          simp only [bind, Except.bind, if_neg hconflict]
          rw [addProjections_eq ps (some i) n, returned, returned]
          cases (projectAll ps (some i) n).1 <;> rfl

end

end Plan

/-- What `getResult` reads at an index: a field of the row that a leaf is at, a key, a value or the whole key of the
entry that a scan is at, a constant, what a sort has copied, what a group-by makes of a column, or the column of
whichever child is current. -/
inductive Column
  | absent
  | field (index : Nat)
  | key (k : Nat)
  | value (v : Nat)
  | rowkey
  | constant (pNode : ParseNode)
  | copied (column : Column)
  | aggregate (func : FuncType) (column : Column)
  | either (columns : List Column)

/-- The name and the type of a column, or how asking for the type fails. -/
structure Heading where
  name : Bytes
  type : Fallible (Option DBDataType)

namespace LevelDBScanPlan

variable (plan : LevelDBScanPlan)

def column (index : Nat) : Column :=
  if index < plan.table.getKeyCount then .key index
  else if index - plan.table.getKeyCount < plan.columnValues.length then
    if plan.columnValues.getD (index - plan.table.getKeyCount) false then .value (index - plan.table.getKeyCount)
    else .absent
  else .rowkey

def read (e : Entry) : Column → Fallible ExecutionResult
  | .key k => DataRow.getResult plan.keyTypes e.1 k
  | .value v => DataRow.getResult plan.valueTypes e.2 v
  | .rowkey => .ok (.string e.1)
  | _ => .error .undefined

theorem getResult_column (e : Entry) (index : Nat) : plan.getResult e index = plan.read e (plan.column index) := by
  rw [getResult, column]
  split
  · rfl
  · dsimp only
    split
    · split <;> rfl
    · rfl

def heading : Column → Option Heading
  | .key k => (plan.table.getKeyColumn k).map fun c => ⟨c.name, .ok (some c.type)⟩
  | .value v => (plan.table.getValueColumn v).map fun c => ⟨c.name, .ok (some c.type)⟩
  | .rowkey => some ⟨bytes "_rowkey", .ok (some .bytes)⟩
  | _ => none

def Names (pNode : ParseNode) : Column → Prop
  | .key k => Tools.isRowKeyNode pNode = false ∧
      ∃ c, plan.table.getColumnByName pNode.getString = some c ∧ c.keyIndex = some k
  | .value v => Tools.isRowKeyNode pNode = false ∧
      ∃ c, plan.table.getColumnByName pNode.getString = some c ∧ c.keyIndex = none ∧ c.valueIndex = some v
  | .rowkey => Tools.isRowKeyNode pNode = true
  | _ => False

/-- The named column stands where the key columns and, behind them, the value columns are counted. -/
def Placed (pNode : ParseNode) : Prop :=
  Tools.isRowKeyNode pNode = false ∧
    ∃ j, plan.table.findColumn pNode.getString = some j ∧ (plan.table.keys ++ plan.table.values)[j]? = some j

/-- The key and value columns of the table are numbered by its lists, as those of a configuration are. -/
structure InRange (plan : LevelDBScanPlan) : Prop where
  points : plan.table.Points
  partitioned : plan.table.Partitioned
  values : plan.columnValues.length = plan.table.values.length

end LevelDBScanPlan

namespace TableInfo

variable {t : TableInfo}

theorem Partitioned.perm (hp : t.Points) (h : t.Partitioned) :
    (t.keys ++ t.values).Perm (List.range t.columns.length) := by
  rw [List.perm_iff_count]
  intro j
  rw [List.count_append]
  obtain hj | hj := Nat.lt_or_ge j t.columns.length
  · rw [(hp.partitioned_iff.mp h).2 j hj, List.count_eq_one_of_mem List.nodup_range (List.mem_range.mpr hj)]
  · rw [List.count_eq_zero_of_not_mem fun hk => absurd (hp.lt (.inl hk)) (Nat.not_lt_of_le hj),
      List.count_eq_zero_of_not_mem fun hv => absurd (hp.lt (.inr hv)) (Nat.not_lt_of_le hj),
      List.count_eq_zero_of_not_mem (by simpa using hj)]

theorem Partitioned.count (hp : t.Points) (h : t.Partitioned) : t.keys.length + t.values.length = t.columns.length := by
  have hlen := (h.perm hp).length_eq
  rwa [List.length_append, List.length_range] at hlen

theorem Partitioned.index_eq (h : t.Partitioned) {i j : Nat} {c d : DBColumnInfo} (hc : t.columns[i]? = some c)
    (hd : t.columns[j]? = some d) (hname : c.name = d.name) : i = j := by
  have hi := (h.lookup i c hc).2
  have hj := (h.lookup j d hd).2
  rw [hname, hj] at hi
  exact (Option.some.inj hi).symm

end TableInfo

theorem LevelDBScanPlan.inRange_create {t : TableInfo} (hp : t.Points) (h : t.Partitioned) :
    (LevelDBScanPlan.create t).InRange where
  points := hp
  partitioned := h
  values := by
    have hcount := h.count hp
    have hvalues : t.columns.length - t.keys.length = t.values.length := by omega
    rw [create, List.length_replicate]
    exact hvalues

namespace Plan

mutual

def column : Plan → Nat → Column
  | empty, _ => .absent
  | showTables _, index => .field index
  | showColumns _, index => .field index
  | const _, index => .field index
  | readFile _, index => .field index
  | scan plan _, index => plan.column index
  | unionAll _ _ plans, index => .either (columns plans index)
  | filter _ child, index => child.column index
  | groupBy plan child, index =>
    match plan.proj[index]? with
    | none => .absent
    | some func => .aggregate func.func (child.column func.index)
  | sort plan child, index =>
    match plan.proj[index]? with
    | none => .absent
    | some proj => .copied (child.column proj.subIndex)
  | limit _ child, index => child.column index
  | projection plan child, index =>
    match plan.proj[index]? with
    | none => .absent
    | some proj =>
      match proj.subIndex with
      | none => .constant proj.node
      | some i => child.column i

def columns : List Plan → Nat → List Column
  | [], _ => []
  | p :: ps, index => p.column index :: columns ps index

end

mutual

/-- The name and the type of the column that `getResult` reads at an index. -/
def heading : Plan → Nat → Option Heading
  | empty, _ => none
  | showTables _, index => ShowTables.columns[index]?.map fun name => ⟨name, .ok (some .string)⟩
  | showColumns _, index => ShowColumns.columns[index]?.map fun name =>
    ⟨name, .ok (some (ShowColumns.getResultType index))⟩
  | const plan, index => plan.columns[index]?.map fun name => ⟨name, plan.getResultType index⟩
  | readFile plan, index => plan.columns[index]?.map fun c => ⟨c.name, .ok (some c.type)⟩
  | scan plan _, index => plan.heading (plan.column index)
  | unionAll _ _ plans, index =>
    (firstHeading plans index).map fun h => ⟨h.name, h.type.map fun type => type.map widen⟩
  | filter _ child, index => child.heading index
  | groupBy plan child, index =>
    plan.proj[index]?.bind fun func =>
      (child.heading func.index).map fun h => ⟨func.name, plan.getResultType (fun _ => h.type) index⟩
  | sort plan child, index =>
    plan.proj[index]?.bind fun proj => (child.heading proj.subIndex).map fun h => ⟨proj.name, h.type⟩
  | limit _ child, index => child.heading index
  | projection plan child, index =>
    plan.proj[index]?.bind fun proj =>
      match proj.subIndex with
      | none => some ⟨proj.name, .ok proj.node.getConstResultType⟩
      | some i => (child.heading i).map fun h => ⟨proj.name, h.type⟩

def firstHeading : List Plan → Nat → Option Heading
  | [], _ => none
  | p :: _, index => p.heading index

end

/-- Name, type and result of an index are those of one column. -/
structure Denotes (p : Plan) (i : Nat) (h : Heading) (c : Column) : Prop where
  column : p.column i = c
  heading : p.heading i = some h
  name : p.getProjectionName i = .ok h.name
  type : p.getResultType i = h.type

mutual

/-- The scan that is asked for the name of an index has, at this position of its column list, the column of
this index. -/
def NamesByIndex : Plan → Nat → Prop
  | scan plan _, index => (plan.table.keys ++ plan.table.values)[index]? = some index
  | unionAll _ _ plans, index => FirstNamesByIndex plans index
  | filter _ child, index => child.NamesByIndex index
  | limit _ child, index => child.NamesByIndex index
  | _, _ => True

def FirstNamesByIndex : List Plan → Nat → Prop
  | [], _ => True
  | p :: _, index => p.NamesByIndex index

end

mutual

/-- The column at an index is the one that an expression names. -/
def Names : Plan → ParseNode → Nat → Prop
  | empty, _, _ => False
  | showTables _, n, index => ∃ name, ShowTables.columns[index]? = some name ∧
    Tools.equalsIgnoreCase n.getString name = true
  | showColumns _, n, index =>
    ∃ name, ShowColumns.columns[index]? = some name ∧ Tools.equalsIgnoreCase name n.getString = true
  | const plan, n, index => plan.columns[index]? = some n.getString
  | readFile plan, n, index => ∃ c, plan.columns[index]? = some c ∧ c.name = n.getString
  | scan plan _, n, index => plan.Names n (plan.column index)
  | unionAll _ _ plans, n, index => AllName plans n index
  | filter _ child, n, index => child.Names n index
  | groupBy plan child, n, index => ∃ func pColumn name c, GroupByPlan.funcFor n = .ok (some (func, pColumn, name)) ∧
      plan.proj[index]? = some ⟨func, name, c⟩ ∧ child.Names pColumn c
  | sort plan child, n, index => ∃ proj, plan.proj[index]? = some proj ∧ child.Names n proj.subIndex
  | limit _ child, n, index => child.Names n index
  | projection plan _, n, index => ∃ proj, plan.proj[index]? = some proj ∧ proj.name = n.getString

def AllName : List Plan → ParseNode → Nat → Prop
  | [], _, _ => True
  | p :: ps, n, index => p.Names n index ∧ AllName ps n index

end

mutual

/-- Where a scan is asked for the name of a column, the column is at the place where it is counted. -/
def Placed : Plan → ParseNode → Prop
  | scan plan _, n => plan.Placed n
  | unionAll _ _ plans, n => FirstPlaced plans n
  | filter _ child, n => child.Placed n
  | limit _ child, n => child.Placed n
  | _, _ => True

def FirstPlaced : List Plan → ParseNode → Prop
  | [], _ => True
  | p :: _, n => p.Placed n

end

mutual

/-- A group-by hears of a call. A projection passes none on. -/
def regroups : Plan → Bool
  | groupBy _ _ => true
  | unionAll _ _ plans => anyRegroups plans
  | filter _ child => child.regroups
  | sort _ child => child.regroups
  | limit _ child => child.regroups
  | _ => false

def anyRegroups : List Plan → Bool
  | [] => false
  | p :: ps => p.regroups || anyRegroups ps

end

mutual

def Live : Plan → Nat → Prop
  | empty, _ => False
  | showTables _, index => index < ShowTables.columns.length
  | showColumns _, index => index < ShowColumns.columns.length
  | const plan, index => index < plan.columns.length
  | readFile plan, index => index < plan.columns.length
  | scan plan _, index => index < plan.table.getKeyCount ∨
      plan.columnValues.getD (index - plan.table.getKeyCount) false = true ∨
        index = plan.table.getKeyCount + plan.columnValues.length
  | unionAll _ _ plans, index => plans ≠ [] ∧ AllLive plans index
  | filter _ child, index => child.Live index
  | groupBy plan child, index => ∃ func, plan.proj[index]? = some func ∧ child.Live func.index
  | sort plan child, index => ∃ proj, plan.proj[index]? = some proj ∧ child.Live proj.subIndex
  | limit _ child, index => child.Live index
  | projection plan child, index =>
    ∃ proj, plan.proj[index]? = some proj ∧ ∀ i, proj.subIndex = some i → child.Live i

def AllLive : List Plan → Nat → Prop
  | [], _ => True
  | p :: ps, index => p.Live index ∧ AllLive ps index

end

mutual

/-- The scans below are in range, and what a projection finds by a name it has projected from its child. -/
def InRange : Plan → Prop
  | scan plan _ => plan.InRange
  | unionAll _ _ plans => AllInRange plans
  | filter _ child => child.InRange
  | groupBy _ child => child.InRange
  | sort _ child => child.InRange
  | limit _ child => child.InRange
  | projection plan child => child.InRange ∧ ∀ name i, plan.find name = some i →
      ∃ proj, plan.proj[i]? = some proj ∧ proj.name = name ∧ ∀ c, proj.subIndex = some c → child.Live c
  | _ => True

def AllInRange : List Plan → Prop
  | [] => True
  | p :: ps => p.InRange ∧ AllInRange ps

end

mutual

/-- What calls may do to a plan: columns are added behind those that are there. -/
inductive Extends : Plan → Plan → Prop
  | same (p : Plan) : Extends p p
  | scan {plan : LevelDBScanPlan} {order : SortOrder} (columnValues : List Bool) (projectValue : Bool)
      (hlen : columnValues.length = plan.columnValues.length)
      (hkept : ∀ v, plan.columnValues.getD v false = true → columnValues.getD v false = true) :
      Extends (scan plan order) (scan { plan with columnValues, projectValue } order)
  | unionAll {hasOrder : Bool} {order : SortOrder} {ps ps' : List Plan} (h : ExtendsAll ps ps') :
      Extends (unionAll hasOrder order ps) (unionAll hasOrder order ps')
  | filter {predicatesInOr : List (List FilterPlan.PredicateInfo)} {c c' : Plan} (h : Extends c c') :
      Extends (filter predicatesInOr c) (filter predicatesInOr c')
  | groupBy {plan : GroupByPlan} {c c' : Plan} (added : List AggrFunc) (h : Extends c c') :
      Extends (groupBy plan c) (groupBy { plan with proj := plan.proj ++ added } c')
  | sort {plan : SortPlan} {c c' : Plan} (added : List SortProjection) (h : Extends c c') :
      Extends (sort plan c) (sort { plan with proj := plan.proj ++ added } c')
  | limit {plan : LimitPlan} {c c' : Plan} (h : Extends c c') : Extends (limit plan c) (limit plan c')

inductive ExtendsAll : List Plan → List Plan → Prop
  | nil : ExtendsAll [] []
  | cons {p p' : Plan} {ps ps' : List Plan} (h : Extends p p') (hs : ExtendsAll ps ps') :
    ExtendsAll (p :: ps) (p' :: ps')

end

theorem ExtendsAll.ne_nil {ps qs : List Plan} (h : ExtendsAll ps qs) (hne : ps ≠ []) : qs ≠ [] := by
  cases h with
  | nil => exact hne
  | cons => exact List.cons_ne_nil _ _

theorem extendsAll_refl : ∀ ps : List Plan, ExtendsAll ps ps
  | [] => .nil
  | p :: ps => .cons (.same p) (extendsAll_refl ps)

mutual

theorem Extends.trans : ∀ {p q r : Plan}, Extends p q → Extends q r → Extends p r
  | _, _, _, h, .same _ => h
  | _, _, _, .same _, h => h
  | _, _, _, .scan cs b hlen hkept, .scan cs' b' hlen' hkept' =>
    .scan cs' b' (hlen'.trans hlen) fun v hv => hkept' v (hkept v hv)
  | _, _, _, .unionAll h, .unionAll h' => .unionAll (h.trans h')
  | _, _, _, .filter h, .filter h' => .filter (h.trans h')
  | _, _, _, .groupBy added h, .groupBy added' h' => by
    rw [List.append_assoc]
    exact .groupBy (added ++ added') (h.trans h')
  | _, _, _, .sort added h, .sort added' h' => by
    rw [List.append_assoc]
    exact .sort (added ++ added') (h.trans h')
  | _, _, _, .limit h, .limit h' => .limit (h.trans h')

theorem ExtendsAll.trans : ∀ {ps qs rs : List Plan}, ExtendsAll ps qs → ExtendsAll qs rs → ExtendsAll ps rs
  | _, _, _, .nil, h => h
  | _, _, _, .cons h hs, .cons h' hs' => .cons (h.trans h') (hs.trans hs')

end

section Scan

variable {plan plan' : LevelDBScanPlan} {order : SortOrder} {n n' : ParseNode} {i : Nat}

theorem getD_set {l : List Bool} {v w : Nat} (h : l.getD w false = true) : (l.set v true).getD w false = true := by
  rw [List.getD_eq_getElem?_getD] at h ⊢
  rw [List.getElem?_set]
  split
  · split
    · rfl
    · next hlt => rw [List.getElem?_eq_none (by omega)] at h; exact h
  · exact h

theorem scan_extends {r : Option Nat} (h : plan.addProjection n = .ok (r, plan')) :
    Extends (scan plan order) (scan plan' order) := by
  rw [LevelDBScanPlan.addProjection] at h
  split at h
  · cases h
    exact .same _
  · split at h
    · split at h
      · cases h
      · split at h
        · cases h
          exact .same _
        · cases h
          exact .scan _ _ List.length_set fun w hw => getD_set hw
        · cases h
    · cases h
      exact .same _

theorem scan_live (hr : plan.InRange) (h : plan.addProjection n = .ok (some i, plan')) : (scan plan' order).Live i := by
  rw [LevelDBScanPlan.addProjection] at h
  split at h
  · cases h
    exact .inr (.inr (Nat.add_comm _ _))
  · split at h
    · split at h
      · cases h
      · next pColumn hcolumn =>
        obtain ⟨j, hj⟩ := TableInfo.getColumnByName_mem hcolumn
        split at h
        · next k hk =>
          cases h
          exact .inl (List.getElem?_eq_some_iff.mp (hr.points.key j pColumn _ hj hk)).1
        · next v hk hv =>
          cases h
          refine .inr (.inl ?_)
          have hlt : v < plan.columnValues.length := by
            rw [hr.values]
            exact (List.getElem?_eq_some_iff.mp (hr.points.value j pColumn _ hj hv)).1
          rw [Nat.add_sub_cancel_left, List.getD_eq_getElem?_getD, List.getElem?_set_self hlt]
          rfl
        · cases h
    · cases h

theorem scan_names_project (hr : plan.InRange) (h : plan.addProjection n = .ok (some i, plan')) :
    (scan plan' order).Names n i := by
  rw [Names, LevelDBScanPlan.column]
  rw [LevelDBScanPlan.addProjection] at h
  split at h
  · next hrow =>
    cases h
    rw [if_neg (by omega), if_neg (by omega)]
    exact hrow
  · next hrow =>
    have hrow := eq_false_of_ne_true hrow
    split at h
    · split at h
      · cases h
      · next pColumn hcolumn =>
        obtain ⟨j, hj⟩ := TableInfo.getColumnByName_mem hcolumn
        split at h
        · next k hk =>
          cases h
          have hlt : i < plan.table.getKeyCount := (List.getElem?_eq_some_iff.mp (hr.points.key j pColumn _ hj hk)).1
          rw [if_pos hlt]
          exact ⟨hrow, pColumn, hcolumn, hk⟩
        · next v hk hv =>
          cases h
          have hlt : v < plan.columnValues.length := by
            rw [hr.values]
            exact (List.getElem?_eq_some_iff.mp (hr.points.value j pColumn v hj hv)).1
          have hset : (plan.columnValues.set v true).getD v false = true := by
            rw [List.getD_eq_getElem?_getD, List.getElem?_set_self hlt]
            rfl
          dsimp only
          rw [if_neg (by omega), Nat.add_sub_cancel_left, List.length_set, if_pos hlt, if_pos hset]
          exact ⟨hrow, pColumn, hcolumn, hk, hv⟩
        · cases h
    · cases h

/-- The index depends on the table only. -/
theorem scan_index (ht : plan'.table = plan.table) (hlen : plan'.columnValues.length = plan.columnValues.length)
    (htype : n'.type = n.type) (hstring : n'.getString = n.getString) :
    (plan'.addProjection n').map Prod.fst = (plan.addProjection n).map Prod.fst := by
  have hrow : Tools.isRowKeyNode n' = Tools.isRowKeyNode n := by
    rw [Tools.isRowKeyNode, Tools.isRowKeyNode, htype, hstring]
  rw [LevelDBScanPlan.addProjection, LevelDBScanPlan.addProjection, hrow, htype, hstring, ht, hlen]
  split
  · rfl
  · split
    · split
      · rfl
      · split <;> rfl
    · rfl

end Scan

section Returns

variable {n : ParseNode} {i c : Nat} {lastProj : Option Nat} {ps : List Plan}

theorem groupBy_returns {plan : GroupByPlan} {child : Plan} (h : ((groupBy plan child).project n).1 = .ok (some i)) :
    ∃ func pColumn name c, GroupByPlan.funcFor n = .ok (some (func, pColumn, name)) ∧
      (child.project pColumn).1 = .ok (some c) ∧ i = plan.proj.length ∧
      ((groupBy plan child).project n).2 = groupBy (plan.push ⟨func, name, c⟩).2 (child.project pColumn).2 := by
  rw [project] at h ⊢
  cases hf : GroupByPlan.funcFor n with
  | error f =>
    rw [hf] at h
    cases h
  | ok target =>
    cases target with
    | none =>
      rw [hf] at h
      cases h
    | some target =>
      obtain ⟨func, pColumn, name⟩ := target
      rw [hf] at h
      dsimp only at h ⊢
      cases hc : (child.project pColumn).1 with
      | error f =>
        rw [hc] at h
        cases h
      | ok r =>
        cases r with
        | none =>
          rw [hc] at h
          cases h
        | some c =>
          rw [hc] at h
          cases h
          exact ⟨func, pColumn, name, c, rfl, hc, rfl, rfl⟩

theorem sort_returns {plan : SortPlan} {child : Plan} (h : ((sort plan child).project n).1 = .ok (some i)) :
    ∃ c, (child.project n).1 = .ok (some c) ∧ i = (plan.addColumn c n.sExpr).1 ∧
      ((sort plan child).project n).2 = sort (plan.addColumn c n.sExpr).2 (child.project n).2 := by
  rw [project] at h ⊢
  cases hc : (child.project n).1 with
  | error f =>
    rw [hc] at h
    cases h
  | ok r =>
    cases r with
    | none =>
      rw [hc] at h
      cases h
    | some c =>
      rw [hc] at h
      cases h
      exact ⟨c, rfl, rfl, rfl⟩

theorem sort_project {plan : SortPlan} {child : Plan} (hc : (child.project n).1 = .ok (some c)) :
    ((sort plan child).project n).1 = .ok (some (plan.addColumn c n.sExpr).1) := by
  rw [project, hc]

theorem projectAll_returns (h : (projectAll ps lastProj n).1 = .ok (some i)) :
    (lastProj = none ∧ ps ≠ [] ∨ lastProj = some i) ∧ (∀ p ∈ ps, (p.project n).1 = .ok (some i)) ∧
      (projectAll ps lastProj n).2 = ps.map fun p => (p.project n).2 := by
  induction ps generalizing lastProj with
  | nil =>
    cases h
    exact ⟨.inr rfl, fun _ hp => (List.not_mem_nil hp).elim, rfl⟩
  | cons p ps ih =>
    rw [projectAll] at h ⊢
    dsimp only at h ⊢
    cases hp : (p.project n).1 with
    | error f =>
      rw [hp] at h
      cases h
    | ok r =>
      cases r with
      | none =>
        rw [hp] at h
        cases h
      | some c =>
        rw [hp] at h
        dsimp only at h ⊢
        split at h
        · cases h
        · next hconflict =>
          rw [if_neg hconflict]
          obtain ⟨hlast, hall, hmap⟩ := ih h
          have hc : c = i := by
            obtain ⟨hnone, -⟩ | hsome := hlast
            · cases hnone
            · exact Option.some.inj hsome
          subst hc
          refine ⟨?_, ?_, by rw [hmap]; rfl⟩
          · cases lastProj with
            | none => exact .inl ⟨rfl, List.cons_ne_nil _ _⟩
            | some l =>
              refine .inr ?_
              by_contra hne
              exact hconflict ⟨rfl, hne⟩
          · intro q hq
            obtain rfl | hq := List.mem_cons.mp hq
            · exact hp
            · exact hall q hq

theorem projectAll_of_all (hlast : lastProj = none ∧ ps ≠ [] ∨ lastProj = some i)
    (hall : ∀ p ∈ ps, (p.project n).1 = .ok (some i)) : (projectAll ps lastProj n).1 = .ok (some i) := by
  induction ps generalizing lastProj with
  | nil =>
    obtain ⟨-, hne⟩ | rfl := hlast
    · exact absurd rfl hne
    · rfl
  | cons p ps ih =>
    rw [projectAll]
    dsimp only
    rw [hall p List.mem_cons_self]
    have hconflict : ¬(lastProj.isSome ∧ lastProj ≠ some i) := by
      rintro ⟨hsome, hne⟩
      obtain ⟨rfl, -⟩ | rfl := hlast
      · cases hsome
      · exact hne rfl
    dsimp only
    rw [if_neg hconflict]
    exact ih (.inr rfl) fun q hq => hall q (List.mem_cons_of_mem _ hq)

end Returns

section Extension

mutual

theorem project_extends : ∀ (p : Plan) (n : ParseNode), Extends p (p.project n).2
  | empty, _ => .same _
  | showTables _, _ => .same _
  | showColumns _, _ => .same _
  | const _, _ => .same _
  | readFile _, _ => .same _
  | scan plan order, n => by
    rw [project]
    cases h : plan.addProjection n with
    | error f => exact .same _
    | ok r => exact scan_extends h
  | unionAll _ _ plans, n => .unionAll (projectAll_extends plans none n)
  | filter _ child, n => .filter (project_extends child n)
  | groupBy plan child, n => by
    rw [project]
    split
    · exact .same _
    · exact .same _
    · next func pColumn name _ =>
      have hchild := project_extends child pColumn
      have hkept : Extends (groupBy plan child) (groupBy plan (child.project pColumn).2) := by
        have h : Extends (groupBy plan child) (groupBy { plan with proj := plan.proj ++ [] } _) := .groupBy [] hchild
        rwa [List.append_nil] at h
      dsimp only
      split
      · exact hkept
      · exact hkept
      · exact .groupBy _ hchild
  | sort plan child, n => by
    have hchild := project_extends child n
    have hkept : Extends (sort plan child) (sort plan (child.project n).2) := by
      have h : Extends (sort plan child) (sort { plan with proj := plan.proj ++ [] } _) := .sort [] hchild
      rwa [List.append_nil] at h
    rw [project]
    split
    · exact hkept
    · exact hkept
    · rw [SortPlan.addColumn]
      split
      · exact hkept
      · exact .sort _ hchild
  | limit _ child, n => .limit (project_extends child n)
  | projection _ _, _ => .same _

theorem projectAll_extends : ∀ (ps : List Plan) (lastProj : Option Nat) (n : ParseNode),
    ExtendsAll ps (projectAll ps lastProj n).2
  | [], _, _ => .nil
  | p :: ps, lastProj, n => by
    have hp := project_extends p n
    rw [projectAll]
    dsimp only
    split
    · exact .cons hp (extendsAll_refl ps)
    · exact .cons hp (extendsAll_refl ps)
    · split
      · exact .cons hp (extendsAll_refl ps)
      · exact .cons hp (projectAll_extends ps _ n)

end

mutual

theorem Extends.inRange : ∀ {p q : Plan}, Extends p q → p.InRange → q.InRange
  | _, _, .same _, h => h
  | _, _, .scan _ _ hlen _, h => by
    rw [InRange] at h ⊢
    exact ⟨h.points, h.partitioned, hlen.trans h.values⟩
  | _, _, .unionAll hx, h => by
    rw [InRange] at h ⊢
    exact hx.inRange h
  | _, _, .filter hx, h => by
    rw [InRange] at h ⊢
    exact hx.inRange h
  | _, _, .groupBy _ hx, h => by
    rw [InRange] at h ⊢
    exact hx.inRange h
  | _, _, .sort _ hx, h => by
    rw [InRange] at h ⊢
    exact hx.inRange h
  | _, _, .limit hx, h => by
    rw [InRange] at h ⊢
    exact hx.inRange h

theorem ExtendsAll.inRange : ∀ {ps qs : List Plan}, ExtendsAll ps qs → AllInRange ps → AllInRange qs
  | _, _, .nil, h => h
  | _, _, .cons hx hxs, h => by
    rw [AllInRange] at h ⊢
    exact ⟨hx.inRange h.1, hxs.inRange h.2⟩

end

mutual

theorem Extends.regroups : ∀ {p q : Plan}, Extends p q → q.regroups = p.regroups
  | _, _, .same _ => rfl
  | _, _, .scan _ _ _ _ => rfl
  | _, _, .unionAll hx => hx.anyRegroups
  | _, _, .filter hx => hx.regroups
  | _, _, .groupBy _ _ => rfl
  | _, _, .sort _ hx => hx.regroups
  | _, _, .limit hx => hx.regroups

theorem ExtendsAll.anyRegroups : ∀ {ps qs : List Plan}, ExtendsAll ps qs → anyRegroups qs = anyRegroups ps
  | _, _, .nil => rfl
  | _, _, .cons hx hxs => by
    rw [Plan.anyRegroups, Plan.anyRegroups, hx.regroups, hxs.anyRegroups]

end

mutual

theorem Extends.placed {n : ParseNode} : ∀ {p q : Plan}, Extends p q → (q.Placed n ↔ p.Placed n)
  | _, _, .same _ => .rfl
  | _, _, .scan _ _ _ _ => .rfl
  | _, _, .unionAll hx => hx.firstPlaced
  | _, _, .filter hx => hx.placed
  | _, _, .groupBy _ _ => .rfl
  | _, _, .sort _ _ => .rfl
  | _, _, .limit hx => hx.placed

theorem ExtendsAll.firstPlaced {n : ParseNode} : ∀ {ps qs : List Plan}, ExtendsAll ps qs →
    (FirstPlaced qs n ↔ FirstPlaced ps n)
  | _, _, .nil => .rfl
  | _, _, .cons hx _ => hx.placed

end

/-- The index denotes in `q` what it denotes in `p`. -/
structure Keeps (p q : Plan) (i : Nat) : Prop where
  type : q.getResultType i = p.getResultType i
  name : q.getProjectionName i = p.getProjectionName i
  column : q.column i = p.column i
  heading : q.heading i = p.heading i

structure KeepsAll (ps qs : List Plan) (i : Nat) : Prop where
  type : firstResultType qs i = firstResultType ps i
  name : firstProjectionName qs i = firstProjectionName ps i
  columns : columns qs i = columns ps i
  heading : firstHeading qs i = firstHeading ps i

theorem Keeps.refl (p : Plan) (i : Nat) : Keeps p p i := ⟨rfl, rfl, rfl, rfl⟩

theorem scan_keeps {plan : LevelDBScanPlan} {order : SortOrder} {columnValues : List Bool}
    (projectValue : Bool) {i : Nat}
    (hlen : columnValues.length = plan.columnValues.length)
    (hkept : ∀ v, plan.columnValues.getD v false = true → columnValues.getD v false = true)
    (h : (scan plan order).Live i) : (scan { plan with columnValues, projectValue } order).Live i ∧
      Keeps (scan plan order) (scan { plan with columnValues, projectValue } order) i := by
  rw [Live] at h
  have hcolumn : LevelDBScanPlan.column { plan with columnValues, projectValue } i = plan.column i := by
    rw [LevelDBScanPlan.column, LevelDBScanPlan.column]
    dsimp only
    rw [hlen]
    split
    · rfl
    · next hkey =>
      split
      · next hlt =>
        obtain h | h | h := h
        · exact absurd h hkey
        · rw [if_pos (hkept _ h), if_pos h]
        · omega
      · rfl
  refine ⟨?_, rfl, rfl, hcolumn, ?_⟩
  · rw [Live]
    obtain h | h | h := h
    · exact .inl h
    · exact .inr (.inl (hkept _ h))
    · exact .inr (.inr (h.trans (by rw [hlen])))
  · rw [heading, heading, hcolumn]
    cases plan.column i <;> rfl

theorem getElem?_of_some {α : Type} {l : List α} {i : Nat} {a : α} (h : l[i]? = some a) (added : List α) :
    (l ++ added)[i]? = some a := by
  rw [List.getElem?_append_left (List.getElem?_eq_some_iff.mp h).1, h]

theorem nameAt_of_some {α : Type} {l : List α} {i : Nat} {a : α} (h : l[i]? = some a) (name : α → Bytes) :
    nameAt (l.map name) i = .ok (name a) := by
  rw [nameAt, List.getElem?_map, h]
  rfl

mutual

theorem Extends.keeps : ∀ {p q : Plan} {i : Nat}, Extends p q → p.Live i → q.Live i ∧ Keeps p q i
  | _, _, _, .same _, h => ⟨h, .refl _ _⟩
  | _, _, _, .scan _ projectValue hlen hkept, h => scan_keeps projectValue hlen hkept h
  | _, _, _, .unionAll hx, h => by
    rw [Live] at h ⊢
    obtain ⟨hlive, htype, hname, hcolumns, hheading⟩ := hx.keeps h.2
    refine ⟨⟨hx.ne_nil h.1, hlive⟩, ?_, ?_, ?_, ?_⟩
    · rw [getResultType, getResultType, htype]
    · rw [getProjectionName, getProjectionName, hname]
    · rw [column, column, hcolumns]
    · rw [heading, heading, hheading]
  | _, _, _, .filter hx, h => by
    rw [Live] at h ⊢
    obtain ⟨hlive, htype, hname, hcolumn, hheading⟩ := hx.keeps h
    exact ⟨hlive, htype, hname, hcolumn, hheading⟩
  | _, _, _, .groupBy added hx, h => by
    rw [Live] at h ⊢
    obtain ⟨func, hfunc, hlive⟩ := h
    obtain ⟨hlive', htype, -, hcolumn, hheading⟩ := hx.keeps hlive
    have hfunc' := getElem?_of_some hfunc added
    refine ⟨⟨func, hfunc', hlive'⟩, ?_, ?_, ?_, ?_⟩
    · rw [getResultType, getResultType, GroupByPlan.getResultType, GroupByPlan.getResultType, hfunc, hfunc']
      dsimp only
      rw [htype]
    · rw [getProjectionName, getProjectionName, nameAt_of_some hfunc, nameAt_of_some hfunc']
    · rw [column, column, hfunc, hfunc']
      dsimp only
      rw [hcolumn]
    · rw [heading, heading, hfunc, hfunc', Option.bind_some, Option.bind_some, hheading]
      simp only [GroupByPlan.getResultType, hfunc, hfunc']
  | _, _, _, .sort added hx, h => by
    rw [Live] at h ⊢
    obtain ⟨proj, hproj, hlive⟩ := h
    obtain ⟨hlive', htype, -, hcolumn, hheading⟩ := hx.keeps hlive
    have hproj' := getElem?_of_some hproj added
    refine ⟨⟨proj, hproj', hlive'⟩, ?_, ?_, ?_, ?_⟩
    · rw [getResultType, getResultType, hproj, hproj']
      exact htype
    · rw [getProjectionName, getProjectionName, nameAt_of_some hproj, nameAt_of_some hproj']
    · rw [column, column, hproj, hproj']
      dsimp only
      rw [hcolumn]
    · rw [heading, heading, hproj, hproj', Option.bind_some, Option.bind_some, hheading]
  | _, _, _, .limit hx, h => by
    rw [Live] at h ⊢
    obtain ⟨hlive, htype, hname, hcolumn, hheading⟩ := hx.keeps h
    exact ⟨hlive, htype, hname, hcolumn, hheading⟩

theorem ExtendsAll.keeps : ∀ {ps qs : List Plan} {i : Nat}, ExtendsAll ps qs → AllLive ps i →
    AllLive qs i ∧ KeepsAll ps qs i
  | _, _, _, .nil, h => ⟨h, rfl, rfl, rfl, rfl⟩
  | _, _, _, .cons hx hxs, h => by
    rw [AllLive] at h ⊢
    obtain ⟨hlive, htype, hname, hcolumn, hheading⟩ := hx.keeps h.1
    obtain ⟨hlives, -, -, hcolumns, -⟩ := hxs.keeps h.2
    exact ⟨⟨hlive, hlives⟩, htype, hname, by rw [columns, columns, hcolumn, hcolumns], hheading⟩

end

theorem scan_names {plan : LevelDBScanPlan} {order : SortOrder} {columnValues : List Bool}
    (projectValue : Bool) {i : Nat}
    {n : ParseNode} (hlen : columnValues.length = plan.columnValues.length)
    (hkept : ∀ v, plan.columnValues.getD v false = true → columnValues.getD v false = true)
    (hlive : (scan plan order).Live i) (h : (scan plan order).Names n i) :
    (scan { plan with columnValues, projectValue } order).Names n i := by
  have hcolumn := (scan_keeps projectValue hlen hkept hlive).2.column
  rw [column, column] at hcolumn
  rw [Names] at h ⊢
  rw [hcolumn]
  cases hc : plan.column i <;> rw [hc] at h <;> exact h

mutual

theorem Extends.names : ∀ {p q : Plan} {n : ParseNode} {i : Nat}, Extends p q → p.Live i → p.Names n i → q.Names n i
  | _, _, _, _, .same _, _, h => h
  | _, _, _, _, .scan _ projectValue hlen hkept, hlive, h => scan_names projectValue hlen hkept hlive h
  | _, _, _, _, .unionAll hx, hlive, h => by
    rw [Live] at hlive
    exact hx.names hlive.2 h
  | _, _, _, _, .filter hx, hlive, h => by
    rw [Live] at hlive
    exact hx.names hlive h
  | _, _, _, _, .groupBy added hx, hlive, h => by
    rw [Live] at hlive
    obtain ⟨func, pColumn, name, c, hfor, hfunc, hnames⟩ := h
    obtain ⟨func', hfunc', hlive⟩ := hlive
    rw [hfunc] at hfunc'
    cases hfunc'
    exact ⟨func, pColumn, name, c, hfor, getElem?_of_some hfunc added, hx.names hlive hnames⟩
  | _, _, _, _, .sort added hx, hlive, h => by
    rw [Live] at hlive
    obtain ⟨proj, hproj, hnames⟩ := h
    obtain ⟨proj', hproj', hlive⟩ := hlive
    rw [hproj] at hproj'
    cases hproj'
    exact ⟨proj, getElem?_of_some hproj added, hx.names hlive hnames⟩
  | _, _, _, _, .limit hx, hlive, h => by
    rw [Live] at hlive
    exact hx.names hlive h

theorem ExtendsAll.names : ∀ {ps qs : List Plan} {n : ParseNode} {i : Nat}, ExtendsAll ps qs → AllLive ps i →
    AllName ps n i → AllName qs n i
  | _, _, _, _, .nil, _, h => h
  | _, _, _, _, .cons hx hxs, hlive, h => by
    rw [AllLive] at hlive
    rw [AllName] at h ⊢
    exact ⟨hx.names hlive.1 h.1, hxs.names hlive.2 h.2⟩

end

theorem indexOfName_fits {fits : Bytes → Bool} {names : List Bytes} {i : Nat} (h : indexOfName fits names = some i) :
    ∃ name, names[i]? = some name ∧ fits name = true := by
  induction names generalizing i with
  | nil => cases h
  | cons s names ih =>
    rw [indexOfName] at h
    split at h
    · next hfits =>
      cases h
      exact ⟨s, rfl, hfits⟩
    · obtain ⟨j, hj, rfl⟩ := Option.map_eq_some_iff.mp h
      exact ih hj

theorem fits_of_lookup {isName : Prop} [Decidable isName] {fits : Bytes → Bool} {names : List Bytes} {i : Nat}
    (h : (Except.ok (if isName then indexOfName fits names else none) : Fallible (Option Nat)) = .ok (some i)) :
    ∃ name, names[i]? = some name ∧ fits name = true := by
  have h := Except.ok.inj h
  split at h
  · exact indexOfName_fits h
  · cases h

theorem lt_of_lookup {isName : Prop} [Decidable isName] {fits : Bytes → Bool} {names : List Bytes} {i : Nat}
    (h : (Except.ok (if isName then indexOfName fits names else none) : Fallible (Option Nat)) = .ok (some i)) :
    i < names.length := by
  obtain ⟨name, hname, -⟩ := fits_of_lookup h
  exact (List.getElem?_eq_some_iff.mp hname).1

mutual

theorem live_project : ∀ (p : Plan) (n : ParseNode) {i : Nat}, p.InRange → (p.project n).1 = .ok (some i) →
    (p.project n).2.Live i
  | empty, _, _, _, h => by cases h
  | showTables _, _, _, _, h => lt_of_lookup h
  | showColumns _, _, _, _, h => lt_of_lookup h
  | const _, _, _, _, h => lt_of_lookup h
  | readFile plan, _, _, _, h => (lt_of_lookup h).trans_eq (List.length_map _)
  | scan plan order, n, i, hr, h => by
    rw [InRange] at hr
    rw [project] at h ⊢
    cases hadd : plan.addProjection n with
    | error f =>
      rw [hadd] at h
      cases h
    | ok r =>
      rw [hadd] at h
      obtain ⟨r, plan'⟩ := r
      cases h
      exact scan_live hr hadd
  | unionAll _ _ plans, n, i, hr, h => by
    rw [InRange] at hr
    rw [project] at h ⊢
    obtain ⟨hlast, hall, hmap⟩ := projectAll_returns h
    rw [Live, hmap]
    obtain ⟨-, hne⟩ | hsome := hlast
    · exact ⟨by simpa using hne, live_all plans n hr hall⟩
    · cases hsome
  | filter _ child, n, i, hr, h => by
    rw [InRange] at hr
    rw [project] at h ⊢
    rw [Live]
    exact live_project child n hr h
  | groupBy plan child, n, i, hr, h => by
    rw [InRange] at hr
    obtain ⟨func, pColumn, name, c, -, hc, rfl, hq⟩ := groupBy_returns h
    rw [hq, Live]
    exact ⟨_, List.getElem?_concat_length, live_project child pColumn hr hc⟩
  | sort plan child, n, i, hr, h => by
    rw [InRange] at hr
    obtain ⟨c, hc, rfl, hq⟩ := sort_returns h
    rw [hq, Live]
    obtain ⟨proj, hproj, hsub⟩ := plan.addColumn_getElem? c n.sExpr
    exact ⟨proj, hproj, hsub ▸ live_project child n hr hc⟩
  | limit _ child, n, i, hr, h => by
    rw [InRange] at hr
    rw [project] at h ⊢
    rw [Live]
    exact live_project child n hr h
  | projection plan child, n, i, hr, h => by
    rw [InRange] at hr
    obtain ⟨proj, hproj, -, hlive⟩ := hr.2 _ i (Except.ok.inj h)
    exact ⟨proj, hproj, hlive⟩

theorem live_all : ∀ (ps : List Plan) (n : ParseNode) {i : Nat}, AllInRange ps →
    (∀ p ∈ ps, (p.project n).1 = .ok (some i)) → AllLive (ps.map fun p => (p.project n).2) i
  | [], _, _, _, _ => trivial
  | p :: ps, n, i, hr, h => by
    rw [AllInRange] at hr
    rw [List.map_cons, AllLive]
    exact ⟨live_project p n hr.1 (h p List.mem_cons_self), live_all ps n hr.2 fun q hq =>
      h q (List.mem_cons_of_mem _ hq)⟩

end

mutual

/-- An index that is returned is that of the column which the expression names. -/
theorem names_project : ∀ (p : Plan) (n : ParseNode) {i : Nat}, p.InRange → (p.project n).1 = .ok (some i) →
    (p.project n).2.Names n i
  | empty, _, _, _, h => by cases h
  | showTables _, _, _, _, h => fits_of_lookup h
  | showColumns _, _, _, _, h => fits_of_lookup h
  | const plan, n, i, _, h => by
    obtain ⟨name, hname, hfits⟩ := fits_of_lookup h
    rw [eq_of_beq hfits] at hname
    exact hname
  | readFile plan, n, i, _, h => by
    obtain ⟨name, hname, hfits⟩ := fits_of_lookup h
    rw [List.getElem?_map] at hname
    obtain ⟨c, hc, rfl⟩ := Option.map_eq_some_iff.mp hname
    exact ⟨c, hc, eq_of_beq hfits⟩
  | scan plan order, n, i, hr, h => by
    rw [InRange] at hr
    rw [project] at h ⊢
    cases hadd : plan.addProjection n with
    | error f =>
      rw [hadd] at h
      cases h
    | ok r =>
      rw [hadd] at h
      obtain ⟨r, plan'⟩ := r
      cases h
      exact scan_names_project hr hadd
  | unionAll _ _ plans, n, i, hr, h => by
    rw [InRange] at hr
    rw [project] at h ⊢
    obtain ⟨-, hall, hmap⟩ := projectAll_returns h
    rw [Names, hmap]
    exact names_all plans n hr hall
  | filter _ child, n, i, hr, h => by
    rw [InRange] at hr
    rw [project] at h ⊢
    rw [Names]
    exact names_project child n hr h
  | groupBy plan child, n, i, hr, h => by
    rw [InRange] at hr
    obtain ⟨func, pColumn, name, c, hfor, hc, rfl, hq⟩ := groupBy_returns h
    rw [hq, Names]
    exact ⟨func, pColumn, name, c, hfor, List.getElem?_concat_length, names_project child pColumn hr hc⟩
  | sort plan child, n, i, hr, h => by
    rw [InRange] at hr
    obtain ⟨c, hc, rfl, hq⟩ := sort_returns h
    rw [hq, Names]
    obtain ⟨proj, hproj, hsub⟩ := plan.addColumn_getElem? c n.sExpr
    exact ⟨proj, hproj, hsub ▸ names_project child n hr hc⟩
  | limit _ child, n, i, hr, h => by
    rw [InRange] at hr
    rw [project] at h ⊢
    rw [Names]
    exact names_project child n hr h
  | projection plan child, n, i, hr, h => by
    rw [InRange] at hr
    obtain ⟨proj, hproj, hname, -⟩ := hr.2 _ i (Except.ok.inj h)
    exact ⟨proj, hproj, hname⟩

theorem names_all : ∀ (ps : List Plan) (n : ParseNode) {i : Nat}, AllInRange ps →
    (∀ p ∈ ps, (p.project n).1 = .ok (some i)) → AllName (ps.map fun p => (p.project n).2) n i
  | [], _, _, _, _ => trivial
  | p :: ps, n, i, hr, h => by
    rw [AllInRange] at hr
    rw [List.map_cons, AllName]
    exact ⟨names_project p n hr.1 (h p List.mem_cons_self), names_all ps n hr.2 fun q hq =>
      h q (List.mem_cons_of_mem _ hq)⟩

end

end Extension

section Shape

variable {q c : Plan}

theorem extends_unionAll {hasOrder : Bool} {order : SortOrder} {ps : List Plan}
    (h : Extends (unionAll hasOrder order ps) q) : ∃ qs, q = unionAll hasOrder order qs ∧ ExtendsAll ps qs := by
  cases h with
  | same => exact ⟨_, rfl, extendsAll_refl _⟩
  | unionAll h => exact ⟨_, rfl, h⟩

theorem extends_filter {predicatesInOr : List (List FilterPlan.PredicateInfo)}
    (h : Extends (filter predicatesInOr c) q) :
    ∃ c', q = filter predicatesInOr c' ∧ Extends c c' := by
  cases h with
  | same => exact ⟨_, rfl, .same _⟩
  | filter h => exact ⟨_, rfl, h⟩

theorem extends_groupBy {plan : GroupByPlan} (h : Extends (groupBy plan c) q) :
    ∃ added c', q = groupBy { plan with proj := plan.proj ++ added } c' := by
  cases h with
  | same => exact ⟨[], c, by rw [List.append_nil]⟩
  | groupBy added h => exact ⟨added, _, rfl⟩

theorem extends_sort {plan : SortPlan} (h : Extends (sort plan c) q) :
    ∃ added c', q = sort { plan with proj := plan.proj ++ added } c' ∧ Extends c c' := by
  cases h with
  | same => exact ⟨[], c, by rw [List.append_nil], .same _⟩
  | sort added h => exact ⟨added, _, rfl, h⟩

theorem extends_limit {plan : LimitPlan} (h : Extends (limit plan c) q) : ∃ c', q = limit plan c' ∧ Extends c c' := by
  cases h with
  | same => exact ⟨_, rfl, .same _⟩
  | limit h => exact ⟨_, rfl, h⟩

end Shape

section Again

variable {n n' : ParseNode}

def isLeaf : Plan → Bool
  | empty | showTables _ | showColumns _ | const _ | readFile _ | projection _ _ => true
  | _ => false

theorem project_leaf {p : Plan} (hp : p.isLeaf = true) (htype : n'.type = n.type)
    (hstring : n'.getString = n.getString) :
    (p.project n').1 = (p.project n).1 ∧ (p.project n).2 = p := by
  cases p with
  | empty => exact ⟨rfl, rfl⟩
  | showTables tables => exact ⟨by rw [project, project, ShowTables.addProjection, ShowTables.addProjection, htype,
    hstring], rfl⟩
  | showColumns pEntry =>
    exact ⟨by rw [project, project, ShowColumns.addProjection, ShowColumns.addProjection, htype, hstring], rfl⟩
  | const plan => exact ⟨by rw [project, project, ConstPlan.addProjection, ConstPlan.addProjection, htype,
    hstring], rfl⟩
  | readFile plan => exact ⟨by rw [project, project, ReadFilePlan.addProjection, ReadFilePlan.addProjection, htype,
    hstring], rfl⟩
  | projection plan child =>
    exact ⟨by rw [project, project, ProjectionPlan.addProjection, ProjectionPlan.addProjection, hstring], rfl⟩
  | _ => cases hp

theorem leaf_again {p q : Plan} {i : Nat} (hp : p.isLeaf = true) (htype : n'.type = n.type)
    (hstring : n'.getString = n.getString)
    (h : (p.project n).1 = .ok (some i)) (hx : Extends (p.project n).2 q) : (q.project n').1 = .ok (some i) := by
  obtain ⟨hindex, hsame⟩ := project_leaf hp htype hstring
  rw [hsame] at hx
  have hq : q = p := by
    cases hx with
    | same => rfl
    | scan => cases hp
    | unionAll => cases hp
    | filter => cases hp
    | groupBy => cases hp
    | sort => cases hp
    | limit => cases hp
  rw [hq, hindex, h]

theorem scan_project {plan : LevelDBScanPlan} {order : SortOrder} :
    ((scan plan order).project n).1 = (plan.addProjection n).map Prod.fst := by
  rw [project]
  cases plan.addProjection n <;> rfl

theorem scan_again {plan : LevelDBScanPlan} {order : SortOrder} {q : Plan} {i : Nat} (htype : n'.type = n.type)
    (hstring : n'.getString = n.getString) (h : ((scan plan order).project n).1 = .ok (some i))
    (hx : Extends ((scan plan order).project n).2 q) : (q.project n').1 = .ok (some i) := by
  obtain ⟨cs, b, rfl, hlen⟩ : ∃ columnValues projectValue, q = scan { plan with columnValues, projectValue } order ∧
      columnValues.length = plan.columnValues.length := by
    have hall := (project_extends (scan plan order) n).trans hx
    cases hall with
    | same => exact ⟨_, _, rfl, rfl⟩
    | scan columnValues projectValue hlen => exact ⟨columnValues, projectValue, rfl, hlen⟩
  rw [scan_project] at h ⊢
  have hindex : Except.map Prod.fst (LevelDBScanPlan.addProjection { plan with
      columnValues := cs
      projectValue := b } n') = (plan.addProjection n).map Prod.fst := scan_index rfl hlen htype hstring
  rw [hindex, h]

mutual

/-- Where no group-by hears of the calls, a column keeps its index. -/
theorem project_again (htype : n'.type = n.type) (hstring : n'.getString = n.getString) :
    ∀ {p q : Plan} {i : Nat}, p.regroups = false → (p.project n).1 = .ok (some i) → Extends (p.project n).2 q →
      (q.project n').1 = .ok (some i)
  | empty, _, _, _, h, hx => leaf_again rfl htype hstring h hx
  | showTables _, _, _, _, h, hx => leaf_again rfl htype hstring h hx
  | showColumns _, _, _, _, h, hx => leaf_again rfl htype hstring h hx
  | const _, _, _, _, h, hx => leaf_again rfl htype hstring h hx
  | readFile _, _, _, _, h, hx => leaf_again rfl htype hstring h hx
  | projection _ _, _, _, _, h, hx => leaf_again rfl htype hstring h hx
  | scan _ _, _, _, _, h, hx => scan_again htype hstring h hx
  | groupBy _ _, _, _, hg, _, _ => by cases hg
  | unionAll hasOrder order plans, q, i, hg, h, hx => by
    rw [regroups] at hg
    rw [project] at h hx
    obtain ⟨hlast, hall, hmap⟩ := projectAll_returns h
    rw [hmap] at hx
    obtain ⟨qs, rfl, hqs⟩ := extends_unionAll hx
    have hne : qs ≠ [] := by
      obtain ⟨-, hne⟩ | hsome := hlast
      · exact hqs.ne_nil (by simpa using hne)
      · cases hsome
    rw [project]
    exact projectAll_of_all (.inl ⟨rfl, hne⟩) (all_again htype hstring hg hall hqs)
  | filter predicatesInOr child, q, i, hg, h, hx => by
    rw [regroups] at hg
    rw [project] at h hx
    obtain ⟨c, rfl, hc⟩ := extends_filter hx
    rw [project]
    exact project_again htype hstring hg h hc
  | sort plan child, q, i, hg, h, hx => by
    rw [regroups] at hg
    obtain ⟨c, hc, hi, hq⟩ := sort_returns h
    rw [hq] at hx
    obtain ⟨added, child', rfl, hchild⟩ := extends_sort hx
    rw [sort_project (project_again htype hstring hg hc hchild), hi]
    congr 2
    refine SortPlan.addColumn_of_findIdx? ?_ _
    rw [List.findIdx?_append, SortPlan.addColumn_findIdx?]
    rfl
  | limit plan child, q, i, hg, h, hx => by
    rw [regroups] at hg
    rw [project] at h hx
    obtain ⟨c, rfl, hc⟩ := extends_limit hx
    rw [project]
    exact project_again htype hstring hg h hc

theorem all_again (htype : n'.type = n.type) (hstring : n'.getString = n.getString) :
    ∀ {ps qs : List Plan} {i : Nat}, anyRegroups ps = false → (∀ p ∈ ps, (p.project n).1 = .ok (some i)) →
      ExtendsAll (ps.map fun p => (p.project n).2) qs → ∀ q ∈ qs, (q.project n').1 = .ok (some i)
  | [], _, _, _, _, hx => by
    cases hx
    exact fun _ hq => (List.not_mem_nil hq).elim
  | p :: ps, _, i, hg, h, hx => by
    rw [anyRegroups, Bool.or_eq_false_iff] at hg
    rw [List.map_cons] at hx
    cases hx with
    | cons hp hps =>
      intro q hq
      obtain rfl | hq := List.mem_cons.mp hq
      · exact project_again htype hstring hg.1 (h p List.mem_cons_self) hp
      · exact all_again htype hstring hg.2 (fun r hr => h r (List.mem_cons_of_mem _ hr)) hps q hq

end

mutual

/-- Where a group-by hears of the calls, a column gets another index the next time. -/
theorem regroups_again : ∀ {p q : Plan} {i : Nat}, p.regroups = true → (p.project n).1 = .ok (some i) →
    Extends (p.project n).2 q → (q.project n').1 ≠ .ok (some i)
  | empty, _, _, hg, _, _ => by cases hg
  | showTables _, _, _, hg, _, _ => by cases hg
  | showColumns _, _, _, hg, _, _ => by cases hg
  | const _, _, _, hg, _, _ => by cases hg
  | readFile _, _, _, hg, _, _ => by cases hg
  | projection _ _, _, _, hg, _, _ => by cases hg
  | scan _ _, _, _, hg, _, _ => by cases hg
  | groupBy plan child, q, i, _, h, hx => by
    obtain ⟨func, pColumn, name, c, -, -, rfl, hq⟩ := groupBy_returns h
    rw [hq] at hx
    obtain ⟨added, child', rfl⟩ := extends_groupBy hx
    intro h'
    obtain ⟨_, _, _, _, -, -, hi, -⟩ := groupBy_returns h'
    simp [GroupByPlan.push] at hi
  | unionAll hasOrder order plans, q, i, hg, h, hx => by
    rw [regroups] at hg
    rw [project] at h hx
    obtain ⟨-, hall, hmap⟩ := projectAll_returns h
    rw [hmap] at hx
    obtain ⟨qs, rfl, hqs⟩ := extends_unionAll hx
    intro h'
    rw [project] at h'
    exact any_again hg hall hqs (projectAll_returns h').2.1
  | filter predicatesInOr child, q, i, hg, h, hx => by
    rw [regroups] at hg
    rw [project] at h hx
    obtain ⟨c, rfl, hc⟩ := extends_filter hx
    rw [project]
    exact regroups_again hg h hc
  | sort plan child, q, i, hg, h, hx => by
    rw [regroups] at hg
    obtain ⟨c, hc, rfl, hq⟩ := sort_returns h
    rw [hq] at hx
    obtain ⟨added, child', rfl, hchild⟩ := extends_sort hx
    intro h'
    obtain ⟨c', hc', hi, -⟩ := sort_returns h'
    have hne : c' ≠ c := by
      rintro rfl
      exact regroups_again hg hc hchild hc'
    obtain ⟨proj, hproj, hsub⟩ := plan.addColumn_getElem? c n.sExpr
    obtain ⟨proj', hproj', hsub'⟩ := SortPlan.addColumn_getElem? { (plan.addColumn c n.sExpr).2 with
      proj := (plan.addColumn c n.sExpr).2.proj ++ added } c' n'.sExpr
    rw [← hi, SortPlan.getElem?_addColumn (getElem?_of_some hproj added)] at hproj'
    cases hproj'
    exact hne (hsub'.symm.trans hsub)
  | limit plan child, q, i, hg, h, hx => by
    rw [regroups] at hg
    rw [project] at h hx
    obtain ⟨c, rfl, hc⟩ := extends_limit hx
    rw [project]
    exact regroups_again hg h hc

theorem any_again : ∀ {ps qs : List Plan} {i : Nat}, anyRegroups ps = true →
    (∀ p ∈ ps, (p.project n).1 = .ok (some i)) →
    ExtendsAll (ps.map fun p => (p.project n).2) qs → ¬∀ q ∈ qs, (q.project n').1 = .ok (some i)
  | [], _, _, hg, _, _ => by cases hg
  | p :: ps, _, i, hg, h, hx => by
    rw [anyRegroups, Bool.or_eq_true] at hg
    rw [List.map_cons] at hx
    cases hx with
    | cons hp hps =>
      intro hall
      obtain hg | hg := hg
      · exact regroups_again hg (h p List.mem_cons_self) hp (hall _ List.mem_cons_self)
      · exact any_again hg (fun r hr => h r (List.mem_cons_of_mem _ hr)) hps fun q hq =>
        hall q (List.mem_cons_of_mem _ hq)

end

end Again

def after (p : Plan) (ns : List ParseNode) : Plan := ns.foldl (fun p n => (p.project n).2) p

theorem after_extends (p : Plan) (ns : List ParseNode) : Extends p (p.after ns) := by
  induction ns generalizing p with
  | nil => exact .same p
  | cons n ns ih => exact (project_extends p n).trans (ih _)

section Headings

/-- The heading of an index tells its type; and it tells its name exactly if the scan that is asked for the name has the
column at the position of its index. -/
def Headed (p : Plan) (i : Nat) : Prop :=
  ∃ d, p.heading i = some d ∧ p.getResultType i = d.type ∧ (p.getProjectionName i = .ok d.name ↔ p.NamesByIndex i)

theorem scan_headed {plan : LevelDBScanPlan} {order : SortOrder} {i : Nat} (hr : plan.InRange)
    (h : (scan plan order).Live i) : (scan plan order).Headed i := by
  have hcount := hr.partitioned.count hr.points
  have hperm := hr.partitioned.perm hr.points
  rw [Headed, heading, getResultType, getProjectionName, NamesByIndex, LevelDBScanPlan.getResultType,
    LevelDBScanPlan.column,
    TableInfo.getColumnCount, TableInfo.getKeyCount, hr.values]
  rw [Live, TableInfo.getKeyCount, hr.values] at h
  have hnames : ∀ (j : Nat) (c : DBColumnInfo), (plan.table.keys ++ plan.table.values)[i]? = some j →
      plan.table.columns[j]? = some c →
        (nameAt (plan.table.columns.map DBColumnInfo.name) i = .ok c.name ↔
          (plan.table.keys ++ plan.table.values)[i]? = some i) := by
    intro j c hj hc
    have hlt : i < plan.table.columns.length := by
      have := (List.getElem?_eq_some_iff.mp hj).1
      rw [List.length_append] at this
      omega
    rw [nameAt_of_some (List.getElem?_eq_getElem hlt), hj, Except.ok.injEq, Option.some.injEq]
    constructor
    · intro hname
      exact (hr.partitioned.index_eq (List.getElem?_eq_getElem hlt) hc hname).symm
    · rintro rfl
      rw [List.getElem?_eq_getElem hlt] at hc
      rw [Option.some.inj hc]
  by_cases hkey : i < plan.table.keys.length
  · obtain ⟨j, hj⟩ : ∃ j, plan.table.keys[i]? = some j := ⟨_, List.getElem?_eq_getElem hkey⟩
    obtain ⟨c, hc, -⟩ := hr.partitioned.key i j hj
    have hcolumn : plan.table.getKeyColumn i = some c := by
      rw [TableInfo.getKeyColumn, hj]
      exact hc
    rw [if_pos hkey, if_pos hkey, if_neg (by omega), LevelDBScanPlan.heading, hcolumn]
    refine ⟨_, rfl, rfl, hnames j c ?_ hc⟩
    rw [List.getElem?_append_left hkey, hj]
  · rw [if_neg hkey, if_neg hkey]
    by_cases hvalue : i - plan.table.keys.length < plan.table.values.length
    · have hread : plan.columnValues.getD (i - plan.table.keys.length) false = true := by
        obtain h | h | h := h
        · exact absurd h hkey
        · exact h
        · omega
      obtain ⟨j, hj⟩ : ∃ j, plan.table.values[i - plan.table.keys.length]? = some j :=
        ⟨_, List.getElem?_eq_getElem hvalue⟩
      obtain ⟨c, hc, -⟩ := hr.partitioned.value _ j hj
      have hcolumn : plan.table.getValueColumn (i - plan.table.keys.length) = some c := by
        rw [TableInfo.getValueColumn, hj]
        exact hc
      rw [if_pos hvalue, if_pos hread, if_neg (by omega), LevelDBScanPlan.heading, hcolumn]
      refine ⟨_, rfl, rfl, hnames j c ?_ hc⟩
      rw [List.getElem?_append_right (Nat.le_of_not_lt hkey), hj]
    · have hlast : i = plan.table.columns.length := by
        obtain h | h | h := h
        · exact absurd h hkey
        · have hlong : plan.columnValues.length ≤ i - plan.table.keys.length := hr.values ▸ Nat.le_of_not_lt hvalue
          rw [List.getD_eq_getElem?_getD, List.getElem?_eq_none hlong] at h
          cases h
        · omega
      rw [if_neg hvalue, if_pos hlast, LevelDBScanPlan.heading]
      refine ⟨_, rfl, rfl, iff_of_false ?_ ?_⟩
      · rw [nameAt, List.getElem?_eq_none (by rw [List.length_map]; omega)]
        intro h
        cases h
      · rw [List.getElem?_eq_none (by rw [List.length_append]; omega)]
        intro h
        cases h

theorem headed_own {p : Plan} {i : Nat} (d : Heading) (hheading : p.heading i = some d)
    (htype : p.getResultType i = d.type)
    (hname : p.getProjectionName i = .ok d.name) (hown : p.NamesByIndex i) : p.Headed i :=
  ⟨d, hheading, htype, iff_of_true hname hown⟩

theorem headed_groupBy {plan : GroupByPlan} {child : Plan} {i : Nat} {func : AggrFunc}
    (hfunc : plan.proj[i]? = some func)
    (h : child.Headed func.index) : (groupBy plan child).Headed i := by
  obtain ⟨d, hd, htype, -⟩ := h
  refine headed_own ⟨func.name, plan.getResultType (fun _ => d.type) i⟩ ?_ ?_ (nameAt_of_some hfunc _) trivial
  · rw [heading, hfunc, Option.bind_some, hd]
    rfl
  · rw [getResultType, GroupByPlan.getResultType, GroupByPlan.getResultType, hfunc]
    dsimp only
    rw [htype]

theorem headed_sort {plan : SortPlan} {child : Plan} {i : Nat} {proj : SortProjection}
    (hproj : plan.proj[i]? = some proj)
    (h : child.Headed proj.subIndex) : (sort plan child).Headed i := by
  obtain ⟨d, hd, htype, -⟩ := h
  refine headed_own ⟨proj.name, d.type⟩ ?_ ?_ (nameAt_of_some hproj _) trivial
  · rw [heading, hproj, Option.bind_some, hd]
    rfl
  · rw [getResultType, hproj]
    exact htype

theorem headed_constant {plan : ProjectionPlan} {child : Plan} {i : Nat} {proj : ProjectionInfo}
    (hproj : plan.proj[i]? = some proj) (hconstant : proj.subIndex = none) : (projection plan child).Headed i := by
  refine headed_own ⟨proj.name, .ok proj.node.getConstResultType⟩ ?_ ?_ (nameAt_of_some hproj _) trivial
  · rw [heading, hproj, Option.bind_some, hconstant]
  · rw [getResultType, ProjectionPlan.getResultType, hproj]
    dsimp only
    rw [hconstant]

theorem headed_projected {plan : ProjectionPlan} {child : Plan} {i c : Nat} {proj : ProjectionInfo}
    (hproj : plan.proj[i]? = some proj) (hindex : proj.subIndex = some c) (h : child.Headed c) :
    (projection plan child).Headed i := by
  obtain ⟨d, hd, htype, -⟩ := h
  refine headed_own ⟨proj.name, d.type⟩ ?_ ?_ (nameAt_of_some hproj _) trivial
  · rw [heading, hproj, Option.bind_some, hindex]
    dsimp only
    rw [hd]
    rfl
  · rw [getResultType, ProjectionPlan.getResultType, hproj]
    dsimp only
    rw [hindex]
    exact htype

theorem headed_unionAll {hasOrder : Bool} {order : SortOrder} {p : Plan} {ps : List Plan} {i : Nat} (h : p.Headed i) :
    (unionAll hasOrder order (p :: ps)).Headed i := by
  obtain ⟨d, hd, htype, hname⟩ := h
  refine ⟨⟨d.name, d.type.map fun type => type.map widen⟩, ?_, ?_, hname⟩
  · rw [heading, firstHeading, hd]
    rfl
  · rw [getResultType, firstResultType, htype]
    cases d.type <;> rfl

mutual

theorem headed_of_live : ∀ (p : Plan) (i : Nat), p.InRange → p.Live i → p.Headed i
  | empty, _, _, h => h.elim
  | showTables tables, i, _, h => by
    have hname : (showTables tables).getProjectionName i = .ok ShowTables.columns[i] := by
      match i, h with
      | 0, _ => rfl
      | 1, _ => rfl
    exact headed_own _ (by rw [heading, List.getElem?_eq_getElem h]; rfl) rfl hname trivial
  | showColumns pEntry, i, _, h =>
    headed_own ⟨ShowColumns.columns[i], .ok (some (ShowColumns.getResultType i))⟩
      (by rw [heading, List.getElem?_eq_getElem h]; rfl) rfl
      (by rw [getProjectionName, nameAt, List.getElem?_eq_getElem h]) trivial
  | const plan, i, _, h => by
    rw [Live] at h
    exact headed_own ⟨plan.columns[i], plan.getResultType i⟩ (by rw [heading, List.getElem?_eq_getElem h]; rfl) rfl
      (by rw [getProjectionName, nameAt, List.getElem?_eq_getElem h]) trivial
  | readFile plan, i, _, h => by
    rw [Live] at h
    have hcolumn := List.getElem?_eq_getElem h
    refine headed_own ⟨plan.columns[i].name, .ok (some plan.columns[i].type)⟩ (by rw [heading, hcolumn]; rfl) ?_
      (nameAt_of_some hcolumn _) trivial
    rw [getResultType, ReadFilePlan.getResultType, hcolumn]
  | scan plan order, i, hr, h => by
    rw [InRange] at hr
    exact scan_headed hr h
  | unionAll _ _ plans, i, hr, h => by
    rw [InRange] at hr
    rw [Live] at h
    cases plans with
    | nil => exact absurd rfl h.1
    | cons p ps =>
      rw [AllInRange] at hr
      rw [AllLive] at h
      exact headed_unionAll (headed_of_live p i hr.1 h.2.1)
  | filter _ child, i, hr, h => by
    rw [InRange] at hr
    rw [Live] at h
    exact headed_of_live child i hr h
  | groupBy plan child, i, hr, h => by
    rw [InRange] at hr
    rw [Live] at h
    obtain ⟨func, hfunc, hlive⟩ := h
    exact headed_groupBy hfunc (headed_of_live child func.index hr hlive)
  | sort plan child, i, hr, h => by
    rw [InRange] at hr
    rw [Live] at h
    obtain ⟨proj, hproj, hlive⟩ := h
    exact headed_sort hproj (headed_of_live child proj.subIndex hr hlive)
  | limit _ child, i, hr, h => by
    rw [InRange] at hr
    rw [Live] at h
    exact headed_of_live child i hr h
  | projection plan child, i, hr, h => by
    rw [InRange] at hr
    rw [Live] at h
    obtain ⟨proj, hproj, hsub⟩ := h
    cases hindex : proj.subIndex with
    | none => exact headed_constant hproj hindex
    | some c => exact headed_projected hproj hindex (headed_of_live child c hr.1 (hsub c hindex))

end

theorem scan_namesByIndex {plan : LevelDBScanPlan} {order : SortOrder} {n : ParseNode} {i : Nat} (hr : plan.InRange)
    (h : (scan plan order).Names n i) : (scan plan order).NamesByIndex i ↔ (scan plan order).Placed n := by
  rw [Names, LevelDBScanPlan.column] at h
  rw [NamesByIndex, Placed, LevelDBScanPlan.Placed]
  have hcounted : ∀ j, Tools.isRowKeyNode n = false → plan.table.findColumn n.getString = some j →
      (plan.table.keys ++ plan.table.values)[i]? = some j →
        ((plan.table.keys ++ plan.table.values)[i]? = some i ↔ Tools.isRowKeyNode n = false ∧
          ∃ j, plan.table.findColumn n.getString = some j ∧ (plan.table.keys ++ plan.table.values)[j]? = some j) := by
    intro j hrow hfind hj
    have hnodup := (hr.partitioned.perm hr.points).nodup_iff.mpr List.nodup_range
    constructor
    · intro hi
      obtain rfl : i = j := Option.some.inj (hi.symm.trans hj)
      exact ⟨hrow, i, hfind, hi⟩
    · rintro ⟨-, j', hfind', hj'⟩
      obtain rfl : j = j' := Option.some.inj (hfind.symm.trans hfind')
      obtain ⟨hlt, hget⟩ := List.getElem?_eq_some_iff.mp hj
      obtain ⟨hlt', hget'⟩ := List.getElem?_eq_some_iff.mp hj'
      rw [(List.Nodup.getElem_inj_iff hnodup).mp (hget.trans hget'.symm)]
      exact hj'
  have hcolumn : ∀ c, plan.table.getColumnByName n.getString = some c →
      ∃ j, plan.table.findColumn n.getString = some j ∧ plan.table.columns[j]? = some c := by
    intro c hc
    rw [TableInfo.getColumnByName, Option.bind_eq_some_iff] at hc
    exact hc
  split at h
  · obtain ⟨hrow, c, hc, hk⟩ := h
    obtain ⟨j, hfind, hj⟩ := hcolumn c hc
    have hkey := hr.points.key j c _ hj hk
    refine hcounted j hrow hfind ?_
    rw [List.getElem?_append_left (List.getElem?_eq_some_iff.mp hkey).1, hkey]
  · next hkey =>
    split at h
    · split at h
      · obtain ⟨hrow, c, hc, -, hv⟩ := h
        obtain ⟨j, hfind, hj⟩ := hcolumn c hc
        refine hcounted j hrow hfind ?_
        rw [List.getElem?_append_right (Nat.le_of_not_lt hkey)]
        exact hr.points.value j c _ hj hv
      · exact h.elim
    · next hvalue =>
      refine iff_of_false ?_ fun hplaced => ?_
      · rw [List.getElem?_eq_none]
        · simp
        · rw [List.length_append, ← hr.values]
          rw [TableInfo.getKeyCount] at hkey hvalue
          omega
      · rw [LevelDBScanPlan.Names] at h
        rw [hplaced.1] at h
        cases h

mutual

theorem namesByIndex_iff {n : ParseNode} : ∀ (p : Plan) (i : Nat), p.InRange → p.Names n i →
    (p.NamesByIndex i ↔ p.Placed n)
  | empty, _, _, _ => .rfl
  | showTables _, _, _, _ => .rfl
  | showColumns _, _, _, _ => .rfl
  | const _, _, _, _ => .rfl
  | readFile _, _, _, _ => .rfl
  | groupBy _ _, _, _, _ => .rfl
  | sort _ _, _, _, _ => .rfl
  | projection _ _, _, _, _ => .rfl
  | scan plan order, i, hr, h => by
    rw [InRange] at hr
    exact scan_namesByIndex hr h
  | unionAll _ _ plans, i, hr, h => by
    rw [InRange] at hr
    rw [Names] at h
    exact firstNamesByIndex_iff plans i hr h
  | filter _ child, i, hr, h => by
    rw [InRange] at hr
    rw [Names] at h
    exact namesByIndex_iff child i hr h
  | limit _ child, i, hr, h => by
    rw [InRange] at hr
    rw [Names] at h
    exact namesByIndex_iff child i hr h

theorem firstNamesByIndex_iff {n : ParseNode} : ∀ (ps : List Plan) (i : Nat), AllInRange ps → AllName ps n i →
    (FirstNamesByIndex ps i ↔ FirstPlaced ps n)
  | [], _, _, _ => .rfl
  | p :: _, i, hr, h => by
    rw [AllInRange] at hr
    rw [AllName] at h
    exact namesByIndex_iff p i hr.1 h.1

end

end Headings

/-- What is asked of an index `i` that was returned when `n` was projected behind the calls `before`, once the calls
`later` have been made: to project the same again gives it again, it denotes, as when it was returned, one column by
its name, type and result, and this is the one that `n` names, and the children of a union have all returned it. -/
structure Contract (p : Plan) (before later : List ParseNode) (n : ParseNode) (i : Nat) : Prop where
  again : ∀ n', n'.type = n.type → n'.getString = n.getString →
    ((p.after (before ++ n :: later)).project n').1 = .ok (some i)
  denotes : ∃ d c, Denotes (p.after (before ++ [n])) i d c ∧ Denotes (p.after (before ++ n :: later)) i d c
  names : (p.after (before ++ n :: later)).Names n i
  agree : ∀ hasOrder order plans, p.after before = unionAll hasOrder order plans →
    ∀ child ∈ plans, (child.project n).1 = .ok (some i)

section Contract

variable {p : Plan} {before later : List ParseNode} {n : ParseNode} {i : Nat}

theorem after_append_cons : p.after (before ++ n :: later) = ((p.after before).project n).2.after later := by
  rw [after, List.foldl_append]
  rfl

theorem after_concat : p.after (before ++ [n]) = ((p.after before).project n).2 := by
  rw [after, List.foldl_append]
  rfl

theorem contract_again (hg : p.regroups = false) (h : ((p.after before).project n).1 = .ok (some i)) {n' : ParseNode}
    (htype : n'.type = n.type) (hstring : n'.getString = n.getString) :
    ((p.after (before ++ n :: later)).project n').1 = .ok (some i) := by
  rw [after_append_cons]
  exact project_again htype hstring ((after_extends p before).regroups.trans hg) h (after_extends _ later)

theorem not_again (hg : p.regroups = true) (h : ((p.after before).project n).1 = .ok (some i)) (n' : ParseNode) :
    ((p.after (before ++ n :: later)).project n').1 ≠ .ok (some i) := by
  rw [after_append_cons]
  exact regroups_again ((after_extends p before).regroups.trans hg) h (after_extends _ later)

/-- The three answers for an index are those of one column, then and later, exactly if the column is placed. -/
theorem denotes_iff (hr : p.InRange) (h : ((p.after before).project n).1 = .ok (some i)) :
    (∃ d c, Denotes (p.after (before ++ [n])) i d c ∧ Denotes (p.after (before ++ n :: later)) i d c) ↔ p.Placed n := by
  have hbefore := (after_extends p before).inRange hr
  have hx := project_extends (p.after before) n
  have hlive := live_project _ n hbefore h
  obtain ⟨d, hd, htype, hname⟩ := headed_of_live _ i (hx.inRange hbefore) hlive
  have hplaced : ((p.after before).project n).2.NamesByIndex i ↔ p.Placed n :=
    (namesByIndex_iff _ i (hx.inRange hbefore) (names_project _ n hbefore h)).trans
      (((after_extends p before).trans hx).placed)
  rw [after_concat, after_append_cons]
  constructor
  · rintro ⟨d', c, hdenotes, -⟩
    obtain rfl : d = d' := Option.some.inj (hd.symm.trans hdenotes.heading)
    exact hplaced.mp (hname.mp hdenotes.name)
  · intro hp
    have hkeeps := ((after_extends _ later).keeps hlive).2
    have hname := hname.mpr (hplaced.mpr hp)
    exact ⟨d, _, ⟨rfl, hd, hname, htype⟩,
      ⟨hkeeps.column, hkeeps.heading.trans hd, hkeeps.name.trans hname, hkeeps.type.trans htype⟩⟩

theorem contract_names (hr : p.InRange) (h : ((p.after before).project n).1 = .ok (some i)) :
    (p.after (before ++ n :: later)).Names n i := by
  have hbefore := (after_extends p before).inRange hr
  rw [after_append_cons]
  exact (after_extends _ later).names (live_project _ n hbefore h) (names_project _ n hbefore h)

theorem contract_agree (h : ((p.after before).project n).1 = .ok (some i)) {hasOrder : Bool} {order : SortOrder}
    {plans : List Plan} (hunion : p.after before = unionAll hasOrder order plans) :
    ∀ child ∈ plans, (child.project n).1 = .ok (some i) := by
  rw [hunion, project] at h
  exact (projectAll_returns h).2.1

end Contract

def nameOf (s : String) : ParseNode := .node .name .none (bytes s) (bytes s) []

/-- `column=k:int32`, `column=v:varchar` and `key=k`. -/
def keyFirst : TableInfo where
  name := bytes "t"
  columns := [{ name := bytes "k", type := .int32, len := 4, index := 0, keyIndex := some 0 },
    { name := bytes "v", type := .string, index := 1, valueIndex := some 0 }]
  keys := [0]
  values := [1]

theorem points_keyFirst : keyFirst.Points where
  index i c h := by
    match i, h with
    | 0, rfl => rfl
    | 1, rfl => rfl
  key i c k h hk := by
    match i, h with
    | 0, rfl => cases hk; rfl
    | 1, rfl => cases hk
  value i c v h hv := by
    match i, h with
    | 0, rfl => cases hv
    | 1, rfl => cases hv; rfl
  keyed i h := by
    obtain rfl := List.mem_singleton.mp h
    exact ⟨_, rfl, Option.some_ne_none _⟩
  valued i h := by
    obtain rfl := List.mem_singleton.mp h
    exact ⟨_, rfl, Option.some_ne_none _⟩

theorem partitioned_keyFirst : keyFirst.Partitioned := points_keyFirst.partitioned_iff.mpr ⟨by decide, by decide⟩

/-- `values (1, 2)`. -/
def twoValues : ConstPlan :=
  ConstPlan.addRow {} (.node .list .none [] []
    [.node .int .none (bytes "1") (bytes "1") [], .node .int .none (bytes "2") (bytes "2") []])

/-- `column=v:int32`, `column=k:varchar` and `key=k`. -/
def valueFirst : TableInfo where
  name := bytes "t"
  columns := [{ name := bytes "v", type := .int32, len := 4, index := 0, valueIndex := some 0 },
    { name := bytes "k", type := .string, index := 1, keyIndex := some 0 }]
  keys := [1]
  values := [0]

/-- The index of `_rowkey` has no name. -/
example : let p := scan (.create valueFirst) .any
    (p.project (nameOf "_rowkey")).1 = .ok (some 2) ∧ p.getResultType 2 = .ok (some .bytes) ∧
      p.getProjectionName 2 = .error .undefined :=
  ⟨rfl, rfl, rfl⟩

end Plan

end LevelPgServer
