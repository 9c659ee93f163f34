import LevelPgServer.Execution.ScanOrder
import LevelPgServer.PlanBuilder.SelectPlanBuilder

/-! Grouping by the first key columns of a table, without a sort. -/

namespace LevelPgServer

open ParseNode ExceptRules LevelDBPlanBuilder SortPlan WeakOrder SelectPlanBuilder

namespace Plan

/-- The plan after calls of `addProjection` and `ensureSortOrder`. -/
inductive Called : Plan → Plan → Prop
  | refl (p : Plan) : Called p p
  | addProjection {p q r : Plan} {pNode : ParseNode} {i : Option Nat} (h : Called p q)
      (hadd : q.addProjection pNode = .ok (i, r)) : Called p r
  | ensureSortOrder {p q : Plan} (h : Called p q) (request : OrderRequest) :
      Called p (q.ensureSortOrder request.index request.column request.order).2

variable {t : TableInfo} {order : SortOrder} {p : Plan}

theorem scans_addProjection {plan plan' : LevelDBScanPlan} (hp : plan.Scans t) {pNode : ParseNode} {i : Option Nat}
    (h : plan.addProjection pNode = .ok (i, plan')) : plan'.Scans t := by
  rw [LevelDBScanPlan.addProjection] at h
  split at h
  · cases h
    exact hp
  · split at h
    · split at h
      · cases h
      · split at h
        · cases h
          exact hp
        · cases h
          exact ⟨hp.table, hp.keyTypes, hp.valueTypes, by rw [List.length_set, hp.columnValues]⟩
        · cases h
    · cases h
      exact hp

theorem OverScan.addProjection (h : OverScan t order p) {pNode : ParseNode} {i : Option Nat} {p' : Plan}
    (hadd : p.addProjection pNode = .ok (i, p')) : OverScan t order p' := by
  induction h generalizing p' with
  | @scan plan hp =>
    rw [Plan.addProjection] at hadd
    obtain ⟨⟨j, plan'⟩, hplan, hadd⟩ := bind_eq_ok.mp hadd
    cases hadd
    exact .scan (scans_addProjection hp hplan)
  | @filter child predicatesInOr h ih =>
    rw [Plan.addProjection] at hadd
    obtain ⟨⟨j, child'⟩, hchild, hadd⟩ := bind_eq_ok.mp hadd
    cases hadd
    exact .filter predicatesInOr (ih hchild)

theorem OverScan.addProjection_key (h : OverScan t order p) {pNode : ParseNode} {k : Nat} (hname : pNode.type = .name)
    (hrow : Tools.isRowKeyNode pNode = false) (hkey : (⟨k, pNode.getString, .any⟩ : OrderRequest).IsKey t) :
    p.addProjection pNode = .ok (some k, p) := by
  obtain ⟨c, hc, hk⟩ := hkey
  induction h with
  | @scan plan hp =>
    rw [Plan.addProjection, LevelDBScanPlan.addProjection, if_neg (by simp [hrow]), if_pos hname, hp.table, hc]
    dsimp only
    rw [hk]
    rfl
  | @filter child predicatesInOr h ih =>
    rw [Plan.addProjection, ih]
    rfl

/-- A request for any order of the key column at its position is answered, and changes nothing. -/
theorem OverScan.ensureSortOrder_key (hv : t.Valid) (h : OverScan t order p) {index : Nat} {column : Bytes}
    (hkey : (⟨index, column, .any⟩ : OrderRequest).IsKey t) : p.ensureSortOrder index column .any = (true, p) := by
  have hlt : index < t.getKeyCount := hkey.lt hv
  obtain ⟨c, hc, hk⟩ := hkey
  induction h with
  | @scan plan hp =>
    have hcount : ¬ t.getColumnCount < index := by
      have := hv.count
      rw [TableInfo.getKeyCount] at hlt
      rw [TableInfo.getColumnCount]
      omega
    have hscan : ensureScanOrder plan order index column .any = (true, order) := by
      rw [ensureScanOrder, hp.table, if_neg hcount, hc]
      exact if_neg (not_not.mpr hk)
    rw [Plan.ensureSortOrder, hscan]
  | @filter child predicatesInOr h ih => rw [Plan.ensureSortOrder, ih]

/-- A group-by over a scan that groups by the first `n` key columns. -/
inductive KeyGrouped (t : TableInfo) (n : Nat) : Plan → Prop
  | mk {plan : GroupByPlan} {child : Plan} {order : SortOrder} (hkeys : plan.groupby = List.range n)
      (hover : OverScan t order child) : KeyGrouped t n (.groupBy plan child)

theorem addProjection_groupby {σ : Type} {plan plan' : GroupByPlan} {add : ParseNode → Fallible (Option Nat × σ)}
    {child child' : σ} {pNode : ParseNode} {i : Option Nat}
    (h : plan.addProjection add child pNode = .ok (i, plan', child')) :
    plan'.groupby = plan.groupby ∧ (child' = child ∨ ∃ n j, add n = .ok (j, child')) := by
  rw [GroupByPlan.addProjection] at h
  split at h
  · obtain ⟨⟨index, child1⟩, hadd, h⟩ := bind_eq_ok.mp h
    cases index with
    | none => cases h
    | some j =>
      cases h
      exact ⟨rfl, .inr ⟨_, _, hadd⟩⟩
  · split at h
    · cases h
    · obtain ⟨⟨index, child1⟩, hadd, h⟩ := bind_eq_ok.mp h
      cases index with
      | none => cases h
      | some j =>
        cases h
        exact ⟨rfl, .inr ⟨_, _, hadd⟩⟩
  · cases h
    exact ⟨rfl, .inl rfl⟩

theorem KeyGrouped.called {n : Nat} {q : Plan} (hcalled : Called p q) (h : KeyGrouped t n p) : KeyGrouped t n q := by
  induction hcalled with
  | refl => exact h
  | @addProjection q r pNode i _ hadd ih =>
    obtain ⟨hkeys, hover⟩ := ih
    rw [Plan.addProjection] at hadd
    obtain ⟨⟨j, plan', child'⟩, hplan, hadd⟩ := bind_eq_ok.mp hadd
    cases hadd
    obtain ⟨hsame, rfl | ⟨m, j, hchild⟩⟩ := addProjection_groupby hplan
    · exact .mk (hsame.trans hkeys) hover
    · exact .mk (hsame.trans hkeys) (hover.addProjection hchild)
  | @ensureSortOrder q _ request ih =>
    obtain ⟨hkeys, hover⟩ := ih
    rw [Plan.ensureSortOrder]
    obtain ⟨order', hover', -⟩ := hover.ensureSortOrder request
    exact .mk hkeys hover'

end Plan

namespace SelectPlanBuilder

open Plan (OverScan KeyGrouped Called)

variable {t : TableInfo} {order : SortOrder} {p : Plan}

theorem askAnyOrder_keys (hv : t.Valid) (hover : OverScan t order p) {index : Nat} {cs : List ParseNode}
    (hkeys : ∀ (k : Nat) (c : ParseNode), cs[k]? = some c →
      c.type = .name ∧ (⟨index + k, c.getString, .any⟩ : OrderRequest).IsKey t) :
    askAnyOrder index cs p = .ok (false, p) := by
  induction cs generalizing index with
  | nil => rfl
  | cons c cs ih =>
    obtain ⟨htype, hkey⟩ := hkeys 0 c rfl
    rw [Nat.add_zero] at hkey
    have hrest := @ih (index + 1) fun k c' hc => by
      have := hkeys (k + 1) c' hc
      rwa [Nat.add_right_comm, Nat.add_assoc]
    rw [askAnyOrder, if_neg (not_not.mpr htype)]
    dsimp only
    rw [hover.ensureSortOrder_key hv hkey]
    exact hrest

theorem addGroupByColumns_keys {index : Nat} {cs : List ParseNode} (hover : OverScan t order p)
    (hkeys : ∀ (k : Nat) (c : ParseNode), cs[k]? = some c →
      c.type = .name ∧ (⟨index + k, c.getString, .any⟩ : OrderRequest).IsKey t)
    (hrow : ∀ c ∈ cs, Tools.isRowKeyNode c = false) (plan : GroupByPlan) :
    addGroupByColumns cs plan p = .ok ({ plan with groupby := plan.groupby ++ List.range' index cs.length }, p) := by
  induction cs generalizing index plan with
  | nil =>
    rw [addGroupByColumns, List.length_nil, List.range'_zero, List.append_nil]
  | cons c cs ih =>
    obtain ⟨htype, hkey⟩ := hkeys 0 c rfl
    have hadd := hover.addProjection_key htype (hrow c List.mem_cons_self) hkey
    have hrest := @ih (index + 1) (fun k c' hc => by
      have := hkeys (k + 1) c' hc
      rwa [Nat.add_right_comm, Nat.add_assoc]) (fun c' hc => hrow c' (List.mem_cons_of_mem c hc))
    rw [addGroupByColumns, GroupByPlan.addGroupByColumn, hadd, ok_bind]
    refine (hrest _).trans ?_
    rw [List.append_assoc, List.length_cons, List.range'_succ]
    rfl

/-- The group-by is put on the scan itself, with the first key columns as its columns. -/
theorem buildPlanForGroupBy_keys (hv : t.Valid) (hover : OverScan t order p) {pNode : ParseNode} (hnull : pNode ≠ .null)
    (hkeys : ∀ (k : Nat) (c : ParseNode), pNode.children[k]? = some c →
      c.type = .name ∧ (⟨0 + k, c.getString, .any⟩ : OrderRequest).IsKey t)
    (hrow : ∀ c ∈ pNode.children, Tools.isRowKeyNode c = false) :
    buildPlanForGroupBy pNode p = .ok (.groupBy { groupby := List.range pNode.children.length } p) := by
  have hcolumns := addGroupByColumns_keys hover hkeys hrow {}
  have hask := askAnyOrder_keys hv hover hkeys
  cases pNode with
  | null => exact absurd rfl hnull
  | node type op sExpr sValue children =>
    rw [buildPlanForGroupBy, hask, ok_bind]
    · dsimp only
      rw [if_neg (by decide), show (pure p : Fallible Plan) = .ok p from rfl, ok_bind, hcolumns, ok_bind,
        List.range_eq_range']
      rfl
    · exact hnull

/-- The arguments of the functions have types and values. -/
structure Arguments (type : Nat → DBDataType) (plan : GroupByPlan) (columnType : Nat → Fallible DBDataType)
    (rows : List Row) : Prop where
  types : ∀ func ∈ plan.proj, columnType func.index = .ok (type func.index)
  values : ∀ r ∈ rows, ∀ func ∈ plan.proj, r func.index (type func.index) = .ok (SortPlan.value type r func.index)

section

variable {conv : Conversions} {db : LevelDB} {rows : List Row} {es : List Entry} {n : Nat} {type : Nat → DBDataType}
  {plan : GroupByPlan}

theorem length_le_getKeyCount (hv : t.Valid) {cs : List ParseNode}
    (hkeys : ∀ (k : Nat) (c : ParseNode), cs[k]? = some c →
      c.type = .name ∧ (⟨0 + k, c.getString, .any⟩ : OrderRequest).IsKey t) : cs.length ≤ t.getKeyCount := by
  cases hlength : cs.length with
  | zero => exact Nat.zero_le _
  | succ n =>
    obtain ⟨c, hc⟩ : ∃ c, cs[n]? = some c := ⟨_, List.getElem?_eq_getElem (by omega)⟩
    have hlt := (hkeys n c hc).2.lt hv
    rwa [Nat.zero_add] at hlt

theorem keyedOrder_range (hplan : plan.groupby = List.range n) (order : SortOrder) :
    GroupByPlan.keyedOrder conv type plan (plan.groupby.map fun _ => order) =
      lex ((List.range n).map fun i => keyOrder conv type (i, order)) := by
  rw [GroupByPlan.keyedOrder, ← List.map_prod_left_eq_zip, List.map_map, hplan]
  rfl

theorem value_of_keys (hv : t.Valid) (hs : Store conv t db) (hes : es.Sublist (Store.inOrder order db))
    (hreads : List.Forall₂ (ReadsKey t) rows es) (hn : n ≤ t.getKeyCount)
    (hkeytype : ∀ i < n, t.keyTypes[i]? = some (type i)) {r : Row} (hr : r ∈ rows) {i : Nat} (hi : i < n) :
    r i (type i) = .ok (SortPlan.value type r i) ∧
      KeyOrder.isOrdered (getHandler (type i)) (SortPlan.value type r i) = true := by
  obtain ⟨e, he, hread⟩ := exists_of_forall₂ hreads hr
  obtain ⟨v, -, hv1, hv2, hv3⟩ := hs.value_of_readsKey hv (Store.mem_inOrder.mp (hes.subset he)) hread
    (hi.trans_le hn) (hkeytype i hi)
  rw [hv2]
  exact ⟨hv1, hv3⟩

/-- Rows with the keys of stored entries can be grouped by the key columns. -/
theorem groupable_of_keys (hv : t.Valid) (hs : Store conv t db) (hes : es.Sublist (Store.inOrder order db))
    (hreads : List.Forall₂ (ReadsKey t) rows es) (hn : n ≤ t.getKeyCount)
    (hkeytype : ∀ i < n, t.keyTypes[i]? = some (type i)) (hplan : plan.groupby = List.range n)
    {columnType : Nat → Fallible DBDataType} (htypes : ∀ i ∈ plan.groupby, columnType i = .ok (type i))
    (harguments : Arguments type plan columnType rows) : GroupByPlan.Groupable conv type plan columnType rows := by
  have hlt : ∀ i ∈ plan.groupby, i < n := fun i hi => List.mem_range.mp (hplan ▸ hi)
  refine ⟨fun i hi => ?_, fun r hr i hi => ?_, fun i hi => ?_⟩
  · obtain hi | hi := List.mem_append.mp hi
    · exact htypes i hi
    · obtain ⟨func, hfunc, rfl⟩ := List.mem_map.mp hi
      exact harguments.types func hfunc
  · obtain hi | hi := List.mem_append.mp hi
    · exact (value_of_keys hv hs hes hreads hn hkeytype hr (hlt i hi)).1
    · obtain ⟨func, hfunc, rfl⟩ := List.mem_map.mp hi
      exact harguments.values r hr func hfunc
  · refine totalOn_of_ordered fun v hmem => ?_
    obtain ⟨r, hr, rfl⟩ := List.mem_map.mp hmem
    exact (value_of_keys hv hs hes hreads hn hkeytype hr (hlt i hi)).2

end

/-- `GROUP BY` the first key columns of a table needs no sort: whatever columns and orders are asked of the
plan afterwards, it delivers one row for each combination of key values that the rows of the scan have,
with the functions taken over all rows of that combination. -/
theorem run_groups_by_key {conv : Conversions} {std : StdSort} {st : Storage} (hv : t.Valid)
    (hs : Store conv t (st.tables t.name)) (hover : OverScan t order p) {pNode : ParseNode} (hnull : pNode ≠ .null)
    (hkeys : ∀ (k : Nat) (c : ParseNode), pNode.children[k]? = some c →
      c.type = .name ∧ (⟨k, c.getString, .any⟩ : OrderRequest).IsKey t)
    (hrow : ∀ c ∈ pNode.children, Tools.isRowKeyNode c = false) :
    buildPlanForGroupBy pNode p = .ok (.groupBy { groupby := List.range pNode.children.length } p) ∧
      ∀ q, Called (.groupBy { groupby := List.range pNode.children.length } p) q →
        ∃ plan child, q = .groupBy plan child ∧ plan.groupby = List.range pNode.children.length ∧
          ∀ (type : Nat → DBDataType) (rows : List Row), (∀ i ∈ plan.groupby, child.columnType i = .ok (type i)) →
            child.run conv std st = ⟨rows, none⟩ → Arguments type plan child.columnType rows →
              ∃ gs, Classes (GroupByPlan.sameKey conv type plan) rows gs ∧
                GroupByPlan.Summarized conv type plan rows gs (q.run conv std st) := by
  have hkeys' : ∀ (k : Nat) (c : ParseNode), pNode.children[k]? = some c →
      c.type = .name ∧ (⟨0 + k, c.getString, .any⟩ : OrderRequest).IsKey t := by
    intro k c hc
    rw [Nat.zero_add]
    exact hkeys k c hc
  have hn := length_le_getKeyCount hv hkeys'
  refine ⟨buildPlanForGroupBy_keys hv hover hnull hkeys' hrow, fun q hcalled => ?_⟩
  cases (KeyGrouped.mk rfl hover).called hcalled with
  | @mk plan child order' hplan hover' =>
    refine ⟨plan, child, rfl, hplan, fun type rows htypes hrun harguments => ?_⟩
    obtain ⟨es, hes, hreads⟩ := @OverScan.entries conv std st t order' child hover'
    rw [hrun] at hreads
    have hkeytype : ∀ i < pNode.children.length, t.keyTypes[i]? = some (type i) := by
      intro i hi
      obtain ⟨u, hu, hcolumn⟩ := hover'.columnType_key hv (hi.trans_le hn)
      rw [htypes i (hplan ▸ List.mem_range.mpr hi)] at hcolumn
      rw [hu, Except.ok.inj hcolumn]
    have hgroupable := groupable_of_keys hv hs hes hreads hn hkeytype hplan htypes harguments
    have hsorted : rows.Pairwise fun a b =>
        GroupByPlan.keyedOrder conv type plan (plan.groupby.map fun _ => order') a b ≠ .gt := by
      rw [keyedOrder_range hplan]
      exact hs.sorted_rows hv hes hreads hn hkeytype
    obtain ⟨gs, hgroups, hclasses⟩ := hgroupable.groups (List.length_map _) hsorted
    rw [Plan.run, hrun]
    exact ⟨gs, hclasses, hgroupable.run_classes hgroups hclasses⟩

open ScanPlanInfo (nameTable nameTable_valid)
open Plan (rowsBE rowsBE_store)

/-- `GROUP BY a`. -/
def byNames : ParseNode := .node .list .none [] [] [nameNode (bytes "a")]

def countNames : ParseNode := .node .func .none (bytes "count(a)") (bytes "count") [nameNode (bytes "a")]

def namesPlan : GroupByPlan := { proj := [⟨.first, bytes "a", 0⟩, ⟨.count, bytes "count(a)", 0⟩], groupby := [0] }

def namesStorage : Storage := ⟨fun _ => rowsBE, fun _ => none, fun _ => 0⟩

/-- The plan of `SELECT a, count(a) .. GROUP BY a ORDER BY a DESC`. -/
theorem called_names : Called (.groupBy { groupby := [0] } (.scan (.create nameTable) .any))
    (.groupBy namesPlan (.scan (.create nameTable) .descend)) := by
  have h0 : Called (.groupBy { groupby := [0] } (.scan (.create nameTable) .any)) _ := .refl _
  have h1 : Called _ (.groupBy { proj := [⟨.first, bytes "a", 0⟩], groupby := [0] } (.scan (.create nameTable) .any)) :=
    @Called.addProjection _ _ _ (nameNode (bytes "a")) (some 0) h0 rfl
  have h2 : Called _ (.groupBy namesPlan (.scan (.create nameTable) .any)) :=
    @Called.addProjection _ _ _ countNames (some 1) h1 rfl
  exact h2.ensureSortOrder ⟨0, bytes "a", .descend⟩

theorem run_groups_by_key_names :
    buildPlanForGroupBy byNames (.scan (.create nameTable) .any) =
      .ok (.groupBy { groupby := [0] } (.scan (.create nameTable) .any)) ∧
    ∃ gs, Classes (GroupByPlan.sameKey decimalConversions (fun _ => .string) namesPlan)
        ((Plan.scan (.create nameTable) .descend).run decimalConversions insertionSort namesStorage).rows gs ∧
      GroupByPlan.Summarized decimalConversions (fun _ => .string) namesPlan
        ((Plan.scan (.create nameTable) .descend).run decimalConversions insertionSort namesStorage).rows gs
        ((Plan.groupBy namesPlan (.scan (.create nameTable) .descend)).run decimalConversions insertionSort
          namesStorage) := by
  have hkeys : ∀ (k : Nat) (c : ParseNode), byNames.children[k]? = some c →
      c.type = .name ∧ (⟨k, c.getString, .any⟩ : OrderRequest).IsKey nameTable := by
    intro k c hc
    cases k with
    | zero =>
      obtain rfl := Option.some.inj hc
      exact ⟨rfl, _, rfl, rfl⟩
    | succ k => cases hc
  obtain ⟨hbuild, hcalled⟩ := @run_groups_by_key nameTable .any (.scan (.create nameTable) .any)
    decimalConversions insertionSort namesStorage nameTable_valid rowsBE_store
    (.scan (LevelDBScanPlan.create_scans nameTable_valid)) byNames (fun h => by cases h) hkeys (by decide)
  obtain ⟨plan, child, heq, -, hrun⟩ := hcalled _ called_names
  cases heq
  refine ⟨hbuild, hrun (fun _ => .string) _ (fun i hi => ?_) rfl ⟨fun func hfunc => ?_, fun r hr func hfunc => ?_⟩⟩
  · obtain rfl := List.mem_singleton.mp hi
    rfl
  · obtain rfl | hfunc := List.mem_cons.mp hfunc
    · rfl
    · obtain rfl := List.mem_singleton.mp hfunc
      rfl
  · have hindex : func.index = 0 := by
      obtain rfl | hfunc := List.mem_cons.mp hfunc
      · rfl
      · obtain rfl := List.mem_singleton.mp hfunc
        rfl
    rw [hindex]
    obtain rfl | hr := List.mem_cons.mp hr
    · rfl
    · obtain rfl := List.mem_singleton.mp hr
      rfl

end SelectPlanBuilder

end LevelPgServer
