import LevelPgServer.PlanBuilder.EmptySelect

/-! The group-by that a select list adds when it needs one. -/

namespace LevelPgServer

open ParseNode LevelDBPlanBuilder SelectPlanBuilder ExceptRules

variable {conv : Conversions} {std : StdSort} {config : MetaConfig}

namespace Plan

/-- No group-by, and no limit at the top, above the FROM clause. -/
def Ungrouped : Plan → Prop
  | unionAll _ _ plans => ∀ p ∈ plans, p.OnScan
  | filter _ child => child.Ungrouped
  | sort _ child => child.Ungrouped
  | groupBy _ _ => False
  | limit _ _ => False
  | projection plan _ => plan.Mapped
  | _ => True

/-- The names of the select list of the subquery in the FROM clause. -/
def fromNames : Plan → List Bytes
  | filter _ child => child.fromNames
  | sort _ child => child.fromNames
  | limit _ child => child.fromNames
  | projection plan _ => plan.proj.map ProjectionInfo.name
  | _ => []

theorem Extends.ungrouped : ∀ {p q : Plan}, Extends p q → p.Ungrouped → q.Ungrouped
  | _, _, .same _, hp => hp
  | _, _, .scan _ _ _ _, _ => trivial
  | _, _, .unionAll h, hp => h.onScan hp
  | _, _, .filter h, hp => h.ungrouped hp
  | _, _, .sort _ h, hp => h.ungrouped hp

theorem Extends.fromNames {p q : Plan} (h : Extends p q) : q.fromNames = p.fromNames := by
  cases h with
  | same | scan | unionAll | groupBy => rfl
  | filter h => exact h.fromNames
  | sort _ h => exact h.fromNames
  | limit h => exact h.fromNames

theorem ungrouped_ensureSortOrder : ∀ (p : Plan) (index : Nat) (column : Bytes) (order : SortOrder), p.Ungrouped →
    (p.ensureSortOrder index column order).2.Ungrouped
  | empty, _, _, _, _ => trivial
  | showTables _, _, _, _, _ => trivial
  | showColumns _, _, _, _, _ => trivial
  | const _, _, _, _, _ => trivial
  | readFile _, _, _, _, _ => trivial
  | scan _ _, _, _, _, _ => trivial
  | unionAll hasOrder _ plans, index, column, order, hp => by
    cases hasOrder with
    | true => exact onScan_ensureSortOrders plans index column order hp
    | false => exact hp
  | filter _ child, index, column, order, hp => ungrouped_ensureSortOrder child index column order hp
  | sort _ _, _, _, _, hp => hp
  | projection plan _, _, column, _, hp => by
    rw [ensureSortOrder]
    split
    · exact hp
    · exact hp

theorem ungrouped_of_isSubquery {p : Plan} (h : p.IsSubquery) : p.Ungrouped := by
  cases p with
  | projection plan child => exact h.selected
  | unionAll | filter | sort | limit | groupBy => cases h.leaf
  | _ => trivial

theorem ungrouped_ofSelect (plan : SelectPlan) : (ofSelect plan).Ungrouped := by
  cases plan with
  | single info =>
    rw [ofSelect, ofScan]
    split
    · trivial
    · trivial
  | unionAll plans =>
    intro p hp
    obtain ⟨info, -, rfl⟩ := List.mem_map.mp hp
    exact (listed_ofScan info).2

theorem fromNames_ofSelect (plan : SelectPlan) : (ofSelect plan).fromNames = [] := by
  cases plan with
  | single info =>
    rw [ofSelect, ofScan]
    split
    · rfl
    · rfl
  | unionAll plans => rfl

theorem ungrouped_kept : Kept Ungrouped where
  extends_ _ _ h hp := h.ungrouped hp
  ensureSortOrder := ungrouped_ensureSortOrder
  filter _ _ hp := hp
  sort _ _ hp := hp

theorem fromNames_ensureSortOrder : ∀ (p : Plan) (index : Nat) (column : Bytes) (order : SortOrder),
    (p.ensureSortOrder index column order).2.fromNames = p.fromNames
  | empty, _, _, _ => rfl
  | showTables _, _, _, _ => rfl
  | showColumns _, _, _, _ => rfl
  | const _, _, _, _ => rfl
  | readFile _, _, _, _ => rfl
  | scan _ _, _, _, _ => rfl
  | unionAll hasOrder _ plans, _, _, _ => by
    cases hasOrder <;> rfl
  | filter _ child, index, column, order => fromNames_ensureSortOrder child index column order
  | groupBy _ _, _, _, _ => rfl
  | sort _ _, _, _, _ => rfl
  | limit _ child, index, column, order => fromNames_ensureSortOrder child index column order
  | projection plan _, _, column, _ => by
    rw [ensureSortOrder]
    split
    · rfl
    · rfl

theorem onScan_func : ∀ (p : Plan) {pNode : ParseNode} {r : Option Nat × Plan}, p.OnScan → pNode.type = .func →
    p.addProjection pNode = .ok r → r.1 = none
  | scan plan order, pNode, r, _, hfunc, h => by
    have hrow : Tools.isRowKeyNode pNode = false := by
      rw [Tools.isRowKeyNode, hfunc]
      rfl
    have hplan : plan.addProjection pNode = .ok (none, plan) := by
      rw [LevelDBScanPlan.addProjection, hrow, if_neg (by simp), if_neg (by rw [hfunc]; decide)]
    obtain ⟨⟨i, plan'⟩, h1, h⟩ := bind_eq_ok.mp h
    rw [hplan] at h1
    cases h1
    cases h
    rfl
  | filter _ child, pNode, r, hp, hfunc, h => by
    obtain ⟨⟨i, child'⟩, h1, h⟩ := bind_eq_ok.mp h
    cases h
    have hchild := onScan_func child hp hfunc h1
    exact hchild

/-- A function is only found where the subquery has a column with its name. -/
theorem found_func : ∀ (p : Plan) {pNode : ParseNode} {r : Option Nat × Plan}, p.Ungrouped → pNode.type = .func →
    p.addProjection pNode = .ok r → (r.1 = none ↔ pNode.getString ∉ p.fromNames)
  | empty, _, _, _, _, h => by
    cases h
    exact ⟨fun _ => List.not_mem_nil, fun _ => rfl⟩
  | showTables tables, pNode, _, _, hfunc, h => by
    cases h
    rw [ShowTables.addProjection, if_neg (by rw [hfunc]; decide)]
    exact ⟨fun _ => List.not_mem_nil, fun _ => rfl⟩
  | showColumns _, pNode, _, _, hfunc, h => by
    cases h
    rw [ShowColumns.addProjection, if_neg (by rw [hfunc]; decide)]
    exact ⟨fun _ => List.not_mem_nil, fun _ => rfl⟩
  | const plan, pNode, _, _, hfunc, h => by
    cases h
    rw [ConstPlan.addProjection, if_neg (by rw [hfunc]; decide)]
    exact ⟨fun _ => List.not_mem_nil, fun _ => rfl⟩
  | readFile plan, pNode, _, _, hfunc, h => by
    cases h
    rw [ReadFilePlan.addProjection, if_neg (by rw [hfunc]; decide)]
    exact ⟨fun _ => List.not_mem_nil, fun _ => rfl⟩
  | scan plan order, pNode, r, _, hfunc, h =>
    ⟨fun _ => List.not_mem_nil, fun _ => onScan_func (scan plan order) trivial hfunc h⟩
  | unionAll _ _ plans, pNode, r, hp, hfunc, h => by
    refine ⟨fun _ => List.not_mem_nil, fun _ => ?_⟩
    obtain ⟨⟨i, plans'⟩, h1, h⟩ := bind_eq_ok.mp h
    cases h
    cases plans with
    | nil =>
      cases h1
      rfl
    | cons p ps =>
      obtain ⟨⟨proj, p'⟩, h2, h1⟩ := bind_eq_ok.mp h1
      have hnone : proj = none := onScan_func p (hp p List.mem_cons_self) hfunc h2
      subst hnone
      cases h1
      rfl
  | filter _ child, pNode, r, hp, hfunc, h => by
    obtain ⟨⟨i, child'⟩, h1, h⟩ := bind_eq_ok.mp h
    cases h
    have hchild := found_func child hp hfunc h1
    exact hchild
  | sort plan child, pNode, r, hp, hfunc, h => by
    obtain ⟨⟨i, plan', child'⟩, h1, h⟩ := bind_eq_ok.mp h
    cases h
    obtain ⟨⟨index, child2⟩, h2, h1⟩ := bind_eq_ok.mp h1
    have hchild := found_func child hp hfunc h2
    rw [fromNames, ← hchild]
    cases index with
    | none =>
      cases h1
      exact ⟨fun _ => rfl, fun _ => rfl⟩
    | some i =>
      cases h1
      exact ⟨fun hnone => (by cases hnone), fun hnone => (by cases hnone)⟩
  | projection plan child, pNode, r, hp, hfunc, h => by
    cases h
    exact hp pNode.getString

theorem fromNames_kept (names : List Bytes) : Kept (fun p => p.fromNames = names) where
  extends_ _ _ h hp := h.fromNames.trans hp
  ensureSortOrder p index column order hp := (fromNames_ensureSortOrder p index column order).trans hp
  filter _ _ hp := hp
  sort _ _ hp := hp

theorem projectAgain_extends : ∀ (projs : List ProjectionInfo) {p : Plan} {r : List ProjectionInfo × Plan},
    ProjectionPlan.projectAgain (fun pNode p => p.addProjection pNode) projs p = .ok (some r) → Extends p r.2
  | [], p, _, h => by
    cases h
    exact .same p
  | proj :: projs, p, r, h => by
    obtain ⟨⟨index, q⟩, h1, h⟩ := bind_eq_ok.mp h
    have hx := extends_of_addProjection h1
    cases index with
    | none => cases h
    | some i =>
      obtain ⟨rest, h2, h⟩ := bind_eq_ok.mp h
      cases rest with
      | none => cases h
      | some rest =>
        cases h
        have hrest := projectAgain_extends projs h2
        exact hx.trans hrest

theorem groupBy_func {plan : GroupByPlan} {child : Plan} {pNode : ParseNode} {r : Option Nat × Plan}
    (hfunc : pNode.type = .func) (h : (groupBy plan child).addProjection pNode = .ok r) : r.1 ≠ none := by
  obtain ⟨⟨i, plan', child'⟩, h1, h⟩ := bind_eq_ok.mp h
  cases h
  rw [GroupByPlan.addProjection, hfunc] at h1
  dsimp only at h1
  split at h1
  · cases h1
  · obtain ⟨⟨index, child2⟩, -, h1⟩ := bind_eq_ok.mp h1
    cases index with
    | none => cases h1
    | some i =>
      cases h1
      simp

end Plan

namespace SelectPlanBuilder

open Plan

/-- The plan under a select list: as the clauses before it have left it, or with the group-by. -/
inductive Stage (limited : Plan) : Bool → Plan → Prop
  | plain {q : Plan} (h : Extends limited q) : Stage limited false q
  | grouped {plan : GroupByPlan} {q : Plan} (h : Extends limited q) : Stage limited true (groupBy plan q)

variable {limited child child' : Plan} {grouped : Bool}

theorem Stage.of_extends (h : Stage limited grouped child) (hx : Extends child child') : Stage limited grouped child' := by
  cases h with
  | plain h => exact .plain (h.trans hx)
  | grouped h =>
    cases hx with
    | same => exact .grouped h
    | groupBy added hc => exact .grouped (h.trans hc)

/-- A function that needs the group-by. -/
def needsGroupBy (names : List Bytes) (pNode : ParseNode) : Bool :=
  (aliased pNode).1.type == .func && !names.contains (aliased pNode).1.getString

theorem needsGroupBy_iff {names : List Bytes} {pNode : ParseNode} : needsGroupBy names pNode = true ↔
    (aliased pNode).1.type = .func ∧ (aliased pNode).1.getString ∉ names := by
  rw [needsGroupBy, Bool.and_eq_true, beq_iff_eq, Bool.not_eq_true', List.contains_eq_mem, decide_eq_false_iff_not]

theorem project_func {plan plan' : ProjectionPlan} {pNode : ParseNode} {sName : Bytes} {ok : Bool}
    (h : plan.project child.addProjection child pNode sName = .ok (ok, plan', child')) :
    Extends child child' ∧
      (pNode.type = .func → ∃ i, child.addProjection pNode = .ok (i, child') ∧ (ok = true ↔ i ≠ none)) := by
  rw [ProjectionPlan.project] at h
  split at h
  · obtain ⟨⟨index, c⟩, h1, h⟩ := bind_eq_ok.mp h
    have hx := extends_of_addProjection h1
    cases index with
    | none =>
      cases h
      exact ⟨hx, fun _ => ⟨none, h1, by simp⟩⟩
    | some i =>
      cases h
      exact ⟨hx, fun _ => ⟨some i, h1, by simp⟩⟩
  · next hconst =>
    have hnot : pNode.type ≠ .func := by
      intro hfunc
      rw [isConst, hfunc] at hconst
      exact hconst rfl
    split at h
    · cases h
      exact ⟨.same child, fun hfunc => absurd hfunc hnot⟩
    · cases h
      exact ⟨.same child, fun hfunc => absurd hfunc hnot⟩

/-- The functions that the plan under a select list knows. -/
def KnowsFunctions (limited : Plan) (names : List Bytes) : Prop :=
  ∀ q pNode r, Extends limited q → pNode.type = .func → q.addProjection pNode = .ok r →
    (r.1 = none ↔ pNode.getString ∉ names)

variable {names : List Bytes}

theorem projectColumn_stage (hl : KnowsFunctions limited names) {pNode : ParseNode} {proj : ProjectionPlan}
    {r : ProjectionPlan × Plan} (hs : Stage limited grouped child) (h : projectColumn pNode proj child = .ok r) :
    Stage limited (grouped || needsGroupBy names pNode) r.2 := by
  have hneeds := @needsGroupBy_iff names pNode
  rw [projectColumn] at h
  generalize aliased pNode = column at h hneeds
  obtain ⟨⟨ok, proj1, child1⟩, h1, h⟩ := bind_eq_ok.mp h
  obtain ⟨hx, hfunc⟩ := project_func h1
  cases ok with
  | true =>
    cases h
    cases hs with
    | grouped hq =>
      rw [Bool.true_or]
      exact Stage.of_extends (.grouped hq) hx
    | plain hq =>
      have hno : needsGroupBy names pNode = false := by
        rw [Bool.eq_false_iff]
        intro htrue
        obtain ⟨htype, hname⟩ := hneeds.mp htrue
        obtain ⟨i, hi, hok⟩ := hfunc htype
        exact hok.mp rfl ((hl _ _ _ hq htype hi).mpr hname)
      rw [hno, Bool.or_false]
      exact Stage.of_extends (.plain hq) hx
  | false =>
    dsimp only at h
    rw [if_neg (by simp)] at h
    split at h
    · cases h
    · next htype =>
      have htype : column.1.type = .func := not_not.mp htype
      obtain ⟨i, hi, hok⟩ := hfunc htype
      have hnone : i = none := by
        by_contra hne
        cases hok.mpr hne
      cases hs with
      | grouped hq => exact absurd hnone (groupBy_func htype hi)
      | plain hq =>
        have hyes : needsGroupBy names pNode = true := hneeds.mpr ⟨htype, (hl _ _ _ hq htype hi).mp hnone⟩
        rw [hyes, Bool.or_true]
        obtain ⟨s, hs, h⟩ := bind_eq_ok.mp h
        cases s with
        | none => cases h
        | some s =>
          obtain ⟨again, hagain, hs⟩ := bind_eq_ok.mp hs
          cases again with
          | none => cases hs
          | some again =>
            cases hs
            have hstage : Stage limited true again.2 :=
              Stage.of_extends (.grouped (hq.trans hx)) (projectAgain_extends _ hagain)
            obtain ⟨⟨ok3, proj3, child3⟩, h3, h⟩ := bind_eq_ok.mp h
            obtain ⟨hx3, -⟩ := project_func h3
            dsimp only at h
            split at h
            · cases h
              exact hstage.of_extends hx3
            · cases h

theorem projectList_stage (hl : KnowsFunctions limited names) : ∀ (columns : List ParseNode) {grouped : Bool} {child : Plan}
    {proj : ProjectionPlan} {r : ProjectionPlan × Plan}, Stage limited grouped child →
      projectList columns proj child = .ok r → Stage limited (grouped || columns.any (needsGroupBy names)) r.2
  | [], grouped, _, _, _, hs, h => by
    cases h
    rw [List.any_nil, Bool.or_false]
    exact hs
  | c :: columns, grouped, _, _, _, hs, h => by
    obtain ⟨⟨proj1, child1⟩, h1, h⟩ := bind_eq_ok.mp h
    have hfirst := projectColumn_stage hl hs h1
    have hrest := projectList_stage hl columns hfirst h
    rw [List.any_cons, ← Bool.or_assoc]
    exact hrest

theorem projectColumns_extends : ∀ (columns : List Bytes) {proj : ProjectionPlan} {child : Plan} {r : ProjectionPlan × Plan},
    projectColumns columns proj child = .ok r → Extends child r.2
  | [], _, child, _, h => by
    cases h
    exact .same child
  | _ :: columns, _, _, _, h => by
    obtain ⟨⟨ok, proj1, child1⟩, h1, h⟩ := bind_eq_ok.mp h
    exact (project_func h1).1.trans (projectColumns_extends columns h)

def listNeedsGroupBy (names : List Bytes) (pNode : ParseNode) : Bool :=
  !isAllColumns pNode && pNode.children.any (needsGroupBy names)

theorem buildPlanForProjection_stage (hl : KnowsFunctions limited names) {pNode : ParseNode} {p : Plan}
    (h : buildPlanForProjection pNode limited = .ok p) :
    ∃ proj child, p = .projection proj child ∧ Stage limited (listNeedsGroupBy names pNode) child := by
  rw [buildPlanForProjection] at h
  rw [listNeedsGroupBy]
  split at h
  · next hstar =>
    dsimp only at h
    split at h
    · cases h
    · obtain ⟨⟨proj, child⟩, h1, h⟩ := bind_eq_ok.mp h
      cases h
      rw [hstar]
      exact ⟨proj, child, rfl, .plain (projectColumns_extends _ h1)⟩
  · next hstar =>
    obtain ⟨⟨proj, child⟩, h1, h⟩ := bind_eq_ok.mp h
    cases h
    have hstage := projectList_stage hl _ (.plain (.same limited)) h1
    rw [Bool.eq_false_iff.mpr hstar]
    exact ⟨proj, child, rfl, hstage⟩

theorem knowsFunctions_limited {ordered : Plan} {pNode : ParseNode} (ho : ordered.Ungrouped)
    (h : buildPlanForLimit conv pNode ordered = .ok limited) : KnowsFunctions limited ordered.fromNames := by
  intro q n r hx hfunc hr
  obtain ⟨-, rfl⟩ | ⟨-, limit, rfl⟩ := buildPlanForLimit_cases h
  · rw [← hx.fromNames]
    exact found_func q (hx.ungrouped ho) hfunc hr
  · obtain ⟨c', rfl, hc⟩ := extends_limit hx
    obtain ⟨⟨i, child⟩, h1, hr⟩ := bind_eq_ok.mp hr
    cases hr
    rw [← hc.fromNames]
    have hchild := found_func c' (hc.ungrouped ho) hfunc h1
    exact hchild

section Aggregates

variable (conv std config)

/-- The rows of FROM, WHERE and HAVING in the order of ORDER BY. -/
def orderedPlan (c : Clauses) : Fallible Plan := do
  let plan ← buildFrom conv std config c.table (if c.predicate.isTrueConst then .null else c.predicate)
    (BuildPlan.buildPlan conv std config c.table)
  let plan ← buildPlanForFilter conv c.having plan
  buildPlanForOrderBy c.orderBy plan

/-- The names of the columns of the subquery in the FROM clause. -/
def subqueryNames (c : Clauses) : List Bytes :=
  if c.table.type = .name then []
  else
    match BuildPlan.buildPlan conv std config c.table with
    | .ok q => q.fromNames
    | .error _ => []

/-- The group-by of the select list reads all the rows, with no limit below it. -/
def AggregatesAll (c : Clauses) (p : Plan) : Prop :=
  ∃ proj g child ordered, p = .projection proj (.groupBy g child) ∧ orderedPlan conv std config c = .ok ordered ∧
    Extends ordered child

variable {conv std config}

theorem orderedPlan_ungrouped {c : Clauses} {ordered : Plan} (h : orderedPlan conv std config c = .ok ordered) :
    ordered.Ungrouped ∧ ordered.fromNames = subqueryNames conv std config c := by
  obtain ⟨plan, h1, h⟩ := bind_eq_ok.mp h
  obtain ⟨filtered, h2, h⟩ := bind_eq_ok.mp h
  have hplan := ungrouped_kept.buildFrom (fun _ q hq => ungrouped_of_isSubquery (BuildPlan.buildPlan_isSubquery hq))
    (fun _ => ⟨ungrouped_ofSelect, fun _ => trivial⟩) h1
  have hnames : plan.fromNames = subqueryNames conv std config c := by
    refine (fromNames_kept _).buildFrom (fun htype q hq => ?_) (fun htype => ?_) h1
    · rw [subqueryNames, if_neg htype, hq]
    · rw [subqueryNames, if_pos htype]
      exact ⟨fromNames_ofSelect, fun _ => rfl⟩
  exact ⟨ungrouped_kept.buildPlanForOrderBy (ungrouped_kept.buildPlanForFilter hplan h2) h,
    (fromNames_kept _).buildPlanForOrderBy ((fromNames_kept _).buildPlanForFilter hnames h2) h⟩

end Aggregates

/-- `count(c1)`. -/
def countNode : ParseNode := .node .func .none (bytes "count(c1)") (bytes "count") [nameOf "c1"]

/-- `select count(c1) from (values (1), (2))`. -/
def countValues : Clauses where
  project := .node .list .none (bytes "count(c1)") (bytes "ExprList") [countNode]
  table := valuesNode [[intNode "1"], [intNode "2"]]

end SelectPlanBuilder

end LevelPgServer
