import LevelPgServer.Execution.LevelDBInsertPlan
import LevelPgServer.Execution.ProjectionIndexes
import LevelPgServer.Execution.RowCounters
import LevelPgServer.PlanBuilder.ConstantOperands
import LevelPgServer.PlanBuilder.ScanPlan

/-! A SELECT whose WHERE clause is the constant false. -/

namespace LevelPgServer

open ParseNode LevelDBPlanBuilder SelectPlanBuilder ExceptRules

variable {conv : Conversions} {std : StdSort} {config : MetaConfig}

theorem indexOfName_ne_none {fits : Bytes → Bool} {names : List Bytes} {name : Bytes} (hmem : name ∈ names)
    (hfits : fits name = true) : indexOfName fits names ≠ none := by
  induction names with
  | nil => cases hmem
  | cons s names ih =>
    rw [indexOfName]
    split
    · simp
    · next hs =>
      obtain rfl | hmem := List.mem_cons.mp hmem
      · exact absurd hfits hs
      · rw [ne_eq, Option.map_eq_none_iff]
        exact ih hmem

theorem LevelDBScanPlan.addProjection_name {plan : LevelDBScanPlan} {pNode : ParseNode} {r : Option Nat × LevelDBScanPlan}
    (hname : pNode.type = .name) (h : plan.addProjection pNode = .ok r) : r.1 ≠ none := by
  rw [LevelDBScanPlan.addProjection] at h
  split at h
  · cases h
    simp
  · split at h
    · cases h
    · split at h
      · cases h
        simp
      · cases h
        simp
      · cases h

namespace Plan

def OnScan : Plan → Prop
  | scan _ _ => True
  | filter _ child => child.OnScan
  | _ => False

def Listed : Plan → Prop
  | unionAll _ _ plans => ∀ p ∈ plans, p.OnScan
  | filter _ child => child.Listed
  | sort _ child => child.Listed
  | limit _ child => child.Listed
  | projection plan _ => plan.Mapped
  | _ => True

theorem extends_of_addProjection {p q : Plan} {pNode : ParseNode} {i : Option Nat} (h : p.addProjection pNode = .ok (i, q)) :
    Extends p q := by
  have hx := project_extends p pNode
  rw [addProjection_eq, returned] at h
  split at h
  · cases h
    exact hx
  · cases h

theorem Extends.onScan : ∀ {p q : Plan}, Extends p q → p.OnScan → q.OnScan
  | _, _, .same _, hp => hp
  | _, _, .scan _ _ _ _, _ => trivial
  | _, _, .filter h, hp => h.onScan hp

theorem ExtendsAll.onScan : ∀ {ps qs : List Plan}, ExtendsAll ps qs → (∀ p ∈ ps, p.OnScan) → ∀ q ∈ qs, q.OnScan
  | _, _, .nil, hp => hp
  | _, _, .cons h hs, hp => by
    rintro q (_ | ⟨_, hq⟩)
    · exact h.onScan (hp _ List.mem_cons_self)
    · exact hs.onScan (fun p hmem => hp p (List.mem_cons_of_mem _ hmem)) q hq

theorem Extends.listed : ∀ {p q : Plan}, Extends p q → p.Listed → q.Listed
  | _, _, .same _, hp => hp
  | _, _, .scan _ _ _ _, _ => trivial
  | _, _, .unionAll h, hp => h.onScan hp
  | _, _, .filter h, hp => h.listed hp
  | _, _, .groupBy _ _, _ => trivial
  | _, _, .sort _ h, hp => h.listed hp
  | _, _, .limit h, hp => h.listed hp

theorem onScan_found : ∀ (p : Plan) {pNode : ParseNode} {r : Option Nat × Plan}, p.OnScan → pNode.type = .name →
    p.addProjection pNode = .ok r → r.1 ≠ none
  | scan plan order, pNode, r, _, hname, h => by
    obtain ⟨⟨i, plan'⟩, h1, h⟩ := bind_eq_ok.mp h
    cases h
    exact LevelDBScanPlan.addProjection_name hname h1
  | filter _ child, pNode, r, hp, hname, h => by
    obtain ⟨⟨i, child'⟩, h1, h⟩ := bind_eq_ok.mp h
    cases h
    have hchild := onScan_found child hp hname h1
    exact hchild

theorem onScan_foundAll : ∀ (plans : List Plan) (lastProj : Option Nat) {pNode : ParseNode} {r : Option Nat × List Plan},
    (∀ p ∈ plans, p.OnScan) → pNode.type = .name → plans ≠ [] → addProjections plans lastProj pNode = .ok r → r.1 ≠ none
  | [], _, _, _, _, _, hne, _ => absurd rfl hne
  | p :: ps, lastProj, pNode, r, hp, hname, _, h => by
    obtain ⟨⟨proj, p'⟩, h1, h⟩ := bind_eq_ok.mp h
    have hsome := onScan_found p (hp p List.mem_cons_self) hname h1
    cases proj with
    | none => exact absurd rfl hsome
    | some i =>
      dsimp only at h
      split at h
      · cases h
      · obtain ⟨⟨last, ps'⟩, h2, h⟩ := bind_eq_ok.mp h
        cases h
        cases ps with
        | nil =>
          cases h2
          simp
        | cons q qs =>
          have hlast := onScan_foundAll (q :: qs) (some i) (fun x hx => hp x (List.mem_cons_of_mem p hx)) hname (by simp) h2
          exact hlast

theorem onScan_ensureSortOrder : ∀ (p : Plan) (index : Nat) (column : Bytes) (order : SortOrder), p.OnScan →
    (p.ensureSortOrder index column order).2.OnScan
  | scan _ _, _, _, _, _ => trivial
  | filter _ child, index, column, order, hp => onScan_ensureSortOrder child index column order hp

theorem onScan_ensureSortOrders : ∀ (plans : List Plan) (index : Nat) (column : Bytes) (order : SortOrder),
    (∀ p ∈ plans, p.OnScan) → ∀ p ∈ (ensureSortOrders plans index column order).2, p.OnScan
  | [], _, _, _, hp => hp
  | p :: ps, index, column, order, hp => by
    have hfirst := onScan_ensureSortOrder p index column order (hp p List.mem_cons_self)
    have hps : ∀ q ∈ ps, q.OnScan := fun q hq => hp q (List.mem_cons_of_mem p hq)
    rw [ensureSortOrders]
    dsimp only
    split
    · rintro q (_ | ⟨_, hq⟩)
      · exact hfirst
      · exact onScan_ensureSortOrders ps index column order hps q hq
    · rintro q (_ | ⟨_, hq⟩)
      · exact hfirst
      · exact hps q hq

theorem listed_ensureSortOrder : ∀ (p : Plan) (index : Nat) (column : Bytes) (order : SortOrder), p.Listed →
    (p.ensureSortOrder index column order).2.Listed
  | empty, _, _, _, _ => trivial
  | showTables _, _, _, _, _ => trivial
  | showColumns _, _, _, _, _ => trivial
  | const _, _, _, _, _ => trivial
  | readFile _, _, _, _, _ => trivial
  | scan _ _, _, _, _, _ => trivial
  | unionAll hasOrder _ plans, index, column, order, hp => by
    cases hasOrder with
    | true => exact onScan_ensureSortOrders plans index column order hp
    | false => exact hp
  | filter _ child, index, column, order, hp => listed_ensureSortOrder child index column order hp
  | groupBy _ _, _, _, _, _ => trivial
  | sort _ _, _, _, _, hp => hp
  | limit _ child, index, column, order, hp => listed_ensureSortOrder child index column order hp
  | projection plan _, _, column, _, hp => by
    rw [ensureSortOrder]
    split
    · exact hp
    · exact hp

/-- A column that is listed is found, unless there is an exception. -/
theorem found_of_listed : ∀ (p : Plan) {name : Bytes} {r : Option Nat × Plan}, p.Listed → name ∈ p.getAllColumns →
    p.addProjection (nameNode name) = .ok r → r.1 ≠ none
  | showTables _, _, _, _, hmem, h => by
    cases h
    exact indexOfName_ne_none hmem (beq_self_eq_true _)
  | showColumns _, _, _, _, hmem, h => by
    cases h
    exact indexOfName_ne_none hmem (beq_self_eq_true _)
  | const plan, _, _, _, hmem, h => by
    cases h
    exact indexOfName_ne_none hmem (beq_self_eq_true _)
  | readFile plan, _, _, _, hmem, h => by
    cases h
    exact indexOfName_ne_none hmem (beq_self_eq_true _)
  | scan plan _, _, _, _, _, h => by
    obtain ⟨⟨i, plan'⟩, h1, h⟩ := bind_eq_ok.mp h
    cases h
    exact LevelDBScanPlan.addProjection_name rfl h1
  | unionAll _ _ plans, _, _, hp, hmem, h => by
    obtain ⟨⟨i, plans'⟩, h1, h⟩ := bind_eq_ok.mp h
    cases h
    have hne : plans ≠ [] := by
      rintro rfl
      cases hmem
    have hfound := onScan_foundAll plans none hp rfl hne h1
    exact hfound
  | filter _ child, _, _, hp, hmem, h => by
    obtain ⟨⟨i, child'⟩, h1, h⟩ := bind_eq_ok.mp h
    cases h
    have hchild := found_of_listed child hp hmem h1
    exact hchild
  | groupBy plan child, _, _, _, _, h => by
    obtain ⟨⟨i, plan', child'⟩, h1, h⟩ := bind_eq_ok.mp h
    cases h
    obtain ⟨⟨index, child2⟩, -, h1⟩ := bind_eq_ok.mp h1
    cases index with
    | none => cases h1
    | some i =>
      cases h1
      simp
  | sort plan child, _, _, hp, hmem, h => by
    obtain ⟨⟨i, plan', child'⟩, h1, h⟩ := bind_eq_ok.mp h
    cases h
    obtain ⟨⟨index, child2⟩, h2, h1⟩ := bind_eq_ok.mp h1
    have hchild := found_of_listed child hp hmem h2
    cases index with
    | none => exact absurd rfl hchild
    | some i =>
      cases h1
      simp
  | limit _ child, _, _, hp, hmem, h => by
    obtain ⟨⟨i, child'⟩, h1, h⟩ := bind_eq_ok.mp h
    cases h
    have hchild := found_of_listed child hp hmem h1
    exact hchild
  | projection plan _, name, _, hp, hmem, h => by
    cases h
    exact fun hnone => (hp name).mp hnone hmem

theorem listed_of_isSubquery {p : Plan} (h : p.IsSubquery) : p.Listed := by
  cases p with
  | projection plan child => exact h.selected
  | unionAll | filter | sort | limit => cases h.leaf
  | _ => trivial

theorem listed_ofScan (info : ScanPlanInfo) : (ofScan info).Listed ∧ (ofScan info).OnScan := by
  rw [ofScan]
  split
  · exact ⟨trivial, trivial⟩
  · exact ⟨trivial, trivial⟩

theorem listed_ofSelect (plan : SelectPlan) : (ofSelect plan).Listed := by
  cases plan with
  | single info => exact (listed_ofScan info).1
  | unionAll plans =>
    intro p hp
    obtain ⟨info, -, rfl⟩ := List.mem_map.mp hp
    exact (listed_ofScan info).2

end Plan

namespace FilterPlan

variable {σ ρ : Type} {ops : PlanOps σ ρ} {P : σ → Prop}

/-- What `addProjection` keeps of the child, a filter keeps. -/
theorem addComparison_keeps (hops : ∀ plan n r, P plan → ops.addProjection plan n = .ok r → P r.2) {pPredicate : ParseNode}
    {plan : σ} {r : PredicateInfo × σ} (hp : P plan) (h : addComparison conv ops pPredicate plan = .ok r) : P r.2 := by
  obtain ⟨⟨l, plan1⟩, h1, h⟩ := bind_eq_ok.mp h
  obtain ⟨⟨r, plan2⟩, h2, h⟩ := bind_eq_ok.mp h
  have hp1 := hops _ _ _ hp h1
  have hp2 := hops _ _ _ hp1 h2
  dsimp only at h
  split at h
  · cases h
  · obtain ⟨lc, -, h⟩ := bind_eq_ok.mp h
    obtain ⟨rc, -, h⟩ := bind_eq_ok.mp h
    cases h
    exact hp2

mutual

theorem doAddPredicate_keeps (hops : ∀ plan n r, P plan → ops.addProjection plan n = .ok r → P r.2) (pIgnore : List Bytes) :
    ∀ (pNode : ParseNode) (s : List PredicateInfo × σ) {r : List PredicateInfo × σ}, P s.2 →
      doAddPredicate conv ops pIgnore pNode s = .ok r → P r.2
  | .null, _, _, _, h => nomatch h
  | .node type op sExpr sValue children, s, r, hp, h => by
    rw [doAddPredicate] at h
    split at h
    · cases h
    · split at h
      · exact doAddPredicates_keeps hops pIgnore children s hp h
      · split at h
        · cases h
        · split at h
          · cases h
            exact hp
          · obtain ⟨⟨info, plan⟩, hadd, h⟩ := bind_eq_ok.mp h
            cases h
            have hplan := addComparison_keeps hops hp hadd
            exact hplan

theorem doAddPredicates_keeps (hops : ∀ plan n r, P plan → ops.addProjection plan n = .ok r → P r.2) (pIgnore : List Bytes) :
    ∀ (cs : List ParseNode) (s : List PredicateInfo × σ) {r : List PredicateInfo × σ}, P s.2 →
      doAddPredicates conv ops pIgnore cs s = .ok r → P r.2
  | [], _, _, hp, h => by
    cases h
    exact hp
  | c :: cs, s, r, hp, h => by
    obtain ⟨s1, h1, h⟩ := bind_eq_ok.mp h
    exact doAddPredicates_keeps hops pIgnore cs s1 (doAddPredicate_keeps hops pIgnore c s hp h1) h

end

theorem addPredicates_keeps (hops : ∀ plan n r, P plan → ops.addProjection plan n = .ok r → P r.2) :
    ∀ (cs : List ParseNode) {plan : σ} {r : List (List PredicateInfo) × σ}, P plan →
      addPredicates conv ops cs plan = .ok r → P r.2
  | [], _, _, hp, h => by
    cases h
    exact hp
  | c :: cs, plan, r, hp, h => by
    obtain ⟨⟨infos, plan1⟩, h1, h⟩ := bind_eq_ok.mp h
    have hp1 := doAddPredicate_keeps hops [] c _ hp h1
    obtain ⟨⟨rest, plan2⟩, h2, h⟩ := bind_eq_ok.mp h
    have hp2 := addPredicates_keeps hops cs hp1 h2
    cases h
    exact hp2

theorem setPredicate_keeps (hops : ∀ plan n r, P plan → ops.addProjection plan n = .ok r → P r.2) {pNode : ParseNode}
    {plan : σ} {r : List (List PredicateInfo) × σ} (hp : P plan) (h : setPredicate conv ops pNode plan = .ok r) : P r.2 := by
  rw [setPredicate] at h
  split at h
  · exact addPredicates_keeps hops _ hp h
  · exact addPredicates_keeps hops _ hp h

end FilterPlan

namespace SelectPlanBuilder

open Plan

/-- What filters, sorts and the calls of the other clauses keep. -/
structure Kept (P : Plan → Prop) : Prop where
  extends_ : ∀ p q, Extends p q → P p → P q
  ensureSortOrder : ∀ p index column order, P p → P (p.ensureSortOrder index column order).2
  filter : ∀ infos p, P p → P (.filter infos p)
  sort : ∀ plan p, P p → P (.sort plan p)

namespace Kept

variable {P : Plan → Prop} (hk : Kept P)

include hk

theorem buildPlanForFilter {pNode : ParseNode} {plan p : Plan} (hp : P plan)
    (h : SelectPlanBuilder.buildPlanForFilter conv pNode plan = .ok p) : P p := by
  cases pNode with
  | null =>
    cases h
    exact hp
  | node =>
    obtain ⟨⟨infos, child⟩, h1, h⟩ := bind_eq_ok.mp h
    cases h
    exact hk.filter infos child (FilterPlan.setPredicate_keeps
      (fun plan n r hp h => hk.extends_ plan r.2 (extends_of_addProjection h) hp) hp h1)

theorem buildFrom {pTable pPredicate : ParseNode} {subplan : Fallible Plan} {p : Plan}
    (hsub : pTable.type ≠ .name → ∀ q, subplan = .ok q → P q)
    (htable : pTable.type = .name → (∀ plan, P (ofSelect plan)) ∧ ∀ plan, P (.readFile plan))
    (h : SelectPlanBuilder.buildFrom conv std config pTable pPredicate subplan = .ok p) : P p := by
  rw [SelectPlanBuilder.buildFrom] at h
  split at h
  · next htype =>
    obtain ⟨q, hq, h⟩ := bind_eq_ok.mp h
    exact hk.buildPlanForFilter (hsub htype q hq) h
  · next htype =>
    obtain ⟨hselect, hread⟩ := htable (not_not.mp htype)
    split at h
    · cases h
    · split at h
      · obtain ⟨plan, -, h⟩ := bind_eq_ok.mp h
        cases h
        exact hselect plan
      · obtain ⟨q, hq, h⟩ := bind_eq_ok.mp h
        refine hk.buildPlanForFilter ?_ h
        obtain ⟨path, -, hq⟩ := bind_eq_ok.mp hq
        obtain ⟨plan, -, hq⟩ := bind_eq_ok.mp hq
        cases hq
        exact hread _

theorem askOrder : ∀ (cs : List ParseNode) (index : Nat) (plan : Plan), P plan → P (SelectPlanBuilder.askOrder index cs plan).2
  | [], _, _, hp => hp
  | c :: cs, index, plan, hp => by
    have hfirst := hk.ensureSortOrder plan index (c.getChild 0).getString (sortOrder c) hp
    rw [SelectPlanBuilder.askOrder]
    split
    · exact askOrder cs (index + 1) _ hfirst
    · exact hfirst

theorem addSortSpecifications {column : ParseNode → ParseNode} {order : ParseNode → SortOrder} :
    ∀ (cs : List ParseNode) {plan : SortPlan} {child : Plan} {r : SortPlan × Plan}, P child →
      SelectPlanBuilder.addSortSpecifications column order cs plan child = .ok r → P r.2
  | [], _, _, _, hp, h => by
    cases h
    exact hp
  | c :: cs, plan, child, r, hp, h => by
    obtain ⟨⟨plan1, child1⟩, h1, h⟩ := bind_eq_ok.mp h
    refine addSortSpecifications cs ?_ h
    obtain ⟨⟨index, plan2, child2⟩, h2, h1⟩ := bind_eq_ok.mp h1
    obtain ⟨⟨i, child3⟩, h3, h2⟩ := bind_eq_ok.mp h2
    have hchild := hk.extends_ child child3 (extends_of_addProjection h3) hp
    cases i with
    | none =>
      cases h2
      cases h1
    | some i =>
      cases h2
      cases h1
      exact hchild

theorem buildPlanForOrderBy {pNode : ParseNode} {plan p : Plan} (hp : P plan)
    (h : SelectPlanBuilder.buildPlanForOrderBy pNode plan = .ok p) : P p := by
  cases pNode with
  | null =>
    cases h
    exact hp
  | node type op sExpr sValue children =>
    have hask := hk.askOrder (ParseNode.children (.node type op sExpr sValue children)) 0 plan hp
    simp only [SelectPlanBuilder.buildPlanForOrderBy] at h
    split at h
    · cases h
      exact hask
    · obtain ⟨⟨sort, child⟩, h1, h⟩ := bind_eq_ok.mp h
      cases h
      exact hk.sort sort child (hk.addSortSpecifications _ hask h1)

end Kept

theorem listed_kept : Kept Listed where
  extends_ _ _ h hp := h.listed hp
  ensureSortOrder := listed_ensureSortOrder
  filter _ _ hp := hp
  sort _ _ hp := hp

theorem buildPlanForGroupBy_listed {pNode : ParseNode} {plan p : Plan} (hp : plan.Listed)
    (h : buildPlanForGroupBy pNode plan = .ok p) : p.Listed := by
  cases pNode with
  | null =>
    cases h
    exact hp
  | node =>
    obtain ⟨⟨needSort, plan1⟩, -, h⟩ := bind_eq_ok.mp h
    dsimp only at h
    split at h
    · obtain ⟨⟨sort, child⟩, -, h⟩ := bind_eq_ok.mp h
      obtain ⟨sorted, -, h⟩ := bind_eq_ok.mp h
      obtain ⟨⟨groupBy, child1⟩, -, h⟩ := bind_eq_ok.mp h
      cases h
      trivial
    · obtain ⟨sorted, -, h⟩ := bind_eq_ok.mp h
      obtain ⟨⟨groupBy, child1⟩, -, h⟩ := bind_eq_ok.mp h
      cases h
      trivial

theorem buildPlanForLimit_cases {pNode : ParseNode} {plan p : Plan} (h : buildPlanForLimit conv pNode plan = .ok p) :
    pNode = .null ∧ p = plan ∨ pNode ≠ .null ∧ ∃ limit, p = .limit limit plan := by
  cases pNode with
  | null =>
    cases h
    exact .inl ⟨rfl, rfl⟩
  | node =>
    obtain ⟨offset, -, h⟩ := bind_eq_ok.mp h
    obtain ⟨count, -, h⟩ := bind_eq_ok.mp h
    cases h
    exact .inr ⟨by simp, _, rfl⟩

/-! A select list has a column. -/

theorem project_length {σ : Type} {add : ParseNode → Fallible (Option Nat × σ)} {plan plan' : ProjectionPlan} {child child' : σ}
    {pNode : ParseNode} {sName : Bytes} {ok : Bool} (h : plan.project add child pNode sName = .ok (ok, plan', child')) :
    plan.proj.length ≤ plan'.proj.length ∧ (ok = true → 0 < plan'.proj.length) := by
  rw [ProjectionPlan.project] at h
  split at h
  · obtain ⟨⟨index, c⟩, -, h⟩ := bind_eq_ok.mp h
    cases index with
    | none =>
      cases h
      exact ⟨le_rfl, fun hok => by cases hok⟩
    | some i =>
      cases h
      simp [ProjectionPlan.push]
  · split at h
    · cases h
      exact ⟨le_rfl, fun hok => by cases hok⟩
    · cases h
      simp [ProjectionPlan.push]

theorem projectColumns_length : ∀ (columns : List Bytes) {plan : ProjectionPlan} {child : Plan} {r : ProjectionPlan × Plan},
    projectColumns columns plan child = .ok r → plan.proj.length ≤ r.1.proj.length
  | [], _, _, _, h => by
    cases h
    exact le_rfl
  | _ :: columns, _, _, _, h => by
    obtain ⟨⟨ok, plan1, child1⟩, h1, h⟩ := bind_eq_ok.mp h
    exact (project_length h1).1.trans (projectColumns_length columns h)

theorem projectColumn_length {pNode : ParseNode} {plan : ProjectionPlan} {child : Plan} {r : ProjectionPlan × Plan}
    (h : projectColumn pNode plan child = .ok r) : 0 < r.1.proj.length := by
  rw [projectColumn] at h
  generalize aliased pNode = column at h
  obtain ⟨⟨ok, plan1, child1⟩, h1, h⟩ := bind_eq_ok.mp h
  dsimp only at h
  split at h
  · next hok =>
    cases h
    exact (project_length h1).2 hok
  · split at h
    · cases h
    · obtain ⟨r, -, h⟩ := bind_eq_ok.mp h
      cases r with
      | none => cases h
      | some r =>
        obtain ⟨⟨ok3, plan3, child3⟩, h3, h⟩ := bind_eq_ok.mp h
        dsimp only at h
        split at h
        · next hok =>
          cases h
          exact (project_length h3).2 hok
        · cases h

theorem projectList_pos : ∀ (columns : List ParseNode) {plan : ProjectionPlan} {child : Plan} {r : ProjectionPlan × Plan},
    columns ≠ [] → projectList columns plan child = .ok r → 0 < r.1.proj.length
  | [], _, _, _, hne, _ => absurd rfl hne
  | c :: columns, _, _, _, _, h => by
    obtain ⟨⟨plan1, child1⟩, h1, h⟩ := bind_eq_ok.mp h
    have hfirst := projectColumn_length h1
    cases columns with
    | nil =>
      cases h
      exact hfirst
    | cons d ds => exact projectList_pos (d :: ds) (by simp) h

/-- The select lists that the grammar has: a star, or some expressions. -/
def IsSelectList (pNode : ParseNode) : Prop := isAllColumns pNode = true ∨ pNode.children ≠ []

theorem buildPlanForProjection_columns {pNode : ParseNode} {plan p : Plan} (hlist : IsSelectList pNode) (hp : plan.Listed)
    (h : buildPlanForProjection pNode plan = .ok p) : 0 < p.getResultColumns := by
  rw [buildPlanForProjection] at h
  split at h
  · dsimp only at h
    split at h
    · cases h
    · next hne =>
      obtain ⟨column, columns, hcolumns⟩ := List.exists_cons_of_ne_nil hne
      rw [hcolumns] at h
      obtain ⟨⟨proj, child⟩, h1, h⟩ := bind_eq_ok.mp h
      cases h
      obtain ⟨⟨ok, plan1, child1⟩, h2, h1⟩ := bind_eq_ok.mp h1
      obtain ⟨⟨index, child2⟩, h3, h2⟩ := bind_eq_ok.mp h2
      have hfound := found_of_listed plan hp (by rw [hcolumns]; exact List.mem_cons_self) h3
      cases index with
      | none => exact absurd rfl hfound
      | some i =>
        cases h2
        have hlength := projectColumns_length columns h1
        exact lt_of_lt_of_le Nat.one_pos hlength
  · next hstar =>
    obtain ⟨⟨proj, child⟩, h1, h⟩ := bind_eq_ok.mp h
    cases h
    exact projectList_pos _ (hlist.resolve_left hstar) h1

theorem build_columns {c : Clauses} {subplan : Fallible Plan} {p : Plan} (hlist : IsSelectList c.project)
    (hsub : ∀ q, subplan = .ok q → q.IsSubquery) (hfalse : c.predicate.isFalseConst = false)
    (h : build conv std config c subplan = .ok p) : 0 < p.getResultColumns := by
  rw [build, if_neg (Bool.eq_false_iff.mp hfalse)] at h
  obtain ⟨plan, h1, h⟩ := bind_eq_ok.mp h
  obtain ⟨grouped, h2, h⟩ := bind_eq_ok.mp h
  obtain ⟨filtered, h3, h⟩ := bind_eq_ok.mp h
  obtain ⟨ordered, h4, h⟩ := bind_eq_ok.mp h
  obtain ⟨limited, h5, h⟩ := bind_eq_ok.mp h
  have hplan := listed_kept.buildFrom (fun _ q hq => listed_of_isSubquery (hsub q hq))
    (fun _ => ⟨listed_ofSelect, fun _ => trivial⟩) h1
  have hgrouped := buildPlanForGroupBy_listed hplan h2
  have hordered := listed_kept.buildPlanForOrderBy (listed_kept.buildPlanForFilter hgrouped h3) h4
  have hlimited : limited.Listed := by
    obtain ⟨-, rfl⟩ | ⟨-, limit, rfl⟩ := buildPlanForLimit_cases h5
    · exact hordered
    · exact hordered
  exact buildPlanForProjection_columns hlist hlimited h

end SelectPlanBuilder

namespace EmptySelect

/-- Where a SELECT stands: alone, in the FROM clause of another one, or behind INSERT INTO. -/
inductive Context
  | top
  | subquery (outer : Clauses) (context : Context)
  | insert (t : TableInfo) (db : LevelDB)

structure Answer where
  columns : List (Bytes × DBDataType)
  rows : List (List (Fallible ExecutionResult))
  fault : Option Fault
  info : Bytes

/-- The answer to a query, or the table and the number of rows after an INSERT. -/
inductive Observed
  | answer (a : Fallible Answer)
  | table (r : Fallible (LevelDB × Nat))

variable (conv std config) (st : Storage)

def answer (plan : Plan) : Fallible Answer := do
  let columns ← (List.range plan.getResultColumns).mapM fun i => do
    let type ← plan.columnType i
    let name ← plan.getProjectionName i
    return (name, type)
  return {
    columns
    rows := (plan.run conv std st).rows.map fun row => columns.zipIdx.map fun c => row c.2 c.1.2
    fault := (plan.run conv std st).fault
    info := plan.getInfoString conv std st 0 }

def readRows (t : TableInfo) (fault : Option Fault) : List Row → Run (List ExecutionResult)
  | [] => ⟨[], fault⟩
  | row :: rows =>
    match t.columns.zipIdx.mapM fun c => row c.2 c.1.type with
    | .ok results => .cons results (readRows t fault rows)
    | .error f => .failed f

def observe : Context → ParseNode → Observed
  | .top, q => .answer (do
    let plan ← BuildPlan.buildPlan conv std config q
    answer conv std st plan)
  | .subquery outer context, q => observe context (Clauses.node { outer with table := q })
  | .insert t db, q => .table (do
    let plan ← BuildPlan.buildPlan conv std config q
    let run := plan.run conv std st
    (LevelDBInsertPlan.create t).run conv plan.getResultColumns (readRows t run.fault run.rows) db)

/-- The SELECT with `w` and the SELECT with `f` for a WHERE clause cannot be told apart. -/
def Invisible (c : Clauses) (w f : ParseNode) : Prop :=
  ∀ context, observe conv std config st context (Clauses.node { c with predicate := w }) =
    observe conv std config st context (Clauses.node { c with predicate := f })

variable {conv std config}

theorem buildPlan_node (c : Clauses) :
    BuildPlan.buildPlan conv std config c.node = build conv std config c (BuildPlan.buildPlan conv std config c.table) := rfl

theorem answer_columns {plan : Plan} {a : Answer} (h : answer conv std st plan = .ok a) :
    a.columns.length = plan.getResultColumns := by
  obtain ⟨columns, hcolumns, h⟩ := bind_eq_ok.mp h
  cases h
  have hlength := (forall₂_of_mapM_ok hcolumns).length_eq
  rw [List.length_range] at hlength
  exact hlength.symm

/-- The constant false can be told from every other WHERE clause: the query has no columns then. -/
theorem not_invisible (c : Clauses) {w f : ParseNode} (hlist : IsSelectList c.project) (hw : w.isFalseConst = false)
    (hf : f.isFalseConst = true) : ¬ Invisible conv std config st c w f := by
  intro h
  have hempty : BuildPlan.buildPlan conv std config (Clauses.node { c with predicate := f }) = .ok .empty := by
    rw [buildPlan_node, build, if_pos hf]
  have htop := h .top
  rw [observe, observe, hempty] at htop
  obtain ⟨p, hp, ha⟩ := bind_eq_ok.mp (Observed.answer.inj htop)
  have hpos := build_columns (c := { c with predicate := w }) hlist (fun q hq => BuildPlan.buildPlan_isSubquery hq) hw hp
  have hlength := answer_columns st ha
  change 0 = p.getResultColumns at hlength
  omega

/-- `select c1 from (values ('a')) where c1 = 'b'`. -/
def noneEqual : Clauses where
  project := .node .list .none (bytes "c1") (bytes "ExprList") [Plan.nameOf "c1"]
  table := valuesNode [[FilterPlan.stringNode "a"]]
  predicate := FilterPlan.equalNode "c1" "b"

def falseNode : ParseNode := .node .int .none (bytes "false") (bytes "0") []

theorem not_invisible_noneEqual :
    ¬ Invisible digitConversions insertionSort ⟨[]⟩ .empty noneEqual (FilterPlan.equalNode "c1" "b") falseNode :=
  not_invisible .empty noneEqual (.inr (by simp [noneEqual, ParseNode.children])) rfl rfl

/-- Behind an INSERT the comparison that no row satisfies inserts nothing, and the constant false is an error. -/
theorem insert_where_false :
    ¬ (observe digitConversions insertionSort ⟨[]⟩ .empty (.insert ScanPlanInfo.nameTable []) noneEqual.node =
      observe digitConversions insertionSort ⟨[]⟩ .empty (.insert ScanPlanInfo.nameTable [])
        (Clauses.node { noneEqual with predicate := falseNode })) := by
  intro h
  have hok : observe digitConversions insertionSort ⟨[]⟩ .empty (.insert ScanPlanInfo.nameTable []) noneEqual.node =
      .table (.ok ([], 0)) := by
    rfl
  rw [hok] at h
  cases Observed.table.inj h

end EmptySelect

end LevelPgServer
