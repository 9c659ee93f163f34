import LevelPgServer.Execution.ProjectionIndexes
import LevelPgServer.Lib.ExceptRules
import LevelPgServer.PlanBuilder.SelectPlanBuilder

/-! Constants in a WHERE clause over a subquery. -/

namespace LevelPgServer

open ParseNode LevelDBPlanBuilder FilterPlan ExceptRules

variable {conv : Conversions} {std : StdSort} {config : MetaConfig}

namespace ProjectionPlan

def Mapped (plan : ProjectionPlan) : Prop :=
  ∀ name, plan.find name = none ↔ name ∉ plan.proj.map ProjectionInfo.name

theorem mapped_nil : Mapped {} := fun _ => ⟨fun _ => List.not_mem_nil, fun _ => rfl⟩

variable {plan plan' : ProjectionPlan}

theorem Mapped.push (h : plan.Mapped) (subIndex : Option Nat) (pNode : ParseNode) (sName : Bytes) :
    (plan.push subIndex pNode sName).Mapped := by
  intro name
  have hproj : (plan.push subIndex pNode sName).proj.map ProjectionInfo.name = plan.proj.map ProjectionInfo.name ++ [sName] := by
    rw [ProjectionPlan.push, List.map_append]
    rfl
  have hfind : (plan.push subIndex pNode sName).find name =
      if name = sName then some plan.proj.length else plan.find name := by
    rw [find, find, ProjectionPlan.push, List.lookup_cons]
    by_cases hname : name = sName
    · rw [if_pos hname, beq_iff_eq.mpr hname]
    · rw [if_neg hname, beq_eq_false_iff_ne.mpr hname]
  rw [hproj, hfind, List.mem_append, List.mem_singleton, not_or]
  by_cases hname : name = sName
  · rw [if_pos hname]
    exact ⟨fun hn => (by cases hn), fun hn => absurd hname hn.2⟩
  · rw [if_neg hname, h name]
    exact ⟨fun hn => ⟨hn, hname⟩, fun hn => hn.1⟩

theorem Mapped.project {σ : Type} {add : ParseNode → Fallible (Option Nat × σ)} {child child' : σ} {pNode : ParseNode}
    {sName : Bytes} {ok : Bool} (h : plan.Mapped) (hp : plan.project add child pNode sName = .ok (ok, plan', child')) :
    plan'.Mapped := by
  rw [ProjectionPlan.project] at hp
  split at hp
  · obtain ⟨⟨index, c⟩, -, hp⟩ := bind_eq_ok.mp hp
    cases index with
    | none =>
      cases hp
      exact h
    | some i =>
      cases hp
      exact h.push (some i) pNode sName
  · split at hp
    · cases hp
      exact h
    · cases hp
      exact h.push none pNode sName

theorem projectAgain_names {σ : Type} {add : ParseNode → σ → Fallible (Option Nat × σ)} : ∀ (projs : List ProjectionInfo)
    (child : σ) (r : List ProjectionInfo × σ), projectAgain add projs child = .ok (some r) →
      r.1.map ProjectionInfo.name = projs.map ProjectionInfo.name
  | [], _, _, h => by
    cases h
    rfl
  | proj :: projs, child, r, h => by
    obtain ⟨⟨index, c⟩, -, h⟩ := bind_eq_ok.mp h
    cases index with
    | none => cases h
    | some i =>
      obtain ⟨rest, hrest, h⟩ := bind_eq_ok.mp h
      cases rest with
      | none => cases h
      | some rest =>
        cases h
        have ih := projectAgain_names projs c rest hrest
        rw [List.map_cons, List.map_cons, ih]

end ProjectionPlan

namespace Plan

def selectList : Plan → List Bytes
  | projection plan _ => plan.proj.map ProjectionInfo.name
  | _ => []

def selected : Plan → Bytes → Option Nat
  | projection plan _, name => plan.find name
  | _, _ => none

variable {p : Plan} {n : ParseNode}

theorem type_ne_name (hn : n.isConst = true) : n.type ≠ .name := by
  intro htype
  rw [isConst, htype] at hn
  cases hn

/-- A leaf takes a constant for a column where a select list has its text as a name. -/
theorem project_const (hp : p.isLeaf = true) (hn : n.isConst = true) :
    p.addProjection n = .ok (p.selected n.getString, p) := by
  have hname := type_ne_name hn
  cases p with
  | empty => rfl
  | showTables tables =>
    rw [addProjection, ShowTables.addProjection, if_neg hname]
    rfl
  | showColumns pEntry =>
    rw [addProjection, ShowColumns.addProjection, if_neg hname]
    rfl
  | const plan =>
    rw [addProjection, ConstPlan.addProjection, if_neg hname]
    rfl
  | readFile plan =>
    rw [addProjection, ReadFilePlan.addProjection, if_neg hname]
    rfl
  | projection plan child => rfl
  | _ => cases hp

theorem addProjection_leaf (hp : p.isLeaf = true) (n : ParseNode) : ∃ r, p.addProjection n = .ok (r, p) := by
  cases p with
  | empty => exact ⟨_, rfl⟩
  | showTables tables => exact ⟨_, rfl⟩
  | showColumns pEntry => exact ⟨_, rfl⟩
  | const plan => exact ⟨_, rfl⟩
  | readFile plan => exact ⟨_, rfl⟩
  | projection plan child => exact ⟨_, rfl⟩
  | _ => cases hp

/-- A plan with a select list on top, or a plan without a child. -/
structure IsSubquery (p : Plan) : Prop where
  leaf : p.isLeaf = true
  selected : ∀ name, p.selected name = none ↔ name ∉ p.selectList

theorem IsSubquery.of_nil {p : Plan} (hp : p.isLeaf = true) (hlist : p.selectList = []) (hnone : ∀ name, p.selected name = none) :
    p.IsSubquery :=
  ⟨hp, fun name => ⟨fun _ => hlist ▸ List.not_mem_nil, fun _ => hnone name⟩⟩

theorem isSubquery_projection {plan : ProjectionPlan} (h : plan.Mapped) (child : Plan) : (projection plan child).IsSubquery :=
  ⟨rfl, h⟩

end Plan

namespace BuildPlan

open SelectPlanBuilder ProjectionPlan

theorem projectColumns_mapped : ∀ (columns : List Bytes) {plan plan' : ProjectionPlan} {child child' : Plan}, plan.Mapped →
    projectColumns columns plan child = .ok (plan', child') → plan'.Mapped
  | [], _, _, _, _, hm, h => by
    cases h
    exact hm
  | _ :: columns, _, _, _, _, hm, h => by
    obtain ⟨⟨ok, plan1, child1⟩, h1, h⟩ := bind_eq_ok.mp h
    exact projectColumns_mapped columns (hm.project h1) h

theorem addGroupBy_mapped {plan plan' : ProjectionPlan} {child child' : Plan} (hm : plan.Mapped)
    (h : addGroupBy plan child = .ok (some (plan', child'))) : plan'.Mapped := by
  obtain ⟨r, hr, h⟩ := bind_eq_ok.mp h
  cases r with
  | none => cases h
  | some r =>
    cases h
    intro name
    rw [projectAgain_names _ _ _ hr]
    exact hm name

theorem projectColumn_mapped {pNode : ParseNode} {plan plan' : ProjectionPlan} {child child' : Plan} (hm : plan.Mapped)
    (h : projectColumn pNode plan child = .ok (plan', child')) : plan'.Mapped := by
  rw [projectColumn] at h
  generalize aliased pNode = column at h
  obtain ⟨⟨ok, plan1, child1⟩, h1, h⟩ := bind_eq_ok.mp h
  dsimp only at h
  split at h
  · cases h
    exact hm.project h1
  · split at h
    · cases h
    · obtain ⟨r, hr, h⟩ := bind_eq_ok.mp h
      cases r with
      | none => cases h
      | some r =>
        have hm2 := addGroupBy_mapped (hm.project h1) hr
        obtain ⟨⟨ok3, plan3, child3⟩, h3, h⟩ := bind_eq_ok.mp h
        dsimp only at h
        split at h
        · cases h
          exact hm2.project h3
        · cases h

theorem projectList_mapped : ∀ (columns : List ParseNode) {plan plan' : ProjectionPlan} {child child' : Plan}, plan.Mapped →
    projectList columns plan child = .ok (plan', child') → plan'.Mapped
  | [], _, _, _, _, hm, h => by
    cases h
    exact hm
  | _ :: columns, _, _, _, _, hm, h => by
    obtain ⟨⟨plan1, child1⟩, h1, h⟩ := bind_eq_ok.mp h
    exact projectList_mapped columns (projectColumn_mapped hm h1) h

theorem buildPlanForProjection_isSubquery {pNode : ParseNode} {plan p : Plan} (h : buildPlanForProjection pNode plan = .ok p) :
    p.IsSubquery := by
  rw [buildPlanForProjection] at h
  split at h
  · dsimp only at h
    split at h
    · cases h
    · obtain ⟨⟨plan, child⟩, h1, h⟩ := bind_eq_ok.mp h
      cases h
      exact Plan.isSubquery_projection (projectColumns_mapped _ mapped_nil h1) child
  · obtain ⟨⟨plan, child⟩, h1, h⟩ := bind_eq_ok.mp h
    cases h
    exact Plan.isSubquery_projection (projectList_mapped _ mapped_nil h1) child

theorem build_isSubquery {c : Clauses} {subplan : Fallible Plan} {p : Plan} (h : build conv std config c subplan = .ok p) :
    p.IsSubquery := by
  rw [build] at h
  split at h
  · cases h
    exact .of_nil rfl rfl (fun _ => rfl)
  · obtain ⟨plan, -, h⟩ := bind_eq_ok.mp h
    rw [buildClauses] at h
    obtain ⟨plan, -, h⟩ := bind_eq_ok.mp h
    obtain ⟨plan, -, h⟩ := bind_eq_ok.mp h
    obtain ⟨plan, -, h⟩ := bind_eq_ok.mp h
    obtain ⟨plan, -, h⟩ := bind_eq_ok.mp h
    exact buildPlanForProjection_isSubquery h

theorem buildPlan_isSubquery {q : ParseNode} {p : Plan} (h : buildPlan conv std config q = .ok p) : p.IsSubquery := by
  cases q with
  | null => cases h
  | node type op sExpr sValue children =>
    cases op with
    | showTables =>
      cases h
      exact .of_nil rfl rfl (fun _ => rfl)
    | descTable =>
      have h : buildPlanForDesc config (.node type .descTable sExpr sValue children) = .ok p := h
      rw [buildPlanForDesc] at h
      split at h
      · cases h
      · cases h
        exact .of_nil rfl rfl (fun _ => rfl)
    | select => exact build_isSubquery h
    | values =>
      obtain ⟨plan, -, h⟩ := bind_eq_ok.mp h
      cases h
      exact .of_nil rfl rfl (fun _ => rfl)
    | _ => cases h

end BuildPlan

namespace FilterPlan

mutual

/-- The comparisons of a conjunction, from left to right. -/
def comparisons : ParseNode → List ParseNode
  | .null => []
  | .node type op sExpr sValue children =>
    if op = .and then comparisonsOf children else [.node type op sExpr sValue children]

def comparisonsOf : List ParseNode → List ParseNode
  | [] => []
  | c :: cs => comparisons c ++ comparisonsOf cs

end

def compared (pNode : ParseNode) : List ParseNode :=
  if pNode.getOp = .or then comparisonsOf pNode.children else comparisons pNode

/-- A comparison of a column with the constant `n`; `left` says that the column is on the left. -/
structure Operands (pPredicate : ParseNode) (left : Bool) (pColumn n : ParseNode) : Prop where
  leftChild : pPredicate.getChild 0 = if left then pColumn else n
  rightChild : pPredicate.getChild 1 = if left then n else pColumn
  isConst : n.isConst = true
  isColumn : pColumn.isConst = false

variable {p p' : Plan} {pPredicate : ParseNode} {info : PredicateInfo}

/-- Every comparison of a column with a constant tests the value of the column against that of
the constant, and the constant is no column. -/
def ComparesConstants (conv : Conversions) (p : Plan) (pPredicate : ParseNode) (info : PredicateInfo) : Prop :=
  ∀ left pColumn n i, Operands pPredicate left pColumn n → p.addProjection pColumn = .ok (some i, p) →
    (if left then info.rightIndex else info.leftIndex) = none ∧
      ∃ type c, p.columnType i = .ok type ∧ DBDataTypeHandler.fromNode conv type n = .ok c ∧
        ∀ row : Row, evaluate conv Plan.ops p row info = (do
          let r ← row i type
          if left then test conv type pPredicate.getOp pPredicate.sExpr r c
          else test conv type pPredicate.getOp pPredicate.sExpr c r)

/-- No constant that is compared with a column has the name of a column of the select list. -/
def Unnamed (p : Plan) (pPredicate : ParseNode) : Prop :=
  ∀ left pColumn n i, Operands pPredicate left pColumn n → p.addProjection pColumn = .ok (some i, p) →
    n.getString ∉ p.selectList

/-- What `addComparison` notes down on a leaf. -/
structure Noted (conv : Conversions) (p : Plan) (pPredicate : ParseNode) (info : PredicateInfo) : Prop where
  leftIndex : p.addProjection (pPredicate.getChild 0) = .ok (info.leftIndex, p)
  rightIndex : p.addProjection (pPredicate.getChild 1) = .ok (info.rightIndex, p)
  leftConst : constOperand conv Plan.ops p pPredicate.sExpr info.leftIndex (pPredicate.getChild 0) info.rightIndex =
    .ok info.leftConst
  rightConst : constOperand conv Plan.ops p pPredicate.sExpr info.rightIndex (pPredicate.getChild 1) info.leftIndex =
    .ok info.rightConst
  op : info.op = pPredicate.getOp
  sExpr : info.sExpr = pPredicate.sExpr

theorem addComparison_noted (hp : p.isLeaf = true) (h : addComparison conv Plan.ops pPredicate p = .ok (info, p')) :
    p' = p ∧ Noted conv p pPredicate info := by
  obtain ⟨l, hl⟩ := p.addProjection_leaf hp (pPredicate.getChild 0)
  obtain ⟨r, hr⟩ := p.addProjection_leaf hp (pPredicate.getChild 1)
  have hl' : Plan.ops.addProjection p (pPredicate.getChild 0) = .ok (l, p) := hl
  have hr' : Plan.ops.addProjection p (pPredicate.getChild 1) = .ok (r, p) := hr
  obtain ⟨r1, h1, h⟩ := bind_eq_ok.mp h
  cases hl'.symm.trans h1
  obtain ⟨r2, h2, h⟩ := bind_eq_ok.mp h
  cases hr'.symm.trans h2
  dsimp only at h
  split at h
  · cases h
  · obtain ⟨lc, hlc, h⟩ := bind_eq_ok.mp h
    obtain ⟨rc, hrc, h⟩ := bind_eq_ok.mp h
    cases h
    exact ⟨rfl, hl, hr, hlc, hrc, rfl, rfl⟩

theorem constOperand_none {plan : Plan} {sExpr : Bytes} {n : ParseNode} {i : Nat} {c : ExecutionResult} (hn : n.isConst = true)
    (h : constOperand conv Plan.ops plan sExpr none n (some i) = .ok c) :
    ∃ type, plan.columnType i = .ok type ∧ DBDataTypeHandler.fromNode conv type n = .ok c := by
  rw [constOperand, if_pos hn] at h
  exact bind_eq_ok.mp h

theorem index_unique {n : ParseNode} {i j : Option Nat} (hi : p.addProjection n = .ok (i, p))
    (hj : p.addProjection n = .ok (j, p)) : i = j :=
  (Prod.mk.inj (Except.ok.inj (hi.symm.trans hj))).1

theorem Noted.constant_index (h : Noted conv p pPredicate info) (hp : p.isLeaf = true) {left : Bool} {pColumn n : ParseNode}
    (ho : Operands pPredicate left pColumn n) :
    (if left then info.rightIndex else info.leftIndex) = p.selected n.getString := by
  have hn := Plan.project_const hp ho.isConst
  cases left with
  | true =>
    have hr := h.rightIndex
    rw [ho.rightChild] at hr
    exact index_unique hr hn
  | false =>
    have hl := h.leftIndex
    rw [ho.leftChild] at hl
    exact index_unique hl hn

theorem Noted.compares_left (h : Noted conv p pPredicate info) {pColumn n : ParseNode} {i : Nat}
    (ho : Operands pPredicate true pColumn n) (hi : p.addProjection pColumn = .ok (some i, p)) (hnone : info.rightIndex = none) :
    ∃ type c, p.columnType i = .ok type ∧ DBDataTypeHandler.fromNode conv type n = .ok c ∧
      ∀ row : Row, evaluate conv Plan.ops p row info = (do
        let r ← row i type
        test conv type pPredicate.getOp pPredicate.sExpr r c) := by
  have hl := h.leftIndex
  have hc := h.rightConst
  rw [ho.leftChild] at hl
  have hli : info.leftIndex = some i := index_unique hl hi
  rw [hli, hnone, ho.rightChild] at hc
  obtain ⟨type, htype, hfrom⟩ := constOperand_none ho.isConst hc
  refine ⟨type, info.rightConst, htype, hfrom, fun row => ?_⟩
  have htype : Plan.ops.getResultType p i = .ok type := htype
  have hrow : Plan.ops.getResult p row i type = row i type := rfl
  rw [evaluate, hli, hnone, operand, operand, htype, h.op, h.sExpr]
  cases hr : row i type with
  | error f => simp [hrow, hr]
  | ok r => simp [hrow, hr]

theorem Noted.compares_right (h : Noted conv p pPredicate info) {pColumn n : ParseNode} {i : Nat}
    (ho : Operands pPredicate false pColumn n) (hi : p.addProjection pColumn = .ok (some i, p)) (hnone : info.leftIndex = none) :
    ∃ type c, p.columnType i = .ok type ∧ DBDataTypeHandler.fromNode conv type n = .ok c ∧
      ∀ row : Row, evaluate conv Plan.ops p row info = (do
        let r ← row i type
        test conv type pPredicate.getOp pPredicate.sExpr c r) := by
  have hr := h.rightIndex
  have hc := h.leftConst
  rw [ho.rightChild] at hr
  have hri : info.rightIndex = some i := index_unique hr hi
  rw [hri, hnone, ho.leftChild] at hc
  obtain ⟨type, htype, hfrom⟩ := constOperand_none ho.isConst hc
  refine ⟨type, info.leftConst, htype, hfrom, fun row => ?_⟩
  have htype : Plan.ops.getResultType p i = .ok type := htype
  have hrow : Plan.ops.getResult p row i type = row i type := rfl
  rw [evaluate, hri, hnone, operand, operand, htype, h.op, h.sExpr]
  cases hr : row i type with
  | error f => simp [hrow, hr]
  | ok r => simp [hrow, hr]

theorem Noted.compares_iff (h : Noted conv p pPredicate info) (hp : p.IsSubquery) :
    ComparesConstants conv p pPredicate info ↔ Unnamed p pPredicate := by
  constructor
  · intro hc left pColumn n i ho hi
    rw [← hp.selected, ← h.constant_index hp.leaf ho]
    exact (hc left pColumn n i ho hi).1
  · intro hu left pColumn n i ho hi
    have hnone := h.constant_index hp.leaf ho
    rw [(hp.selected _).mpr (hu left pColumn n i ho hi)] at hnone
    refine ⟨hnone, ?_⟩
    cases left with
    | true => exact h.compares_left ho hi hnone
    | false => exact h.compares_right ho hi hnone

mutual

theorem doAddPredicate_leaf (hp : p.isLeaf = true) : ∀ (pNode : ParseNode) (infos : List PredicateInfo)
    (s : List PredicateInfo × Plan), doAddPredicate conv Plan.ops [] pNode (infos, p) = .ok s →
      ∃ added, s = (infos ++ added, p) ∧ List.Forall₂ (Noted conv p) (comparisons pNode) added
  | .null, _, _, h => nomatch h
  | .node type op sExpr sValue children, infos, s, h => by
    rw [doAddPredicate] at h
    split at h
    · cases h
    · split at h
      · next hop =>
        rw [comparisons, if_pos hop]
        exact doAddPredicates_leaf hp children infos s h
      · next hop =>
        rw [comparisons, if_neg hop]
        split at h
        · cases h
        · rw [if_neg List.not_mem_nil] at h
          obtain ⟨⟨info, p'⟩, hadd, h⟩ := bind_eq_ok.mp h
          obtain ⟨rfl, hnoted⟩ := addComparison_noted hp hadd
          cases h
          exact ⟨[info], rfl, .cons hnoted .nil⟩

theorem doAddPredicates_leaf (hp : p.isLeaf = true) : ∀ (cs : List ParseNode) (infos : List PredicateInfo)
    (s : List PredicateInfo × Plan), doAddPredicates conv Plan.ops [] cs (infos, p) = .ok s →
      ∃ added, s = (infos ++ added, p) ∧ List.Forall₂ (Noted conv p) (comparisonsOf cs) added
  | [], infos, s, h => by
    cases h
    exact ⟨[], by rw [List.append_nil], .nil⟩
  | c :: cs, infos, s, h => by
    rw [doAddPredicates] at h
    obtain ⟨s1, h1, h⟩ := bind_eq_ok.mp h
    obtain ⟨added, rfl, hf⟩ := doAddPredicate_leaf hp c infos s1 h1
    obtain ⟨rest, rfl, hr⟩ := doAddPredicates_leaf hp cs (infos ++ added) s h
    refine ⟨added ++ rest, by rw [List.append_assoc], ?_⟩
    rw [comparisonsOf]
    exact List.rel_append hf hr

end

theorem addPredicates_leaf (hp : p.isLeaf = true) : ∀ (cs : List ParseNode) (s : List (List PredicateInfo) × Plan),
    addPredicates conv Plan.ops cs p = .ok s → s.2 = p ∧ List.Forall₂ (Noted conv p) (comparisonsOf cs) s.1.flatten
  | [], s, h => by
    cases h
    exact ⟨rfl, .nil⟩
  | c :: cs, s, h => by
    obtain ⟨s1, h1, h⟩ := bind_eq_ok.mp h
    obtain ⟨added, rfl, hf⟩ := doAddPredicate_leaf hp c [] s1 h1
    obtain ⟨s2, h2, h⟩ := bind_eq_ok.mp h
    obtain ⟨hs, hr⟩ := addPredicates_leaf hp cs s2 h2
    cases h
    exact ⟨hs, List.rel_append hf hr⟩

theorem setPredicate_leaf (hp : p.isLeaf = true) {pNode : ParseNode} {s : List (List PredicateInfo) × Plan}
    (h : setPredicate conv Plan.ops pNode p = .ok s) :
    s.2 = p ∧ List.Forall₂ (Noted conv p) (compared pNode) s.1.flatten := by
  rw [setPredicate] at h
  rw [compared]
  split at h
  · next hor =>
    rw [if_pos hor]
    exact addPredicates_leaf hp _ s h
  · next hor =>
    rw [if_neg hor]
    have hf := addPredicates_leaf hp [pNode] s h
    rw [comparisonsOf, comparisonsOf, List.append_nil] at hf
    exact hf

theorem forall₂_iff_forall {α β : Type} {P : α → β → Prop} {Q : α → Prop} {as : List α} {bs : List β}
    (h : List.Forall₂ (fun a b => P a b ↔ Q a) as bs) : List.Forall₂ P as bs ↔ ∀ a ∈ as, Q a := by
  induction h with
  | nil => exact ⟨fun _ _ ha => absurd ha List.not_mem_nil, fun _ => .nil⟩
  | cons hab _ ih => rw [List.forall₂_cons, List.forall_mem_cons, hab, ih]

/-- A WHERE clause on a subquery compares with the constants that it has. -/
theorem constants_compared_iff {pSubquery pNode : ParseNode} {infos : List (List PredicateInfo)}
    (hq : BuildPlan.buildPlan conv std config pSubquery = .ok p)
    (hf : setPredicate conv Plan.ops pNode p = .ok (infos, p')) :
    (p' = p ∧ List.Forall₂ (ComparesConstants conv p) (compared pNode) infos.flatten) ↔
      ∀ pPredicate ∈ compared pNode, Unnamed p pPredicate := by
  have hp := BuildPlan.buildPlan_isSubquery hq
  obtain ⟨rfl, hnoted⟩ := setPredicate_leaf hp.leaf hf
  rw [and_iff_right rfl]
  exact forall₂_iff_forall (hnoted.imp fun pPredicate info h => h.compares_iff hp)

def stringNode (s : String) : ParseNode := .node .str .none (bytes ("'" ++ s ++ "'")) (bytes s) []

def aliasNode (column name : String) : ParseNode :=
  .node .op .as (bytes (column ++ " as " ++ name)) [] [Plan.nameOf column, Plan.nameOf name]

open SelectPlanBuilder in
/-- `select c1 as a, c2 as b from (values ('b', 'x'))`. -/
def namedColumns : ParseNode :=
  Clauses.node {
    project := .node .list .none (bytes "c1 as a, c2 as b") (bytes "ExprList") [aliasNode "c1" "a", aliasNode "c2" "b"]
    table := valuesNode [[stringNode "b", stringNode "x"]] }

def equalNode (name const : String) : ParseNode :=
  .node .op .compEq (bytes (name ++ " = '" ++ const ++ "'")) [] [Plan.nameOf name, stringNode const]

/-- `where a = 'x'`. -/
theorem constants_compared_iff_unnamed :
    ∃ p infos, BuildPlan.buildPlan digitConversions insertionSort ⟨[]⟩ namedColumns = .ok p ∧
      setPredicate digitConversions Plan.ops (equalNode "a" "x") p = .ok (infos, p) ∧
        ((p = p ∧ List.Forall₂ (ComparesConstants digitConversions p) (compared (equalNode "a" "x")) infos.flatten) ↔
          ∀ pPredicate ∈ compared (equalNode "a" "x"), Unnamed p pPredicate) :=
  ⟨_, _, rfl, rfl, @constants_compared_iff digitConversions insertionSort ⟨[]⟩ _ _ namedColumns (equalNode "a" "x") _ rfl rfl⟩

/-- `where a = 'b'` compares the two columns, and drops the row whose `a` is `'b'`. -/
theorem constant_taken_for_column :
    ∃ p infos, BuildPlan.buildPlan digitConversions insertionSort ⟨[]⟩ namedColumns = .ok p ∧
      setPredicate digitConversions Plan.ops (equalNode "a" "b") p = .ok (infos, p) ∧
        ¬ List.Forall₂ (ComparesConstants digitConversions p) (compared (equalNode "a" "b")) infos.flatten ∧
          ((Plan.filter infos p).run digitConversions insertionSort .empty).rows.length = 0 := by
  refine ⟨_, _, rfl, rfl, fun h => ?_, by decide +kernel⟩
  obtain ⟨hc, -⟩ := List.forall₂_cons.mp h
  obtain ⟨hnone, -⟩ := hc true (Plan.nameOf "a") (stringNode "b") 0 ⟨rfl, rfl, rfl, rfl⟩ rfl
  cases hnone

end FilterPlan

end LevelPgServer
