import LevelPgServer.Execution.InsertCorrect
import LevelPgServer.Execution.LevelDBDeletePlan
import LevelPgServer.PlanBuilder.WhereRows

namespace LevelPgServer

open ParseNode KeyOrder ExceptRules WriteBatch

/-- Removing the keys of the rows that satisfy `g` keeps the other rows. -/
theorem Store.write_removes {conv : Conversions} {t : TableInfo} (hv : t.Valid) {db : Database}
    (hs : Store conv t (db.tables t.name)) {g : Entry → Bool} {rows : List Entry}
    (h : ∀ e, e ∈ rows ↔ e ∈ db.tables t.name ∧ g e = true) :
    (db.write conv t (rows.map (fun e => .remove e.1))).tables t.name = (db.tables t.name).filter (fun e => !g e) := by
  have hkeys : ∀ k ∈ rows.map Prod.fst, ∃ ks, IsKey conv t.keyTypes ks k := by
    intro k hk
    obtain ⟨e, he, rfl⟩ := List.mem_map.mp hk
    exact hs.keys e ((h e).mp he).1
  have hops : rows.map (fun e => (.remove e.1 : BatchOp)) = (rows.map Prod.fst).map .remove := by simp
  rw [Database.write, hops]
  dsimp only
  rw [Function.update_self]
  refine applyAll_removes (LevelDBInsertPlan.keyCompare_compares conv hv) hkeys hs.keys (hs.pairwise_ranks hv)
    fun e he => ⟨fun hg k hk heq => ?_, fun hnone => ?_⟩
  · obtain ⟨a, ha, rfl⟩ := List.mem_map.mp hk
    obtain ⟨hadb, hga⟩ := (h a).mp ha
    obtain rfl : a = e := SortedFilter.eq_of_place_eq (hs.pairwise_ranks hv) hadb he heq
    rw [hga] at hg
    cases hg
  · by_contra hg
    have hmem := (h e).mpr ⟨he, by simpa using hg⟩
    exact hnone e.1 (List.mem_map.mpr ⟨e, hmem, rfl⟩) rfl

namespace Run

variable {ρ ρ' : Type}

def map (f : ρ → ρ') (run : Run ρ) : Run ρ' := ⟨run.rows.map f, run.fault⟩

end Run

namespace LevelDBPlanBuilder

namespace SelectPlan

def addProjections (pColumn : ParseNode) : Option Nat → List ScanPlanInfo → Fallible (Option Nat × List ScanPlanInfo)
  | lastProj, [] => .ok (lastProj, [])
  | lastProj, info :: infos => do
    let (proj, scan) ← info.scan.addProjection pColumn
    match proj with
    | none => return (none, { info with scan } :: infos)
    | some i =>
      if lastProj.any (· ≠ i) then throwParse ("projection conflict for " ++ text pColumn.sExpr)
      else
        let (proj, infos) ← addProjections pColumn (some i) infos
        return (proj, { info with scan } :: infos)

def addProjection (pColumn : ParseNode) : SelectPlan → Fallible (Option Nat × SelectPlan)
  | single info => do
    let (proj, scan) ← info.scan.addProjection pColumn
    return (proj, single { info with scan })
  | unionAll plans => do
    let (proj, plans) ← addProjections pColumn none plans
    return (proj, unionAll plans)

def first : SelectPlan → Option LevelDBScanPlan
  | single info => some info.scan
  | unionAll plans => plans.head?.map ScanPlanInfo.scan

def getResultColumns (plan : SelectPlan) : Nat :=
  match plan.first with
  | some scan => scan.columnValues.length + 1
  | none => 0

def getProjectionName (plan : SelectPlan) (index : Nat) : Bytes :=
  match plan.first.bind (fun scan => scan.table.getColumn index) with
  | some c => c.name
  | none => []

def widen : DBDataType → DBDataType
  | .int16 | .int32 | .int64 => .int64
  | type => type

def getResultType (plan : SelectPlan) (index : Nat) : Fallible DBDataType :=
  match plan with
  | single info =>
    match info.scan.getResultType index with
    | some type => .ok type
    | none => .error .undefined
  | unionAll plans =>
    match plans.head?.bind (fun info => info.scan.getResultType index) with
    | some type => .ok (widen type)
    | none => .error .undefined

/-- The state of the database that the plan reads: a union has its iterator from the time when
it is built, a single scan takes one when it begins. -/
def seen {δ : Type} (built begun : δ) : SelectPlan → δ
  | single _ => begun
  | unionAll _ => built

@[simp] theorem seen_self {δ : Type} (x : δ) (plan : SelectPlan) : plan.seen x x = x := by cases plan <;> rfl

variable (conv : Conversions)

def scanned (db : LevelDB) : SelectPlan → Run (LevelDBScanPlan × Entry)
  | single info => (info.run conv db).map (info.scan, ·)
  | unionAll plans => plans.foldr (fun info rest => ((info.run conv db).map (info.scan, ·)).append rest) .done

end SelectPlan

/-- A plan of the builder while it is executed: the snapshot of its iterators, once they are
created, the rows still to come and the current one. -/
structure Cursor where
  plan : SelectPlan
  snapshot : Option LevelDB := none
  ahead : Run (LevelDBScanPlan × Entry) := .done
  current : Option (LevelDBScanPlan × Entry) := none

namespace Cursor

/-- The scans of a union get their iterator, one for all, when the plan is built. -/
def create (t : TableInfo) (db : Database) (plan : SelectPlan) : Cursor :=
  match plan with
  | .single _ => { plan }
  | .unionAll _ => { plan, snapshot := some (db.tables t.name) }

/-- The calls of the plan. `canceled` says whether a call meets a check of `m_bTerminate`
after it has been set: how many checks a call makes depends on the rows that it passes over. -/
def source (conv : Conversions) (canceled : Option Nat → Cursor → Bool) : SourcePlan Cursor Database where
  «begin» _ db := fun s =>
    match s.plan.first with
    | none => .error .undefined s
    | some scan =>
      let snapshot := s.snapshot.getD (db.tables scan.table.name)
      .ok () { s with snapshot := some snapshot, ahead := s.plan.scanned conv snapshot, current := none }
  next raised := fun s =>
    if canceled raised s then .error (.thrown (.execution "canceled")) s
    else
      match s.ahead.rows with
      | r :: rows => .ok true { s with ahead := ⟨rows, s.ahead.fault⟩, current := some r }
      | [] =>
        match s.ahead.fault with
        | some f => .error f s
        | none => .ok false { s with current := none }
  «end» := fun s => .ok () { s with snapshot := none }
  getResultColumns s := s.plan.getResultColumns
  getProjectionName s := s.plan.getProjectionName
  getResultType s := s.plan.getResultType
  addProjection pColumn := fun s =>
    match s.plan.addProjection pColumn with
    | .ok (proj, plan) => .ok proj { s with plan }
    | .error f => .error f s
  getResult s index _ :=
    match s.current with
    | some (scan, e) => scan.getResult e index
    | none => .error .undefined

end Cursor

/-- The plan of a DELETE; there is nothing to do when the predicate is false. -/
inductive RemovePlan
  | empty
  | delete (plan : LevelDBDeletePlan Cursor)

/-- `buildDeletePlan`; the tables of the server come by name. -/
def buildDeletePlan (conv : Conversions) (std : StdSort) (getTableInfo : Bytes → Option TableInfo) (db : Database)
    (pNode : ParseNode) : Fallible RemovePlan :=
  let pTable := pNode.getChild 0
  let pPredicate := pNode.getChild 1
  if pPredicate.isFalseConst then .ok .empty
  else
    let pPredicate := if pPredicate.isTrueConst then .null else pPredicate
    match getTableInfo pTable.getString with
    | none => throwParse ("table " ++ text pTable.getString ++ " not found")
    | some t =>
      if t.getKeyCount = 0 then throwParse ("DELETE is not supported for table " ++ text pTable.getString)
      else do
        let plan ← buildSelectPlan conv std t pPredicate
        return .delete { table := t, child := .create t db plan }

variable {conv : Conversions} {t : TableInfo}

namespace SelectPlan

/-- All scans of the plan are scans of table `t`. -/
def Scans (t : TableInfo) : SelectPlan → Prop
  | single info => info.scan.Scans t
  | unionAll plans => ∀ info ∈ plans, info.scan.Scans t

theorem scanned_eq (conv : Conversions) (db : LevelDB) (plan : SelectPlan) : (plan.scanned conv db).map Prod.snd = plan.run conv db := by
  cases plan with
  | single info => simp [scanned, SelectPlan.run, Run.map, Function.comp_def]
  | unionAll plans =>
    rw [SelectPlan.run, scanned]
    induction plans with
    | nil => rfl
    | cons info infos ih =>
      rw [List.foldr_cons, runUnion, ← ih, Run.append, Run.append]
      obtain ⟨rows, fault⟩ := info.run conv db
      cases fault with
      | some f => simp [Run.map, Function.comp_def]
      | none => simp [Run.map, Function.comp_def]

theorem Scans.scanned {plan : SelectPlan} (h : plan.Scans t) (conv : Conversions) (db : LevelDB) :
    ∀ r ∈ (plan.scanned conv db).rows, r.1.Scans t := by
  cases plan with
  | single info =>
    intro r hr
    obtain ⟨e, -, rfl⟩ := List.mem_map.mp hr
    exact h
  | unionAll plans =>
    rw [SelectPlan.scanned]
    induction plans with
    | nil => simp [Run.done]
    | cons info infos ih =>
      obtain ⟨hinfo, hinfos⟩ := List.forall_mem_cons.mp h
      have hrow : ∀ r ∈ ((info.run conv db).map (info.scan, ·)).rows, r.1.Scans t := by
        intro r hr
        obtain ⟨e, -, rfl⟩ := List.mem_map.mp hr
        exact hinfo
      rw [List.foldr_cons, Run.append]
      cases ((info.run conv db).map (info.scan, ·)).fault with
      | some f => exact hrow
      | none =>
        intro r hr
        obtain hr | hr := List.mem_append.mp hr
        · exact hrow r hr
        · exact ih hinfos r hr

theorem addProjection_rowkey {scan : LevelDBScanPlan} (h : scan.Scans t) :
    scan.addProjection LevelDBDeletePlan.rowkeyNode = .ok (some (t.values.length + t.getKeyCount), scan) := by
  rw [LevelDBScanPlan.addProjection, if_pos (by decide), h.columnValues, h.table]

/-- The key of a row has the same index in every scan, and asking for it changes none. -/
theorem Scans.addProjection {plan : SelectPlan} (h : plan.Scans t) (hne : plan.first ≠ none) :
    plan.addProjection LevelDBDeletePlan.rowkeyNode = .ok (some (t.values.length + t.getKeyCount), plan) := by
  cases plan with
  | single info =>
    rw [SelectPlan.addProjection, addProjection_rowkey h]
    rfl
  | unionAll plans =>
    have hall : ∀ infos : List ScanPlanInfo, (∀ info ∈ infos, info.scan.Scans t) → ∀ last : Option Nat,
        last.all (· = t.values.length + t.getKeyCount) → (last = none → infos ≠ []) →
        addProjections LevelDBDeletePlan.rowkeyNode last infos = .ok (some (t.values.length + t.getKeyCount), infos) := by
      intro infos
      induction infos with
      | nil =>
        intro _ last hlast hn
        cases last with
        | none => exact absurd rfl (hn rfl)
        | some i =>
          obtain rfl : i = t.values.length + t.getKeyCount := by simpa using hlast
          rfl
      | cons info infos ih =>
        intro hs last hlast _
        obtain ⟨hinfo, hinfos⟩ := List.forall_mem_cons.mp hs
        have hany : last.any (· ≠ t.values.length + t.getKeyCount) = false := by
          cases last with
          | none => rfl
          | some i => simpa using hlast
        rw [addProjections, addProjection_rowkey hinfo, ok_bind]
        dsimp only
        rw [hany, if_neg (by decide), ih hinfos (some _) (by simp) (fun h => by cases h)]
        rfl
    have hp : plans ≠ [] := by
      rintro rfl
      exact hne rfl
    rw [SelectPlan.addProjection, hall plans h none rfl fun _ => hp]
    rfl

end SelectPlan

theorem where_scans {p q : ParseNode} {cs : List Comparison} (h : RewrittenWhere t p cs q) (htext : TextsDetermine cs)
    (hexact : ExactFloats conv t cs) (hv : t.Valid) {std : StdSort} {plan : SelectPlan}
    (hp : buildSelectPlan conv std t q = .ok plan) : plan.Scans t ∧ plan.first ≠ none := by
  cases h with
  | conjunction hc =>
    rw [buildSelectPlan_conjunction hc] at hp
    obtain ⟨info, hi, hp⟩ := bind_eq_ok.mp hp
    cases hp
    exact ⟨((ScanPlanInfo.create_spec hv hc htext hexact).1 info hi).scans, by simp [SelectPlan.first]⟩
  | @disjunction sx ds hd =>
    have hfullScan : fullScan conv t (.node .op .or sx [] ds) = .ok plan → plan.Scans t ∧ plan.first ≠ none := by
      intro hfull
      obtain ⟨info, hi, hfull⟩ := bind_eq_ok.mp hfull
      cases hfull
      obtain ⟨r, hr, hi⟩ := bind_eq_ok.mp hi
      cases hi
      choose! css hcss using hd.conjunctions
      have hforall : List.Forall₂ (IsConjunction t) ds (ds.map css) :=
        List.forall₂_map_right_iff.mpr (List.forall₂_same.mpr fun d hdm => (hcss d hdm).1)
      obtain ⟨-, hx, -⟩ := addDisjuncts_ok hv hforall (LevelDBScanPlan.create_scans hv) hr
      exact ⟨hx.scans, by simp [SelectPlan.first]⟩
    obtain ⟨r, hr, hp⟩ := bind_eq_ok.mp hp
    rw [children_node] at hr
    cases r with
    | none => exact hfullScan hp
    | some scans =>
      obtain ⟨b, hb, hp⟩ := bind_eq_ok.mp hp
      cases b with
      | false => exact hfullScan hp
      | true =>
        cases hp
        have hperm := std.perm (ScanPlanInfo.startsBefore conv) scans
        have hcreate := collectScans_ok hr
        refine ⟨fun info hi => ?_, ?_⟩
        · obtain ⟨i, hi⟩ := List.mem_iff_getElem?.mp (hperm.mem_iff.mp hi)
          obtain ⟨hlt, rfl⟩ := List.getElem?_eq_some_iff.mp hi
          have hlt' : i < ds.length := hcreate.length_eq ▸ hlt
          obtain ⟨cs', hconj, hsub⟩ := hd.conjunctions ds[i] (List.getElem_mem hlt')
          exact ((ScanPlanInfo.create_spec hv hconj (fun a ha b hb => htext a (hsub ha) b (hsub hb))
            (fun cmp hc => hexact cmp (hsub hc))).1 _ ((List.forall₂_iff_get.mp hcreate).2 i hlt' hlt)).scans
        · intro hnone
          have hnil : std.sort (ScanPlanInfo.startsBefore conv) scans = [] := by
            simpa [SelectPlan.first] using hnone
          have hlen := hperm.length_eq.symm.trans (congrArg List.length hnil)
          rw [← hcreate.length_eq] at hlen
          exact hd.ne_nil (List.eq_nil_of_length_eq_zero hlen)

theorem getResult_rowkey {scan : LevelDBScanPlan} (h : scan.Scans t) (e : Entry) :
    scan.getResult e (t.values.length + t.getKeyCount) = .ok (.string e.1) := by
  rw [LevelDBScanPlan.getResult, h.table]
  dsimp only
  rw [if_neg (by omega), h.columnValues, if_neg (by omega)]

namespace Cursor

variable {canceled : Option Nat → Cursor → Bool}

theorem next_true {raised : Option Nat} {s s' : Cursor} (h : (source conv canceled).next raised s = .ok true s') :
    ∃ r, s.ahead.rows = r :: s'.ahead.rows ∧ s'.ahead.fault = s.ahead.fault ∧ s'.current = some r := by
  simp only [source] at h
  split at h
  · cases h
  · split at h
    · next r rows hr =>
      cases h
      exact ⟨r, hr, rfl, rfl⟩
    · split at h <;> cases h

theorem next_false {raised : Option Nat} {s s' : Cursor} (h : (source conv canceled).next raised s = .ok false s') :
    s.ahead.rows = [] ∧ s.ahead.fault = none := by
  simp only [source] at h
  split at h
  · cases h
  · split at h
    · cases h
    · next hr =>
      split at h
      · cases h
      · next hf => exact ⟨hr, hf⟩

end Cursor

end LevelDBPlanBuilder

end LevelPgServer
