import LevelPgServer.Execution.FilterCorrect
import LevelPgServer.Execution.RangeFailure

namespace LevelPgServer

open ParseNode KeySearchRange KeyOrder ExceptRules RangeBuild

namespace LevelDBScanPlan

variable {conv : Conversions} {t : TableInfo} {plan : LevelDBScanPlan}

theorem run_all (hv : t.Valid) (hp : plan.Scans t) (hr : plan.searchRange = none) {db : LevelDB}
    (hs : Store conv t db) : plan.run conv db = ⟨db, none⟩ := by
  have hd : Conjunction.Derived t [] { predicates := List.replicate t.keyTypes.length {} } := .initial []
  have hexact : ExactFloats conv t [] := fun cmp hc => absurd hc List.not_mem_nil
  rcases build_ok_or hv hexact (p := .null) rfl hd (fun cmp hc => absurd hc List.not_mem_nil) with ⟨r, hb⟩ | ⟨-, cmp, hc, -⟩
  · have hst := build_stands hv hexact rfl hd hb
    have hbegin : plan.begin conv = .ok r.1 := by rw [begin, hr, hp.keyTypes, hp.table, hb]; rfl
    rw [run, hbegin]
    simp only [hp.table, KeySearchRange.seekStart_eq hv hst.built hs]
    rw [scanFrom_eq hv hst.built hp hs List.filter_sublist, List.filter_filter]
    congr 1
    rw [List.filter_eq_self]
    intro e he
    have hall := (hst.contains _ (hs.keyValues hv he).1.bounded).mpr fun q hq => by
      obtain ⟨cmp, hc, -⟩ := hd.bound_of_mem_used hq
      exact absurd hc List.not_mem_nil
    simpa using ⟨hall.2, hall.1⟩
  · exact absurd hc List.not_mem_nil

theorem run_rows_subset (plan : LevelDBScanPlan) (db : LevelDB) : (plan.run conv db).rows ⊆ db := by
  have hscan : ∀ (range : KeySearchRange) (es : List Entry), (plan.scanFrom conv range es).rows ⊆ es := by
    intro range es
    induction es with
    | nil => exact List.Subset.refl _
    | cons e es ih =>
      rw [scanFrom]
      repeat' split
      all_goals first | exact List.nil_subset _ | exact List.cons_subset_cons e ih
  have hskip : ∀ (range : KeySearchRange) (es fs : List Entry), range.skipStart conv es = .ok fs → fs ⊆ es := by
    intro range es
    induction es with
    | nil =>
      intro fs h
      cases h
      exact List.Subset.refl _
    | cons e es ih =>
      intro fs h
      obtain ⟨n, -, h⟩ := bind_eq_ok.mp h
      split at h
      · cases h
        exact List.Subset.refl _
      · exact List.Subset.trans (ih fs h) (List.subset_cons_self e es)
  have hseek : ∀ (range : KeySearchRange) (es : List Entry),
      range.seekStart conv plan.table.keyTypes (.createIterator db) = .ok es → es ⊆ db := by
    intro range es h
    rw [KeySearchRange.seekStart] at h
    split at h
    · cases h
      rw [LevelDBIterator.first, LevelDBIterator.entries_createIterator]
      exact List.Subset.refl _
    · have hdrop : ((LevelDBIterator.createIterator db).seek conv plan.table.keyTypes range.startRow).ahead ⊆ db := by
        rw [LevelDBIterator.seek, LevelDBIterator.entries_createIterator]
        exact (List.dropWhile_suffix _).subset
      dsimp only at h
      split at h
      · cases h
        exact hdrop
      · exact List.Subset.trans (hskip range _ es h) hdrop
  rw [run]
  split
  · exact List.nil_subset _
  · next range _ =>
    split
    · exact List.nil_subset _
    · next es hes => exact List.Subset.trans (hscan range es) (hseek range es hes)

/-- The plan of `SELECT *`: all columns are projected. -/
def allColumns (t : TableInfo) : LevelDBScanPlan :=
  { create t with
    projectValue := !t.values.isEmpty
    columnValues := List.replicate (t.getColumnCount - t.getKeyCount) true }

def readRow (t : TableInfo) (e : Entry) : Fallible (List ExecutionResult) :=
  t.columns.mapM (fun c => (allColumns t).getResult e (t.resultIndex c))

def scanTable (conv : Conversions) (t : TableInfo) (db : LevelDB) : Fallible (List (List ExecutionResult)) :=
  match (allColumns t).run conv db with
  | ⟨_, some f⟩ => .error f
  | ⟨es, none⟩ => es.mapM (readRow t)

theorem allColumns_scans (hv : t.Valid) : (allColumns t).Scans t where
  table := rfl
  keyTypes := create_keyTypes hv
  valueTypes := create_valueTypes hv
  columnValues := by
    have := hv.count
    simp only [allColumns, List.length_replicate, TableInfo.getColumnCount, TableInfo.getKeyCount]
    omega

theorem allColumns_getResult (hv : t.Valid) {i : Nat} {c : DBColumnInfo} (hc : t.columns[i]? = some c) (e : Entry) :
    (allColumns t).getResult e (t.resultIndex c) = t.columnOf e c := by
  have hp := allColumns_scans hv
  rw [getResult, hp.table]
  dsimp only
  cases hk : c.keyIndex with
  | some k =>
    have hlt : k < t.getKeyCount := hv.keyIndex_lt hc hk
    rw [show t.resultIndex c = k by simp [TableInfo.resultIndex, hk], if_pos hlt, hp.keyTypes, TableInfo.columnOf, hk]
  | none =>
    obtain ⟨v, hval⟩ := Option.ne_none_iff_exists'.mp ((hv.isValue i c hc).mp hk)
    have hlt : v < (allColumns t).columnValues.length := by rw [hp.columnValues]; exact hv.valueIndex_lt hc hval
    have htrue : (allColumns t).columnValues.getD v false = true := by
      simp only [allColumns, List.length_replicate] at hlt
      simp [allColumns, hlt]
    rw [show t.resultIndex c = t.getKeyCount + v by simp [TableInfo.resultIndex, hk, hval], if_neg (by omega),
      Nat.add_sub_cancel_left, if_pos hlt, if_pos htrue, hp.valueTypes, TableInfo.columnOf, hk, hval]

theorem readRow_eq (hv : t.Valid) (e : Entry) : readRow t e = t.columns.mapM (t.columnOf e) := by
  have hall : ∀ cs : List DBColumnInfo, (∀ c ∈ cs, c ∈ t.columns) →
      cs.mapM (fun c => (allColumns t).getResult e (t.resultIndex c)) = cs.mapM (t.columnOf e) := by
    intro cs hcs
    induction cs with
    | nil => rfl
    | cons c cs ih =>
      obtain ⟨i, hi⟩ := List.mem_iff_getElem?.mp (hcs c (by simp))
      rw [List.mapM_cons, List.mapM_cons, allColumns_getResult hv hi, ih fun c hc => hcs c (by simp [hc])]
  exact hall t.columns fun c hc => hc

end LevelDBScanPlan

end LevelPgServer
