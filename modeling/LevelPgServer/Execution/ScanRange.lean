import LevelPgServer.Execution.StoredRow

namespace LevelPgServer

open DBDataTypeHandler DataRow KeyOrder KeyRange ExceptRules ThreeWay LexRange

structure SortedKeys (conv : Conversions) (t : TableInfo) (db : List Entry) : Prop where
  isKey : ∀ e ∈ db, IsKey conv t.keyTypes (t.keyOf e) e.1
  pairwise : db.Pairwise (fun a b => ranks (t.keyOf a) < ranks (t.keyOf b))

theorem Store.sortedKeys {conv : Conversions} {t : TableInfo} {db : LevelDB} (hv : t.Valid) (hs : Store conv t db) :
    SortedKeys conv t db := ⟨fun _ he => (hs.keyValues hv he).1, hs.pairwise_ranks hv⟩

theorem SortedKeys.sublist {conv : Conversions} {t : TableInfo} {db es : List Entry} (h : SortedKeys conv t db)
    (hsub : es.Sublist db) : SortedKeys conv t es := ⟨fun e he => h.isKey e (hsub.subset he), h.pairwise.sublist hsub⟩

namespace KeySearchRange

variable (conv : Conversions)

theorem compareResults_eq {types : List DBDataType} {as bs : List ExecutionResult} (ha : OrderedTypes types as)
    (hb : OrderedTypes types bs) : compareResults conv types as bs = .ok (order (ranks as) (ranks bs)) := by
  induction ha generalizing bs with
  | nil =>
    cases hb
    simp [compareResults, ranks]
  | @cons t a types as ha _ ih =>
    cases hb with
    | @cons _ b _ bs hb hbs =>
      rw [compareResults, compare_eq conv ha hb, ok_bind, ranks, ranks, List.map_cons, List.map_cons, order_cons]
      cases ho : order (rank a) (rank b) with
      | eq => exact ih hbs
      | lt | gt => rfl

def Contains (range : KeySearchRange) (ks : List ExecutionResult) : Prop :=
  AfterStart range.startInclusive (ranks range.startKeyResults) (ranks ks) ∧
    BeforeEnd range.endInclusive (ranks range.endKeyResults) (ranks ks)

instance (range : KeySearchRange) (ks : List ExecutionResult) : Decidable (range.Contains ks) := by
  unfold Contains; infer_instance

/-- What the constructor guarantees of a range. -/
structure Built (t : TableInfo) (range : KeySearchRange) : Prop where
  keyTypes : range.keyTypes = t.keyTypes
  startOrdered : OrderedTypes t.keyTypes range.startKeyResults
  endOrdered : OrderedTypes t.keyTypes range.endKeyResults
  startRow : ∃ cs, columnBytes conv t.keyTypes range.startKeyResults = .ok cs ∧ range.startRow = cs.flatten
  toFirst : range.seekToFirst = true → ∀ ks, BoundedTypes t.keyTypes ks →
    AfterStart range.startInclusive (ranks range.startKeyResults) (ranks ks)
  toLast : range.seekToLast = true → ∀ ks, BoundedTypes t.keyTypes ks →
    BeforeEnd range.endInclusive (ranks range.endKeyResults) (ranks ks)

variable {conv} {t : TableInfo} {range : KeySearchRange}

theorem exceedEnd_eq (hb : range.Built conv t) {ks : List ExecutionResult} (hk : BoundedTypes t.keyTypes ks) :
    range.exceedEnd conv ks =
      .ok (!decide (BeforeEnd range.endInclusive (ranks range.endKeyResults) (ranks ks))) := by
  rw [exceedEnd]
  split
  · next hl => simp [hb.toLast hl ks hk]
  · have ho : OrderedTypes t.keyTypes ks := hk.imp fun _ _ h => h.ordered
    rw [hb.keyTypes, compareResults_eq conv ho hb.endOrdered, ok_bind, pure_eq_ok]
    congr 1
    rcases lt_trichotomy (ranks ks) (ranks range.endKeyResults) with h | h | h
    · rw [order_of_lt h]
      cases range.endInclusive <;> simp [h, h.le]
    · rw [h, order_self]
      cases range.endInclusive <;> simp
    · rw [order_of_gt h]
      cases range.endInclusive <;> simp [h, h.le]

theorem skipStart_eq (hb : range.Built conv t) {es : List Entry}
    (hk : ∀ e ∈ es, IsKey conv t.keyTypes (t.keyOf e) e.1)
    (ho : es.Pairwise (fun a b => ranks (t.keyOf a) < ranks (t.keyOf b))) :
    range.skipStart conv es =
      .ok (es.filter (fun e => decide (ranks range.startKeyResults < ranks (t.keyOf e)))) := by
  induction es with
  | nil => rfl
  | cons e es ih =>
    obtain ⟨cs, hcs, hrow⟩ := hb.startRow
    obtain ⟨ds, hds, hkey⟩ := (hk e (by simp)).stored
    have hc := compare_row conv (hk e (by simp)).ordered hb.startOrdered hds hcs (hk e (by simp)).readable [] []
    rw [List.append_nil, List.append_nil] at hc
    rw [skipStart, hkey, hrow, hb.keyTypes, hc, ok_bind]
    by_cases h : ranks range.startKeyResults < ranks (t.keyOf e)
    · rw [if_pos (order_of_gt h), List.filter_eq_self.mpr]
      · rfl
      · intro a ha
        rcases List.mem_cons.mp ha with rfl | ha
        · simpa using h
        · simpa using h.trans ((List.pairwise_cons.mp ho).1 a ha)
    · rw [if_neg (fun he => h (order_eq_gt.mp he)), List.filter_cons_of_neg (by simpa using h)]
      exact ih (fun a ha => hk a (by simp [ha])) ho.of_cons

/-- `seekStart` leaves the iterator at the first key of the range. -/
theorem seekStart_eq_sorted (hb : range.Built conv t) {db : LevelDB} (hs : SortedKeys conv t db) :
    range.seekStart conv t.keyTypes (.createIterator db) =
      .ok (db.filter (fun e => decide
        (AfterStart range.startInclusive (ranks range.startKeyResults) (ranks (t.keyOf e))))) := by
  obtain ⟨hk, ho⟩ := hs
  rw [seekStart]
  split
  · next hf =>
    rw [LevelDBIterator.first, LevelDBIterator.entries_createIterator, eq_comm]
    congr 1
    rw [List.filter_eq_self]
    intro e he
    simpa using hb.toFirst hf _ (hk e he).bounded
  · obtain ⟨cs, hcs, hrow⟩ := hb.startRow
    have hseek : OrderedMap.seek (keyCompare conv t.keyTypes) range.startRow db =
        db.filter (fun e => decide (ranks range.startKeyResults ≤ ranks (t.keyOf e))) := by
      refine OrderedMap.seek_eq_filter (f := fun k => ranks (t.keyOf (k, []))) (fun e he => ?_) ho
      exact (hk e he).compare hb.startOrdered hcs hrow
    rw [LevelDBIterator.seek, LevelDBIterator.entries_createIterator, hseek]
    cases hi : range.startInclusive with
    | true => simp
    | false =>
      have hmem : ∀ e ∈ db.filter (fun e => decide (ranks range.startKeyResults ≤ ranks (t.keyOf e))), e ∈ db :=
        fun e he => (List.mem_filter.mp he).1
      simp only [Bool.false_eq_true, if_false]
      rw [skipStart_eq hb (fun e he => hk e (hmem e he)) (ho.filter _), List.filter_filter]
      congr 1
      refine List.filter_congr fun e _ => ?_
      rw [← Bool.decide_and, decide_eq_decide, afterStart_false]
      exact and_iff_left_of_imp le_of_lt

theorem seekStart_eq (hv : t.Valid) (hb : range.Built conv t) {db : LevelDB} (hs : Store conv t db) :
    range.seekStart conv t.keyTypes (.createIterator db) =
      .ok (db.filter (fun e => decide
        (AfterStart range.startInclusive (ranks range.startKeyResults) (ranks (t.keyOf e))))) :=
  seekStart_eq_sorted hb (hs.sortedKeys hv)

end KeySearchRange

namespace LevelDBScanPlan

variable {conv : Conversions} {t : TableInfo} {plan : LevelDBScanPlan} {range : KeySearchRange}

/-- A plan that scans table `t`, with whatever columns it projects. -/
structure Scans (t : TableInfo) (plan : LevelDBScanPlan) : Prop where
  table : plan.table = t
  keyTypes : plan.keyTypes = t.keyTypes
  valueTypes : plan.valueTypes = t.valueTypes
  columnValues : plan.columnValues.length = t.values.length

theorem columnResults_ok (hp : plan.Scans t) {db : LevelDB} (hs : Store conv t db) {e : Entry} (he : e ∈ db) :
    ∃ vs, plan.columnResults e = .ok vs := by
  rw [columnResults]
  split
  · have hget : ∀ i ∈ (List.range plan.columnValues.length).filter (fun i => plan.columnValues.getD i false),
        ∃ v, DataRow.getResult plan.valueTypes e.2 i = .ok v := by
      intro i hi
      rw [hp.valueTypes]
      obtain ⟨v, hv, -⟩ := hs.values e he i (hp.columnValues ▸ List.mem_range.mp (List.mem_filter.mp hi).1)
      exact ⟨v, hv⟩
    have : Nonempty ExecutionResult := ⟨.null⟩
    choose! f hf using hget
    exact ⟨_, mapM_eq_ok hf⟩
  · exact ⟨[], rfl⟩

theorem keyValues_eq (hv : t.Valid) (hp : plan.Scans t) {e : Entry} (hk : IsKey conv t.keyTypes (t.keyOf e) e.1) :
    plan.keyValues e = .ok (t.keyOf e) := by
  have hm := hk.mapM_getResult
  rw [hv.length_keyTypes] at hm
  rw [keyValues, hp.table, hp.keyTypes]
  exact hm

/-- The scan stops at the end of the range, and all keys of the range come before. -/
theorem scanFrom_eq_sorted (hv : t.Valid) (hb : range.Built conv t) (hp : plan.Scans t) {es : List Entry}
    (hs : SortedKeys conv t es) (hread : ∀ e ∈ es, ∃ vs, plan.columnResults e = .ok vs) :
    plan.scanFrom conv range es =
      ⟨es.filter (fun e => decide
        (BeforeEnd range.endInclusive (ranks range.endKeyResults) (ranks (t.keyOf e)))), none⟩ := by
  induction es with
  | nil => rfl
  | cons e es ih =>
    have hk := hs.isKey e (by simp)
    obtain ⟨vs, hvs⟩ := hread e (by simp)
    rw [scanFrom, keyValues_eq hv hp hk]
    simp only [KeySearchRange.exceedEnd_eq hb hk.bounded, hvs]
    by_cases h : BeforeEnd range.endInclusive (ranks range.endKeyResults) (ranks (t.keyOf e))
    · rw [List.filter_cons_of_pos (by simpa using h)]
      simp only [h, decide_true, Bool.not_true,
        ih (hs.sublist (List.sublist_cons_self e es)) fun a ha => hread a (by simp [ha])]
      rfl
    · have ho := (List.pairwise_cons.mp hs.pairwise).1
      have hnil : (e :: es).filter (fun e => decide
          (BeforeEnd range.endInclusive (ranks range.endKeyResults) (ranks (t.keyOf e)))) = [] := by
        rw [List.filter_eq_nil_iff]
        intro a ha
        rcases List.mem_cons.mp ha with rfl | ha
        · simpa using h
        · simpa using fun hle => h (hle.mono (ho a ha).le)
      simp only [h, decide_false, Bool.not_false, hnil]
      rfl

theorem scanFrom_eq (hv : t.Valid) (hb : range.Built conv t) (hp : plan.Scans t) {db : LevelDB}
    (hs : Store conv t db) {es : List Entry} (hsub : es.Sublist db) :
    plan.scanFrom conv range es =
      ⟨es.filter (fun e => decide
        (BeforeEnd range.endInclusive (ranks range.endKeyResults) (ranks (t.keyOf e)))), none⟩ :=
  scanFrom_eq_sorted hv hb hp ((hs.sortedKeys hv).sublist hsub) fun _ he => columnResults_ok hp hs (hsub.subset he)

/-- A scan delivers exactly the entries with keys of its range, in key order. -/
theorem run_eq_sorted (hv : t.Valid) (hp : plan.Scans t) (hr : plan.begin conv = .ok range) (hb : range.Built conv t)
    {db : LevelDB} (hs : SortedKeys conv t db) (hread : ∀ e ∈ db, ∃ vs, plan.columnResults e = .ok vs) :
    plan.run conv db = ⟨db.filter (fun e => decide (range.Contains (t.keyOf e))), none⟩ := by
  rw [run, hr]
  simp only [hp.table, KeySearchRange.seekStart_eq_sorted hb hs]
  rw [scanFrom_eq_sorted hv hb hp (hs.sublist List.filter_sublist) fun e he => hread e (List.mem_of_mem_filter he),
    List.filter_filter]
  congr 1
  refine List.filter_congr fun e _ => ?_
  rw [← Bool.decide_and, decide_eq_decide, KeySearchRange.Contains, and_comm]

theorem run_eq (hv : t.Valid) (hp : plan.Scans t) (hr : plan.searchRange = some range) (hb : range.Built conv t)
    {db : LevelDB} (hs : Store conv t db) :
    plan.run conv db = ⟨db.filter (fun e => decide (range.Contains (t.keyOf e))), none⟩ :=
  run_eq_sorted hv hp (by rw [begin, hr]) hb (hs.sortedKeys hv) fun _ he => columnResults_ok hp hs he

end LevelDBScanPlan

end LevelPgServer
