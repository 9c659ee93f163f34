import LevelPgServer.Execution.LevelDBInsertPlan

namespace LevelPgServer

open DBDataTypeHandler DataRow KeyOrder ExceptRules ThreeWay

namespace DataRow

/-- What a row is stored as depends on the handlers of its types only. -/
theorem copyRow_congr (conv : Conversions) {types types' : List DBDataType}
    (h : types.map getHandler = types'.map getHandler) (vs : List ExecutionResult) :
    copyRow conv types vs = copyRow conv types' vs := by
  have hboth : computeSize conv types vs = computeSize conv types' vs ∧
      ∀ buf off, copyFrom conv types vs buf off = copyFrom conv types' vs buf off := by
    induction types generalizing types' vs with
    | nil =>
      obtain rfl := List.map_eq_nil_iff.mp h.symm
      exact ⟨rfl, fun _ _ => rfl⟩
    | cons type types ih =>
      cases types' with
      | nil => cases h
      | cons type' types' =>
        obtain ⟨hh, ht⟩ := List.cons.inj h
        cases vs with
        | nil => exact ⟨rfl, fun _ _ => rfl⟩
        | cons v vs =>
          obtain ⟨hs, hc⟩ := ih ht vs
          refine ⟨by rw [computeSize, computeSize, hh, hs], fun buf off => ?_⟩
          rw [copyFrom, copyFrom, hh]
          exact bind_congr fun bs => bind_congr fun n => hc _ _
  rw [copyRow, copyRow, hboth.1]
  exact bind_congr fun n => by rw [copy, copy, hboth.2]

end DataRow

namespace TableInfo

variable {conv : Conversions} {t : TableInfo}

/-- What holds of every column and its value holds of those at some places. -/
theorem forall₂_places {P : DBColumnInfo → ExecutionResult → Prop} {row : List ExecutionResult}
    (h : List.Forall₂ P t.columns row) {places : List Nat} (hlt : ∀ i ∈ places, i < t.columns.length) :
    List.Forall₂ P (places.filterMap t.getColumn) (places.map (fun i => row.getD i .null)) := by
  induction places with
  | nil => exact .nil
  | cons i places ih =>
    have hi := hlt i (by simp)
    have hir : i < row.length := h.length_eq ▸ hi
    rw [List.filterMap_cons_some (show t.getColumn i = some t.columns[i] from List.getElem?_eq_getElem hi), List.map_cons,
      List.getD_eq_getElem?_getD, List.getElem?_eq_getElem hir, Option.getD_some]
    exact .cons ((List.forall₂_iff_get.mp h).2 i hi hir) (ih fun j hj => hlt j (by simp [hj]))

def rowOf (t : TableInfo) (e : Entry) : List ExecutionResult :=
  t.columns.map (fun c =>
    match t.columnOf e c with
    | .ok v => v
    | .error _ => .null)

theorem readRow_rowOf (hv : t.Valid) {e : Entry} (h : ∀ c ∈ t.columns, ∃ v, t.columnOf e c = .ok v) :
    LevelDBScanPlan.readRow t e = .ok (t.rowOf e) := by
  rw [LevelDBScanPlan.readRow_eq hv, rowOf]
  refine mapM_eq_ok fun c hc => ?_
  obtain ⟨v, hval⟩ := h c hc
  rw [hval]

theorem keyRow_rowOf (hv : t.Valid) {e : Entry} {ks : List ExecutionResult} (hk : IsKey conv t.keyTypes ks e.1) :
    t.keyRow (t.rowOf e) = ks := by
  have hlen : t.keys.length = ks.length := by rw [← hk.ordered.length_eq, hv.length_keyTypes]
  refine List.ext_getElem (by rw [keyRow, List.length_map, hlen]) fun k h1 h2 => ?_
  have hkey : k < t.keys.length := by rw [hlen]; exact h2
  have hi := hv.keys_lt _ (List.getElem_mem hkey)
  have hc := List.getElem?_eq_getElem hi
  have hidx := (hv.keyIndex _ _ hc k).mpr (List.getElem?_eq_getElem hkey)
  have hget := hk.getResult k _ (List.getElem?_eq_getElem h2)
  simp only [keyRow, rowOf, List.getElem_map, List.getD_eq_getElem?_getD, List.getElem?_map, hc, Option.map_some,
    Option.getD_some]
  rw [columnOf, hidx]
  dsimp only
  rw [hget]

theorem keyOf_eq (hv : t.Valid) {e : Entry} {ks : List ExecutionResult} (hk : IsKey conv t.keyTypes ks e.1) :
    t.keyOf e = ks := by
  have hm := hk.mapM_getResult
  rw [hv.length_keyTypes] at hm
  rw [keyOf, getKeyCount, hm]

end TableInfo

namespace Store

variable {conv : Conversions} {t : TableInfo} {db : LevelDB}

theorem columnOf_ok (hv : t.Valid) (hs : Store conv t db) {e : Entry} (he : e ∈ db) :
    ∀ c ∈ t.columns, ∃ v, t.columnOf e c = .ok v := by
  intro c hc
  obtain ⟨i, hi⟩ := List.mem_iff_getElem?.mp hc
  cases hk : c.keyIndex with
  | some k =>
    have hkey := (hs.keyValues hv he).1
    have hlt : k < (t.keyOf e).length := by
      rw [← hkey.ordered.length_eq, hv.length_keyTypes]
      exact hv.keyIndex_lt hi hk
    exact ⟨(t.keyOf e)[k], by rw [TableInfo.columnOf, hk]; exact hkey.getResult k _ (List.getElem?_eq_getElem hlt)⟩
  | none =>
    obtain ⟨v, hval⟩ := Option.ne_none_iff_exists'.mp ((hv.isValue i c hi).mp hk)
    obtain ⟨w, hw, -⟩ := hs.values e he v (hv.valueIndex_lt hi hval)
    exact ⟨w, by rw [TableInfo.columnOf, hk, hval]; exact hw⟩

theorem scanTable_eq (hv : t.Valid) (hs : Store conv t db) :
    LevelDBScanPlan.scanTable conv t db = .ok (db.map t.rowOf) := by
  rw [LevelDBScanPlan.scanTable, LevelDBScanPlan.run_all hv (LevelDBScanPlan.allColumns_scans hv) rfl hs]
  exact mapM_eq_ok fun e he => TableInfo.readRow_rowOf hv (hs.columnOf_ok hv he)

theorem keyRow_rowOf (hv : t.Valid) (hs : Store conv t db) {e : Entry} (he : e ∈ db) :
    t.keyRow (t.rowOf e) = t.keyOf e := TableInfo.keyRow_rowOf hv (hs.keyValues hv he).1

end Store

namespace LevelDBInsertPlan

variable {conv : Conversions} {t : TableInfo}

structure Holds (conv : Conversions) (t : TableInfo) (row : List ExecutionResult) (e : Entry) : Prop where
  admitted : Admitted t row
  sizes : SizesReadBack t row
  key : IsKey conv t.keyTypes (t.keyRow row) e.1
  value : ∃ ds, columnBytes conv t.valueTypes (t.valueRow row) = .ok ds ∧ e.2 = ds.flatten

theorem isOrdered_of_hasType {h : DBDataTypeHandler} {v : ExecutionResult} (ht : hasType h v = true)
    (hn : ∀ d, v = .double d → d.isNaN = false) : isOrdered h v = true := by
  cases v with
  | double d => simp [isOrdered, ht, hn d rfl]
  | _ => simp [isOrdered, ht]

theorem hasTypes_keyRow (hv : t.Valid) {row : List ExecutionResult} (h : Admitted t row) :
    HasTypes t.keyTypes (t.keyRow row) := by
  rw [TableInfo.keyTypes, HasTypes, List.forall₂_map_left_iff]
  exact (TableInfo.forall₂_places h.types hv.keys_lt).imp fun _ _ hp => hp.1

theorem hasTypes_valueRow (hv : t.Valid) {row : List ExecutionResult} (h : Admitted t row) :
    HasTypes t.valueTypes (t.valueRow row) := by
  rw [TableInfo.valueTypes, HasTypes, List.forall₂_map_left_iff]
  exact (TableInfo.forall₂_places h.types hv.values_lt).imp fun _ _ hp => hp.1

theorem mem_row_ne_max {row : List ExecutionResult} (h : Admitted t row) {places : List Nat}
    (hlt : ∀ i ∈ places, i < t.columns.length) : ∀ v ∈ places.map (fun i => row.getD i .null), v ≠ .maxString := by
  intro v hm
  obtain ⟨i, hi, rfl⟩ := List.mem_map.mp hm
  have hir : i < row.length := admitted_length h ▸ hlt i hi
  rw [List.getD_eq_getElem?_getD, List.getElem?_eq_getElem hir, Option.getD_some]
  exact ((List.forall₂_iff_get.mp h.types).2 i (hlt i hi) hir).2

theorem orderedTypes_keyRow (hv : t.Valid) {row : List ExecutionResult} (h : Admitted t row) :
    OrderedTypes t.keyTypes (t.keyRow row) := by
  have hall : ∀ {types : List DBDataType} {vs : List ExecutionResult}, HasTypes types vs →
      (∀ d, .double d ∈ vs → d.isNaN = false) → OrderedTypes types vs := by
    intro types vs ht
    induction ht with
    | nil => exact fun _ => .nil
    | cons hv _ ih =>
      intro hd
      exact .cons (isOrdered_of_hasType hv fun d he => hd d (by simp [he])) (ih fun d hm => hd d (by simp [hm]))
  exact hall (hasTypes_keyRow hv h) h.noNaN

/-- Where the inserting side has the key types of the table, `next` writes the row it read. -/
theorem holds_of_entryOf (hv : t.Valid) (ha : (create t).keyTypes.map getHandler = t.keyTypes.map getHandler)
    {row : List ExecutionResult} (h : Admitted t row) (hr : SizesReadBack t row) {e : Entry}
    (he : (create t).entryOf conv row = .ok e) : Holds conv t row e := by
  obtain ⟨key, hk, he⟩ := bind_eq_ok.mp he
  obtain ⟨value, hval, he⟩ := bind_eq_ok.mp he
  cases he
  rw [copyRow_congr conv ha] at hk
  rw [valueTypes_eq hv] at hval
  exact
    { admitted := h
      sizes := hr
      key :=
        { ordered := orderedTypes_keyRow hv h
          readable := hr.1
          noMax := fun hm => mem_row_ne_max h hv.keys_lt _ hm rfl
          stored := (copyRow_eq_ok conv (hasTypes_keyRow hv h)).mp hk }
      value := (copyRow_eq_ok conv (hasTypes_valueRow hv h)).mp hval }

theorem Holds.getValue (hv : t.Valid) {row : List ExecutionResult} {e : Entry} (h : Holds conv t row e) {v : Nat}
    {w : ExecutionResult} (hw : (t.valueRow row)[v]? = some w) : getResult t.valueTypes e.2 v = .ok w := by
  obtain ⟨ds, hds, he⟩ := h.value
  have hr : ∀ x ∈ (t.valueRow row).take v, sizeReadsBack x = true := by
    intro x hx
    have hlt : v < (t.valueRow row).length := (List.getElem?_eq_some_iff.mp hw).1
    refine h.sizes.2 x ?_
    rw [List.dropLast_eq_take]
    exact List.mem_of_mem_take (i := v) (by rwa [List.take_take, min_eq_left (by omega)])
  have hg := getResult_eq conv (hasTypes_valueRow hv h.admitted) hds [] v hr w hw
  rwa [List.append_nil, ← he] at hg

theorem Holds.rowOf_eq (hv : t.Valid) {row : List ExecutionResult} {e : Entry} (h : Holds conv t row e) :
    t.rowOf e = row := by
  have hlen := admitted_length h.admitted
  refine List.ext_getElem (by rw [TableInfo.rowOf, List.length_map, hlen]) fun i h1 h2 => ?_
  have hi : i < t.columns.length := hlen ▸ h2
  have hc := List.getElem?_eq_getElem hi
  have hgetD : row.getD i .null = row[i] := by
    rw [List.getD_eq_getElem?_getD, List.getElem?_eq_getElem h2, Option.getD_some]
  simp only [TableInfo.rowOf, List.getElem_map]
  cases hk : (t.columns[i]).keyIndex with
  | some k =>
    have hkey := (hv.keyIndex i _ hc k).mp hk
    have hrow : (t.keyRow row)[k]? = some row[i] := by rw [TableInfo.keyRow, List.getElem?_map, hkey, ← hgetD]; rfl
    rw [TableInfo.columnOf, hk]
    dsimp only
    rw [h.key.getResult k _ hrow]
  | none =>
    obtain ⟨v, hval⟩ := Option.ne_none_iff_exists'.mp ((hv.isValue i _ hc).mp hk)
    have hvalue := (hv.valueIndex i _ hc v).mp hval
    have hrow : (t.valueRow row)[v]? = some row[i] := by
      rw [TableInfo.valueRow, List.getElem?_map, hvalue, ← hgetD]
      rfl
    rw [TableInfo.columnOf, hk, hval]
    dsimp only
    rw [h.getValue hv hrow]

/-- The last row of a batch with some key is the one its last entry at that place holds. -/
theorem lastWith_rel (hv : t.Valid) {rows : List (List ExecutionResult)} {es : List Entry}
    (h : List.Forall₂ (Holds conv t) rows es) (r : List Rank) :
    Option.Rel (Holds conv t) (t.lastWith rows r) (OrderedMap.lastAt (fun k => ranks (t.keyOf (k, []))) es r) := by
  induction h with
  | nil => exact .none
  | @cons row e rows es hrow _ ih =>
    have hkey : ranks (t.keyOf (e.1, [])) = ranks (t.keyRow row) :=
      congrArg ranks (TableInfo.keyOf_eq (e := (e.1, [])) hv hrow.key)
    rw [TableInfo.lastWith_cons, OrderedMap.lastAt_cons, hkey]
    generalize t.lastWith rows r = later, OrderedMap.lastAt _ es r = laterEntry at ih
    cases ih with
    | some hh => exact .some hh
    | none =>
      simp only [Option.none_or]
      split
      · exact .some hrow
      · exact .none

/-- `KeyComparator` compares the ranks of stored keys. -/
theorem keyCompare_compares (conv : Conversions) (hv : t.Valid) : OrderedMap.Compares (keyCompare conv t.keyTypes)
    (fun k => ranks (t.keyOf (k, []))) (fun k => ∃ ks, IsKey conv t.keyTypes ks k) := by
  rintro a b ⟨ks, ha⟩ ⟨ls, hb⟩
  obtain ⟨ds, hds, hb'⟩ := hb.stored
  dsimp only
  rw [ha.compare hb.ordered hds hb', TableInfo.keyOf_eq (e := (a, [])) hv ha, TableInfo.keyOf_eq (e := (b, [])) hv hb]

/-- After a commit the table is again in order and holds, under every key, the last row of
the batch with it. -/
theorem commit_upserts (hv : t.Valid) {db : LevelDB} (hs : Store conv t db) {rows : List (List ExecutionResult)}
    {es : List Entry} (h : List.Forall₂ (Holds conv t) rows es) :
    Store conv t (LevelDB.commit conv t es db) ∧ Upserted conv t rows db (LevelDB.commit conv t es db) := by
  let f : Bytes → List Rank := fun k => ranks (t.keyOf (k, []))
  have hf : ∀ {k ks}, IsKey conv t.keyTypes ks k → f k = ranks ks :=
    fun hk => congrArg ranks (TableInfo.keyOf_eq (e := (_, [])) hv hk)
  have hc : OrderedMap.Compares _ f _ := keyCompare_compares conv hv
  have hbatch : ∀ p ∈ es, ∃ row, Holds conv t row p := by
    intro p hp
    obtain ⟨i, hi⟩ := List.mem_iff_getElem?.mp hp
    obtain ⟨hlt, rfl⟩ := List.getElem?_eq_some_iff.mp hi
    exact ⟨_, (List.forall₂_iff_get.mp h).2 i (h.length_eq ▸ hlt) hlt⟩
  obtain ⟨hord, hkeys, hmem⟩ := OrderedMap.putAll_spec hc
    (fun p hp => (hbatch p hp).elim fun row hrow => ⟨_, hrow.key⟩) (fun e he => hs.keys e he) (hs.pairwise_ranks hv)
  have hfrom : ∀ e ∈ LevelDB.commit conv t es db, e ∈ db ∨ ∃ row, Holds conv t row e := by
    intro e he
    rcases (hmem e).mp he with hl | ⟨-, he⟩
    · exact .inr (hbatch e (by
        have := List.mem_of_find?_eq_some (List.findRev?_eq_find?_reverse.symm.trans hl)
        simpa using this))
    · exact .inl he
  have hs' : Store conv t (LevelDB.commit conv t es db) :=
    { ordered := by
        refine hord.imp_of_mem fun {a b} ha hb hlt => ?_
        rw [hc a.1 b.1 (hkeys a ha) (hkeys b hb)]
        exact order_of_lt hlt
      keys := hkeys
      values := fun e he i hi => by
        rcases hfrom e he with he | ⟨row, hrow⟩
        · exact hs.values e he i hi
        · have hlt : i < (t.valueRow row).length := by rwa [TableInfo.valueRow, List.length_map]
          exact ⟨_, hrow.getValue hv (List.getElem?_eq_getElem hlt),
            mem_row_ne_max hrow.admitted hv.values_lt _ (List.getElem_mem hlt)⟩ }
  refine ⟨hs', db.map t.rowOf, _, hs.scanTable_eq hv, hs'.scanTable_eq hv, ?_, fun row => ?_⟩
  · rw [List.pairwise_map]
    refine hord.imp_of_mem fun {a b} ha hb hlt => ?_
    rw [hs'.keyRow_rowOf hv ha, hs'.keyRow_rowOf hv hb]
    exact hlt
  · have hrel := lastWith_rel hv h
    constructor
    · intro hm
      obtain ⟨e, he, rfl⟩ := List.mem_map.mp hm
      rw [hs'.keyRow_rowOf hv he]
      have hr := hrel (f e.1)
      rcases (hmem e).mp he with hl | ⟨hl, he'⟩
      · rw [hl] at hr
        generalize ho : t.lastWith rows (f e.1) = o at hr
        cases hr with
        | some hh => exact .inl (ho.trans (by rw [hh.rowOf_eq hv]))
      · rw [hl] at hr
        generalize ho : t.lastWith rows (f e.1) = o at hr
        cases hr with
        | none => exact .inr ⟨ho, List.mem_map.mpr ⟨e, he', rfl⟩⟩
    · have hr := hrel (ranks (t.keyRow row))
      rintro (hl | ⟨hl, hm⟩)
      · rw [hl] at hr
        generalize ho : OrderedMap.lastAt f es (ranks (t.keyRow row)) = o at hr
        cases hr with
        | @some _ e hh =>
          refine List.mem_map.mpr ⟨e, (hmem e).mpr (.inl ?_), hh.rowOf_eq hv⟩
          rw [hf hh.key]
          exact ho
      · obtain ⟨e, he, rfl⟩ := List.mem_map.mp hm
        rw [hs.keyRow_rowOf hv he] at hl hr
        rw [hl] at hr
        generalize ho : OrderedMap.lastAt f es (ranks (t.keyOf e)) = o at hr
        cases hr with
        | none => exact List.mem_map.mpr ⟨e, (hmem e).mpr (.inr ⟨ho, he⟩), rfl⟩

/-- An insert whose key types agree with those of the table keeps the table in order and
replaces exactly the rows with the keys it inserts. -/
theorem run_upserts (hv : t.Valid) (ha : (create t).keyTypes.map getHandler = t.keyTypes.map getHandler) {db : LevelDB}
    (hs : Store conv t db) {rows : List (List ExecutionResult)}
    (hrows : ∀ row ∈ rows, Admitted t row ∧ SizesReadBack t row) {n : Nat} {f : Option Fault} {r : LevelDB × Nat}
    (h : (create t).run conv n ⟨rows, f⟩ db = .ok r) : Store conv t r.1 ∧ Upserted conv t rows db r.1 := by
  obtain ⟨es, hr, hes⟩ := run_ok hv (fun row hm => admitted_length (hrows row hm).1) h
  rw [hr]
  refine commit_upserts hv hs ?_
  clear hr h
  induction hes with
  | nil => exact .nil
  | cons he _ ih =>
    exact .cons (holds_of_entryOf hv ha (hrows _ (by simp)).1 (hrows _ (by simp)).2 he) (ih fun row hm => hrows row (by simp [hm]))

end LevelDBInsertPlan

end LevelPgServer
