import LevelPgServer.Execution.FilterCorrect
import LevelPgServer.Execution.FullScan
import LevelPgServer.PlanBuilder.LevelDBPlanBuilder

namespace LevelPgServer

open ParseNode KeySearchRange KeyOrder ExceptRules RangeBuild

namespace LevelDBPlanBuilder.ScanPlanInfo

variable {conv : Conversions} {t : TableInfo}

open LevelDBScanPlan (Extends)

/-- The reference for a conjunction: a scan of the whole table below a filter on all of it. -/
def filteredFullScan (conv : Conversions) (t : TableInfo) (pPredicate : ParseNode) : Fallible ScanPlanInfo := do
  let (infos, scan) ← FilterPlan.addPredicate conv LevelDBScanPlan.ops [] pPredicate (LevelDBScanPlan.create t)
  return { scan, predicatesInOr := some [infos] }

theorem filteredFullScan_spec (hv : t.Valid) {p : ParseNode} {cs : List Comparison} (h : IsConjunction t p cs) :
    ((∀ cmp ∈ cs, cmp.Converts conv t) → ∃ full, filteredFullScan conv t p = .ok full ∧
        ∀ db, Store conv t db → full.run conv db = FilterPlan.selectRows conv t [cs] db) ∧
      ((∃ cmp ∈ cs, ¬ cmp.Converts conv t) → ∃ f, filteredFullScan conv t p = .error f) := by
  have hkept : FilterPlan.kept [] cs = cs := by simp [FilterPlan.kept]
  have hp := LevelDBScanPlan.create_scans (t := t) hv
  obtain ⟨hok, herr⟩ := @FilterPlan.doAddPredicate_spec conv _ hv [] _ _ h ([], LevelDBScanPlan.create t) hp
  rw [hkept] at hok herr
  constructor
  · intro hc
    obtain ⟨s', hs', hx, infos, hi, hf⟩ := hok hc
    rw [hkept] at hf
    rw [List.nil_append] at hi
    refine ⟨{ scan := s'.2, predicatesInOr := some [s'.1] }, by rw [filteredFullScan, FilterPlan.addPredicate, hs']; rfl,
      fun db hs => ?_⟩
    rw [run, LevelDBScanPlan.run_all hv hx.scans hx.range hs]
    exact FilterPlan.run_eq hx.scans (.cons (hi ▸ hf) .nil) db
  · intro hc
    obtain ⟨f, hf⟩ := herr hc
    exact ⟨f, by rw [filteredFullScan, FilterPlan.addPredicate, hf]; rfl⟩

theorem create_conjunction {p : ParseNode} {cs : List Comparison} (h : IsConjunction t p cs) :
    create conv t p = (do
      let (scan, solved) ← (LevelDBScanPlan.create t).setPredicate conv p
      if needFilter solved p then
        let (infos, scan) ← FilterPlan.addPredicate conv LevelDBScanPlan.ops solved p scan
        return { scan, predicatesInOr := some [infos], solved }
      else return { scan, solved }) := by
  cases h with
  | comparison cmp hop ha =>
    rw [create]
    · intro h; cases h
    · intro t' sx sv cs h
      have : cmp.op = .or := by simp_all
      simp [this, Predicate.isComparison] at hop
  | and hp hq => rfl

/-- A filter is put above the scan exactly when it would hold a comparison. -/
theorem needFilter_iff {p : ParseNode} {cs : List Comparison} (h : IsConjunction t p cs) (solved : List Bytes) :
    needFilter solved p = true ↔ FilterPlan.kept solved cs ≠ [] := by
  induction h with
  | @comparison sv c value cmp hop ha =>
    have hne : cmp.op ≠ .and := by rintro h; simp [h, Predicate.isComparison] at hop
    by_cases hi : cmp.sExpr ∈ solved <;> simp [needFilter, hne, FilterPlan.kept, hi]
  | and _ _ ihp ihq =>
    have hk : ∀ as bs : List Comparison, FilterPlan.kept solved (as ++ bs) =
        FilterPlan.kept solved as ++ FilterPlan.kept solved bs := by simp [FilterPlan.kept]
    rw [hk, needFilter, if_pos rfl, anyNeedFilter, anyNeedFilter, anyNeedFilter, Bool.or_false, Bool.or_eq_true, ihp, ihq,
      ne_eq, ne_eq, ne_eq, List.append_eq_nil_iff, not_and_or]

/-- A plan that was made for a conjunction. -/
structure PlanOf (conv : Conversions) (t : TableInfo) (cs : List Comparison) (info : ScanPlanInfo) : Prop where
  converts : ∀ cmp ∈ cs, cmp.Converts conv t
  scans : info.scan.Scans t
  range : ∃ range s, info.scan.searchRange = some range ∧ Stands conv t cs range info.solved s
  filter : (info.predicatesInOr = none ∧ FilterPlan.kept info.solved cs = []) ∨
    ∃ infos, info.predicatesInOr = some [infos] ∧
      List.Forall₂ (FilterPlan.Evaluates conv t info.scan) (FilterPlan.kept info.solved cs) infos

theorem setPredicate_eq (hv : t.Valid) (p : ParseNode) :
    (LevelDBScanPlan.create t).setPredicate conv p =
      (build conv t.keyTypes t p).map (fun r => ({ LevelDBScanPlan.create t with searchRange := some r.1 }, r.2)) := by
  have hb : build conv (LevelDBScanPlan.create t).keyTypes (LevelDBScanPlan.create t).table p =
      build conv t.keyTypes t p := by rw [LevelDBScanPlan.create_keyTypes hv]; rfl
  rw [LevelDBScanPlan.setPredicate, hb]
  cases build conv t.keyTypes t p <;> rfl

theorem create_spec (hv : t.Valid) {p : ParseNode} {cs : List Comparison} (h : IsConjunction t p cs)
    (htext : TextsDetermine cs) (hexact : ExactFloats conv t cs) :
    (∀ info, create conv t p = .ok info → PlanOf conv t cs info) ∧
      ∀ f, create conv t p = .error f →
        (∃ cmp ∈ cs, ¬ cmp.Converts conv t) ∨ (f = tooLargeString ∧ ∃ cmp ∈ cs, LongKey conv t cmp) := by
  obtain ⟨s, hs, hd⟩ := Conjunction.doSetPredicate_ok h (List.Subset.refl cs) (.initial cs)
  rw [create_conjunction h, setPredicate_eq hv]
  cases hb : build conv t.keyTypes t p with
  | error f =>
    refine ⟨fun info hi => (by cases hi), fun f' hf => ?_⟩
    obtain rfl : f = f' := Except.error.inj hf
    by_cases hconv : ∀ cmp ∈ cs, cmp.Converts conv t
    · rcases build_ok_or hv hexact hs hd hconv with ⟨r, hr⟩ | ⟨hr, hl⟩
      · rw [hb] at hr
        cases hr
      · rw [hb] at hr
        exact .inr ⟨Except.error.inj hr, hl⟩
    · push Not at hconv
      exact .inl hconv
  | ok r =>
    obtain ⟨range, solved⟩ := r
    have hst := build_stands hv hexact hs hd hb
    let scan : LevelDBScanPlan := { LevelDBScanPlan.create t with searchRange := some range }
    have hp : scan.Scans t :=
      have hc := LevelDBScanPlan.create_scans hv
      ⟨hc.table, hc.keyTypes, hc.valueTypes, hc.columnValues⟩
    have hsolved : ∀ cmp ∈ cs, cmp.sExpr ∈ solved → cmp.Converts conv t :=
      fun cmp hc hx => hst.solved_converts hv htext hc hx
    have hall : (∀ cmp ∈ FilterPlan.kept solved cs, cmp.Converts conv t) → ∀ cmp ∈ cs, cmp.Converts conv t := by
      intro hk cmp hc
      by_cases hx : cmp.sExpr ∈ solved
      · exact hsolved cmp hc hx
      · exact hk cmp (List.mem_filter.mpr ⟨hc, by simpa using hx⟩)
    rw [show (Except.ok (range, solved) : Fallible (KeySearchRange × List Bytes)).map
      (fun r => ({ LevelDBScanPlan.create t with searchRange := some r.1 }, r.2)) = .ok (scan, solved) from rfl, ok_bind]
    dsimp only
    by_cases hn : needFilter solved p = true
    · rw [if_pos hn]
      obtain ⟨hok, -⟩ := @FilterPlan.doAddPredicate_spec conv _ hv solved _ _ h ([], scan) hp
      by_cases hconv : ∀ cmp ∈ FilterPlan.kept solved cs, cmp.Converts conv t
      · obtain ⟨s', hs', hx, infos, hi, hf⟩ := hok hconv
        rw [FilterPlan.addPredicate, hs']
        refine ⟨fun info he => ?_, fun f he => by cases he⟩
        cases he
        exact ⟨hall hconv, hx.scans, ⟨range, s, hx.range, hst⟩, .inr ⟨s'.1, rfl, by rw [hi]; exact hf⟩⟩
      · push Not at hconv
        obtain ⟨cmp, hc, hnc⟩ := hconv
        obtain ⟨f, hf⟩ := (@FilterPlan.doAddPredicate_spec conv _ hv solved _ _ h ([], scan) hp).2 ⟨cmp, hc, hnc⟩
        rw [FilterPlan.addPredicate, hf]
        exact ⟨fun info he => (by cases he), fun f he => .inl ⟨cmp, (List.mem_filter.mp hc).1, hnc⟩⟩
    · rw [if_neg hn]
      have hk : FilterPlan.kept solved cs = [] := by simpa using (needFilter_iff h solved).not.mp hn
      refine ⟨fun info he => ?_, fun f he => by cases he⟩
      cases he
      exact ⟨hall (by simp [hk]), hp, ⟨range, s, rfl, hst⟩, .inl ⟨rfl, hk⟩⟩

/-- The plan filters the entries of its range by the comparisons that are not solved. -/
theorem PlanOf.run_eq {cs : List Comparison} {info : ScanPlanInfo} (h : PlanOf conv t cs info) (hv : t.Valid)
    {range : KeySearchRange} (hr : info.scan.searchRange = some range) {db : LevelDB} (hs : Store conv t db) :
    info.run conv db = FilterPlan.selectRows conv t [FilterPlan.kept info.solved cs]
      (db.filter (fun e => decide (range.Contains (t.keyOf e)))) := by
  obtain ⟨range', s, hr', hst⟩ := h.range
  obtain rfl : range' = range := Option.some.inj (hr'.symm.trans hr)
  have hscan := LevelDBScanPlan.run_eq hv h.scans hr hst.built hs
  rw [run]
  rcases h.filter with ⟨hn, hk⟩ | ⟨infos, hi, hf⟩
  · rw [hn, hk, FilterPlan.selectRows_nil]
    exact hscan
  · rw [hi]
    dsimp only
    rw [hscan]
    exact FilterPlan.run_eq h.scans (.cons hf .nil) _

/-- Where every comparison can be decided, the plan selects what the whole conjunction does. -/
theorem PlanOf.run_selects {cs : List Comparison} {info : ScanPlanInfo} (h : PlanOf conv t cs info) (hv : t.Valid)
    (htext : TextsDetermine cs) (hexact : ExactFloats conv t cs) {db : LevelDB} (hs : Store conv t db)
    (hf : (FilterPlan.selectRows conv t [cs] db).fault = none) :
    info.run conv db = FilterPlan.selectRows conv t [cs] db := by
  obtain ⟨range, s, hr, hst⟩ := h.range
  rw [h.run_eq hv hr hs]
  have hcontains : ∀ e ∈ db, (range.Contains (t.keyOf e) ↔
      ∀ cmp ∈ cs, cmp.sExpr ∈ info.solved → cmp.test conv t e = .ok true) :=
    fun e he => hst.contains_iff hv htext hexact hs he
  clear hs
  induction db with
  | nil => rfl
  | cons e es ih =>
    have hrec := fun h => ih h fun a ha => hcontains a (List.mem_cons_of_mem _ ha)
    rw [FilterPlan.selectRows, FilterPlan.testAny_singleton] at hf ⊢
    have hmem := hcontains e (by simp)
    cases htest : FilterPlan.testAll conv t e cs with
    | error f =>
      rw [htest] at hf
      cases hf
    | ok b =>
      rw [htest] at hf
      by_cases hin : range.Contains (t.keyOf e)
      · rw [List.filter_cons_of_pos (by simpa using hin), FilterPlan.selectRows, FilterPlan.testAny_singleton,
          FilterPlan.testAll_kept (hmem.mp hin), htest]
        cases b with
        | true => exact congrArg (Run.cons e) (hrec hf)
        | false => exact hrec hf
      · rw [List.filter_cons_of_neg (by simpa using hin)]
        cases b with
        | true => exact absurd (hmem.mpr fun cmp hc _ => FilterPlan.testAll_eq_true.mp htest cmp hc) hin
        | false => exact hrec hf

/-- The plan of a conjunction delivers the rows of a full scan below a filter on all of it, in
key order. No plan is made only where the reference cannot be made either, or where a key
column is compared with a string that is too long to be stored. -/
theorem create_eq_filteredFullScan (conv : Conversions) (t : TableInfo) (hv : t.Valid) (p : ParseNode)
    (cs : List Comparison) (h : IsConjunction t p cs) (htext : TextsDetermine cs) (hexact : ExactFloats conv t cs) :
    (∀ info, create conv t p = .ok info → ∃ full, filteredFullScan conv t p = .ok full ∧
        ∀ db, Store conv t db → (full.run conv db).fault = none → info.run conv db = full.run conv db) ∧
      ∀ f, create conv t p = .error f → (∃ f', filteredFullScan conv t p = .error f') ∨
        (f = tooLargeString ∧ ∃ cmp ∈ cs, LongKey conv t cmp) := by
  obtain ⟨hok, herr⟩ := create_spec hv h htext hexact
  obtain ⟨hfull, hfullErr⟩ := @filteredFullScan_spec conv _ hv _ _ h
  constructor
  · intro info hi
    have hplan := hok info hi
    obtain ⟨full, hf, hrun⟩ := hfull hplan.converts
    refine ⟨full, hf, fun db hs hfault => ?_⟩
    rw [hrun db hs] at hfault ⊢
    exact hplan.run_selects hv htext hexact hs hfault
  · intro f hf
    rcases herr f hf with hn | hl
    · exact .inl (hfullErr hn)
    · exact .inr hl

/-- A table with one column, `a`, which is its key and a string. -/
def nameTable : TableInfo where
  name := bytes "t"
  columns := [{ name := bytes "a", type := .string, keyIndex := some 0 }]
  keys := [0]
  attr := [(bytes "path", bytes "p")]

theorem nameTable_valid : nameTable.Valid :=
  @TableInfo.define_valid (bytes "t") (bytes "p") [⟨bytes "a", .string, 0⟩] [bytes "a"] _ rfl (by decide) (by decide)

/-- The comparison of `a` with the string `s`. -/
def nameComparison (op : Operation) (sExpr s : Bytes) : Comparison :=
  ⟨op, sExpr, .node .name .none (bytes "a") (bytes "a") [], .node .str .none s s []⟩

def nameNode (op : Operation) (sExpr s : Bytes) : ParseNode :=
  .node .op op sExpr [] [.node .name .none (bytes "a") (bytes "a") [], .node .str .none s s []]

theorem nameNode_isConjunction {op : Operation} (hop : Predicate.isComparison op = true) (sExpr s : Bytes) :
    IsConjunction nameTable (nameNode op sExpr s) [nameComparison op sExpr s] :=
  .comparison (nameComparison op sExpr s) hop
    (.left (c := { name := bytes "a", type := .string, keyIndex := some 0 }) ⟨rfl, rfl, rfl⟩ rfl)

theorem nameTable_exactFloats (cs : List Comparison) : ExactFloats conv nameTable cs := by
  intro cmp _ c value ha hk d hd
  have hstring : ∀ {p : ParseNode}, nameTable.Names p c → c.type = .string := by
    intro p hn
    obtain ⟨i, hi⟩ := TableInfo.getColumnByName_mem hn.column
    cases i with
    | zero => cases hi; rfl
    | succ i => cases hi
  have htype : c.type = .string := by
    cases ha with
    | left hn _ => exact hstring hn
    | right hn _ => exact hstring hn
  rw [htype] at hd
  obtain ⟨s, hs⟩ := fromStringNode_spec hd
  cases hs

/-- `a > 'b' AND a <= 'e'`. -/
def nameBetween : ParseNode :=
  .node .op .and [] [] [nameNode .compGt (bytes "a>'b'") (bytes "b"), nameNode .compLe (bytes "a<='e'") (bytes "e")]

def nameBetweenComparisons : List Comparison :=
  [nameComparison .compGt (bytes "a>'b'") (bytes "b"), nameComparison .compLe (bytes "a<='e'") (bytes "e")]

theorem nameBetween_texts : TextsDetermine nameBetweenComparisons := by
  intro a ha b hb h
  simp only [nameBetweenComparisons, List.mem_cons, List.not_mem_nil, or_false] at ha hb
  rcases ha with rfl | rfl <;> rcases hb with rfl | rfl
  · rfl
  · exact absurd h (by decide)
  · exact absurd h (by decide)
  · rfl

theorem create_eq_filteredFullScan_nameBetween :
    (∀ info, create decimalConversions nameTable nameBetween = .ok info →
        ∃ full, filteredFullScan decimalConversions nameTable nameBetween = .ok full ∧
          ∀ db, Store decimalConversions nameTable db → (full.run decimalConversions db).fault = none →
            info.run decimalConversions db = full.run decimalConversions db) ∧
      ∀ f, create decimalConversions nameTable nameBetween = .error f →
        (∃ f', filteredFullScan decimalConversions nameTable nameBetween = .error f') ∨
          (f = tooLargeString ∧ ∃ cmp ∈ nameBetweenComparisons, LongKey decimalConversions nameTable cmp) :=
  create_eq_filteredFullScan decimalConversions nameTable nameTable_valid nameBetween nameBetweenComparisons
    (.and (nameNode_isConjunction rfl _ _) (nameNode_isConjunction rfl _ _)) nameBetween_texts (nameTable_exactFloats _)

theorem copyRow_long {s : Bytes} (h : maxLength ≤ s.length) :
    DataRow.copyRow conv [.string] [.string s] = .error tooLargeString := by
  have hwrite : (getHandler .string).write conv (.string s) = .error tooLargeString := by
    simp [getHandler, DBDataTypeHandler.write, h, throwExecution, tooLargeString]
  change (DataRow.copyFrom conv [.string] [.string s] _ 0 >>= _) = _
  rw [DataRow.copyFrom, hwrite]
  rfl

theorem create_long {s : Bytes} (h : maxLength ≤ s.length) (sExpr : Bytes) :
    create conv nameTable (nameNode .compEq sExpr s) = .error tooLargeString := by
  have hbuild : build conv nameTable.keyTypes nameTable (nameNode .compEq sExpr s) = .error tooLargeString := by
    change (DataRow.copyRow conv [.string] [.string s] >>= _) = _
    rw [copyRow_long h]
    rfl
  rw [create_conjunction (@nameNode_isConjunction .compEq rfl sExpr s), setPredicate_eq nameTable_valid, hbuild]
  rfl

theorem filteredFullScan_name (sExpr s : Bytes) :
    ∃ full, filteredFullScan conv nameTable (nameNode .compEq sExpr s) = .ok full ∧ full.run conv [] = ⟨[], none⟩ := by
  have hconv : ∀ cmp ∈ [nameComparison .compEq sExpr s], cmp.Converts conv nameTable := by
    intro cmp hc c value ha
    obtain rfl := List.mem_singleton.mp hc
    obtain ⟨rfl, rfl⟩ := ha.unique
      (.left (c := { name := bytes "a", type := .string, keyIndex := some 0 }) ⟨rfl, rfl, rfl⟩ rfl)
    exact ⟨.string s, rfl⟩
  obtain ⟨full, hf, hrun⟩ := (@filteredFullScan_spec conv _ nameTable_valid _ _
    (@nameNode_isConjunction .compEq rfl sExpr s)).1 hconv
  refine ⟨full, hf, ?_⟩
  rw [hrun [] ⟨.nil, by simp, by simp⟩]
  rfl

def longName : Bytes := List.replicate 65535 97

/-- The reference finds no row of that name, but the plan with a range cannot be made. -/
theorem create_longName :
    create decimalConversions nameTable (nameNode .compEq (bytes "a='aa..'") longName) = .error tooLargeString ∧
      ∃ full, filteredFullScan decimalConversions nameTable (nameNode .compEq (bytes "a='aa..'") longName) = .ok full ∧
        full.run decimalConversions [] = ⟨[], none⟩ :=
  ⟨create_long (by rw [longName, List.length_replicate]; exact le_rfl) _, filteredFullScan_name _ _⟩

end LevelDBPlanBuilder.ScanPlanInfo

end LevelPgServer
