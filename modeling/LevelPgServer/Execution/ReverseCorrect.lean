import LevelPgServer.Execution.InsertUpserts
import LevelPgServer.Execution.RangeBuild
import LevelPgServer.Execution.ReverseScan
import LevelPgServer.Lib.SortedFilter

namespace LevelPgServer

open DBDataTypeHandler DataRow KeyOrder KeyRange ExceptRules ThreeWay LexRange
open LevelDBInsertPlan (NoInnerString)

namespace KeySearchRange

/-- What the constructor guarantees of a range, its last row included. -/
structure Constructed (conv : Conversions) (t : TableInfo) (range : KeySearchRange) : Prop extends Built conv t range where
  endRow : ∃ cs, columnBytes conv t.keyTypes range.endKeyResults = .ok cs ∧ range.endRow = cs.flatten

variable {conv : Conversions} {t : TableInfo} {range : KeySearchRange}

theorem exceedEndReversed_eq (hb : range.Built conv t) {ks : List ExecutionResult} (hk : BoundedTypes t.keyTypes ks) :
    range.exceedEndReversed conv ks =
      .ok (!decide (AfterStart range.startInclusive (ranks range.startKeyResults) (ranks ks))) := by
  rw [exceedEndReversed]
  split
  · next hf => simp [hb.toFirst hf ks hk]
  · have ho : OrderedTypes t.keyTypes ks := hk.imp fun _ _ h => h.ordered
    rw [hb.keyTypes, compareResults_eq conv ho hb.startOrdered, ok_bind, pure_eq_ok]
    congr 1
    obtain h | h | h := lt_trichotomy (ranks ks) (ranks range.startKeyResults)
    · rw [order_of_lt h]
      cases range.startInclusive <;> simp [h, h.le]
    · rw [h, order_self]
      cases range.startInclusive <;> simp
    · rw [order_of_gt h]
      cases range.startInclusive <;> simp [h, h.le]

def Descending (t : TableInfo) (es : List Entry) : Prop := es.Pairwise (fun a b => ranks (t.keyOf b) < ranks (t.keyOf a))

theorem skipEnd_eq (hc : range.Constructed conv t) {es : List Entry} (hk : ∀ e ∈ es, IsKey conv t.keyTypes (t.keyOf e) e.1)
    (ho : Descending t es) :
    range.skipEnd conv es =
      .ok (es.filter (fun e => decide (BeforeEnd range.endInclusive (ranks range.endKeyResults) (ranks (t.keyOf e))))) := by
  induction es with
  | nil => rfl
  | cons e es ih =>
    obtain ⟨cs, hcs, hrow⟩ := hc.endRow
    obtain ⟨ds, hds, hkey⟩ := (hk e (by simp)).stored
    have hcmp := compare_row conv (hk e (by simp)).ordered hc.endOrdered hds hcs (hk e (by simp)).readable [] []
    rw [List.append_nil, List.append_nil] at hcmp
    have hstop : (order (ranks (t.keyOf e)) (ranks range.endKeyResults) = .eq ∧ range.endInclusive = true ∨
        order (ranks (t.keyOf e)) (ranks range.endKeyResults) = .lt) ↔
          BeforeEnd range.endInclusive (ranks range.endKeyResults) (ranks (t.keyOf e)) := by
      rw [order_eq_lt, order_eq_eq]
      cases range.endInclusive with
      | true => simp [le_iff_eq_or_lt]
      | false => simp
    have hskip : range.skipEnd conv (e :: es) =
        if order (ranks (t.keyOf e)) (ranks range.endKeyResults) = .eq ∧ range.endInclusive = true ∨
          order (ranks (t.keyOf e)) (ranks range.endKeyResults) = .lt then .ok (e :: es) else range.skipEnd conv es := by
      rw [skipEnd, hkey, hrow, hc.keyTypes, hcmp, ok_bind]
      by_cases h1 : order (ranks (t.keyOf e)) (ranks range.endKeyResults) = .eq ∧ range.endInclusive = true
      · rw [if_pos h1, if_pos (.inl h1)]
        rfl
      · rw [if_neg h1]
        by_cases h2 : order (ranks (t.keyOf e)) (ranks range.endKeyResults) = .lt
        · rw [if_pos h2, if_pos (.inr h2)]
          rfl
        · rw [if_neg h2, if_neg (by tauto)]
    rw [hskip]
    by_cases h : BeforeEnd range.endInclusive (ranks range.endKeyResults) (ranks (t.keyOf e))
    · rw [if_pos (hstop.mpr h), List.filter_eq_self.mpr]
      intro a ha
      obtain rfl | ha := List.mem_cons.mp ha
      · simpa using h
      · simpa using h.mono ((List.pairwise_cons.mp ho).1 a ha).le
    · rw [if_neg (fun hs => h (hstop.mp hs)), List.filter_cons_of_neg (by simpa using h)]
      exact ih (fun a ha => hk a (by simp [ha])) ho.of_cons

/-- `last` stands at the last entry, with all others behind. -/
theorem behind_last (it : LevelDBIterator) : it.last.behind = it.entries.reverse := by
  rw [LevelDBIterator.last]
  cases h : it.entries.reverse <;> simp [LevelDBIterator.behind]

/-- What is reached backwards from the first key that is not before the end: that key, and the
keys before the end. -/
theorem filter_behind_seek {db : LevelDB} (hs : SortedKeys conv t db) {r : List Rank} (inclusive : Bool) {e : Entry}
    {es : List Entry} (h : db.filter (fun e => decide (r ≤ ranks (t.keyOf e))) = e :: es) :
    (e :: (db.filter (fun e => decide (ranks (t.keyOf e) < r))).reverse).filter
        (fun e => decide (BeforeEnd inclusive r (ranks (t.keyOf e)))) =
      db.reverse.filter (fun e => decide (BeforeEnd inclusive r (ranks (t.keyOf e)))) := by
  have hge : ∀ a ∈ e :: es, a ∈ db ∧ r ≤ ranks (t.keyOf a) := fun a ha => by
    rw [← h, List.mem_filter] at ha
    simpa using ha
  have hfirst := (List.pairwise_cons.mp (h ▸ hs.pairwise.filter _)).1
  -- a key behind the first that is not before the end is behind the end
  have hrest : ∀ a ∈ es, ¬ BeforeEnd inclusive r (ranks (t.keyOf a)) := fun a ha hb =>
    absurd ((hge e (by simp)).2.trans_lt (hfirst a ha)) hb.le.not_gt
  have hsplit : db.filter (fun e => decide (BeforeEnd inclusive r (ranks (t.keyOf e)))) =
      (db.filter (fun e => decide (ranks (t.keyOf e) < r)) ++ [e]).filter
        (fun e => decide (BeforeEnd inclusive r (ranks (t.keyOf e)))) := by
    refine SortedFilter.eq_of_mem_iff (f := fun e => ranks (t.keyOf e)) (hs.pairwise.filter _) ?_ fun x => ?_
    · refine List.Pairwise.filter _ (List.pairwise_append.mpr
        ⟨hs.pairwise.filter _, List.pairwise_singleton _ _, fun a ha b hb => ?_⟩)
      obtain rfl := List.mem_singleton.mp hb
      have hlt : ranks (t.keyOf a) < r := by simpa using (List.mem_filter.mp ha).2
      exact hlt.trans_le (hge b (by simp)).2
    · simp only [List.mem_filter, List.mem_append, List.mem_singleton, decide_eq_true_eq]
      constructor
      · rintro ⟨hx, hb⟩
        obtain hlt | hle := lt_or_ge (ranks (t.keyOf x)) r
        · exact ⟨.inl ⟨hx, hlt⟩, hb⟩
        · have hmem : x ∈ e :: es := by
            rw [← h, List.mem_filter]
            exact ⟨hx, by simpa using hle⟩
          obtain rfl | hx' := List.mem_cons.mp hmem
          · exact ⟨.inr rfl, hb⟩
          · exact absurd hb (hrest x hx')
      · rintro ⟨⟨hx, -⟩ | rfl, hb⟩
        · exact ⟨hx, hb⟩
        · exact ⟨(hge x (by simp)).1, hb⟩
  have hrev : (db.filter (fun e => decide (ranks (t.keyOf e) < r)) ++ [e]).reverse =
      e :: (db.filter (fun e => decide (ranks (t.keyOf e) < r))).reverse := List.reverse_concat
  rw [← hrev, List.filter_reverse, ← hsplit, List.filter_reverse]

/-- `seekStartReversed` leaves the iterator at the last key of the range. -/
theorem seekStartReversed_eq (hc : range.Constructed conv t) {db : LevelDB} (hs : SortedKeys conv t db) :
    range.seekStartReversed conv t.keyTypes (.createIterator db) =
      .ok (db.reverse.filter (fun e => decide
        (BeforeEnd range.endInclusive (ranks range.endKeyResults) (ranks (t.keyOf e))))) := by
  rw [seekStartReversed]
  split
  · next hl =>
    rw [behind_last, LevelDBIterator.entries_createIterator, eq_comm]
    congr 1
    rw [List.filter_eq_self]
    intro e he
    simpa using hc.toLast hl _ (hs.isKey e (List.mem_reverse.mp he)).bounded
  · obtain ⟨cs, hcs, hrow⟩ := hc.endRow
    have hcmp : ∀ e ∈ db, keyCompare conv t.keyTypes e.1 range.endRow = order (ranks (t.keyOf e)) (ranks range.endKeyResults) :=
      fun e he => (hs.isKey e he).compare hc.endOrdered hcs hrow
    have hseek : OrderedMap.seek (keyCompare conv t.keyTypes) range.endRow db =
        db.filter (fun e => decide (ranks range.endKeyResults ≤ ranks (t.keyOf e))) :=
      OrderedMap.seek_eq_filter (f := fun k => ranks (t.keyOf (k, []))) hcmp hs.pairwise
    have hbefore : db.takeWhile (fun e => keyCompare conv t.keyTypes e.1 range.endRow == .lt) =
        db.filter (fun e => decide (ranks (t.keyOf e) < ranks range.endKeyResults)) := by
      rw [SortedFilter.takeWhile_eq_filter]
      · refine List.filter_congr fun e he => ?_
        rw [hcmp e he, Bool.eq_iff_iff, beq_iff_eq, order_eq_lt, decide_eq_true_iff]
      · refine hs.pairwise.imp_of_mem fun {a b} ha hb hlt hp => ?_
        rw [hcmp b hb, beq_iff_eq, order_eq_lt] at hp
        rw [hcmp a ha, beq_iff_eq, order_eq_lt]
        exact hlt.trans hp
    simp only [LevelDBIterator.seek, LevelDBIterator.entries_createIterator, hseek, hbefore, LevelDBIterator.valid]
    cases hahead : db.filter (fun e => decide (ranks range.endKeyResults ≤ ranks (t.keyOf e))) with
    | nil =>
      have hall : ∀ e ∈ db, ranks (t.keyOf e) < ranks range.endKeyResults := fun e he => by
        have hnot := List.filter_eq_nil_iff.mp hahead e he
        simpa using hnot
      have hself : db.filter (fun e => decide (ranks (t.keyOf e) < ranks range.endKeyResults)) = db := by
        rw [List.filter_eq_self]
        exact fun e he => by simpa using hall e he
      have hin : db.reverse.filter (fun e => decide
          (BeforeEnd range.endInclusive (ranks range.endKeyResults) (ranks (t.keyOf e)))) = db.reverse := by
        rw [List.filter_eq_self]
        intro e he
        have hlt := hall e (List.mem_reverse.mp he)
        cases range.endInclusive <;> simp [hlt, hlt.le]
      rw [if_neg (by simp), behind_last, hin, LevelDBIterator.entries, hself]
      simp
    | cons e es =>
      have hmem : e ∈ db ∧ ranks range.endKeyResults ≤ ranks (t.keyOf e) := by
        have hin : e ∈ db.filter (fun e => decide (ranks range.endKeyResults ≤ ranks (t.keyOf e))) := by simp [hahead]
        simpa using hin
      rw [if_pos (by simp), ← filter_behind_seek hs range.endInclusive hahead]
      refine skipEnd_eq hc (fun a ha => hs.isKey a ?_) ?_
      · obtain rfl | ha := List.mem_cons.mp ha
        · exact hmem.1
        · exact List.mem_of_mem_filter (List.mem_reverse.mp ha)
      · refine List.pairwise_cons.mpr ⟨fun a ha => ?_, List.pairwise_reverse.mpr (hs.pairwise.filter _)⟩
        have hlt := (List.mem_filter.mp (List.mem_reverse.mp ha)).2
        exact lt_of_lt_of_le (by simpa using hlt) hmem.2

end KeySearchRange

namespace LevelDBScanPlan

variable {conv : Conversions} {t : TableInfo} {plan : LevelDBScanPlan} {range : KeySearchRange}

/-- The scan backwards stops at the start of the range, and all keys of the range come before. -/
theorem scanBackFrom_eq (hv : t.Valid) (hb : range.Built conv t) (hp : plan.Scans t) {es : List Entry}
    (hk : ∀ e ∈ es, IsKey conv t.keyTypes (t.keyOf e) e.1) (ho : KeySearchRange.Descending t es)
    (hread : ∀ e ∈ es, ∃ vs, plan.columnResults e = .ok vs) :
    plan.scanBackFrom conv range es =
      ⟨es.filter (fun e => decide
        (AfterStart range.startInclusive (ranks range.startKeyResults) (ranks (t.keyOf e)))), none⟩ := by
  induction es with
  | nil => rfl
  | cons e es ih =>
    have hkey := hk e (by simp)
    obtain ⟨vs, hvs⟩ := hread e (by simp)
    rw [scanBackFrom, keyValues_eq hv hp hkey]
    simp only [KeySearchRange.exceedEndReversed_eq hb hkey.bounded, hvs]
    by_cases h : AfterStart range.startInclusive (ranks range.startKeyResults) (ranks (t.keyOf e))
    · rw [List.filter_cons_of_pos (by simpa using h)]
      simp only [h, decide_true, Bool.not_true,
        ih (fun a ha => hk a (by simp [ha])) ho.of_cons fun a ha => hread a (by simp [ha])]
      rfl
    · have hnil : (e :: es).filter (fun e => decide
          (AfterStart range.startInclusive (ranks range.startKeyResults) (ranks (t.keyOf e)))) = [] := by
        rw [List.filter_eq_nil_iff]
        intro a ha
        obtain rfl | ha := List.mem_cons.mp ha
        · simpa using h
        · simpa using fun hle => h (hle.mono ((List.pairwise_cons.mp ho).1 a ha).le)
      simp only [h, decide_false, Bool.not_false, hnil]
      rfl

/-- A scan in descending order delivers exactly the entries with keys of its range, last one first. -/
theorem runReversed_eq (hv : t.Valid) (hp : plan.Scans t) (hr : plan.begin conv = .ok range)
    (hc : range.Constructed conv t) {db : LevelDB} (hs : SortedKeys conv t db)
    (hread : ∀ e ∈ db, ∃ vs, plan.columnResults e = .ok vs) :
    plan.runReversed conv db = ⟨(db.filter (fun e => decide (range.Contains (t.keyOf e)))).reverse, none⟩ := by
  rw [runReversed, hr]
  simp only [hp.table, KeySearchRange.seekStartReversed_eq hc hs]
  have hmem : ∀ e ∈ db.reverse.filter (fun e => decide
      (BeforeEnd range.endInclusive (ranks range.endKeyResults) (ranks (t.keyOf e)))), e ∈ db :=
    fun e he => List.mem_reverse.mp (List.mem_of_mem_filter he)
  rw [scanBackFrom_eq hv hc.toBuilt hp (fun e he => hs.isKey e (hmem e he))
    (List.Pairwise.filter _ (List.pairwise_reverse.mpr hs.pairwise)) fun e he => hread e (hmem e he), List.filter_filter,
    ← List.filter_reverse]
  congr 1
  refine List.filter_congr fun e _ => ?_
  rw [← Bool.decide_and, decide_eq_decide, KeySearchRange.Contains]

/-- The two walks visit the same rows in opposite order, and nothing ends them early. -/
structure Mirrors (conv : Conversions) (plan : LevelDBScanPlan) (db : LevelDB) : Prop where
  rows : (plan.runReversed conv db).rows = (plan.run conv db).rows.reverse
  ascends : (plan.run conv db).fault = none
  descends : (plan.runReversed conv db).fault = none

theorem mirrors_of_sorted (hv : t.Valid) (hp : plan.Scans t) (hr : plan.begin conv = .ok range)
    (hc : range.Constructed conv t) {db : LevelDB} (hs : SortedKeys conv t db)
    (hread : ∀ e ∈ db, ∃ vs, plan.columnResults e = .ok vs) : Mirrors conv plan db := by
  have hdown := runReversed_eq hv hp hr hc hs hread
  have hup := run_eq_sorted hv hp hr hc.toBuilt hs hread
  exact ⟨by rw [hdown, hup], by rw [hup], by rw [hdown]⟩

end LevelDBScanPlan

namespace KeySearchRange

variable {conv : Conversions} {t : TableInfo}

/-- What any predicate leaves behind, whatever its shape. -/
structure Formed (t : TableInfo) (s : Predicates) : Prop where
  length : s.predicates.length = t.keyTypes.length
  starts : ∀ info ∈ s.predicates, StartForm info
  last : EndForm s.endPredicate

theorem formed_initial : Formed t { predicates := List.replicate t.keyTypes.length {} } where
  length := by simp
  starts info hm := .inl (by rw [List.eq_of_mem_replicate hm])
  last := ⟨fun m hm => absurd hm (by simp), fun _ => rfl⟩

theorem Formed.setPredicateInfo {s s' : Predicates} (h : Formed t s) {op : ParseNode.Operation}
    {pKey pValue pPredicate : ParseNode} (hs : setPredicateInfo t op pKey pValue pPredicate s = .ok s') : Formed t s' := by
  have hset : ∀ (k : Nat) (info : KeyPredicateInfo), StartForm info → Formed t (s.set k info) := fun k info hinfo =>
    { length := by simp [Predicates.set, h.length]
      starts := fun i hi => by
        obtain hm | rfl := List.mem_or_eq_of_mem_set hi
        · exact h.starts i hm
        · exact hinfo
      last := h.last }
  have hend : ∀ (k : Nat) (info : KeyPredicateInfo), info.keyIndex = some k → isEndOp info.op = true →
      Formed t { s with endPredicate := info } := fun k info hk hop =>
    ⟨h.length, h.starts, ⟨fun _ _ => hop, fun hn => by rw [hk] at hn; cases hn⟩⟩
  rw [KeySearchRange.setPredicateInfo] at hs
  split at hs
  · cases hs
  · split at hs
    · cases hs
      exact h
    · dsimp only at hs
      split at hs
      · cases hs
        split
        · exact h
        · exact hset _ _ (.inr (.inl rfl))
      · cases hs
        split
        · exact h
        · exact hset _ _ (.inr (.inr rfl))
      · cases hs
        split
        · exact h
        · exact hset _ _ (.inr (.inr rfl))
      · cases hs
        split
        · exact h
        · exact hend _ _ rfl rfl
      · cases hs
        split
        · exact h
        · exact hend _ _ rfl rfl
      · cases hs

theorem Formed.setComparison {s s' : Predicates} (h : Formed t s) {p : ParseNode} (hs : setComparison t p s = .ok s') :
    Formed t s' := by
  rw [KeySearchRange.setComparison] at hs
  split at hs
  · cases hs
    exact h
  · dsimp only at hs
    split at hs
    · exact h.setPredicateInfo hs
    · split at hs
      · exact h.setPredicateInfo hs
      · cases hs
        exact h

mutual

theorem doSetPredicate_formed : ∀ (p : ParseNode) {s s' : Predicates}, Formed t s → doSetPredicate t p s = .ok s' → Formed t s'
  | .null, s, s', h, hs => by
    cases hs
    exact h
  | .node type op sExpr sValue children, s, s', h, hs => by
    rw [doSetPredicate] at hs
    split at hs
    · cases hs
      exact h
    · split at hs
      · exact doSetPredicates_formed children h hs
      · exact h.setComparison hs

theorem doSetPredicates_formed : ∀ (ps : List ParseNode) {s s' : Predicates}, Formed t s → doSetPredicates t ps s = .ok s' →
    Formed t s'
  | [], s, s', h, hs => by
    cases hs
    exact h
  | p :: ps, s, s', h, hs => by
    rw [doSetPredicates] at hs
    obtain ⟨u, hu, hs⟩ := bind_eq_ok.mp hs
    exact doSetPredicates_formed ps (doSetPredicate_formed p h hu) hs

end

/-- The floating-point values at an end of a range are exact ordered values. -/
def ExactEnd (types : List DBDataType) (vs : List ExecutionResult) : Prop :=
  List.Forall₂ (fun type v => ∀ d, v = .double d → isOrdered (getHandler type) v = true) types vs

/-- Every range that the constructor makes of a predicate is of the kind the walks are about. -/
theorem constructed_of_build {p : ParseNode} {range : KeySearchRange} {solved : List Bytes}
    (h : build conv t.keyTypes t p = .ok (range, solved)) (hstart : ExactEnd t.keyTypes range.startKeyResults)
    (hend : ExactEnd t.keyTypes range.endKeyResults) : range.Constructed conv t := by
  obtain ⟨s, hp, h⟩ := bind_eq_ok.mp h
  obtain ⟨⟨ss, es⟩, hr, h⟩ := bind_eq_ok.mp h
  obtain ⟨startRow, hsr, h⟩ := bind_eq_ok.mp h
  obtain ⟨endRow, her, h⟩ := bind_eq_ok.mp h
  cases h
  have hf := doSetPredicate_formed p formed_initial hp
  have hlen : t.keyTypes.length = s.predicates.length := hf.length.symm
  obtain ⟨hss, hes⟩ := RangeBuild.keyResults_all
    (P := fun type v => (∀ d, v = .double d → isOrdered (getHandler type) v = true) → isOrdered (getHandler type) v = true)
    (fun _ _ => isOrdered_setToMin _) (fun _ _ => isOrdered_setToMax _) (hlen.trans (RangeBuild.length_scan _ _ _).symm)
    (fun j type info _ _ _ v hv => fromNode_ordered hv) (fun j type _ _ v hv => fromNode_ordered hv) hr
  have hordered : ∀ {types : List DBDataType} {vs : List ExecutionResult}, List.Forall₂ (fun type v =>
      (∀ d, v = .double d → isOrdered (getHandler type) v = true) → isOrdered (getHandler type) v = true) types vs →
        ExactEnd types vs → OrderedTypes types vs := by
    intro types vs hvs hexact
    induction hvs with
    | nil => exact .nil
    | cons hv _ ih =>
      cases hexact with
      | cons hx hxs => exact .cons (hv hx) (ih hxs)
  have hso := hordered hss hstart
  have heo := hordered hes hend
  exact
    { keyTypes := rfl
      startOrdered := hso
      endOrdered := heo
      startRow := (copyRow_eq_ok conv hso.hasTypes).mp hsr
      endRow := (copyRow_eq_ok conv heo.hasTypes).mp her
      toFirst := fun hfirst ks hk => (RangeBuild.seek_bounds hlen hf.starts rfl rfl rfl hf.last hr hk).1 hfirst
      toLast := fun hlast ks hk => (RangeBuild.seek_bounds hlen hf.starts rfl rfl rfl hf.last hr hk).2 hlast }

theorem getElem?_zero {α : Type} {a : α} {l : List α} (h : l[0]? = some a) : ∃ rest, l = a :: rest := by
  cases l with
  | nil => cases h
  | cons b l =>
    cases h
    exact ⟨l, rfl⟩

theorem compareResults_of_first {types : List DBDataType} {as bs : List ExecutionResult} {n : Nat} {type : DBDataType}
    {a b : ExecutionResult} {o : Ordering} (hn : types[n]? = some type) (ha : as[n]? = some a) (hb : bs[n]? = some b)
    (hsame : ∀ i < n, ∀ u, types[i]? = some u → ∃ x, as[i]? = some x ∧ bs[i]? = some x ∧ isOrdered (getHandler u) x = true)
    (hcmp : (getHandler type).compare conv a b = .ok o) (ho : o ≠ .eq) : compareResults conv types as bs = .ok o := by
  induction n generalizing types as bs with
  | zero =>
    obtain ⟨types, rfl⟩ := getElem?_zero hn
    obtain ⟨as, rfl⟩ := getElem?_zero ha
    obtain ⟨bs, rfl⟩ := getElem?_zero hb
    rw [compareResults, hcmp, ok_bind, if_pos ho]
    rfl
  | succ n ih =>
    cases types with
    | nil => simp at hn
    | cons u types =>
      obtain ⟨x, hax, hbx, hx⟩ := hsame 0 (Nat.succ_pos n) u rfl
      obtain ⟨as, rfl⟩ := getElem?_zero hax
      obtain ⟨bs, rfl⟩ := getElem?_zero hbx
      rw [compareResults, compare_eq conv hx hx, order_self, ok_bind, if_neg (by simp)]
      exact ih hn ha hb fun i hi u hu => hsame (i + 1) (Nat.succ_lt_succ hi) u hu

end KeySearchRange

namespace LevelDBScanPlan

open LevelDBInsertPlan KeyTypeOrder

variable {conv : Conversions} {t : TableInfo}

/-- Entries as inserts leave them, whether or not their keys are read back as they were written. -/
structure Stored (conv : Conversions) (t : TableInfo) (db : LevelDB) : Prop where
  ordered : db.Pairwise (fun a b => keyCompare conv t.keyTypes a.1 b.1 = .lt)
  keys : ∀ e ∈ db, ∃ ks, OrderedTypes t.keyTypes ks ∧ .maxString ∉ ks ∧
    ∃ cs, columnBytes conv t.keyTypes ks = .ok cs ∧ e.1 = cs.flatten

theorem Stored.sortedKeys (hv : t.Valid) {db : LevelDB} (hs : Stored conv t db)
    (hread : ∀ e ∈ db, ∀ ks cs, OrderedTypes t.keyTypes ks → columnBytes conv t.keyTypes ks = .ok cs → e.1 = cs.flatten →
      Readable ks) : SortedKeys conv t db := by
  have hkey : ∀ e ∈ db, IsKey conv t.keyTypes (t.keyOf e) e.1 := fun e he => by
    obtain ⟨ks, ho, hmax, cs, hcs, hk⟩ := hs.keys e he
    have hisKey : IsKey conv t.keyTypes ks e.1 := ⟨ho, hread e he ks cs ho hcs hk, hmax, cs, hcs, hk⟩
    have hm := hisKey.mapM_getResult
    rw [hv.length_keyTypes] at hm
    have hof : t.keyOf e = ks := by rw [TableInfo.keyOf, TableInfo.getKeyCount, hm]
    rwa [hof]
  refine ⟨hkey, hs.ordered.imp_of_mem fun {a b} ha hb h => ?_⟩
  obtain ⟨ds, hds, hb'⟩ := (hkey b hb).stored
  rw [(hkey a ha).compare (hkey b hb).ordered hds hb'] at h
  exact order_eq_lt.mp h

section LongString

variable {U S : List DBDataType} {y z : DBDataType}

/-- The range of the one key that is `longRow`, with the bytes it is stored as. -/
def longRange (U : List DBDataType) (y z : DBDataType) (S : List DBDataType) (key : Bytes) : KeySearchRange where
  keyTypes := U ++ y :: z :: S
  startKeyResults := longRow U z S
  endKeyResults := longRow U z S
  startRow := key
  endRow := key
  startInclusive := true
  endInclusive := true
  seekToFirst := false
  seekToLast := false

theorem ordered_longRow (hstr : getHandler y = .string) : OrderedTypes (U ++ y :: z :: S) (longRow U z S) :=
  (plain_longRow U S hstr).imp fun _ _ h => isOrdered_of_hasType h.1 h.2.2

theorem maxString_notMem_longRow (hstr : getHandler y = .string) : .maxString ∉ longRow U z S := fun hmax => by
  obtain ⟨i, hi⟩ := List.mem_iff_getElem?.mp hmax
  obtain ⟨hlt, hval⟩ := List.getElem?_eq_some_iff.mp hi
  have hplain := @plain_longRow U S y z hstr
  exact ((List.forall₂_iff_get.mp hplain).2 i (hplain.length_eq ▸ hlt) hlt).2.1 (by simpa using hval)

theorem getElem?_longRow_zeros {i : Nat} {u : DBDataType} (hi : U[i]? = some u) :
    (longRow U z S)[i]? = some (zeroOf (getHandler u)) := by
  have hlt : i < U.length := (List.getElem?_eq_some_iff.mp hi).1
  rw [longRow, List.getElem?_append_left (by simpa [zeros] using hlt), zeros, List.getElem?_map, hi]
  rfl

theorem getElem?_longRow (k : Nat) :
    (longRow U z S)[U.length + k]? = (.string longZeros :: nonZero (getHandler z) :: zeros S)[k]? := by
  have hlen : (zeros U).length = U.length := by simp [zeros]
  rw [longRow, List.getElem?_append_right (by omega), hlen, Nat.add_sub_cancel_left]

/-- What is read of the stored key: up to the long string what was written, and then a zero. -/
theorem compareResults_longRow (hstr : getHandler y = .string) {key : Bytes} {cs : List Bytes}
    (hcs : columnBytes conv (U ++ y :: z :: S) (longRow U z S) = .ok cs) (hkey : key = cs.flatten)
    {ks : List ExecutionResult}
    (hks : ∀ i < (U ++ y :: z :: S).length, ∃ v, ks[i]? = some v ∧ DataRow.getResult (U ++ y :: z :: S) key i = .ok v) :
    KeySearchRange.compareResults conv (U ++ y :: z :: S) ks (longRow U z S) = .ok .lt := by
  have hordered := @ordered_longRow U S y z hstr
  have hlen : (longRow U z S).length = (U ++ y :: z :: S).length := hordered.length_eq.symm
  have hzeros : ∀ v ∈ (longRow U z S).take U.length, sizeReadsBack v = true := fun v hv => by
    rw [longRow, List.take_left' (by simp [zeros]), zeros, List.mem_map] at hv
    obtain ⟨u, -, rfl⟩ := hv
    cases getHandler u <;> rfl
  have hbefore : ∀ i < U.length + 1, ∀ u, (U ++ y :: z :: S)[i]? = some u → ∃ x, ks[i]? = some x ∧
      (longRow U z S)[i]? = some x ∧ isOrdered (getHandler u) x = true := by
    intro i hi u hu
    have hi' : i < (longRow U z S).length := by
      rw [hlen, List.length_append, List.length_cons]
      omega
    have hread := getResult_eq conv hordered.hasTypes hcs [] i (fun v hv => hzeros v
      (List.take_subset_take_left _ (by omega) hv)) _ (List.getElem?_eq_getElem hi')
    rw [List.append_nil, ← hkey] at hread
    obtain ⟨v, hv, hget⟩ := hks i (hlen ▸ hi')
    obtain rfl := Except.ok.inj (hget.symm.trans hread)
    refine ⟨_, hv, List.getElem?_eq_getElem hi', ?_⟩
    obtain ⟨hlt, rfl⟩ := List.getElem?_eq_some_iff.mp hu
    exact (List.forall₂_iff_get.mp hordered).2 i hlt hi'
  obtain ⟨ds, hds, hbehind⟩ := @getResult_behind_long conv U S y z hstr
  obtain rfl : ds = cs := Except.ok.inj (hds.symm.trans hcs)
  have hzero : DataRow.getResult (U ++ y :: z :: S) key (U.length + 1) = .ok (zeroOf (getHandler z)) := by
    rw [hkey]
    refine hbehind fun j u hj => ?_
    have hj' : j < U.length := (List.getElem?_eq_some_iff.mp hj).1
    have hread := getResult_eq conv hordered.hasTypes hcs [] j (fun v hv => hzeros v
      (List.take_subset_take_left _ (by omega) hv)) _ (getElem?_longRow_zeros hj)
    rwa [List.append_nil] at hread
  obtain ⟨v, hv, hget⟩ := hks (U.length + 1) (by simp)
  obtain rfl := Except.ok.inj (hget.symm.trans hzero)
  exact KeySearchRange.compareResults_of_first (by simp) hv (getElem?_longRow 1) hbefore (compare_zero_nonZero _) (by simp)

/-- A value may be unordered with itself, but it is never before itself. -/
theorem compare_self_ne_lt (h : DBDataTypeHandler) (v : ExecutionResult) : h.compare conv v v ≠ .ok .lt := by
  intro hlt
  cases h with
  | int u =>
    obtain ⟨a, ha, hlt⟩ := bind_eq_ok.mp hlt
    obtain ⟨b, hb, hlt⟩ := bind_eq_ok.mp hlt
    obtain rfl := Except.ok.inj (ha.symm.trans hb)
    simp [compareInt, pure, Except.pure] at hlt
  | float u =>
    obtain ⟨a, ha, hlt⟩ := bind_eq_ok.mp hlt
    obtain ⟨b, hb, hlt⟩ := bind_eq_ok.mp hlt
    obtain rfl := Except.ok.inj (ha.symm.trans hb)
    simp only [pure_eq_ok, Except.ok.injEq, compareDouble, Double.lt, lt_irrefl, decide_false, Bool.and_false] at hlt
    split at hlt <;> cases hlt
  | string =>
    cases hmax : v.isMaxString with
    | true => simp [DBDataTypeHandler.compare, hmax] at hlt
    | false =>
      rw [DBDataTypeHandler.compare, hmax] at hlt
      obtain ⟨a, ha, hlt⟩ := bind_eq_ok.mp hlt
      obtain ⟨b, hb, hlt⟩ := bind_eq_ok.mp hlt
      obtain rfl := Except.ok.inj (ha.symm.trans hb)
      simp [compareBytes_eq, pure, Except.pure] at hlt

theorem compare_row_self_ne_lt (types : List DBDataType) (key : Bytes) : DataRow.compare conv types key key ≠ .ok .lt := by
  induction types generalizing key with
  | nil => simp [DataRow.compare]
  | cons type types ih =>
    intro hlt
    obtain ⟨a, ha, hlt⟩ := bind_eq_ok.mp hlt
    obtain ⟨b, hb, hlt⟩ := bind_eq_ok.mp hlt
    obtain rfl := Except.ok.inj (ha.symm.trans hb)
    obtain ⟨o, ho, hlt⟩ := bind_eq_ok.mp hlt
    split at hlt
    · cases hlt
      exact compare_self_ne_lt _ _ ho
    · obtain ⟨n, hn, hlt⟩ := bind_eq_ok.mp hlt
      obtain ⟨m, hm, hlt⟩ := bind_eq_ok.mp hlt
      obtain rfl := Except.ok.inj (hn.symm.trans hm)
      exact ih _ hlt

theorem seek_self (types : List DBDataType) (e : Entry) :
    (LevelDBIterator.createIterator [e]).seek conv types e.1 = ⟨[], [e]⟩ := by
  have hne : (keyCompare conv types e.1 e.1 == .lt) = false := by
    rw [beq_eq_false_iff_ne, keyCompare]
    split
    · next o ho => exact fun hlt => compare_row_self_ne_lt types e.1 (hlt ▸ ho)
    · simp
  simp [LevelDBIterator.seek, OrderedMap.seek, hne]

theorem not_mirrors_longRange {plan : LevelDBScanPlan} {key : Bytes} (hstr : getHandler y = .string)
    (hv : t.Valid) (htypes : t.keyTypes = U ++ y :: z :: S) (hp : plan.Scans t) (hvalues : plan.projectValue = false)
    (hr : plan.begin conv = .ok (longRange U y z S key)) {cs : List Bytes}
    (hcs : columnBytes conv (U ++ y :: z :: S) (longRow U z S) = .ok cs) (hkey : key = cs.flatten) :
    ¬ Mirrors conv plan [(key, [])] := by
  rintro ⟨hrows, hup, -⟩
  have hseek : (longRange U y z S key).seekStart conv t.keyTypes (.createIterator [(key, [])]) = .ok [(key, [])] := by
    rw [KeySearchRange.seekStart, longRange]
    simp [seek_self t.keyTypes (key, [])]
  rw [run, hr] at hup hrows
  simp only [hp.table, hseek, scanFrom] at hup hrows
  cases hread : plan.keyValues (key, []) with
  | error f =>
    rw [hread] at hup
    cases hup
  | ok ks =>
    have hall := hread
    rw [keyValues, hp.table, hp.keyTypes] at hall
    replace hall := forall₂_of_mapM_ok hall
    have hcmp : KeySearchRange.compareResults conv (U ++ y :: z :: S) ks (longRow U z S) = .ok .lt := by
      refine compareResults_longRow hstr hcs hkey fun i hi => ?_
      rw [← htypes, hv.length_keyTypes] at hi
      have hi' : i < ks.length := by
        rw [← hall.length_eq, List.length_range]
        exact hi
      refine ⟨ks[i], List.getElem?_eq_getElem hi', ?_⟩
      have hget := (List.forall₂_iff_get.mp hall).2 i (by rw [List.length_range]; exact hi) hi'
      simpa [htypes] using hget
    have hvisit : (longRange U y z S key).exceedEnd conv ks = .ok false := by
      simp [KeySearchRange.exceedEnd, longRange, hcmp]
    have hstop : (longRange U y z S key).exceedEndReversed conv ks = .ok true := by
      simp [KeySearchRange.exceedEndReversed, longRange, hcmp]
    have hcolumns : plan.columnResults (key, []) = .ok [] := by simp [columnResults, hvalues]
    have hback : ∀ es : List Entry, es = [] ∨ es = [(key, [])] → (plan.scanBackFrom conv (longRange U y z S key) es).rows = [] := by
      rintro es (rfl | rfl)
      · rfl
      · simp [scanBackFrom, hread, hstop, Run.done]
    have hseekBack : (longRange U y z S key).seekStartReversed conv t.keyTypes (.createIterator [(key, [])]) =
        (longRange U y z S key).skipEnd conv [(key, [])] := by
      rw [KeySearchRange.seekStartReversed, longRange]
      simp [seek_self t.keyTypes (key, []), LevelDBIterator.valid, LevelDBIterator.behind]
    have hdown : (plan.runReversed conv [(key, [])]).rows = [] := by
      rw [runReversed, hr]
      simp only [hp.table, hseekBack]
      cases hskip : (longRange U y z S key).skipEnd conv [(key, [])] with
      | error f => rfl
      | ok es =>
        refine hback es ?_
        obtain ⟨n, -, hskip⟩ := bind_eq_ok.mp hskip
        split at hskip
        · cases hskip
          exact .inr rfl
        · split at hskip
          · cases hskip
            exact .inr rfl
          · cases hskip
            exact .inl rfl
    rw [hdown] at hrows
    simp [hread, hvisit, hcolumns, Run.cons, Run.done] at hrows

theorem constructed_longRange (hstr : getHandler y = .string) (htypes : t.keyTypes = U ++ y :: z :: S) {cs : List Bytes}
    (hcs : columnBytes conv (U ++ y :: z :: S) (longRow U z S) = .ok cs) :
    (longRange U y z S cs.flatten).Constructed conv t where
  keyTypes := htypes.symm
  startOrdered := htypes ▸ ordered_longRow hstr
  endOrdered := htypes ▸ ordered_longRow hstr
  startRow := ⟨cs, htypes ▸ hcs, rfl⟩
  endRow := ⟨cs, htypes ▸ hcs, rfl⟩
  toFirst h := by cases h
  toLast h := by cases h

end LongString

/-- Every scan of the table with a range of keys mirrors. -/
def MirrorsAll (conv : Conversions) (t : TableInfo) : Prop :=
  ∀ (plan : LevelDBScanPlan) (range : KeySearchRange) (db : LevelDB), plan.Scans t → plan.begin conv = .ok range →
    range.Constructed conv t → Stored conv t db → (∀ e ∈ db, ∃ vs, plan.columnResults e = .ok vs) → Mirrors conv plan db

/-- The two walks of a scan mirror each other when no stored key has a string of 65533 bytes before
its last column; for all keys that can be stored, exactly when the key has no such column. -/
theorem mirrors_iff (conv : Conversions) {t : TableInfo} (hv : t.Valid) :
    (∀ (plan : LevelDBScanPlan) (range : KeySearchRange) (db : LevelDB), plan.Scans t → plan.begin conv = .ok range →
      range.Constructed conv t → Stored conv t db →
        (∀ e ∈ db, ∀ ks cs, OrderedTypes t.keyTypes ks → columnBytes conv t.keyTypes ks = .ok cs → e.1 = cs.flatten →
          Readable ks) →
        (∀ e ∈ db, ∃ vs, plan.columnResults e = .ok vs) → Mirrors conv plan db) ∧
      (MirrorsAll conv t ↔ NoInnerString t.keyTypes) := by
  have hsorted : ∀ (plan : LevelDBScanPlan) (range : KeySearchRange) (db : LevelDB), plan.Scans t →
      plan.begin conv = .ok range → range.Constructed conv t → Stored conv t db →
        (∀ e ∈ db, ∀ ks cs, OrderedTypes t.keyTypes ks → columnBytes conv t.keyTypes ks = .ok cs → e.1 = cs.flatten →
          Readable ks) →
        (∀ e ∈ db, ∃ vs, plan.columnResults e = .ok vs) → Mirrors conv plan db :=
    fun plan range db hp hr hc hs hreadable hread => mirrors_of_sorted hv hp hr hc (hs.sortedKeys hv hreadable) hread
  refine ⟨hsorted, fun hall => ?_, fun hinner plan range db hp hr hc hs hread => ?_⟩
  · by_contra hinner
    obtain ⟨U, y, z, S, htypes, hstr⟩ := exists_inner_string hinner
    obtain ⟨cs, hcs, -⟩ := @getResult_behind_long conv U S y z hstr
    have hplan : ({ create t with searchRange := some (longRange U y z S cs.flatten) } : LevelDBScanPlan).Scans t :=
      ⟨rfl, create_keyTypes hv, create_valueTypes hv, by
        have := hv.count
        simp only [create, List.length_replicate, TableInfo.getColumnCount, TableInfo.getKeyCount]
        omega⟩
    refine not_mirrors_longRange hstr hv htypes hplan rfl rfl hcs rfl (hall _ _ _ hplan rfl
      (constructed_longRange hstr htypes hcs) ⟨List.pairwise_singleton _ _, fun e he => ?_⟩ fun e _ => ⟨[], rfl⟩)
    obtain rfl := List.mem_singleton.mp he
    exact ⟨longRow U z S, htypes ▸ ordered_longRow hstr, maxString_notMem_longRow hstr, cs, htypes ▸ hcs, rfl⟩
  · exact hsorted plan range db hp hr hc hs
      (fun e _ ks cs ho _ _ => readable_of_noInnerString hinner (ho.hasTypes.imp fun _ _ => sizeReadsBack_of_hasType)) hread

open ParseNode KeySearchRange

def nameNumberTable : TableInfo where
  name := bytes "t"
  columns := [{ name := bytes "a", type := .string, index := 0, keyIndex := some 0 },
    { name := bytes "b", type := .int16, index := 1, keyIndex := some 1 }]
  keys := [0, 1]
  attr := [(bytes "path", bytes "p")]

theorem nameNumberTable_valid : nameNumberTable.Valid :=
  @TableInfo.define_valid (bytes "t") (bytes "p") [⟨bytes "a", .string, 0⟩, ⟨bytes "b", .int16, 0⟩] [bytes "a", bytes "b"] _ rfl
    (by decide) (by decide)

/-- `a = $1 AND b = $2`, with the number in binary format. -/
def bothEqual (s : Bytes) : ParseNode :=
  .node .op .and [] [] [
    .node .op .compEq (bytes "a=$1") [] [.node .name .none [] (bytes "a") [], .node .param .textParam [] s []],
    .node .op .compEq (bytes "b=$2") [] [.node .name .none [] (bytes "b") [], .node .param .binaryParam [] [1] []]]

theorem build_bothEqual {s : Bytes} (h : s.length = 65533) :
    ∃ solved, build decimalConversions nameNumberTable.keyTypes nameNumberTable (bothEqual s) = .ok
      ({ keyTypes := [.string, .int16], startKeyResults := [.string s, .int 1], endKeyResults := [.string s, .int 1], startRow := ByteOrder.toLittle 2 65533 ++ s ++ [1, 0], endRow := ByteOrder.toLittle 2 65533 ++ s ++ [1, 0], startInclusive := true, endInclusive := true, seekToFirst := false, seekToLast := false }, solved) := by
  have htypes : nameNumberTable.keyTypes = [.string, .int16] := rfl
  have hrow : DataRow.copyRow decimalConversions [.string, .int16] [.string s, .int 1] =
      .ok (ByteOrder.toLittle 2 65533 ++ s ++ [1, 0]) := by
    have hwrite : (getHandler .string).write decimalConversions (.string s) = .ok (ByteOrder.toLittle 2 65533 ++ s) := by
      simp [getHandler, DBDataTypeHandler.write, h, maxLength]
    have hcs : columnBytes decimalConversions [.string, .int16] [.string s, .int 1] =
        .ok [ByteOrder.toLittle 2 65533 ++ s, [1, 0]] := columnBytes_cons_ok hwrite rfl
    exact (copyRow_eq_ok decimalConversions (.cons rfl (.cons rfl .nil))).mpr ⟨_, hcs, by simp⟩
  refine ⟨[bytes "b=$2", bytes "a=$1"], ?_⟩
  rw [htypes, build]
  have hp : doSetPredicate nameNumberTable (bothEqual s) { predicates := List.replicate 2 {} } = .ok
      { predicates := [⟨some 0, .node .param .textParam [] s [], .compEq, bytes "a=$1"⟩, ⟨some 1, .node .param .binaryParam [] [1] [], .compEq, bytes "b=$2"⟩] } := rfl
  have hone : intOfNode decimalConversions .int16 (.node .param .binaryParam [] [1] []) = .ok 1 := rfl
  have hcheck : IntType.int16.checkValue 1 = .ok () := rfl
  rw [List.length_cons, List.length_singleton, hp, ok_bind]
  simp [scanPredicates, Scan.step, Scan.endStep, Scan.startStep, keyResults, startValue, fromNode, fromStringNode, fromIntNode,
    hone, hcheck, hrow]

theorem bothEqual_not_mirrors : ∃ plan solved key,
    (create nameNumberTable).setPredicate decimalConversions (bothEqual longZeros) = .ok (plan, solved) ∧
      Stored decimalConversions nameNumberTable [(key, [])] ∧ ¬ Mirrors decimalConversions plan [(key, [])] := by
  obtain ⟨solved, hbuild⟩ := build_bothEqual length_longZeros
  have hwrite : (getHandler .string).write decimalConversions (.string longZeros) =
      .ok (ByteOrder.toLittle 2 65533 ++ longZeros) := by
    simp [getHandler, DBDataTypeHandler.write, length_longZeros, maxLength]
  have hcs : columnBytes decimalConversions ([] ++ .string :: .int16 :: []) (longRow [] .int16 []) =
      .ok [ByteOrder.toLittle 2 65533 ++ longZeros, [1, 0]] := columnBytes_cons_ok hwrite rfl
  have hkey : ByteOrder.toLittle 2 65533 ++ longZeros ++ [1, 0] = [ByteOrder.toLittle 2 65533 ++ longZeros, [1, 0]].flatten := by
    simp
  refine ⟨{ create nameNumberTable with
    searchRange := some (longRange [] .string .int16 [] (ByteOrder.toLittle 2 65533 ++ longZeros ++ [1, 0])) }, solved,
    ByteOrder.toLittle 2 65533 ++ longZeros ++ [1, 0], ?_, ⟨List.pairwise_singleton _ _, fun e he => ?_⟩, ?_⟩
  · rw [setPredicate, create_keyTypes nameNumberTable_valid]
    have htable : (create nameNumberTable).table = nameNumberTable := rfl
    rw [htable, hbuild]
    rfl
  · obtain rfl := List.mem_singleton.mp he
    exact ⟨longRow [] .int16 [], @ordered_longRow [] [] .string .int16 rfl, @maxString_notMem_longRow [] [] .string .int16 rfl,
      _, hcs, hkey⟩
  · exact not_mirrors_longRange (t := nameNumberTable) rfl nameNumberTable_valid rfl ⟨rfl, rfl, rfl, rfl⟩ rfl rfl hcs hkey

theorem mirrors_iff_nameNumberTable :
    (∀ (plan : LevelDBScanPlan) (range : KeySearchRange) (db : LevelDB), plan.Scans nameNumberTable →
      plan.begin decimalConversions = .ok range → range.Constructed decimalConversions nameNumberTable →
        Stored decimalConversions nameNumberTable db →
        (∀ e ∈ db, ∀ ks cs, OrderedTypes nameNumberTable.keyTypes ks →
          columnBytes decimalConversions nameNumberTable.keyTypes ks = .ok cs → e.1 = cs.flatten → Readable ks) →
        (∀ e ∈ db, ∃ vs, plan.columnResults e = .ok vs) → Mirrors decimalConversions plan db) ∧
      (MirrorsAll decimalConversions nameNumberTable ↔ NoInnerString nameNumberTable.keyTypes) :=
  mirrors_iff decimalConversions nameNumberTable_valid

end LevelDBScanPlan

end LevelPgServer
