import LevelPgServer.Execution.DistinctGroups
import LevelPgServer.Execution.FullScan
import LevelPgServer.Execution.Plan
import LevelPgServer.PlanBuilder.ScanPlan

/-! The order in which the rows of a table come out of a scan. -/

namespace LevelPgServer

open ExceptRules KeyOrder LevelDBPlanBuilder SortPlan WeakOrder

namespace LevelDBScanPlan

variable {conv : Conversions}

theorem scanFrom_sublist (plan : LevelDBScanPlan) (range : KeySearchRange) (es : List Entry) :
    (plan.scanFrom conv range es).rows.Sublist es := by
  induction es with
  | nil => exact .slnil
  | cons e es ih =>
    rw [scanFrom]
    repeat' split
    all_goals first | exact List.nil_sublist _ | exact ih.cons_cons e

theorem skipStart_sublist {range : KeySearchRange} {es fs : List Entry} (h : range.skipStart conv es = .ok fs) :
    fs.Sublist es := by
  induction es with
  | nil =>
    cases h
    exact .slnil
  | cons e es ih =>
    obtain ⟨n, -, h⟩ := bind_eq_ok.mp h
    split at h
    · cases h
      exact .refl _
    · exact (ih h).cons e

/-- A scan delivers entries of the table in the order in which they are stored. -/
theorem run_sublist (plan : LevelDBScanPlan) (db : LevelDB) : (plan.run conv db).rows.Sublist db := by
  have hseek : ∀ (range : KeySearchRange) (es : List Entry),
      range.seekStart conv plan.table.keyTypes (.createIterator db) = .ok es → es.Sublist db := by
    intro range es h
    rw [KeySearchRange.seekStart] at h
    split at h
    · cases h
      rw [LevelDBIterator.first, LevelDBIterator.entries_createIterator]
    · have hdrop :
          ((LevelDBIterator.createIterator db).seek conv plan.table.keyTypes range.startRow).ahead.Sublist db := by
        rw [LevelDBIterator.seek, LevelDBIterator.entries_createIterator]
        exact (List.dropWhile_suffix _).sublist
      dsimp only at h
      split at h
      · cases h
        exact hdrop
      · exact (skipStart_sublist h).trans hdrop
  rw [run]
  split
  · exact List.nil_sublist _
  · next range _ =>
    split
    · exact List.nil_sublist _
    · next es hes => exact (plan.scanFrom_sublist range es).trans (hseek range es hes)

theorem scanBackFrom_sublist (plan : LevelDBScanPlan) (range : KeySearchRange) (es : List Entry) :
    (plan.scanBackFrom conv range es).rows.Sublist es := by
  induction es with
  | nil => exact .slnil
  | cons e es ih =>
    rw [scanBackFrom]
    repeat' split
    all_goals first | exact List.nil_sublist _ | exact ih.cons_cons e

theorem skipEnd_sublist {range : KeySearchRange} {es fs : List Entry} (h : range.skipEnd conv es = .ok fs) :
    fs.Sublist es := by
  induction es with
  | nil =>
    cases h
    exact .slnil
  | cons e es ih =>
    obtain ⟨n, -, h⟩ := bind_eq_ok.mp h
    split at h
    · cases h
      exact .refl _
    · split at h
      · cases h
        exact .refl _
      · exact (ih h).cons e

theorem behind_sublist (it : LevelDBIterator) : it.behind.Sublist it.entries.reverse := by
  rw [LevelDBIterator.behind, LevelDBIterator.entries]
  cases it.ahead with
  | nil => exact List.nil_sublist _
  | cons e es =>
    rw [List.reverse_append, List.reverse_reverse, List.reverse_cons, List.append_assoc]
    exact List.sublist_append_right _ _

theorem entries_seek (types : List DBDataType) (start : Bytes) (it : LevelDBIterator) :
    (it.seek conv types start).entries = it.entries := by
  rw [LevelDBIterator.seek, LevelDBIterator.entries, List.reverse_reverse]
  exact List.takeWhile_append_dropWhile

theorem entries_last (it : LevelDBIterator) : it.last.entries = it.entries := by
  rw [LevelDBIterator.last]
  cases h : it.entries.reverse with
  | nil =>
    rw [List.reverse_eq_nil_iff] at h
    rw [h]
    rfl
  | cons e es =>
    rw [LevelDBIterator.entries, ← List.reverse_cons, ← h, List.reverse_reverse]

theorem runReversed_sublist (plan : LevelDBScanPlan) (db : LevelDB) :
    (plan.runReversed conv db).rows.Sublist db.reverse := by
  have hseek : ∀ (range : KeySearchRange) (es : List Entry),
      range.seekStartReversed conv plan.table.keyTypes (.createIterator db) = .ok es → es.Sublist db.reverse := by
    intro range es h
    have hlast : (LevelDBIterator.createIterator db).last.behind.Sublist db.reverse := by
      have hsub := behind_sublist (LevelDBIterator.createIterator db).last
      rwa [entries_last, LevelDBIterator.entries_createIterator] at hsub
    rw [KeySearchRange.seekStartReversed] at h
    dsimp only at h
    split at h
    · cases h
      exact hlast
    · have hsub := behind_sublist ((LevelDBIterator.createIterator db).seek conv plan.table.keyTypes range.endRow)
      rw [entries_seek, LevelDBIterator.entries_createIterator] at hsub
      split at h
      · exact (skipEnd_sublist h).trans hsub
      · cases h
        have hagain := behind_sublist
          ((LevelDBIterator.createIterator db).seek conv plan.table.keyTypes range.endRow).last
        rwa [entries_last, entries_seek, LevelDBIterator.entries_createIterator] at hagain
  rw [runReversed]
  split
  · exact List.nil_sublist _
  · next range _ =>
    split
    · exact List.nil_sublist _
    · next es hes => exact (plan.scanBackFrom_sublist range es).trans (hseek range es hes)

end LevelDBScanPlan

theorem FilterPlan.run_sublist {σ ρ : Type} (conv : Conversions) (ops : PlanOps σ ρ)
    (predicatesInOr : List (List PredicateInfo))
    (plan : σ) (child : Run ρ) : (run conv ops predicatesInOr plan child).rows.Sublist child.rows := by
  rw [run]
  induction child.rows with
  | nil => exact List.nil_sublist _
  | cons r rs ih =>
    rw [filterRows]
    split
    · exact List.nil_sublist _
    · exact ih.cons_cons r
    · exact ih.cons r

/-- The row has the key columns of the entry. -/
def ReadsKey (t : TableInfo) (r : Row) (e : Entry) : Prop :=
  ∀ i < t.getKeyCount, ∀ type, r i type = DataRow.getResult t.keyTypes e.1 i

def Store.inOrder (order : SortOrder) (db : LevelDB) : LevelDB := if order = .descend then db.reverse else db

namespace Plan

inductive OverScan (t : TableInfo) (order : SortOrder) : Plan → Prop
  | scan {plan : LevelDBScanPlan} (h : plan.Scans t) : OverScan t order (.scan plan order)
  | filter {child : Plan} (predicatesInOr : List (List FilterPlan.PredicateInfo)) (h : OverScan t order child) :
      OverScan t order (.filter predicatesInOr child)

theorem forall₂_sublist {α β : Type} {R : α → β → Prop} {as as' : List α} {bs : List β} (h : List.Forall₂ R as bs)
    (hsub : as'.Sublist as) : ∃ bs', bs'.Sublist bs ∧ List.Forall₂ R as' bs' := by
  induction hsub generalizing bs with
  | slnil => exact ⟨[], List.nil_sublist _, .nil⟩
  | cons a _ ih =>
    cases h with
    | cons _ hrest =>
      obtain ⟨bs', hbs, hall⟩ := ih hrest
      exact ⟨bs', hbs.cons _, hall⟩
  | cons_cons a _ ih =>
    cases h with
    | @cons _ b _ _ hab hrest =>
      obtain ⟨bs', hbs, hall⟩ := ih hrest
      exact ⟨b :: bs', hbs.cons_cons b, .cons hab hall⟩

variable {conv : Conversions} {std : StdSort} {st : Storage} {t : TableInfo} {order : SortOrder} {p : Plan}

theorem OverScan.entries (h : OverScan t order p) :
    ∃ es : List Entry, es.Sublist (Store.inOrder order (st.tables t.name)) ∧
      List.Forall₂ (ReadsKey t) (p.run conv std st).rows es := by
  induction h with
  | @scan plan hp =>
    have hreads : ∀ es : List Entry,
        List.Forall₂ (ReadsKey t) (es.map fun e index _ => plan.getResult e index) es := fun es => by
      refine List.forall₂_map_left_iff.mpr (List.forall₂_same.mpr fun e _ i hi type => ?_)
      exact (if_pos (hp.table ▸ hi)).trans (congrArg (fun types => DataRow.getResult types e.1 i) hp.keyTypes)
    rw [run, runScan, hp.table]
    by_cases ho : order = .descend
    · rw [Store.inOrder, if_pos ho, if_pos ho]
      exact ⟨_, plan.runReversed_sublist _, hreads _⟩
    · rw [Store.inOrder, if_neg ho, if_neg ho]
      exact ⟨_, plan.run_sublist _, hreads _⟩
  | filter predicatesInOr h ih =>
    obtain ⟨es, hes, hall⟩ := ih
    rw [run]
    obtain ⟨es', hes', hall'⟩ := forall₂_sublist hall (FilterPlan.run_sublist conv ops predicatesInOr _ _)
    exact ⟨es', hes'.trans hes, hall'⟩

end Plan

namespace Store

variable {conv : Conversions} {t : TableInfo} {db : LevelDB} {order : SortOrder} {type : Nat → DBDataType}

theorem mem_inOrder {e : Entry} : e ∈ inOrder order db ↔ e ∈ db := by
  rw [inOrder]
  split
  · exact List.mem_reverse
  · rfl

/-- An entry that comes before another one in the order of a scan. -/
def Precedes (t : TableInfo) (order : SortOrder) (a b : Entry) : Prop :=
  if order = .descend then ranks (t.keyOf b) < ranks (t.keyOf a) else ranks (t.keyOf a) < ranks (t.keyOf b)

theorem inOrder_pairwise (hv : t.Valid) (hs : Store conv t db) (order : SortOrder) :
    (inOrder order db).Pairwise (Precedes t order) := by
  have h := hs.pairwise_ranks hv
  unfold Precedes inOrder
  by_cases ho : order = .descend
  · simpa only [if_pos ho, List.pairwise_reverse] using h
  · simpa only [if_neg ho] using h

theorem value_of_readsKey (hv : t.Valid) (hs : Store conv t db) {e : Entry} (he : e ∈ db)
    {r : Row} (hr : ReadsKey t r e)
    {i : Nat} (hi : i < t.getKeyCount) (htype : t.keyTypes[i]? = some (type i)) :
    ∃ v, (t.keyOf e)[i]? = some v ∧ r i (type i) = .ok v ∧ SortPlan.value type r i = v ∧
      isOrdered (getHandler (type i)) v = true := by
  have hkey := (hs.keyValues hv he).1
  obtain ⟨htlt, hti⟩ := List.getElem?_eq_some_iff.mp htype
  have hlt : i < (t.keyOf e).length := hkey.ordered.length_eq ▸ htlt
  have hget := List.getElem?_eq_getElem hlt
  have hread : r i (type i) = .ok (t.keyOf e)[i] := (hr i hi (type i)).trans (hkey.getResult i _ hget)
  refine ⟨_, hget, hread, ?_, ?_⟩
  · rw [SortPlan.value, hread]
    rfl
  · rw [← hti]
    exact (List.forall₂_iff_get.mp hkey.ordered).2 i htlt hlt

/-- Rows in the order of a scan are sorted by the key columns in that direction. -/
theorem sorted_rows (hv : t.Valid) (hs : Store conv t db) {rows : List Row} {es : List Entry}
    (hes : es.Sublist (inOrder order db)) (hrows : List.Forall₂ (ReadsKey t) rows es) {n : Nat} (hn : n ≤ t.getKeyCount)
    (htype : ∀ i < n, t.keyTypes[i]? = some (type i)) :
    rows.Pairwise fun a b => lex ((List.range n).map fun i => keyOrder conv type (i, order)) a b ≠ .gt := by
  have hmem : ∀ e ∈ es, e ∈ db := fun e he => mem_inOrder.mp (hes.subset he)
  refine pairwise_of_forall₂ hrows ((hs.inOrder_pairwise hv order).sublist hes)
    fun a _ b _ e he f hf hae hbf hef => ?_
  have hlength : ∀ e ∈ es, n ≤ (ranks (t.keyOf e)).length := fun e he => by
    rw [ranks, List.length_map, ← (hs.keyValues hv (hmem e he)).1.ordered.length_eq, hv.length_keyTypes]
    exact hn
  have hkey : ∀ i x y, i < n → (ranks (t.keyOf e))[i]? = some x → (ranks (t.keyOf f))[i]? = some y →
      keyOrder conv type (i, order) a b = order.direct (ThreeWay.order x y) := by
    intro i x y hi hx hy
    obtain ⟨v, hv1, -, hv2, hv3⟩ := value_of_readsKey hv hs (hmem e he) hae (hi.trans_le hn) (htype i hi)
    obtain ⟨w, hw1, -, hw2, hw3⟩ := value_of_readsKey hv hs (hmem f hf) hbf (hi.trans_le hn) (htype i hi)
    rw [ranks, List.getElem?_map, hv1] at hx
    rw [ranks, List.getElem?_map, hw1] at hy
    obtain rfl := Option.some.inj hx
    obtain rfl := Option.some.inj hy
    rw [keyOrder, compareValues, hv2, hw2, ExecutionResult.compare, KeyOrder.compare_eq conv hv3 hw3]
    rfl
  by_cases ho : order = .descend
  · rw [Precedes, if_pos ho] at hef
    refine lex_range_ne_gt hef (hlength f hf) (hlength e he) fun i x y hi hx hy => ?_
    rw [hkey i y x hi hy hx, SortOrder.direct, if_pos ho, ← ThreeWay.order_swap]
  · rw [Precedes, if_neg ho] at hef
    refine lex_range_ne_gt hef (hlength e he) (hlength f hf) fun i x y hi hx hy => ?_
    rw [hkey i x y hi hx hy, SortOrder.direct, if_neg ho]

end Store

/-- A call of `ensureSortOrder`. -/
structure OrderRequest where
  index : Nat
  column : Bytes
  order : SortOrder
  deriving DecidableEq, Repr

/-- The table has the column as its key column with the index that was asked for. -/
def OrderRequest.IsKey (t : TableInfo) (q : OrderRequest) : Prop :=
  ∃ c, t.getColumnByName q.column = some c ∧ c.keyIndex = some q.index

theorem OrderRequest.IsKey.lt {t : TableInfo} (hv : t.Valid) {q : OrderRequest} (h : q.IsKey t) :
    q.index < t.getKeyCount := by
  obtain ⟨c, hc, hk⟩ := h
  obtain ⟨i, hi⟩ := TableInfo.getColumnByName_mem hc
  exact hv.keyIndex_lt hi hk

namespace Plan

/-- The answers to requests one after the other, and the plan afterwards. -/
def askAll : List OrderRequest → Plan → List Bool × Plan
  | [], p => ([], p)
  | q :: qs, p =>
    let r := p.ensureSortOrder q.index q.column q.order
    let rest := askAll qs r.2
    (r.1 :: rest.1, rest.2)

variable {conv : Conversions} {std : StdSort} {st : Storage} {t : TableInfo} {order : SortOrder} {p : Plan}

/-- A request leaves the order that is set, or sets one where none is. -/
theorem ensureScanOrder_spec {plan : LevelDBScanPlan} (hp : plan.Scans t) (m_order : SortOrder) (q : OrderRequest) :
    (m_order ≠ .any → (ensureScanOrder plan m_order q.index q.column q.order).2 = m_order) ∧
      ((ensureScanOrder plan m_order q.index q.column q.order).1 = true →
        q.IsKey t ∧ (q.order = .any ∨ (ensureScanOrder plan m_order q.index q.column q.order).2 = q.order)) := by
  unfold ensureScanOrder
  rw [hp.table]
  split
  · exact ⟨fun _ => rfl, fun h => by cases h⟩
  · cases hc : t.getColumnByName q.column with
    | none => exact ⟨fun _ => rfl, fun h => by cases h⟩
    | some c =>
      dsimp only
      split
      · exact ⟨fun _ => rfl, fun h => by cases h⟩
      · next hk =>
        have hkey : q.IsKey t := ⟨c, hc, not_not.mp hk⟩
        split
        · next hany => exact ⟨fun _ => rfl, fun _ => ⟨hkey, .inl hany⟩⟩
        · split
          · next hnone => exact ⟨fun h => absurd hnone h, fun _ => ⟨hkey, .inr rfl⟩⟩
          · exact ⟨fun _ => rfl, fun h => ⟨hkey, .inr (of_decide_eq_true h)⟩⟩

theorem OverScan.ensureSortOrder (h : OverScan t order p) (q : OrderRequest) :
    ∃ order', OverScan t order' (p.ensureSortOrder q.index q.column q.order).2 ∧ (order ≠ .any → order' = order) ∧
      ((p.ensureSortOrder q.index q.column q.order).1 = true → q.IsKey t ∧ (q.order = .any ∨ order' = q.order)) := by
  induction h with
  | @scan plan hp =>
    obtain ⟨hkeep, hanswer⟩ := ensureScanOrder_spec hp order q
    rw [Plan.ensureSortOrder]
    exact ⟨_, .scan hp, hkeep, hanswer⟩
  | @filter child predicatesInOr h ih =>
    obtain ⟨order', hover, hkeep, hanswer⟩ := ih
    rw [Plan.ensureSortOrder]
    exact ⟨order', .filter predicatesInOr hover, hkeep, hanswer⟩

theorem OverScan.askAll (h : OverScan t order p) (qs : List OrderRequest) :
    ∃ order', OverScan t order' (p.askAll qs).2 ∧ (order ≠ .any → order' = order) ∧
      ∀ (k : Nat) (q : OrderRequest), qs[k]? = some q → (p.askAll qs).1[k]? = some true →
        q.IsKey t ∧ (q.order = .any ∨ order' = q.order) := by
  induction qs generalizing p order with
  | nil => exact ⟨order, h, fun _ => rfl, fun k q hq => by simp at hq⟩
  | cons q qs ih =>
    obtain ⟨order1, h1, hkeep1, hanswer1⟩ := h.ensureSortOrder q
    obtain ⟨order2, h2, hkeep2, hanswer2⟩ := ih h1
    refine ⟨order2, h2, fun hne => ?_, fun k q' hq hyes => ?_⟩
    · have heq := hkeep1 hne
      rw [hkeep2 (heq ▸ hne), heq]
    · cases k with
      | zero =>
        obtain rfl := Option.some.inj hq
        obtain ⟨hkey, hany | heq⟩ := hanswer1 (Option.some.inj hyes)
        · exact ⟨hkey, .inl hany⟩
        · by_cases hany : q.order = .any
          · exact ⟨hkey, .inl hany⟩
          · exact ⟨hkey, .inr ((hkeep2 (heq ▸ hany)).trans heq)⟩
      | succ k => exact hanswer2 k q' hq hyes

theorem OverScan.columnType_key (hv : t.Valid) (h : OverScan t order p) {i : Nat} (hi : i < t.getKeyCount) :
    ∃ type, t.keyTypes[i]? = some type ∧ p.columnType i = .ok type := by
  have hget : ∃ type, t.keyTypes[i]? = some type ∧ p.getResultType i = .ok (some type) := by
    induction h with
    | @scan plan hp =>
      obtain ⟨type, htype⟩ : ∃ type, t.keyTypes[i]? = some type :=
        ⟨_, List.getElem?_eq_getElem (hv.length_keyTypes ▸ hi)⟩
      have hcount : i ≠ t.getColumnCount := by
        have := hv.count
        rw [TableInfo.getKeyCount] at hi
        rw [TableInfo.getColumnCount]
        omega
      refine ⟨type, htype, ?_⟩
      rw [Plan.getResultType, LevelDBScanPlan.getResultType, hp.table, if_neg hcount, if_pos hi,
        ← hv.getElem?_keyTypes, htype]
    | filter predicatesInOr h ih => exact ih
  obtain ⟨type, htype, hget⟩ := hget
  exact ⟨type, htype, by rw [columnType, hget]; rfl⟩

/-- A scan, also below filters, keeps what it has promised: after any requests, answered or refused, there is
one direction for all of them. An answered request names the key column at its position and asks for this
direction or for none, and the rows are sorted by the first key columns, as many as were answered for. -/
theorem promised_order (hv : t.Valid) (hs : Store conv t (st.tables t.name)) (h : OverScan t .any p)
    (qs : List OrderRequest) :
    ∃ order : SortOrder,
      (∀ (k : Nat) (q : OrderRequest), qs[k]? = some q → (p.askAll qs).1[k]? = some true →
        q.IsKey t ∧ (q.order = .any ∨ order = q.order)) ∧
      ∀ (n : Nat) (type : Nat → DBDataType),
        (∀ i < n, ∃ (k : Nat) (q : OrderRequest), qs[k]? = some q ∧ (p.askAll qs).1[k]? = some true ∧ q.index = i) →
        (∀ i < n, (p.askAll qs).2.columnType i = .ok (type i)) →
          ((p.askAll qs).2.run conv std st).rows.Pairwise fun a b =>
            lex ((List.range n).map fun i => keyOrder conv type (i, order)) a b ≠ .gt := by
  obtain ⟨order, hover, -, hanswer⟩ := h.askAll qs
  refine ⟨order, hanswer, fun n type hrequest htype => ?_⟩
  have hlt : ∀ i < n, i < t.getKeyCount := by
    intro i hi
    obtain ⟨k, q, hq, hyes, rfl⟩ := hrequest i hi
    exact (hanswer k q hq hyes).1.lt hv
  have hn : n ≤ t.getKeyCount := by
    cases n with
    | zero => exact Nat.zero_le _
    | succ n => exact hlt n (Nat.lt_succ_self n)
  obtain ⟨es, hes, hrows⟩ := @OverScan.entries conv std st t order _ hover
  refine hs.sorted_rows hv hes hrows hn fun i hi => ?_
  obtain ⟨u, hu, hcolumn⟩ := hover.columnType_key hv (hlt i hi)
  rw [htype i hi] at hcolumn
  rw [hu, Except.ok.inj hcolumn]

open ScanPlanInfo (nameTable nameTable_valid)

/-- The rows with the names `b` and `e`. -/
def rowsBE : LevelDB := [([1, 0, 98], []), ([1, 0, 101], [])]

theorem rowsBE_store : Store decimalConversions nameTable rowsBE where
  ordered := List.pairwise_pair.mpr rfl
  keys e he := by
    obtain rfl | he := List.mem_cons.mp he
    · exact ⟨[.string [98]], .cons rfl .nil, by simp [Readable], by simp, [[1, 0, 98]], rfl, rfl⟩
    · obtain rfl := List.mem_singleton.mp he
      exact ⟨[.string [101]], .cons rfl .nil, by simp [Readable], by simp, [[1, 0, 101]], rfl, rfl⟩
  values e _ i hi := absurd hi (Nat.not_lt_zero i)

/-- The names are wanted in descending order, and once more in ascending order, which is refused. -/
def descendThenAscend : List OrderRequest := [⟨0, bytes "a", .descend⟩, ⟨0, bytes "a", .ascend⟩]

theorem promised_order_rowsBE :
    (Plan.scan (.create nameTable) .any).askAll descendThenAscend =
      ([true, false], .scan (.create nameTable) .descend) ∧
      ∃ order : SortOrder,
        (OrderRequest.IsKey nameTable ⟨0, bytes "a", .descend⟩ ∧ order = .descend) ∧
        (((Plan.scan (.create nameTable) .any).askAll descendThenAscend).2.run decimalConversions insertionSort
          ⟨fun _ => rowsBE, fun _ => none, fun _ => 0⟩).rows.Pairwise fun a b =>
            lex ((List.range 1).map fun i => keyOrder decimalConversions (fun _ => .string) (i, order)) a b ≠
              .gt := by
  obtain ⟨order, hanswer, hsorted⟩ := @promised_order decimalConversions insertionSort
    ⟨fun _ => rowsBE, fun _ => none, fun _ => 0⟩ nameTable (.scan (.create nameTable) .any) nameTable_valid rowsBE_store
    (.scan (LevelDBScanPlan.create_scans nameTable_valid)) descendThenAscend
  obtain ⟨hkey, hany | horder⟩ := hanswer 0 _ rfl rfl
  · cases hany
  · refine ⟨rfl, order, ⟨hkey, horder⟩, hsorted 1 _ (fun i hi => ?_) fun i hi => ?_⟩
    · exact ⟨0, _, rfl, rfl, (Nat.lt_one_iff.mp hi).symm⟩
    · rw [Nat.lt_one_iff.mp hi]
      rfl

end Plan

end LevelPgServer
