import LevelPgServer.Execution.GroupByCorrect
import LevelPgServer.Execution.SortCorrect
import LevelPgServer.Lib.SortedClasses

/-! One row for each group of the rows of a sorted child. -/

namespace LevelPgServer.GroupByPlan

open DBDataTypeHandler ExceptRules WeakOrder SortPlan

section Keys

variable (conv : Conversions) (type : Nat → DBDataType)

def sameKey (plan : GroupByPlan) (a b : Row) : Bool :=
  plan.groupby.all fun i => compareValues conv type i (SortPlan.value type a i) (SortPlan.value type b i) == .eq

/-- The order of two rows by the group columns, each in its direction. -/
def keyedOrder (plan : GroupByPlan) (orders : List SortOrder) : Row → Row → Ordering :=
  lex ((plan.groupby.zip orders).map (keyOrder conv type))

/-- `m_last` has for each group column a value that ties with the one of the row. -/
def Stands (rows : List Row) (p : Row) (i : Nat) (v : ExecutionResult) : Prop :=
  v ∈ rows.map (fun r => SortPlan.value type r i) ∧ compareValues conv type i (SortPlan.value type p i) v = .eq

variable {conv type} {columnType : Nat → Fallible DBDataType} {plan : GroupByPlan} {orders : List SortOrder}
  {rows : List Row}

theorem keyedOrder_orders (htotal : ∀ i ∈ plan.groupby,
      TotalOn conv type i (rows.map fun r => SortPlan.value type r i)) :
    Orders (keyedOrder conv type plan orders) rows :=
  rowOrder_orders fun key hkey => htotal key.1 (List.of_mem_zip (b := key.2) hkey).1

theorem direct_eq_iff {order : SortOrder} {n : Ordering} : order.direct n = .eq ↔ n = .eq := by
  cases order <;> cases n <;> decide

theorem keyedOrder_eq_iff (hlength : orders.length = plan.groupby.length) (a b : Row) :
    keyedOrder conv type plan orders a b = .eq ↔ sameKey conv type plan a b = true := by
  have hfst : (plan.groupby.zip orders).map Prod.fst = plan.groupby := List.map_fst_zip hlength.ge
  rw [keyedOrder, lex_eq_iff, sameKey, List.all_eq_true]
  constructor
  · intro h i hi
    rw [← hfst] at hi
    obtain ⟨key, hkey, rfl⟩ := List.mem_map.mp hi
    exact beq_iff_eq.mpr (direct_eq_iff.mp (h _ (List.mem_map_of_mem hkey)))
  · intro h c hc
    obtain ⟨key, hkey, rfl⟩ := List.mem_map.mp hc
    exact direct_eq_iff.mpr (beq_iff_eq.mp (h key.1 (hfst ▸ List.mem_map_of_mem hkey)))

theorem keyedOrder_beq (hlength : orders.length = plan.groupby.length) (a b : Row) :
    (keyedOrder conv type plan orders a b == .eq) = sameKey conv type plan a b := by
  rw [Bool.eq_iff_iff, beq_iff_eq, keyedOrder_eq_iff hlength]

theorem readLast_eq {r : Row} (htypes : ∀ i ∈ plan.groupby, columnType i = .ok (type i))
    (hvalues : ∀ i ∈ plan.groupby, r i (type i) = .ok (SortPlan.value type r i)) :
    plan.readLast columnType r =
      .ok (plan.groupby.map fun i => (i, type i), plan.groupby.map fun i => SortPlan.value type r i) := by
  have hall : plan.groupby.mapM (fun index => do
      let type ← columnType index
      let result ← r index type
      return ((index, type), result)) = .ok (plan.groupby.map fun i => ((i, type i), SortPlan.value type r i)) := by
    refine mapM_eq_ok fun i hi => ?_
    rw [htypes i hi, ok_bind, hvalues i hi]
    rfl
  rw [readLast, hall, ok_bind, List.map_map, List.map_map]
  rfl

theorem stands_self {is : List Nat} {p : Row} (hp : p ∈ rows)
    (htotal : ∀ i ∈ is, TotalOn conv type i (rows.map fun r => SortPlan.value type r i)) :
    List.Forall₂ (Stands conv type rows p) is (is.map fun i => SortPlan.value type p i) := by
  refine List.forall₂_map_right_iff.mpr (List.forall₂_same.mpr fun i hi => ?_)
  have hmem := List.mem_map_of_mem (f := fun r => SortPlan.value type r i) hp
  exact ⟨hmem, (htotal i hi).orders.refl hmem⟩

/-- The loop over the group columns sees whether the row has the group values of the row before it. -/
theorem compareLast_spec {is : List Nat} {p r : Row} {last : List ExecutionResult} (hp : p ∈ rows) (hr : r ∈ rows)
    (hvalues : ∀ i ∈ is, r i (type i) = .ok (SortPlan.value type r i))
    (htotal : ∀ i ∈ is, TotalOn conv type i (rows.map fun r => SortPlan.value type r i))
    (hlast : List.Forall₂ (Stands conv type rows p) is last) :
    ∃ last', List.Forall₂ (Stands conv type rows r) is last' ∧
      compareLast conv r (is.map fun i => (i, type i)) last = .ok (last', is.all fun i =>
        compareValues conv type i (SortPlan.value type p i) (SortPlan.value type r i) == .eq) := by
  induction hlast with
  | nil => exact ⟨[], .nil, rfl⟩
  | @cons i v is last hv _ ih =>
    obtain ⟨last', hlast', hrest⟩ :=
      ih (fun k hk => hvalues k (List.mem_cons_of_mem _ hk)) (fun k hk => htotal k (List.mem_cons_of_mem _ hk))
    have hi := htotal i List.mem_cons_self
    have hpm := List.mem_map_of_mem (f := fun r => SortPlan.value type r i) hp
    have hrm := List.mem_map_of_mem (f := fun r => SortPlan.value type r i) hr
    obtain ⟨n, hn⟩ := hi.total _ hrm v hv.1
    have hcompare : compareValues conv type i (SortPlan.value type r i) v = n := by
      rw [compareValues, hn]
      rfl
    have hsame : (compareValues conv type i (SortPlan.value type p i) (SortPlan.value type r i) == .eq) =
        decide (n = .eq) := by
      rw [Bool.eq_iff_iff, beq_iff_eq, decide_eq_true_iff, ← hcompare]
      constructor
      · intro h
        exact hi.orders.eq_trans hrm hpm hv.1 (hi.orders.eq_symm hpm hrm h) hv.2
      · intro h
        exact hi.orders.eq_trans hpm hv.1 hrm hv.2 (hi.orders.eq_symm hrm hv.1 h)
    rw [List.map_cons, compareLast, hvalues i List.mem_cons_self, ok_bind, hn, ok_bind, hrest, ok_bind, List.all_cons,
      hsame]
    by_cases heq : n = .eq
    · refine ⟨v :: last', .cons ⟨hv.1, hcompare.trans heq⟩ hlast', ?_⟩
      rw [if_pos heq, decide_eq_true heq, Bool.true_and]
      rfl
    · refine ⟨SortPlan.value type r i :: last', .cons ⟨hrm, hi.orders.refl hrm⟩ hlast', ?_⟩
      rw [if_neg heq, decide_eq_false heq, Bool.false_and]
      rfl

/-- What is read behind a row of a sorted child is cut into its groups. -/
theorem splitLast_cut (hlength : orders.length = plan.groupby.length)
    (htotal : ∀ i ∈ plan.groupby, TotalOn conv type i (rows.map fun r => SortPlan.value type r i))
    (hvalues : ∀ r ∈ rows, ∀ i ∈ plan.groupby, r i (type i) = .ok (SortPlan.value type r i)) {p : Row} {rs : List Row}
    (hin : ∀ r ∈ p :: rs, r ∈ rows) (hs : (p :: rs).Pairwise fun a b => keyedOrder conv type plan orders a b ≠ .gt)
    {last : List ExecutionResult} (hlast : List.Forall₂ (Stands conv type rows p) plan.groupby last) :
    ∃ g gs, splitLast conv (plan.groupby.map fun i => (i, type i)) rs last = .ok (g, gs) ∧
      Cut (keyedOrder conv type plan orders) (p :: rs) ((p :: g) :: gs) := by
  induction rs generalizing p last with
  | nil =>
    exact ⟨[], [], rfl, .singleton ((keyedOrder_orders htotal).refl (hin p List.mem_cons_self))⟩
  | cons r rs ih =>
    have hp := hin p List.mem_cons_self
    have hr := hin r (by simp)
    obtain ⟨last', hlast', hcompare⟩ := compareLast_spec hp hr (hvalues r hr) htotal hlast
    obtain ⟨g, gs, hrest, hcut⟩ := ih (fun x hx => hin x (List.mem_cons_of_mem p hx)) hs.of_cons hlast'
    have ho : Orders (keyedOrder conv type plan orders) (p :: r :: rs) := (keyedOrder_orders htotal).sub hin
    rw [splitLast, hcompare, ok_bind]
    dsimp only
    rw [hrest, ok_bind, ← sameKey]
    by_cases hsame : sameKey conv type plan p r = true
    · refine ⟨r :: g, gs, ?_, hcut.cons_tie ho ((keyedOrder_eq_iff hlength p r).mpr hsame)⟩
      rw [hsame]
      rfl
    · have hlt : keyedOrder conv type plan orders p r = .lt := by
        have hne := mt (keyedOrder_eq_iff hlength p r).mp hsame
        have hle := (List.pairwise_cons.mp hs).1 r List.mem_cons_self
        cases hc : keyedOrder conv type plan orders p r with
        | lt => rfl
        | eq => exact absurd hc hne
        | gt => exact absurd hc hle
      refine ⟨[], (r :: g) :: gs, ?_, hcut.cons_lt ho hs.of_cons hlt⟩
      rw [Bool.eq_false_iff.mpr hsame]
      rfl

/-- The rows of a sorted child are cut into the classes of the rows with the same group values. -/
theorem groups_classes (hlength : orders.length = plan.groupby.length)
    (htypes : ∀ i ∈ plan.groupby, columnType i = .ok (type i))
    (hvalues : ∀ r ∈ rows, ∀ i ∈ plan.groupby, r i (type i) = .ok (SortPlan.value type r i))
    (htotal : ∀ i ∈ plan.groupby, TotalOn conv type i (rows.map fun r => SortPlan.value type r i))
    (hs : rows.Pairwise fun a b => keyedOrder conv type plan orders a b ≠ .gt) :
    ∃ gs, plan.groups conv columnType rows = .ok gs ∧ Classes (sameKey conv type plan) rows gs := by
  have ho : Orders (keyedOrder conv type plan orders) rows := keyedOrder_orders htotal
  have hcut : ∃ gs, plan.groups conv columnType rows = .ok gs ∧ Cut (keyedOrder conv type plan orders) rows gs := by
    cases hrows : rows with
    | nil => exact ⟨[], rfl, .nil⟩
    | cons p rs =>
      have hp : p ∈ rows := hrows ▸ List.mem_cons_self
      obtain ⟨g, gs, hsplit, hcut⟩ :=
        splitLast_cut hlength htotal hvalues (fun r hr => hrows ▸ hr) (hrows ▸ hs) (stands_self hp htotal)
      refine ⟨(p :: g) :: gs, ?_, hcut⟩
      rw [groups, readLast_eq htypes (hvalues p hp), ok_bind]
      dsimp only
      rw [hsplit]
      rfl
  obtain ⟨gs, hgroups, hcut⟩ := hcut
  exact ⟨gs, hgroups, (hcut.classes ho).congr fun a _ b _ => keyedOrder_beq hlength a b⟩

end Keys

section Functions

variable (conv : Conversions) (type : Nat → DBDataType)

def integer (i : Nat) (r : Row) : Int :=
  match SortPlan.value type r i with
  | .int v => v
  | _ => 0

/-- What a function should say about a group: the value of its first row, its least and its greatest
value, how many rows it has, and the exact sum and average. -/
def Summary (func : AggrFunc) (g : List Row) (result : DBDataType → Fallible ExecutionResult) : Prop :=
  match func.func with
  | .first => ∃ r, g.head? = some r ∧ ∀ t, result t = .ok (SortPlan.value type r func.index)
  | .count => ∀ t, result t = .ok (.int g.length)
  | .min => ∃ r ∈ g, (∀ t, result t = .ok (SortPlan.value type r func.index)) ∧ ∀ s ∈ g,
      compareValues conv type func.index (SortPlan.value type r func.index) (SortPlan.value type s func.index) ≠ .gt
  | .max => ∃ r ∈ g, (∀ t, result t = .ok (SortPlan.value type r func.index)) ∧ ∀ s ∈ g,
      compareValues conv type func.index (SortPlan.value type r func.index) (SortPlan.value type s func.index) ≠ .lt
  | .sum => ∀ t, result t = .ok (.int (g.map (integer type func.index)).sum)
  | .avg => result .double =
      .ok (.double ((Double.ofInt (g.map (integer type func.index)).sum).div (Double.ofInt g.length)))

/-- A column of integers whose sums over the first rows of a group stay in the range of its type. -/
def Summable (plan : GroupByPlan) (rows : List Row) (i : Nat) : Prop :=
  ∃ t : IntType, getHandler (type i) = .int t ∧ t ≠ .bool ∧
    (∀ r ∈ rows, SortPlan.value type r i = .int (integer type i r) ∧ t.min ≤ integer type i r ∧
      integer type i r ≤ t.max) ∧
    ∀ a ∈ rows, SumsWithin t ((rows.filter (sameKey conv type plan a)).map (integer type i))

def Suits (plan : GroupByPlan) (rows : List Row) (func : AggrFunc) : Prop :=
  match func.func with
  | .first | .count => True
  | .min | .max => TotalOn conv type func.index (rows.map fun r => SortPlan.value type r func.index)
  | .sum | .avg => Summable conv type plan rows func.index

/-- The columns have types and values, and the group columns are ordered. -/
structure Groupable (plan : GroupByPlan) (columnType : Nat → Fallible DBDataType) (rows : List Row) : Prop where
  types : ∀ i ∈ plan.groupby ++ plan.proj.map AggrFunc.index, columnType i = .ok (type i)
  values : ∀ r ∈ rows, ∀ i ∈ plan.groupby ++ plan.proj.map AggrFunc.index, r i (type i) = .ok (SortPlan.value type r i)
  total : ∀ i ∈ plan.groupby, TotalOn conv type i (rows.map fun r => SortPlan.value type r i)

/-- What the plan delivers for the groups: one row for each, in which every function that suits its column
summarizes the group, whatever the other functions do. Only a function that does not suit can fail. -/
structure Summarized (plan : GroupByPlan) (rows : List Row) (gs : List (List Row)) (out : Run Row) : Prop where
  row : ∀ (k : Nat) (o : Row), out.rows[k]? = some o → ∃ g, gs[k]? = some g ∧
    ∀ j func, plan.proj[j]? = some func → Suits conv type plan rows func → Summary conv type func g (o j)
  complete : out.fault = none → out.rows.length = gs.length
  succeeds : (∀ func ∈ plan.proj, Suits conv type plan rows func) → out.fault = none

variable {conv type} {columnType : Nat → Fallible DBDataType} {plan : GroupByPlan} {func : AggrFunc} {g : List Row}
  {r : Row}

theorem start_eq (hindex : columnType func.index = .ok (type func.index))
    (hvalue : r func.index (type func.index) = .ok (SortPlan.value type r func.index)) :
    start columnType r func = .ok ⟨func, 1, SortPlan.value type r func.index⟩ := by
  rw [start, read, hindex, ok_bind, hvalue]
  rfl

/-- A function that keeps the first value counts the rows. -/
theorem foldlM_keep (hfunc : func.func = .first ∨ func.func = .count) (rs : List Row) (v : ExecutionResult) (n : Nat) :
    rs.foldlM (fun acc r => update conv columnType r acc) ⟨func, n, v⟩ = .ok ⟨func, n + rs.length, v⟩ := by
  induction rs generalizing n with
  | nil => rfl
  | cons r rs ih =>
    have hstep : update conv columnType r ⟨func, n, v⟩ = .ok ⟨func, n + 1, v⟩ := by
      obtain h | h := hfunc <;> simp only [update, h]
    rw [List.foldlM_cons, hstep, ok_bind, ih, List.length_cons, Nat.add_right_comm, Nat.add_assoc]

/-- A function that takes what comes before its value in an order ends at a least value. -/
theorem foldlM_least {d : ExecutionResult → ExecutionResult → Ordering} {vs : List ExecutionResult} (ho : Orders d vs)
    {rs : List Row} (hin : ∀ r ∈ rs, SortPlan.value type r func.index ∈ vs)
    (hstep : ∀ r ∈ rs, ∀ n, ∀ a ∈ vs, update conv columnType r ⟨func, n, a⟩ =
      .ok ⟨func, n + 1, if d (SortPlan.value type r func.index) a = .lt then SortPlan.value type r func.index else a⟩)
    {a : ExecutionResult} (ha : a ∈ vs) (n : Nat) :
    ∃ w ∈ a :: rs.map (fun r => SortPlan.value type r func.index),
      rs.foldlM (fun acc r => update conv columnType r acc) ⟨func, n, a⟩ = .ok ⟨func, n + rs.length, w⟩ ∧
      ∀ u ∈ a :: rs.map (fun r => SortPlan.value type r func.index), d w u ≠ .gt := by
  induction rs generalizing a n with
  | nil =>
    refine ⟨a, List.mem_cons_self, rfl, fun u hu => ?_⟩
    rw [List.mem_singleton.mp hu, ho.refl ha]
    decide
  | cons r rs ih =>
    have hr := hin r List.mem_cons_self
    have hsub : ∀ {b}, b ∈ vs → ∀ x ∈ b :: rs.map (fun r => SortPlan.value type r func.index), x ∈ vs := by
      intro b hb x hx
      obtain rfl | hx := List.mem_cons.mp hx
      · exact hb
      · obtain ⟨y, hy, rfl⟩ := List.mem_map.mp hx
        exact hin y (List.mem_cons_of_mem r hy)
    have hrest := fun a (ha : a ∈ vs) n => ih (fun x hx => hin x (List.mem_cons_of_mem r hx))
      (fun x hx => hstep x (List.mem_cons_of_mem r hx)) (a := a) ha n
    rw [List.foldlM_cons, hstep r List.mem_cons_self n a ha, ok_bind, List.map_cons, List.length_cons]
    by_cases hlt : d (SortPlan.value type r func.index) a = .lt
    · rw [if_pos hlt]
      obtain ⟨w, hw, hfold, hleast⟩ := hrest _ hr (n + 1)
      refine ⟨w, List.mem_cons_of_mem a hw, by rw [hfold, Nat.add_right_comm, Nat.add_assoc], fun u hu => ?_⟩
      obtain rfl | hu := List.mem_cons.mp hu
      · exact ho.trans w (hsub hr w hw) _ hr u ha (hleast _ List.mem_cons_self) (by simp [hlt])
      · exact hleast u hu
    · rw [if_neg hlt]
      obtain ⟨w, hw, hfold, hleast⟩ := hrest a ha (n + 1)
      refine ⟨w, ?_, by rw [hfold, Nat.add_right_comm, Nat.add_assoc], fun u hu => ?_⟩
      · obtain rfl | hw' := List.mem_cons.mp hw
        · exact List.mem_cons_self
        · exact List.mem_cons_of_mem a (List.mem_cons_of_mem _ hw')
      · obtain rfl | hu := List.mem_cons.mp hu
        · exact hleast u List.mem_cons_self
        · obtain rfl | hu := List.mem_cons.mp hu
          · have har : d a (SortPlan.value type r func.index) ≠ .gt := by
              intro hgt
              rw [ho.swap a ha _ hr, hgt] at hlt
              exact hlt rfl
            exact ho.trans w (hsub ha w hw) a ha _ hr (hleast a List.mem_cons_self) har
          · exact hleast u (List.mem_cons_of_mem a hu)

theorem update_min (hfunc : func.func = .min) (hindex : columnType func.index = .ok (type func.index))
    (hvalue : r func.index (type func.index) = .ok (SortPlan.value type r func.index))
    {a : ExecutionResult} {m : Ordering}
    (hm : (SortPlan.value type r func.index).compare conv a (type func.index) = .ok m) (n : Nat) :
    update conv columnType r ⟨func, n, a⟩ =
      .ok ⟨func, n + 1, if m = .lt then SortPlan.value type r func.index else a⟩ := by
  simp only [update, hfunc, hindex, hvalue, hm, ok_bind]
  split <;> rfl

theorem update_max (hfunc : func.func = .max) (hindex : columnType func.index = .ok (type func.index))
    (hvalue : r func.index (type func.index) = .ok (SortPlan.value type r func.index))
    {a : ExecutionResult} {m : Ordering}
    (hm : (SortPlan.value type r func.index).compare conv a (type func.index) = .ok m) (n : Nat) :
    update conv columnType r ⟨func, n, a⟩ =
      .ok ⟨func, n + 1, if m.swap = .lt then SortPlan.value type r func.index else a⟩ := by
  simp only [update, hfunc, hindex, hvalue, hm, ok_bind]
  cases m <;> rfl

theorem compareValues_eq {i : Nat} {vs : List ExecutionResult} (h : TotalOn conv type i vs) {a b : ExecutionResult}
    (ha : a ∈ vs) (hb : b ∈ vs) : a.compare conv b (type i) = .ok (compareValues conv type i a b) := by
  obtain ⟨n, hn⟩ := h.total a ha b hb
  rw [compareValues, hn]
  rfl

/-- `MIN` and `MAX` of a group end at a value of it that no other comes before, in the order or in its reverse. -/
theorem aggregate_least {rows : List Row} {d : ExecutionResult → ExecutionResult → Ordering}
    (ho : Orders d (rows.map fun r => SortPlan.value type r func.index))
    (hindex : columnType func.index = .ok (type func.index))
    (hvalues : ∀ r ∈ rows, r func.index (type func.index) = .ok (SortPlan.value type r func.index))
    (hstep : ∀ r ∈ rows, ∀ n, ∀ a ∈ rows.map (fun r => SortPlan.value type r func.index),
      update conv columnType r ⟨func, n, a⟩ =
        .ok ⟨func, n + 1, if d (SortPlan.value type r func.index) a = .lt then SortPlan.value type r func.index else a⟩)
    (hg : ∀ r ∈ g, r ∈ rows) (hne : g ≠ []) :
    ∃ r ∈ g, aggregate conv columnType func g = .ok ⟨func, g.length, SortPlan.value type r func.index⟩ ∧
      ∀ s ∈ g, d (SortPlan.value type r func.index) (SortPlan.value type s func.index) ≠ .gt := by
  cases g with
  | nil => exact absurd rfl hne
  | cons p rs =>
    have hp := hg p List.mem_cons_self
    obtain ⟨w, hw, hfold, hleast⟩ := foldlM_least ho
      (fun r hr => List.mem_map_of_mem (f := fun r => SortPlan.value type r func.index)
        (hg r (List.mem_cons_of_mem p hr)))
      (fun r hr => hstep r (hg r (List.mem_cons_of_mem p hr)))
      (List.mem_map_of_mem (f := fun r => SortPlan.value type r func.index) hp) 1
    rw [← List.map_cons (f := fun r => SortPlan.value type r func.index)] at hw hleast
    obtain ⟨r, hr, rfl⟩ := List.mem_map.mp hw
    refine ⟨r, hr, ?_, fun s hs => hleast _ (List.mem_map_of_mem (f := fun r => SortPlan.value type r func.index) hs)⟩
    rw [aggregate, start_eq hindex (hvalues p hp), ok_bind, hfold, List.length_cons, Nat.add_comm]

theorem aggregate_keep (hfunc : func.func = .first ∨ func.func = .count)
    (hindex : columnType func.index = .ok (type func.index))
    (hvalues : ∀ r ∈ g, r func.index (type func.index) = .ok (SortPlan.value type r func.index)) (hne : g ≠ []) :
    ∃ r, g.head? = some r ∧
      aggregate conv columnType func g = .ok ⟨func, g.length, SortPlan.value type r func.index⟩ := by
  cases g with
  | nil => exact absurd rfl hne
  | cons p rs =>
    refine ⟨p, rfl, ?_⟩
    rw [aggregate, start_eq hindex (hvalues p List.mem_cons_self), ok_bind, foldlM_keep hfunc,
      List.length_cons, Nat.add_comm]

theorem Summable.integers {rows : List Row} {i : Nat} (h : Summable conv type plan rows i)
    (hindex : columnType i = .ok (type i)) (hvalues : ∀ r ∈ rows, r i (type i) = .ok (SortPlan.value type r i))
    (hclass : ∃ a ∈ rows, g = rows.filter (sameKey conv type plan a)) :
    ∃ t, IntegerColumn columnType i t g (g.map (integer type i)) ∧ SumsWithin t (g.map (integer type i)) := by
  obtain ⟨t, htype, hbool, hrange, hsums⟩ := h
  obtain ⟨a, ha, rfl⟩ := hclass
  refine ⟨t, ⟨type i, hindex, htype, hbool, ?_⟩, hsums a ha⟩
  refine List.forall₂_map_right_iff.mpr (List.forall₂_same.mpr fun r hr => ?_)
  obtain ⟨hint, hmin, hmax⟩ := hrange r (List.mem_of_mem_filter hr)
  exact ⟨(hvalues r (List.mem_of_mem_filter hr)).trans (congrArg _ hint), hmin, hmax⟩

theorem Groupable.summary {rows : List Row} (h : Groupable conv type plan columnType rows) (hfunc : func ∈ plan.proj)
    (hsuits : Suits conv type plan rows func) (hclass : ∃ a ∈ rows, g = rows.filter (sameKey conv type plan a))
    (hne : g ≠ []) :
    (∃ acc, aggregate conv columnType func g = .ok acc) ∧
      Summary conv type func g (value conv columnType func g) := by
  have hg : ∀ r ∈ g, r ∈ rows := by
    obtain ⟨a, -, rfl⟩ := hclass
    exact fun r hr => List.mem_of_mem_filter hr
  have hmem : func.index ∈ plan.groupby ++ plan.proj.map AggrFunc.index :=
    List.mem_append_right _ (List.mem_map_of_mem hfunc)
  have hindex := h.types _ hmem
  have hvalues := fun r hr => h.values r hr _ hmem
  have hvalue := fun r hr => List.mem_map_of_mem (f := fun r => SortPlan.value type r func.index)
    (a := r) (l := rows) hr
  unfold Suits at hsuits
  unfold Summary
  cases hkind : func.func with
  | first =>
    obtain ⟨r, hr, hacc⟩ := @aggregate_keep conv type columnType func g (.inl hkind) hindex
      (fun r hr => hvalues r (hg r hr)) hne
    refine ⟨⟨_, hacc⟩, r, hr, fun t => ?_⟩
    rw [value_eq hacc]
    simp [groupRow, hkind]
  | count =>
    obtain ⟨r, -, hacc⟩ := @aggregate_keep conv type columnType func g (.inr hkind) hindex
      (fun r hr => hvalues r (hg r hr)) hne
    refine ⟨⟨_, hacc⟩, fun t => ?_⟩
    rw [value_eq hacc]
    simp [groupRow, hkind]
  | min =>
    rw [hkind] at hsuits
    obtain ⟨r, hr, hacc, hleast⟩ := aggregate_least hsuits.orders hindex hvalues (fun r hr n a ha =>
      update_min hkind hindex (hvalues r hr) (compareValues_eq hsuits (hvalue r hr) ha) n) hg hne
    refine ⟨⟨_, hacc⟩, r, hr, fun t => ?_, hleast⟩
    rw [value_eq hacc]
    simp [groupRow, hkind]
  | max =>
    rw [hkind] at hsuits
    have hstep : ∀ r ∈ rows, ∀ n, ∀ a ∈ rows.map (fun r => SortPlan.value type r func.index),
        update conv columnType r ⟨func, n, a⟩ = .ok ⟨func, n + 1,
          if compareValues conv type func.index a (SortPlan.value type r func.index) = .lt
            then SortPlan.value type r func.index else a⟩ := by
      intro r hr n a ha
      rw [hsuits.orders.swap _ (hvalue r hr) a ha]
      exact update_max hkind hindex (hvalues r hr) (compareValues_eq hsuits (hvalue r hr) ha) n
    obtain ⟨r, hr, hacc, hgreatest⟩ := aggregate_least hsuits.orders.reverse hindex hvalues hstep hg hne
    refine ⟨⟨_, hacc⟩, r, hr, fun t => ?_, fun s hs hlt => hgreatest s hs ?_⟩
    · rw [value_eq hacc]
      simp [groupRow, hkind]
    · rw [hsuits.orders.swap _ (hvalue r (hg r hr)) _ (hvalue s (hg s hs)), hlt]
      rfl
  | sum =>
    rw [hkind] at hsuits
    obtain ⟨t, hcolumn, hsums⟩ := hsuits.integers hindex hvalues hclass
    have hacc := (@aggregate_integers conv columnType t func (.inl hkind) g _ hcolumn hne).1 hsums
    refine ⟨⟨_, hacc⟩, fun t => ?_⟩
    rw [value_eq hacc]
    simp [groupRow, hkind]
  | avg =>
    rw [hkind] at hsuits
    obtain ⟨t, hcolumn, hsums⟩ := hsuits.integers hindex hvalues hclass
    have havg := (@avgHolds_iff conv columnType t func hkind g _ hcolumn hne).mpr hsums
    rw [AvgHolds, List.length_map] at havg
    exact ⟨⟨_, (@aggregate_integers conv columnType t func (.inr hkind) g _ hcolumn hne).1 hsums⟩, havg⟩

/-- Where the groups are the classes of the rows, the plan summarizes each class. -/
theorem Groupable.run_classes {rows : List Row} {gs : List (List Row)} (h : Groupable conv type plan columnType rows)
    (hgroups : plan.groups conv columnType rows = .ok gs) (hclasses : Classes (sameKey conv type plan) rows gs) :
    Summarized conv type plan rows gs (plan.run conv columnType ⟨rows, none⟩) := by
  have hsummary : ∀ g ∈ gs, ∀ func ∈ plan.proj, Suits conv type plan rows func →
      (∃ acc, aggregate conv columnType func g = .ok acc) ∧
        Summary conv type func g (value conv columnType func g) := by
    intro g hg func hfunc hsuits
    have hne : g ≠ [] := fun hnil => hclasses.ne_nil (hnil ▸ hg)
    obtain ⟨a, ha⟩ := List.exists_mem_of_ne_nil g hne
    exact h.summary hfunc hsuits
      ⟨a, hclasses.flatten ▸ List.mem_flatten_of_mem hg ha, hclasses.eq_filter g hg a ha⟩ hne
  have hdelivers := run_delivers hgroups
  refine ⟨fun k o ho => ?_, fun hfault => hdelivers.complete hfault, fun hsuits => ?_⟩
  · obtain ⟨g, hg, hrow⟩ := hdelivers.rows k o ho
    refine ⟨g, hg, fun j func hj hsuits => ?_⟩
    have hsum := (hsummary g (List.mem_of_getElem? hg) func (List.mem_of_getElem? hj) hsuits).2
    rwa [← funext fun t => hrow j func t hj] at hsum
  · cases hf : (plan.run conv columnType ⟨rows, none⟩).fault with
    | none => rfl
    | some f =>
      obtain ⟨g, hg, func, hfunc, herror⟩ := hdelivers.failed f hf
      obtain ⟨acc, hacc⟩ := (hsummary g (List.mem_of_getElem? hg) func hfunc (hsuits func hfunc)).1
      rw [herror] at hacc
      cases hacc

theorem Groupable.groups {rows : List Row} {orders : List SortOrder} (h : Groupable conv type plan columnType rows)
    (hlength : orders.length = plan.groupby.length)
    (hs : rows.Pairwise fun a b => keyedOrder conv type plan orders a b ≠ .gt) :
    ∃ gs, plan.groups conv columnType rows = .ok gs ∧ Classes (sameKey conv type plan) rows gs := by
  have hkeys : ∀ i ∈ plan.groupby, i ∈ plan.groupby ++ plan.proj.map AggrFunc.index :=
    fun i hi => List.mem_append_left _ hi
  exact groups_classes hlength (fun i hi => h.types i (hkeys i hi)) (fun r hr i hi => h.values r hr i (hkeys i hi))
    h.total hs

/-- Over a child whose rows are sorted by the group columns, in whatever directions, the plan delivers one
row for each tuple of group values that the rows have, and each row is counted in exactly one of them:
`gs` are the classes of the rows with the same group values, and the functions summarize their class. -/
theorem run_summarizes {rows : List Row} {orders : List SortOrder} (h : Groupable conv type plan columnType rows)
    (hlength : orders.length = plan.groupby.length)
    (hs : rows.Pairwise fun a b => keyedOrder conv type plan orders a b ≠ .gt) :
    ∃ gs, Classes (sameKey conv type plan) rows gs ∧
      Summarized conv type plan rows gs (plan.run conv columnType ⟨rows, none⟩) := by
  obtain ⟨gs, hgroups, hclasses⟩ := h.groups hlength hs
  exact ⟨gs, hclasses, h.run_classes hgroups hclasses⟩

def pairRow (a b : Int) : Row := fun i _ => .ok (.int (if i = 0 then a else b))

/-- `SELECT a, count(b), min(b), max(b), sum(b), avg(b) .. GROUP BY a`. -/
def allFunctions : GroupByPlan :=
  { proj := [⟨.first, bytes "a", 0⟩, ⟨.count, bytes "count(b)", 1⟩, ⟨.min, bytes "min(b)", 1⟩,
      ⟨.max, bytes "max(b)", 1⟩,
      ⟨.sum, bytes "sum(b)", 1⟩, ⟨.avg, bytes "avg(b)", 1⟩],
    groupby := [0] }

theorem totalOn_pairRows (i : Nat) : TotalOn decimalConversions (fun _ => .int32) i
    ([pairRow 2 5, pairRow 2 7, pairRow 1 3].map fun r => SortPlan.value (fun _ => .int32) r i) := by
  refine totalOn_of_ordered ?_
  by_cases hi : i = 0 <;> simp only [pairRow, SortPlan.value, hi, List.map_cons, List.map_nil] <;> decide

theorem groupable_allFunctions : Groupable decimalConversions (fun _ => .int32) allFunctions (fun _ => .ok .int32)
    [pairRow 2 5, pairRow 2 7, pairRow 1 3] := by
  refine ⟨fun _ _ => rfl, fun r hr i _ => ?_, fun i _ => totalOn_pairRows i⟩
  simp only [List.mem_cons, List.not_mem_nil, or_false] at hr
  obtain rfl | rfl | rfl := hr <;> rfl

theorem suits_allFunctions : ∀ func ∈ allFunctions.proj,
    Suits decimalConversions (fun _ => .int32) allFunctions [pairRow 2 5, pairRow 2 7, pairRow 1 3] func := by
  have hsum : Summable decimalConversions (fun _ => .int32) allFunctions [pairRow 2 5, pairRow 2 7, pairRow 1 3] 1 := by
    refine ⟨.int32, rfl, by decide, fun r hr => ?_, fun a ha => ?_⟩
    · simp only [List.mem_cons, List.not_mem_nil, or_false] at hr
      obtain rfl | rfl | rfl := hr <;> exact ⟨rfl, by decide, by decide⟩
    · have htwo : SumsWithin .int32 [5, 7] := (sumsWithin_cons (by decide)).mpr
        ⟨by decide, sumsWithin_singleton (by decide)⟩
      simp only [List.mem_cons, List.not_mem_nil, or_false] at ha
      obtain rfl | rfl | rfl := ha
      · exact htwo
      · exact htwo
      · exact sumsWithin_singleton (by decide)
  intro func hfunc
  simp only [allFunctions, List.mem_cons, List.not_mem_nil, or_false] at hfunc
  obtain rfl | rfl | rfl | rfl | rfl | rfl := hfunc
  · trivial
  · trivial
  · exact totalOn_pairRows 1
  · exact totalOn_pairRows 1
  · exact hsum
  · exact hsum

theorem run_summarizes_allFunctions :
    ∃ gs, Classes (sameKey decimalConversions (fun _ => .int32) allFunctions)
        [pairRow 2 5, pairRow 2 7, pairRow 1 3] gs ∧
      (∀ func ∈ allFunctions.proj,
        Suits decimalConversions (fun _ => .int32) allFunctions [pairRow 2 5, pairRow 2 7, pairRow 1 3] func) ∧
      Summarized decimalConversions (fun _ => .int32) allFunctions [pairRow 2 5, pairRow 2 7, pairRow 1 3] gs
        (allFunctions.run decimalConversions (fun _ => .ok .int32)
          ⟨[pairRow 2 5, pairRow 2 7, pairRow 1 3], none⟩) := by
  obtain ⟨gs, hclasses, hsummarized⟩ := @run_summarizes _ _ _ _ _ [.descend] groupable_allFunctions rfl (by decide)
  exact ⟨gs, hclasses, suits_allFunctions, hsummarized⟩

end Functions

end LevelPgServer.GroupByPlan
