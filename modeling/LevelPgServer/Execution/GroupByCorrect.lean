import LevelPgServer.Execution.GroupByPlan
import LevelPgServer.Execution.KeyOrder

namespace LevelPgServer.GroupByPlan

open DBDataTypeHandler ExceptRules

variable (conv : Conversions) (columnType : Nat → Fallible DBDataType)

section Groups

/-- The further rows of the group that is being read, and the groups behind it. -/
def splitLast (columns : List (Nat × DBDataType)) : List Row → List ExecutionResult →
    Fallible (List Row × List (List Row))
  | [], _ => .ok ([], [])
  | r :: rs, last => do
    let (last, same) ← compareLast conv r columns last
    let rest ← splitLast columns rs last
    return if same then (r :: rest.1, rest.2) else ([], (r :: rest.1) :: rest.2)

/-- The rows of the child cut where a group column changes. -/
def groups (plan : GroupByPlan) : List Row → Fallible (List (List Row))
  | [] => .ok []
  | r :: rs => do
    let (columns, last) ← plan.readLast columnType r
    let rest ← splitLast conv columns rs last
    return (r :: rest.1) :: rest.2

def aggregate (func : AggrFunc) : List Row → Fallible Acc
  | [] => .error .undefined
  | r :: rs => do
    let acc ← start columnType r func
    rs.foldlM (fun acc r => update conv columnType r acc) acc

def value (func : AggrFunc) (g : List Row) (type : DBDataType) : Fallible ExecutionResult := do
  let acc ← aggregate conv columnType func g
  groupRow conv [acc] 0 type

/-- A run delivers the rows of the groups in order, up to the first group at which a function fails. -/
structure Delivers (proj : List AggrFunc) (gs : List (List Row)) (run : Run Row) : Prop where
  rows : ∀ (k : Nat) (row : Row), run.rows[k]? = some row → ∃ g, gs[k]? = some g ∧
    ∀ (j : Nat) (func : AggrFunc) (type : DBDataType), proj[j]? = some func → row j type = value conv columnType func g type
  complete : run.fault = none → run.rows.length = gs.length
  failed : ∀ f, run.fault = some f → ∃ g, gs[run.rows.length]? = some g ∧
    ∃ func ∈ proj, aggregate conv columnType func g = .error f

variable {conv columnType} {proj : List AggrFunc}

theorem aggregate_append {func : AggrFunc} {p : List Row} {acc : Acc} (h : aggregate conv columnType func p = .ok acc)
    (g : List Row) : aggregate conv columnType func (p ++ g) =
      g.foldlM (fun acc r => update conv columnType r acc) acc := by
  cases p with
  | nil => cases h
  | cons r rs =>
    rw [aggregate] at h
    obtain ⟨acc', hs, h⟩ := bind_eq_ok.mp h
    rw [List.cons_append, aggregate, hs, ok_bind, List.foldlM_append, h, ok_bind]

theorem getElem?_forall₂ {α β : Type} {R : α → β → Prop} {as : List α} {bs : List β} (h : List.Forall₂ R as bs) {j : Nat}
    {a : α} (hj : as[j]? = some a) : ∃ b, bs[j]? = some b ∧ R a b := by
  induction h generalizing j with
  | nil => cases hj
  | @cons a' b as bs hab _ ih =>
    cases j with
    | zero =>
      cases hj
      exact ⟨b, rfl, hab⟩
    | succ j => exact ih hj

theorem value_eq {func : AggrFunc} {g : List Row} {acc : Acc} (h : aggregate conv columnType func g = .ok acc) (type : DBDataType) :
    value conv columnType func g type = groupRow conv [acc] 0 type := by
  rw [value, h, ok_bind]

namespace Delivers

theorem done : Delivers conv columnType proj [] .done where
  rows _ _ hk := by cases hk
  complete _ := rfl
  failed _ hf := by cases hf

theorem cons {gs : List (List Row)} {run : Run Row} (h : Delivers conv columnType proj gs run) {g : List Row}
    {accs : List Acc} (hacc : List.Forall₂ (fun func acc => aggregate conv columnType func g = .ok acc) proj accs) :
    Delivers conv columnType proj (g :: gs) (.cons (groupRow conv accs) run) where
  rows k row hk := by
    cases k with
    | succ k => exact h.rows k row hk
    | zero =>
      cases hk
      refine ⟨g, rfl, fun j func type hj => ?_⟩
      obtain ⟨acc, hj', ha⟩ := getElem?_forall₂ hacc hj
      rw [value_eq ha]
      simp [groupRow, hj']
  complete hf := congrArg (· + 1) (h.complete hf)
  failed f hf := h.failed f hf

theorem failed_first {g : List Row} {gs : List (List Row)} {func : AggrFunc} (hm : func ∈ proj) {f : Fault}
    (h : aggregate conv columnType func g = .error f) : Delivers conv columnType proj (g :: gs) (.failed f) where
  rows _ _ hk := by cases hk
  complete hf := by cases hf
  failed e he := by
    cases he
    exact ⟨g, rfl, func, hm, h⟩

end Delivers

/-- The step of the loop: `p` is what has been read of the group, and `accs` what the functions have made of it. -/
theorem nextAll_delivers {columns : List (Nat × DBDataType)} (rs : List Row) {p g : List Row} {gs : List (List Row)}
    {accs : List Acc} {last : List ExecutionResult} (hsplit : splitLast conv columns rs last = .ok (g, gs))
    (hacc : List.Forall₂ (fun func acc => aggregate conv columnType func p = .ok acc) proj accs) :
    Delivers conv columnType proj ((p ++ g) :: gs) (nextAll conv columnType proj columns none rs accs last) := by
  induction rs generalizing p g gs accs last with
  | nil =>
    cases hsplit
    rw [List.append_nil, nextAll]
    exact Delivers.done.cons hacc
  | cons r rs ih =>
    obtain ⟨⟨last', same⟩, hcmp, hsplit⟩ := bind_eq_ok.mp hsplit
    obtain ⟨⟨g', gs'⟩, hrest, hsplit⟩ := bind_eq_ok.mp hsplit
    rw [nextAll, hcmp]
    cases same with
    | true =>
      cases hsplit
      cases hupdate : accs.mapM (update conv columnType r) with
      | error f =>
        obtain ⟨acc, hm, hf⟩ := mem_of_mapM_error hupdate
        obtain ⟨j, hj⟩ := List.mem_iff_getElem?.mp hm
        obtain ⟨func, hj', ha⟩ := getElem?_forall₂ hacc.flip hj
        refine Delivers.failed_first (List.mem_of_getElem? hj') ?_
        rw [aggregate_append ha, List.foldlM_cons]
        exact bind_eq_error.mpr (.inl hf)
      | ok accs' =>
        have hacc' : List.Forall₂ (fun func acc => aggregate conv columnType func (p ++ [r]) = .ok acc) proj accs' := by
          have hstep := forall₂_of_mapM_ok hupdate
          refine List.forall₂_iff_get.mpr ⟨hacc.length_eq.trans hstep.length_eq, fun j h1 h2 => ?_⟩
          have h3 : j < accs.length := hstep.length_eq ▸ h2
          have ha := (List.forall₂_iff_get.mp hacc).2 j h1 h3
          rw [aggregate_append ha, List.foldlM_cons]
          exact bind_eq_ok.mpr ⟨_, (List.forall₂_iff_get.mp hstep).2 j h3 h2, rfl⟩
        have := ih hrest hacc'
        rwa [List.append_assoc] at this
    | false =>
      cases hsplit
      rw [List.append_nil]
      refine Delivers.cons ?_ hacc
      cases hstart : proj.mapM (start columnType r) with
      | error f =>
        obtain ⟨func, hm, hf⟩ := mem_of_mapM_error hstart
        exact Delivers.failed_first hm (bind_eq_error.mpr (.inl hf))
      | ok accs' =>
        have hacc' : List.Forall₂ (fun func acc => aggregate conv columnType func [r] = .ok acc) proj accs' :=
          (forall₂_of_mapM_ok hstart).imp fun _ _ h => bind_eq_ok.mpr ⟨_, h, rfl⟩
        exact ih hrest hacc'

theorem run_delivers {plan : GroupByPlan} {rows : List Row} {gs : List (List Row)}
    (h : plan.groups conv columnType rows = .ok gs) :
    Delivers conv columnType plan.proj gs (plan.run conv columnType ⟨rows, none⟩) := by
  cases rows with
  | nil =>
    cases h
    exact Delivers.done
  | cons r rs =>
    obtain ⟨⟨columns, last⟩, hlast, h⟩ := bind_eq_ok.mp h
    obtain ⟨⟨g, gs'⟩, hsplit, h⟩ := bind_eq_ok.mp h
    cases h
    simp only [run, hlast]
    cases hstart : plan.proj.mapM (start columnType r) with
    | error f =>
      obtain ⟨func, hm, hf⟩ := mem_of_mapM_error hstart
      exact Delivers.failed_first hm (bind_eq_error.mpr (.inl hf))
    | ok accs =>
      have hacc : List.Forall₂ (fun func acc => aggregate conv columnType func [r] = .ok acc) plan.proj accs :=
        (forall₂_of_mapM_ok hstart).imp fun _ _ h => bind_eq_ok.mpr ⟨_, h, rfl⟩
      exact nextAll_delivers rs hsplit hacc

theorem splitLast_ne_nil {columns : List (Nat × DBDataType)} {rs : List Row} {last : List ExecutionResult} {g : List Row}
    {gs : List (List Row)} (h : splitLast conv columns rs last = .ok (g, gs)) : ∀ g ∈ gs, g ≠ [] := by
  induction rs generalizing last g gs with
  | nil =>
    cases h
    simp
  | cons r rs ih =>
    obtain ⟨⟨last', same⟩, -, h⟩ := bind_eq_ok.mp h
    obtain ⟨⟨g', gs'⟩, hrest, h⟩ := bind_eq_ok.mp h
    cases same with
    | true =>
      cases h
      exact ih hrest
    | false =>
      cases h
      simpa using ih hrest

theorem groups_ne_nil {plan : GroupByPlan} {rows : List Row} {gs : List (List Row)}
    (h : plan.groups conv columnType rows = .ok gs) : ∀ g ∈ gs, g ≠ [] := by
  cases rows with
  | nil =>
    cases h
    simp
  | cons r rs =>
    obtain ⟨⟨columns, last⟩, -, h⟩ := bind_eq_ok.mp h
    obtain ⟨⟨g, gs'⟩, hsplit, h⟩ := bind_eq_ok.mp h
    cases h
    simpa using splitLast_ne_nil hsplit

end Groups

section Sums

/-- All sums of the first values stay in the range of the type. -/
def SumsWithin (t : IntType) (vs : List Int) : Prop := ∀ k, t.min ≤ (vs.take k).sum ∧ (vs.take k).sum ≤ t.max

/-- The error with which a value outside the range of a type is reported. -/
def OutOfRange (f : Fault) : Prop :=
  ∃ v : Int, f = .thrown (parseError ("integer " ++ ToString.toString v ++ " exceed data type range"))

/-- The values that the rows of a group have in an integer column. -/
def IntegerColumn (columnType : Nat → Fallible DBDataType) (index : Nat) (t : IntType) (g : List Row) (vs : List Int) : Prop :=
  ∃ type, columnType index = .ok type ∧ getHandler type = .int t ∧ t ≠ .bool ∧
    List.Forall₂ (fun r v => r index type = .ok (.int v) ∧ t.min ≤ v ∧ v ≤ t.max) g vs

/-- `SUM` is exact, or the statement fails with the range error. -/
def SumHolds (result : Fallible ExecutionResult) (vs : List Int) : Prop :=
  result = .ok (.int vs.sum) ∨ ∃ f, result = .error f ∧ OutOfRange f

/-- `AVG` is the sum divided by the number of rows. It lies between the values, so that it never
has to fail. -/
def AvgHolds (result : Fallible ExecutionResult) (vs : List Int) : Prop :=
  result = .ok (.double ((Double.ofInt vs.sum).div (Double.ofInt vs.length)))

variable {conv columnType} {t : IntType}

theorem min_le_zero (t : IntType) : t.min ≤ 0 ∧ 0 ≤ t.max := by cases t <;> decide

theorem within_int64 (t : IntType) : IntType.int64.min ≤ t.min ∧ t.max ≤ IntType.int64.max := by cases t <;> decide

theorem sumsWithin_cons {a v : Int} {vs : List Int} (ha : t.min ≤ a ∧ a ≤ t.max) :
    SumsWithin t (a :: v :: vs) ↔ (t.min ≤ a + v ∧ a + v ≤ t.max) ∧ SumsWithin t ((a + v) :: vs) := by
  have hzero := min_le_zero t
  constructor
  · intro h
    have h2 := h 2
    refine ⟨by simpa using h2, fun k => ?_⟩
    cases k with
    | zero => simpa using hzero
    | succ k => simpa [add_assoc] using h (k + 2)
  · rintro ⟨-, h⟩ k
    match k with
    | 0 => simpa using hzero
    | 1 => simpa using ha
    | k + 2 => simpa [add_assoc] using h (k + 1)

theorem sumsWithin_singleton {a : Int} (ha : t.min ≤ a ∧ a ≤ t.max) : SumsWithin t [a] := fun k => by
  cases k with
  | zero => simpa using min_le_zero t
  | succ k => simpa using ha

theorem add_eq (ht : t ≠ .bool) (a v : Int) : (DBDataTypeHandler.int t).add conv (.int a) (.int v) =
    if a + v < IntType.int64.min ∨ IntType.int64.max < a + v then .error .undefined
    else (t.checkValue (a + v)).map (fun _ => .int (a + v)) := by
  cases t with
  | bool => exact absurd rfl ht
  | int16 | int32 | int64 =>
    simp only [DBDataTypeHandler.add, ExecutionResult.getInt_int, ok_bind]
    split
    · rfl
    · cases IntType.checkValue _ (a + v) <;> rfl

theorem narrow_sum (h : t ≠ .int64) {a v : Int} (ha : t.min ≤ a ∧ a ≤ t.max) (hv : t.min ≤ v ∧ v ≤ t.max) :
    IntType.int64.min ≤ a + v ∧ a + v ≤ IntType.int64.max := by
  cases t with
  | int64 => exact absurd rfl h
  | bool | int16 | int32 =>
    simp only [IntType.min, IntType.max] at ha hv ⊢
    omega

/-- One addition: exact in the range, and otherwise the range error, but undefined in the widest type. -/
theorem add_int {a v : Int} (ht : t ≠ .bool) (ha : t.min ≤ a ∧ a ≤ t.max) (hv : t.min ≤ v ∧ v ≤ t.max) :
    (DBDataTypeHandler.int t).add conv (.int a) (.int v) =
      if t.min ≤ a + v ∧ a + v ≤ t.max then .ok (.int (a + v))
      else if t = .int64 then .error .undefined
      else throwParse ("integer " ++ ToString.toString (a + v) ++ " exceed data type range") := by
  rw [add_eq ht]
  by_cases hin : t.min ≤ a + v ∧ a + v ≤ t.max
  · have hwide : IntType.int64.min ≤ a + v ∧ a + v ≤ IntType.int64.max :=
      ⟨(within_int64 t).1.trans hin.1, hin.2.trans (within_int64 t).2⟩
    rw [if_pos hin, if_neg (by omega), IntType.checkValue, if_neg (by omega)]
    rfl
  · rw [if_neg hin]
    by_cases h64 : t = .int64
    · subst h64
      rw [if_pos (by omega), if_pos rfl]
    · have hwide := narrow_sum h64 ha hv
      rw [if_neg (by omega), if_neg h64, IntType.checkValue, if_pos (by omega)]
      rfl

theorem foldlM_add {type : DBDataType} {func : AggrFunc} (hsum : func.func = .sum ∨ func.func = .avg)
    (hindex : columnType func.index = .ok type) (htype : getHandler type = .int t) (ht : t ≠ .bool) {g : List Row}
    {vs : List Int} (hg : List.Forall₂ (fun r v => r func.index type = .ok (.int v) ∧ t.min ≤ v ∧ v ≤ t.max) g vs)
    {a : Int} (ha : t.min ≤ a ∧ a ≤ t.max) (n : Nat) :
    (SumsWithin t (a :: vs) → g.foldlM (fun acc r => update conv columnType r acc) ⟨func, n, .int a⟩ =
        .ok ⟨func, n + vs.length, .int (a + vs.sum)⟩) ∧
      (¬ SumsWithin t (a :: vs) → ∃ f, g.foldlM (fun acc r => update conv columnType r acc) ⟨func, n, .int a⟩ = .error f ∧
        if t = .int64 then f = .undefined else OutOfRange f) := by
  induction hg generalizing a n with
  | nil => exact ⟨fun _ => by simp, fun h => absurd (sumsWithin_singleton ha) h⟩
  | @cons r v g vs hr _ ih =>
    obtain ⟨hread, hv⟩ := hr
    have hstep : update conv columnType r ⟨func, n, .int a⟩ =
        ((DBDataTypeHandler.int t).add conv (.int a) (.int v)).map (fun w => ⟨func, n + 1, w⟩) := by
      have hadd : ExecutionResult.add conv (.int a) (.int v) type = (DBDataTypeHandler.int t).add conv (.int a) (.int v) := by
        rw [ExecutionResult.add, htype]
      rw [← hadd]
      obtain h | h := hsum <;> simp only [update, h, hindex, hread, ok_bind] <;> cases ExecutionResult.add conv _ _ type <;> rfl
    rw [List.foldlM_cons, hstep, add_int ht ha hv, sumsWithin_cons ha]
    by_cases hin : t.min ≤ a + v ∧ a + v ≤ t.max
    · rw [if_pos hin]
      obtain ⟨h1, h2⟩ := ih hin (n + 1)
      refine ⟨fun h => ?_, fun h => h2 fun hw => h ⟨hin, hw⟩⟩
      refine (h1 h.2).trans ?_
      simp [add_assoc, Nat.add_comm 1]
    · rw [if_neg hin]
      refine ⟨fun h => absurd h.1 hin, fun _ => ?_⟩
      by_cases h64 : t = .int64
      · simp only [if_pos h64]
        exact ⟨_, rfl, rfl⟩
      · simp only [if_neg h64]
        exact ⟨_, rfl, _, rfl⟩

/-- `SUM` and `AVG` over a group of an integer column. -/
theorem aggregate_integers {func : AggrFunc} (hsum : func.func = .sum ∨ func.func = .avg) {g : List Row} {vs : List Int}
    (hg : IntegerColumn columnType func.index t g vs) (hne : g ≠ []) :
    (SumsWithin t vs → aggregate conv columnType func g = .ok ⟨func, vs.length, .int vs.sum⟩) ∧
      (¬ SumsWithin t vs → ∃ f, aggregate conv columnType func g = .error f ∧
        if t = .int64 then f = .undefined else OutOfRange f) := by
  obtain ⟨type, hindex, htype, ht, hreads⟩ := hg
  cases hreads with
  | nil => exact absurd rfl hne
  | @cons r v g vs hr hreads =>
    have hstart : start columnType r func = .ok ⟨func, 1, .int v⟩ := by rw [start, read, hindex, ok_bind, hr.1]; rfl
    rw [aggregate, hstart, ok_bind]
    obtain ⟨h1, h2⟩ := @foldlM_add conv columnType t type func hsum hindex htype ht g vs hreads v hr.2 1
    exact ⟨fun h => by rw [h1 h, Nat.add_comm]; rfl, h2⟩

theorem sumHolds_iff {func : AggrFunc} (hsum : func.func = .sum) {g : List Row} {vs : List Int}
    (hg : IntegerColumn columnType func.index t g vs) (hne : g ≠ []) (type : DBDataType) :
    SumHolds (value conv columnType func g type) vs ↔ (t = .int64 → SumsWithin .int64 vs) := by
  obtain ⟨h1, h2⟩ := @aggregate_integers conv columnType t func (.inl hsum) g vs hg hne
  by_cases hw : SumsWithin t vs
  · refine iff_of_true (.inl ?_) fun h => h ▸ hw
    rw [value_eq (h1 hw)]
    simp [groupRow, hsum]
  · obtain ⟨f, hf, hkind⟩ := h2 hw
    have hvalue : value conv columnType func g type = .error f := by rw [value, hf, error_bind]
    rw [SumHolds, hvalue]
    by_cases h64 : t = .int64
    · rw [if_pos h64] at hkind
      refine iff_of_false (fun h => ?_) fun h => hw (h64 ▸ h h64)
      obtain h | ⟨e, he, v, hv⟩ := h
      · cases h
      · cases he
        rw [hkind] at hv
        cases hv
    · rw [if_neg h64] at hkind
      exact iff_of_true (.inr ⟨f, rfl, hkind⟩) fun h => absurd h h64

theorem avgHolds_iff {func : AggrFunc} (havg : func.func = .avg) {g : List Row} {vs : List Int}
    (hg : IntegerColumn columnType func.index t g vs) (hne : g ≠ []) :
    AvgHolds (value conv columnType func g .double) vs ↔ SumsWithin t vs := by
  obtain ⟨h1, h2⟩ := @aggregate_integers conv columnType t func (.inr havg) g vs hg hne
  by_cases hw : SumsWithin t vs
  · refine iff_of_true ?_ hw
    have hlen : vs.length ≠ 0 := by
      obtain ⟨type, -, -, -, hreads⟩ := hg
      rw [← hreads.length_eq]
      exact fun h => hne (List.length_eq_zero_iff.mp h)
    rw [AvgHolds, value_eq (h1 hw)]
    simp [groupRow, havg, ExecutionResult.div, hlen, getHandler, DBDataTypeHandler.div]
  · refine iff_of_false (fun h => ?_) hw
    obtain ⟨f, hf, -⟩ := h2 hw
    rw [AvgHolds, value, hf, error_bind] at h
    cases h

/-- Whenever the rows of the child can be cut into groups, the plan delivers the row of each group in
order, up to the first group at which a function fails. In a group the sum of an integer column is
exact, or the range error, exactly when no partial sum leaves the range of the widest type, and the
average exactly when none leaves the range of the column. -/
theorem run_sums_iff {plan : GroupByPlan} {rows : List Row} {gs : List (List Row)}
    (h : plan.groups conv columnType rows = .ok gs) :
    Delivers conv columnType plan.proj gs (plan.run conv columnType ⟨rows, none⟩) ∧
      ∀ g ∈ gs, ∀ func ∈ plan.proj, ∀ (t : IntType) (vs : List Int), IntegerColumn columnType func.index t g vs →
        (func.func = .sum → ∀ type, SumHolds (value conv columnType func g type) vs ↔ (t = .int64 → SumsWithin .int64 vs)) ∧
          (func.func = .avg → (AvgHolds (value conv columnType func g .double) vs ↔ SumsWithin t vs)) := by
  refine ⟨run_delivers h, fun g hg func _ t vs hcol => ?_⟩
  have hne := groups_ne_nil h g hg
  exact ⟨fun hsum type => sumHolds_iff hsum hcol hne type, fun havg => avgHolds_iff havg hcol hne⟩

def integerRows (vs : List Int) : List Row := vs.map (fun v _ _ => .ok (.int v))

theorem run_sums_iff_oneTwo :
    Delivers decimalConversions (fun _ => .ok .int32) [⟨.sum, bytes "sum(a)", 0⟩, ⟨.avg, bytes "avg(a)", 0⟩]
        [integerRows [1, 2]] (run decimalConversions (fun _ => .ok .int32)
          ⟨[⟨.sum, bytes "sum(a)", 0⟩, ⟨.avg, bytes "avg(a)", 0⟩], []⟩ ⟨integerRows [1, 2], none⟩) ∧
      ∀ g ∈ [integerRows [1, 2]], ∀ func ∈ [⟨.sum, bytes "sum(a)", 0⟩, ⟨.avg, bytes "avg(a)", 0⟩],
        ∀ (t : IntType) (vs : List Int), IntegerColumn (fun _ => .ok .int32) func.index t g vs →
          (func.func = .sum → ∀ type, SumHolds (value decimalConversions (fun _ => .ok .int32) func g type) vs ↔
              (t = .int64 → SumsWithin .int64 vs)) ∧
            (func.func = .avg → (AvgHolds (value decimalConversions (fun _ => .ok .int32) func g .double) vs ↔
              SumsWithin t vs)) :=
  @run_sums_iff _ _ ⟨[⟨.sum, bytes "sum(a)", 0⟩, ⟨.avg, bytes "avg(a)", 0⟩], []⟩ (integerRows [1, 2]) _ rfl

/-- The sum of two 64-bit integers leaves the range of the addition, and the average of two 16-bit
integers is not reached, because their sum is checked. -/
theorem sums_fail :
    (run decimalConversions (fun _ => .ok .int64) ⟨[⟨.sum, bytes "sum(a)", 0⟩], []⟩
        ⟨integerRows [2 ^ 63 - 1, 1], none⟩).fault = some .undefined ∧
      ¬ SumHolds (value decimalConversions (fun _ => .ok .int64) ⟨.sum, bytes "sum(a)", 0⟩
        (integerRows [2 ^ 63 - 1, 1]) .int64) [2 ^ 63 - 1, 1] ∧
      (run decimalConversions (fun _ => .ok .int16) ⟨[⟨.avg, bytes "avg(a)", 0⟩], []⟩
        ⟨integerRows [20000, 20000], none⟩).fault =
          some (.thrown (parseError "integer 40000 exceed data type range")) ∧
      ¬ AvgHolds (value decimalConversions (fun _ => .ok .int16) ⟨.avg, bytes "avg(a)", 0⟩
        (integerRows [20000, 20000]) .double) [20000, 20000] := by
  refine ⟨rfl, ?_, by decide +kernel, ?_⟩
  · rintro (h | ⟨f, hf, v, hv⟩)
    · cases h
    · cases hf
      cases hv
  · intro h
    cases h

end Sums

end LevelPgServer.GroupByPlan
