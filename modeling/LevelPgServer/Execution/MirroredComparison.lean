import LevelPgServer.Execution.RangeTest

namespace LevelPgServer

open ParseNode DBDataTypeHandler KeyOrder KeySearchRange ExceptRules ThreeWay

def ExecutionResult.isNaN : ExecutionResult → Bool
  | .double d => d.isNaN
  | _ => false

namespace FilterPlan

/-- Columns are compared with columns of the same family; a BOOL is a number. -/
inductive Family
  | numeric | text | time
  deriving DecidableEq, Repr

def family : DBDataType → Family
  | .bool | .int16 | .int32 | .int64 | .float | .double => .numeric
  | .string | .bytes => .text
  | .date | .datetime => .time

def holds : DBDataTypeHandler → ExecutionResult → Bool
  | .int _, .int _ | .float _, .double _ | .string, .string _ | .string, .maxString => true
  | _, _ => false

def isDouble (type : DBDataType) : Bool :=
  match getHandler type with
  | .float _ => true
  | _ => false

def SameOutcome (a b : Fallible Bool) : Prop := a.toOption = b.toOption

/-- The columns are both of floating point numbers or both of something else, and when they are
compared for more than equality, both values are numbers. -/
def Mirrors (type1 type2 : DBDataType) (op : Operation) (x y : ExecutionResult) : Prop :=
  isDouble type1 = isDouble type2 ∧ (op = .compEq ∨ x.isNaN = false ∧ y.isNaN = false)

variable (conv : Conversions) {type1 type2 : DBDataType} {op rop : Operation} {x y : ExecutionResult}

theorem compareDouble_swap {a b : Double} (ha : a.isNaN = false) (hb : b.isNaN = false) :
    compareDouble b a = (compareDouble a b).swap := by
  rw [compareDouble_eq ha hb, compareDouble_eq hb ha, order_swap]

theorem compareDouble_nan {a b : Double} (h : a.isNaN = true ∨ b.isNaN = true) : compareDouble a b = .gt := by
  obtain h | h := h
  · simp [compareDouble, Double.eq, Double.lt, h]
  · simp [compareDouble, Double.eq, Double.lt, h]

theorem compare_swap (hf : family type1 = family type2) (hd : isDouble type1 = isDouble type2)
    (hx : holds (getHandler type1) x = true) (hy : holds (getHandler type2) y = true) (hxn : x.isNaN = false)
    (hyn : y.isNaN = false) :
    ∃ n, (getHandler type1).compare conv x y = .ok n ∧ (getHandler type2).compare conv y x = .ok n.swap := by
  cases h1 : getHandler type1 with
  | int t =>
    cases h2 : getHandler type2 with
    | int u =>
      rw [h1] at hx
      rw [h2] at hy
      cases x <;> cases y <;> simp [holds] at hx hy
      rename_i a b
      exact ⟨compareInt a b, rfl, by simp [DBDataTypeHandler.compare, compareInt_eq, ← order_swap]⟩
    | float u => simp [isDouble, h1, h2] at hd
    | string => cases type1 <;> cases type2 <;> simp [getHandler, family] at h1 h2 hf
  | float t =>
    cases h2 : getHandler type2 with
    | int u => simp [isDouble, h1, h2] at hd
    | float u =>
      rw [h1] at hx
      rw [h2] at hy
      cases x <;> cases y <;> simp [holds] at hx hy
      rename_i a b
      exact ⟨compareDouble a b, rfl, by simp [DBDataTypeHandler.compare, compareDouble_swap hxn hyn]⟩
    | string => simp [isDouble, h1, h2] at hd
  | string =>
    cases h2 : getHandler type2 with
    | int u => cases type1 <;> cases type2 <;> simp [getHandler, family] at h1 h2 hf
    | float u => simp [isDouble, h1, h2] at hd
    | string =>
      rw [h1] at hx
      rw [h2] at hy
      cases x <;> cases y <;> simp [holds] at hx hy
      · rename_i s t
        exact ⟨compareBytes s t, rfl, by simp [DBDataTypeHandler.compare, compareBytes_eq, ← order_swap]⟩
      · exact ⟨.lt, rfl, rfl⟩
      · exact ⟨.gt, rfl, rfl⟩
      · exact ⟨.eq, rfl, rfl⟩

/-- With a NaN on either side the handlers answer the same both ways round. -/
theorem compare_nan (hd : isDouble type1 = isDouble type2) (hx : holds (getHandler type1) x = true)
    (hy : holds (getHandler type2) y = true) (hn : x.isNaN = true ∨ y.isNaN = true) :
    (getHandler type1).compare conv x y = .ok .gt ∧ (getHandler type2).compare conv y x = .ok .gt := by
  cases h1 : getHandler type1 with
  | float t =>
    cases h2 : getHandler type2 with
    | float u =>
      rw [h1] at hx
      rw [h2] at hy
      cases x <;> cases y <;> simp [holds] at hx hy
      rename_i a b
      exact ⟨by simp [DBDataTypeHandler.compare, compareDouble_nan hn],
        by simp [DBDataTypeHandler.compare, compareDouble_nan hn.symm]⟩
    | int u => simp [isDouble, h1, h2] at hd
    | string => simp [isDouble, h1, h2] at hd
  | int t =>
    cases h2 : getHandler type2 with
    | float u => simp [isDouble, h1, h2] at hd
    | int u | string =>
      rw [h1] at hx
      rw [h2] at hy
      cases x <;> cases y <;> simp [holds, ExecutionResult.isNaN] at hx hy hn
  | string =>
    cases h2 : getHandler type2 with
    | float u => simp [isDouble, h1, h2] at hd
    | int u | string =>
      rw [h1] at hx
      rw [h2] at hy
      cases x <;> cases y <;> simp [holds, ExecutionResult.isNaN] at hx hy hn

theorem compare_mixed (hf : family type1 = family type2) (h1 : isDouble type1 = false) (h2 : isDouble type2 = true)
    (hx : holds (getHandler type1) x = true) (hy : holds (getHandler type2) y = true) :
    ((getHandler type1).compare conv x y).toOption = none ∧ ∃ n, (getHandler type2).compare conv y x = .ok n := by
  obtain ⟨t, ht⟩ : ∃ t, getHandler type1 = .int t := by
    cases type1 <;> cases type2 <;> simp [isDouble, getHandler, family] at h1 h2 hf ⊢
  obtain ⟨u, hu⟩ : ∃ u, getHandler type2 = .float u := by
    cases type2 <;> simp [isDouble, getHandler] at h2 ⊢
  rw [ht] at hx ⊢
  rw [hu] at hy ⊢
  cases x <;> cases y <;> simp [holds] at hx hy
  exact ⟨rfl, _, rfl⟩

variable {conv}

theorem test_of_compare (hop : op ≠ .compLike) (sExpr : Bytes) {n : Ordering} {b : Bool}
    (hn : (getHandler type1).compare conv x y = .ok n) (hb : accepts op n = some b) :
    test conv type1 op sExpr x y = .ok b := by
  rw [test, if_neg hop, hn, ok_bind, hb]
  rfl

theorem reverse_ne_like (h : reverseOp op = some rop) : rop ≠ .compLike := by
  rintro rfl
  cases op <;> simp [reverseOp] at h

/-- A comparison that answers "above" both ways round is its mirror image for equality only. -/
theorem accepts_gt_gt (h : reverseOp op = some rop) : accepts op .gt = accepts rop .gt ↔ op = .compEq := by
  cases op <;> simp [reverseOp] at h <;> subst h <;> simp [accepts]

theorem test_mirrored_iff (hf : family type1 = family type2) (hx : holds (getHandler type1) x = true)
    (hy : holds (getHandler type2) y = true) (hr : reverseOp op = some rop) (sExpr sExpr' : Bytes) :
    SameOutcome (test conv type1 op sExpr x y) (test conv type2 rop sExpr' y x) ↔ Mirrors type1 type2 op x y := by
  have hl := reversible_ne_like hr
  have hl' := reverse_ne_like hr
  by_cases hd : isDouble type1 = isDouble type2
  · by_cases hn : x.isNaN = false ∧ y.isNaN = false
    · refine iff_of_true ?_ ⟨hd, .inr hn⟩
      obtain ⟨n, h1, h2⟩ := compare_swap conv hf hd hx hy hn.1 hn.2
      obtain ⟨b, hb, hb'⟩ := accepts_reverse hr n
      rw [SameOutcome, test_of_compare hl sExpr h1 hb, test_of_compare hl' sExpr' h2 hb']
    · have hnan : x.isNaN = true ∨ y.isNaN = true := by
        cases h : x.isNaN <;> cases h' : y.isNaN <;> simp_all
      obtain ⟨h1, h2⟩ := compare_nan conv hd hx hy hnan
      obtain ⟨b, hb, -⟩ := accepts_reverse hr .gt
      obtain ⟨b', -, hb'⟩ := accepts_reverse hr .lt
      rw [SameOutcome, test_of_compare hl sExpr h1 hb, test_of_compare hl' sExpr' h2 hb', Mirrors, or_iff_left hn,
        and_iff_right hd, ← accepts_gt_gt hr, hb, show accepts rop .gt = some b' from hb']
      exact Iff.rfl
  · refine iff_of_false (fun h => ?_) (fun h => hd h.1)
    cases h1 : isDouble type1 with
    | false =>
      have h2 : isDouble type2 = true := by simpa [h1] using hd
      obtain ⟨he, n, hn⟩ := compare_mixed conv hf h1 h2 hx hy
      obtain ⟨b, -, hb⟩ := accepts_reverse hr n.swap
      rw [Ordering.swap_swap] at hb
      rw [SameOutcome, test_of_compare hl' sExpr' hn hb, test, if_neg hl] at h
      cases hc : (getHandler type1).compare conv x y with
      | error e => simp [hc, Except.toOption] at h
      | ok n => simp [hc, Except.toOption] at he
    | true =>
      have h2 : isDouble type2 = false := by simpa [h1] using hd
      obtain ⟨he, n, hn⟩ := compare_mixed conv hf.symm h2 h1 hy hx
      obtain ⟨b, hb, -⟩ := accepts_reverse hr n
      rw [SameOutcome, test_of_compare hl sExpr hn hb, test, if_neg hl'] at h
      cases hc : (getHandler type2).compare conv y x with
      | error e => simp [hc, Except.toOption] at h
      | ok n => simp [hc, Except.toOption] at he

section Evaluate

variable {σ ρ : Type} {ops : PlanOps σ ρ} {plan : σ} {row : ρ} {i j : Nat}

theorem evaluate_columns (hi : ops.getResultType plan i = .ok type1) (hj : ops.getResultType plan j = .ok type2)
    (hx : ops.getResult plan row i type1 = .ok x) (hy : ops.getResult plan row j type2 = .ok y) (sExpr : Bytes)
    (op : Operation) :
    evaluate conv ops plan row { sExpr, op, leftIndex := some i, rightIndex := some j } =
      test conv type1 op sExpr x y := by
  simp [evaluate, operand, hi, hj, hx, hy]

/-- A comparison of two columns and its mirror image decide a row alike. -/
theorem evaluate_mirrored_iff (hi : ops.getResultType plan i = .ok type1)
    (hj : ops.getResultType plan j = .ok type2) (hx : ops.getResult plan row i type1 = .ok x)
    (hy : ops.getResult plan row j type2 = .ok y) (hvx : holds (getHandler type1) x = true)
    (hvy : holds (getHandler type2) y = true) (hf : family type1 = family type2) (hr : reverseOp op = some rop)
    (sExpr sExpr' : Bytes) :
    SameOutcome (evaluate conv ops plan row { sExpr, op, leftIndex := some i, rightIndex := some j })
        (evaluate conv ops plan row { sExpr := sExpr', op := rop, leftIndex := some j, rightIndex := some i }) ↔
      Mirrors type1 type2 op x y := by
  rw [evaluate_columns hi hj hx hy, evaluate_columns hj hi hy hx]
  exact test_mirrored_iff hf hvx hvy hr sExpr sExpr'

def twoColumns (type1 type2 : DBDataType) : PlanOps Unit (ExecutionResult × ExecutionResult) where
  addProjection _ _ := .ok (none, ())
  getResultType _ i := .ok (if i = 0 then type1 else type2)
  getResult _ row i _ := .ok (if i = 0 then row.1 else row.2)

theorem evaluate_mirrored_iff_ints :
    SameOutcome
        (evaluate decimalConversions (twoColumns .int16 .int64) () (.int 1, .int 2)
          ⟨[], .compLt, some 0, some 1, .null, .null⟩)
        (evaluate decimalConversions (twoColumns .int16 .int64) () (.int 1, .int 2)
          ⟨[], .compGt, some 1, some 0, .null, .null⟩) ↔
      Mirrors .int16 .int64 .compLt (.int 1) (.int 2) :=
  @evaluate_mirrored_iff decimalConversions .int16 .int64 .compLt .compGt (.int 1) (.int 2) Unit _
    (twoColumns .int16 .int64) () (.int 1, .int 2) 0 1 rfl rfl rfl rfl rfl rfl rfl rfl [] []

/-- A whole number is not compared with a floating point number, but the latter is with the former. -/
theorem int_double_not_mirrored :
    family .int32 = family .double ∧ reverseOp .compEq = some .compEq ∧
      (evaluate decimalConversions (twoColumns .int32 .double) () (.int 1, .double (Double.ofInt 1))
        ⟨[], .compEq, some 0, some 1, .null, .null⟩).toOption = none ∧
      evaluate decimalConversions (twoColumns .int32 .double) () (.int 1, .double (Double.ofInt 1))
        ⟨[], .compEq, some 1, some 0, .null, .null⟩ = .ok true :=
  ⟨rfl, rfl, rfl, by decide⟩

end Evaluate

end FilterPlan

end LevelPgServer
