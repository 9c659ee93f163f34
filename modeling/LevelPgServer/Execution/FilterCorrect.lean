import LevelPgServer.Execution.RangeTest

namespace LevelPgServer

open ParseNode DBDataTypeHandler ExceptRules

namespace TableInfo

def resultIndex (t : TableInfo) (c : DBColumnInfo) : Nat :=
  match c.keyIndex, c.valueIndex with
  | some k, _ => k
  | none, some v => t.getKeyCount + v
  | none, none => t.getColumnCount

end TableInfo

namespace LevelDBScanPlan

variable {conv : Conversions} {t : TableInfo} {plan : LevelDBScanPlan}

/-- The column can be read from the plan: it is a key column, or it has been projected. -/
def Covers (plan : LevelDBScanPlan) (c : DBColumnInfo) : Prop :=
  ∀ v, c.keyIndex = none → c.valueIndex = some v → plan.columnValues[v]? = some true

/-- A later state of a plan: more columns may have been projected. -/
structure Extends (t : TableInfo) (plan plan' : LevelDBScanPlan) : Prop where
  scans : plan'.Scans t
  range : plan'.searchRange = plan.searchRange
  covers : ∀ c, plan.Covers c → plan'.Covers c

theorem Extends.refl (h : plan.Scans t) : Extends t plan plan := ⟨h, rfl, fun _ hc => hc⟩

theorem Extends.trans {plan' plan'' : LevelDBScanPlan} (h : Extends t plan plan') (h' : Extends t plan' plan'') :
    Extends t plan plan'' :=
  ⟨h'.scans, h'.range.trans h.range, fun c hc => h'.covers c (h.covers c hc)⟩

theorem create_scans (hv : t.Valid) : (create t).Scans t where
  table := rfl
  keyTypes := create_keyTypes hv
  valueTypes := create_valueTypes hv
  columnValues := by
    have := hv.count
    simp only [create, List.length_replicate, TableInfo.getColumnCount, TableInfo.getKeyCount]
    omega

/-- Every column has its place among the key columns or among the value columns. -/
theorem names_index (hv : t.Valid) {p : ParseNode} {c : DBColumnInfo} (hn : t.Names p c) :
    (∃ k, c.keyIndex = some k ∧ k < t.getKeyCount ∧ t.getKeyColumn k = some c) ∨
      ∃ v, c.keyIndex = none ∧ c.valueIndex = some v ∧ v < t.values.length ∧ t.getValueColumn v = some c := by
  obtain ⟨i, hi⟩ := TableInfo.getColumnByName_mem hn.column
  cases hk : c.keyIndex with
  | some k => exact .inl ⟨k, rfl, hv.keyIndex_lt hi hk, hv.getKeyColumn hi hk⟩
  | none =>
    obtain ⟨v, hval⟩ := Option.ne_none_iff_exists'.mp ((hv.isValue i c hi).mp hk)
    exact .inr ⟨v, rfl, hval, hv.valueIndex_lt hi hval, hv.getValueColumn hi hval⟩

theorem addProjection_names (hv : t.Valid) (hp : plan.Scans t) {p : ParseNode} {c : DBColumnInfo} (hn : t.Names p c) :
    ∃ plan', plan.addProjection p = .ok (some (t.resultIndex c), plan') ∧ Extends t plan plan' ∧ plan'.Covers c := by
  rw [addProjection, if_neg (by simp [hn.notRowKey]), if_pos hn.name, hp.table, hn.column]
  rcases names_index hv hn with ⟨k, hk, -, -⟩ | ⟨v, hk, hval, hlt, -⟩
  · refine ⟨plan, by simp [hk, TableInfo.resultIndex], .refl hp, fun v h => ?_⟩
    rw [hk] at h
    cases h
  · refine ⟨{ plan with projectValue := true, columnValues := plan.columnValues.set v true },
      by simp [hk, hval, hp.table, TableInfo.resultIndex], ⟨?_, rfl, fun c hc w h1 h2 => ?_⟩, fun w _ h2 => ?_⟩
    · exact ⟨hp.table, hp.keyTypes, hp.valueTypes, by simp [hp.columnValues]⟩
    · have := hc w h1 h2
      simp only [List.getElem?_set]
      split
      · rw [if_pos (List.getElem?_eq_some_iff.mp (by rwa [show v = w by assumption])).1]
      · exact this
    · rw [hval] at h2
      cases h2
      simp [hp.columnValues, hlt]

theorem addProjection_const {p : ParseNode} (h : p.isConst = true) : plan.addProjection p = .ok (none, plan) := by
  have hn : p.type ≠ .name := by
    intro hn
    rw [Comparison.not_const_of_name hn] at h
    cases h
  rw [addProjection, if_neg (by simp [Tools.isRowKeyNode, hn]), if_neg hn]

theorem getResultType_index (hv : t.Valid) (hp : plan.Scans t) {p : ParseNode} {c : DBColumnInfo}
    (hn : t.Names p c) : plan.getResultType (t.resultIndex c) = some c.type := by
  have hcount : t.getKeyCount + t.values.length = t.getColumnCount := hv.count
  rw [getResultType, hp.table]
  rcases names_index hv hn with ⟨k, hk, hlt, hcol⟩ | ⟨v, hk, hval, hlt, hcol⟩
  · rw [show t.resultIndex c = k by simp [TableInfo.resultIndex, hk], if_neg (by omega), if_pos hlt, hcol]
    rfl
  · rw [show t.resultIndex c = t.getKeyCount + v by simp [TableInfo.resultIndex, hk, hval],
      if_neg (by omega), if_neg (by omega), Nat.add_sub_cancel_left, hcol]
    rfl

theorem getResult_index (hv : t.Valid) (hp : plan.Scans t) {p : ParseNode} {c : DBColumnInfo} (hn : t.Names p c)
    (hc : plan.Covers c) (e : Entry) : plan.getResult e (t.resultIndex c) = t.columnOf e c := by
  rw [getResult, hp.table]
  dsimp only
  rcases names_index hv hn with ⟨k, hk, hlt, -⟩ | ⟨v, hk, hval, hlt, -⟩
  · rw [show t.resultIndex c = k by simp [TableInfo.resultIndex, hk], if_pos hlt, hp.keyTypes, TableInfo.columnOf, hk]
  · rw [show t.resultIndex c = t.getKeyCount + v by simp [TableInfo.resultIndex, hk, hval],
      if_neg (by omega), Nat.add_sub_cancel_left, if_pos (by rw [hp.columnValues]; exact hlt),
      if_pos (by simp [hc v hk hval]), hp.valueTypes, TableInfo.columnOf, hk, hval]

end LevelDBScanPlan

namespace FilterPlan

variable {conv : Conversions} {t : TableInfo} {plan : LevelDBScanPlan}

open LevelDBScanPlan (Extends)

/-- In every later state of the plan the filter decides an entry as the comparison does. -/
def Evaluates (conv : Conversions) (t : TableInfo) (plan : LevelDBScanPlan) (cmp : Comparison)
    (info : PredicateInfo) : Prop :=
  ∀ plan', Extends t plan plan' → ∀ e, evaluate conv LevelDBScanPlan.ops plan' e info = cmp.test conv t e

theorem Evaluates.extends {plan' : LevelDBScanPlan} {cmp : Comparison} {info : PredicateInfo}
    (h : Evaluates conv t plan cmp info) (hx : Extends t plan plan') : Evaluates conv t plan' cmp info :=
  fun plan'' h' => h plan'' (hx.trans h')

theorem addComparison_eq (hv : t.Valid) (hp : plan.Scans t) {cmp : Comparison} {c : DBColumnInfo} {value : ParseNode}
    (ha : cmp.Against t c value) (sv : Bytes) :
    ∃ (plan' : LevelDBScanPlan) (info : ExecutionResult → PredicateInfo), Extends t plan plan' ∧
      addComparison conv LevelDBScanPlan.ops (.node .op cmp.op cmp.sExpr sv [cmp.left, cmp.right]) plan =
          (fromNode conv c.type value).map (fun v => (info v, plan')) ∧
        ∀ v, fromNode conv c.type value = .ok v → Evaluates conv t plan' cmp (info v) := by
  cases ha with
  | left hn hc =>
    obtain ⟨plan', hadd, hx, hcov⟩ := LevelDBScanPlan.addProjection_names hv hp hn
    refine ⟨plan', fun v => ⟨cmp.sExpr, cmp.op, some (t.resultIndex c), none, .null, v⟩, hx, ?_, fun v hval plan'' hx' e => ?_⟩
    · have htype := LevelDBScanPlan.getResultType_index hv hx.scans hn
      simp only [addComparison, getChild, children_node, List.getD_cons_zero, List.getD_cons_succ, LevelDBScanPlan.ops,
        hadd, ok_bind, LevelDBScanPlan.addProjection_const hc, constOperand, hc, if_true,
        LevelDBScanPlan.columnType, htype]
      cases fromNode conv c.type cmp.right <;> rfl
    · rw [Comparison.test_left hn hc, hval, ok_bind]
      simp only [evaluate, operand, ok_bind, LevelDBScanPlan.ops, LevelDBScanPlan.columnType,
        LevelDBScanPlan.getResult_index hv hx'.scans hn (hx'.covers c hcov),
        LevelDBScanPlan.getResultType_index hv hx'.scans hn]
      cases t.columnOf e c <;> rfl
  | right hn hc =>
    obtain ⟨plan', hadd, hx, hcov⟩ := LevelDBScanPlan.addProjection_names hv hp hn
    refine ⟨plan', fun v => ⟨cmp.sExpr, cmp.op, none, some (t.resultIndex c), v, .null⟩, hx, ?_, fun v hval plan'' hx' e => ?_⟩
    · have htype := LevelDBScanPlan.getResultType_index hv hx.scans hn
      simp only [addComparison, getChild, children_node, List.getD_cons_zero, List.getD_cons_succ, LevelDBScanPlan.ops,
        hadd, ok_bind, LevelDBScanPlan.addProjection_const hc, constOperand, hc, if_true,
        LevelDBScanPlan.columnType, htype]
      cases fromNode conv c.type cmp.left <;> rfl
    · rw [Comparison.test_right hn hc]
      simp only [evaluate, operand, ok_bind, LevelDBScanPlan.ops, LevelDBScanPlan.columnType,
        LevelDBScanPlan.getResult_index hv hx'.scans hn (hx'.covers c hcov),
        LevelDBScanPlan.getResultType_index hv hx'.scans hn, hval]
      cases t.columnOf e c <;> rfl

/-- The comparisons that a filter with the given solved texts holds. -/
def kept (ignore : List Bytes) (cs : List Comparison) : List Comparison := cs.filter (fun cmp => cmp.sExpr ∉ ignore)

structure Added (conv : Conversions) (t : TableInfo) (ignore : List Bytes) (cs : List Comparison)
    (s s' : List PredicateInfo × LevelDBScanPlan) : Prop where
  extends_ : Extends t s.2 s'.2
  infos : ∃ infos, s'.1 = s.1 ++ infos ∧ List.Forall₂ (Evaluates conv t s'.2) (kept ignore cs) infos

/-- Adding a conjunction succeeds exactly when the constants of its comparisons can be read. -/
theorem doAddPredicate_spec (hv : t.Valid) (ignore : List Bytes) {p : ParseNode} {cs : List Comparison}
    (h : IsConjunction t p cs) (s : List PredicateInfo × LevelDBScanPlan) (hp : s.2.Scans t) :
    ((∀ cmp ∈ kept ignore cs, cmp.Converts conv t) →
        ∃ s', doAddPredicate conv LevelDBScanPlan.ops ignore p s = .ok s' ∧ Added conv t ignore cs s s') ∧
      ((∃ cmp ∈ kept ignore cs, ¬ cmp.Converts conv t) →
        ∃ f, doAddPredicate conv LevelDBScanPlan.ops ignore p s = .error f) := by
  induction h generalizing s with
  | @comparison sv c value cmp hop ha =>
    have hne : cmp.op ≠ .and := by rintro h; simp [h, Predicate.isComparison] at hop
    simp only [doAddPredicate, ne_eq, not_true_eq_false, if_false, if_neg hne, List.length_cons, List.length_nil]
    by_cases hi : cmp.sExpr ∈ ignore
    · rw [if_pos hi]
      have hk : kept ignore [cmp] = [] := by simp [kept, hi]
      rw [hk]
      exact ⟨fun _ => ⟨s, rfl, .refl hp, [], by simp, by rw [hk]; exact .nil⟩, fun h => by simp at h⟩
    · rw [if_neg hi]
      have hk : kept ignore [cmp] = [cmp] := by simp [kept, hi]
      rw [hk]
      obtain ⟨plan', info, hx, hadd, heval⟩ := addComparison_eq hv hp ha sv
      rw [hadd]
      constructor
      · intro hc
        obtain ⟨v, hval⟩ := hc cmp (by simp) c value ha
        rw [hval]
        exact ⟨_, rfl, hx, [info v], rfl, by rw [hk]; exact .cons (heval v hval) .nil⟩
      · rintro ⟨cmp', hm, hn⟩
        obtain rfl : cmp' = cmp := by simpa using hm
        cases hval : fromNode conv c.type value with
        | error f => exact ⟨f, rfl⟩
        | ok v =>
          refine absurd (fun d w hd => ?_) hn
          obtain ⟨rfl, rfl⟩ := ha.unique hd
          exact ⟨v, hval⟩
  | @and sx sv p q as bs _ _ ihp ihq =>
    have hk : kept ignore (as ++ bs) = kept ignore as ++ kept ignore bs := by simp [kept]
    simp only [doAddPredicate, ne_eq, not_true_eq_false, if_false, if_true, doAddPredicates, hk, List.mem_append]
    constructor
    · intro hc
      obtain ⟨s1, h1, hx1, infos1, he1, hf1⟩ := (ihp s hp).1 fun cmp hm => hc cmp (.inl hm)
      obtain ⟨s2, h2, hx2, infos2, he2, hf2⟩ := (ihq s1 hx1.scans).1 fun cmp hm => hc cmp (.inr hm)
      refine ⟨s2, by simp [h1, h2], hx1.trans hx2, infos1 ++ infos2, by rw [he2, he1, List.append_assoc], ?_⟩
      rw [hk]
      exact List.rel_append (hf1.imp fun _ _ he => he.extends hx2) hf2
    · rintro ⟨cmp, hm, hn⟩
      by_cases hall : ∀ cmp ∈ kept ignore as, cmp.Converts conv t
      · obtain ⟨s1, h1, hx1, -⟩ := (ihp s hp).1 hall
        rcases hm with hm | hm
        · exact absurd (hall cmp hm) hn
        · obtain ⟨f, hf⟩ := (ihq s1 hx1.scans).2 ⟨cmp, hm, hn⟩
          exact ⟨f, by simp [h1, hf]⟩
      · push Not at hall
        obtain ⟨f, hf⟩ := (ihp s hp).2 hall
        exact ⟨f, by simp [hf]⟩

/-- A conjunction at an entry: its comparisons from left to right up to the first that fails. -/
def testAll (conv : Conversions) (t : TableInfo) (e : Entry) : List Comparison → Fallible Bool
  | [] => .ok true
  | cmp :: cs => do
    let b ← cmp.test conv t e
    if b then testAll conv t e cs else return false

theorem evaluateAll_eq {cs : List Comparison} {infos : List PredicateInfo} (hp : plan.Scans t)
    (h : List.Forall₂ (Evaluates conv t plan) cs infos) (e : Entry) :
    evaluateAll conv LevelDBScanPlan.ops plan e infos = testAll conv t e cs := by
  induction h with
  | nil => rfl
  | cons hi _ ih => rw [evaluateAll, testAll, hi plan (.refl hp), ih]

def testAny (conv : Conversions) (t : TableInfo) (e : Entry) : List (List Comparison) → Fallible Bool
  | [] => .ok false
  | cs :: css => do
    let b ← testAll conv t e cs
    if b then return true else testAny conv t e css

theorem evaluateAny_eq {css : List (List Comparison)} {predicatesInOr : List (List PredicateInfo)} (hp : plan.Scans t)
    (h : List.Forall₂ (List.Forall₂ (Evaluates conv t plan)) css predicatesInOr) (e : Entry) :
    evaluateAny conv LevelDBScanPlan.ops plan e predicatesInOr = testAny conv t e css := by
  induction h with
  | nil => rfl
  | cons hi _ ih => rw [evaluateAny, testAny, evaluateAll_eq hp hi, ih]

/-- The entries that pass a disjunction of conjunctions, up to the first at which it has no value. -/
def selectRows (conv : Conversions) (t : TableInfo) (css : List (List Comparison)) : List Entry → Run Entry
  | [] => .done
  | e :: es =>
    match testAny conv t e css with
    | .error f => .failed f
    | .ok true => .cons e (selectRows conv t css es)
    | .ok false => selectRows conv t css es

/-- A filter over a run without fault delivers what its conjunctions select. -/
theorem run_eq {css : List (List Comparison)} {predicatesInOr : List (List PredicateInfo)} (hp : plan.Scans t)
    (h : List.Forall₂ (List.Forall₂ (Evaluates conv t plan)) css predicatesInOr) (es : List Entry) :
    run conv LevelDBScanPlan.ops predicatesInOr plan ⟨es, none⟩ = selectRows conv t css es := by
  rw [run]
  induction es with
  | nil => rfl
  | cons e es ih =>
    rw [filterRows, selectRows, evaluateAny_eq hp h e]
    cases testAny conv t e css with
    | error f => rfl
    | ok b =>
      cases b with
      | true => exact congrArg (Run.cons e) ih
      | false => exact ih

theorem testAny_singleton (e : Entry) (cs : List Comparison) : testAny conv t e [cs] = testAll conv t e cs := by
  rw [testAny]
  cases testAll conv t e cs with
  | error f => rfl
  | ok b => cases b <;> rfl

theorem selectRows_nil (es : List Entry) : selectRows conv t [[]] es = ⟨es, none⟩ := by
  induction es with
  | nil => rfl
  | cons e es ih =>
    rw [selectRows, testAny_singleton, testAll, ih]
    rfl

theorem testAll_eq_true {e : Entry} {cs : List Comparison} :
    testAll conv t e cs = .ok true ↔ ∀ cmp ∈ cs, cmp.test conv t e = .ok true := by
  induction cs with
  | nil => simp [testAll]
  | cons cmp cs ih =>
    rw [testAll, List.forall_mem_cons]
    cases cmp.test conv t e with
    | error f => simp
    | ok b => cases b <;> simp [ih]

theorem testAll_kept {e : Entry} {ignore : List Bytes} {cs : List Comparison}
    (h : ∀ cmp ∈ cs, cmp.sExpr ∈ ignore → cmp.test conv t e = .ok true) :
    testAll conv t e (kept ignore cs) = testAll conv t e cs := by
  induction cs with
  | nil => rfl
  | cons cmp cs ih =>
    have hrec := ih fun c hc => h c (List.mem_cons_of_mem _ hc)
    by_cases hi : cmp.sExpr ∈ ignore
    · rw [kept, List.filter_cons_of_neg (by simpa using hi), testAll, h cmp (by simp) hi]
      exact hrec
    · rw [kept, List.filter_cons_of_pos (by simpa using hi), testAll, testAll, ← hrec]
      rfl

end FilterPlan

end LevelPgServer
