import LevelPgServer.Execution.FilterCorrect

namespace LevelPgServer

open ParseNode DBDataTypeHandler DataRow KeyOrder ExceptRules

namespace TableInfo

variable (conv : Conversions)

def signOf : Ordering → Int
  | .lt => -1
  | .eq => 0
  | .gt => 1

/-- What an entry says about the operands of a predicate: columns stand for their values
and constants for values of the type of the column they are compared with. -/
def valuation (t : TableInfo) (e : Entry) : Predicate.Valuation where
  compare l r :=
    match (t.operandColumn l).or (t.operandColumn r) with
    | none => 0
    | some c =>
      match t.operandOf conv e c.type l, t.operandOf conv e c.type r with
      | .ok a, .ok b =>
        match (getHandler c.type).compare conv a b with
        | .ok n => signOf n
        | .error _ => 0
      | _, _ => 0
  like l r :=
    match (t.operandColumn l).or (t.operandColumn r) with
    | none => false
    | some c =>
      match t.operandOf conv e c.type l, t.operandOf conv e c.type r with
      | .ok (.string s), .ok (.string p) => FilterPlan.contains s p
      | _, _ => false

end TableInfo

namespace RowMeaning

variable {conv : Conversions} {t : TableInfo}

theorem accepts_signOf {op : Operation} {n : Ordering} {b : Bool} (h : FilterPlan.accepts op n = some b) :
    Predicate.test op (TableInfo.signOf n) = b := by
  cases op <;> cases n <;> cases h <;> rfl

theorem getString_eq_ok {v : ExecutionResult} {s : Bytes} (h : v.getString conv = .ok s) : v = .string s := by
  cases v <;> cases h
  rfl

/-- A comparison that the filter decides is decided as the predicate means it. -/
theorem holds_of_test {cmp : Comparison} (hop : Predicate.isComparison cmp.op = true) {e : Entry} {b : Bool}
    (h : cmp.test conv t e = .ok b) (sv : Bytes) :
    Predicate.holds (t.valuation conv e) (.node .op cmp.op cmp.sExpr sv [cmp.left, cmp.right]) = b := by
  rw [Predicate.holds_comparison _ _ _ hop, Predicate.compareOperands]
  rw [Comparison.test, TableInfo.leafTest] at h
  simp only [TableInfo.valuation]
  cases hc : (t.operandColumn cmp.left).or (t.operandColumn cmp.right) with
  | none =>
    rw [hc] at h
    cases h
  | some c =>
    rw [hc] at h
    obtain ⟨r, hr, h⟩ := bind_eq_ok.mp h
    obtain ⟨l, hl, h⟩ := bind_eq_ok.mp h
    simp only [hl, hr]
    rw [FilterPlan.test] at h
    by_cases hlike : cmp.op = .compLike
    · rw [if_pos hlike] at h ⊢
      obtain ⟨s, hs, h⟩ := bind_eq_ok.mp h
      obtain ⟨p, hp, h⟩ := bind_eq_ok.mp h
      rw [getString_eq_ok hs, getString_eq_ok hp]
      exact Except.ok.inj h
    · rw [if_neg hlike] at h ⊢
      obtain ⟨n, hn, h⟩ := bind_eq_ok.mp h
      simp only [hn]
      cases ha : FilterPlan.accepts cmp.op n with
      | none =>
        rw [ha] at h
        cases h
      | some b' =>
        rw [ha] at h
        cases h
        exact accepts_signOf ha

/-- A conjunction that the filter decides is decided as the predicate means it. -/
theorem holds_of_testAll {p : ParseNode} {cs : List Comparison} (h : IsConjunction t p cs) {e : Entry}
    (hd : ∀ cmp ∈ cs, ∃ b, cmp.test conv t e = .ok b) :
    FilterPlan.testAll conv t e cs = .ok (Predicate.holds (t.valuation conv e) p) := by
  have happend : ∀ as bs : List Comparison, ∀ a b : Bool, FilterPlan.testAll conv t e as = .ok a →
      FilterPlan.testAll conv t e bs = .ok b → FilterPlan.testAll conv t e (as ++ bs) = .ok (a && b) := by
    intro as bs a b ha hb
    induction as with
    | nil =>
      cases ha
      simpa using hb
    | cons cmp as ih =>
      rw [List.cons_append, FilterPlan.testAll]
      obtain ⟨c, hc, ha⟩ := bind_eq_ok.mp ha
      rw [hc, ok_bind]
      cases c with
      | true => exact ih ha
      | false =>
        cases ha
        rfl
  induction h with
  | @comparison sv c value cmp hop ha =>
    obtain ⟨b, hb⟩ := hd cmp (by simp)
    rw [holds_of_test hop hb, FilterPlan.testAll, hb]
    cases b <;> rfl
  | and _ _ ihp ihq =>
    rw [Predicate.holds_and]
    exact happend _ _ _ _ (ihp fun cmp hc => hd cmp (List.mem_append_left _ hc))
      (ihq fun cmp hc => hd cmp (List.mem_append_right _ hc))

/-- The kind of value a handler reads, the greatest string apart. -/
def isKind : DBDataTypeHandler → ExecutionResult → Bool
  | .int _, .int _ | .float _, .double _ | .string, .string _ => true
  | _, _ => false

theorem isKind_of_read {h : DBDataTypeHandler} {bs : Bytes} {v : ExecutionResult} (hr : h.read bs = .ok v)
    (hm : v ≠ .maxString) : isKind h v = true := by
  cases h with
  | int t =>
    rw [DBDataTypeHandler.read] at hr
    split at hr
    · cases hr
    · cases t <;> simp only [readInt] at hr
      case bool =>
        split at hr
        · cases hr
        · cases hr
          rfl
      all_goals
        cases hr
        rfl
  | float t =>
    rw [DBDataTypeHandler.read] at hr
    split at hr
    · cases hr
    · cases t <;> cases hr <;> rfl
  | string =>
    rw [DBDataTypeHandler.read] at hr
    split at hr
    · cases hr
    · dsimp only at hr
      split at hr
      · exact absurd (Except.ok.inj hr).symm hm
      · split at hr
        · cases hr
        · cases hr
          rfl

theorem isKind_of_getResult {types : List DBDataType} {bs : Bytes} {i : Nat} {v : ExecutionResult}
    (h : getResult types bs i = .ok v) (hm : v ≠ .maxString) {type : DBDataType} (ht : types[i]? = some type) :
    isKind (getHandler type) v = true := by
  induction types generalizing bs i with
  | nil => cases h
  | cons ty types ih =>
    cases i with
    | zero =>
      obtain rfl : ty = type := Option.some.inj ht
      exact isKind_of_read h hm
    | succ i =>
      obtain ⟨n, -, h⟩ := bind_eq_ok.mp h
      exact ih h ht

theorem isKind_of_fromNode {type : DBDataType} {p : ParseNode} {v : ExecutionResult} (h : fromNode conv type p = .ok v) :
    isKind (getHandler type) v = true := by
  cases type with
  | bool =>
    obtain ⟨b, -, h⟩ := bind_eq_ok.mp h
    cases h
    rfl
  | int16 | int32 | int64 =>
    obtain ⟨n, rfl, -⟩ := fromIntNode_spec h
    rfl
  | date | datetime =>
    obtain ⟨n, rfl, -⟩ := fromDatetimeNode_spec h
    rfl
  | float | double =>
    obtain ⟨d, rfl, -⟩ := fromFloatNode_spec h
    rfl
  | string | bytes =>
    obtain ⟨s, rfl⟩ := fromStringNode_spec h
    rfl

theorem columnOf_ok (hv : t.Valid) {db : LevelDB} (hs : Store conv t db) {e : Entry} (he : e ∈ db) {p : ParseNode}
    {c : DBColumnInfo} (hn : t.Names p c) : ∃ v, t.columnOf e c = .ok v ∧ isKind (getHandler c.type) v = true := by
  rcases LevelDBScanPlan.names_index hv hn with ⟨k, hk, hlt, -⟩ | ⟨v, hk, hval, hlt, hcol⟩
  · have hty := RangeBuild.names_keyType hv hn hk
    obtain ⟨kv, hkv, hcolumn⟩ := Comparison.keyColumnOf hv hs he hk (List.getElem?_eq_some_iff.mp hty).1
    have hkey := (hs.keyValues hv he).1
    refine ⟨kv, hcolumn, ?_⟩
    rw [TableInfo.columnOf, hk] at hcolumn
    exact isKind_of_getResult hcolumn (fun hm => hkey.noMax (hm ▸ List.mem_of_getElem? hkv)) hty
  · obtain ⟨w, hw, hm⟩ := hs.values e he v hlt
    have hty : t.valueTypes[v]? = some c.type := by rw [hv.getElem?_valueTypes, hcol]; rfl
    exact ⟨w, by rw [TableInfo.columnOf, hk, hval]; exact hw, isKind_of_getResult hw hm hty⟩

def LikeOnStrings (t : TableInfo) (cs : List Comparison) : Prop :=
  ∀ cmp ∈ cs, cmp.op = .compLike → ∀ c value, cmp.Against t c value → getHandler c.type = .string

theorem accepts_isSome {op : Operation} (h : Predicate.isComparison op = true) (hl : op ≠ .compLike) (n : Ordering) :
    ∃ b, FilterPlan.accepts op n = some b := by
  cases op <;> simp [Predicate.isComparison] at h hl <;> exact ⟨_, rfl⟩

theorem test_ok_of_isKind {type : DBDataType} {op : Operation} (hop : Predicate.isComparison op = true)
    (hl : op = .compLike → getHandler type = .string) (sExpr : Bytes) {a b : ExecutionResult}
    (ha : isKind (getHandler type) a = true) (hb : isKind (getHandler type) b = true) :
    ∃ r, FilterPlan.test conv type op sExpr a b = .ok r := by
  rw [FilterPlan.test]
  by_cases hlike : op = .compLike
  · rw [if_pos hlike]
    rw [hl hlike] at ha hb
    cases a <;> cases ha
    cases b <;> cases hb
    exact ⟨_, rfl⟩
  · rw [if_neg hlike]
    have hcompare : ∃ n, (getHandler type).compare conv a b = .ok n := by
      cases hh : getHandler type <;> rw [hh] at ha hb <;> cases a <;> cases ha <;> cases b <;> cases hb <;>
        exact ⟨_, rfl⟩
    obtain ⟨n, hn⟩ := hcompare
    obtain ⟨r, hr⟩ := accepts_isSome hop hlike n
    exact ⟨r, by rw [hn, ok_bind, hr]; rfl⟩

/-- Every comparison of a conjunction can be decided at every stored row. -/
theorem test_ok (hv : t.Valid) {db : LevelDB} (hs : Store conv t db) {e : Entry} (he : e ∈ db) {cs : List Comparison}
    (hl : LikeOnStrings t cs) {cmp : Comparison} (hc : cmp ∈ cs) (hop : Predicate.isComparison cmp.op = true)
    {c : DBColumnInfo} {value : ParseNode} (ha : cmp.Against t c value) (hconv : cmp.Converts conv t) :
    ∃ b, cmp.test conv t e = .ok b := by
  obtain ⟨v, hval⟩ := hconv c value ha
  have hkind := isKind_of_fromNode hval
  have hlike := fun ho => hl cmp hc ho c value ha
  cases ha with
  | left hn hcv =>
    obtain ⟨w, hw, hwk⟩ := columnOf_ok hv hs he hn
    rw [Comparison.test_left hn hcv, hval, ok_bind, hw, ok_bind]
    exact test_ok_of_isKind hop hlike _ hwk hkind
  | right hn hcv =>
    obtain ⟨w, hw, hwk⟩ := columnOf_ok hv hs he hn
    rw [Comparison.test_right hn hcv, hw, ok_bind, hval, ok_bind]
    exact test_ok_of_isKind hop hlike _ hkind hwk

end RowMeaning

end LevelPgServer
