import LevelPgServer.Execution.ScanRange

namespace LevelPgServer

open ParseNode KeyOrder KeyRange KeySearchRange ExceptRules ThreeWay

/-- The node names a column of the table; `_rowkey` stands for no column. -/
structure TableInfo.Names (t : TableInfo) (p : ParseNode) (c : DBColumnInfo) : Prop where
  name : p.type = .name
  notRowKey : Tools.isRowKeyNode p = false
  column : t.getColumnByName p.getString = some c

structure Comparison where
  op : Operation
  sExpr : Bytes
  left : ParseNode
  right : ParseNode

namespace Comparison

/-- The comparison of a column with a constant, on whichever side the constant stands. -/
inductive Against (t : TableInfo) (cmp : Comparison) : DBColumnInfo → ParseNode → Prop
  | left {c : DBColumnInfo} (hn : t.Names cmp.left c) (hv : cmp.right.isConst = true) : Against t cmp c cmp.right
  | right {c : DBColumnInfo} (hn : t.Names cmp.right c) (hv : cmp.left.isConst = true) : Against t cmp c cmp.left

theorem not_const_of_name {p : ParseNode} (h : p.type = .name) : p.isConst = false := by simp [isConst, h]

theorem Against.unique {t : TableInfo} {cmp : Comparison} {c d : DBColumnInfo} {v w : ParseNode} (h : cmp.Against t c v) (h' : cmp.Against t d w) :
    c = d ∧ v = w := by
  have hne : ∀ {p : ParseNode} {e : DBColumnInfo}, t.Names p e → p.isConst = true → False := fun hn hc => by
    rw [not_const_of_name hn.name] at hc
    cases hc
  cases h with
  | left hn hv =>
    cases h' with
    | left hn' _ => exact ⟨Option.some.inj (hn.column.symm.trans hn'.column), rfl⟩
    | right _ hv' => exact (hne hn hv').elim
  | right hn hv =>
    cases h' with
    | left _ hv' => exact (hne hn hv').elim
    | right hn' _ => exact ⟨Option.some.inj (hn.column.symm.trans hn'.column), rfl⟩

/-- The constant of the comparison can be read as a value of the column. -/
def Converts (conv : Conversions) (t : TableInfo) (cmp : Comparison) : Prop :=
  ∀ c value, cmp.Against t c value → ∃ v, DBDataTypeHandler.fromNode conv c.type value = .ok v

/-- What `setPredicateInfo` notes down for key column `k` when it meets the comparison. -/
inductive Bound (t : TableInfo) (cmp : Comparison) (k : Nat) : KeyPredicateInfo → Prop
  | left {c : DBColumnInfo} {rop : Operation} (hn : t.Names cmp.left c) (hv : cmp.right.isConst = true)
      (hk : c.keyIndex = some k) (hr : reverseOp cmp.op = some rop) :
      Bound t cmp k { keyIndex := some k, value := cmp.right, op := cmp.op, sExpr := cmp.sExpr }
  | right {c : DBColumnInfo} {rop : Operation} (hn : t.Names cmp.right c) (hv : cmp.left.isConst = true)
      (hk : c.keyIndex = some k) (hr : reverseOp cmp.op = some rop) :
      Bound t cmp k { keyIndex := some k, value := cmp.left, op := rop, sExpr := cmp.sExpr }

def test (conv : Conversions) (t : TableInfo) (e : Entry) (cmp : Comparison) : Fallible Bool :=
  t.leafTest conv e cmp.op cmp.sExpr cmp.left cmp.right

theorem Bound.sExpr_eq {t : TableInfo} {cmp : Comparison} {k : Nat} {info : KeyPredicateInfo} (h : cmp.Bound t k info) :
    info.sExpr = cmp.sExpr := by cases h <;> rfl

theorem Bound.keyIndex_eq {t : TableInfo} {cmp : Comparison} {k : Nat} {info : KeyPredicateInfo}
    (h : cmp.Bound t k info) : info.keyIndex = some k := by cases h <;> rfl

end Comparison

/-- A conjunction of comparisons of columns with constants, nested in any way, and its
comparisons from left to right. -/
inductive IsConjunction (t : TableInfo) : ParseNode → List Comparison → Prop
  | comparison {sv : Bytes} {c : DBColumnInfo} {value : ParseNode} (cmp : Comparison)
      (hop : Predicate.isComparison cmp.op = true) (h : cmp.Against t c value) :
      IsConjunction t (.node .op cmp.op cmp.sExpr sv [cmp.left, cmp.right]) [cmp]
  | and {sx sv : Bytes} {p q : ParseNode} {as bs : List Comparison} (hp : IsConjunction t p as)
      (hq : IsConjunction t q bs) : IsConjunction t (.node .op .and sx sv [p, q]) (as ++ bs)

def TextsDetermine (cs : List Comparison) : Prop := ∀ a ∈ cs, ∀ b ∈ cs, a.sExpr = b.sExpr → a = b

/-- The floating-point constants are exact ordered values of the key columns they are
compared with. -/
def ExactFloats (conv : Conversions) (t : TableInfo) (cs : List Comparison) : Prop :=
  ∀ cmp ∈ cs, ∀ c value, cmp.Against t c value → c.keyIndex ≠ none →
    ∀ d, DBDataTypeHandler.fromNode conv c.type value = .ok (.double d) →
      isOrdered (getHandler c.type) (.double d) = true

namespace KeyOrder

open DBDataTypeHandler

variable {conv : Conversions}

def tooLargeString : Fault := .thrown (.execution "too large string value")

theorem checkValue_int_ok {t : IntType} {v : Int} (h : t.min ≤ v ∧ v ≤ t.max) : t.checkValue v = .ok () := by
  rw [IntType.checkValue, if_neg (by omega)]

theorem write_int {t : IntType} {v : Int} (h : t.min ≤ v ∧ v ≤ t.max) :
    (DBDataTypeHandler.int t).write conv (.int v) = .ok (ByteOrder.intToLittle t.size v) := by
  simp [write, checkValue_int_ok h]

theorem write_float {t : FloatType} {d : Double} (h : t.checkValue conv d = .ok ()) :
    (DBDataTypeHandler.float t).write conv (.double d) = .ok (writeFloat t d) := by
  simp [write, h]

theorem fromIntNode_spec {t : IntType} {p : ParseNode} {v : ExecutionResult} (h : fromIntNode conv t p = .ok v) :
    ∃ n, v = .int n ∧ t.min ≤ n ∧ n ≤ t.max := by
  obtain ⟨n, -, h⟩ := bind_eq_ok.mp h
  obtain ⟨u, hc, h⟩ := bind_eq_ok.mp h
  cases h
  exact ⟨n, rfl, DataRow.checkValue_ok hc⟩

theorem fromDatetimeNode_spec {p : ParseNode} {v : ExecutionResult} (h : fromDatetimeNode conv p = .ok v) :
    ∃ n, v = .int n ∧ IntType.int64.min ≤ n ∧ n ≤ IntType.int64.max := by
  obtain ⟨n, hn, h⟩ := bind_eq_ok.mp h
  cases h
  have htime : ∀ s m, timeToInt conv s = .ok m → IntType.int64.min ≤ m ∧ m ≤ IntType.int64.max := by
    intro s m hm
    have hlt := conv.parseTime_lt s
    unfold timeToInt at hm
    split at hm
    · cases hm
      decide
    · split at hm
      · cases hm
      · next hpos =>
        cases hm
        simp only [IntType.min, IntType.max]
        omega
  unfold timeOfNode at hn
  split at hn
  all_goals first | exact ⟨n, rfl, htime _ _ hn⟩ | cases hn

theorem fromFloatNode_spec {t : FloatType} {p : ParseNode} {v : ExecutionResult}
    (h : fromFloatNode conv t p = .ok v) : ∃ d, v = .double d ∧ t.checkValue conv d = .ok () := by
  obtain ⟨d, -, h⟩ := bind_eq_ok.mp h
  obtain ⟨u, hc, h⟩ := bind_eq_ok.mp h
  cases h
  exact ⟨d, rfl, hc⟩

theorem fromStringNode_spec {p : ParseNode} {v : ExecutionResult} (h : fromStringNode p = .ok v) :
    ∃ s, v = .string s := by
  unfold fromStringNode at h
  split at h
  all_goals first | exact ⟨_, (Except.ok.inj h).symm⟩ | cases h

/-- A constant can be stored in a column it was read for, unless it is too long a string. -/
theorem fromNode_write {type : DBDataType} {p : ParseNode} {v : ExecutionResult} (h : fromNode conv type p = .ok v) :
    (∃ bs, (getHandler type).write conv v = .ok bs) ∨
      ((getHandler type).write conv v = .error tooLargeString ∧ ∃ s, v = .string s ∧ maxLength ≤ s.length) := by
  cases type with
  | bool =>
    obtain ⟨b, -, h⟩ := bind_eq_ok.mp h
    cases h
    exact .inl ⟨_, write_int (by cases b <;> decide)⟩
  | int16 | int32 | int64 =>
    obtain ⟨n, rfl, hn⟩ := fromIntNode_spec h
    exact .inl ⟨_, write_int hn⟩
  | date | datetime =>
    obtain ⟨n, rfl, hn⟩ := fromDatetimeNode_spec h
    exact .inl ⟨_, write_int hn⟩
  | float | double =>
    obtain ⟨d, rfl, hc⟩ := fromFloatNode_spec h
    exact .inl ⟨_, write_float hc⟩
  | string | bytes =>
    obtain ⟨s, rfl⟩ := fromStringNode_spec h
    by_cases hl : maxLength ≤ s.length
    · exact .inr ⟨by simp [getHandler, write, hl, throwExecution, tooLargeString], s, rfl, hl⟩
    · exact .inl ⟨_, by simp [getHandler, write, hl]; rfl⟩

/-- Constants are ordered values of the column they were read for; floats by assumption. -/
theorem fromNode_ordered {type : DBDataType} {p : ParseNode} {v : ExecutionResult} (h : fromNode conv type p = .ok v)
    (hd : ∀ d, v = .double d → isOrdered (getHandler type) v = true) : isOrdered (getHandler type) v = true := by
  cases type with
  | bool =>
    obtain ⟨b, -, h⟩ := bind_eq_ok.mp h
    cases h
    rfl
  | int16 | int32 | int64 =>
    obtain ⟨n, rfl, -⟩ := fromIntNode_spec h
    rfl
  | date | datetime =>
    obtain ⟨n, rfl, -⟩ := fromDatetimeNode_spec h
    rfl
  | float | double =>
    obtain ⟨d, rfl, -⟩ := fromFloatNode_spec h
    exact hd d rfl
  | string | bytes =>
    obtain ⟨s, rfl⟩ := fromStringNode_spec h
    rfl

end KeyOrder

theorem ExactFloats.ordered {conv : Conversions} {t : TableInfo} {cs : List Comparison} (h : ExactFloats conv t cs)
    {cmp : Comparison} (hc : cmp ∈ cs) {c : DBColumnInfo} {value : ParseNode} (ha : cmp.Against t c value) {k : Nat}
    (hk : c.keyIndex = some k) {v : ExecutionResult} (hv : DBDataTypeHandler.fromNode conv c.type value = .ok v) :
    isOrdered (getHandler c.type) v = true :=
  fromNode_ordered hv fun d hd => hd ▸ h cmp hc c value ha (by simp [hk]) d (hd ▸ hv)

namespace Conjunction

variable {conv : Conversions} {t : TableInfo}

theorem isConjunction_test {p : ParseNode} {cs : List Comparison} (h : IsConjunction t p cs) :
    ∀ cmp ∈ cs, Predicate.isComparison cmp.op = true ∧ ∃ c value, cmp.Against t c value := by
  induction h with
  | comparison cmp hop h => simpa using ⟨hop, _, _, h⟩
  | and _ _ ihp ihq =>
    intro cmp hm
    rcases List.mem_append.mp hm with hm | hm
    · exact ihp cmp hm
    · exact ihq cmp hm

/-- What the walk over the predicate has noted down: each entry comes from a comparison. -/
structure Derived (t : TableInfo) (cs : List Comparison) (s : Predicates) : Prop where
  length : s.predicates.length = t.keyTypes.length
  starts : ∀ (k : Nat) (info : KeyPredicateInfo), s.predicates[k]? = some info →
    info.op = .none ∨ ((info.op = .compEq ∨ isStartOp info.op = true) ∧ ∃ cmp ∈ cs, cmp.Bound t k info)
  last : s.endPredicate = {} ∨
    (isEndOp s.endPredicate.op = true ∧ ∃ k, ∃ cmp ∈ cs, cmp.Bound t k s.endPredicate)

theorem Derived.initial (cs : List Comparison) :
    Derived t cs { predicates := List.replicate t.keyTypes.length {} } where
  length := by simp
  starts k info h := by
    rw [List.getElem?_replicate] at h
    split at h
    · cases h; exact .inl rfl
    · cases h
  last := .inl rfl

theorem Derived.startForm {cs : List Comparison} {s : Predicates} (h : Derived t cs s) :
    ∀ info ∈ s.predicates, StartForm info := by
  intro info hm
  obtain ⟨k, hk⟩ := List.mem_iff_getElem?.mp hm
  rcases h.starts k info hk with hn | ⟨ho | ho, -⟩
  · exact .inl hn
  · exact .inr (.inl ho)
  · exact .inr (.inr ho)

theorem Derived.endForm {cs : List Comparison} {s : Predicates} (h : Derived t cs s) : EndForm s.endPredicate := by
  rcases h.last with he | ⟨ho, k, cmp, -, hb⟩
  · rw [he]
    exact ⟨fun m hm => absurd hm (by simp), fun _ => rfl⟩
  · exact ⟨fun _ _ => ho, fun hn => by rw [hb.keyIndex_eq] at hn; cases hn⟩

theorem Derived.set {cs : List Comparison} {s : Predicates} (h : Derived t cs s) {k : Nat} {info : KeyPredicateInfo}
    (ho : info.op = .compEq ∨ isStartOp info.op = true) {cmp : Comparison} (hc : cmp ∈ cs) (hb : cmp.Bound t k info) :
    Derived t cs (s.set k info) where
  length := by simp [Predicates.set, h.length]
  starts j i hj := by
    rw [Predicates.set, List.getElem?_set] at hj
    split at hj
    · next hkj =>
      split at hj
      · cases hj
        exact .inr ⟨ho, cmp, hc, hkj ▸ hb⟩
      · cases hj
    · exact h.starts j i hj
  last := h.last

theorem Derived.setEnd {cs : List Comparison} {s : Predicates} (h : Derived t cs s) {k : Nat}
    {info : KeyPredicateInfo} (ho : isEndOp info.op = true) {cmp : Comparison} (hc : cmp ∈ cs)
    (hb : cmp.Bound t k info) : Derived t cs { s with endPredicate := info } where
  length := h.length
  starts := h.starts
  last := .inr ⟨ho, k, cmp, hc, hb⟩

theorem setPredicateInfo_ok {cs : List Comparison} {s : Predicates} (h : Derived t cs s) {op rop : Operation}
    (hr : reverseOp op = some rop) {pKey pValue pPredicate : ParseNode} {c : DBColumnInfo} (hn : t.Names pKey c)
    {cmp : Comparison} (hc : cmp ∈ cs)
    (hb : ∀ k, c.keyIndex = some k →
      cmp.Bound t k { keyIndex := some k, value := pValue, op, sExpr := pPredicate.sExpr }) :
    ∃ s', setPredicateInfo t op pKey pValue pPredicate s = .ok s' ∧ Derived t cs s' := by
  rw [setPredicateInfo, hn.column]
  cases hk : c.keyIndex with
  | none => exact ⟨s, by simp [hk], h⟩
  | some k =>
    simp only [hk]
    cases op <;> simp [reverseOp] at hr
    case compEq | compGt | compGe =>
      refine ⟨_, rfl, ?_⟩
      split
      · exact h
      · exact h.set (by simp [isStartOp]) hc (hb k hk)
    case compLe | compLt =>
      refine ⟨_, rfl, ?_⟩
      split
      · exact h
      · exact h.setEnd (by simp [isEndOp]) hc (hb k hk)

theorem setComparison_ok {cs : List Comparison} {s : Predicates} (h : Derived t cs s) {cmp : Comparison} (hc : cmp ∈ cs)
    {c : DBColumnInfo} {value : ParseNode} (ha : cmp.Against t c value) (sv : Bytes) :
    ∃ s', setComparison t (.node .op cmp.op cmp.sExpr sv [cmp.left, cmp.right]) s = .ok s' ∧ Derived t cs s' := by
  rw [setComparison, getOp_node]
  cases hr : reverseOp cmp.op with
  | none => exact ⟨s, rfl, h⟩
  | some rop =>
    simp only [getChild, children_node, List.getD_cons_zero, List.getD_cons_succ]
    cases ha with
    | left hn hv =>
      rw [if_pos ⟨hn.name, hv⟩]
      exact setPredicateInfo_ok h hr hn hc fun k hk => .left hn hv hk hr
    | right hn hv =>
      have hconst := Comparison.not_const_of_name hn.name
      rw [if_neg (by simp [hconst]), if_pos ⟨hn.name, hv⟩]
      have hrr : ∃ op', reverseOp rop = some op' := by
        cases ho : cmp.op <;> rw [ho] at hr <;> simp [reverseOp] at hr <;> subst hr <;> exact ⟨_, rfl⟩
      obtain ⟨op', hrr⟩ := hrr
      exact setPredicateInfo_ok h hrr hn hc fun k hk => .right hn hv hk hr

theorem doSetPredicate_ok {p : ParseNode} {cs all : List Comparison} (h : IsConjunction t p cs) (hsub : cs ⊆ all)
    {s : Predicates} (hs : Derived t all s) : ∃ s', doSetPredicate t p s = .ok s' ∧ Derived t all s' := by
  induction h generalizing s with
  | @comparison sv c value cmp hop ha =>
    obtain ⟨s', hs', hd⟩ := setComparison_ok hs (hsub (List.mem_singleton_self cmp)) ha sv
    refine ⟨s', ?_, hd⟩
    have hne : cmp.op ≠ .and := by rintro h; simp [h, Predicate.isComparison] at hop
    simpa [doSetPredicate, hne] using hs'
  | @and sx sv p q as bs _ _ ihp ihq =>
    obtain ⟨s1, h1, hd1⟩ := ihp (fun a ha => hsub (List.mem_append_left _ ha)) hs
    obtain ⟨s2, h2, hd2⟩ := ihq (fun a ha => hsub (List.mem_append_right _ ha)) hd1
    exact ⟨s2, by simp [doSetPredicate, doSetPredicates, h1, h2], hd2⟩

theorem mem_used {i : Nat} {infos : List KeyPredicateInfo} {ep : KeyPredicateInfo} {p : Nat × KeyPredicateInfo}
    (h : p ∈ used i infos ep) :
    (infos[p.1 - i]? = some p.2 ∧ p.2.op ≠ .none) ∨ (p.2 = ep ∧ ep.keyIndex = some p.1) := by
  induction infos generalizing i ep with
  | nil => simp [used] at h
  | cons info infos ih =>
    rw [used] at h
    split at h
    · next ho =>
      rcases List.mem_cons.mp h with rfl | h
      · exact .inl ⟨by simp, by simp [ho]⟩
      · have hle := le_of_mem_used h
        obtain ⟨j, hj⟩ : ∃ j, p.1 - i = j + 1 := ⟨p.1 - i - 1, by omega⟩
        have hj' : p.1 - (i + 1) = j := by omega
        rcases ih h with h | ⟨he, hk⟩
        · rw [hj'] at h
          exact .inl (by simpa [hj] using h)
        · unfold afterEq at he hk
          split at hk
          · cases hk
          · next hn => exact .inr ⟨by rw [he, if_neg hn], hk⟩
    · rcases List.mem_append.mp h with h | h
      · split at h <;> simp at h
        next hk => exact .inr ⟨by rw [h], by rw [h]; exact hk⟩
      · split at h <;> simp at h
        next ho =>
        refine .inl ⟨by simp [h], ?_⟩
        rw [h]
        intro hn
        rw [show info.op = .none from hn] at ho
        cases ho

/-- The comparisons the range stands for are comparisons of the conjunction. -/
theorem Derived.bound_of_mem_used {cs : List Comparison} {s : Predicates} (h : Derived t cs s)
    {p : Nat × KeyPredicateInfo} (hp : p ∈ used 0 s.predicates s.endPredicate) : ∃ cmp ∈ cs, cmp.Bound t p.1 p.2 := by
  rcases mem_used hp with ⟨hk, hop⟩ | ⟨he, hk⟩
  · rcases h.starts p.1 p.2 hk with hn | ⟨-, hb⟩
    · exact absurd hn hop
    · exact hb
  · rcases h.last with hn | ⟨-, k, cmp, hc, hb⟩
    · rw [hn] at hk
      cases hk
    · obtain rfl : k = p.1 := Option.some.inj (hb.keyIndex_eq.symm.trans hk)
      exact ⟨cmp, hc, he ▸ hb⟩

end Conjunction

end LevelPgServer
