import LevelPgServer.Execution.RangeBuild

namespace LevelPgServer

open ParseNode DBDataTypeHandler DataRow KeyOrder KeyRange KeySearchRange ExceptRules ThreeWay

namespace FilterPlan

theorem accepts_reverse {op rop : Operation} (h : reverseOp op = some rop) (n : Ordering) :
    ∃ b, accepts op n = some b ∧ accepts rop n.swap = some b := by
  cases op <;> simp [reverseOp] at h <;> subst h <;> cases n <;> exact ⟨_, rfl, rfl⟩

theorem reversible_ne_like {op rop : Operation} (h : reverseOp op = some rop) : op ≠ .compLike := by
  rintro rfl
  simp [reverseOp] at h

theorem test_eq (conv : Conversions) {type : DBDataType} {op : Operation} (hop : op ≠ .compLike) (sExpr : Bytes)
    {a b : ExecutionResult} (ha : isOrdered (getHandler type) a = true) (hb : isOrdered (getHandler type) b = true)
    {r : Bool} (hr : accepts op (order (rank a) (rank b)) = some r) : test conv type op sExpr a b = .ok r := by
  rw [test, if_neg hop, compare_eq conv ha hb, ok_bind, hr]
  rfl

end FilterPlan

namespace TableInfo

theorem operandColumn_const {t : TableInfo} {p : ParseNode} (h : p.isConst = true) : t.operandColumn p = none := by
  rw [operandColumn, if_neg]
  intro hn
  rw [Comparison.not_const_of_name hn] at h
  cases h

theorem Names.operandColumn {t : TableInfo} {p : ParseNode} {c : DBColumnInfo} (h : t.Names p c) :
    t.operandColumn p = some c := by
  rw [TableInfo.operandColumn, if_pos h.name, h.column]

end TableInfo

namespace Comparison

variable {conv : Conversions} {t : TableInfo} {cmp : Comparison}

theorem test_left {c : DBColumnInfo} (hn : t.Names cmp.left c) (hv : cmp.right.isConst = true) (e : Entry) :
    cmp.test conv t e = (do
      let b ← fromNode conv c.type cmp.right
      let a ← t.columnOf e c
      FilterPlan.test conv c.type cmp.op cmp.sExpr a b) := by
  rw [test, TableInfo.leafTest, hn.operandColumn, Option.some_or]
  simp only [TableInfo.operandOf, hn.operandColumn, TableInfo.operandColumn_const hv]

theorem test_right {c : DBColumnInfo} (hn : t.Names cmp.right c) (hv : cmp.left.isConst = true) (e : Entry) :
    cmp.test conv t e = (do
      let b ← t.columnOf e c
      let a ← fromNode conv c.type cmp.left
      FilterPlan.test conv c.type cmp.op cmp.sExpr a b) := by
  rw [test, TableInfo.leafTest, hn.operandColumn, TableInfo.operandColumn_const hv, Option.none_or]
  simp only [TableInfo.operandOf, hn.operandColumn, TableInfo.operandColumn_const hv]

theorem keyColumnOf {db : LevelDB} (hv : t.Valid) (hs : Store conv t db) {e : Entry} (he : e ∈ db) {c : DBColumnInfo}
    {k : Nat} (hk : c.keyIndex = some k) (hlt : k < t.keyTypes.length) :
    ∃ kv, (t.keyOf e)[k]? = some kv ∧ t.columnOf e c = .ok kv := by
  have hkey := (hs.keyValues hv he).1
  have hlen : k < (t.keyOf e).length := hkey.ordered.length_eq ▸ hlt
  refine ⟨(t.keyOf e)[k], List.getElem?_eq_getElem hlen, ?_⟩
  rw [TableInfo.columnOf, hk]
  exact hkey.getResult k _ (List.getElem?_eq_getElem hlen)

/-- A comparison that the range stands for is decided at every entry, and as the range does. -/
theorem Bound.test_eq {db : LevelDB} (hv : t.Valid) (hs : Store conv t db) {e : Entry} (he : e ∈ db) {k : Nat}
    {info : KeyPredicateInfo} (hb : cmp.Bound t k info) {type : DBDataType} (hty : t.keyTypes[k]? = some type)
    {v : ExecutionResult} (hval : fromNode conv type info.value = .ok v)
    (ho : isOrdered (getHandler type) v = true) :
    ∃ b, cmp.test conv t e = .ok b ∧ (b = true ↔ InfoHolds conv 0 t.keyTypes (t.keyOf e) (k, info)) := by
  have hlt : k < t.keyTypes.length := (List.getElem?_eq_some_iff.mp hty).1
  have hkey := (hs.keyValues hv he).1
  have hord : ∀ kv, (t.keyOf e)[k]? = some kv → isOrdered (getHandler type) kv = true := by
    intro kv hkv
    have h2 := (List.forall₂_iff_get.mp hkey.ordered).2 k hlt (List.getElem?_eq_some_iff.mp hkv).1
    rw [List.get_eq_getElem, List.get_eq_getElem] at h2
    rwa [(List.getElem?_eq_some_iff.mp hty).2, (List.getElem?_eq_some_iff.mp hkv).2] at h2
  have hholds : ∀ kv, (t.keyOf e)[k]? = some kv →
      (InfoHolds conv 0 t.keyTypes (t.keyOf e) (k, info) ↔
        FilterPlan.accepts info.op (order (rank kv) (rank v)) = some true) := by
    intro kv hkv
    simp only [InfoHolds, Nat.sub_zero, hty, hkv, Option.some.injEq, exists_and_left, exists_eq_left']
    exact columnHolds_iff conv hval
  cases hb with
  | @left c rop hn hc hk hr =>
    obtain ⟨kv, hkv, hcol⟩ := keyColumnOf hv hs he hk hlt
    obtain rfl : type = c.type := Option.some.inj (hty.symm.trans (RangeBuild.names_keyType hv hn hk))
    obtain ⟨b, hb, -⟩ := FilterPlan.accepts_reverse hr (order (rank kv) (rank v))
    refine ⟨b, ?_, ?_⟩
    · rw [test_left hn hc, hval, ok_bind, hcol, ok_bind]
      exact FilterPlan.test_eq conv (FilterPlan.reversible_ne_like hr) _ (hord kv hkv) ho hb
    · rw [hholds kv hkv, hb, Option.some.injEq]
  | @right c rop hn hc hk hr =>
    obtain ⟨kv, hkv, hcol⟩ := keyColumnOf hv hs he hk hlt
    obtain rfl : type = c.type := Option.some.inj (hty.symm.trans (RangeBuild.names_keyType hv hn hk))
    obtain ⟨b, hb, hrb⟩ := FilterPlan.accepts_reverse hr (order (rank v) (rank kv))
    rw [← order_swap] at hrb
    refine ⟨b, ?_, ?_⟩
    · rw [test_right hn hc, hcol, ok_bind, hval, ok_bind]
      exact FilterPlan.test_eq conv (FilterPlan.reversible_ne_like hr) _ ho (hord kv hkv) hb
    · rw [hholds kv hkv, hrb, Option.some.injEq]

end Comparison

namespace RangeBuild

variable {conv : Conversions} {t : TableInfo} {cs : List Comparison} {range : KeySearchRange} {solved : List Bytes}
  {s : Predicates}

theorem Stands.used_of_solved (hst : Stands conv t cs range solved s) (htext : TextsDetermine cs) {cmp : Comparison}
    (hc : cmp ∈ cs) (hs : cmp.sExpr ∈ solved) :
    ∃ q ∈ used 0 s.predicates s.endPredicate, cmp.Bound t q.1 q.2 := by
  obtain ⟨q, hq, hx⟩ := (hst.solved_iff cmp.sExpr).mp hs
  obtain ⟨cmp', hc', hb⟩ := hst.derived.bound_of_mem_used hq
  obtain rfl : cmp = cmp' := htext cmp hc cmp' hc' (hx.symm.trans hb.sExpr_eq)
  exact ⟨q, hq, hb⟩

theorem Stands.solved_converts (hst : Stands conv t cs range solved s) (hv : t.Valid) (htext : TextsDetermine cs)
    {cmp : Comparison} (hc : cmp ∈ cs) (hs : cmp.sExpr ∈ solved) : cmp.Converts conv t := by
  intro c value ha
  obtain ⟨q, hq, hb⟩ := hst.used_of_solved htext hc hs
  obtain ⟨type, v, hty, hval⟩ := hst.converts q hq
  obtain ⟨d, had, -, htd⟩ := bound_keyType hv hb
  obtain ⟨rfl, hvalue⟩ := ha.unique had
  obtain rfl : type = c.type := Option.some.inj (hty.symm.trans htd)
  exact ⟨v, hvalue ▸ hval⟩

/-- The keys of the range are those of the entries where the solved comparisons hold. -/
theorem Stands.contains_iff (hst : Stands conv t cs range solved s) (hv : t.Valid) (htext : TextsDetermine cs)
    (hexact : ExactFloats conv t cs) {db : LevelDB} (hs : Store conv t db) {e : Entry} (he : e ∈ db) :
    range.Contains (t.keyOf e) ↔ ∀ cmp ∈ cs, cmp.sExpr ∈ solved → cmp.test conv t e = .ok true := by
  have hdecided : ∀ q ∈ used 0 s.predicates s.endPredicate, ∀ cmp ∈ cs, cmp.Bound t q.1 q.2 →
      (InfoHolds conv 0 t.keyTypes (t.keyOf e) q ↔ cmp.test conv t e = .ok true) := by
    intro q hq cmp hc hb
    obtain ⟨type, v, hty, hval⟩ := hst.converts q hq
    obtain ⟨c, ha, hck, htc⟩ := bound_keyType hv hb
    obtain rfl : type = c.type := Option.some.inj (hty.symm.trans htc)
    obtain ⟨b, htest, hiff⟩ := hb.test_eq hv hs he hty hval (hexact.ordered hc ha hck hval)
    rw [htest, Except.ok.injEq]
    exact hiff.symm
  rw [hst.contains _ (hs.keyValues hv he).1.bounded]
  constructor
  · intro h cmp hc hx
    obtain ⟨q, hq, hb⟩ := hst.used_of_solved htext hc hx
    exact (hdecided q hq cmp hc hb).mp (h q hq)
  · intro h q hq
    obtain ⟨cmp, hc, hb⟩ := hst.derived.bound_of_mem_used hq
    exact (hdecided q hq cmp hc hb).mpr (h cmp hc ((hst.solved_iff _).mpr ⟨q, hq, hb.sExpr_eq⟩))

end RangeBuild

end LevelPgServer
