import LevelPgServer.Common.RewriteCorrect
import LevelPgServer.PlanBuilder.UnionAll

namespace LevelPgServer

open ParseNode QueryRewritter Predicate RewriteCorrect BumpAlloc

/-- The rewriter leaves a node without children as it is. -/
theorem rewrite_leaf {type : NodeType} (hop : type ≠ .op) (hlist : type ≠ .list) (op : Operation) (sx sv : Bytes) :
    Takes (rewrite (.node type op sx sv [])) (.node type op sx sv []) 0 := by
  have hnil : Takes (rewriteChildren []) [] 0 := (Allocates.pure _).of_eq (by rw [rewriteChildren])
  have he : rewrite (.node type op sx sv []) = rewriteChildren [] >>= fun cs => pure (.node type op sx sv cs) := by
    cases type <;> first | exact absurd rfl hop | exact absurd rfl hlist | simp [rewrite]
  exact (hnil.bind (Allocates.pure (node type op sx sv []))).of_eq he

/-- An AND/OR tree of comparisons of columns with constants, and its comparisons from left
to right. -/
inductive IsWhere (t : TableInfo) : ParseNode → List Comparison → Prop
  | comparison {sv : Bytes} {c : DBColumnInfo} {value : ParseNode} (cmp : Comparison)
      (hop : isComparison cmp.op = true) (h : cmp.Against t c value) (hl : OrFree cmp.left) (hr : OrFree cmp.right) :
      IsWhere t (.node .op cmp.op cmp.sExpr sv [cmp.left, cmp.right]) [cmp]
  | and {sx sv : Bytes} {p q : ParseNode} {as bs : List Comparison} (hp : IsWhere t p as) (hq : IsWhere t q bs) :
      IsWhere t (.node .op .and sx sv [p, q]) (as ++ bs)
  | or {sx sv : Bytes} {p q : ParseNode} {as bs : List Comparison} (hp : IsWhere t p as) (hq : IsWhere t q bs) :
      IsWhere t (.node .op .or sx sv [p, q]) (as ++ bs)

/-- An integer or boolean constant as the grammar builds it, and its value; a minus sign
keeps the whole text. -/
inductive IntConst : ParseNode → Int → Prop
  | number (ds : List (Fin 10)) (sx : Bytes) (hne : ds ≠ [])
      (hsx : sx = ds.map (fun d : Fin 10 => UInt8.ofNat (48 + d.val))) :
      IntConst (.node .int .none sx sx []) ((ds.foldl (fun n d => 10 * n + d.val) 0 : Nat) : Int)
  | true (sx : Bytes) : IntConst (.node .int .none sx (bytes "1") []) 1
  | false (sx : Bytes) : IntConst (.node .int .none sx (bytes "0") []) 0
  | minus {p : ParseNode} {v : Int} (gap rest : Bytes) (h : IntConst p v) :
      IntConst (.node .int .none (bytes "-" ++ (gap ++ p.sExpr ++ rest)) (bytes "-" ++ (gap ++ p.sExpr ++ rest)) []) (-v)

namespace IsWhere

variable {t : TableInfo} {p : ParseNode} {cs : List Comparison}

theorem conjunction (h : IsWhere t p cs) (ho : OrFree p) : IsConjunction t p cs := by
  induction h with
  | comparison cmp hop h => exact .comparison cmp hop h
  | and _ _ ihp ihq =>
    rw [OrFree, hasOrPredicate, anyHasOrPredicate, anyHasOrPredicate, anyHasOrPredicate] at ho
    simp only [Bool.or_false, Bool.or_eq_false_iff] at ho
    exact .and (ihp ho.2.1) (ihq ho.2.2)
  | or => simp [OrFree, hasOrPredicate] at ho

theorem rewriteOps_pair {p q : ParseNode} {n k : Nat} (hp : Takes (rewriteOp p) (p, hasOrPredicate p) n)
    (hq : Takes (rewriteOp q) (q, hasOrPredicate q) k) :
    ∃ m, Takes (rewriteOps [p, q]) ([p, q], anyHasOrPredicate [p, q]) m :=
  ⟨_, rewriteOps_cons hp (rewriteOps_cons hq (Allocates.pure ([], Bool.false)))⟩

theorem rewriteOp_takes (h : IsWhere t p cs) : ∃ n, Takes (rewriteOp p) (p, hasOrPredicate p) n := by
  induction h with
  | @comparison sv c value cmp hop h hl hr =>
    have hne : cmp.op ≠ .or := by intro h; rw [h] at hop; cases hop
    have hfree := @orFree_comparison cmp.op cmp.sExpr sv _ _ .op hne hl hr
    rw [OrFree] at hfree
    rw [hfree]
    refine ⟨0, (Allocates.pure _).of_eq ?_⟩
    cases ho : cmp.op <;> rw [ho] at hop <;> first | rfl | cases hop
  | @and sx sv p q _ _ _ _ ihp ihq =>
    obtain ⟨n, hn⟩ := ihp
    obtain ⟨k, hk⟩ := ihq
    obtain ⟨m, hm⟩ := rewriteOps_pair hn hk
    have hflag : hasOrPredicate (.node .op .and sx sv [p, q]) = anyHasOrPredicate [p, q] := rfl
    rw [hflag]
    exact ⟨m + 0, hm.bind (Allocates.pure _)⟩
  | @or sx sv p q _ _ _ _ ihp ihq =>
    obtain ⟨n, hn⟩ := ihp
    obtain ⟨k, hk⟩ := ihq
    obtain ⟨m, hm⟩ := rewriteOps_pair hn hk
    have hflag : hasOrPredicate (.node .op .or sx sv [p, q]) = Bool.true := rfl
    rw [hflag]
    exact ⟨m + 0, hm.bind (Allocates.pure _)⟩

end IsWhere

/-- The disjuncts of a tree with the comparisons `cs`. -/
structure DisjunctsOf (t : TableInfo) (p : ParseNode) (cs : List Comparison) (ds : List ParseNode) : Prop where
  conjunctions : ∀ d ∈ ds, ∃ cs', IsConjunction t d cs' ∧ cs' ⊆ cs
  meaning : ∀ v, ds.any (holds v) = holds v p
  ne_nil : ds ≠ []

namespace DisjunctsOf

variable {t : TableInfo} {p q : ParseNode} {as bs : List Comparison} {ls rs : List ParseNode}

theorem single (h : IsConjunction t p as) : DisjunctsOf t p as [p] where
  conjunctions d hd := by
    obtain rfl := List.mem_singleton.mp hd
    exact ⟨as, h, List.Subset.refl as⟩
  meaning v := by simp
  ne_nil := by simp

theorem and (hl : DisjunctsOf t p as ls) (hr : DisjunctsOf t q bs rs) (sx sv : Bytes) :
    DisjunctsOf t (.node .op .and sx sv [p, q]) (as ++ bs) (ls.flatMap (fun l => rs.map (andNode l))) where
  conjunctions d hd := by
    obtain ⟨l, hlm, hd⟩ := List.mem_flatMap.mp hd
    obtain ⟨r, hrm, rfl⟩ := List.mem_map.mp hd
    obtain ⟨as', ha, has⟩ := hl.conjunctions l hlm
    obtain ⟨bs', hb, hbs⟩ := hr.conjunctions r hrm
    exact ⟨as' ++ bs', .and ha hb, List.append_subset.mpr ⟨List.subset_append_of_subset_left bs has,
      List.subset_append_of_subset_right as hbs⟩⟩
  meaning v := by rw [any_distribute, hl.meaning, hr.meaning, holds_and]
  ne_nil := by
    obtain ⟨l, ls, rfl⟩ := List.exists_cons_of_ne_nil hl.ne_nil
    obtain ⟨r, rs, rfl⟩ := List.exists_cons_of_ne_nil hr.ne_nil
    simp

theorem or (hl : DisjunctsOf t p as ls) (hr : DisjunctsOf t q bs rs) (sx sv : Bytes) :
    DisjunctsOf t (.node .op .or sx sv [p, q]) (as ++ bs) (ls ++ rs) where
  conjunctions d hd := by
    obtain hd | hd := List.mem_append.mp hd
    · obtain ⟨cs', hc, hcs⟩ := hl.conjunctions d hd
      exact ⟨cs', hc, List.subset_append_of_subset_left bs hcs⟩
    · obtain ⟨cs', hc, hcs⟩ := hr.conjunctions d hd
      exact ⟨cs', hc, List.subset_append_of_subset_right as hcs⟩
  meaning v := by simp [hl.meaning, hr.meaning]
  ne_nil := by simp [hl.ne_nil]

end DisjunctsOf

/-- What the rewriter leaves of a tree: the tree itself when it is a conjunction, and
otherwise one OR of its disjuncts. -/
inductive RewrittenWhere (t : TableInfo) (p : ParseNode) (cs : List Comparison) : ParseNode → Prop
  | conjunction (h : IsConjunction t p cs) : RewrittenWhere t p cs p
  | disjunction {sx : Bytes} {ds : List ParseNode} (h : DisjunctsOf t p cs ds) :
      RewrittenWhere t p cs (.node .op .or sx [] ds)

namespace IsWhere

variable {t : TableInfo} {p : ParseNode} {cs : List Comparison}

theorem collectOrOperators_takes (h : IsWhere t p cs) :
    ∃ ds n, Takes (collectOrOperators p) ds n ∧ DisjunctsOf t p cs ds := by
  induction h with
  | @comparison sv c value cmp hop h hl hr =>
    refine ⟨_, 0, (Allocates.pure _).of_eq ?_, .single (.comparison cmp hop h)⟩
    cases ho : cmp.op <;> rw [ho] at hop <;> first | rfl | cases hop
  | @and sx sv p q as bs hp hq ihp ihq =>
    by_cases ho : hasOrPredicate (.node .op .and sx sv [p, q]) = true
    · obtain ⟨ls, n, hn, hl⟩ := ihp
      obtain ⟨rs, k, hk, hr⟩ := ihq
      have hj := distribute_takes rs ls
      have hb := hk.bind (f := fun right => distribute right ls) hj
      have hc := hn.bind (f := fun left => collectOrOperators q >>= fun right => distribute right left) hb
      exact ⟨_, _, hc.of_eq (by simp [collectOrOperators, ho]), hl.and hr sx sv⟩
    · have hf := Bool.eq_false_iff.mpr ho
      exact ⟨_, 0, (Allocates.pure _).of_eq (by simp [collectOrOperators, hf]), .single ((and hp hq).conjunction hf)⟩
  | @or sx sv p q as bs _ _ ihp ihq =>
    obtain ⟨ls, n, hn, hl⟩ := ihp
    obtain ⟨rs, k, hk, hr⟩ := ihq
    have hnil : Takes (collectOrOperatorsOf []) [] 0 := Allocates.pure _
    have hright : Takes (collectOrOperatorsOf [q]) (rs ++ []) (k + (0 + 0)) := hk.bind (hnil.bind (Allocates.pure _))
    have hboth : Takes (collectOrOperatorsOf [p, q]) (ls ++ (rs ++ [])) (n + (k + (0 + 0) + 0)) :=
      hn.bind (hright.bind (Allocates.pure _))
    rw [List.append_nil] at hboth
    exact ⟨ls ++ rs, _, hboth.of_eq rfl, hl.or hr sx sv⟩

/-- The rewriter keeps a conjunction and lifts the OR of any other tree. -/
theorem rewrite_takes (h : IsWhere t p cs) : ∃ q n, Takes (rewrite p) q n ∧ RewrittenWhere t p cs q := by
  obtain ⟨n, hn⟩ := h.rewriteOp_takes
  have hnode : ∃ op sx sv cs, p = .node .op op sx sv cs := by
    cases h <;> exact ⟨_, _, _, _, rfl⟩
  obtain ⟨op, sx, sv, children, rfl⟩ := hnode
  let lift : ParseNode × Bool → ParseM ParseNode := fun r => if r.2 then liftOrPredicate r.1 else pure r.1
  have he : rewrite (.node .op op sx sv children) = rewriteOp (.node .op op sx sv children) >>= lift := by
    simp [rewrite, lift]
  by_cases ho : hasOrPredicate (.node .op op sx sv children) = true
  · obtain ⟨ds, k, hk, hd⟩ := h.collectOrOperators_takes
    have hj := newParseNode_takes .op .or sx ds
    rw [ho] at hn
    have hl : Takes (lift (.node .op op sx sv children, true)) (.node .op .or sx [] ds) (k + nodeBytes ds.length) :=
      (hk.bind hj).of_eq (by simp [lift, liftOrPredicate])
    exact ⟨_, _, (hn.bind hl).of_eq he, .disjunction hd⟩
  · have hf := Bool.eq_false_iff.mpr ho
    rw [hf] at hn
    have hl : Takes (lift (.node .op op sx sv children, false)) (.node .op op sx sv children) 0 :=
      (Allocates.pure _).of_eq (by simp [lift])
    exact ⟨_, n + 0, (hn.bind hl).of_eq he, .conjunction (h.conjunction hf)⟩

end IsWhere

end LevelPgServer
