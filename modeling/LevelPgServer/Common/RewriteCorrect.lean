import LevelPgServer.Common.Predicate

namespace LevelPgServer.RewriteCorrect

open BumpAlloc ParseNode QueryRewritter Predicate

/-- The computation takes `n` bytes of the parse buffer and returns `a`. -/
abbrev Takes {α : Type} (m : ParseM α) (a : α) (n : Nat) : Prop :=
  Allocates blockSize notEnoughParseBuffer m a n

/-- The bytes of a node with `k` children. -/
def nodeBytes (k : Nat) : Nat := sizeofNode + k * sizeofPointer

theorem newParseNode_takes (type : NodeType) (op : Operation) (sx : Bytes) (cs : List ParseNode) :
    Takes (newParseNode type op sx cs) (.node type op sx [] cs) (nodeBytes cs.length) :=
  (Allocates.alloc _).bind_pure rfl

theorem concate_takes (parts : List Bytes) : Takes (concate parts) parts.flatten parts.flatten.length :=
  (Allocates.alloc _).bind_pure rfl

theorem rewriteList_takes (list : ParseNode) :
    Takes (rewriteList list) (.node .list .none list.sExpr list.getString (collectElements list.getString list))
      (nodeBytes (collectElements list.getString list).length) :=
  (newParseNode_takes .list .none list.sExpr _).bind_pure rfl

/-- The comparison that stands for one element of an IN list. -/
def elementNode (e : ParseNode) (isIn : Bool) (c : ParseNode) : ParseNode :=
  .node .op (if isIn then .compEq else .compNe)
    [e.sExpr, bytes (if isIn then "=" else "!="), c.sExpr].flatten [] [e, c]

/-- The bytes of the comparison with one element: its text, and the node. -/
def elementBytes (e : ParseNode) (isIn : Bool) (c : ParseNode) : Nat :=
  [e.sExpr, bytes (if isIn then "=" else "!="), c.sExpr].flatten.length + nodeBytes 2

theorem rewriteElement_takes (e : ParseNode) (isIn : Bool) (c : ParseNode) (hc : c.isConst = true) :
    Takes (rewriteElement e isIn c) (elementNode e isIn c) (elementBytes e isIn c) := by
  have hn := concate_takes [e.sExpr, bytes (if isIn then "=" else "!="), c.sExpr]
  have hk := newParseNode_takes .op (if isIn then .compEq else .compNe)
    [e.sExpr, bytes (if isIn then "=" else "!="), c.sExpr].flatten [e, c]
  have hb := hn.bind (f := fun sx => newExprNode (if isIn then .compEq else .compNe) sx [e, c]) hk
  exact hb.of_eq (by simp [rewriteElement, hc])

theorem rewriteElements_takes (e : ParseNode) (isIn : Bool) (cs : List ParseNode)
    (hcs : ∀ c ∈ cs, c.isConst = true) :
    Takes (rewriteElements e isIn cs) (cs.map (elementNode e isIn)) (cs.map (elementBytes e isIn)).sum := by
  induction cs with
  | nil => exact Allocates.pure _
  | cons c cs ih =>
    have hn := rewriteElement_takes e isIn c (hcs c (by simp))
    have hk := ih (fun d hd => hcs d (by simp [hd]))
    exact hn.bind (hk.bind_pure rfl)

/-- The predicate `rewriteInOrNotIn` leaves: one comparison, or their OR. -/
def inOrNotIn (sx : Bytes) (e : ParseNode) (isIn : Bool) (cs : List ParseNode) : ParseNode :=
  match cs.map (elementNode e isIn) with
  | [p] => p
  | ps => .node .op .or sx [] ps

/-- The bytes that replacing an IN takes: the flat list, the comparisons, and the OR over two or more of them. -/
def inBytes (e : ParseNode) (isIn : Bool) (cs : List ParseNode) : Nat :=
  nodeBytes cs.length + ((cs.map (elementBytes e isIn)).sum + if cs.length = 1 then 0 else nodeBytes cs.length)

theorem rewriteInOrNotIn_takes (t : NodeType) (op : Operation) (sx sv : Bytes) (e list : ParseNode)
    (cs : List ParseNode) (isIn : Bool) (hlist : IsValueList list cs) :
    Takes (rewriteInOrNotIn (.node t op sx sv [e, list]) isIn) (inOrNotIn sx e isIn cs) (inBytes e isIn cs) := by
  have hs : list.getString = bytes "ValueList" := by cases hlist <;> rfl
  have hn := rewriteList_takes list
  rw [hs, hlist.collect] at hn
  have hk := rewriteElements_takes e isIn cs hlist.all_const
  have hlen : (cs.map (elementNode e isIn)).length = cs.length := List.length_map _
  unfold inOrNotIn inBytes
  split
  · next p hp =>
    rw [hp] at hk hlen
    have hone : cs.length = 1 := hlen.symm
    rw [if_pos hone]
    exact hn.bind (hk.bind_pure rfl)
  · next hp =>
    have hne : cs.length ≠ 1 := by
      intro hone
      obtain ⟨p, hp'⟩ := List.length_eq_one_iff.mp (hlen.trans hone)
      exact hp p hp'
    have hj := newParseNode_takes .op .or sx (cs.map (elementNode e isIn))
    rw [hlen] at hj
    rw [if_neg hne]
    refine hn.bind (hk.bind (hj.of_eq ?_))
    split
    · next p h => exact absurd h (hp p)
    · rfl

def inElements (children : List ParseNode) : List ParseNode :=
  collectElements (bytes "ValueList") (children.getD 1 .null)

mutual

/-- The number of disjuncts that a predicate has when its ORs are lifted. -/
def disjuncts : ParseNode → Nat
  | .null => 1
  | .node _ op _ _ children =>
    match op with
    | .and => mulDisjuncts children
    | .or => addDisjuncts children
    | .compIn | .compNotIn => (inElements children).length
    | _ => 1

def mulDisjuncts : List ParseNode → Nat
  | [] => 1
  | c :: cs => disjuncts c * mulDisjuncts cs

def addDisjuncts : List ParseNode → Nat
  | [] => 0
  | c :: cs => disjuncts c + addDisjuncts cs

end

mutual

/-- The bytes that replacing the INs of a predicate takes. -/
def replaceBytes : ParseNode → Nat
  | .null => 0
  | .node _ op _ _ children =>
    match op with
    | .and | .or => replaceBytesOf children
    | .compIn => inBytes (children.getD 0 .null) true (inElements children)
    | .compNotIn => inBytes (children.getD 0 .null) false (inElements children)
    | _ => 0

def replaceBytesOf : List ParseNode → Nat
  | [] => 0
  | c :: cs => replaceBytes c + replaceBytesOf cs

end

mutual

/-- The bytes of the ANDs that distributing over the ORs of a predicate makes. -/
def distributeBytes : ParseNode → Nat
  | .null => 0
  | .node _ op _ _ children =>
    match op with
    | .and => if mulDisjuncts children = 1 then 0 else distributeBytesOf children + mulDisjuncts children * nodeBytes 2
    | .or => distributeBytesOf children
    | _ => 0

def distributeBytesOf : List ParseNode → Nat
  | [] => 0
  | c :: cs => distributeBytes c + distributeBytesOf cs

end

def rewriteBytes (p : ParseNode) : Nat :=
  replaceBytes p + if disjuncts p = 1 then 0 else distributeBytes p + nodeBytes (disjuncts p)

theorem disjuncts_and (t : NodeType) (sx sv : Bytes) (p q : ParseNode) :
    disjuncts (.node t .and sx sv [p, q]) = disjuncts p * disjuncts q := by
  simp [disjuncts, mulDisjuncts]

theorem disjuncts_comparison {op : Operation} (hop : isComparison op = true) (t : NodeType) (sx sv : Bytes)
    (cs : List ParseNode) : disjuncts (.node t op sx sv cs) = 1 := by
  cases op <;> first | rfl | cases hop

theorem distributeBytes_and (t : NodeType) (sx sv : Bytes) (p q : ParseNode) :
    distributeBytes (.node t .and sx sv [p, q]) = if disjuncts p * disjuncts q = 1 then 0 else
      distributeBytes p + distributeBytes q + disjuncts p * disjuncts q * nodeBytes 2 := by
  simp [distributeBytes, distributeBytesOf, mulDisjuncts]

theorem distributeBytes_comparison {op : Operation} (hop : isComparison op = true) (t : NodeType) (sx sv : Bytes)
    (cs : List ParseNode) : distributeBytes (.node t op sx sv cs) = 0 := by
  cases op <;> first | rfl | cases hop

theorem addDisjuncts_eq_sum (cs : List ParseNode) : addDisjuncts cs = (cs.map disjuncts).sum := by
  induction cs with
  | nil => rfl
  | cons c cs ih => rw [addDisjuncts, ih, List.map_cons, List.sum_cons]

theorem distributeBytesOf_eq_sum (cs : List ParseNode) : distributeBytesOf cs = (cs.map distributeBytes).sum := by
  induction cs with
  | nil => rfl
  | cons c cs ih => rw [distributeBytesOf, ih, List.map_cons, List.sum_cons]

variable {P : ParseNode → Prop}

/-- A predicate tree in which every IN has been replaced; `P` holds of every operand. -/
inductive IsRewritten (P : ParseNode → Prop) : ParseNode → Prop
  | comparison {op : Operation} {sx sv : Bytes} {l r : ParseNode} (hop : isComparison op = true)
      (hl : P l) (hr : P r) : IsRewritten P (.node .op op sx sv [l, r])
  | and {sx sv : Bytes} {p q : ParseNode} (hp : IsRewritten P p) (hq : IsRewritten P q) :
      IsRewritten P (.node .op .and sx sv [p, q])
  | or {sx sv : Bytes} {cs : List ParseNode} (hcs : ∀ c ∈ cs, IsRewritten P c) (hlen : 2 ≤ cs.length) :
      IsRewritten P (.node .op .or sx sv cs)

theorem holds_elementNode (v : Valuation) (e c : ParseNode) :
    holds v (elementNode e true c) = compareOperands v .compEq e c :=
  holds_comparison v _ _ rfl _ _ _ _

theorem holds_elementNode_notIn (v : Valuation) (e c : ParseNode) :
    holds v (elementNode e false c) = !compareOperands v .compEq e c := by
  rw [elementNode, holds_comparison v _ _ rfl]
  simp [compareOperands, test, bne]

theorem holds_inOrNotIn (v : Valuation) (sx : Bytes) (e : ParseNode) (isIn : Bool) (cs : List ParseNode) :
    holds v (inOrNotIn sx e isIn cs) = cs.any (fun c => holds v (elementNode e isIn c)) := by
  have hm : cs.any (fun c => holds v (elementNode e isIn c)) =
      (cs.map (elementNode e isIn)).any (holds v) := by rw [List.any_map]; rfl
  rw [hm]
  unfold inOrNotIn
  split
  · next p hp => simp [hp]
  · exact holds_or v _ _ _ _

theorem isRewritten_inOrNotIn {sx : Bytes} {e : ParseNode} (isIn : Bool) {cs : List ParseNode}
    (he : P e) (hcs : ∀ c ∈ cs, P c) (hne : cs ≠ []) : IsRewritten P (inOrNotIn sx e isIn cs) := by
  have hall : ∀ p ∈ cs.map (elementNode e isIn), IsRewritten P p := by
    intro p hp
    obtain ⟨c, hc, rfl⟩ := List.mem_map.mp hp
    exact .comparison (by cases isIn <;> rfl) he (hcs c hc)
  unfold inOrNotIn
  split
  · next p hp => exact hall p (by simp [hp])
  · next hp =>
    refine .or hall ?_
    match cs, hne, hp with
    | [c], _, hp => exact absurd rfl (hp _)
    | c :: d :: cs, _, _ => simp

theorem orFree_comparison {op : Operation} {sx sv : Bytes} {l r : ParseNode} {t : NodeType}
    (hop : op ≠ .or) (hl : OrFree l) (hr : OrFree r) : OrFree (.node t op sx sv [l, r]) := by
  rw [OrFree] at hl hr
  simp [OrFree, hasOrPredicate, anyHasOrPredicate, hl, hr, hop]

theorem getOp_inOrNotIn (sx : Bytes) (e : ParseNode) (isIn : Bool) (cs : List ParseNode)
    (he : OrFree e) (hcs : ∀ c ∈ cs, OrFree c) :
    ((inOrNotIn sx e isIn cs).getOp == .or) = hasOrPredicate (inOrNotIn sx e isIn cs) := by
  unfold inOrNotIn
  split
  · next p hp =>
    have hm : p ∈ cs.map (elementNode e isIn) := by rw [hp]; exact List.mem_singleton_self p
    obtain ⟨c, hc, rfl⟩ := List.mem_map.mp hm
    have hop : (if isIn then Operation.compEq else Operation.compNe) ≠ .or := by cases isIn <;> decide
    rw [elementNode, orFree_comparison hop he (hcs c hc)]
    cases isIn <;> rfl
  · simp [hasOrPredicate]

/-- `rewriteOp` turns `p` into `q`, which has the disjuncts of `p`. When no operand hides an OR, the
flag it returns says whether `q` contains one. -/
structure RewritesTo (P : ParseNode → Prop) (p q : ParseNode) : Prop where
  rewritten : IsRewritten P q
  takes : ∃ hasOr, Takes (rewriteOp p) (q, hasOr) (replaceBytes p) ∧
    ((∀ x, P x → OrFree x) → hasOr = hasOrPredicate q)
  disjuncts_eq : disjuncts q = disjuncts p
  distributeBytes_eq : distributeBytes q = distributeBytes p

theorem rewritesTo_comparison {op : Operation} {sx sv : Bytes} {l r : ParseNode}
    (hop : isComparison op = true) (hl : P l) (hr : P r) :
    RewritesTo P (.node .op op sx sv [l, r]) (.node .op op sx sv [l, r]) where
  rewritten := .comparison hop hl hr
  takes := by
    have hne : op ≠ .or := by rintro rfl; simp [isComparison] at hop
    have hzero : replaceBytes (.node .op op sx sv [l, r]) = 0 := by
      cases op <;> first | rfl | cases hop
    refine ⟨false, ?_, fun hP => ?_⟩
    · rw [hzero]
      refine (Allocates.pure _).of_eq ?_
      cases op <;> simp [isComparison] at hop <;> rfl
    · exact (orFree_comparison hne (hP l hl) (hP r hr)).symm
  disjuncts_eq := rfl
  distributeBytes_eq := rfl

theorem disjuncts_inOrNotIn (sx : Bytes) (e : ParseNode) (isIn : Bool) (cs : List ParseNode) :
    disjuncts (inOrNotIn sx e isIn cs) = cs.length := by
  have hone : disjuncts ∘ elementNode e isIn = fun _ => 1 := by
    funext c
    cases isIn <;> rfl
  have hlen : (cs.map (elementNode e isIn)).length = cs.length := List.length_map _
  unfold inOrNotIn
  split
  · next p hp =>
    obtain ⟨c, rfl, rfl⟩ := List.map_eq_singleton_iff.mp hp
    exact congrFun hone c
  · rw [disjuncts, addDisjuncts_eq_sum, List.map_map, hone]
    simp

theorem distributeBytes_inOrNotIn (sx : Bytes) (e : ParseNode) (isIn : Bool) (cs : List ParseNode) :
    distributeBytes (inOrNotIn sx e isIn cs) = 0 := by
  have hzero : distributeBytes ∘ elementNode e isIn = fun _ => 0 := by
    funext c
    cases isIn <;> rfl
  unfold inOrNotIn
  split
  · next p hp =>
    obtain ⟨c, rfl, rfl⟩ := List.map_eq_singleton_iff.mp hp
    exact congrFun hzero c
  · rw [distributeBytes, distributeBytesOf_eq_sum, List.map_map, hzero]
    simp

theorem rewritesTo_in {op : Operation} {isIn : Bool} {sx sv : Bytes} {e list : ParseNode}
    {cs : List ParseNode} (hop : op = if isIn then .compIn else .compNotIn) (he : P e)
    (hlist : IsValueList list cs) (hcs : ∀ c ∈ cs, P c) :
    RewritesTo P (.node .op op sx sv [e, list]) (inOrNotIn sx e isIn cs) where
  rewritten := isRewritten_inOrNotIn isIn he hcs hlist.ne_nil
  takes := by
    have hn := rewriteInOrNotIn_takes .op op sx sv e list cs isIn hlist
    have hbytes : replaceBytes (.node .op op sx sv [e, list]) = inBytes e isIn cs := by
      subst hop
      rw [← hlist.collect]
      cases isIn <;> rfl
    refine ⟨(inOrNotIn sx e isIn cs).getOp == .or, ?_, fun hP => ?_⟩
    · have hb := hn.bind_pure (f := fun p => pure (p, p.getOp == .or)) rfl
      rw [hbytes]
      exact hb.of_eq (by cases isIn <;> subst hop <;> rfl)
    · exact getOp_inOrNotIn sx e isIn cs (hP e he) (fun c hc => hP c (hcs c hc))
  disjuncts_eq := by
    subst hop
    rw [disjuncts_inOrNotIn, ← hlist.collect]
    cases isIn <;> rfl
  distributeBytes_eq := by
    subst hop
    rw [distributeBytes_inOrNotIn]
    cases isIn <;> rfl

theorem rewriteOps_cons {p p' : ParseNode} {ps ps' : List ParseNode} {b bs : Bool} {n k : Nat}
    (hp : Takes (rewriteOp p) (p', b) n) (hps : Takes (rewriteOps ps) (ps', bs) k) :
    Takes (rewriteOps (p :: ps)) (p' :: ps', b || bs) (n + k) :=
  hp.bind (hps.bind_pure (f := fun r => pure (p' :: r.1, b || r.2)) rfl)

theorem rewriteOps_pair {p q p' q' : ParseNode} (hp : RewritesTo P p p') (hq : RewritesTo P q q') :
    ∃ b, Takes (rewriteOps [p, q]) ([p', q'], b) (replaceBytesOf [p, q]) ∧
      ((∀ x, P x → OrFree x) → b = anyHasOrPredicate [p', q']) := by
  obtain ⟨b, hn, hb⟩ := hp.takes
  obtain ⟨c, hk, hc⟩ := hq.takes
  have hnil : Takes (rewriteOps []) ([], false) 0 := Allocates.pure _
  refine ⟨b || (c || false), rewriteOps_cons hn (rewriteOps_cons hk hnil), fun hP => ?_⟩
  rw [hb hP, hc hP]
  rfl

theorem rewritesTo_and {sx sv : Bytes} {p q p' q' : ParseNode} (hp : RewritesTo P p p')
    (hq : RewritesTo P q q') :
    RewritesTo P (.node .op .and sx sv [p, q]) (.node .op .and sx sv [p', q']) where
  rewritten := .and hp.rewritten hq.rewritten
  takes := by
    obtain ⟨b, hn, hb⟩ := rewriteOps_pair hp hq
    exact ⟨b, hn.bind_pure rfl, fun hP => by rw [hb hP]; rfl⟩
  disjuncts_eq := by rw [disjuncts_and, disjuncts_and, hp.disjuncts_eq, hq.disjuncts_eq]
  distributeBytes_eq := by
    rw [distributeBytes_and, distributeBytes_and, hp.disjuncts_eq, hq.disjuncts_eq, hp.distributeBytes_eq,
      hq.distributeBytes_eq]

theorem rewritesTo_or {sx sv : Bytes} {p q p' q' : ParseNode} (hp : RewritesTo P p p')
    (hq : RewritesTo P q q') :
    RewritesTo P (.node .op .or sx sv [p, q]) (.node .op .or sx sv [p', q']) where
  rewritten := .or (by simp [hp.rewritten, hq.rewritten]) le_rfl
  takes := by
    obtain ⟨b, hn, -⟩ := rewriteOps_pair hp hq
    exact ⟨true, hn.bind_pure rfl, fun _ => by simp [hasOrPredicate]⟩
  disjuncts_eq := by simp [disjuncts, addDisjuncts, hp.disjuncts_eq, hq.disjuncts_eq]
  distributeBytes_eq := by simp [distributeBytes, distributeBytesOf, hp.distributeBytes_eq, hq.distributeBytes_eq]

/-- `rewriteOp` replaces every IN and keeps the meaning. -/
theorem rewriteOp_correct (p : ParseNode) (h : IsPredicate P p) :
    ∃ q, RewritesTo P p q ∧ ∀ v, holds v q = holds v p := by
  induction h with
  | comparison hop hl hr => exact ⟨_, rewritesTo_comparison hop hl hr, fun v => rfl⟩
  | isIn he hlist hcs =>
    refine ⟨_, @rewritesTo_in _ _ true _ _ _ _ _ rfl he hlist hcs, fun v => ?_⟩
    rw [holds_inOrNotIn]
    simp [holds, hlist.collect, isOneOf, holds_elementNode]
  | and _ _ ihp ihq =>
    obtain ⟨p', hp, hvp⟩ := ihp
    obtain ⟨q', hq, hvq⟩ := ihq
    exact ⟨_, rewritesTo_and hp hq, fun v => by simp [hvp, hvq]⟩
  | or _ _ ihp ihq =>
    obtain ⟨p', hp, hvp⟩ := ihp
    obtain ⟨q', hq, hvq⟩ := ihq
    exact ⟨_, rewritesTo_or hp hq, fun v => by simp [hvp, hvq]⟩

/-- The node the double loop makes for one pair of disjuncts. -/
def andNode (l r : ParseNode) : ParseNode := .node .op .and [] [] [l, r]

theorem andWithEach_takes (l : ParseNode) (rs : List ParseNode) :
    Takes (andWithEach l rs) (rs.map (andNode l)) (rs.length * nodeBytes 2) := by
  induction rs with
  | nil => exact (Nat.zero_mul (nodeBytes 2)).symm ▸ Allocates.pure _
  | cons r rs ih =>
    have hn := newParseNode_takes .op .and [] [l, r]
    have hsize : (r :: rs).length * nodeBytes 2 = nodeBytes 2 + rs.length * nodeBytes 2 := by
      rw [List.length_cons, Nat.succ_mul, Nat.add_comm]
    rw [hsize]
    exact hn.bind (ih.bind_pure rfl)

theorem distribute_takes (rs ls : List ParseNode) :
    Takes (distribute rs ls) (ls.flatMap (fun l => rs.map (andNode l))) (ls.length * rs.length * nodeBytes 2) := by
  induction ls with
  | nil =>
    rw [List.length_nil, Nat.zero_mul, Nat.zero_mul]
    exact Allocates.pure _
  | cons l ls ih =>
    have hn := andWithEach_takes l rs
    have hsize : (l :: ls).length * rs.length * nodeBytes 2 =
        rs.length * nodeBytes 2 + ls.length * rs.length * nodeBytes 2 := by
      rw [List.length_cons, Nat.succ_mul, Nat.add_mul, Nat.add_comm]
    rw [hsize]
    exact hn.bind (ih.bind_pure rfl)

theorem any_andNode (v : Valuation) (l : ParseNode) (rs : List ParseNode) :
    (rs.map (andNode l)).any (holds v) = (holds v l && rs.any (holds v)) := by
  induction rs with
  | nil => simp
  | cons r rs ih =>
    rw [List.map_cons, List.any_cons, List.any_cons, ih, andNode, holds_and]
    cases holds v l <;> simp

theorem any_distribute (v : Valuation) (ls rs : List ParseNode) :
    (ls.flatMap (fun l => rs.map (andNode l))).any (holds v) = (ls.any (holds v) && rs.any (holds v)) := by
  induction ls with
  | nil => simp
  | cons l ls ih =>
    rw [List.flatMap_cons, List.any_append, ih, any_andNode, List.any_cons]
    cases holds v l <;> cases rs.any (holds v) <;> simp

/-- What `collectOrOperators` returns for a predicate: disjuncts that together mean
the same, and that are free of OR when no operand hides one. -/
structure Disjuncts (P : ParseNode → Prop) (p : ParseNode) (ops : List ParseNode) (n : Nat) : Prop where
  takes : Takes (collectOrOperators p) ops n
  meaning : ∀ v, ops.any (holds v) = holds v p
  ne_nil : 1 ≤ ops.length
  orFree : (∀ x, P x → OrFree x) → ∀ o ∈ ops, OrFree o
  two : (∀ x, P x → OrFree x) → hasOrPredicate p = true → 2 ≤ ops.length
  count : (∀ x, P x → OrFree x) → ops.length = disjuncts p
  bytes : (∀ x, P x → OrFree x) → n = distributeBytes p

theorem Disjuncts.single {p : ParseNode} (htakes : Takes (collectOrOperators p) [p] 0)
    (h : (∀ x, P x → OrFree x) → OrFree p) (hone : disjuncts p = 1) (hzero : distributeBytes p = 0) :
    Disjuncts P p [p] 0 where
  takes := htakes
  meaning v := by simp
  ne_nil := le_rfl
  orFree hP := by simpa using h hP
  two hP ht := by rw [h hP] at ht; cases ht
  count _ := hone.symm
  bytes _ := hzero.symm

theorem two_of_or {sx sv : Bytes} {p q : ParseNode} {m n : Nat}
    (hp : (∀ x, P x → OrFree x) → hasOrPredicate p = true → 2 ≤ m)
    (hq : (∀ x, P x → OrFree x) → hasOrPredicate q = true → 2 ≤ n) (hm : 1 ≤ m) (hn : 1 ≤ n)
    (hP : ∀ x, P x → OrFree x) (h : hasOrPredicate (.node .op .and sx sv [p, q]) = true) : 2 ≤ m * n := by
  have ho : hasOrPredicate p = true ∨ hasOrPredicate q = true := by
    simpa [hasOrPredicate, anyHasOrPredicate] using h
  rcases ho with ho | ho
  · exact Nat.mul_le_mul (hp hP ho) hn
  · exact Nat.mul_le_mul hm (hq hP ho)

theorem length_pairs (ls rs : List ParseNode) :
    (ls.flatMap (fun l => rs.map (andNode l))).length = ls.length * rs.length := by
  simp [List.length_flatMap]

theorem Disjuncts.and {sx sv : Bytes} {p q : ParseNode} {ls rs : List ParseNode} {n k : Nat}
    (ho : hasOrPredicate (.node .op .and sx sv [p, q]) = true) (hl : Disjuncts P p ls n) (hr : Disjuncts P q rs k) :
    Disjuncts P (.node .op .and sx sv [p, q]) (ls.flatMap (fun l => rs.map (andNode l)))
      (n + (k + ls.length * rs.length * nodeBytes 2)) where
  takes := by
    have hb := hr.takes.bind (f := fun right => distribute right ls) (distribute_takes rs ls)
    have hc := hl.takes.bind (f := fun left => collectOrOperators q >>= fun right => distribute right left) hb
    exact hc.of_eq (by simp [collectOrOperators, ho])
  meaning v := by rw [any_distribute, hl.meaning, hr.meaning, holds_and]
  ne_nil := by
    rw [length_pairs]
    exact Nat.mul_le_mul hl.ne_nil hr.ne_nil
  orFree hP o ho := by
    obtain ⟨l, hlm, ho⟩ := List.mem_flatMap.mp ho
    obtain ⟨r, hrm, rfl⟩ := List.mem_map.mp ho
    exact orFree_comparison (by decide) (hl.orFree hP l hlm) (hr.orFree hP r hrm)
  two hP ht := by
    rw [length_pairs]
    exact two_of_or hl.two hr.two hl.ne_nil hr.ne_nil hP ht
  count hP := by rw [length_pairs, hl.count hP, hr.count hP, disjuncts_and]
  bytes hP := by
    have htwo := two_of_or hl.two hr.two hl.ne_nil hr.ne_nil hP ho
    rw [hl.count hP, hr.count hP] at htwo ⊢
    rw [distributeBytes_and, if_neg (by omega), hl.bytes hP, hr.bytes hP, Nat.add_assoc]

structure DisjunctsOf (P : ParseNode → Prop) (cs ops : List ParseNode) (n : Nat) : Prop where
  takes : Takes (collectOrOperatorsOf cs) ops n
  meaning : ∀ v, ops.any (holds v) = cs.any (holds v)
  length_le : cs.length ≤ ops.length
  orFree : (∀ x, P x → OrFree x) → ∀ o ∈ ops, OrFree o
  count : (∀ x, P x → OrFree x) → ops.length = addDisjuncts cs
  bytes : (∀ x, P x → OrFree x) → n = distributeBytesOf cs

theorem DisjunctsOf.nil : DisjunctsOf P [] [] 0 where
  takes := Allocates.pure _
  meaning _ := rfl
  length_le := le_rfl
  orFree _ _ ho := absurd ho List.not_mem_nil
  count _ := rfl
  bytes _ := rfl

theorem DisjunctsOf.cons {c : ParseNode} {cs ops rest : List ParseNode} {n k : Nat} (hd : Disjuncts P c ops n)
    (hs : DisjunctsOf P cs rest k) : DisjunctsOf P (c :: cs) (ops ++ rest) (n + k) where
  takes := hd.takes.bind (hs.takes.bind_pure rfl)
  meaning v := by rw [List.any_append, List.any_cons, hd.meaning, hs.meaning]
  length_le := by
    have hne := hd.ne_nil
    have hle := hs.length_le
    simp only [List.length_append, List.length_cons]
    omega
  orFree hP o hm := by
    rcases List.mem_append.mp hm with hm | hm
    · exact hd.orFree hP o hm
    · exact hs.orFree hP o hm
  count hP := by rw [List.length_append, hd.count hP, hs.count hP, addDisjuncts]
  bytes hP := by rw [hd.bytes hP, hs.bytes hP, distributeBytesOf]

theorem collectOrOperatorsOf_takes (cs : List ParseNode) (h : ∀ c ∈ cs, ∃ ops n, Disjuncts P c ops n) :
    ∃ ops n, DisjunctsOf P cs ops n := by
  induction cs with
  | nil => exact ⟨[], 0, .nil⟩
  | cons c cs ih =>
    obtain ⟨ops, n, hd⟩ := h c (by simp)
    obtain ⟨rest, k, hs⟩ := ih (fun d hm => h d (by simp [hm]))
    exact ⟨ops ++ rest, n + k, .cons hd hs⟩

/-- Where a rewritten predicate has no OR, it is its only disjunct. -/
theorem disjuncts_of_orFree {p : ParseNode} (h : IsRewritten P p) (hfree : OrFree p) : disjuncts p = 1 := by
  induction h with
  | comparison hop _ _ => exact disjuncts_comparison hop _ _ _ _
  | @and sx sv p q _ _ ihp ihq =>
    have hboth : hasOrPredicate p = false ∧ hasOrPredicate q = false := by
      simpa [OrFree, hasOrPredicate, anyHasOrPredicate] using hfree
    rw [disjuncts_and, ihp hboth.1, ihq hboth.2]
  | or _ _ => simp [OrFree, hasOrPredicate] at hfree

/-- The disjuncts of a rewritten predicate, by induction over its connectives. -/
theorem collectOrOperators_takes (p : ParseNode) (h : IsRewritten P p) : ∃ ops n, Disjuncts P p ops n := by
  induction h with
  | @comparison op sx sv l r hop hl hr =>
    have hne : op ≠ .or := by rintro rfl; simp [isComparison] at hop
    have hs : collectOrOperators (.node .op op sx sv [l, r]) = pure [.node .op op sx sv [l, r]] := by
      cases op <;> simp [isComparison] at hop <;> rfl
    exact ⟨_, 0, .single ((Allocates.pure _).of_eq hs) (fun hP => orFree_comparison hne (hP l hl) (hP r hr))
      (disjuncts_comparison hop _ _ _ _) (distributeBytes_comparison hop _ _ _ _)⟩
  | @and sx sv p q hp hq ihp ihq =>
    by_cases ho : hasOrPredicate (.node .op .and sx sv [p, q]) = true
    · obtain ⟨ls, n, hl⟩ := ihp
      obtain ⟨rs, k, hr⟩ := ihq
      exact ⟨_, _, hl.and ho hr⟩
    · have hf := Bool.eq_false_iff.mpr ho
      have hone := disjuncts_of_orFree (.and hp hq) hf
      refine ⟨_, 0, .single ((Allocates.pure _).of_eq (by simp [collectOrOperators, hf])) (fun _ => hf) hone ?_⟩
      rw [distributeBytes_and, ← disjuncts_and .op sx sv, if_pos hone]
  | @or sx sv cs _ hlen ih =>
    obtain ⟨ops, n, hs⟩ := collectOrOperatorsOf_takes cs ih
    have hle := hs.length_le
    exact ⟨ops, n, hs.takes, fun v => by rw [hs.meaning, holds_or], by omega, hs.orFree, fun _ _ => by omega, hs.count,
      hs.bytes⟩

theorem rewrite_of_rewritesTo {op : Operation} {sx sv : Bytes} {cs : List ParseNode} {q : ParseNode}
    (h : RewritesTo P (.node .op op sx sv cs) q) :
    ∃ r n, Takes (rewrite (.node .op op sx sv cs)) r n ∧ (∀ v, holds v r = holds v q) ∧
      ((∀ x, P x → OrFree x) → NormalForm r ∧ n = rewriteBytes (.node .op op sx sv cs)) := by
  obtain ⟨hasOr, hn, hb⟩ := h.takes
  let lift : ParseNode × Bool → ParseM ParseNode := fun r => if r.2 then liftOrPredicate r.1 else pure r.1
  have he : rewrite (.node .op op sx sv cs) = rewriteOp (.node .op op sx sv cs) >>= lift := by
    simp [rewrite, lift]
  cases hasOr with
  | true =>
    obtain ⟨ops, k, hd⟩ := collectOrOperators_takes q h.rewritten
    have hj := newParseNode_takes .op .or q.sExpr ops
    have hl : Takes (lift (q, true)) (.node .op .or q.sExpr [] ops) (k + nodeBytes ops.length) :=
      (hd.takes.bind hj).of_eq (by simp [lift, liftOrPredicate])
    refine ⟨_, _, (hn.bind hl).of_eq he, fun v => by rw [holds_or, hd.meaning], fun hP => ⟨?_, ?_⟩⟩
    · exact .inr ⟨rfl, rfl, hd.two hP (hb hP).symm, hd.orFree hP⟩
    · have htwo := hd.two hP (hb hP).symm
      rw [hd.count hP] at htwo ⊢
      rw [h.disjuncts_eq] at htwo ⊢
      rw [rewriteBytes, if_neg (by omega), hd.bytes hP, h.distributeBytes_eq]
  | false =>
    have hl : Takes (lift (q, false)) q 0 := (Allocates.pure q).of_eq (by simp [lift])
    refine ⟨q, _, (hn.bind hl).of_eq he, fun v => rfl, fun hP => ⟨.inl (hb hP).symm, ?_⟩⟩
    rw [rewriteBytes, ← h.disjuncts_eq, disjuncts_of_orFree h.rewritten (hb hP).symm, if_pos rfl]

/-- Every rewritten WHERE or HAVING predicate has the meaning of the one the client
wrote and is either free of OR or one OR of OR-free disjuncts. The rewriting takes
`rewriteBytes p` of the parse buffer; it fails, with that message, only where less is left. -/
theorem rewrite_correct (p : ParseNode) (h : IsPredicate OrFree p) :
    ∃ q, Takes (rewrite p) q (rewriteBytes p) ∧ (∀ v, holds v q = holds v p) ∧ NormalForm q := by
  obtain ⟨q, hq, hv⟩ := rewriteOp_correct p h
  have hop : ∃ op sx sv cs, p = .node .op op sx sv cs := by
    cases h <;> exact ⟨_, _, _, _, rfl⟩
  obtain ⟨op, sx, sv, cs, rfl⟩ := hop
  obtain ⟨r, n, hn, hr, hf⟩ := rewrite_of_rewritesTo hq
  obtain ⟨hform, rfl⟩ := hf fun _ hx => hx
  exact ⟨r, hn, fun v => (hr v).trans (hv v), hform⟩

def columnNode (name : String) : ParseNode := .node .name .none (bytes name) (bytes name) []

def intNode (digits : String) : ParseNode := .node .int .none (bytes digits) (bytes digits) []

/-- `1, 2` as the grammar builds it. -/
def oneTwo : ParseNode :=
  .node .list .none [] (bytes "ValueList") [intNode "1", .node .list .none [] (bytes "ValueList") [intNode "2"]]

theorem isValueList_oneTwo : IsValueList oneTwo [intNode "1", intNode "2"] := .cons rfl (.single rfl)

/-- `(a = 1 OR b = 2) AND a IN (1, 2)` -/
def orAndIn : ParseNode :=
  .node .op .and [] []
    [.node .op .or [] []
      [.node .op .compEq [] [] [columnNode "a", intNode "1"], .node .op .compEq [] [] [columnNode "b", intNode "2"]],
     .node .op .compIn [] [] [columnNode "a", oneTwo]]

theorem rewrite_correct_orAndIn :
    ∃ q, Takes (rewrite orAndIn) q (rewriteBytes orAndIn) ∧ (∀ v, holds v q = holds v orAndIn) ∧ NormalForm q :=
  rewrite_correct orAndIn
    (.and (.or (.comparison rfl rfl rfl) (.comparison rfl rfl rfl))
      (.isIn rfl isValueList_oneTwo (by
        intro c hc
        rcases List.mem_pair.mp hc with rfl | rfl <;> rfl)))

/-- `a = 1 OR b = 2` -/
def oneOrTwo : ParseNode :=
  .node .op .or [] []
    [.node .op .compEq [] [] [columnNode "a", intNode "1"], .node .op .compEq [] [] [columnNode "b", intNode "2"]]

/-- The AND of `k + 1` of them. -/
def allOneOrTwo : Nat → ParseNode
  | 0 => oneOrTwo
  | k + 1 => .node .op .and [] [] [oneOrTwo, allOneOrTwo k]

theorem isPredicate_allOneOrTwo (k : Nat) : IsPredicate OrFree (allOneOrTwo k) := by
  have hone : IsPredicate OrFree oneOrTwo := .or (.comparison rfl rfl rfl) (.comparison rfl rfl rfl)
  induction k with
  | zero => exact hone
  | succ k ih => exact .and hone ih

/-- The 4096 disjuncts of twelve ORs do not fit into the parse buffer. -/
theorem allOneOrTwo_not_rewritten :
    IsPredicate OrFree (allOneOrTwo 11) ∧ ∃ cur, rewrite (allOneOrTwo 11) 0 = .error notEnoughParseBuffer cur := by
  have hp := isPredicate_allOneOrTwo 11
  obtain ⟨q, hq, -⟩ := rewriteOp_correct _ hp
  obtain ⟨r, n, hn, -, hf⟩ := rewrite_of_rewritesTo hq
  obtain ⟨-, rfl⟩ := hf fun _ hx => hx
  have hlarge : blockSize < 0 + rewriteBytes (allOneOrTwo 11) := by decide
  exact ⟨hp, hn.overflows 0 (Nat.zero_le _) hlarge⟩

end LevelPgServer.RewriteCorrect
