import LevelPgServer.Common.RewriteCorrect

namespace LevelPgServer.NotInRewrite

open BumpAlloc ParseNode QueryRewritter Predicate RewriteCorrect

abbrev AnyOperand : ParseNode → Prop := fun _ => True

/-- A neighbour in the surrounding predicate, with what `rewriteOp` makes of it. -/
structure Sibling where
  source : ParseNode
  target : ParseNode
  rewrites : RewritesTo AnyOperand source target

inductive Connective
  | and | or
  deriving DecidableEq, Repr

def Connective.op : Connective → Operation
  | and => .and
  | or => .or

def Connective.apply : Connective → Bool → Bool → Bool
  | and => Bool.and
  | or => Bool.or

/-- The ANDs and ORs around one node, with their texts and other children. -/
inductive Context
  | hole
  | left (k : Connective) (sExpr sValue : Bytes) (ctx : Context) (q : Sibling)
  | right (k : Connective) (sExpr sValue : Bytes) (q : Sibling) (ctx : Context)

def Context.fill (x : ParseNode) : Context → ParseNode
  | hole => x
  | left k sx sv ctx q => .node .op k.op sx sv [ctx.fill x, q.source]
  | right k sx sv q ctx => .node .op k.op sx sv [q.source, ctx.fill x]

/-- The truth of the whole predicate at a row where the filled-in node is worth `b`. -/
def Context.holds (v : Valuation) (b : Bool) : Context → Bool
  | hole => b
  | left k _ _ ctx q => k.apply (ctx.holds v b) (Predicate.holds v q.target)
  | right k _ _ q ctx => k.apply (Predicate.holds v q.target) (ctx.holds v b)

theorem rewritesTo_connective (k : Connective) {sx sv : Bytes} {p q p' q' : ParseNode}
    (hp : RewritesTo AnyOperand p p') (hq : RewritesTo AnyOperand q q') :
    RewritesTo AnyOperand (.node .op k.op sx sv [p, q]) (.node .op k.op sx sv [p', q']) := by
  cases k with
  | and => exact rewritesTo_and hp hq
  | or => exact rewritesTo_or hp hq

theorem holds_connective (v : Valuation) (k : Connective) (sx sv : Bytes) (p q : ParseNode) :
    holds v (.node .op k.op sx sv [p, q]) = k.apply (holds v p) (holds v q) := by
  cases k <;> simp [Connective.op, Connective.apply]

theorem fill_rewritesTo {x y : ParseNode} (h : RewritesTo AnyOperand x y) (ctx : Context) :
    ∃ z, RewritesTo AnyOperand (ctx.fill x) z ∧ ∀ v, holds v z = ctx.holds v (holds v y) := by
  induction ctx with
  | hole => exact ⟨y, h, fun v => rfl⟩
  | left k sx sv ctx q ih =>
    obtain ⟨z, hz, hv⟩ := ih
    refine ⟨_, rewritesTo_connective k hz q.rewrites, fun v => ?_⟩
    rw [holds_connective, hv, Context.holds]
  | right k sx sv q ctx ih =>
    obtain ⟨z, hz, hv⟩ := ih
    refine ⟨_, rewritesTo_connective k q.rewrites hz, fun v => ?_⟩
    rw [holds_connective, hv, Context.holds]

theorem fill_isOp {x : ParseNode} (hx : ∃ op sx sv cs, x = .node .op op sx sv cs) (ctx : Context) :
    ∃ op sx sv cs, ctx.fill x = .node .op op sx sv cs := by
  cases ctx with
  | hole => exact hx
  | left | right => exact ⟨_, _, _, _, rfl⟩

/-- Normalising the surrounding predicate keeps the meaning `rewriteOp` gave the node inside. -/
theorem rewrite_fill {op : Operation} {sx sv : Bytes} {cs : List ParseNode} {y r : ParseNode}
    (h : RewritesTo AnyOperand (.node .op op sx sv cs) y) (ctx : Context) {cur cur' : Nat}
    (hcur : cur ≤ blockSize) (hr : rewrite (ctx.fill (.node .op op sx sv cs)) cur = .ok r cur') (v : Valuation) :
    holds v r = ctx.holds v (holds v y) := by
  obtain ⟨z, hz, hv⟩ := fill_rewritesTo h ctx
  obtain ⟨op', sx', sv', cs', he⟩ := fill_isOp ⟨op, sx, sv, cs, rfl⟩ ctx
  rw [he] at hz hr
  obtain ⟨r', n, hn, hm, -⟩ := rewrite_of_rewritesTo hz
  obtain ⟨rfl, -⟩ := hn.unique hcur hr
  rw [hm, hv]

def inNode (isIn : Bool) (sx sv : Bytes) (e list : ParseNode) : ParseNode :=
  .node .op (if isIn then .compIn else .compNotIn) sx sv [e, list]

/-- `e` differs from every constant at the row of `v`. -/
def differsFromAll (v : Valuation) (e : ParseNode) (cs : List ParseNode) : Bool :=
  cs.all (fun c => !compareOperands v .compEq e c)

def equalsAll (v : Valuation) (e : ParseNode) (cs : List ParseNode) : Bool :=
  cs.all (fun c => compareOperands v .compEq e c)

/-- What a NOT IN has to mean at a row: alone, beside the IN with the same list, and
after normalisation inside any predicate. -/
structure MeansNotIn (v : Valuation) (sx sv : Bytes) (e list : ParseNode) (cs : List ParseNode)
    (notIn isIn : ParseNode) : Prop where
  differs : holds v notIn = differsFromAll v e cs
  negates : holds v notIn = !holds v isIn
  inContext : ∀ (ctx : Context) (cur cur' : Nat) (r : ParseNode), cur ≤ blockSize →
    rewrite (ctx.fill (inNode false sx sv e list)) cur = .ok r cur' →
      holds v r = ctx.holds v (differsFromAll v e cs)

theorem rewriteInOrNotIn_returns {isIn : Bool} {sx sv : Bytes} {e list p : ParseNode} {cs : List ParseNode}
    {cur cur' : Nat} (hlist : IsValueList list cs) (hcur : cur ≤ blockSize)
    (h : rewriteInOrNotIn (inNode isIn sx sv e list) isIn cur = .ok p cur') :
    p = inOrNotIn sx e isIn cs := by
  have hn := rewriteInOrNotIn_takes .op (if isIn then .compIn else .compNotIn) sx sv e list cs isIn hlist
  exact (hn.unique hcur h).1

theorem holds_notIn (v : Valuation) (sx : Bytes) (e : ParseNode) (cs : List ParseNode) :
    holds v (inOrNotIn sx e false cs) = !equalsAll v e cs := by
  rw [holds_inOrNotIn, equalsAll, List.not_all_eq_any_not]
  simp [holds_elementNode_notIn]

theorem holds_isIn (v : Valuation) (sx : Bytes) (e : ParseNode) (cs : List ParseNode) :
    holds v (inOrNotIn sx e true cs) = !differsFromAll v e cs := by
  rw [holds_inOrNotIn, differsFromAll, List.not_all_eq_any_not]
  simp [holds_elementNode]

theorem not_equalsAll_and_differsFromAll (v : Valuation) (e : ParseNode) (cs : List ParseNode) (hne : cs ≠ []) :
    ¬ (equalsAll v e cs = true ∧ differsFromAll v e cs = true) := by
  obtain ⟨c, cs, rfl⟩ := List.exists_cons_of_ne_nil hne
  rintro ⟨he, hd⟩
  simp only [equalsAll, differsFromAll, List.all_cons, Bool.and_eq_true] at he hd
  simp [he.1] at hd

/-- The OR that `rewriteInOrNotIn` builds for a NOT IN means NOT IN at exactly the
rows where the expression equals all the constants or none of them. -/
theorem meansNotIn_iff (v : Valuation) (sx sv : Bytes) (e list : ParseNode) (cs : List ParseNode)
    (hlist : IsValueList list cs) (notIn isIn : ParseNode) (cur cur₁ cur₂ : Nat) (hcur : cur ≤ blockSize)
    (hnot : rewriteInOrNotIn (inNode false sx sv e list) false cur = .ok notIn cur₁)
    (hin : rewriteInOrNotIn (inNode true sx sv e list) true cur = .ok isIn cur₂) :
    MeansNotIn v sx sv e list cs notIn isIn ↔ equalsAll v e cs = true ∨ differsFromAll v e cs = true := by
  obtain rfl := rewriteInOrNotIn_returns hlist hcur hnot
  obtain rfl := rewriteInOrNotIn_returns hlist hcur hin
  have hex := not_equalsAll_and_differsFromAll v e cs hlist.ne_nil
  have hiff : (!equalsAll v e cs) = differsFromAll v e cs ↔
      equalsAll v e cs = true ∨ differsFromAll v e cs = true := by
    cases he : equalsAll v e cs <;> cases hd : differsFromAll v e cs <;> simp_all
  constructor
  · intro h
    have hd := h.differs
    rw [holds_notIn] at hd
    exact hiff.mp hd
  · intro h
    have hd : holds v (inOrNotIn sx e false cs) = differsFromAll v e cs := by
      rw [holds_notIn]
      exact hiff.mpr h
    refine ⟨hd, by rw [hd, holds_isIn, Bool.not_not], fun ctx cur cur' r hc hr => ?_⟩
    have hto : RewritesTo AnyOperand (inNode false sx sv e list) (inOrNotIn sx e false cs) :=
      @rewritesTo_in _ _ false _ _ _ _ _ rfl trivial hlist (fun _ _ => trivial)
    rw [rewrite_fill hto ctx hc hr, hd]

/-- A row whose column equals the constant `1` and is below every other one. -/
def rowOne : Valuation where
  compare _ c := if c.getString = bytes "1" then 0 else -1
  like _ _ := false

def notInOneTwo : ParseNode := inOrNotIn [] (columnNode "a") false [intNode "1", intNode "2"]

def isInOneTwo : ParseNode := inOrNotIn [] (columnNode "a") true [intNode "1", intNode "2"]

theorem meansNotIn_iff_oneTwo :
    MeansNotIn rowOne [] [] (columnNode "a") oneTwo [intNode "1", intNode "2"] notInOneTwo isInOneTwo ↔
      equalsAll rowOne (columnNode "a") [intNode "1", intNode "2"] = true ∨
        differsFromAll rowOne (columnNode "a") [intNode "1", intNode "2"] = true :=
  meansNotIn_iff rowOne [] [] (columnNode "a") oneTwo [intNode "1", intNode "2"] isValueList_oneTwo
    notInOneTwo isInOneTwo 0 _ _ (Nat.zero_le _) rfl rfl

/-- `a NOT IN (1, 2)` holds at the row with `a = 1`. -/
theorem notIn_oneTwo_at_one :
    (∃ cur, rewriteInOrNotIn (inNode false [] [] (columnNode "a") oneTwo) false 0 = .ok notInOneTwo cur) ∧
      ¬ MeansNotIn rowOne [] [] (columnNode "a") oneTwo [intNode "1", intNode "2"] notInOneTwo isInOneTwo := by
  refine ⟨⟨_, rfl⟩, fun h => ?_⟩
  have hd : holds rowOne notInOneTwo = differsFromAll rowOne (columnNode "a") [intNode "1", intNode "2"] := h.differs
  exact absurd hd (by decide)

end LevelPgServer.NotInRewrite
