import LevelPgServer.Common.QueryRewritter

namespace LevelPgServer.Predicate

open ParseNode QueryRewritter

/-- What one row says about the operands of a predicate: the sign of the comparison of
two of them, and whether the first contains the second. -/
structure Valuation where
  compare : ParseNode → ParseNode → Int
  like : ParseNode → ParseNode → Bool

def isComparison : Operation → Bool
  | .compEq | .compNe | .compLe | .compLt | .compGt | .compGe | .compLike => true
  | _ => false

/-- How a comparison operator reads the sign `n`. -/
def test (op : Operation) (n : Int) : Bool :=
  match op with
  | .compEq => n == 0
  | .compNe => n != 0
  | .compLe => n ≤ 0
  | .compLt => n < 0
  | .compGt => n > 0
  | .compGe => n ≥ 0
  | _ => false

def compareOperands (v : Valuation) (op : Operation) (l r : ParseNode) : Bool :=
  if op = .compLike then v.like l r else test op (v.compare l r)

def isOneOf (v : Valuation) (e : ParseNode) (cs : List ParseNode) : Bool :=
  cs.any (fun c => compareOperands v .compEq e c)

mutual

def holds (v : Valuation) : ParseNode → Bool
  | .null => false
  | .node _ op _ _ children =>
    match op with
    | .and => holdsAll v children
    | .or => holdsAny v children
    | .compIn =>
      isOneOf v (children.getD 0 .null) (collectElements (bytes "ValueList") (children.getD 1 .null))
    | .compNotIn =>
      !isOneOf v (children.getD 0 .null) (collectElements (bytes "ValueList") (children.getD 1 .null))
    | _ => compareOperands v op (children.getD 0 .null) (children.getD 1 .null)

def holdsAll (v : Valuation) : List ParseNode → Bool
  | [] => true
  | c :: cs => holds v c && holdsAll v cs

def holdsAny (v : Valuation) : List ParseNode → Bool
  | [] => false
  | c :: cs => holds v c || holdsAny v cs

end

theorem holdsAny_eq_any (v : Valuation) (cs : List ParseNode) :
    holdsAny v cs = cs.any (holds v) := by
  induction cs with
  | nil => rfl
  | cons c cs ih => simp [holdsAny, ih]

theorem holds_comparison (v : Valuation) (t : NodeType) (op : Operation) (hop : isComparison op = true)
    (sx sv : Bytes) (l r : ParseNode) :
    holds v (.node t op sx sv [l, r]) = compareOperands v op l r := by
  cases op <;> simp [isComparison] at hop <;> simp [holds]

@[simp] theorem holds_and (v : Valuation) (t : NodeType) (sx sv : Bytes) (l r : ParseNode) :
    holds v (.node t .and sx sv [l, r]) = (holds v l && holds v r) := by
  simp [holds, holdsAll]

@[simp] theorem holds_or (v : Valuation) (t : NodeType) (sx sv : Bytes) (cs : List ParseNode) :
    holds v (.node t .or sx sv cs) = cs.any (holds v) := by
  simp [holds, holdsAny_eq_any]

/-- The right-recursive list the grammar builds for the constants of an IN. -/
inductive IsValueList : ParseNode → List ParseNode → Prop
  | single {sx : Bytes} {c : ParseNode} (hc : c.isConst = true) :
      IsValueList (.node .list .none sx (bytes "ValueList") [c]) [c]
  | cons {sx : Bytes} {c : ParseNode} {rest : ParseNode} {cs : List ParseNode}
      (hc : c.isConst = true) (hr : IsValueList rest cs) :
      IsValueList (.node .list .none sx (bytes "ValueList") [c, rest]) (c :: cs)

theorem collectElements_const (sName : Bytes) (c : ParseNode) (hc : c.isConst = true) :
    collectElements sName c = [c] := by
  cases c with
  | null => rfl
  | node t op sx sv cs =>
    have ht : t ≠ .list := by rintro rfl; simp [isConst] at hc
    simp [collectElements, ht]

theorem IsValueList.collect {list : ParseNode} {cs : List ParseNode} (h : IsValueList list cs) :
    collectElements (bytes "ValueList") list = cs := by
  induction h with
  | single hc => simp [collectElements, collectElementsOf, collectElements_const _ _ hc]
  | cons hc _ ih => simp [collectElements, collectElementsOf, collectElements_const _ _ hc, ih]

theorem IsValueList.all_const {list : ParseNode} {cs : List ParseNode} (h : IsValueList list cs) :
    ∀ c ∈ cs, c.isConst = true := by
  induction h with
  | single hc => simpa using hc
  | cons hc _ ih => simpa using ⟨hc, ih⟩

theorem IsValueList.ne_nil {list : ParseNode} {cs : List ParseNode} (h : IsValueList list cs) :
    cs ≠ [] := by
  cases h <;> simp

def OrFree (p : ParseNode) : Prop := hasOrPredicate p = false

/-- The predicate trees of a WHERE or HAVING clause; `P` holds of every operand. -/
inductive IsPredicate (P : ParseNode → Prop) : ParseNode → Prop
  | comparison {op : Operation} {sx sv : Bytes} {l r : ParseNode} (hop : isComparison op = true)
      (hl : P l) (hr : P r) : IsPredicate P (.node .op op sx sv [l, r])
  | isIn {sx sv : Bytes} {e list : ParseNode} {cs : List ParseNode} (he : P e)
      (hlist : IsValueList list cs) (hcs : ∀ c ∈ cs, P c) :
      IsPredicate P (.node .op .compIn sx sv [e, list])
  | and {sx sv : Bytes} {p q : ParseNode} (hp : IsPredicate P p) (hq : IsPredicate P q) :
      IsPredicate P (.node .op .and sx sv [p, q])
  | or {sx sv : Bytes} {p q : ParseNode} (hp : IsPredicate P p) (hq : IsPredicate P q) :
      IsPredicate P (.node .op .or sx sv [p, q])

/-- The form `FilterPlan::setPredicate`, `KeySearchRange` and `buildUnionAll` assert. -/
def NormalForm (p : ParseNode) : Prop :=
  OrFree p ∨ (p.type = .op ∧ p.getOp = .or ∧ 2 ≤ p.children.length ∧ ∀ c ∈ p.children, OrFree c)

end LevelPgServer.Predicate
