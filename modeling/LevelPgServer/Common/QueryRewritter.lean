import LevelPgServer.Lib.BumpAlloc
import LevelPgServer.Common.ParseNode

namespace LevelPgServer.QueryRewritter

open ParseNode

/-- A computation on the parse buffer; the state is `m_iCurrent` of `ParseResult`. -/
abbrev ParseM := EStateM Exn Nat

def notEnoughParseBuffer : Exn := parseError "Not enough parse buffer"

/-- `ParseResult::alloc`. -/
def alloc (size : Nat) : ParseM Unit := BumpAlloc.alloc blockSize notEnoughParseBuffer size

def newParseNode (type : NodeType) (op : Operation) (sExpr : Bytes) (children : List ParseNode) :
    ParseM ParseNode := do
  alloc (sizeofNode + children.length * sizeofPointer)
  return node type op sExpr [] children

def newExprNode (op : Operation) (sExpr : Bytes) (children : List ParseNode) : ParseM ParseNode :=
  newParseNode .op op sExpr children

def concate (parts : List Bytes) : ParseM Bytes := do
  alloc parts.flatten.length
  return parts.flatten

mutual

def collectElements (sName : Bytes) : ParseNode → List ParseNode
  | .null => [.null]
  | .node type op sExpr sValue children =>
    if type = .list ∧ sValue = sName then collectElementsOf sName children
    else [.node type op sExpr sValue children]

def collectElementsOf (sName : Bytes) : List ParseNode → List ParseNode
  | [] => []
  | c :: cs => collectElements sName c ++ collectElementsOf sName cs

end

def rewriteList (pParent : ParseNode) : ParseM ParseNode := do
  let sName := pParent.getString
  let p ← newParseNode .list .none pParent.sExpr (collectElements sName pParent)
  return p.setString sName

def rewriteElement (pLeft : ParseNode) (isIn : Bool) (pChild : ParseNode) : ParseM ParseNode :=
  if !pChild.isConst then throw (parseError ("expect const value:" ++ text pChild.sExpr))
  else do
    let sExpr ← concate [pLeft.sExpr, bytes (if isIn then "=" else "!="), pChild.sExpr]
    newExprNode (if isIn then .compEq else .compNe) sExpr [pLeft, pChild]

def rewriteElements (pLeft : ParseNode) (isIn : Bool) : List ParseNode → ParseM (List ParseNode)
  | [] => return []
  | c :: cs => do
    let e ← rewriteElement pLeft isIn c
    let es ← rewriteElements pLeft isIn cs
    return e :: es

def rewriteInOrNotIn (pNode : ParseNode) (isIn : Bool) : ParseM ParseNode := do
  let pLeft := pNode.getChild 0
  let pValue ← rewriteList (pNode.getChild 1)
  let expressions ← rewriteElements pLeft isIn pValue.children
  match expressions with
  | [e] => return e
  | _ => newParseNode .op .or pNode.sExpr expressions

mutual

/-- The rewritten node and the flag `hasOr`. -/
def rewriteOp : ParseNode → ParseM (ParseNode × Bool)
  | .null => return (.null, false)
  | .node type op sExpr sValue children =>
    match op with
    | .or => do
      let (cs, _) ← rewriteOps children
      return (.node type op sExpr sValue cs, true)
    | .and => do
      let (cs, hasOr) ← rewriteOps children
      return (.node type op sExpr sValue cs, hasOr)
    | .compIn => do
      let p ← rewriteInOrNotIn (.node type op sExpr sValue children) true
      return (p, p.getOp == .or)
    | .compNotIn => do
      let p ← rewriteInOrNotIn (.node type op sExpr sValue children) false
      return (p, p.getOp == .or)
    | _ => return (.node type op sExpr sValue children, false)

def rewriteOps : List ParseNode → ParseM (List ParseNode × Bool)
  | [] => return ([], false)
  | c :: cs => do
    let (c', hasOr) ← rewriteOp c
    let (cs', hasOrs) ← rewriteOps cs
    return (c' :: cs', hasOr || hasOrs)

end

mutual

def hasOrPredicate : ParseNode → Bool
  | .null => false
  | .node _ op _ _ children => op == .or || anyHasOrPredicate children

def anyHasOrPredicate : List ParseNode → Bool
  | [] => false
  | c :: cs => hasOrPredicate c || anyHasOrPredicate cs

end

def andWithEach (l : ParseNode) : List ParseNode → ParseM (List ParseNode)
  | [] => return []
  | r :: rs => do
    let p ← newExprNode .and [] [l, r]
    let ps ← andWithEach l rs
    return p :: ps

/-- The double loop over the disjuncts of the two sides of an AND. -/
def distribute (rights : List ParseNode) : List ParseNode → ParseM (List ParseNode)
  | [] => return []
  | l :: ls => do
    let ps ← andWithEach l rights
    let qs ← distribute rights ls
    return ps ++ qs

mutual

def collectOrOperators : ParseNode → ParseM (List ParseNode)
  | .null => return []
  | .node type op sExpr sValue children =>
    if type ≠ .op then throw (parseError ("Unsupported predicate " ++ text sExpr))
    else match op with
    | .and =>
      if !hasOrPredicate (.node type op sExpr sValue children) then
        return [.node type op sExpr sValue children]
      else match children with
      | l :: r :: _ => do
        let left ← collectOrOperators l
        let right ← collectOrOperators r
        distribute right left
      | _ => return []
    | .or => collectOrOperatorsOf children
    | _ => return [.node type op sExpr sValue children]

def collectOrOperatorsOf : List ParseNode → ParseM (List ParseNode)
  | [] => return []
  | c :: cs => do
    let ops ← collectOrOperators c
    let rest ← collectOrOperatorsOf cs
    return ops ++ rest

end

def liftOrPredicate (pParent : ParseNode) : ParseM ParseNode := do
  let operators ← collectOrOperators pParent
  newParseNode .op .or pParent.sExpr operators

mutual

def rewrite : ParseNode → ParseM ParseNode
  | .null => return .null
  | .node type op sExpr sValue children =>
    match type with
    | .list => do
      alloc (sizeofNode + (collectElementsOf sValue children).length * sizeofPointer)
      let cs ← rewriteElementsOf sValue children
      return .node .list .none sExpr sValue cs
    | .op => do
      let (p, hasOr) ← rewriteOp (.node type op sExpr sValue children)
      if hasOr then liftOrPredicate p else return p
    | _ => do
      let cs ← rewriteChildren children
      return .node type op sExpr sValue cs

def rewriteChildren : List ParseNode → ParseM (List ParseNode)
  | [] => return []
  | c :: cs => do
    let c' ← rewrite c
    let cs' ← rewriteChildren cs
    return c' :: cs'

/-- The children loop over a list that `rewriteList` has just flattened: nested
lists of the same name have given way to their elements. -/
def rewriteElementsIn (sName : Bytes) : ParseNode → ParseM (List ParseNode)
  | .null => return [.null]
  | .node type op sExpr sValue children =>
    if type = .list ∧ sValue = sName then rewriteElementsOf sName children
    else do
      let p ← rewrite (.node type op sExpr sValue children)
      return [p]

def rewriteElementsOf (sName : Bytes) : List ParseNode → ParseM (List ParseNode)
  | [] => return []
  | c :: cs => do
    let es ← rewriteElementsIn sName c
    let rest ← rewriteElementsOf sName cs
    return es ++ rest

end

end LevelPgServer.QueryRewritter
