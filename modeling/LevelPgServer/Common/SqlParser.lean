import LevelPgServer.Common.SqlTables
import LevelPgServer.Common.SqlLexer
import LevelPgServer.Common.QueryRewritter

/-! The actions of the grammar, and the parser from a text to its tree. -/

namespace LevelPgServer.SqlParser

open ParseNode

def newExprNode (op : Operation) (loc : Location) (children : List ParseNode) : ParseM ParseNode :=
  newParseNode .op op loc children

def newInfoNode (op : Operation) (loc : Location) : ParseM ParseNode := newParseNode .info op loc []

def newFuncNode (sName : Bytes) (loc : Location) (children : List ParseNode) : ParseM ParseNode := do
  let pNode ← newParseNode .func .none loc children
  return pNode.setString sName

def newParentNode (sName : String) (loc : Location) (children : List ParseNode) : ParseM ParseNode := do
  let pNode ← newParseNode .parent .none loc children
  return pNode.setString (bytes sName)

def newPlanNode (sName : String) (op : Operation) (loc : Location) (children : List ParseNode) :
    ParseM ParseNode := do
  let pNode ← newParseNode .plan op loc children
  return pNode.setString (bytes sName)

def newListNode (sName : String) (loc : Location) (children : List ParseNode) : ParseM ParseNode := do
  let pNode ← newParseNode .list .none loc children
  return pNode.setString (bytes sName)

abbrev Verdict := Lalr.Verdict ParseNode

/-- `$$ = ..` with a node that is made here. -/
def assign (m : ParseM ParseNode) : ParseM Verdict := do
  let pNode ← m
  return .value pNode

/-- The right side of a rule: `$1`, `$2` and so on, and `@1`, `@2` and so on. -/
abbrev Rhs := List (ParseNode × Location)

def Rhs.value (rhs : Rhs) (i : Nat) : ParseNode := (rhs.map Prod.fst).getD (i - 1) .null

def Rhs.loc (rhs : Rhs) (i : Nat) : Location := (rhs.map Prod.snd).getD (i - 1) ⟨1, 1⟩

/-- `'-' expr`. For an operand that is no number `$$` keeps its default value, the `$1` of the
minus, and that is whatever token with a value the scanner has read before. -/
def minusAction (rhs : Rhs) (loc : Location) : ParseM Verdict :=
  match rhs.value 2 with
  | .null => throw .undefined
  | .node .int _ _ _ _ => do
    let pNode ← newSimpleNode .int loc .none
    return .value (pNode.setString pNode.sExpr)
  | .node .float _ _ _ _ => do
    let pNode ← newSimpleNode .float loc .none
    return .value (pNode.setString pNode.sExpr)
  | .node _ _ _ _ _ => do
    yyerror (rhs.loc 2) "minus is not supporteed"
    return .value (rhs.value 1)

/-- Whether both ends of a pattern are a percent sign. In front of an empty one lies the zero that
ends its node. -/
def isWrapped (sValue : Bytes) : Bool := sValue.head? == some 37 && sValue.getLast? == some 37

/-- `expr LIKE STRING`. The string is the token read last, so `yylval` is the node that changes. -/
def likeAction (rhs : Rhs) (loc : Location) : ParseM Verdict := do
  let sValue := (rhs.value 3).getString
  if !isWrapped sValue then
    yyerror (rhs.loc 3) ("missing " ++ text sValue ++ " for like ")
    return .error
  let pString := (rhs.value 3).setString ((sValue.drop 1).take (sValue.length - 2))
  modify fun s => { s with yylval := pString }
  assign (newExprNode .compLike loc [rhs.value 1, pString])

def selectAction (rhs : Rhs) (loc : Location) : ParseM Verdict :=
  match rhs.value 5 with
  | .null =>
    assign (newPlanNode "SelectStmt" .select loc
      [rhs.value 2, rhs.value 4, rhs.value 6, rhs.value 7, rhs.value 8, rhs.value 9, rhs.value 10])
  | .node _ _ _ _ _ => do
    yyerror (rhs.loc 5) "table alias name is not supported"
    return .error

def sortAction (loc : Location) (before : List ParseNode) (item : List ParseNode) : ParseM Verdict := do
  let pChild ← newParentNode "SortItem" loc item
  assign (newListNode "SortList" loc (before ++ [pChild]))

/-- The rules in the order of the grammar, by their number. -/
def action (r : Nat) (rhs : Rhs) (loc : Location) : ParseM Verdict :=
  match r with
  | 2 => do
    modify fun s => { s with m_pResult := rhs.value 1 }
    return .accept
  | 3 => do
    let pNode ← newPlanNode "ExplainStmt" .explain loc [rhs.value 2]
    modify fun s => { s with m_pResult := pNode }
    return .accept
  | 19 => assign (newExprNode .member loc [rhs.value 1, rhs.value 3])
  | 20 => return .error
  | 21 => assign (newExprNode .add loc [rhs.value 1, rhs.value 3])
  | 22 => assign (newExprNode .sub loc [rhs.value 1, rhs.value 3])
  | 23 => assign (newExprNode .mul loc [rhs.value 1, rhs.value 3])
  | 24 => assign (newExprNode .div loc [rhs.value 1, rhs.value 3])
  | 25 => assign (newExprNode .mod loc [rhs.value 1, rhs.value 3])
  | 26 => assign (newExprNode .mod loc [rhs.value 1, rhs.value 3])
  | 27 => minusAction rhs loc
  | 28 => return .value (rhs.value 2)
  | 29 => assign (newExprNode .compLe loc [rhs.value 1, rhs.value 3])
  | 30 => assign (newExprNode .compLt loc [rhs.value 1, rhs.value 3])
  | 31 => assign (newExprNode .compEq loc [rhs.value 1, rhs.value 3])
  | 32 => assign (newExprNode .compGe loc [rhs.value 1, rhs.value 3])
  | 33 => assign (newExprNode .compGt loc [rhs.value 1, rhs.value 3])
  | 34 => assign (newExprNode .compNe loc [rhs.value 1, rhs.value 3])
  | 35 => likeAction rhs loc
  | 36 => assign (newExprNode .and loc [rhs.value 1, rhs.value 3])
  | 37 => assign (newExprNode .or loc [rhs.value 1, rhs.value 3])
  | 38 => return .value (rhs.value 2)
  | 39 => assign (newExprNode .compEq loc [rhs.value 1, rhs.value 3])
  | 40 => assign (newExprNode .compNe loc [rhs.value 1, rhs.value 4])
  | 41 => assign (newExprNode .compIn loc [rhs.value 1, rhs.value 4])
  | 42 => assign (newExprNode .compNotIn loc [rhs.value 1, rhs.value 5])
  | 43 => assign (newFuncNode (rhs.value 1).getString loc [rhs.value 3])
  | 44 => assign (newListNode "ValueList" loc [rhs.value 1])
  | 45 => assign (newListNode "ValueList" loc [rhs.value 1, rhs.value 3])
  | 46 => assign (newPlanNode "DeleteStmt" .remove loc [rhs.value 3, rhs.value 4])
  | 47 => assign (newPlanNode "Values" .values loc [rhs.value 2])
  | 48 => assign (newPlanNode "InsertStmt" .insert loc [rhs.value 3, rhs.value 4, rhs.value 5])
  | 49 => assign (newPlanNode "InsertStmt" .insert loc [rhs.value 3, rhs.value 4, rhs.value 5])
  | 50 => assign (newPlanNode "ShowTable" .showTables loc [])
  | 51 => assign (newPlanNode "DescStmt" .descTable loc [rhs.value 2])
  | 52 => return .value .null
  | 53 => return .value (rhs.value 2)
  | 54 => assign (newListNode "ValueList" loc [rhs.value 2])
  | 55 => assign (newListNode "ValueList" loc [rhs.value 1, rhs.value 4])
  | 56 => assign (newListNode "ExprList" loc [rhs.value 1])
  | 57 => assign (newListNode "ExprList" loc [rhs.value 1, rhs.value 3])
  | 58 => assign (newListNode "ColumnList" loc [rhs.value 1])
  | 59 => assign (newListNode "ColumnList" loc [rhs.value 1, rhs.value 3])
  | 61 => return .value (rhs.value 2)
  | 62 => return .value .null
  | 63 => return .value (rhs.value 2)
  | 64 => selectAction rhs loc
  | 65 => return .value .null
  | 66 => return .value (rhs.value 2)
  | 67 => return .value .null
  | 68 => assign (newParentNode "Limit" loc [rhs.value 2, rhs.value 4])
  | 69 => assign (newParentNode "Limit" loc [rhs.value 4, rhs.value 2])
  | 70 => return .value .null
  | 71 => return .value (rhs.value 3)
  | 72 => sortAction loc [] [rhs.value 1, rhs.value 2]
  | 73 => sortAction loc [rhs.value 1] [rhs.value 3, rhs.value 4]
  | 74 => assign (newInfoNode .asc loc)
  | 75 => assign (newInfoNode .asc loc)
  | 76 => assign (newInfoNode .desc loc)
  | 77 => return .value .null
  | 78 => return .value (rhs.value 2)
  | 79 => return .value .null
  | 80 => return .value (rhs.value 3)
  | 82 => assign (newExprNode .as loc [rhs.value 1, rhs.value 3])
  | 83 => assign (newListNode "ExprList" loc [rhs.value 1])
  | 84 => assign (newListNode "ExprList" loc [rhs.value 1, rhs.value 3])
  | 85 => assign (newInfoNode .allColumns loc)
  -- 4 to 18, 60, 81 and 86: `$$ = $1`
  | _ => return .value (rhs.value 1)

def yyllocDefault (base : Location) (rhs : List Location) : Location :=
  match rhs.head?, rhs.getLast? with
  | some l, some l' => ⟨l.first_column, l'.last_column⟩
  | _, _ => ⟨base.last_column, base.last_column⟩

def sqlActions : Lalr.Actions Fault ParseState ParseNode Location where
  lex := do
    let t ← yylex
    return t.map yytranslate
  tokenValue s := s.yylval
  tokenLoc s := s.yylloc
  span := yyllocDefault
  reduce := action
  syntaxError s := reported s.yylloc "syntax error" s
  exhausted s := reported s.yylloc "memory exhausted" s

abbrev SqlConfig := Lalr.Config ParseState ParseNode Location

def start (s : ParseState) : SqlConfig where
  stack := [⟨0, .null, ⟨1, 1⟩⟩]
  lookahead := none
  env := { s with yylval := .null, yylloc := ⟨1, 1⟩ }

/-- A number of steps in which the parser stops on an input of a length (`yyparse_stops`). -/
def stepBound (n : Nat) : Nat := 16 * (2 * n + 1) + 3

def yyparse : ParseM Unit := fun s =>
  match Lalr.run sqlTables sqlActions (stepBound s.input.length) (start s) with
  | some (.thrown f, s') => .error f s'
  | some (.underflow, s') => .error .undefined s'
  | some (_, s') => .ok () s'
  | none => .error .undefined s

/-- A `ParseResult` that has parsed nothing yet. -/
def ParseState.fresh : ParseState where
  m_sSql := []
  input := []
  m_iCurrent := 0
  m_yycolumn := 0
  m_pResult := .null
  m_sError := ""
  m_iStartCol := 0
  m_iEndCol := 0
  m_bindParamNodes := []
  yylval := .null
  yylloc := ⟨1, 1⟩

def initParse (sql : Bytes) : ParseM Unit := do
  modify fun s => { s with m_yycolumn := 1, m_iCurrent := 0, m_pResult := .null, m_bindParamNodes := [] }
  alloc (sql.length + 1)
  modify fun s => { s with m_sSql := sql, m_sError := "" }

def parseSql (sql : Bytes) : ParseM Unit := do
  initParse sql
  modify fun s => { s with input := sql.takeWhile (· != 0) }
  yyparse

def rewrite : ParseM Unit := fun s =>
  match QueryRewritter.rewrite s.m_pResult s.m_iCurrent with
  | .ok pNode current => .ok () { s with m_pResult := pNode, m_iCurrent := current }
  | .error e current => .error (.thrown e) { s with m_iCurrent := current }

def parse (sql : Bytes) : ParseM Unit := do
  parseSql sql
  let s ← get
  match s.m_pResult with
  | .null => throw (.thrown (.parse s.m_sError s.m_iStartCol))
  | .node _ _ _ _ _ => rewrite

end LevelPgServer.SqlParser
