import LevelPgServer.Lib.Regex
import LevelPgServer.Lib.StateRules
import LevelPgServer.Common.ParseTools

/-! The scanner of the SQL texts: the rules of `SqlParser.l` and what they do. -/

namespace LevelPgServer.SqlParser

open ParseNode

/-- `YYLTYPE`, without the line, which is always 1. -/
structure Location where
  first_column : Nat
  last_column : Nat
  deriving DecidableEq, Repr

/-- `ParseResult` while a text is parsed, with what the scanner has not read and the value and
location of the token it has read last. -/
structure ParseState where
  m_sSql : Bytes
  input : Bytes
  m_iCurrent : Nat
  m_yycolumn : Nat
  m_pResult : ParseNode
  m_sError : String
  m_iStartCol : Nat
  m_iEndCol : Nat
  m_bindParamNodes : List ParseNode
  yylval : ParseNode
  yylloc : Location

abbrev ParseM := EStateM Fault ParseState

def alloc (size : Nat) : ParseM Unit := fun s =>
  if blockSize < s.m_iCurrent + size then .error (.thrown (parseError "Not enough parse buffer")) s
  else .ok () { s with m_iCurrent := s.m_iCurrent + size }

def getExpr (loc : Location) (s : ParseState) : Bytes :=
  (s.m_sSql.drop (loc.first_column - 1)).take (loc.last_column + 1 - loc.first_column)

def newParseNode (type : NodeType) (op : Operation) (loc : Location) (children : List ParseNode) :
    ParseM ParseNode := do
  alloc (sizeofNode + children.length * sizeofPointer)
  return node type op (getExpr loc (← get)) [] children

def newSimpleNode (type : NodeType) (loc : Location) (op : Operation) : ParseM ParseNode :=
  newParseNode type op loc []

/-- `yyerror` as a change of the state. -/
def reported (loc : Location) (msg : String) (s : ParseState) : ParseState :=
  { s with m_pResult := .null, m_sError := msg, m_iStartCol := loc.first_column, m_iEndCol := loc.last_column }

def yyerror (loc : Location) (msg : String) : ParseM Unit := modify (reported loc msg)

inductive Token
  | NAME | STRING | BINARY | INTNUM | DATE_VALUE | BOOL | APPROXNUM | PARAM
  | OR | XOR | ANDOP | IN | IS | LIKE | NOT
  | COMP_LE | COMP_LT | COMP_EQ | COMP_GT | COMP_GE | COMP_NE
  | DATA | FIELDS | INFILE | SHOW | TABLES | TERMINATED | ERROR
  | ADD | ALL | ANY | AS | ASC | CHAR | CREATE | DATABASE | DEFAULT | DELETE | DESC | DISTINCT
  | FLOAT | DROP | EXPLAIN | FROM | GROUP | HAVING | INSERT | INTEGER | INTO | LIMIT | LOAD
  | ON | ORDER | SELECT | WHERE | BY | SMALLINT | TABLE | TO | UNION | UNIQUE | UNSIGNED | UPDATE
  | SET | VALUES | VARCHAR | OFFSET | KEY | PRIMARY | IF | EXISTS | JOIN | LEFT | USING
  | chr (c : UInt8)
  deriving DecidableEq, Repr

def yytranslateChar (c : UInt8) : Nat :=
  match c.toNat with
  | 33 => 22
  | 37 => 35
  | 38 => 23
  | 40 => 107
  | 41 => 108
  | 42 => 33
  | 43 => 31
  | 44 => 109
  | 45 => 32
  | 46 => 106
  | 47 => 34
  | 59 => 105
  | 94 => 37
  | 124 => 30
  | _ => 2

def yytranslate : Token → Nat
  | .NAME => 3
  | .STRING => 4
  | .BINARY => 5
  | .INTNUM => 6
  | .DATE_VALUE => 7
  | .BOOL => 9
  | .APPROXNUM => 10
  | .PARAM => 12
  | .OR => 14
  | .XOR => 15
  | .ANDOP => 16
  | .IN => 17
  | .IS => 18
  | .LIKE => 19
  | .NOT => 21
  | .COMP_LE => 24
  | .COMP_LT => 25
  | .COMP_EQ => 26
  | .COMP_GT => 27
  | .COMP_GE => 28
  | .COMP_NE => 29
  | .DATA => 40
  | .FIELDS => 41
  | .INFILE => 42
  | .SHOW => 43
  | .TABLES => 44
  | .TERMINATED => 45
  | .ERROR => 46
  | .ADD => 47
  | .ALL => 48
  | .ANY => 50
  | .AS => 51
  | .ASC => 52
  | .CHAR => 54
  | .CREATE => 55
  | .DATABASE => 56
  | .DEFAULT => 59
  | .DELETE => 60
  | .DESC => 61
  | .DISTINCT => 62
  | .FLOAT => 63
  | .DROP => 65
  | .EXPLAIN => 66
  | .FROM => 67
  | .GROUP => 68
  | .HAVING => 69
  | .INSERT => 70
  | .INTEGER => 71
  | .INTO => 72
  | .LIMIT => 73
  | .LOAD => 74
  | .ON => 75
  | .ORDER => 76
  | .SELECT => 77
  | .WHERE => 78
  | .BY => 79
  | .SMALLINT => 80
  | .TABLE => 81
  | .TO => 82
  | .UNION => 83
  | .UNIQUE => 84
  | .UNSIGNED => 85
  | .UPDATE => 86
  | .SET => 87
  | .VALUES => 88
  | .VARCHAR => 89
  | .OFFSET => 90
  | .KEY => 97
  | .PRIMARY => 98
  | .IF => 99
  | .EXISTS => 100
  | .JOIN => 102
  | .LEFT => 103
  | .USING => 104
  | .chr c => yytranslateChar c

inductive LexAction
  | keyword (t : Token)
  | null
  | bool (value : String)
  | intnum
  | approxnum
  | string
  | unterminated
  | binary
  | dateValue
  | comment
  | character
  | name
  | param
  | mystery
  deriving DecidableEq

def isDigit (c : UInt8) : Bool := 48 ≤ c && c ≤ 57

def hexDigit (c : UInt8) : Option Nat :=
  if isDigit c then some (c.toNat - 48)
  else if 97 ≤ c && c ≤ 102 then some (c.toNat - 87)
  else if 65 ≤ c && c ≤ 70 then some (c.toNat - 55)
  else none

def hexValue (v : Nat) : Bytes → Nat
  | [] => v
  | c :: cs =>
    match hexDigit c with
    | some d => hexValue (16 * v + d) cs
    | none => v

def isSpace (c : UInt8) : Bool := c == 32 || 9 ≤ c && c ≤ 13

/-- `strtol` to the base 16 on a buffer of two characters, as the character it is assigned to. -/
def strtol (szBuf : Bytes) : UInt8 :=
  match (szBuf.takeWhile (· != 0)).dropWhile isSpace with
  | 45 :: cs => - UInt8.ofNat (hexValue 0 cs)
  | 43 :: cs => UInt8.ofNat (hexValue 0 cs)
  | cs => UInt8.ofNat (hexValue 0 cs)

/-- The escapes of a string: `n` characters are left before the closing quote, and `cs` is the text from
the next one on, past which the buffer holds a zero. -/
def unescape : Nat → Nat → Bytes → Bytes
  | 0, _, _ => []
  | _, 0, _ => []
  | fuel + 1, n + 1, cs =>
    let c := cs.getD 0 0
    if c = 92 then
      if 3 ≤ n ∧ isDigit (cs.getD 1 0) ∧ isDigit (cs.getD 2 0) ∧ isDigit (cs.getD 3 0) then
        ((cs.getD 1 0 - 48) * 64 + (cs.getD 2 0 - 48) * 8 + (cs.getD 3 0 - 48)) :: unescape fuel (n - 3) (cs.drop 4)
      else if 1 ≤ n then
        match (cs.getD 1 0).toNat with
        | 110 => 10 :: unescape fuel (n - 1) (cs.drop 2)
        | 114 => 13 :: unescape fuel (n - 1) (cs.drop 2)
        | 116 => 9 :: unescape fuel (n - 1) (cs.drop 2)
        | 120 => strtol [cs.getD 2 0, cs.getD 3 0] :: unescape fuel (n - 3) (cs.drop 4)
        | _ => cs.getD 1 0 :: unescape fuel (n - 1) (cs.drop 2)
      else c :: unescape fuel n (cs.drop 1)
    else c :: unescape fuel n (cs.drop 1)

/-- The pairs of digits of a binary literal, the last one if it is complete. -/
def unhex : Bytes → Bytes
  | a :: b :: cs => UInt8.ofNat (hexValue 0 [a, b]) :: unhex cs
  | _ => []

/-- The action of a rule on the text it has matched, and the token it returns if it returns. -/
def lexAct (a : LexAction) (yytext : Bytes) : ParseM (Option Token) := do
  let loc := (← get).yylloc
  match a with
  | .keyword t => return some t
  | .null =>
    yyerror loc "NULL is not supported"
    return some .ERROR
  | .bool value =>
    let pNode ← newSimpleNode .int loc .none
    modify fun s => { s with yylval := pNode.setString (bytes value) }
    return some .BOOL
  | .intnum =>
    let pNode ← newSimpleNode .int loc .none
    modify fun s => { s with yylval := pNode.setString pNode.sExpr }
    return some .INTNUM
  | .approxnum =>
    let pNode ← newSimpleNode .float loc .none
    modify fun s => { s with yylval := pNode.setString pNode.sExpr }
    return some .APPROXNUM
  | .string =>
    let pNode ← newSimpleNode .str loc .none
    modify fun s => { s with yylval := pNode }
    let len := pNode.sExpr.length - 1
    alloc len
    modify fun s =>
      { s with yylval := pNode.setString (unescape len (len - 1) (s.m_sSql.drop loc.first_column)) }
    return some .STRING
  | .unterminated =>
    yyerror loc ("Unterminated string " ++ text yytext)
    return none
  | .binary =>
    let pNode ← newSimpleNode .binary loc .none
    modify fun s => { s with yylval := pNode }
    let len := if pNode.sExpr.getLastD 0 = 39 then pNode.sExpr.length - 1 else pNode.sExpr.length
    alloc (len - 2)
    modify fun s => { s with yylval := pNode.setString (unhex ((pNode.sExpr.take len).drop 2)) }
    return some .BINARY
  | .dateValue =>
    let pNode ← newSimpleNode .date loc .none
    modify fun s =>
      { s with yylval := pNode.setString ((pNode.sExpr.drop 2).take (pNode.sExpr.length - 3)) }
    return some .DATE_VALUE
  | .comment => return none
  | .character => return some (.chr (yytext.headD 0))
  | .name =>
    let pNode ← newSimpleNode .name loc .none
    modify fun s => { s with yylval := pNode.setString pNode.sExpr }
    return some .NAME
  | .param =>
    let pNode ← newSimpleNode .param loc .unboundParam
    modify fun s => { s with yylval := pNode, m_bindParamNodes := s.m_bindParamNodes ++ [pNode] }
    return some .PARAM
  | .mystery =>
    yyerror loc ("mystery charactor " ++ text (yytext.take 1))
    return some .ERROR

/-! The patterns. The scanner ignores the case of letters. -/

def letter (p : UInt8 → Bool) : Regex UInt8 := .one fun c => p c || p (Tools.toLower c)

def chr (c : UInt8) : Regex UInt8 := letter (· == Tools.toLower c)

def word : Bytes → Regex UInt8
  | [] => .epsilon
  | [c] => chr c
  | c :: cs => .seq (chr c) (word cs)

def lit (s : String) : Regex UInt8 := word (bytes s)

def oneOf (s : String) : Regex UInt8 := letter fun c => (bytes s).contains c

def digit : Regex UInt8 := letter isDigit

def hexDigits : Regex UInt8 := letter fun c => (hexDigit c).isSome

def dot : Regex UInt8 := .one (· != 10)

def unquoted (quote : UInt8) : Regex UInt8 := .one fun c => c != quote && c != 10

def seqs : List (Regex UInt8) → Regex UInt8
  | [] => .epsilon
  | [r] => r
  | r :: rs => .seq r (seqs rs)

def escaped : Regex UInt8 := .seq (chr 92) dot

def quoted (quote : UInt8) : Regex UInt8 :=
  seqs [chr quote, .star (.alt escaped (.alt (.seq (chr quote) (chr quote)) (unquoted quote))), chr quote]

def openQuoted (quote : UInt8) : Regex UInt8 :=
  seqs [chr quote, .star (.alt escaped (unquoted quote)), chr 10]

def exponent : Regex UInt8 := seqs [lit "e", .opt (oneOf "-+"), .plus digit]

def hexPairs : Regex UInt8 := .plus (hexDigits.times 2)

def datePattern : Regex UInt8 := .seq (digit.times 4) ((Regex.seq (lit "-") (digit.times 2)).times 2)

def timePattern : Regex UInt8 := .seq (digit.times 2) ((Regex.seq (lit ":") (digit.times 2)).times 2)

def rule (pattern : Regex UInt8) (action : LexAction) : ScanRule UInt8 LexAction := ⟨pattern, 0, action⟩

def keyword (s : String) (t : Token) : ScanRule UInt8 LexAction := rule (lit s) (.keyword t)

/-- The rules in their order. The action of `FLOAT8` is the one of the next rule. -/
def lexRules : List (ScanRule UInt8 LexAction) := [
  keyword "add" .ADD,
  keyword "all" .ALL,
  keyword "and" .ANDOP,
  keyword "any" .ANY,
  keyword "as" .AS,
  keyword "asc" .ASC,
  rule (.seq (lit "char") (.opt (lit "acter"))) (.keyword .CHAR),
  keyword "create" .CREATE,
  keyword "database" .DATABASE,
  keyword "default" .DEFAULT,
  keyword "delete" .DELETE,
  keyword "distinct" .DISTINCT,
  keyword "float4" .FLOAT,
  keyword "float8" .DROP,
  keyword "drop" .DROP,
  keyword "explain" .EXPLAIN,
  keyword "from" .FROM,
  keyword "group" .GROUP,
  keyword "having" .HAVING,
  keyword "in" .IN,
  keyword "insert" .INSERT,
  keyword "int" .INTEGER,
  keyword "int4" .INTEGER,
  keyword "integer" .INTEGER,
  keyword "into" .INTO,
  keyword "like" .LIKE,
  keyword "limit" .LIMIT,
  keyword "load" .LOAD,
  keyword "where" .WHERE,
  keyword "by" .BY,
  keyword "data" .DATA,
  keyword "show" .SHOW,
  keyword "desc" .DESC,
  keyword "infile" .INFILE,
  keyword "tables" .TABLES,
  keyword "fields" .FIELDS,
  keyword "terminated" .TERMINATED,
  keyword "is" .IS,
  keyword "not" .NOT,
  rule (lit "null") .null,
  keyword "on" .ON,
  keyword "offset" .OFFSET,
  keyword "or" .OR,
  keyword "order" .ORDER,
  keyword "select" .SELECT,
  keyword "int2" .SMALLINT,
  keyword "smallint" .SMALLINT,
  keyword "table" .TABLE,
  keyword "to" .TO,
  keyword "union" .UNION,
  keyword "unique" .UNIQUE,
  keyword "unsigned" .UNSIGNED,
  keyword "update" .UPDATE,
  keyword "set" .SET,
  keyword "values" .VALUES,
  rule (.seq (lit "varchar") (.opt (lit "acter"))) (.keyword .VARCHAR),
  keyword "xor" .XOR,
  keyword "if" .IF,
  keyword "exists" .EXISTS,
  keyword "key" .KEY,
  keyword "primary" .PRIMARY,
  keyword "join" .JOIN,
  keyword "left" .LEFT,
  keyword "using" .USING,
  rule (lit "true") (.bool "1"),
  rule (lit "false") (.bool "0"),
  rule (.plus digit) .intnum,
  rule (seqs [.plus digit, lit ".", .star digit]) .approxnum,
  rule (.seq (lit ".") (.plus digit)) .approxnum,
  rule (.seq (.plus digit) exponent) .approxnum,
  rule (seqs [.plus digit, lit ".", .star digit, exponent]) .approxnum,
  rule (seqs [lit ".", .plus digit, exponent]) .approxnum,
  rule (.alt (quoted 39) (quoted 34)) .string,
  ⟨openQuoted 39, 1, .unterminated⟩,
  ⟨openQuoted 34, 1, .unterminated⟩,
  rule (.alt (seqs [lit "x'", hexPairs, lit "'"]) (.seq (lit "0x") hexPairs)) .binary,
  rule (seqs [lit "d'", datePattern, lit "'"]) .dateValue,
  rule (seqs [lit "d'", datePattern, lit " ", timePattern, lit "'"]) .dateValue,
  rule (seqs [lit "/*", .plus (.one (· != 42)), lit "*/"]) .comment,
  rule (oneOf "-+&~|^/%*(),.;!") .character,
  keyword "%%" .ANDOP,
  keyword "||" .OR,
  keyword "=" .COMP_EQ,
  keyword ">=" .COMP_GE,
  keyword ">" .COMP_GT,
  keyword "<=" .COMP_LE,
  keyword "<" .COMP_LT,
  rule (.alt (lit "!=") (lit "<>")) (.keyword .COMP_NE),
  rule (.seq (letter fun c => 97 ≤ c && c ≤ 122 || c == 95)
    (.star (letter fun c => 97 ≤ c && c ≤ 122 || isDigit c || c == 95))) .name,
  rule (.seq (lit "$") (.plus digit)) .param,
  rule (.one fun c => c == 32 || c == 9 || c == 13 || c == 10) .comment,
  rule (seqs [lit "--", .one (fun c => c == 32 || c == 9), .star dot, lit ";"]) .comment,
  rule dot .mystery]

/-- `YY_USER_ACTION`, and past the text that is matched. -/
def advance (yyleng : Nat) (s : ParseState) : ParseState :=
  { s with
    yylloc := ⟨s.m_yycolumn, s.m_yycolumn + yyleng - 1⟩
    m_yycolumn := s.m_yycolumn + yyleng
    input := s.input.drop yyleng }

/-- One match of `yylex`. At the end of the text it returns a semicolon. -/
def yylex : ParseM (Option Token) := do
  let s ← get
  if s.input = [] then return some (.chr 59)
  match ScanRule.scan lexRules s.input with
  | none => throw .undefined
  | some (n, r) =>
    let yyleng := n - r.trailing
    set (advance yyleng s)
    lexAct r.action (s.input.take yyleng)

end LevelPgServer.SqlParser
