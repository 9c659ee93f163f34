import LevelPgServer.Execution.ConstPlan

namespace LevelPgServer

open ParseNode

structure ReadFilePlan where
  path : Bytes
  separator : UInt8
  ignoreFirstLine : Bool := false
  columns : List DBColumnInfo := []

namespace ReadFilePlan

def quote : UInt8 := 34

/-- The separator of the constructor; one of more than two characters leaves `m_separator`
without a value. -/
def readSeparator (separator : Bytes) : Fallible UInt8 :=
  match separator with
  | [] => .ok 44
  | [c] => if c = quote then throwParse "Should not use \" as file separator" else .ok c
  | [_, _] => throwParse "File separator should be single character"
  | _ => .error .undefined

def create (sPath separator : Bytes) (ignoreFirstLine : Bool) : Fallible ReadFilePlan := do
  let c ← readSeparator separator
  return { path := sPath, separator := c, ignoreFirstLine }

def addProjection (plan : ReadFilePlan) (pNode : ParseNode) : Option Nat :=
  if pNode.type = .name then indexOfName (· == pNode.getString) (plan.columns.map DBColumnInfo.name) else none

def getResultType (plan : ReadFilePlan) (index : Nat) : Fallible (Option DBDataType) :=
  match plan.columns[index]? with
  | some pColumn => .ok (some pColumn.type)
  | none => .error .undefined

inductive ParseState
  | outOfQuote | beginQuote | inQuote
  deriving DecidableEq, Repr

/-- The loop over a line while fewer than `room` further tokens have been set; `token` holds
what stands between `beginToken` and `targetIndex`. -/
def tokens (separator : UInt8) (room : Nat) (state : ParseState) (token : Bytes) : Bytes → List Bytes
  | [] => [token]
  | c :: line =>
    if room = 0 then [token]
    else match state with
    | .outOfQuote =>
      if c = quote then tokens separator room .beginQuote token line
      else if c = separator then token :: tokens separator (room - 1) .outOfQuote [] line
      else tokens separator room .outOfQuote (token ++ [c]) line
    | .beginQuote => tokens separator room (if c = quote then .outOfQuote else .inQuote) (token ++ [c]) line
    | .inQuote =>
      if c = quote then tokens separator room .outOfQuote token line
      else tokens separator room .inQuote (token ++ [c]) line

def setToken (conv : Conversions) (pColumn : DBColumnInfo) (token : Bytes) : Fallible ExecutionResult :=
  if pColumn.type = .string ∧ 0 < pColumn.len ∧ pColumn.len < token.length then
    throwExecution ("Column " ++ text pColumn.name ++ " value exceed defined length " ++
      ToString.toString pColumn.len)
  else DBDataTypeHandler.fromString conv pColumn.type token

/-- The tokens of a line; columns without one get the empty token. -/
def setTokens (conv : Conversions) : List DBColumnInfo → List Bytes → Fallible (List ExecutionResult)
  | [], _ => .ok []
  | pColumn :: columns, tokens => do
    let r ← setToken conv pColumn (tokens.headD [])
    let rest ← setTokens conv columns tokens.tail
    return r :: rest

def readLine (conv : Conversions) (plan : ReadFilePlan) (line : Bytes) : Fallible (List ExecutionResult) :=
  setTokens conv plan.columns (tokens plan.separator plan.columns.length .outOfQuote [] line)

def row (results : List ExecutionResult) : Row := fun index _ =>
  match results[index]? with
  | some r => .ok r
  | none => .error .undefined

def readLines (conv : Conversions) (plan : ReadFilePlan) : List Bytes → Run Row
  | [] => .done
  | line :: lines =>
    match plan.readLine conv line with
    | .error f => .failed f
    | .ok results => .cons (row results) (readLines conv plan lines)

/-- `begin` and all calls of `next` on a file with the given lines. -/
def run (conv : Conversions) (plan : ReadFilePlan) (file : Option (List Bytes)) : Run Row :=
  match file with
  | none => .failed (.thrown (.execution ("File " ++ text plan.path ++ " does not exists!")))
  | some lines => plan.readLines conv (if plan.ignoreFirstLine then lines.tail else lines)

end ReadFilePlan

end LevelPgServer
