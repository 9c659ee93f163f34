import LevelPgServer.Server.PgDataReader
import LevelPgServer.Server.PgDataWriter
import LevelPgServer.Execution.DBDataTypeHandler

namespace LevelPgServer

open PgDataWriter PgDataReader

/-- What the C library prints: `snprintf` with `%f`, and `strftime` on what `gmtime`
returns, if it returns something. -/
structure Formats where
  double : Double → Bytes
  double_ne_nil : ∀ d, double d ≠ []
  date : Int → Option Bytes
  dateTime : Int → Option Bytes

namespace PostgresProtocol

def char (s : String) : UInt8 := (bytes s).headD 0

def syncMessage (w : PgDataWriter) : PgDataWriter := ((w.begin (char "Z")).addInt8 73).end

def pgDataType : DBDataType → Int
  | .bytes => 17
  | .bool => 16
  | .int16 => 21
  | .int32 => 23
  | .int64 => 20
  | .string => 1043
  | .float => 700
  | .double => 701
  | .date => 1082
  | .datetime => 1114

def intText (v : Int) : Bytes := bytes (toString v)

def addTime (w : PgDataWriter) (text : Option Bytes) (len : Nat) : PgDataWriter :=
  match text with
  | none => w.addNull
  | some text => w.addDateTimeAsString text len

/-- `m_typeHandler`. -/
def typeHandler (conv : Conversions) (fmt : Formats) (type : DBDataType) (result : ExecutionResult) (w : PgDataWriter) :
    Fallible PgDataWriter :=
  match type with
  | .bytes => do
    let s ← result.getString conv
    return w.addBytesString s
  | .bool => do
    let v ← result.getInt conv
    return w.addString (if v ≠ 0 then bytes "true" else bytes "false")
  | .int16 | .int32 | .int64 => do
    let v ← result.getInt conv
    return w.addValueAsString (intText v)
  | .string => do
    let s ← result.getString conv
    return w.addString s
  | .float | .double => do
    let d ← result.getDouble conv
    return w.addValueAsString (fmt.double d)
  | .date => do
    let v ← result.getInt conv
    return addTime w (fmt.date v) 10
  | .datetime => do
    let v ← result.getInt conv
    return addTime w (fmt.dateTime v) 19

def addColumn (conv : Conversions) (fmt : Formats) (type : DBDataType) (result : ExecutionResult) (w : PgDataWriter) :
    Fallible PgDataWriter :=
  if result.isNull then .ok w.addNull else typeHandler conv fmt type result w

/-- The loop of `buildData` over the columns of the current row of a plan. The writer is
lost when a column throws. -/
def addColumns (conv : Conversions) (fmt : Formats) : List (Fallible (DBDataType × ExecutionResult)) → PgDataWriter →
    Fallible PgDataWriter
  | [], w => .ok w
  | c :: cs, w => do
    let (type, result) ← c
    let w ← addColumn conv fmt type result w
    addColumns conv fmt cs w

def buildData (conv : Conversions) (fmt : Formats) (row : List (Fallible (DBDataType × ExecutionResult)))
    (w : PgDataWriter) : Fallible PgDataWriter := do
  let w ← addColumns conv fmt row ((w.begin (char "D")).addInt16 row.length)
  return w.end

def buildStartupResponse (size : Nat) (iSessionIndex : Nat) : Bytes :=
  let w := (({ size := size : PgDataWriter }.begin (char "R")).addInt32 0).end
  let w := (((w.begin (char "S")).addStringZeroEnd (bytes "server_encoding")).addStringZeroEnd (bytes "UTF8")).end
  let w := (((w.begin (char "S")).addStringZeroEnd (bytes "client_encoding")).addStringZeroEnd (bytes "UTF8")).end
  let w := (((w.begin (char "S")).addStringZeroEnd (bytes "server_version")).addStringZeroEnd (bytes "9.0.4")).end
  let w := (((w.begin (char "K")).addInt32 iSessionIndex).addInt32 0).end
  (syncMessage w).prepared

def buildSync (size : Nat) : Bytes := (syncMessage { size := size }).prepared

def exceptionWriter (size : Nat) (msg : Bytes) (startPos : Int) (sync : Bool) : PgDataWriter :=
  let w := ({ size := size : PgDataWriter }.begin (char "E")).addInt8 (char "S").toNat
  let w := (w.addStringZeroEnd (bytes "ERROR")).addInt8 (char "C").toNat
  let w := (w.addStringZeroEnd (bytes "00000")).addInt8 (char "M").toNat
  let w := w.addStringZeroEnd msg
  let w := if 0 ≤ startPos then (w.addInt8 (char "P").toNat).addStringZeroEnd (intText startPos) else w
  let w := (w.addInt8 0).end
  if sync then syncMessage w else w

/-- A message that is too long is cut once; a message that has been cut is short enough. -/
def buildException (size : Nat) (msg : Bytes) (startPos : Int) (sync : Bool) : Bytes :=
  let w := exceptionWriter size msg startPos sync
  if w.full then (exceptionWriter size (msg.take (size - 100)) startPos sync).prepared else w.prepared

def addDescriptions (w : PgDataWriter) : Nat → List (Bytes × DBDataType) → PgDataWriter
  | _, [] => w
  | i, (sName, dataType) :: columns =>
    let w := ((w.addStringZeroEnd sName).addInt32 0).addInt16 (i + 1 : Nat)
    let w := (w.addInt32 (pgDataType dataType)).addInt16 (-1)
    addDescriptions ((w.addInt32 (-1)).addInt16 0) (i + 1) columns

def buildColumnDescription (size : Nat) (columns : List (Bytes × DBDataType)) : Fallible Bytes :=
  let w := (addDescriptions (({ size := size : PgDataWriter }.begin (char "T")).addInt16 columns.length) 0 columns).end
  if w.full then throwIO "not enough network buffer-1" else .ok w.prepared

def buildExecutionDone (size : Nat) (parsed bind : Bool) (sInfo : Bytes) (sync : Bool) : Bytes :=
  let w : PgDataWriter := { size := size }
  let w := if parsed then (w.begin (char "1")).end else w
  let w := if bind then (w.begin (char "2")).end else w
  let w := ((w.begin (char "C")).addStringZeroEnd sInfo).end
  (if sync then syncMessage w else w).prepared

inductive StartupAction
  | ssl | normal
  deriving DecidableEq, Repr

/-- The options of a startup message are read and ignored. -/
def readOptions : Nat → PgDataReader → Fallible Unit
  | 0, _ => .ok ()
  | fuel + 1, r =>
    if r.hasData then do
      let (sName, r) ← r.getNextString
      if sName = [] then .ok ()
      else
        let (_, r) ← r.getNextString
        readOptions fuel r
    else .ok ()

def cancelRequestCode : Int := 80877102

def negotiateSslCode : Int := 80877103

/-- A cancel request closes its own connection; that it cancels another session is an event
of that session. -/
def readStartup (block : Bytes) (len : Nat) : Fallible StartupAction := do
  let (proto, r) ← ({ block, len } : PgDataReader).getNextInt
  if proto = cancelRequestCode then do
    let (iBackendPID, r) ← r.getNextInt
    let _ ← r.getNextInt
    throwIO ("Cancel WorkerID=" ++ toString (iBackendPID % 2 ^ 32))
  else if proto = negotiateSslCode then .ok .ssl
  else if proto / 2 ^ 16 % 2 ^ 32 < 3 then throwIO ("Unsupported pg version:" ++ toString (proto / 2 ^ 16 % 2 ^ 32))
  else do
    readOptions (len + 1) r
    return .normal

def readQueryInfo (block : Bytes) (len : Nat) : Fallible Bytes := do
  let (sql, _) ← ({ block, len } : PgDataReader).getNextString
  return sql

/-- The number of parameters is converted to `size_t`. -/
def readParseInfo (block : Bytes) (len : Nat) : Fallible (Bytes × Nat) := do
  let (_, r) ← ({ block, len } : PgDataReader).getNextString
  let (sql, r) ← r.getNextString
  let (iParamNum, _) ← r.getNextShort
  return (sql, (iParamNum % 2 ^ 64).toNat)

def readColumnDescribeInfo (block : Bytes) (len : Nat) : Fallible Unit := do
  let (_, r) ← ({ block, len } : PgDataReader).getNextByte
  let _ ← r.getNextString
  return ()

def readParamModes : Nat → PgDataReader → Fallible (List Bool × PgDataReader)
  | 0, r => .ok ([], r)
  | n + 1, r => do
    let (type, r) ← r.getNextShort
    if type = 0 ∨ type = 1 then
      let (modes, r) ← readParamModes n r
      return (decide (type = 1) :: modes, r)
    else throwIO ("Unexpected bind parameter mode: " ++ toString type)

def readParamValues : Nat → PgDataReader → Fallible (List Bytes × PgDataReader)
  | 0, r => .ok ([], r)
  | n + 1, r => do
    let (value, r) ← r.getNextStringWithLen
    let (values, r) ← readParamValues n r
    return (value :: values, r)

def checkParamNumber (what : String) (iExpectNum : Int) (n : Nat) : Fallible Unit :=
  if (iExpectNum % 2 ^ 64).toNat ≠ n then
    throwIO (what ++ toString (iExpectNum % 2 ^ 64) ++ ", actual " ++ toString n)
  else .ok ()

/-- The modes and values of the `n` parameters of a statement. -/
def readBindParam (block : Bytes) (len n : Nat) : Fallible (List (Bool × Bytes)) := do
  let (_, r) ← ({ block, len } : PgDataReader).getNextString
  let (_, r) ← r.getNextString
  let (iExpectNum, r) ← r.getNextShort
  checkParamNumber "Parameter format number unmatch!, expect " iExpectNum n
  let (modes, r) ← readParamModes n r
  let (iExpectNum, r) ← r.getNextShort
  checkParamNumber "Parameter number unmatch!, expect " iExpectNum n
  let (values, _) ← readParamValues n r
  return modes.zip values

end PostgresProtocol

end LevelPgServer
