import LevelPgServer.Lib.Calls
import LevelPgServer.Server.Handlers
import LevelPgServer.Server.Messages

namespace LevelPgServer

open PostgresProtocol PgDataReader ByteOrder

variable {π δ τ α : Type}

/-- What `doRead` is told to call: the handlers of `readLen`, `readMessageType` and `readData`. -/
inductive ReadHandler
  | length | messageType | data
  deriving DecidableEq, Repr

inductive Operation
  | accept
  | read (len : Nat) (fn : ReadHandler)
  | write (out : Bytes) (fn : Continuation)
  deriving DecidableEq, Repr

/-- A session object with what it holds of the server: whether it has a socket and a network buffer, the
operations that are outstanding, how often its index is among the free ones, and the number of session
objects there are. `raises` are the flags that will be raised during the next calls on the plan. The
control of the session is not used. -/
structure Connection (π δ τ : Type) where
  session : SessionInfo π τ
  db : δ
  socket : Bool := false
  buffer : Bool := false
  outstanding : List Operation := []
  free : Nat := 0
  sessions : Nat := 1
  raises : List (Option Nat) := []

/-- What comes with an event: the bytes in the network buffer, the flags that are raised while it is handled,
and whether there are memory blocks for a new session. -/
structure Arrival where
  block : Bytes := []
  raises : List (Option Nat) := []
  parseBlock : Bool := true
  networkBlock : Bool := true

/-- What can happen to a session: one of its operations completes or fails, its index is taken from the free
ones for another connection, it is canceled, another session is made or commits. -/
inductive Completion (δ : Type)
  | completes (i : Nat) (failed : Bool) (a : Arrival)
  | allocSession
  | cancel
  | opened
  | commit (db : δ)

namespace Connection

abbrev Action (π δ τ : Type) := Call Fault (Connection π δ τ)

def undefined : Action π δ τ α := throw .undefined

/-- Starts an asynchronous read or write, which needs a socket and a buffer. -/
def launch (op : Operation) : Action π δ τ Unit := do
  let c ← get
  if c.socket && c.buffer then set { c with outstanding := c.outstanding ++ [op] }
  else undefined

def «end» : Action π δ τ Unit := modify fun c =>
  { c with
    socket := false
    buffer := false
    session := { c.session with result := none }
    free := c.free + 1 }

def onSession (m : SessionInfo.Handler π τ α) : Action π δ τ α := ⟨fun c =>
  match m c.session with
  | .ok a s => some (.ok a, { c with session := s })
  | .error e s => some (.error e, { c with session := s })⟩

def currentPlan : Action π δ τ π := do
  match (← get).session.plan with
  | none => undefined
  | some p => return p

def called (c : Connection π δ τ) (p : π) (db : δ) : Connection π δ τ :=
  { c with
    session := { c.session with plan := some p, terminate := c.session.terminate || (c.raises.headD none).isSome }
    db := db
    raises := c.raises.tail }

/-- A call on the plan, during which the flag may be raised. -/
def callPlan (m : Option Nat → EStateM Fault (π × δ) α) : Action π δ τ α := ⟨fun c =>
  match c.session.plan with
  | none => some (.error .undefined, c)
  | some p =>
    match m (Server.seen c.session (c.raises.headD none)) (p, c.db) with
    | .ok a (p, db) => some (.ok a, c.called p db)
    | .error e (p, db) => some (.error e, c.called p db)⟩

def onPlan (m : δ → EStateM Fault π α) : EStateM Fault (π × δ) α := fun (p, db) =>
  match m db p with
  | .ok a p => .ok a (p, db)
  | .error e p => .error e (p, db)

def readMessageType : Action π δ τ Unit := launch (.read 1 .messageType)

def readLen : Action π δ τ Unit := launch (.read 4 .length)

variable (engine : Engine π δ τ)

section

/-! The handlers, with the `doWrite` they call. -/

variable (doWrite : Bytes → Continuation → Action π δ τ Unit)

def handleExecutionDone : Action π δ τ Unit := do
  callPlan fun _ => engine.end
  let p ← currentPlan
  modify fun c => { c with session := { c.session with plan := none } }
  onSession (SessionInfo.onResult (modify ParseResult.restore))
  let s := (← get).session
  modify fun c => { c with session := { c.session with parsed := false, binded := false } }
  doWrite (buildExecutionDone blockSize s.parsed s.binded (engine.getInfoString p) (s.qtype = char "Q")) .readMessageType

/-- The condition of the loop of `handleExecutionResult`, and what follows the loop. -/
def nextRow (again : PgDataWriter → Action π δ τ Unit) (w : PgDataWriter) : Action π δ τ Unit := do
  if ← callPlan fun raised => onPlan fun _ => engine.next raised then again w
  else doWrite w.prepared .handleExecutionDone

def buildRow (columnNum : Nat) (again : PgDataWriter → Action π δ τ Unit) (w : PgDataWriter) : Action π δ τ Unit := do
  if columnNum = 0 then nextRow engine doWrite again w
  else
    let p ← currentPlan
    match buildData engine.conv engine.fmt (SessionInfo.currentRow engine p columnNum) w with
    | .error f => throw f
    | .ok w =>
      if w.full then doWrite w.prepared .handleExecutionResult else nextRow engine doWrite again w

def sendRows (columnNum : Nat) : Nat → PgDataWriter → Action π δ τ Unit
  | 0, _ => Call.diverge
  | fuel + 1, w => buildRow engine doWrite columnNum (sendRows columnNum fuel) w

def handleExecutionResult (fuel : Nat) : Action π δ τ Unit := do
  let p ← currentPlan
  sendRows engine doWrite (engine.getResultColumns p) fuel { size := blockSize }

def handleExecutionBegin (fuel : Nat) : Action π δ τ Unit := do
  callPlan fun raised => onPlan (engine.begin raised)
  if ← callPlan fun raised => onPlan fun _ => engine.next raised then handleExecutionResult engine doWrite fuel
  else handleExecutionDone engine doWrite

def invoke (fuel : Nat) : Continuation → Action π δ τ Unit
  | .readMessageType => readMessageType
  | .readLen => readLen
  | .handleExecutionBegin => handleExecutionBegin engine doWrite fuel
  | .handleExecutionResult => handleExecutionResult engine doWrite fuel
  | .handleExecutionDone => handleExecutionDone engine doWrite

/-- The catch clause of `doWrite`. -/
def caught (f : Fault) : Action π δ τ Unit := do
  match f with
  | .undefined => undefined
  | .thrown e =>
    let s := (← get).session
    if s.qtype = 0 then «end»
    else doWrite (buildException blockSize (SessionInfo.what e) (-1) (s.qtype = char "Q")) .readMessageType

/-- The handler of `doWrite`, when the write has not failed. -/
def written (fuel : Nat) (fn : Continuation) : Action π δ τ Unit :=
  tryCatch (invoke engine doWrite fuel fn) (caught doWrite)

end

/-- Nothing to write: the handler is called at once. -/
def doWrite : Nat → Bytes → Continuation → Action π δ τ Unit
  | 0, _, _ => Call.diverge
  | fuel + 1, out, fn => if out = [] then written engine (doWrite fuel) fuel fn else launch (.write out fn)

def cancelTarget (block : Bytes) (len : Nat) : Fallible (Option Nat) := do
  let (proto, r) ← ({ block, len } : PgDataReader).getNextInt
  if proto = cancelRequestCode then
    let (iBackendPID, r) ← r.getNextInt
    let _ ← r.getNextInt
    return some (iBackendPID % 2 ^ 32).toNat
  else return none

/-- `getSession` and `cancel`: only an assertion checks the index. -/
def cancelSession (i : Nat) : Action π δ τ Unit := do
  let c ← get
  if c.sessions ≤ i then undefined
  else if i = c.session.index then set { c with session := { c.session with terminate := true } }

def cancelRequested : Option Nat → Action π δ τ Unit
  | none => return ()
  | some i => cancelSession i

variable (fuel : Nat)

def handleStartup (block : Bytes) (len : Nat) : Action π δ τ Unit := do
  let target ← onSession (SessionInfo.liftFallible (cancelTarget block len))
  cancelRequested target
  match ← onSession (SessionInfo.liftFallible (readStartup block len)) with
  | .ssl => doWrite engine fuel (bytes "N") .readLen
  | .normal => doWrite engine fuel (buildStartupResponse blockSize (← get).session.index) .readMessageType

def handleSync : Action π δ τ Unit := doWrite engine fuel (buildSync blockSize) .readMessageType

/-- The description of the columns of a plan, which is not empty. -/
def describe (p : π) (columnNum : Nat) : Action π δ τ Bytes := do
  let out ← onSession (SessionInfo.describePlan engine p columnNum)
  if out = [] then throw (.thrown (.io "Not enough network buffer")) else return out

def handleQuery (block : Bytes) (len : Nat) : Action π δ τ Unit := do
  let sql ← onSession (SessionInfo.liftFallible (readQueryInfo block len))
  onSession (SessionInfo.parse engine sql)
  onSession (SessionInfo.resolve engine)
  modify fun c => { c with session := { c.session with parsed := false, binded := false } }
  let p ← currentPlan
  let columnNum := engine.getResultColumns p
  if 0 < columnNum then
    let out ← describe engine p columnNum
    doWrite engine fuel out .handleExecutionBegin
  else handleExecutionBegin engine (doWrite engine fuel) fuel

def handleParse (block : Bytes) (len : Nat) : Action π δ τ Unit := do
  let (sql, iParamNum) ← onSession (SessionInfo.liftFallible (readParseInfo block len))
  onSession (SessionInfo.parse engine sql)
  let r ← onSession (SessionInfo.onResult get)
  if iParamNum ≠ r.params then
    throw (.thrown (parseError ("Parameter number unmatch!, expect " ++ toString iParamNum ++ ", actual " ++
      toString r.params)))
  modify fun c => { c with session := { c.session with parsed := true, binded := false } }
  readMessageType

def handleBind (block : Bytes) (len : Nat) : Action π δ τ Unit := do
  onSession (SessionInfo.onResult (modify ParseResult.setMark))
  let r ← onSession (SessionInfo.onResult get)
  let params ← onSession (SessionInfo.liftFallible (readBindParam block len r.params))
  onSession (SessionInfo.onResult (ParseResult.bindAll engine 0 params))
  modify fun c => { c with session := { c.session with binded := true } }
  onSession (SessionInfo.resolve engine)
  readMessageType

def handleDescription (block : Bytes) (len : Nat) : Action π δ τ Unit := do
  onSession (SessionInfo.liftFallible (readColumnDescribeInfo block len))
  match (← get).session.plan with
  | none => readMessageType
  | some p =>
    let columnNum := engine.getResultColumns p
    if columnNum = 0 then readMessageType
    else
      let out ← describe engine p columnNum
      doWrite engine fuel out .readMessageType

def handleExecution : Action π δ τ Unit := handleExecutionBegin engine (doWrite engine fuel) fuel

/-- `m_handler`. -/
def handler (type : UInt8) (block : Bytes) (len : Nat) : Option (Action π δ τ Unit) :=
  if type = 0 then some (handleStartup engine fuel block len)
  else if type = char "S" then some (handleSync engine fuel)
  else if type = char "Q" then some (handleQuery engine fuel block len)
  else if type = char "P" then some (handleParse engine block len)
  else if type = char "B" then some (handleBind engine block len)
  else if type = char "D" then some (handleDescription engine fuel block len)
  else if type = char "E" then some (handleExecution engine fuel)
  else none

/-- The catch clauses of `readData`: what is written, or nothing when the startup has failed. -/
def failed (f : Fault) : Action π δ τ (Option Bytes) := do
  match f with
  | .undefined => undefined
  | .thrown e =>
    let s := (← get).session
    if s.qtype = 0 then return none
    else return some (buildException blockSize (SessionInfo.what e) (SessionInfo.startPos e) (s.qtype = char "Q"))

def attempt (h : Action π δ τ Unit) : Action π δ τ (Option Bytes) :=
  tryCatch (do
    h
    return some []) failed

/-- What follows the `try` of `readData`. -/
def respond : Option Bytes → Action π δ τ Bool
  | none => return false
  | some iWritten =>
    if iWritten = [] then return true
    else do
      doWrite engine fuel iWritten .readMessageType
      return true

/-- The handler of `readData`. -/
def dataHandler (block : Bytes) (len : Nat) : Action π δ τ Bool := do
  match handler engine fuel (← get).session.qtype block len with
  | none => return false
  | some h => do
    let iWritten ← attempt h
    respond engine fuel iWritten

/-- What `doRead` does when the handler has returned. -/
def finish (ok : Bool) : Action π δ τ Unit := if ok then return () else «end»

/-- Nothing to read: the handler is called at once. -/
def readData (block : Bytes) (len : Nat) : Action π δ τ Unit := do
  if len = 0 then
    let ok ← dataHandler engine fuel block 0
    finish ok
  else launch (.read len .data)

def lengthHandler (block : Bytes) : Action π δ τ Bool := do
  let iLen := ofBig (block.take 4)
  if iLen < 4 then return false
  else if blockSize < iLen - 4 then return false
  else
    readData engine fuel block (iLen - 4)
    return true

def typeHandler (block : Bytes) : Action π δ τ Bool := do
  let type := block.headD 0
  modify fun c => { c with session := { c.session with qtype := type } }
  if type = char "X" ∨ type = 0 then return false
  else
    readLen
    return true

def readHandler (block : Bytes) (len : Nat) : ReadHandler → Action π δ τ Bool
  | .length => lengthHandler engine fuel block
  | .messageType => typeHandler block
  | .data => dataHandler engine fuel block len

/-- `start`, when the memory pool has these blocks. -/
def start (parseBlock networkBlock : Bool) : Action π δ τ Unit := do
  modify fun c => { c with session := { c.session with qtype := 0 } }
  if !parseBlock then throw (.thrown (parseError "Not enough parse buffer blocks"))
  modify fun c => { c with session := { c.session with result := some {} }, buffer := networkBlock }
  readLen

/-- The handler of `startAccept`. -/
def accepted (failed : Bool) (a : Arrival) : Action π δ τ Unit := do
  if failed then «end»
  else
    tryCatch (start a.parseBlock a.networkBlock) fun f => do
      match f with
      | .undefined => undefined
      | .thrown _ => «end»

def complete (op : Operation) (failed : Bool) (a : Arrival) : Action π δ τ Unit := do
  match op with
  | .accept => accepted failed a
  | .read len fn =>
    if failed then «end»
    else
      let ok ← readHandler engine fuel a.block len fn
      finish ok
  | .write _ fn => if failed then «end» else written engine (doWrite engine fuel) fuel fn

def handle (e : Completion δ) : Action π δ τ Unit := do
  match e with
  | .completes i failed a =>
    let c ← get
    match c.outstanding[i]? with
    | none => return ()
    | some op =>
      set { c with outstanding := c.outstanding.eraseIdx i, raises := a.raises }
      complete engine fuel op failed a
  | .allocSession =>
    let c ← get
    if 0 < c.free then set { c with free := c.free - 1, socket := true, outstanding := c.outstanding ++ [Operation.accept] }
  | .cancel => modify fun c => { c with session := { c.session with terminate := true } }
  | .opened => modify fun c => { c with sessions := c.sessions + 1 }
  | .commit db => modify fun c => { c with db := db }

end Connection

end LevelPgServer
