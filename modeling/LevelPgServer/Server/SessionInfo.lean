import LevelPgServer.Server.PostgresProtocol

namespace LevelPgServer

open PostgresProtocol

/-- The operations of a plan. `raised` tells a call when it sees `m_bTerminate` set: after
that many more checks of it, or never. -/
structure ExecutionPlan (π δ : Type) where
  «begin» : Option Nat → δ → EStateM Fault π Unit
  next : Option Nat → EStateM Fault π Bool
  «end» : EStateM Fault (π × δ) Unit
  getResultColumns : π → Nat
  getProjectionName : π → Nat → Bytes
  getResultType : π → Nat → Fallible DBDataType
  getResult : π → Nat → Fallible ExecutionResult
  getInfoString : π → Bytes

/-- What the parser and the rewriter leave behind: the tree, the number of parameters in
it, the sizes of what they have allocated, and the error they end with. -/
structure ParseOutcome (τ : Type) where
  tree : Option τ
  params : Nat
  allocs : List Nat
  error : Option Exn

/-- The parts of the server that a session calls: the parser, the builder of plans, the
plans, the printing of numbers and times. -/
structure Engine (π δ τ : Type) extends ExecutionPlan π δ where
  parseSql : Bytes → ParseOutcome τ
  setBindParamMode : Nat → Bool → τ → τ
  setString : Nat → Bytes → τ → τ
  buildPlan : τ → Fallible π
  emptyPlan : π
  conv : Conversions
  fmt : Formats

/-- A range of the parse buffer: its first byte and its size. -/
structure Region where
  start : Nat
  size : Nat
  deriving DecidableEq, Repr

namespace Region

def stop (r : Region) : Nat := r.start + r.size

def Disjoint (a b : Region) : Prop := a.stop ≤ b.start ∨ b.stop ≤ a.start

def consecutive : Nat → List Nat → List Region
  | _, [] => []
  | cur, n :: ns => ⟨cur, n⟩ :: consecutive (cur + n) ns

end Region

/-- `statement` are the ranges of the text and of all that was allocated while it was parsed,
`strings` those of the bind values allocated since. -/
structure ParseResult (τ : Type) where
  tree : Option τ := none
  params : Nat := 0
  statement : List Region := []
  strings : List Region := []
  current : Nat := 0
  mark : Nat := 0
  deriving DecidableEq

namespace ParseResult

variable {π δ τ : Type}

def alloc (size : Nat) : EStateM Fault (ParseResult τ) Region := fun r =>
  if blockSize < r.current + size then .error (.thrown (parseError "Not enough parse buffer")) r
  else .ok ⟨r.current, size⟩ { r with current := r.current + size }

def parse (engine : Engine π δ τ) (sql : Bytes) : EStateM Fault (ParseResult τ) Unit := do
  modify fun r => { r with tree := none, params := 0, statement := [], strings := [], current := 0 }
  let sSql ← alloc (sql.length + 1)
  let o := engine.parseSql sql
  modify fun r =>
    { r with
      tree := o.tree
      params := o.params
      statement := sSql :: Region.consecutive r.current o.allocs
      current := r.current + o.allocs.sum }
  match o.error with
  | some e => throw (.thrown e)
  | none => return ()

/-- The loop of `handleBind` over the parameters. -/
def bindAll (engine : Engine π δ τ) : Nat → List (Bool × Bytes) → EStateM Fault (ParseResult τ) Unit
  | _, [] => return ()
  | i, (binary, value) :: params => do
    modify fun r => { r with tree := r.tree.map (engine.setBindParamMode i binary) }
    let s ← alloc value.length
    modify fun r => { r with tree := r.tree.map (engine.setString i value), strings := r.strings ++ [s] }
    bindAll engine (i + 1) params

def setMark (r : ParseResult τ) : ParseResult τ := { r with mark := r.current }

def restore (r : ParseResult τ) : ParseResult τ := { r with current := r.mark }

end ParseResult

/-- What `doWrite` is told to call. -/
inductive Continuation
  | readMessageType | readLen | handleExecutionBegin | handleExecutionResult | handleExecutionDone
  deriving DecidableEq, Repr

/-- Where a session stands: waiting for a message, for its length alone or for the end of a
write; about to call `begin`, the first `next`, `buildData`, the `next` of the loop or `end`
of its plan; after `end()`; or in undefined behaviour. -/
inductive Control
  | reading
  | readingLength
  | writing (out : Bytes) (fn : Continuation)
  | beginning
  | firstNext
  | building (columnNum : Nat) (writer : PgDataWriter)
  | looping (columnNum : Nat) (writer : PgDataWriter)
  | finishing
  | closed
  | undefined
  deriving DecidableEq

structure SessionInfo (π τ : Type) where
  index : Nat
  plan : Option π := none
  result : Option (ParseResult τ) := none
  terminate : Bool := false
  binded : Bool := false
  parsed : Bool := false
  qtype : UInt8 := 0
  control : Control := .closed

namespace SessionInfo

variable {π δ τ : Type}

abbrev Handler (π τ : Type) := EStateM Fault (SessionInfo π τ)

def onResult {α : Type} (f : EStateM Fault (ParseResult τ) α) : Handler π τ α := fun s =>
  match s.result with
  | none => .error .undefined s
  | some r =>
    match f r with
    | .ok a r => .ok a { s with result := some r }
    | .error e r => .error e { s with result := some r }

def start (s : SessionInfo π τ) : SessionInfo π τ :=
  { s with qtype := 0, result := some {}, control := .readingLength }

def close (s : SessionInfo π τ) : SessionInfo π τ := { s with result := none, control := .closed }

variable (engine : Engine π δ τ)

def enter (fn : Continuation) (s : SessionInfo π τ) : SessionInfo π τ :=
  match fn with
  | .readMessageType => { s with control := .reading }
  | .readLen => { s with control := .readingLength }
  | .handleExecutionBegin => { s with control := .beginning }
  | .handleExecutionDone => { s with control := .finishing }
  | .handleExecutionResult =>
    match s.plan with
    | none => { s with control := .undefined }
    | some p => { s with control := .building (engine.getResultColumns p) { size := blockSize } }

/-- Nothing to write: the continuation is called at once. -/
def doWrite (out : Bytes) (fn : Continuation) (s : SessionInfo π τ) : SessionInfo π τ :=
  if out = [] then s.enter engine fn else { s with control := .writing out fn }

def bypassed (sql : Bytes) : Bool :=
  [bytes "DEALLOCATE", bytes "SET ", bytes "BEGIN", bytes "COMMIT"].any
    (fun p => Tools.equalsIgnoreCase (sql.take p.length) p)

def parse (sql : Bytes) : Handler π τ Unit := do
  onResult (modify fun r => { r with tree := none })
  if bypassed sql then return () else onResult (ParseResult.parse engine sql)

def liftFallible {α : Type} (x : Fallible α) : Handler π τ α :=
  match x with
  | .ok a => return a
  | .error f => throw f

def resolve : Handler π τ Unit := do
  let r ← onResult get
  match r.tree with
  | none => modify fun s => { s with plan := some engine.emptyPlan }
  | some tree =>
    let plan ← liftFallible (engine.buildPlan tree)
    modify fun s => { s with plan := some plan }

def descriptions (p : π) (columnNum : Nat) : Fallible (List (Bytes × DBDataType)) :=
  (List.range columnNum).mapM (fun i => do
    let type ← engine.getResultType p i
    return (engine.getProjectionName p i, type))

def currentRow (p : π) (columnNum : Nat) : List (Fallible (DBDataType × ExecutionResult)) :=
  (List.range columnNum).map (fun i => do
    let type ← engine.getResultType p i
    let result ← engine.getResult p i
    return (type, result))

def describePlan (p : π) (columnNum : Nat) : Handler π τ Bytes :=
  liftFallible (do
    let columns ← descriptions engine p columnNum
    buildColumnDescription blockSize columns)

def handleStartup (block : Bytes) (len : Nat) : Handler π τ Unit := do
  match ← liftFallible (readStartup block len) with
  | .ssl => modify (doWrite engine (bytes "N") .readLen)
  | .normal => modify fun s => s.doWrite engine (buildStartupResponse blockSize s.index) .readMessageType

def handleSync : Handler π τ Unit := modify (doWrite engine (buildSync blockSize) .readMessageType)

def handleQuery (block : Bytes) (len : Nat) : Handler π τ Unit := do
  let sql ← liftFallible (readQueryInfo block len)
  parse engine sql
  resolve engine
  modify fun s => { s with parsed := false, binded := false }
  match (← get).plan with
  | none => throw .undefined
  | some p =>
    let columnNum := engine.getResultColumns p
    if 0 < columnNum then
      let out ← describePlan engine p columnNum
      modify (doWrite engine out .handleExecutionBegin)
    else modify (enter engine .handleExecutionBegin)

def handleParse (block : Bytes) (len : Nat) : Handler π τ Unit := do
  let (sql, iParamNum) ← liftFallible (readParseInfo block len)
  parse engine sql
  let r ← onResult get
  if iParamNum ≠ r.params then
    throw (.thrown (parseError ("Parameter number unmatch!, expect " ++ toString iParamNum ++ ", actual " ++
      toString r.params)))
  modify fun s => { s with parsed := true, binded := false }
  modify (enter engine .readMessageType)

def handleBind (block : Bytes) (len : Nat) : Handler π τ Unit := do
  onResult (modify ParseResult.setMark)
  let r ← onResult get
  let params ← liftFallible (readBindParam block len r.params)
  onResult (ParseResult.bindAll engine 0 params)
  modify fun s => { s with binded := true }
  resolve engine
  modify (enter engine .readMessageType)

def handleDescription (block : Bytes) (len : Nat) : Handler π τ Unit := do
  liftFallible (readColumnDescribeInfo block len)
  match (← get).plan with
  | none => modify (enter engine .readMessageType)
  | some p =>
    let columnNum := engine.getResultColumns p
    if columnNum = 0 then modify (enter engine .readMessageType)
    else
      let out ← describePlan engine p columnNum
      modify (doWrite engine out .readMessageType)

def handleExecution : Handler π τ Unit := modify (enter engine .handleExecutionBegin)

def handler (type : UInt8) (block : Bytes) (len : Nat) : Option (Handler π τ Unit) :=
  if type = 0 then some (handleStartup engine block len)
  else if type = char "S" then some (handleSync engine)
  else if type = char "Q" then some (handleQuery engine block len)
  else if type = char "P" then some (handleParse engine block len)
  else if type = char "B" then some (handleBind engine block len)
  else if type = char "D" then some (handleDescription engine block len)
  else if type = char "E" then some (handleExecution engine)
  else none

def what : Exn → Bytes
  | .parse s _ | .execution s | .io s => bytes s

def startPos : Exn → Int
  | .parse _ pos => pos
  | _ => -1

/-- The catch clauses of `readData` and `doWrite`; no exception of a plan has a position. -/
def caught (f : Fault) (s : SessionInfo π τ) : SessionInfo π τ :=
  match f with
  | .undefined => { s with control := .undefined }
  | .thrown e =>
    if s.qtype = 0 then s.close
    else s.doWrite engine (buildException blockSize (what e) (startPos e) (s.qtype = char "Q")) .readMessageType

def readData (block : Bytes) (len : Nat) (s : SessionInfo π τ) : SessionInfo π τ :=
  match handler engine s.qtype block len with
  | none => s.close
  | some h =>
    match h s with
    | .ok _ s => s
    | .error f s => s.caught engine f

/-- The handler of `readLen`: `length` counts its own four bytes. -/
def readLen (length : Nat) (block : Bytes) (s : SessionInfo π τ) : SessionInfo π τ :=
  if length < 4 ∨ blockSize < length - 4 then s.close else s.readData engine block (length - 4)

def readMessage (type : UInt8) (length : Nat) (block : Bytes) (s : SessionInfo π τ) : SessionInfo π τ :=
  if type = char "X" ∨ type = 0 then { s with qtype := type }.close
  else { s with qtype := type }.readLen engine length block

end SessionInfo

/-- A session and the database it shares with the others. -/
structure Server (π δ τ : Type) where
  session : SessionInfo π τ
  db : δ

/-- What can happen next: a message comes in, whose block holds the payload and what the
block held before; reading fails; a write ends or fails; the session goes on, and the flag
may be set while it does; a cancel request comes; another session changes the database. -/
inductive Event (δ : Type)
  | message (type : UInt8) (length : Nat) (block : Bytes)
  | readError
  | written
  | writeError
  | tick (raised : Option Nat)
  | cancel
  | commit (db : δ)

namespace Server

variable {π δ τ : Type} (engine : Engine π δ τ)

open SessionInfo

def seen (s : SessionInfo π τ) (raised : Option Nat) : Option Nat := if s.terminate then some 0 else raised

def handleExecutionDone (p : π) (s : Server π δ τ) : Server π δ τ :=
  match engine.end (p, s.db) with
  | .error f (p, db) => ⟨{ s.session with plan := some p }.caught engine f, db⟩
  | .ok _ (p, db) =>
    match s.session.result with
    | none => ⟨{ s.session with plan := none, control := .undefined }, db⟩
    | some r =>
      let t := { s.session with plan := none, result := some r.restore, parsed := false, binded := false }
      ⟨t.doWrite engine (buildExecutionDone blockSize s.session.parsed s.session.binded (engine.getInfoString p)
        (s.session.qtype = char "Q")) .readMessageType, db⟩

def tick (raised : Option Nat) (p : π) (s : Server π δ τ) : Server π δ τ :=
  let t := { s.session with terminate := s.session.terminate || raised.isSome }
  let again (p : π) (control : Control) : Server π δ τ := ⟨{ t with plan := some p, control := control }, s.db⟩
  let failed (p : π) (f : Fault) : Server π δ τ := ⟨{ t with plan := some p }.caught engine f, s.db⟩
  match s.session.control with
  | .beginning =>
    match engine.begin (seen s.session raised) s.db p with
    | .ok _ p => again p .firstNext
    | .error f p => failed p f
  | .firstNext =>
    match engine.next (seen s.session raised) p with
    | .ok true p => again p (.building (engine.getResultColumns p) { size := blockSize })
    | .ok false p => again p .finishing
    | .error f p => failed p f
  | .building columnNum w =>
    if columnNum = 0 then again p (.looping columnNum w)
    else
      match buildData engine.conv engine.fmt (currentRow engine p columnNum) w with
      | .error f => failed p f
      | .ok w =>
        if w.full then ⟨t.doWrite engine w.prepared .handleExecutionResult, s.db⟩
        else again p (.looping columnNum w)
  | .looping columnNum w =>
    match engine.next (seen s.session raised) p with
    | .ok true p => again p (.building columnNum w)
    | .ok false p => ⟨{ t with plan := some p }.doWrite engine w.prepared .handleExecutionDone, s.db⟩
    | .error f p => failed p f
  | .finishing => handleExecutionDone engine p { s with session := t }
  | _ => s

/-- Events that cannot happen where a session stands change nothing. -/
def step (s : Server π δ τ) (e : Event δ) : Server π δ τ :=
  match e, s.session.control with
  | .message type length block, .reading => { s with session := s.session.readMessage engine type length block }
  | .message _ length block, .readingLength => { s with session := s.session.readLen engine length block }
  | .readError, .reading | .readError, .readingLength => { s with session := s.session.close }
  | .written, .writing _ fn => { s with session := s.session.enter engine fn }
  | .writeError, .writing _ _ => { s with session := s.session.close }
  | .tick raised, .beginning | .tick raised, .firstNext | .tick raised, .building _ _ | .tick raised, .looping _ _
  | .tick raised, .finishing =>
    match s.session.plan with
    | none => { s with session := { s.session with control := .undefined } }
    | some p => tick engine raised p s
  | .cancel, _ => { s with session := { s.session with terminate := true } }
  | .commit db, _ => { s with db := db }
  | _, _ => s

def run (s : Server π δ τ) (es : List (Event δ)) : Server π δ τ := es.foldl (step engine) s

end Server

end LevelPgServer
