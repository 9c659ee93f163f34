import LevelPgServer.Execution.LevelDBInsertPlan
import LevelPgServer.Lib.WriteBatch

namespace LevelPgServer

open DataRow KeyOrder ExceptRules ThreeWay WriteBatch

/-- One operation of a `LevelDBBatch`: a key and a value to insert, or a key to remove. -/
abbrev BatchOp := WriteBatch.Op Bytes Bytes

/-- The contents of all tables, by name, and the error with which LevelDB refuses writes, if
it does. -/
structure Database where
  tables : Bytes → LevelDB
  status : Option String := none

namespace Database

variable (conv : Conversions)

def write (t : TableInfo) (batch : List BatchOp) (db : Database) : Database :=
  { db with tables := Function.update db.tables t.name (applyAll (keyCompare conv t.keyTypes) batch (db.tables t.name)) }

/-- `LevelDBHandler::commit`. -/
def commit (t : TableInfo) (batch : List BatchOp) : EStateM Fault Database Unit := fun db =>
  match db.status with
  | some e => .error (.thrown (.execution ("Failed to write to leveldb" ++ e))) db
  | none => .ok () (db.write conv t batch)

@[simp] theorem write_nil (t : TableInfo) (db : Database) : db.write conv t [] = db := by simp [write]

end Database

/-- What a plan offers to a statement that writes its rows; `raised` is as in a session:
after that many more checks a call sees `m_bTerminate` set. -/
structure SourcePlan (σ δ : Type) where
  «begin» : Option Nat → δ → EStateM Fault σ Unit
  next : Option Nat → EStateM Fault σ Bool
  «end» : EStateM Fault σ Unit
  getResultColumns : σ → Nat
  getProjectionName : σ → Nat → Bytes
  getResultType : σ → Nat → Fallible DBDataType
  addProjection : ParseNode → EStateM Fault σ (Option Nat)
  getResult : σ → Nat → DBDataType → Fallible ExecutionResult

namespace SourcePlan

variable {σ δ : Type} (source : SourcePlan σ δ)

/-- The values of the current row for the columns of a table. -/
def readRow (t : TableInfo) (child : σ) : Fallible (List ExecutionResult) :=
  t.columns.zipIdx.mapM (fun p => source.getResult child p.2 p.1.type)

theorem length_readRow {t : TableInfo} {child : σ} {row : List ExecutionResult} (h : source.readRow t child = .ok row) :
    row.length = t.columns.length := by
  simpa using (forall₂_of_mapM_ok h).length_eq.symm

end SourcePlan

structure InsertStatement (σ : Type) where
  plan : LevelDBInsertPlan
  state : LevelDBInsertPlan.State
  child : σ

namespace LevelDBInsertPlan

variable {σ δ : Type} (conv : Conversions) (source : SourcePlan σ δ)

def onChild {α : Type} (f : EStateM Fault σ α) : EStateM Fault (InsertStatement σ) α := fun s =>
  match f s.child with
  | .ok a c => .ok a { s with child := c }
  | .error e c => .error e { s with child := c }

def beginStatement (raised : Option Nat) (db : δ) : EStateM Fault (InsertStatement σ) Unit := fun s =>
  if source.getResultColumns s.child ≠ s.plan.table.getColumnCount then
    .error (.thrown (.execution "the numbers of insert columns and values are not matched")) s
  else onChild (source.begin raised db) { s with state := { s.state with insertRows := 0 } }

def nextStatement (raised : Option Nat) : EStateM Fault (InsertStatement σ) Bool := fun s =>
  match onChild (source.next raised) s with
  | .error f s => .error f s
  | .ok false s => .ok false s
  | .ok true s =>
    match source.readRow s.plan.table s.child >>= fun row => s.plan.next conv row s.state with
    | .error f => .error f s
    | .ok state => .ok true { s with state }

def batch (s : InsertStatement σ) : List BatchOp := s.state.batch.map (fun e => .put e.1 e.2)

def endStatement : EStateM Fault (InsertStatement σ × Database) Unit := fun (s, db) =>
  match onChild source.end s with
  | .error f s => .error f (s, db)
  | .ok _ s =>
    match Database.commit conv s.plan.table (batch s) db with
    | .ok _ db => .ok () (s, db)
    | .error f db => .error f (s, db)

end LevelDBInsertPlan

structure LevelDBDeletePlan (σ : Type) where
  table : TableInfo
  child : σ
  rowkeyProjection : Option Nat := none
  deleteRows : Nat := 0
  batch : List Bytes := []

namespace LevelDBDeletePlan

variable {σ δ : Type} (conv : Conversions) (source : SourcePlan σ δ)

def onChild {α : Type} (f : EStateM Fault σ α) : EStateM Fault (LevelDBDeletePlan σ) α := fun s =>
  match f s.child with
  | .ok a c => .ok a { s with child := c }
  | .error e c => .error e { s with child := c }

def rowkeyNode : ParseNode := .node .name .none Tools.rowKey Tools.rowKey []

def «begin» (raised : Option Nat) (db : δ) : EStateM Fault (LevelDBDeletePlan σ) Unit := fun s =>
  match onChild (source.addProjection rowkeyNode) s with
  | .error f s => .error f s
  | .ok rowkeyProjection s => onChild (source.begin raised db) { s with rowkeyProjection, deleteRows := 0 }

def readKey (rowkeyProjection : Option Nat) (child : σ) : Fallible Bytes :=
  match rowkeyProjection with
  | none => .error .undefined
  | some i => source.getResult child i .bytes >>= ExecutionResult.getString conv

def next (raised : Option Nat) : EStateM Fault (LevelDBDeletePlan σ) Bool := fun s =>
  match onChild (source.next raised) s with
  | .error f s => .error f s
  | .ok false s => .ok false s
  | .ok true s =>
    match readKey conv source s.rowkeyProjection s.child with
    | .error f => .error f s
    | .ok key => .ok true { s with batch := s.batch ++ [key], deleteRows := s.deleteRows + 1 }

def «end» : EStateM Fault (LevelDBDeletePlan σ × Database) Unit := fun (s, db) =>
  match onChild source.end s with
  | .error f s => .error f (s, db)
  | .ok _ s =>
    match Database.commit conv s.table (s.batch.map .remove) db with
    | .ok _ db => .ok () (s, db)
    | .error f db => .error f (s, db)

end LevelDBDeletePlan

end LevelPgServer
