import Mathlib.Tactic

namespace LevelPgServer

abbrev Bytes := List UInt8

instance : LawfulBEq Bytes := inferInstance

def bytes (s : String) : Bytes := s.toList.map (fun c => UInt8.ofNat c.toNat)

/-- A byte string as it is shown inside an error message. -/
def text (b : Bytes) : String := String.ofList (b.map (fun c => Char.ofNat c.toNat))

/-- The three exception classes of the server, with the text `what()` returns.
`ParseException` also carries the column it reports to the client. -/
inductive Exn
  | parse (what : String) (startPos : Int)
  | execution (what : String)
  | io (what : String)
  deriving DecidableEq, Repr

def parseError (what : String) : Exn := .parse what (-1)

/-- How a computation stops early: with an exception, or in behaviour the language
leaves undefined, such as a read past the end of a buffer. -/
inductive Fault
  | thrown (e : Exn)
  | undefined
  deriving DecidableEq, Repr

abbrev Fallible := Except Fault

def throwExecution {α : Type} (what : String) : Fallible α := .error (.thrown (.execution what))

def throwParse {α : Type} (what : String) : Fallible α := .error (.thrown (parseError what))

end LevelPgServer

namespace LevelPgServer.ParseNode

inductive NodeType
  | int | str | binary | date | float | none | parent | name | op | func | info | param | list | plan
  deriving DecidableEq, Repr

inductive Operation
  | none
  | compEq | compNe | compLe | compLt | compGt | compGe | compLike | compIn | compNotIn
  | minus | add | sub | div | mul | mod
  | member | as
  | and | or
  | asc | desc
  | allColumns
  | showTables | descTable | select | insert | remove | explain | values | selectWithSubquery
  | textParam | binaryParam | unboundParam
  deriving DecidableEq, Repr

end LevelPgServer.ParseNode

namespace LevelPgServer

open ParseNode (NodeType Operation)

/-- A node of the parse tree. `null` is the null pointer the grammar leaves for an
absent clause. -/
inductive ParseNode
  | null
  | node (type : NodeType) (op : Operation) (sExpr : Bytes) (sValue : Bytes) (children : List ParseNode)
  deriving Repr

namespace ParseNode

def type : ParseNode → NodeType
  | null => .none
  | node t _ _ _ _ => t

def getOp : ParseNode → Operation
  | null => .none
  | node _ op _ _ _ => op

def sExpr : ParseNode → Bytes
  | null => []
  | node _ _ e _ _ => e

def getString : ParseNode → Bytes
  | null => []
  | node _ _ _ s _ => s

def children : ParseNode → List ParseNode
  | null => []
  | node _ _ _ _ cs => cs

def getChild (p : ParseNode) (i : Nat) : ParseNode := p.children.getD i null

def setString (value : Bytes) : ParseNode → ParseNode
  | null => null
  | node t op e _ cs => node t op e value cs

@[simp] theorem type_node (t : NodeType) (op : Operation) (e s : Bytes) (cs : List ParseNode) :
    (node t op e s cs).type = t := rfl
@[simp] theorem getOp_node (t : NodeType) (op : Operation) (e s : Bytes) (cs : List ParseNode) :
    (node t op e s cs).getOp = op := rfl
@[simp] theorem sExpr_node (t : NodeType) (op : Operation) (e s : Bytes) (cs : List ParseNode) :
    (node t op e s cs).sExpr = e := rfl
@[simp] theorem getString_node (t : NodeType) (op : Operation) (e s : Bytes) (cs : List ParseNode) :
    (node t op e s cs).getString = s := rfl
@[simp] theorem children_node (t : NodeType) (op : Operation) (e s : Bytes) (cs : List ParseNode) :
    (node t op e s cs).children = cs := rfl

def isConst (p : ParseNode) : Bool :=
  match p.type with
  | .int | .str | .binary | .date | .float | .param => true
  | _ => false

def isTrueConst (p : ParseNode) : Bool :=
  match p.type with
  | .int => p.getString != bytes "0"
  | _ => false

def isFalseConst (p : ParseNode) : Bool :=
  match p.type with
  | .int => p.getString == bytes "0"
  | _ => false

/-- `sizeof(ParseNode)` and `sizeof(ParseNode*)` on the 64-bit targets. -/
def sizeofNode : Nat := 64
def sizeofPointer : Nat := 8

end ParseNode

/-- `GlobalMemBlockPool::BLOCK_SIZE`: the size of the parse buffer and of the network buffer. -/
def blockSize : Nat := 512 * 1024

end LevelPgServer
