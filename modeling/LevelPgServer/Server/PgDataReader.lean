import LevelPgServer.Execution.ExecutionResult
import LevelPgServer.Lib.ByteOrder

namespace LevelPgServer

open ByteOrder

def throwIO {α : Type} (what : String) : Fallible α := .error (.thrown (.io what))

/-- The block holds the payload and, behind it, whatever the block held before; no reader
stops at the end of the payload, so `len` is used by `hasData` only. -/
structure PgDataReader where
  block : Bytes
  len : Nat
  current : Nat := 0

namespace PgDataReader

def advance (r : PgDataReader) (n : Nat) : PgDataReader := { r with current := r.current + n }

def hasData (r : PgDataReader) : Bool := r.current < r.len

/-- The next `n` bytes of the block. -/
def take (r : PgDataReader) (n : Nat) : Fallible Bytes :=
  if r.block.length < r.current + n then .error .undefined else .ok ((r.block.drop r.current).take n)

def getNextString (r : PgDataReader) : Fallible (Bytes × PgDataReader) :=
  let rest := r.block.drop r.current
  let s := rest.takeWhile (fun b => b != 0)
  if s.length = rest.length then .error .undefined else .ok (s, r.advance (s.length + 1))

def getNextByte (r : PgDataReader) : Fallible (Int × PgDataReader) := do
  let bs ← r.take 1
  return (intOfLittle bs.reverse, r.advance 1)

def getNextShort (r : PgDataReader) : Fallible (Int × PgDataReader) := do
  let bs ← r.take 2
  return (intOfLittle bs.reverse, r.advance 2)

def getNextInt (r : PgDataReader) : Fallible (Int × PgDataReader) := do
  let bs ← r.take 4
  return (intOfLittle bs.reverse, r.advance 4)

def getNextStringWithLen (r : PgDataReader) : Fallible (Bytes × PgDataReader) := do
  let (len, r) ← r.getNextInt
  if len < 0 then throwIO "null string is not supported"
  else
    let s ← r.take len.toNat
    return (s, r.advance len.toNat)

end PgDataReader

end LevelPgServer
