import LevelPgServer.Execution.DataRow

namespace LevelPgServer

/-- Where the buffer stands in its blocks; the blocks themselves hold the rows. -/
structure ExecutionBuffer where
  total : Nat
  used : Nat := 0
  blockUsed : Nat := 0
  currentBlock : Nat := 0
  blocks : Nat := 0
  deriving DecidableEq, Repr

namespace ExecutionBuffer

/-- `doAlloc` while the pool gives out `pool` further blocks: what is left of the pool, and the
buffer afterwards. -/
def doAlloc (size : Nat) (pool : Nat) (b : ExecutionBuffer) : Fallible (Nat × ExecutionBuffer) :=
  if blockSize < size then throwExecution "request buffer too large"
  else
    let b := { b with used := b.used + size }
    if b.total < b.used then throwExecution "not enough buffer"
    else
      let b :=
        if blockSize < b.blockUsed + size then { b with currentBlock := b.currentBlock + 1, blockUsed := size }
        else { b with blockUsed := b.blockUsed + size }
      if b.currentBlock = b.blocks then
        match pool with
        | 0 => throwExecution "Not enough execution buffer"
        | pool + 1 => .ok (pool, { b with blocks := b.blocks + 1 })
      else .ok (pool, b)

def copyRow (conv : Conversions) (types : List DBDataType) (results : List ExecutionResult) (pool : Nat)
    (b : ExecutionBuffer) : Fallible (Bytes × Nat × ExecutionBuffer) := do
  let rowSize ← DataRow.computeSize conv types results
  let (pool, b) ← b.doAlloc rowSize pool
  let r ← DataRow.copy conv types results (List.replicate rowSize 0)
  return (r.1, pool, b)

end ExecutionBuffer

end LevelPgServer
