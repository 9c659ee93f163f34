import LevelPgServer.Execution.ExecutionResult
import LevelPgServer.Lib.ByteOrder

namespace LevelPgServer

open ByteOrder

/-- `data` are the bytes before `m_iWritten`; what stands behind them is never sent. -/
structure PgDataWriter where
  size : Nat
  data : Bytes := []
  lastPrepare : Nat := 0
  full : Bool := false
  deriving DecidableEq

/-- The two's complement of `v` in `n` bytes, most significant first. -/
def intToBig (n : Nat) (v : Int) : Bytes := (intToLittle n v).reverse

namespace PgDataWriter

/-- `check` and the writing of bytes that stand behind it. -/
def put (w : PgDataWriter) (bs : Bytes) : PgDataWriter :=
  if w.full then w
  else if w.data.length + bs.length ≤ w.size then { w with data := w.data ++ bs }
  else { w with full := true }

def addInt8 (w : PgDataWriter) (v : Int) : PgDataWriter := w.put (intToBig 1 v)

def addInt16 (w : PgDataWriter) (v : Int) : PgDataWriter := w.put (intToBig 2 v)

def addInt32 (w : PgDataWriter) (v : Int) : PgDataWriter := w.put (intToBig 4 v)

/-- The two words of an eight-byte value, the upper one first. -/
def addWords (w : PgDataWriter) (iValue : BitVec 64) : PgDataWriter :=
  (w.addInt32 (iValue.extractLsb' 32 32).toInt).addInt32 (iValue.extractLsb' 0 32).toInt

def addInt64 (w : PgDataWriter) (v : Int) : PgDataWriter := w.addWords (BitVec.ofInt 64 v)

def addFloat (w : PgDataWriter) (value : Single) : PgDataWriter := w.addInt32 value.bits.toInt

def addDouble (w : PgDataWriter) (value : Double) : PgDataWriter := w.addWords value.bits

def addNull (w : PgDataWriter) : PgDataWriter := w.addInt32 (-1)

def addStringZeroEnd (w : PgDataWriter) (s : Bytes) : PgDataWriter := w.put (s ++ [0])

def addString (w : PgDataWriter) (s : Bytes) : PgDataWriter := (w.addInt32 s.length).put s

def digit (n : UInt8) : UInt8 := if n < 10 then 48 + n else 55 + n

/-- The text of a byte string: `\x` and two digits for every byte. -/
def bytesText (s : Bytes) : Bytes := bytes "\\x" ++ s.flatMap (fun (c : UInt8) => [digit (c >>> 4), digit (c &&& 15)])

def addBytesString (w : PgDataWriter) (s : Bytes) : PgDataWriter :=
  (w.addInt32 (2 + s.length * 2 : Nat)).put (bytesText s)

/-- `text` is what `snprintf` prints: at the end of the buffer it needs a byte more than
its length. -/
def addValueAsString (w : PgDataWriter) (text : Bytes) : PgDataWriter :=
  if w.full then w
  else if w.size < w.data.length + 4 then { w with full := true }
  else if 0 < text.length ∧ text.length < w.size - (w.data.length + 4) then (w.addInt32 text.length).put text
  else { w with full := true }

/-- `text` is what `strftime` prints, and nothing when there is no room for it and its end;
the length in front of it is the one expected. -/
def addDateTimeAsString (w : PgDataWriter) (text : Bytes) (len : Nat) : PgDataWriter :=
  let w := w.addInt32 len
  if w.full then w
  else if w.size < w.data.length + (len + 1) then { w with full := true }
  else if text.length < w.size - w.data.length then { w with data := w.data ++ text }
  else w

/-- `begin` clears the full flag; the length is written back by `end`. -/
def «begin» (w : PgDataWriter) (cMsgType : UInt8) : PgDataWriter :=
  ({ w with full := false }.put [cMsgType]).addInt32 0

def «end» (w : PgDataWriter) : PgDataWriter :=
  if w.full then w
  else
    { w with
      data := w.data.take (w.lastPrepare + 1) ++ toBig 4 (w.data.length - w.lastPrepare - 1) ++
        w.data.drop (w.lastPrepare + 5)
      lastPrepare := w.data.length }

def prepared (w : PgDataWriter) : Bytes := w.data.take w.lastPrepare

end PgDataWriter

end LevelPgServer
