import LevelPgServer.Common.ParseNode
import LevelPgServer.Lib.Binary64
import LevelPgServer.Lib.ByteOrder

namespace LevelPgServer.Tools

open ByteOrder ParseNode

def wrongBindLength {α : Type} (sValue : Bytes) : Fallible α :=
  throwParse ("Wrong bind data length " ++ toString sValue.length)

/-- The two words of an eight-byte parameter; the low one is sign-extended before the OR. -/
def joinWords (sValue : Bytes) : BitVec 64 :=
  let hiword := BitVec.ofNat 32 (ofBig (sValue.take 4))
  let loword := BitVec.ofNat 32 (ofBig (sValue.drop 4))
  (hiword.signExtend 64 <<< 32) ||| loword.signExtend 64

def binaryToInt (sValue : Bytes) : Fallible Int :=
  match sValue.length with
  | 1 => .ok (intOfLittle sValue)
  | 2 => .ok (ofBig sValue)
  | 4 => .ok (ofBig sValue)
  | 8 => .ok (joinWords sValue).toInt
  | _ => wrongBindLength sValue

def binaryToDouble (sValue : Bytes) : Fallible Double :=
  match sValue.length with
  | 4 => .ok (Single.widen ⟨BitVec.ofNat 32 (ofBig sValue)⟩)
  | 8 => .ok ⟨joinWords sValue⟩
  | _ => wrongBindLength sValue

def toLower (c : UInt8) : UInt8 := if 65 ≤ c ∧ c ≤ 90 then c + 32 else c

def equalsIgnoreCase (a b : Bytes) : Bool := a.map toLower == b.map toLower

def rowKey : Bytes := bytes "_rowkey"

def isRowKeyNode (pNode : ParseNode) : Bool :=
  pNode.type == .name && equalsIgnoreCase pNode.getString rowKey

end LevelPgServer.Tools
