import LevelPgServer.Execution.DBDataTypeHandler
import LevelPgServer.Lib.ExceptRules

namespace LevelPgServer.DataRow

open ByteOrder DBDataTypeHandler ExceptRules

variable (conv : Conversions)

/-- The buffer after `bs` has been stored at `off`. -/
def store (buf : Bytes) (off : Nat) (bs : Bytes) : Bytes := buf.take off ++ bs ++ buf.drop (off + bs.length)

def computeSize : List DBDataType → List ExecutionResult → Fallible Nat
  | t :: ts, r :: rs => do
    let n ← (getHandler t).getSize conv r
    let m ← computeSize ts rs
    return n + m
  | _, _ => .ok 0

/-- The loop of `copy` with `pData` at `off`: the buffer and the offset it ends with. -/
def copyFrom : List DBDataType → List ExecutionResult → Bytes → Nat → Fallible (Bytes × Nat)
  | t :: ts, r :: rs, buf, off => do
    let bs ← (getHandler t).write conv r
    let n ← (getHandler t).getSize conv r
    copyFrom ts rs (store buf off bs) (off + n)
  | _, _, buf, off => .ok (buf, off)

def copy (types : List DBDataType) (results : List ExecutionResult) (buf : Bytes) : Fallible (Bytes × Nat) :=
  copyFrom conv types results buf 0

/-- What every caller of `copy` does: a zeroed buffer of the computed size, filled. -/
def copyRow (types : List DBDataType) (results : List ExecutionResult) : Fallible Bytes := do
  let rowSize ← computeSize conv types results
  let r ← copy conv types results (List.replicate rowSize 0)
  return r.1

/-- All values of a row, with the offset after the last one. -/
def getResults : List DBDataType → Bytes → Fallible (List ExecutionResult × Nat)
  | [], _ => .ok ([], 0)
  | t :: ts, pStart => do
    let r ← (getHandler t).read pStart
    let n ← (getHandler t).getSizeAt pStart
    let rest ← getResults ts (pStart.drop n)
    return (r :: rest.1, n + rest.2)

def getResult : List DBDataType → Bytes → Nat → Fallible ExecutionResult
  | [], _, _ => .error .undefined
  | t :: _, pStart, 0 => (getHandler t).read pStart
  | t :: ts, pStart, index + 1 => do
    let n ← (getHandler t).getSizeAt pStart
    getResult ts (pStart.drop n) index

/-- The sizes that the offsets of a row are computed from. -/
def sizesAt : List DBDataType → Bytes → Fallible (List Nat)
  | [], _ => .ok []
  | t :: ts, pStart => do
    let n ← (getHandler t).getSizeAt pStart
    let rest ← sizesAt ts (pStart.drop n)
    return n :: rest

def compare : List DBDataType → Bytes → Bytes → Fallible Ordering
  | [], _, _ => .ok .eq
  | t :: ts, pStartA, pStartB => do
    let a ← (getHandler t).read pStartA
    let b ← (getHandler t).read pStartB
    let ret ← (getHandler t).compare conv a b
    if ret ≠ .eq then return ret
    let n ← (getHandler t).getSizeAt pStartA
    let m ← (getHandler t).getSizeAt pStartB
    compare ts (pStartA.drop n) (pStartB.drop m)

/-- The bytes the columns of a row are stored as, one after the other. -/
def columnBytes : List DBDataType → List ExecutionResult → Fallible (List Bytes)
  | t :: ts, r :: rs => do
    let bs ← (getHandler t).write conv r
    let rest ← columnBytes ts rs
    return bs :: rest
  | _, _ => .ok []

/-- A value of the handler's own type; a single-precision column holds only numbers
that are exact in it. -/
def hasType : DBDataTypeHandler → ExecutionResult → Bool
  | .int _, .int _ => true
  | .float .float, .double d => d.narrow.widen == d
  | .float .double, .double _ => true
  | .string, .string _ | .string, .maxString => true
  | _, _ => false

abbrev HasTypes (types : List DBDataType) (vs : List ExecutionResult) : Prop :=
  List.Forall₂ (fun t v => hasType (getHandler t) v = true) types vs

/-- The size of the stored value is not one of the two that are read back differently. -/
def sizeReadsBack : ExecutionResult → Bool
  | .string s => s.length != 65533
  | .maxString => false
  | _ => true

theorem checkValue_ok {t : IntType} {v : Int} {u : Unit} (h : t.checkValue v = .ok u) : t.min ≤ v ∧ v ≤ t.max := by
  unfold IntType.checkValue at h
  split at h
  · cases h
  · omega

theorem read_int {t : IntType} {v : Int} (hmin : t.min ≤ v) (hmax : v ≤ t.max) (rest : Bytes) :
    (DBDataTypeHandler.int t).read (intToLittle t.size v ++ rest) = .ok (.int v) := by
  have hlen : ¬ (intToLittle t.size v ++ rest).length < t.size := by simp
  have htake : (intToLittle t.size v ++ rest).take t.size = intToLittle t.size v :=
    List.take_left' (length_intToLittle _ _)
  rw [DBDataTypeHandler.read, if_neg hlen, htake]
  cases t with
  | bool =>
    simp only [IntType.min, IntType.max] at hmin hmax
    obtain rfl | rfl : v = 0 ∨ v = 1 := by omega
    · rfl
    · rfl
  | int16 | int32 | int64 =>
    simp only [IntType.min, IntType.max] at hmin hmax
    simp only [readInt, IntType.size]
    rw [intOfLittle_intToLittle (by omega) (by omega) (by omega)]

theorem read_float {t : FloatType} {d : Double} (hd : hasType (.float t) (.double d) = true) (rest : Bytes) :
    (DBDataTypeHandler.float t).read (writeFloat t d ++ rest) = .ok (.double d) := by
  have hsize : (writeFloat t d).length = t.size := by cases t <;> simp [writeFloat, FloatType.size]
  have hlen : ¬ (writeFloat t d ++ rest).length < t.size := by simp [hsize]
  rw [DBDataTypeHandler.read, if_neg hlen, List.take_left' hsize]
  cases t with
  | float =>
    have hlt : d.narrow.bits.toNat < 256 ^ 4 := d.narrow.bits.isLt
    have he : d.narrow.widen = d := by simpa [hasType] using hd
    simp only [readFloat, writeFloat]
    rw [ofLittle_toLittle_of_lt hlt, BitVec.ofNat_toNat, BitVec.setWidth_eq, he]
  | double =>
    have hlt : d.bits.toNat < 256 ^ 8 := d.bits.isLt
    simp only [readFloat, writeFloat]
    rw [ofLittle_toLittle_of_lt hlt, BitVec.ofNat_toNat, BitVec.setWidth_eq]

theorem read_string {s : Bytes} (hs : s.length < maxLength) (rest : Bytes) :
    DBDataTypeHandler.string.read (toLittle 2 s.length ++ s ++ rest) = .ok (.string s) := by
  have hl : ofLittle (toLittle 2 s.length) = s.length := ofLittle_toLittle_of_lt (by simp [maxLength] at hs; omega)
  have hne : s.length ≠ maxLength := by omega
  have hshort : ¬ (toLittle 2 s.length ++ (s ++ rest)).length < 2 := by
    rw [List.length_append, length_toLittle]
    omega
  rw [List.append_assoc, DBDataTypeHandler.read, if_neg hshort, List.take_left' (length_toLittle _ _),
    List.drop_left' (length_toLittle _ _), hl]
  simp [hne]

theorem write_int_spec {t : IntType} {v : Int} {bs : Bytes} (hw : (DBDataTypeHandler.int t).write conv (.int v) = .ok bs) :
    bs = intToLittle t.size v ∧ t.min ≤ v ∧ v ≤ t.max := by
  obtain ⟨value, hv, hw⟩ := bind_eq_ok.mp hw
  cases hv
  obtain ⟨u, hc, hw⟩ := bind_eq_ok.mp hw
  cases hw
  exact ⟨rfl, checkValue_ok hc⟩

theorem write_float_spec {t : FloatType} {d : Double} {bs : Bytes}
    (hw : (DBDataTypeHandler.float t).write conv (.double d) = .ok bs) :
    bs = writeFloat t d ∧ t.checkValue conv d = .ok () := by
  obtain ⟨value, hv, hw⟩ := bind_eq_ok.mp hw
  cases hv
  obtain ⟨u, hc, hw⟩ := bind_eq_ok.mp hw
  cases hw
  exact ⟨rfl, hc⟩

theorem write_string_spec {s bs : Bytes} (hw : DBDataTypeHandler.string.write conv (.string s) = .ok bs) :
    bs = toLittle 2 s.length ++ s ∧ s.length < maxLength := by
  obtain ⟨value, hv, hw⟩ := bind_eq_ok.mp hw
  cases hv
  split at hw
  · cases hw
  · cases hw
    exact ⟨rfl, by omega⟩

theorem length_writeFloat (t : FloatType) (d : Double) : (writeFloat t d).length = t.size := by
  cases t <;> simp [writeFloat, FloatType.size]

theorem getSizeAt_string {len : Nat} (hlen : len ≤ maxLength) (s rest : Bytes) :
    DBDataTypeHandler.string.getSizeAt (toLittle 2 len ++ s ++ rest) = .ok (if len = 65533 then 2 else len + 2) := by
  have hl : ofLittle (toLittle 2 len) = len := ofLittle_toLittle_of_lt (by simp [maxLength] at hlen; omega)
  have hshort : ¬ (toLittle 2 len ++ (s ++ rest)).length < 2 := by
    rw [List.length_append, length_toLittle]
    omega
  rw [List.append_assoc, getSizeAt, if_neg hshort, List.take_left' (length_toLittle _ _), hl]
  by_cases h : len = 65533
  · simp [h, maxLength]
  · simp [h, maxLength]

/-- One column: what `write` stores is read back whatever follows it, it is as long as
`getSize` says, and its length is the size read from it exactly for the sizes that read back. -/
theorem write_spec {h : DBDataTypeHandler} {v : ExecutionResult} {bs : Bytes} (ht : hasType h v = true)
    (hw : h.write conv v = .ok bs) (rest : Bytes) :
    h.read (bs ++ rest) = .ok v ∧ h.getSize conv v = .ok bs.length ∧
      (h.getSizeAt (bs ++ rest) = .ok bs.length ↔ sizeReadsBack v = true) := by
  cases h with
  | int t =>
    cases v with
    | int v =>
      obtain ⟨rfl, hmin, hmax⟩ := write_int_spec conv hw
      exact ⟨read_int hmin hmax rest, by simp [getSize], by simp [getSizeAt, sizeReadsBack]⟩
    | _ => simp [hasType] at ht
  | float t =>
    cases v with
    | double d =>
      obtain ⟨rfl, -⟩ := write_float_spec conv hw
      have hsize := length_writeFloat t d
      exact ⟨read_float ht rest, by simp [getSize, hsize], by simp [getSizeAt, sizeReadsBack, hsize]⟩
    | _ => cases t <;> simp [hasType] at ht
  | string =>
    cases v with
    | string s =>
      obtain ⟨rfl, hlt⟩ := write_string_spec conv hw
      refine ⟨read_string hlt rest, by simp [getSize, Nat.add_comm], ?_⟩
      rw [getSizeAt_string hlt.le]
      by_cases h : s.length = 65533
      · simp [sizeReadsBack, h]
      · simp [sizeReadsBack, h, Nat.add_comm]
    | maxString =>
      cases hw
      have hs := getSizeAt_string (le_refl maxLength) [] rest
      have hl : ofLittle (toLittle 2 maxLength) = maxLength := by decide
      rw [List.append_nil] at hs
      refine ⟨?_, by simp [getSize], by rw [hs]; simp [sizeReadsBack, maxLength]⟩
      have hshort : ¬ (toLittle 2 maxLength ++ rest).length < 2 := by
        rw [List.length_append, length_toLittle]
        omega
      rw [DBDataTypeHandler.read, if_neg hshort, List.take_left' (length_toLittle _ _), hl]
      rfl
    | _ => simp [hasType] at ht

theorem store_append (done bs rest : Bytes) :
    store (done ++ rest) done.length bs = (done ++ bs) ++ rest.drop bs.length := by
  simp [store, List.drop_append]

/-- The columns land one after the other in a buffer that has room for them. -/
theorem copyFrom_eq {types : List DBDataType} {vs : List ExecutionResult} (ht : HasTypes types vs)
    {cs : List Bytes} (hc : columnBytes conv types vs = .ok cs) (done rest : Bytes)
    (hlen : cs.flatten.length ≤ rest.length) :
    copyFrom conv types vs (done ++ rest) done.length =
      .ok (done ++ cs.flatten ++ rest.drop cs.flatten.length, done.length + cs.flatten.length) := by
  induction ht generalizing cs done rest with
  | nil =>
    cases hc
    simp [copyFrom]
  | @cons t v types vs hv _ ih =>
    obtain ⟨bs, hw, hc⟩ := bind_eq_ok.mp hc
    obtain ⟨cs', hcs, hc⟩ := bind_eq_ok.mp hc
    cases hc
    obtain ⟨-, hsize, -⟩ := write_spec conv hv hw []
    rw [List.flatten_cons, List.length_append] at hlen
    have hrec := ih hcs (done ++ bs) (rest.drop bs.length) (by rw [List.length_drop]; omega)
    rw [List.length_append] at hrec
    rw [copyFrom, hw, hsize]
    simp only [ok_bind]
    rw [store_append, hrec]
    simp [Nat.add_assoc, List.drop_drop]

theorem computeSize_eq {types : List DBDataType} {vs : List ExecutionResult} (ht : HasTypes types vs)
    {cs : List Bytes} (hc : columnBytes conv types vs = .ok cs) :
    computeSize conv types vs = .ok cs.flatten.length := by
  induction ht generalizing cs with
  | nil =>
    cases hc
    rfl
  | @cons t v types vs hv _ ih =>
    obtain ⟨bs, hw, hc⟩ := bind_eq_ok.mp hc
    obtain ⟨cs', hcs, hc⟩ := bind_eq_ok.mp hc
    cases hc
    obtain ⟨-, hsize, -⟩ := write_spec conv hv hw []
    rw [computeSize, hsize, ok_bind, ih hcs]
    simp

theorem columnBytes_of_copyFrom {types : List DBDataType} {vs : List ExecutionResult} (ht : HasTypes types vs)
    {buf : Bytes} {off : Nat} {r : Bytes × Nat} (hc : copyFrom conv types vs buf off = .ok r) :
    ∃ cs, columnBytes conv types vs = .ok cs := by
  induction ht generalizing buf off with
  | nil => exact ⟨[], rfl⟩
  | @cons t v types vs hv _ ih =>
    obtain ⟨bs, hw, hc⟩ := bind_eq_ok.mp hc
    obtain ⟨n, -, hc⟩ := bind_eq_ok.mp hc
    obtain ⟨cs, hcs⟩ := ih hc
    exact ⟨bs :: cs, by rw [columnBytes, hw, ok_bind, hcs]; rfl⟩

theorem copyRow_eq_ok {types : List DBDataType} {vs : List ExecutionResult} (ht : HasTypes types vs)
    {data : Bytes} : copyRow conv types vs = .ok data ↔
      ∃ cs, columnBytes conv types vs = .ok cs ∧ data = cs.flatten := by
  constructor
  · intro h
    obtain ⟨n, hn, h⟩ := bind_eq_ok.mp h
    obtain ⟨r, hr, h⟩ := bind_eq_ok.mp h
    cases h
    obtain ⟨cs, hcs⟩ := columnBytes_of_copyFrom conv ht hr
    rw [computeSize_eq conv ht hcs] at hn
    cases hn
    have he := copyFrom_eq conv ht hcs [] (List.replicate cs.flatten.length 0) (by simp)
    rw [copy] at hr
    rw [List.nil_append, List.length_nil, hr] at he
    cases he
    exact ⟨cs, hcs, by simp⟩
  · rintro ⟨cs, hcs, rfl⟩
    have he := copyFrom_eq conv ht hcs [] (List.replicate cs.flatten.length 0) (by simp)
    rw [List.nil_append, List.length_nil] at he
    rw [copyRow, computeSize_eq conv ht hcs, ok_bind, copy, he]
    simp

theorem columnBytes_cons {t : DBDataType} {types : List DBDataType} {v : ExecutionResult}
    {vs : List ExecutionResult} {cs : List Bytes} (h : columnBytes conv (t :: types) (v :: vs) = .ok cs) :
    ∃ bs cs', cs = bs :: cs' ∧ (getHandler t).write conv v = .ok bs ∧ columnBytes conv types vs = .ok cs' := by
  obtain ⟨bs, hw, h⟩ := bind_eq_ok.mp h
  obtain ⟨cs', hcs, h⟩ := bind_eq_ok.mp h
  cases h
  exact ⟨bs, cs', rfl, hw, hcs⟩

/-- What a stored row gives back: the size `computeSize` announced, the values, the
offset after the last column and the size of every column. -/
structure RoundTrips (types : List DBDataType) (vs : List ExecutionResult) (data : Bytes) : Prop where
  size : computeSize conv types vs = .ok data.length
  written : (columnBytes conv types vs).map List.flatten = .ok data
  results : getResults types data = .ok (vs, data.length)
  result : ∀ (i : Nat) (v : ExecutionResult), vs[i]? = some v → getResult types data i = .ok v
  sizes : sizesAt types data = (columnBytes conv types vs).map (List.map List.length)

theorem sizesAt_eq_ok_iff {types : List DBDataType} {vs : List ExecutionResult} (ht : HasTypes types vs)
    {cs : List Bytes} (hc : columnBytes conv types vs = .ok cs) (rest : Bytes) :
    sizesAt types (cs.flatten ++ rest) = .ok (cs.map List.length) ↔ ∀ v ∈ vs, sizeReadsBack v = true := by
  induction ht generalizing cs with
  | nil =>
    cases hc
    simp [sizesAt]
  | @cons t v types vs hv _ ih =>
    obtain ⟨bs, cs', rfl, hw, hcs⟩ := columnBytes_cons conv hc
    obtain ⟨-, -, hat⟩ := write_spec conv hv hw (cs'.flatten ++ rest)
    rw [List.flatten_cons, List.append_assoc, List.map_cons, List.forall_mem_cons, ← hat, ← ih hcs]
    constructor
    · intro h
      obtain ⟨n, hn, h⟩ := bind_eq_ok.mp h
      obtain ⟨ns, hns, h⟩ := bind_eq_ok.mp h
      cases h
      rw [List.drop_left] at hns
      exact ⟨hn, hns⟩
    · rintro ⟨hn, hns⟩
      rw [sizesAt, hn, ok_bind, List.drop_left, hns]
      rfl

theorem getResults_eq {types : List DBDataType} {vs : List ExecutionResult} (ht : HasTypes types vs)
    {cs : List Bytes} (hc : columnBytes conv types vs = .ok cs) (hs : ∀ v ∈ vs, sizeReadsBack v = true)
    (rest : Bytes) : getResults types (cs.flatten ++ rest) = .ok (vs, cs.flatten.length) := by
  induction ht generalizing cs with
  | nil =>
    cases hc
    rfl
  | @cons t v types vs hv _ ih =>
    obtain ⟨bs, cs', rfl, hw, hcs⟩ := columnBytes_cons conv hc
    obtain ⟨hread, -, hat⟩ := write_spec conv hv hw (cs'.flatten ++ rest)
    have hn := hat.mpr (hs v (by simp))
    rw [List.flatten_cons, List.append_assoc, getResults, hread, ok_bind, hn, ok_bind, List.drop_left,
      ih hcs (fun w hw => hs w (by simp [hw]))]
    simp

/-- The value of a column depends on the sizes of the columns before it only. -/
theorem getResult_eq {types : List DBDataType} {vs : List ExecutionResult} (ht : HasTypes types vs)
    {cs : List Bytes} (hc : columnBytes conv types vs = .ok cs) (rest : Bytes) (i : Nat)
    (hs : ∀ v ∈ vs.take i, sizeReadsBack v = true) (v : ExecutionResult) (hv : vs[i]? = some v) :
    getResult types (cs.flatten ++ rest) i = .ok v := by
  induction ht generalizing cs i with
  | nil => simp at hv
  | @cons t w types vs hw _ ih =>
    obtain ⟨bs, cs', rfl, hwrite, hcs⟩ := columnBytes_cons conv hc
    obtain ⟨hread, -, hat⟩ := write_spec conv hw hwrite (cs'.flatten ++ rest)
    rw [List.flatten_cons, List.append_assoc]
    cases i with
    | zero =>
      cases hv
      exact hread
    | succ i =>
      have hn := hat.mpr (hs w (by simp))
      rw [getResult, hn, ok_bind, List.drop_left]
      exact ih hcs i (fun u hu => hs u (by simp [hu])) hv

/-- A stored row reads back as what was written exactly when no string in it has 65533
bytes and no value is the greatest string. -/
theorem roundTrips_iff (types : List DBDataType) (vs : List ExecutionResult) (ht : HasTypes types vs)
    (data : Bytes) (hdata : copyRow conv types vs = .ok data) :
    RoundTrips conv types vs data ↔ ∀ v ∈ vs, sizeReadsBack v = true := by
  obtain ⟨cs, hc, rfl⟩ := (copyRow_eq_ok conv ht).mp hdata
  have hsizes := sizesAt_eq_ok_iff conv ht hc []
  rw [List.append_nil] at hsizes
  constructor
  · intro h
    have hs := h.sizes
    rw [hc] at hs
    exact hsizes.mp hs
  · intro hs
    have hr := getResults_eq conv ht hc hs []
    rw [List.append_nil] at hr
    refine ⟨computeSize_eq conv ht hc, by rw [hc]; rfl, hr, fun i v hv => ?_, by rw [hc]; exact hsizes.mpr hs⟩
    have hi := getResult_eq conv ht hc [] i (fun w hw => hs w (List.mem_of_mem_take hw)) v hv
    rwa [List.append_nil] at hi

theorem roundTrips_iff_int_string :
    RoundTrips decimalConversions [.int16, .string] [.int (-2), .string [97, 98]] [254, 255, 2, 0, 97, 98] ↔
      ∀ v ∈ [.int (-2), .string [97, 98]], sizeReadsBack v = true :=
  roundTrips_iff decimalConversions [.int16, .string] [.int (-2), .string [97, 98]] (.cons rfl (.cons rfl .nil))
    [254, 255, 2, 0, 97, 98] rfl

theorem columnBytes_string (s : Bytes) (h : s.length < maxLength) :
    columnBytes conv [.string] [.string s] = .ok [toLittle 2 s.length ++ s] := by
  have hlt : ¬ maxLength ≤ s.length := by omega
  simp [columnBytes, getHandler, DBDataTypeHandler.write, hlt]

/-- A string whose two length bytes and characters together take 65535 bytes. -/
def longString : Bytes := List.replicate 65533 97

theorem length_longString : longString.length = 65533 := List.length_replicate

theorem not_roundTrips_longString :
    ∃ data, copyRow decimalConversions [.string] [.string longString] = .ok data ∧
      ¬ RoundTrips decimalConversions [.string] [.string longString] data := by
  have ht : HasTypes [.string] [.string longString] := .cons rfl .nil
  have hc := columnBytes_string decimalConversions longString (by rw [length_longString]; decide)
  refine ⟨_, (copyRow_eq_ok decimalConversions ht).mpr ⟨_, hc, rfl⟩, fun h => ?_⟩
  have hs := h.sizes
  have hiff := sizesAt_eq_ok_iff decimalConversions ht hc []
  rw [List.append_nil] at hiff
  rw [hc] at hs
  have hback := hiff.mp hs (.string longString) (List.mem_singleton_self _)
  rw [sizeReadsBack, length_longString] at hback
  exact absurd hback (by decide)

end LevelPgServer.DataRow
