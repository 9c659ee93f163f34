import LevelPgServer.Common.ParseTools
import LevelPgServer.Server.DataRowMessage

namespace LevelPgServer

open ByteOrder PgDataWriter

inductive BinaryValue
  | int16 (v : BitVec 16)
  | int32 (v : BitVec 32)
  | int64 (v : BitVec 64)
  | float (f : Single)
  | double (d : Double)

namespace PgDataWriter

/-- `operator <<` of the value's type. -/
def write (w : PgDataWriter) : BinaryValue → PgDataWriter
  | .int16 v => w.addInt16 v.toInt
  | .int32 v => w.addInt32 v.toInt
  | .int64 v => w.addInt64 v.toInt
  | .float f => w.addFloat f
  | .double d => w.addDouble d

end PgDataWriter

namespace BinaryValue

def width : BinaryValue → Nat
  | int16 _ => 2
  | int32 _ | float _ => 4
  | int64 _ | double _ => 8

/-- The decoder of the value's kind gives the value back; a single comes back as the double
that is the same number, and a NaN as a NaN. -/
def ReadsBack (sValue : Bytes) : BinaryValue → Prop
  | int16 v => Tools.binaryToInt sValue = .ok v.toInt
  | int32 v => Tools.binaryToInt sValue = .ok v.toInt
  | int64 v => Tools.binaryToInt sValue = .ok v.toInt
  | float f => ∃ d, Tools.binaryToDouble sValue = .ok d ∧ (d.narrow = f ∨ (f.isNaN = true ∧ d.isNaN = true))
  | double d => Tools.binaryToDouble sValue = .ok d

/-- The sign bit of the lower word does not reach the upper one, or changes nothing there. -/
def WordsIntact (v : BitVec 64) : Prop := v.getLsbD 31 = false ∨ v.extractLsb' 32 32 = BitVec.allOnes 32

def Intact : BinaryValue → Prop
  | int16 v => 0 ≤ v.toInt
  | int32 v => 0 ≤ v.toInt
  | int64 v => WordsIntact v
  | float _ => True
  | double d => WordsIntact d.bits

end BinaryValue

theorem toBig_intToBig {n : Nat} (v : BitVec (8 * n)) : intToBig n v.toInt = toBig n v.toNat := by
  rw [intToBig, intToLittle, BitVec.ofInt_toInt, toBig]

theorem ofBig_intToBig {n : Nat} (v : BitVec (8 * n)) : ofBig (intToBig n v.toInt) = v.toNat := by
  have hlt : v.toNat < 256 ^ n := by
    have h := v.isLt
    rwa [pow_mul] at h
  rw [toBig_intToBig, ofBig_toBig_of_lt hlt]

@[simp] theorem length_intToBig (n : Nat) (v : Int) : (intToBig n v).length = n := by simp [intToBig]

namespace Tools

theorem getLsbD_joinWords {hi lo : BitVec 32} {i : Nat} (h : i < 64) :
    (joinWords (intToBig 4 hi.toInt ++ intToBig 4 lo.toInt)).getLsbD i =
      if i < 32 then lo.getLsbD i else hi.getLsbD (i - 32) || lo.msb := by
  have htake : (intToBig 4 hi.toInt ++ intToBig 4 lo.toInt).take 4 = intToBig 4 hi.toInt :=
    List.take_left' (length_intToBig 4 _)
  have hdrop : (intToBig 4 hi.toInt ++ intToBig 4 lo.toInt).drop 4 = intToBig 4 lo.toInt :=
    List.drop_left' (length_intToBig 4 _)
  have hhi := ofBig_intToBig (n := 4) hi
  have hlo := ofBig_intToBig (n := 4) lo
  simp only [joinWords, htake, hdrop, hhi, hlo, BitVec.ofNat_toNat, BitVec.setWidth_eq, BitVec.getLsbD_or,
    BitVec.getLsbD_shiftLeft, BitVec.getLsbD_signExtend, h, decide_true, Bool.true_and]
  by_cases h32 : i < 32
  · simp [h32]
  · have hsub : i - 32 < 32 := by omega
    have hwide : i - 32 < 64 := by omega
    simp [h32, hsub, hwide]

/-- The words come together again unless the sign bit of the lower one sets a bit of the upper
one that was not set. -/
theorem joinWords_eq_iff (v : BitVec 64) :
    joinWords (intToBig 4 (v.extractLsb' 32 32).toInt ++ intToBig 4 (v.extractLsb' 0 32).toInt) = v ↔
      BinaryValue.WordsIntact v := by
  have hmsb : (v.extractLsb' 0 32).msb = v.getLsbD 31 := by simp [BitVec.msb_eq_getLsbD_last]
  have hbit : ∀ i, i < 64 →
      (joinWords (intToBig 4 (v.extractLsb' 32 32).toInt ++ intToBig 4 (v.extractLsb' 0 32).toInt)).getLsbD i =
        if i < 32 then v.getLsbD i else v.getLsbD i || v.getLsbD 31 := by
    intro i hi
    rw [getLsbD_joinWords hi, hmsb]
    by_cases h32 : i < 32
    · simp [h32]
    · have hsub : i - 32 < 32 := by omega
      have hadd : 32 + (i - 32) = i := by omega
      simp [h32, hsub, hadd]
  constructor
  · intro h
    cases hb : v.getLsbD 31 with
    | false => exact .inl hb
    | true =>
      refine .inr (BitVec.eq_of_getLsbD_eq fun i hi => ?_)
      have hup := hbit (32 + i) (by omega)
      rw [h, if_neg (by omega), hb, Bool.or_true] at hup
      rw [BitVec.getLsbD_extractLsb', BitVec.getLsbD_allOnes, hup, Bool.and_true]
  · intro h
    refine BitVec.eq_of_getLsbD_eq fun i hi => ?_
    rw [hbit i hi]
    by_cases h32 : i < 32
    · rw [if_pos h32]
    · rw [if_neg h32]
      obtain hb | hb := h
      · rw [hb, Bool.or_false]
      · have hsub : i - 32 < 32 := by omega
        have hone := congrArg (fun u : BitVec 32 => u.getLsbD (i - 32)) hb
        have hadd : 32 + (i - 32) = i := by omega
        simp only [BitVec.getLsbD_extractLsb', hsub, decide_true, Bool.true_and, hadd,
          BitVec.getLsbD_allOnes] at hone
        rw [hone, Bool.true_or]

end Tools

namespace PgDataWriter

theorem data_addWords {w : PgDataWriter} {iValue : BitVec 64} (hw : w.full = false)
    (hroom : w.data.length + 8 ≤ w.size) :
    (w.addWords iValue).data =
      w.data ++ (intToBig 4 (iValue.extractLsb' 32 32).toInt ++ intToBig 4 (iValue.extractLsb' 0 32).toInt) := by
  have hputs := (puts_put (intToBig 4 (iValue.extractLsb' 32 32).toInt) w).append
    (puts_put (intToBig 4 (iValue.extractLsb' 0 32).toInt) _) rfl
  refine hputs.data hw ?_
  simp only [length_intToBig]
  omega

/-- The bytes that `operator <<` writes for a value, where there is room for them. -/
def valueBytes : BinaryValue → Bytes
  | .int16 v => intToBig 2 v.toInt
  | .int32 v => intToBig 4 v.toInt
  | .int64 v => intToBig 4 (v.extractLsb' 32 32).toInt ++ intToBig 4 (v.extractLsb' 0 32).toInt
  | .float f => intToBig 4 f.bits.toInt
  | .double d => intToBig 4 (d.bits.extractLsb' 32 32).toInt ++ intToBig 4 (d.bits.extractLsb' 0 32).toInt

theorem data_write {w : PgDataWriter} {x : BinaryValue} (hw : w.full = false)
    (hroom : w.data.length + x.width ≤ w.size) : (w.write x).data = w.data ++ valueBytes x := by
  cases x with
  | int16 v => exact (puts_put (intToBig 2 v.toInt) w).data hw (by simpa [BinaryValue.width] using hroom)
  | int32 v => exact (puts_put (intToBig 4 v.toInt) w).data hw (by simpa [BinaryValue.width] using hroom)
  | int64 v =>
    rw [write, addInt64, BitVec.ofInt_toInt]
    exact data_addWords hw hroom
  | float f => exact (puts_put (intToBig 4 f.bits.toInt) w).data hw (by simpa [BinaryValue.width] using hroom)
  | double d => exact data_addWords hw hroom

end PgDataWriter

namespace BinaryValue

/-- A zero-extended value is the value itself unless it is negative. -/
theorem toNat_eq_toInt_iff {n : Nat} (v : BitVec n) : (v.toNat : Int) = v.toInt ↔ 0 ≤ v.toInt := by
  constructor
  · intro h
    rw [← h]
    exact Int.natCast_nonneg _
  · intro h
    rw [BitVec.toInt_eq_toNat_cond] at h ⊢
    split at h
    · next hlt => rw [if_pos hlt]
    · next hge =>
      have hlt := v.isLt
      omega

theorem readsBack_int16 (v : BitVec 16) : ReadsBack (valueBytes (int16 v)) (int16 v) ↔ 0 ≤ v.toInt := by
  have hread : Tools.binaryToInt (intToBig 2 v.toInt) = .ok (v.toNat : Int) := by
    rw [← ofBig_intToBig (n := 2) v]
    simp [Tools.binaryToInt]
  rw [← toNat_eq_toInt_iff, ReadsBack, valueBytes, hread, Except.ok.injEq]

theorem readsBack_int32 (v : BitVec 32) : ReadsBack (valueBytes (int32 v)) (int32 v) ↔ 0 ≤ v.toInt := by
  have hread : Tools.binaryToInt (intToBig 4 v.toInt) = .ok (v.toNat : Int) := by
    rw [← ofBig_intToBig (n := 4) v]
    simp [Tools.binaryToInt]
  rw [← toNat_eq_toInt_iff, ReadsBack, valueBytes, hread, Except.ok.injEq]

theorem readsBack_int64 (v : BitVec 64) : ReadsBack (valueBytes (int64 v)) (int64 v) ↔ WordsIntact v := by
  have hread : Tools.binaryToInt (valueBytes (int64 v)) = .ok (Tools.joinWords (valueBytes (int64 v))).toInt := by
    simp [Tools.binaryToInt, valueBytes]
  rw [ReadsBack, hread, Except.ok.injEq, BitVec.toInt_inj]
  exact Tools.joinWords_eq_iff v

theorem readsBack_float (f : Single) : ReadsBack (valueBytes (float f)) (float f) := by
  have hread : Tools.binaryToDouble (valueBytes (float f)) = .ok f.widen := by
    have hlen : (valueBytes (float f)).length = 4 := by simp [valueBytes]
    have hbits : BitVec.ofNat 32 (ofBig (valueBytes (float f))) = f.bits := by
      rw [valueBytes, ofBig_intToBig (n := 4), BitVec.ofNat_toNat, BitVec.setWidth_eq]
    simp [Tools.binaryToDouble, hlen, hbits]
  refine ⟨f.widen, hread, ?_⟩
  cases h : f.isNaN with
  | true => exact .inr ⟨rfl, Single.isNaN_widen h⟩
  | false => exact .inl (Single.narrow_widen h)

theorem readsBack_double (d : Double) : ReadsBack (valueBytes (double d)) (double d) ↔ WordsIntact d.bits := by
  have hread : Tools.binaryToDouble (valueBytes (double d)) = .ok ⟨Tools.joinWords (valueBytes (double d))⟩ := by
    simp [Tools.binaryToDouble, valueBytes]
  rw [ReadsBack, hread, Except.ok.injEq, ← Tools.joinWords_eq_iff d.bits, Double.mk.injEq]
  rfl

/-- A value written by `operator <<` is read back by the decoders exactly when it is not a
negative integer of two or four bytes and no eight-byte value whose lower word damages the
upper one. -/
theorem readsBack_iff {w : PgDataWriter} {x : BinaryValue} (hw : w.full = false)
    (hroom : w.data.length + x.width ≤ w.size) :
    x.ReadsBack ((w.write x).data.drop w.data.length) ↔ x.Intact := by
  rw [data_write hw hroom, List.drop_left]
  cases x with
  | int16 v => exact readsBack_int16 v
  | int32 v => exact readsBack_int32 v
  | int64 v => exact readsBack_int64 v
  | float f => exact iff_of_true (readsBack_float f) trivial
  | double d => exact readsBack_double d

theorem readsBack_iff_minusOne :
    (int64 (-1)).ReadsBack (((PgDataWriter.mk 20 [7] 0 false).write (int64 (-1))).data.drop 1) ↔ WordsIntact (-1) :=
  readsBack_iff (w := PgDataWriter.mk 20 [7] 0 false) (x := int64 (-1)) rfl (by decide)

/-- The 16-bit value -1 comes back as 65535. -/
theorem minusOne_not_readsBack :
    Tools.binaryToInt ((PgDataWriter.mk 2 [] 0 false).write (int16 (-1))).data = .ok 65535 ∧
      ¬ (int16 (-1)).ReadsBack ((PgDataWriter.mk 2 [] 0 false).write (int16 (-1))).data := by
  have hread : Tools.binaryToInt ((PgDataWriter.mk 2 [] 0 false).write (int16 (-1))).data = .ok 65535 := by rfl
  refine ⟨hread, fun h => ?_⟩
  rw [ReadsBack, hread] at h
  exact absurd h (by decide)

end BinaryValue

end LevelPgServer
