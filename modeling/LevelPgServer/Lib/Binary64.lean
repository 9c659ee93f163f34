import Mathlib.Tactic

namespace LevelPgServer

structure Double where
  bits : BitVec 64
  deriving DecidableEq, Repr

structure Single where
  bits : BitVec 32
  deriving DecidableEq, Repr

namespace Double

def exponent (d : Double) : Nat := d.bits.toNat / 2 ^ 52 % 2048

def fraction (d : Double) : Nat := d.bits.toNat % 2 ^ 52

def magnitude (d : Double) : Nat := d.bits.toNat % 2 ^ 63

def isNegative (d : Double) : Bool := d.bits.msb

def isNaN (d : Double) : Bool := d.exponent == 2047 && d.fraction != 0

/-- An integer in the order of the numbers themselves; both zeros have `0`. -/
def orderKey (d : Double) : Int := if d.isNegative then -(d.magnitude : Int) else d.magnitude

def eq (a b : Double) : Bool := !a.isNaN && !b.isNaN && a.orderKey == b.orderKey

def lt (a b : Double) : Bool := !a.isNaN && !b.isNaN && decide (a.orderKey < b.orderKey)

def ofParts (negative : Bool) (magnitude : Nat) : Double :=
  ⟨BitVec.ofNat 64 (magnitude + if negative then 2 ^ 63 else 0)⟩

/-- `m / 2 ^ s` rounded to the nearest integer, ties to even. -/
def roundShift (m s : Nat) : Nat :=
  if 2 ^ s < 2 * (m % 2 ^ s) ∨ (2 ^ s = 2 * (m % 2 ^ s) ∧ m / 2 ^ s % 2 = 1) then m / 2 ^ s + 1 else m / 2 ^ s

def ofInt (v : Int) : Double :=
  let a := v.natAbs
  if a = 0 then ofParts false 0
  else
    let k := Nat.log2 a
    -- a carry out of the rounding runs into the exponent, as it should
    let m := if k ≤ 52 then (a - 2 ^ k) * 2 ^ (52 - k) else roundShift a (k - 52) - 2 ^ 52
    ofParts (v < 0) ((k + 1023) * 2 ^ 52 + m)

end Double

namespace Single

def exponent (f : Single) : Nat := f.bits.toNat / 2 ^ 23 % 256

def fraction (f : Single) : Nat := f.bits.toNat % 2 ^ 23

def ofParts (negative : Bool) (magnitude : Nat) : Single :=
  ⟨BitVec.ofNat 32 (magnitude + if negative then 2 ^ 31 else 0)⟩

/-- The conversion of a single to a double, which is exact. -/
def widen (f : Single) : Double :=
  let n := f.bits.msb
  if f.exponent = 255 then
    Double.ofParts n (2047 * 2 ^ 52 + if f.fraction = 0 then 0 else 2 ^ 51 + f.fraction % 2 ^ 22 * 2 ^ 29)
  else if f.exponent = 0 then
    if f.fraction = 0 then Double.ofParts n 0
    else
      let k := Nat.log2 f.fraction
      Double.ofParts n ((k + 874) * 2 ^ 52 + (f.fraction - 2 ^ k) * 2 ^ (52 - k))
  else Double.ofParts n ((f.exponent + 896) * 2 ^ 52 + f.fraction * 2 ^ 29)

end Single

/-- The conversion of a double to a single, rounded to nearest even. -/
def Double.narrow (d : Double) : Single :=
  let n := d.isNegative
  if d.exponent = 2047 then
    Single.ofParts n (255 * 2 ^ 23 + if d.fraction = 0 then 0 else 2 ^ 22 + d.fraction / 2 ^ 29 % 2 ^ 22)
  else if 1151 ≤ d.exponent then Single.ofParts n (255 * 2 ^ 23)
  else if 897 ≤ d.exponent then
    Single.ofParts n (roundShift ((d.exponent - 896) * 2 ^ 52 + d.fraction) 29)
  else
    let m := if d.exponent = 0 then d.fraction else 2 ^ 52 + d.fraction
    Single.ofParts n (roundShift m (29 + (897 - d.exponent)))

namespace Double

/-- `numeric_limits<double>::max()` and `lowest()`. -/
def maxDouble : Double := ⟨0x7fefffffffffffff#64⟩
def lowestDouble : Double := ⟨0xffefffffffffffff#64⟩

/-- `numeric_limits<float>::max()` and `lowest()`, as doubles. -/
def maxSingle : Double := ⟨0x47efffffe0000000#64⟩
def lowestSingle : Double := ⟨0xc7efffffe0000000#64⟩

example : (ofInt 1).narrow = ⟨0x3f800000#32⟩ ∧ (ofInt 16777217).narrow = (ofInt 16777216).narrow := by decide

def isInfinite (d : Double) : Bool := d.exponent == 2047 && d.fraction == 0

def nan : Double := ⟨0x7ff8000000000000#64⟩

def infinity (negative : Bool) : Double := ofParts negative (2047 * 2 ^ 52)

/-- The magnitude of a finite number in units of `2 ^ -1074`, the smallest positive number. -/
def units (d : Double) : Nat := if d.exponent = 0 then d.fraction else (2 ^ 52 + d.fraction) * 2 ^ (d.exponent - 1)

def signedUnits (d : Double) : Int := if d.isNegative then -(d.units : Int) else d.units

/-- `num / den` rounded to the nearest integer, ties to even. -/
def roundQuotient (num den : Nat) : Nat :=
  if den < 2 * (num % den) ∨ (den = 2 * (num % den) ∧ num / den % 2 = 1) then num / den + 1 else num / den

/-- The number nearest to `num / den` units. -/
def ofQuotient (negative : Bool) (num den : Nat) : Double :=
  let s := Nat.log2 (num / den) - 52
  ofParts negative (min (s * 2 ^ 52 + roundQuotient num (den * 2 ^ s)) (2047 * 2 ^ 52))

/-- Addition, rounded to nearest even; a sum of zero is negative only if both numbers are. -/
def add (a b : Double) : Double :=
  if a.isNaN || b.isNaN then nan
  else if a.isInfinite then
    if b.isInfinite && a.isNegative != b.isNegative then nan else a
  else if b.isInfinite then b
  else
    let sum := a.signedUnits + b.signedUnits
    ofQuotient (if sum = 0 then a.isNegative && b.isNegative else sum < 0) sum.natAbs 1

def div (a b : Double) : Double :=
  let negative := a.isNegative != b.isNegative
  if a.isNaN || b.isNaN then nan
  else if a.isInfinite then if b.isInfinite then nan else infinity negative
  else if b.isInfinite then ofParts negative 0
  else if b.units = 0 then if a.units = 0 then nan else infinity negative
  else ofQuotient negative (a.units * 2 ^ 1074) b.units

example : add (ofInt 3) (ofInt (-5)) = ofInt (-2) ∧ div (ofInt 7) (ofInt 2) = ⟨0x400c000000000000#64⟩ ∧
    add maxDouble maxDouble = infinity false := by decide +kernel

end Double

namespace Double

theorem toNat_ofParts {n : Bool} {m : Nat} (h : m < 2 ^ 63) :
    (ofParts n m).bits.toNat = m + if n then 2 ^ 63 else 0 := by
  rw [ofParts, BitVec.toNat_ofNat]
  cases n <;> simp <;> omega

theorem isNegative_ofParts {n : Bool} {m : Nat} (h : m < 2 ^ 63) : (ofParts n m).isNegative = n := by
  rw [isNegative, BitVec.msb_eq_decide, toNat_ofParts h]
  cases n <;> simp
  omega

theorem exponent_ofParts {n : Bool} {m : Nat} (h : m < 2 ^ 63) : (ofParts n m).exponent = m / 2 ^ 52 := by
  rw [exponent, toNat_ofParts h]
  cases n <;> simp <;> omega

theorem fraction_ofParts {n : Bool} {m : Nat} (h : m < 2 ^ 63) : (ofParts n m).fraction = m % 2 ^ 52 := by
  rw [fraction, toNat_ofParts h]
  cases n <;> simp
  omega

theorem roundShift_mul (m s : Nat) : roundShift (m * 2 ^ s) s = m := by
  have hpos : 0 < 2 ^ s := Nat.two_pow_pos s
  rw [roundShift, Nat.mul_mod_left, Nat.mul_div_cancel _ hpos, if_neg]
  omega

end Double

namespace Single

def isNaN (f : Single) : Bool := f.exponent == 255 && f.fraction != 0

theorem exponent_lt (f : Single) : f.exponent < 256 := Nat.mod_lt _ (by decide)

theorem fraction_lt (f : Single) : f.fraction < 2 ^ 23 := Nat.mod_lt _ (by decide)

theorem ofParts_parts (f : Single) : ofParts f.bits.msb (f.exponent * 2 ^ 23 + f.fraction) = f := by
  have hlt : f.bits.toNat < 2 ^ 32 := f.bits.isLt
  have hbits : (ofParts f.bits.msb (f.exponent * 2 ^ 23 + f.fraction)).bits = f.bits := by
    apply BitVec.eq_of_toNat_eq
    rw [ofParts, BitVec.toNat_ofNat, BitVec.msb_eq_decide, exponent, fraction]
    by_cases h : 2 ^ (32 - 1) ≤ f.bits.toNat <;> simp only [h, decide_true, decide_false, if_true] <;> simp <;> omega
  cases f
  simpa [ofParts] using hbits

/-- The magnitude of the double that `widen` gives a finite number which is not zero. -/
theorem widen_normal {f : Single} (h : f.exponent ≠ 255) (h0 : f.exponent ≠ 0) :
    f.widen = Double.ofParts f.bits.msb ((f.exponent + 896) * 2 ^ 52 + f.fraction * 2 ^ 29) := by
  rw [widen, if_neg h, if_neg h0]

theorem narrow_widen_normal {f : Single} (h : f.exponent ≠ 255) (h0 : f.exponent ≠ 0) : f.widen.narrow = f := by
  have he := f.exponent_lt
  have hf := f.fraction_lt
  have hm : (f.exponent + 896) * 2 ^ 52 + f.fraction * 2 ^ 29 < 2 ^ 63 := by omega
  have hexp := Double.exponent_ofParts (n := f.bits.msb) hm
  have hfrac := Double.fraction_ofParts (n := f.bits.msb) hm
  have hexp' : f.widen.exponent = f.exponent + 896 := by
    rw [widen_normal h h0, hexp]
    omega
  have hfrac' : f.widen.fraction = f.fraction * 2 ^ 29 := by
    rw [widen_normal h h0, hfrac]
    omega
  have hneg : f.widen.isNegative = f.bits.msb := by rw [widen_normal h h0, Double.isNegative_ofParts hm]
  have hsplit : f.exponent * 2 ^ 52 + f.fraction * 2 ^ 29 = (f.exponent * 2 ^ 23 + f.fraction) * 2 ^ 29 := by ring
  rw [Double.narrow, hexp', hfrac', hneg, if_neg (by omega), if_neg (by omega), if_pos (by omega),
    Nat.add_sub_cancel, hsplit, Double.roundShift_mul, ofParts_parts]

theorem narrow_widen_zero {f : Single} (h : f.exponent = 0) (hz : f.fraction = 0) : f.widen.narrow = f := by
  have hw : f.widen = Double.ofParts f.bits.msb 0 := by simp [widen, h, hz]
  have hparts := f.ofParts_parts
  rw [h, hz] at hparts
  have hexp := Double.exponent_ofParts (n := f.bits.msb) (m := 0) (by decide)
  have hfrac := Double.fraction_ofParts (n := f.bits.msb) (m := 0) (by decide)
  rw [Double.narrow, hw, hexp, hfrac, Double.isNegative_ofParts (by decide)]
  have hr : Double.roundShift 0 (29 + 897) = 0 := by
    have := Double.roundShift_mul 0 (29 + 897)
    rwa [Nat.zero_mul] at this
  simpa [hr] using hparts

theorem narrow_widen_subnormal {f : Single} (h : f.exponent = 0) (hz : f.fraction ≠ 0) : f.widen.narrow = f := by
  have hf := f.fraction_lt
  obtain ⟨k, hk⟩ : ∃ k, Nat.log2 f.fraction = k := ⟨_, rfl⟩
  have hlow : 2 ^ k ≤ f.fraction := hk ▸ Nat.log2_self_le hz
  have hhigh : f.fraction < 2 ^ (k + 1) := hk ▸ Nat.lt_log2_self
  have hk23 : k < 23 := (Nat.pow_lt_pow_iff_right (by decide : 1 < 2)).mp (hlow.trans_lt hf)
  have hpow : 2 ^ k * 2 ^ (52 - k) = 2 ^ 52 := by rw [← pow_add]; congr 1; omega
  have hpow' : 2 ^ (k + 1) * 2 ^ (52 - k) = 2 ^ 53 := by rw [← pow_add]; congr 1; omega
  have hprod : f.fraction * 2 ^ (52 - k) < 2 ^ 53 := by
    rw [← hpow']
    exact Nat.mul_lt_mul_of_pos_right hhigh (Nat.two_pow_pos _)
  have hsub : (f.fraction - 2 ^ k) * 2 ^ (52 - k) = f.fraction * 2 ^ (52 - k) - 2 ^ 52 := by
    rw [Nat.sub_mul, hpow]
  have hge : 2 ^ 52 ≤ f.fraction * 2 ^ (52 - k) := hpow ▸ Nat.mul_le_mul_right _ hlow
  have hw : f.widen = Double.ofParts f.bits.msb ((k + 874) * 2 ^ 52 + (f.fraction * 2 ^ (52 - k) - 2 ^ 52)) := by
    simp only [widen, h, hk, hz, hsub, if_false, reduceIte, Nat.reduceEqDiff]
  have hm : (k + 874) * 2 ^ 52 + (f.fraction * 2 ^ (52 - k) - 2 ^ 52) < 2 ^ 63 := by omega
  have hexp : f.widen.exponent = k + 874 := by
    rw [hw, Double.exponent_ofParts hm]
    omega
  have hfrac : f.widen.fraction = f.fraction * 2 ^ (52 - k) - 2 ^ 52 := by
    rw [hw, Double.fraction_ofParts hm]
    omega
  have hneg : f.widen.isNegative = f.bits.msb := by rw [hw, Double.isNegative_ofParts hm]
  have hshift : 29 + (897 - (k + 874)) = 52 - k := by omega
  have hsum : 2 ^ 52 + (f.fraction * 2 ^ (52 - k) - 2 ^ 52) = f.fraction * 2 ^ (52 - k) := by omega
  have hparts := f.ofParts_parts
  rw [h, Nat.zero_mul, Nat.zero_add] at hparts
  rw [Double.narrow, hexp, hfrac, hneg, if_neg (by omega), if_neg (by omega), if_neg (by omega), hshift]
  simp only [if_neg (show k + 874 ≠ 0 by omega), hsum, Double.roundShift_mul, hparts]

theorem narrow_widen_infinite {f : Single} (h : f.exponent = 255) (hz : f.fraction = 0) : f.widen.narrow = f := by
  have hw : f.widen = Double.ofParts f.bits.msb (2047 * 2 ^ 52) := by simp [widen, h, hz]
  have hparts := f.ofParts_parts
  rw [h, hz, Nat.add_zero] at hparts
  rw [Double.narrow, hw, Double.exponent_ofParts (by decide), Double.fraction_ofParts (by decide),
    Double.isNegative_ofParts (by decide)]
  simpa using hparts

/-- A single that is a number comes back from the double it is converted to. -/
theorem narrow_widen {f : Single} (h : f.isNaN = false) : f.widen.narrow = f := by
  by_cases h255 : f.exponent = 255
  · exact narrow_widen_infinite h255 (by simpa [isNaN, h255] using h)
  · by_cases h0 : f.exponent = 0
    · by_cases hz : f.fraction = 0
      · exact narrow_widen_zero h0 hz
      · exact narrow_widen_subnormal h0 hz
    · exact narrow_widen_normal h255 h0

theorem isNaN_widen {f : Single} (h : f.isNaN = true) : f.widen.isNaN = true := by
  obtain ⟨h255, hne⟩ : f.exponent = 255 ∧ f.fraction ≠ 0 := by simpa [isNaN] using h
  have hf := f.fraction_lt
  have hw : f.widen = Double.ofParts f.bits.msb (2047 * 2 ^ 52 + (2 ^ 51 + f.fraction % 2 ^ 22 * 2 ^ 29)) := by
    simp [widen, h255, hne]
  have hm : 2047 * 2 ^ 52 + (2 ^ 51 + f.fraction % 2 ^ 22 * 2 ^ 29) < 2 ^ 63 := by omega
  have hexp : f.widen.exponent = 2047 := by
    rw [hw, Double.exponent_ofParts hm]
    omega
  have hfrac : f.widen.fraction ≠ 0 := by
    rw [hw, Double.fraction_ofParts hm]
    omega
  simp [Double.isNaN, hexp, hfrac]

end Single

theorem Double.isNaN_ofParts {n : Bool} {m : Nat} (h : m < 2 ^ 63) :
    (Double.ofParts n m).isNaN = decide (2047 * 2 ^ 52 < m) := by
  rw [isNaN, exponent_ofParts h, fraction_ofParts h, Bool.eq_iff_iff, Bool.and_eq_true, beq_iff_eq, bne_iff_ne,
    decide_eq_true_iff]
  omega

theorem Single.isNaN_widen_eq (f : Single) : f.widen.isNaN = f.isNaN := by
  cases h : f.isNaN with
  | true => exact isNaN_widen h
  | false =>
    have he := f.exponent_lt
    have hf := f.fraction_lt
    rw [widen]
    split
    · next h255 =>
      have hz : f.fraction = 0 := by simpa [isNaN, h255] using h
      rw [Double.isNaN_ofParts (by simp [hz])]
      simp [hz]
    · split
      · split
        · exact Double.isNaN_ofParts (by decide)
        · next hz =>
          have hhigh : f.fraction < 2 ^ (f.fraction.log2 + 1) := Nat.lt_log2_self
          have hlow : 2 ^ f.fraction.log2 ≤ f.fraction := Nat.log2_self_le hz
          have hk23 : f.fraction.log2 < 23 := (Nat.pow_lt_pow_iff_right (by decide : 1 < 2)).mp (hlow.trans_lt hf)
          have hpow : 2 ^ f.fraction.log2 * 2 ^ (52 - f.fraction.log2) = 2 ^ 52 := by rw [← pow_add]; congr 1; omega
          have hlt : (f.fraction - 2 ^ f.fraction.log2) * 2 ^ (52 - f.fraction.log2) < 2 ^ 52 := by
            rw [← hpow]
            exact Nat.mul_lt_mul_of_pos_right (by rw [pow_succ] at hhigh; omega) (Nat.two_pow_pos _)
          dsimp only
          rw [Double.isNaN_ofParts (by omega)]
          simp only [decide_eq_false_iff_not]
          omega
      · rw [Double.isNaN_ofParts (by omega)]
        simp only [decide_eq_false_iff_not]
        omega

end LevelPgServer
