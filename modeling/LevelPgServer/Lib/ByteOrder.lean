import Mathlib.Tactic

namespace LevelPgServer.ByteOrder

/-- The `n` low bytes of `v`, least significant first. -/
def toLittle : Nat → Nat → List UInt8
  | 0, _ => []
  | n + 1, v => UInt8.ofNat v :: toLittle n (v / 256)

def ofLittle : List UInt8 → Nat
  | [] => 0
  | b :: bs => b.toNat + 256 * ofLittle bs

def toBig (n v : Nat) : List UInt8 := (toLittle n v).reverse

def ofBig (bs : List UInt8) : Nat := ofLittle bs.reverse

@[simp] theorem length_toLittle (n v : Nat) : (toLittle n v).length = n := by
  induction n generalizing v with
  | zero => rfl
  | succ n ih => simp [toLittle, ih]

@[simp] theorem length_toBig (n v : Nat) : (toBig n v).length = n := by simp [toBig]

theorem ofLittle_toLittle (n v : Nat) : ofLittle (toLittle n v) = v % 256 ^ n := by
  induction n generalizing v with
  | zero => simp [toLittle, ofLittle, Nat.mod_one]
  | succ n ih =>
    have hb : (UInt8.ofNat v).toNat = v % 256 := by simp
    rw [toLittle, ofLittle, ih, hb, pow_succ', Nat.mod_mul]

theorem ofLittle_toLittle_of_lt {n v : Nat} (h : v < 256 ^ n) : ofLittle (toLittle n v) = v := by
  rw [ofLittle_toLittle, Nat.mod_eq_of_lt h]

theorem ofBig_toBig_of_lt {n v : Nat} (h : v < 256 ^ n) : ofBig (toBig n v) = v := by
  rw [ofBig, toBig, List.reverse_reverse, ofLittle_toLittle_of_lt h]

theorem ofLittle_lt (bs : List UInt8) : ofLittle bs < 256 ^ bs.length := by
  induction bs with
  | nil => simp [ofLittle]
  | cons b bs ih =>
    have hb : b.toNat < 256 := b.toNat_lt
    rw [ofLittle, List.length_cons, pow_succ']
    omega

theorem toLittle_ofLittle (bs : List UInt8) : toLittle bs.length (ofLittle bs) = bs := by
  induction bs with
  | nil => rfl
  | cons b bs ih =>
    have hb : b.toNat < 256 := b.toNat_lt
    have hdiv : (b.toNat + 256 * ofLittle bs) / 256 = ofLittle bs := by omega
    have hmod : UInt8.ofNat (b.toNat + 256 * ofLittle bs) = b := by
      apply UInt8.toNat_inj.mp
      simp only [UInt8.toNat_ofNat']
      omega
    rw [List.length_cons, ofLittle, toLittle, hdiv, hmod, ih]

theorem ofLittle_append (a b : List UInt8) : ofLittle (a ++ b) = ofLittle a + 256 ^ a.length * ofLittle b := by
  induction a with
  | nil => simp [ofLittle]
  | cons x a ih =>
    rw [List.cons_append, ofLittle, ofLittle, ih, List.length_cons, pow_succ']
    ring

theorem ofBig_append (a b : List UInt8) : ofBig (a ++ b) = ofBig a * 256 ^ b.length + ofBig b := by
  rw [ofBig, List.reverse_append, ofLittle_append, List.length_reverse, Nat.add_comm, Nat.mul_comm]
  rfl

theorem ofBig_lt (bs : List UInt8) : ofBig bs < 256 ^ bs.length := by
  have h := ofLittle_lt bs.reverse
  rwa [List.length_reverse] at h

theorem toBig_ofBig (bs : List UInt8) : toBig bs.length (ofBig bs) = bs := by
  have h := toLittle_ofLittle bs.reverse
  rw [List.length_reverse] at h
  rw [toBig, ofBig, h, List.reverse_reverse]

theorem ofBig_replicate_zero (n : Nat) : ofBig (List.replicate n 0) = 0 := by
  rw [ofBig, List.reverse_replicate]
  induction n with
  | zero => rfl
  | succ n ih => rw [List.replicate_succ, ofLittle, ih]; rfl

/-- The two's complement of `v` in `n` bytes, least significant first. -/
def intToLittle (n : Nat) (v : Int) : List UInt8 := toLittle n (BitVec.ofInt (8 * n) v).toNat

def intOfLittle (bs : List UInt8) : Int := (BitVec.ofNat (8 * bs.length) (ofLittle bs)).toInt

@[simp] theorem length_intToLittle (n : Nat) (v : Int) : (intToLittle n v).length = n := length_toLittle _ _

theorem intOfLittle_intToLittle {n : Nat} {v : Int} (hn : 0 < n) (h1 : -2 ^ (8 * n - 1) ≤ v)
    (h2 : v < 2 ^ (8 * n - 1)) : intOfLittle (intToLittle n v) = v := by
  have hlt : (BitVec.ofInt (8 * n) v).toNat < 256 ^ n := by
    have h := (BitVec.ofInt (8 * n) v).isLt
    rwa [pow_mul] at h
  rw [intOfLittle, length_intToLittle, intToLittle, ofLittle_toLittle_of_lt hlt, BitVec.ofNat_toNat,
    BitVec.setWidth_eq]
  exact BitVec.toInt_ofInt_eq_self (by omega) h1 h2

end LevelPgServer.ByteOrder
