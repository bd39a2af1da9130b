import Mathlib.Algebra.Order.Ring.Int
import Mathlib.Data.Nat.Log
import Mathlib.Tactic.Linarith
import MiniDB.Lib.Bytes

/-!
# Binary64 numbers

A `Double` is the bit pattern of an IEEE 754 binary64 number: a sign bit, 11 bits of exponent and 52
bits of fraction.  Every finite one is a multiple of `2 ^ (-1074)`, so that its value is an integer in
that unit (`Double.units`), and comparison is comparison of integers.  The same formula gives the
infinities a value above all finite ones, which orders them as the standard does.

`roundUnits` rounds to the nearest number, ties to even, and the conversion from integers and the
arithmetic are exact computations in units followed by it.  `roundInt` is what the conversion does to
an integer, as a function on integers: comparing converted integers is comparing the rounded ones
(`lt_ofInt`, `eq_ofInt`).  It is monotone, and tells an integer below `2 ^ 53` from every other.
-/

namespace MiniDB

/-- An IEEE 754 binary64 number by its bits. -/
structure Double where
  bits : UInt64
  deriving DecidableEq

namespace Double

open Bytes

instance : FixedSize Double where
  size := 8
  toBytes x := FixedSize.toBytes x.bits
  ofBytes bs := ⟨FixedSize.ofBytes bs⟩
  length_toBytes x := FixedSize.length_toBytes x.bits
  ofBytes_toBytes x := by rw [FixedSize.ofBytes_toBytes]

/-! ### Values -/

/-- The bits of positive infinity. -/
def infinityBits : Nat := 2047 * 2 ^ 52

/-- The sign bit. -/
def negative (x : Double) : Bool := decide (2 ^ 63 ≤ x.bits.toNat)

/-- Exponent and fraction. -/
def magnitude (x : Double) : Nat := x.bits.toNat % 2 ^ 63

def isNaN (x : Double) : Bool := decide (infinityBits < x.magnitude)

def isInfinite (x : Double) : Bool := decide (x.magnitude = infinityBits)

/-- The absolute value that exponent and fraction stand for, in units of `2 ^ (-1074)`. -/
def unitsOf (m : Nat) : Nat :=
  if m / 2 ^ 52 = 0 then m else (2 ^ 52 + m % 2 ^ 52) * 2 ^ (m / 2 ^ 52 - 1)

/-- The value in units of `2 ^ (-1074)`. -/
def units (x : Double) : Int :=
  if x.negative then -(unitsOf x.magnitude : Int) else unitsOf x.magnitude

/-- `x < y`. -/
def lt (x y : Double) : Bool := !x.isNaN && !y.isNaN && decide (x.units < y.units)

/-- `x == y`. -/
def eq (x y : Double) : Bool := !x.isNaN && !y.isNaN && decide (x.units = y.units)

/-! ### Rounding and arithmetic -/

/-- `m / 2 ^ s` rounded to the nearest integer, ties to even. -/
def roundShift (m s : Nat) : Nat :=
  if 2 * (m % 2 ^ s) < 2 ^ s ∨ 2 * (m % 2 ^ s) = 2 ^ s ∧ m / 2 ^ s % 2 = 0 then m / 2 ^ s
  else m / 2 ^ s + 1

/-- Exponent and fraction of the number nearest to `m / 2 ^ extra` units.  A significand that is
rounded up to the next power of two carries into the exponent. -/
def roundUnits (m extra : Nat) : Nat :=
  let s := Nat.log2 m + 1 - 53 - extra
  min (s * 2 ^ 52 + roundShift m (s + extra)) infinityBits

/-- The number with the given sign and magnitude. -/
def ofMagnitude (neg : Bool) (m : Nat) : Double := ⟨UInt64.ofNat ((if neg then 2 ^ 63 else 0) + m)⟩

/-- The conversion of an integer, `static_cast<double>`. -/
def ofInt (n : Int) : Double := ofMagnitude (decide (n < 0)) (roundUnits (n.natAbs * 2 ^ 1074) 0)

/-- A quiet NaN; the standard leaves open which one an invalid operation gives. -/
def nan : Double := ⟨0x7FF8000000000000⟩

/-- `x + y`. -/
def add (x y : Double) : Double :=
  if x.isNaN || y.isNaN then nan
  else if x.isInfinite then
    if y.isInfinite && x.negative != y.negative then nan else x
  else if y.isInfinite then y
  else if x.units + y.units = 0 then ofMagnitude (x.negative && y.negative) 0
  else ofMagnitude (decide (x.units + y.units < 0)) (roundUnits (x.units + y.units).natAbs 0)

/-- `x / y`.  The quotient is computed with two more bits, the last of which tells whether the
division left a remainder. -/
def div (x y : Double) : Double :=
  let neg := x.negative != y.negative
  if x.isNaN || y.isNaN then nan
  else if x.isInfinite then
    if y.isInfinite then nan else ofMagnitude neg infinityBits
  else if y.isInfinite then ofMagnitude neg 0
  else if y.units = 0 then
    if x.units = 0 then nan else ofMagnitude neg infinityBits
  else
    let n := x.units.natAbs * 2 ^ 1076
    let d := y.units.natAbs
    let q := if n % d = 0 then n / d else n / d ||| 1
    ofMagnitude neg (roundUnits q 2)

/-! ### The rounded value -/

theorem roundShift_bounds (m s : Nat) :
    m / 2 ^ s ≤ roundShift m s ∧ roundShift m s ≤ m / 2 ^ s + 1 := by
  unfold roundShift
  split_ifs <;> omega

variable {m s m' : Nat} {a b n : Int}

theorem roundShift_of_dvd (h : 2 ^ s ∣ m) : roundShift m s = m / 2 ^ s := by
  have hmod : m % 2 ^ s = 0 := Nat.mod_eq_zero_of_dvd h
  rw [roundShift, hmod, if_pos]
  exact .inl (Nat.two_pow_pos s)

theorem roundShift_mono (h : m ≤ m') (s : Nat) : roundShift m s ≤ roundShift m' s := by
  have hle : m / 2 ^ s ≤ m' / 2 ^ s := Nat.div_le_div_right h
  rcases Nat.lt_or_eq_of_le hle with hlt | heq
  · exact (roundShift_bounds m s).2.trans (Nat.le_trans hlt (roundShift_bounds m' s).1)
  · -- the same quotient, and a remainder that is not smaller
    have hm := Nat.div_add_mod m (2 ^ s)
    have hm' := Nat.div_add_mod m' (2 ^ s)
    rw [← heq] at hm'
    have hmod : m % 2 ^ s ≤ m' % 2 ^ s := by omega
    unfold roundShift
    rw [← heq]
    split_ifs <;> omega

/-- Only the bits that are dropped matter. -/
theorem roundShift_mul (m s k : Nat) : roundShift (m * 2 ^ k) (s + k) = roundShift m s := by
  have hk : 0 < 2 ^ k := Nat.two_pow_pos k
  unfold roundShift
  rw [pow_add, Nat.mul_mod_mul_right, Nat.mul_div_mul_right _ _ hk, ← Nat.mul_assoc]
  simp only [Nat.mul_lt_mul_right hk, Nat.mul_left_inj hk.ne']

/-- Exponent and fraction of a number with a significand of 53 bits, or the next power of two. -/
theorem unitsOf_add {q : Nat} (h : 2 ^ 52 ≤ q) (h' : q ≤ 2 ^ 53) :
    unitsOf (s * 2 ^ 52 + q) = q * 2 ^ s := by
  unfold unitsOf
  rcases Nat.lt_or_eq_of_le h' with hlt | rfl
  · have hdiv : (s * 2 ^ 52 + q) / 2 ^ 52 = s + 1 := by omega
    have hmod : (s * 2 ^ 52 + q) % 2 ^ 52 = q - 2 ^ 52 := by omega
    rw [hdiv, hmod, if_neg (Nat.succ_ne_zero s), Nat.add_sub_cancel' h, Nat.add_sub_cancel]
  · have hdiv : (s * 2 ^ 52 + 2 ^ 53) / 2 ^ 52 = s + 2 := by omega
    have hmod : (s * 2 ^ 52 + 2 ^ 53) % 2 ^ 52 = 0 := by omega
    rw [hdiv, hmod, if_neg (by omega), show s + 2 - 1 = s + 1 from rfl, pow_succ' 2 s]
    ring

/-- What rounding makes of a number with at least 53 bits: a significand with that many bits and the
exponent that puts it next to the number. -/
theorem roundUnits_spec {e : Nat} (hs : Nat.log2 m = 52 + s) (hmax : m < 2 ^ e) (he : e ≤ 2097) :
    roundUnits m 0 < infinityBits ∧ unitsOf (roundUnits m 0) = roundShift m s * 2 ^ s := by
  have hne : m ≠ 0 := by
    rintro rfl
    rw [Nat.log2_zero] at hs
    omega
  have hlow : 2 ^ 52 * 2 ^ s ≤ m := by
    rw [← pow_add, ← hs]
    exact Nat.log2_self_le hne
  have hhigh : m < 2 ^ 53 * 2 ^ s := by
    rw [← pow_add, show 53 + s = Nat.log2 m + 1 by omega]
    exact Nat.lt_log2_self
  have hsmax : s < 2045 := by
    have hlt : 2 ^ (52 + s) < 2 ^ e := by
      rw [pow_add]
      exact lt_of_le_of_lt hlow hmax
    have := (Nat.pow_lt_pow_iff_right (by omega : 1 < 2)).mp hlt
    omega
  have hq : 2 ^ 52 ≤ m / 2 ^ s := (Nat.le_div_iff_mul_le (Nat.two_pow_pos s)).mpr hlow
  have hq' : m / 2 ^ s < 2 ^ 53 := (Nat.div_lt_iff_lt_mul (Nat.two_pow_pos s)).mpr hhigh
  have hb := roundShift_bounds m s
  have hround : roundUnits m 0 = min (s * 2 ^ 52 + roundShift m s) infinityBits := by
    rw [roundUnits, show Nat.log2 m + 1 - 53 - 0 = s by omega, Nat.add_zero]
  have hinf : s * 2 ^ 52 + roundShift m s < infinityBits := by
    rw [infinityBits]
    omega
  rw [Nat.min_eq_left hinf.le] at hround
  rw [hround]
  exact ⟨hinf, unitsOf_add (hq.trans hb.1) (hb.2.trans hq')⟩

theorem magnitude_ofMagnitude (neg : Bool) (h : m < 2 ^ 63) :
    (ofMagnitude neg m).magnitude = m ∧ (ofMagnitude neg m).negative = neg := by
  have hbits : (ofMagnitude neg m).bits.toNat = (if neg then 2 ^ 63 else 0) + m := by
    rw [ofMagnitude, UInt64.toNat_ofNat', Nat.mod_eq_of_lt]
    split_ifs <;> omega
  rw [magnitude, negative, hbits]
  cases neg with
  | true => simp only [if_true]; exact ⟨by omega, decide_eq_true (by omega)⟩
  | false =>
    simp only [Bool.false_eq_true, if_false]
    exact ⟨by omega, decide_eq_false (by omega)⟩

/-! ### Integers of 53 bits -/

/-- The integer nearest to `m` that has at most 53 significant bits; ties go to the even one. -/
def roundNat (m : Nat) : Nat := roundShift m (Nat.log2 m - 52) * 2 ^ (Nat.log2 m - 52)

/-- The integer an integer is rounded to in the conversion. -/
def roundInt (n : Int) : Int :=
  if n < 0 then -(roundNat n.natAbs : Int) else roundNat n.natAbs

theorem roundNat_of_lt (h : m < 2 ^ 53) : roundNat m = m := by
  have hlog : Nat.log2 m - 52 = 0 := by
    rcases Nat.eq_zero_or_pos m with rfl | hpos
    · rw [Nat.log2_zero]
    · have := (Nat.log2_lt hpos.ne').mpr h
      omega
  rw [roundNat, hlog, roundShift_of_dvd (one_dvd m)]
  simp

/-- Rounding does not leave the numbers with as many bits, but for the next power of two. -/
theorem roundNat_bounds (h : m ≠ 0) :
    2 ^ Nat.log2 m ≤ roundNat m ∧ roundNat m ≤ 2 ^ (Nat.log2 m + 1) := by
  obtain ⟨s, hs⟩ : ∃ s, s = Nat.log2 m - 52 := ⟨_, rfl⟩
  obtain ⟨d, hd⟩ : ∃ d, Nat.log2 m = d + s := ⟨Nat.log2 m - s, by omega⟩
  have hpos : 0 < 2 ^ s := Nat.two_pow_pos s
  have hb := roundShift_bounds m s
  have hlow : 2 ^ d ≤ m / 2 ^ s := by
    rw [Nat.le_div_iff_mul_le hpos, ← pow_add, ← hd]
    exact Nat.log2_self_le h
  have hhigh : m / 2 ^ s + 1 ≤ 2 ^ (d + 1) := by
    rw [Nat.succ_le_iff, Nat.div_lt_iff_lt_mul hpos, ← pow_add,
      show d + 1 + s = Nat.log2 m + 1 by omega]
    exact Nat.lt_log2_self
  rw [roundNat, ← hs, show Nat.log2 m + 1 = d + 1 + s by omega, hd, pow_add, pow_add _ (d + 1)]
  exact ⟨Nat.mul_le_mul_right _ (hlow.trans hb.1), Nat.mul_le_mul_right _ (hb.2.trans hhigh)⟩

theorem roundNat_mono (h : m ≤ m') : roundNat m ≤ roundNat m' := by
  rcases Nat.eq_zero_or_pos m with rfl | hpos
  · rw [roundNat_of_lt (Nat.two_pow_pos 53)]
    exact Nat.zero_le _
  · have hpos' : m' ≠ 0 := (Nat.lt_of_lt_of_le hpos h).ne'
    have hlog : Nat.log2 m ≤ Nat.log2 m' :=
      (Nat.le_log2 hpos').mpr ((Nat.log2_self_le hpos.ne').trans h)
    rcases Nat.lt_or_eq_of_le hlog with hlt | heq
    · -- there is a power of two between the two
      calc roundNat m ≤ 2 ^ (Nat.log2 m + 1) := (roundNat_bounds hpos.ne').2
        _ ≤ 2 ^ Nat.log2 m' := Nat.pow_le_pow_right (by omega) hlt
        _ ≤ roundNat m' := (roundNat_bounds hpos').1
    · rw [roundNat, roundNat, heq]
      exact Nat.mul_le_mul_right _ (roundShift_mono h _)

theorem roundInt_mono (h : a ≤ b) : roundInt a ≤ roundInt b := by
  unfold roundInt
  split_ifs with ha hb hb
  · have := roundNat_mono (show b.natAbs ≤ a.natAbs by omega)
    omega
  · omega
  · omega
  · have := roundNat_mono (show a.natAbs ≤ b.natAbs by omega)
    omega

theorem roundInt_of_lt (h : n.natAbs < 2 ^ 53) : roundInt n = n := by
  rw [roundInt, roundNat_of_lt h]
  split_ifs <;> omega

/-- An integer below `2 ^ 53` is told from every other. -/
theorem roundInt_ne (ha : a.natAbs < 2 ^ 53) (h : a ≠ b) : roundInt a ≠ roundInt b := by
  rw [roundInt_of_lt ha]
  by_cases hb : b.natAbs < 2 ^ 53
  · rwa [roundInt_of_lt hb]
  · have hbig : 2 ^ 53 ≤ roundNat b.natAbs := by
      calc 2 ^ 53 = roundNat (2 ^ 53) := by decide +kernel
        _ ≤ roundNat b.natAbs := roundNat_mono (not_lt.mp hb)
    unfold roundInt
    split_ifs <;> omega

/-- Integers that are not rounded to the same one keep their order. -/
theorem roundInt_lt_iff (h : a = b ∨ roundInt a ≠ roundInt b) :
    roundInt a < roundInt b ↔ a < b := by
  rcases h with rfl | hne
  · exact ⟨fun h => absurd h (lt_irrefl _), fun h => absurd h (lt_irrefl _)⟩
  · constructor
    · intro hlt
      exact not_le.mp fun hle => absurd (roundInt_mono hle) (not_le.mpr hlt)
    · intro hlt
      exact lt_of_le_of_ne (roundInt_mono hlt.le) hne

/-! ### The conversion of integers -/

theorem log2_mul_two_pow (h : m ≠ 0) (k : Nat) :
    Nat.log2 (m * 2 ^ k) = Nat.log2 m + k := by
  have hk : 0 < 2 ^ k := Nat.two_pow_pos k
  rw [Nat.log2_eq_iff (Nat.mul_ne_zero h hk.ne'), show Nat.log2 m + k + 1 = Nat.log2 m + 1 + k by omega,
    pow_add, pow_add _ (Nat.log2 m + 1)]
  exact ⟨Nat.mul_le_mul_right _ (Nat.log2_self_le h),
    Nat.mul_lt_mul_of_pos_right Nat.lt_log2_self hk⟩

/-- The magnitude of a converted integer, with the exponent of the unit kept symbolic: the power of
two would be evaluated. -/
theorem unitsOf_roundUnits {k : Nat} (h : m ≠ 0) (hm : m < 2 ^ 64) (hk : 52 ≤ k) (hk' : k ≤ 2033) :
    roundUnits (m * 2 ^ k) 0 < infinityBits ∧
      unitsOf (roundUnits (m * 2 ^ k) 0) = roundNat m * 2 ^ k := by
  have hmax : m * 2 ^ k < 2 ^ (64 + k) := by
    rw [pow_add]
    exact Nat.mul_lt_mul_of_pos_right hm (Nat.two_pow_pos k)
  have hlog := log2_mul_two_pow h k
  obtain ⟨hinf, hunits⟩ := roundUnits_spec
    (show Nat.log2 (m * 2 ^ k) = 52 + (Nat.log2 m + k - 52) by omega) hmax (by omega)
  refine ⟨hinf, hunits.trans ?_⟩
  rcases Nat.le_total 52 (Nat.log2 m) with hle | hle
  · rw [show Nat.log2 m + k - 52 = Nat.log2 m - 52 + k by omega, roundShift_mul, roundNat, pow_add,
      Nat.mul_assoc]
  · -- the bits that are dropped are zeros
    have hdvd : 2 ^ (Nat.log2 m + k - 52) ∣ m * 2 ^ k :=
      Dvd.dvd.mul_left (Nat.pow_dvd_pow 2 (by omega)) m
    have hsmall : m < 2 ^ 53 := by
      calc m < 2 ^ (Nat.log2 m + 1) := Nat.lt_log2_self
        _ ≤ 2 ^ 53 := Nat.pow_le_pow_right (by omega) (by omega)
    rw [roundShift_of_dvd hdvd, Nat.div_mul_cancel hdvd, roundNat_of_lt hsmall]

/-- **An integer becomes the integer it is rounded to.** -/
theorem ofInt_spec (hn : n.natAbs < 2 ^ 64) :
    (ofInt n).isNaN = false ∧ (ofInt n).units = roundInt n * 2 ^ 1074 := by
  obtain ⟨k, hk⟩ : ∃ k, k = 1074 := ⟨_, rfl⟩
  obtain rfl | hne := eq_or_ne n 0
  · exact ⟨by decide +kernel, by decide +kernel⟩
  · obtain ⟨hinf, hunits⟩ :=
      unitsOf_roundUnits (k := k) (Int.natAbs_ne_zero.mpr hne) hn (by omega) (by omega)
    obtain ⟨hmag, hneg⟩ := magnitude_ofMagnitude (decide (n < 0)) (hinf.trans (by decide))
    rw [ofInt, ← hk, isNaN, units, hmag, hneg, hunits, roundInt]
    refine ⟨decide_eq_false (by omega), ?_⟩
    by_cases h : n < 0
    · simp only [h, decide_true, if_true]
      push_cast
      ring
    · simp only [h, decide_false, if_false, Bool.false_eq_true]
      push_cast
      ring

theorem isNaN_ofInt (hn : n.natAbs < 2 ^ 64) : (ofInt n).isNaN = false := (ofInt_spec hn).1

theorem lt_ofInt (ha : a.natAbs < 2 ^ 64) (hb : b.natAbs < 2 ^ 64) :
    (ofInt a).lt (ofInt b) = decide (roundInt a < roundInt b) := by
  obtain ⟨hnan, hunits⟩ := ofInt_spec ha
  obtain ⟨hnan', hunits'⟩ := ofInt_spec hb
  have hpos : (0 : Int) < 2 ^ 1074 := pow_pos (by omega) _
  rw [lt, hnan, hnan', hunits, hunits', Bool.not_false, Bool.true_and, Bool.true_and,
    decide_eq_decide]
  exact mul_lt_mul_iff_left₀ hpos

theorem eq_ofInt (ha : a.natAbs < 2 ^ 64) (hb : b.natAbs < 2 ^ 64) :
    (ofInt a).eq (ofInt b) = decide (roundInt a = roundInt b) := by
  obtain ⟨hnan, hunits⟩ := ofInt_spec ha
  obtain ⟨hnan', hunits'⟩ := ofInt_spec hb
  have hpos : (0 : Int) < 2 ^ 1074 := pow_pos (by omega) _
  rw [eq, hnan, hnan', hunits, hunits', Bool.not_false, Bool.true_and, Bool.true_and,
    decide_eq_decide]
  exact mul_left_inj' hpos.ne'

/-! ### Sums of integers -/

theorem ofInt_zero : ofInt 0 = ofMagnitude false 0 := by
  rw [ofInt, Int.natAbs_zero, Nat.zero_mul]
  decide

/-- A small integer is converted without a loss. -/
theorem ofInt_small (hn : n.natAbs < 2 ^ 53) : (ofInt n).isNaN = false ∧
    (ofInt n).isInfinite = false ∧ (ofInt n).negative = decide (n < 0) ∧
    (ofInt n).units = n * 2 ^ 1074 := by
  obtain ⟨k, hk⟩ : ∃ k, k = 1074 := ⟨_, rfl⟩
  obtain ⟨hnan, hunits⟩ := ofInt_spec (hn.trans (by decide))
  rw [hunits, roundInt_of_lt hn]
  refine ⟨hnan, ?_⟩
  obtain rfl | hne := eq_or_ne n 0
  · rw [ofInt_zero]
    exact ⟨by decide, by decide, rfl⟩
  · obtain ⟨hinf, -⟩ := unitsOf_roundUnits (k := k) (Int.natAbs_ne_zero.mpr hne)
      (hn.trans (by decide)) (by omega) (by omega)
    obtain ⟨hmag, hneg⟩ := magnitude_ofMagnitude (decide (n < 0)) (hinf.trans (by decide))
    rw [isInfinite, ofInt, ← hk, hmag, hneg]
    exact ⟨decide_eq_false hinf.ne, rfl, rfl⟩

/-- **Sums of small integers are exact.** -/
theorem add_ofInt (h : a.natAbs + b.natAbs < 2 ^ 53) : (ofInt a).add (ofInt b) = ofInt (a + b) := by
  obtain ⟨hnan, hinf, hneg, hunits⟩ := @ofInt_small a (by omega)
  obtain ⟨hnan', hinf', hneg', hunits'⟩ := @ofInt_small b (by omega)
  rw [add, hnan, hnan', hinf, hinf', hneg, hneg', hunits, hunits', ← Int.add_mul]
  simp only [Bool.or_self, Bool.false_eq_true, if_false]
  by_cases hzero : a + b = 0
  · -- they are not both negative
    have hsign : (decide (a < 0) && decide (b < 0)) = false := by
      rw [Bool.and_eq_false_iff, decide_eq_false_iff_not, decide_eq_false_iff_not]
      omega
    rw [hsign, hzero, Int.zero_mul, if_pos rfl, ofInt_zero]
  · obtain ⟨k, hk⟩ : ∃ k, k = 1074 := ⟨_, rfl⟩
    have hpos : (0 : Int) < 2 ^ k := pow_pos (by omega) _
    have hlt := mul_lt_mul_iff_left₀ (b := a + b) (c := 0) hpos
    rw [Int.zero_mul] at hlt
    rw [ofInt, ← hk, if_neg (Int.mul_ne_zero hzero hpos.ne'), Int.natAbs_mul, Int.natAbs_pow,
      decide_eq_decide.mpr hlt]
    rfl

end Double

end MiniDB
