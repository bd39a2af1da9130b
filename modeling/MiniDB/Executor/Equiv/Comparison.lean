import Mathlib.Data.List.Lex
import Mathlib.Data.Prod.Lex
import MiniDB.Executor.ExprEval

/-!
# The order of the values of a column

`CompareForSort` compares values of any two types, and says 0 where it knows no order: a NULL or a
NaN is "equal" to everything.  On the values of one column type that are neither, it is the
comparison of their ranks in a linear order (`compareForSort_eq`): numbers by their value as doubles,
booleans as 0 and 1, strings by their bytes.
-/

namespace MiniDB.Executor

/-- A value that is not NULL, of a column of the type. -/
inductive OfType : ColumnType → Value → Prop
  | int (v : Int32) : OfType .int (.int32 v)
  | bigInt (v : Int64) : OfType .bigInt (.int64 v)
  | double (v : Double) : OfType .double (.double v)
  | bool (v : Bool) : OfType .bool (.bool v)
  | varchar (v : Str) : OfType .varchar (.string v)

variable {type : ColumnType} {a b : Value}

theorem ofType_of_matches {v : Value} (hnull : isNull v = false)
    (h : valueMatchesType v type = true) : OfType type v := by
  cases v <;> cases type <;> first | (cases h; done) | (cases hnull; done) | constructor

/-- The value is a double without an order. -/
def isNaN : Value → Bool
  | .double d => d.isNaN
  | _ => false

/-- The place of a value among those of its type. -/
def rank : Value → Lex (Int × List Nat)
  | .null => toLex (0, [])
  | .int32 v => toLex ((Double.ofInt v.toInt).units, [])
  | .int64 v => toLex ((Double.ofInt v.toInt).units, [])
  | .double v => toLex (v.units, [])
  | .bool v => toLex (v.toNat, [])
  | .string v => toLex (0, v.map UInt8.toNat)

/-- The three-way comparison in a linear order. -/
def threeWay {β : Type} [LinearOrder β] (x y : β) : Int :=
  if x < y then -1 else if y < x then 1 else 0

section ThreeWay

variable {β : Type} [LinearOrder β] {x y : β}

theorem threeWay_neg : threeWay x y < 0 ↔ x < y := by
  unfold threeWay
  split_ifs <;> simp_all

theorem threeWay_pos : threeWay x y > 0 ↔ y < x := by
  unfold threeWay
  split_ifs with hlt hgt
  · simpa using hlt.le
  · simpa using hgt
  · simpa using hgt

theorem threeWay_nonpos : threeWay x y ≤ 0 ↔ x ≤ y := by
  rw [← not_lt, ← not_lt]
  exact not_congr threeWay_pos

theorem threeWay_nonneg : threeWay x y ≥ 0 ↔ y ≤ x := by
  rw [ge_iff_le, ← not_lt, ← not_lt]
  exact not_congr threeWay_neg

theorem threeWay_eq_zero : threeWay x y = 0 ↔ x = y := by
  unfold threeWay
  rcases lt_trichotomy x y with h | rfl | h
  · simp [h, h.ne]
  · simp
  · simp [h, h.not_gt, h.ne']

theorem threeWay_swap (x y : β) : threeWay y x = -threeWay x y := by
  unfold threeWay
  rcases lt_trichotomy x y with h | rfl | h
  · simp [h, h.not_gt]
  · simp
  · simp [h, h.not_gt]

end ThreeWay

/-- Strings are compared by their bytes. -/
theorem map_toNat_lt_iff (s t : Str) : s.map UInt8.toNat < t.map UInt8.toNat ↔ s < t := by
  induction s generalizing t with
  | nil => cases t <;> simp
  | cons a s ih =>
    cases t with
    | nil => simp
    | cons b t =>
      simp only [List.map_cons, List.cons_lt_cons_iff, ih t, UInt8.lt_iff_toNat_lt, UInt8.toNat_inj]

theorem toLex_fst_lt_iff (x y : Int) :
    toLex (x, ([] : List Nat)) < toLex (y, []) ↔ x < y := by
  simp [Prod.Lex.lt_iff]

theorem toLex_snd_lt_iff (s t : List Nat) : toLex ((0 : Int), s) < toLex (0, t) ↔ s < t := by
  simp [Prod.Lex.lt_iff]

/-- Two doubles, of which one may be a NaN. -/
theorem threeWay_units (x y : Double) :
    (if x.lt y then (-1 : Int) else if y.lt x then 1 else 0)
      = if x.isNaN || y.isNaN then 0
        else threeWay (toLex (x.units, ([] : List Nat))) (toLex (y.units, [])) := by
  unfold Double.lt threeWay
  cases x.isNaN <;> cases y.isNaN <;> simp [toLex_fst_lt_iff]

theorem natAbs_int32_lt (v : Int32) : v.toInt.natAbs < 2 ^ 64 := by
  have := Int32.le_toInt v
  have := Int32.toInt_lt v
  omega

theorem natAbs_int64_lt (v : Int64) : v.toInt.natAbs < 2 ^ 64 := by
  have := Int64.le_toInt v
  have := Int64.toInt_lt v
  omega

/-- The value is the number `x`. -/
structure IsNumber (v : Value) (x : Double) : Prop where
  toDouble_eq : toDouble v = some x
  rank_eq : rank v = toLex (x.units, [])
  isNaN_eq : isNaN v = x.isNaN

theorem isNumber_int32 (v : Int32) : IsNumber (.int32 v) (.ofInt v.toInt) :=
  ⟨rfl, rfl, (Double.isNaN_ofInt (natAbs_int32_lt v)).symm⟩

theorem isNumber_int64 (v : Int64) : IsNumber (.int64 v) (.ofInt v.toInt) :=
  ⟨rfl, rfl, (Double.isNaN_ofInt (natAbs_int64_lt v)).symm⟩

theorem isNumber_double (v : Double) : IsNumber (.double v) v := ⟨rfl, rfl, rfl⟩

/-- Numbers are compared as doubles, also if they are of different types. -/
theorem compare?_numbers {x y : Double} (ha : IsNumber a x) (hb : IsNumber b y) :
    compare? a b = some (if isNaN a || isNaN b then 0 else threeWay (rank a) (rank b)) := by
  rw [ha.isNaN_eq, hb.isNaN_eq, ha.rank_eq, hb.rank_eq, ← threeWay_units]
  unfold compare?
  rw [ha.toDouble_eq, hb.toDouble_eq]

theorem compare?_bools (v w : Bool) :
    compare? (.bool v) (.bool w) = some (threeWay (rank (.bool v)) (rank (.bool w))) := by
  cases v <;> cases w <;> decide

theorem compare?_strings (v w : Str) :
    compare? (.string v) (.string w) = some (threeWay (rank (.string v)) (rank (.string w))) := by
  show some (if v < w then (-1 : Int) else if w < v then 1 else 0) = _
  simp only [rank, threeWay, toLex_snd_lt_iff, map_toNat_lt_iff]

/-- **On the values of one column type, `CompareForSort` compares ranks**, unless one of them is a
NaN. -/
theorem compareForSort_eq (ha : OfType type a) (hb : OfType type b) :
    compareForSort a b = if isNaN a || isNaN b then 0 else threeWay (rank a) (rank b) := by
  suffices h : compare? a b = some (if isNaN a || isNaN b then 0 else threeWay (rank a) (rank b)) by
    rw [compareForSort, h, Option.getD_some]
  cases ha with
  | int v =>
    cases hb with
    | int w => exact compare?_numbers (isNumber_int32 v) (isNumber_int32 w)
  | bigInt v =>
    cases hb with
    | bigInt w => exact compare?_numbers (isNumber_int64 v) (isNumber_int64 w)
  | double v =>
    cases hb with
    | double w => exact compare?_numbers (isNumber_double v) (isNumber_double w)
  | bool v =>
    cases hb with
    | bool w => exact compare?_bools v w
  | varchar v =>
    cases hb with
    | varchar w => exact compare?_strings v w

/-- The comparison the other way round. -/
theorem compareForSort_swap (ha : OfType type a) (hb : OfType type b) :
    compareForSort b a = -compareForSort a b := by
  rw [compareForSort_eq ha hb, compareForSort_eq hb ha, Bool.or_comm]
  split_ifs
  · rfl
  · exact threeWay_swap _ _

/-- A NaN is neither below nor above anything. -/
theorem isNaN_eq_false_of_ne (ha : OfType type a) (hb : OfType type b) (h : compareForSort a b ≠ 0) :
    isNaN b = false := by
  rw [compareForSort_eq ha hb] at h
  cases hnan : isNaN b with
  | false => rfl
  | true =>
    rw [hnan, Bool.or_true, if_pos rfl] at h
    exact absurd rfl h

/-- Not to be above is transitive, unless the value in the middle is a NaN. -/
theorem compareForSort_trans {c : Value} (ha : OfType type a) (hb : OfType type b)
    (hc : OfType type c) (hnan : isNaN b = false) (hab : compareForSort a b ≤ 0)
    (hbc : compareForSort b c ≤ 0) : compareForSort a c ≤ 0 := by
  rw [compareForSort_eq ha hb, hnan, Bool.or_false] at hab
  rw [compareForSort_eq hb hc, hnan, Bool.false_or] at hbc
  rw [compareForSort_eq ha hc]
  split_ifs with h
  · exact le_rfl
  · rw [Bool.or_eq_true, not_or] at h
    rw [if_neg h.1] at hab
    rw [if_neg h.2] at hbc
    exact threeWay_nonpos.mpr ((threeWay_nonpos.mp hab).trans (threeWay_nonpos.mp hbc))

theorem compareForSort_self (h : OfType type a) :
    compareForSort a a = 0 := by
  have hswap := compareForSort_swap h h
  omega

/-! ### Integers -/

/-- The value is the integer `x`. -/
inductive IsInteger : Value → Int → Prop
  | int32 (v : Int32) : IsInteger (.int32 v) v.toInt
  | int64 (v : Int64) : IsInteger (.int64 v) v.toInt

section Integers

variable {a b : Value} {x y : Int}

theorem IsInteger.natAbs_lt (h : IsInteger a x) : x.natAbs < 2 ^ 64 := by
  cases h with
  | int32 v => exact natAbs_int32_lt v
  | int64 v => exact natAbs_int64_lt v

theorem IsInteger.isNull_eq (h : IsInteger a x) : isNull a = false := by
  cases h <;> rfl

theorem IsInteger.toDouble_eq (h : IsInteger a x) : toDouble a = some (.ofInt x) := by
  cases h <;> rfl

/-- Integers are compared after rounding. -/
theorem compare?_integers (ha : IsInteger a x) (hb : IsInteger b y) :
    compare? a b = some (threeWay (Double.roundInt x) (Double.roundInt y)) := by
  unfold compare? threeWay
  rw [ha.toDouble_eq, hb.toDouble_eq]
  simp only [Double.lt_ofInt ha.natAbs_lt hb.natAbs_lt, Double.lt_ofInt hb.natAbs_lt ha.natAbs_lt,
    decide_eq_true_eq]

theorem valuesEqual_integers (ha : IsInteger a x) (hb : IsInteger b y) :
    valuesEqual a b = .ok (decide (Double.roundInt x = Double.roundInt y)) := by
  unfold valuesEqual
  rw [ha.toDouble_eq, hb.toDouble_eq, ha.isNull_eq, hb.isNull_eq,
    ← Double.eq_ofInt ha.natAbs_lt hb.natAbs_lt]
  rfl

/-- Rounding does not make the integers equal. -/
def Separated (x y : Int) : Prop := x = y ∨ Double.roundInt x ≠ Double.roundInt y

theorem Separated.symm (h : Separated x y) : Separated y x := h.imp Eq.symm Ne.symm

theorem Separated.eq_iff (h : Separated x y) : Double.roundInt x = Double.roundInt y ↔ x = y :=
  ⟨fun heq => h.resolve_right (not_not.mpr heq), fun heq => by rw [heq]⟩

theorem Separated.threeWay_eq (h : Separated x y) :
    threeWay (Double.roundInt x) (Double.roundInt y) = threeWay x y := by
  unfold threeWay
  simp only [Double.roundInt_lt_iff h, Double.roundInt_lt_iff h.symm]

/-- An integer of 32 bits is separated from every other. -/
theorem separated_int32 (v : Int32) (y : Int) : Separated v.toInt y := by
  have hlow := Int32.le_toInt v
  have hhigh := Int32.toInt_lt v
  by_cases h : v.toInt = y
  · exact .inl h
  · exact .inr (Double.roundInt_ne (by omega) h)

end Integers

/-- Neither value is sorted before the other: both are NULL, or they are equal. -/
def tied (a b : Value) : Bool := isNull a == isNull b && compareForSort a b == 0

end MiniDB.Executor
