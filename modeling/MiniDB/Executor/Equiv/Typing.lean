import MiniDB.Executor.Equiv.Comparison
import MiniDB.Executor.Equiv.ExprEval

/-!
# Well-typed conditions

The types of expressions over a schema, and what evaluating a well-typed condition can still run into.
An operand of AND or OR has to be a boolean, but a BOOLEAN column may hold NULL, and so may the
condition as a whole.  `evaluatePredicate_ok_iff` says that nothing else goes wrong: a well-typed
condition evaluates on a conforming row exactly if no column that is evaluated as a truth value is NULL.

Which columns these are depends on the truth of the operands before them.  That is said by `meaning`, in
terms of the order of the values, and not by the evaluation itself.
-/

namespace MiniDB.Executor

open Effect Paged
open Checked (bind_eq_pure pure_inj)

/-! ### Types -/

/-- The types that comparisons and connectives tell apart. -/
inductive ExprType
  | numeric
  | string
  | boolean
  | null
  deriving DecidableEq, Repr

/-- The type of the values of a column. -/
def columnExprType : ColumnType → ExprType
  | .int | .bigInt | .double => .numeric
  | .varchar => .string
  | .bool => .boolean

/-- The type of a value. -/
def valueType : Value → ExprType
  | .null => .null
  | .int32 _ | .int64 _ | .double _ => .numeric
  | .string _ => .string
  | .bool _ => .boolean

/-- The type of a binary expression with operands of these types. -/
def binaryType (op : BinaryOp) (left right : ExprType) : Option ExprType :=
  match op with
  | .and | .or => if left = .boolean ∧ right = .boolean then some .boolean else none
  | _ => if left = right ∨ left = .null ∨ right = .null then some .boolean else none

/-- The type of an expression, if it is well-typed. -/
def typeOf (schema : Schema) : Expr → Option ExprType
  | .column name => (schema.indexOf name).map fun i => columnExprType (schema.columnAt i).type
  | .literal value => some (valueType value)
  | .binary left op right => do
    let l ← typeOf schema left
    let r ← typeOf schema right
    binaryType op l r

/-- The condition is well-typed: it has a type, and that is boolean. -/
def WellTyped (schema : Schema) (e : Expr) : Prop := typeOf schema e = some .boolean

instance (schema : Schema) (e : Expr) : Decidable (WellTyped schema e) :=
  inferInstanceAs (Decidable (_ = _))

/-! ### What a condition means -/

/-- The values are equal.  Neither NULL nor a NaN is equal to anything. -/
def equals (a b : Value) : Bool :=
  !isNull a && !isNull b && !isNaN a && !isNaN b && decide (rank a = rank b)

/-- One value is before the other.  A NaN has no place in the order. -/
def below (a b : Value) : Bool := !isNaN a && !isNaN b && decide (rank a < rank b)

/-- What a comparison means.  An order comparison with NULL is false. -/
def compares (op : BinaryOp) (a b : Value) : Bool :=
  match op with
  | .eq => equals a b
  | .neq => !equals a b
  | .lt => !isNull a && !isNull b && below a b
  | .lte => !isNull a && !isNull b && !below b a
  | .gt => !isNull a && !isNull b && below b a
  | .gte => !isNull a && !isNull b && !below a b
  | .and | .or => false

/-- What an expression means on a row. -/
def meaning (schema : Schema) (row : Row) : Expr → Value
  | .column name => ((schema.indexOf name).bind fun i => row[i.val]?).getD .null
  | .literal value => value
  | .binary left .and right =>
      .bool (meaning schema row left = .bool true ∧ meaning schema row right = .bool true)
  | .binary left .or right =>
      .bool (meaning schema row left = .bool true ∨ meaning schema row right = .bool true)
  | .binary left op right => .bool (compares op (meaning schema row left) (meaning schema row right))

/-- A column that is NULL in the row. -/
def NullColumn (schema : Schema) (row : Row) : Expr → Prop
  | .column name => ∃ i, schema.indexOf name = some i ∧ row[i.val]? = some .null
  | _ => False

/-- No column that is evaluated as an operand of AND or OR is NULL.  The right operand is evaluated
only if the left one does not decide. -/
def Decided (schema : Schema) (row : Row) : Expr → Prop
  | .column _ | .literal _ => True
  | .binary left .and right => Decided schema row left ∧ ¬ NullColumn schema row left ∧
      (meaning schema row left = .bool true → Decided schema row right ∧ ¬ NullColumn schema row right)
  | .binary left .or right => Decided schema row left ∧ ¬ NullColumn schema row left ∧
      (meaning schema row left = .bool false → Decided schema row right ∧ ¬ NullColumn schema row right)
  | .binary left _ right => Decided schema row left ∧ Decided schema row right

variable {schema : Schema} {row : Row}

variable {v l r : Value} {left right e : Expr} {op : BinaryOp} {ty : ExprType}

theorem valueType_of_conforms {col : Column} (h : Conforms col v) :
    v = .null ∨ valueType v = columnExprType col.type := by
  obtain ⟨hmatch, -⟩ := h
  generalize col.type = type at hmatch
  cases v <;> cases type <;> first | exact .inl rfl | exact .inr rfl | cases hmatch

theorem binaryType_eq {l r : ExprType} (h : binaryType op l r = some ty) : ty = .boolean := by
  unfold binaryType at h
  split at h <;> split at h <;> cases h <;> rfl

/-! ### Comparisons -/

theorem isNumber_of_numeric (h : valueType v = .numeric) : ∃ x, IsNumber v x := by
  cases v with
  | int32 v => exact ⟨_, isNumber_int32 v⟩
  | int64 v => exact ⟨_, isNumber_int64 v⟩
  | double v => exact ⟨_, isNumber_double v⟩
  | null | bool | string => cases h

/-- Values of one type, of which none is NULL. -/
theorem compare?_eq (h : valueType l = valueType r) (hnull : isNull l = false) :
    compare? l r = some (if isNaN l || isNaN r then 0 else threeWay (rank l) (rank r)) := by
  cases hl : valueType l with
  | numeric =>
    obtain ⟨x, hx⟩ := isNumber_of_numeric hl
    obtain ⟨y, hy⟩ := isNumber_of_numeric (h.symm.trans hl)
    exact compare?_numbers hx hy
  | string =>
    cases l <;> cases hl
    cases r <;> cases h
    exact compare?_strings _ _
  | boolean =>
    cases l <;> cases hl
    cases r <;> cases h
    exact compare?_bools _ _
  | null =>
    cases l <;> cases hl
    cases hnull

/-- Values of one type, or NULL. -/
theorem valuesEqual_eq (h : valueType l = valueType r ∨ l = .null ∨ r = .null) :
    valuesEqual l r = .ok (equals l r) := by
  unfold valuesEqual
  by_cases hnull : (isNull l || isNull r) = true
  · rw [if_pos hnull, equals, ← Bool.not_or, hnull]
    rfl
  rw [if_neg hnull]
  rw [Bool.not_eq_true, Bool.or_eq_false_iff] at hnull
  have htypes : valueType l = valueType r := by
    refine h.resolve_right ?_
    rintro (rfl | rfl)
    · cases hnull.1
    · cases hnull.2
  have hequals : equals l r = (!isNaN l && !isNaN r && decide (rank l = rank r)) := by
    rw [equals, hnull.1, hnull.2]
    rfl
  rw [hequals]
  cases hl : valueType l with
  | numeric =>
    obtain ⟨x, hx⟩ := isNumber_of_numeric hl
    obtain ⟨y, hy⟩ := isNumber_of_numeric (htypes.symm.trans hl)
    rw [hx.isNaN_eq, hy.isNaN_eq, hx.rank_eq, hy.rank_eq, hx.toDouble_eq, hy.toDouble_eq]
    simp [Double.eq]
  | string =>
    cases l <;> cases hl
    cases r <;> cases htypes
    rename_i s t
    have hinj : s.map UInt8.toNat = t.map UInt8.toNat ↔ s = t :=
      (List.map_injective_iff.mpr fun _ _ => UInt8.toNat_inj.mp).eq_iff
    simp [toDouble, isNaN, rank, hinj]
  | boolean =>
    cases l <;> cases hl
    cases r <;> cases htypes
    rename_i b c
    cases b <;> cases c <;> rfl
  | null =>
    cases l <;> cases hl
    cases hnull.1

/-- A comparison of values of one type, or NULL. -/
theorem evaluateComparison_eq (hand : op ≠ .and) (hor : op ≠ .or)
    (h : valueType l = valueType r ∨ l = .null ∨ r = .null) :
    evaluateComparison op l r = pure (.bool (compares op l r)) := by
  have heq := valuesEqual_eq h
  unfold evaluateComparison compares
  cases op with
  | and => exact absurd rfl hand
  | or => exact absurd rfl hor
  | eq | neq => rw [heq]; rfl
  | lt | lte | gt | gte =>
    by_cases hnull : (isNull l || isNull r) = true
    · dsimp only
      rw [if_pos hnull, ← Bool.not_or, hnull]
      rfl
    · have hvalues : isNull l = false ∧ isNull r = false := by
        rwa [Bool.not_eq_true, Bool.or_eq_false_iff] at hnull
      have htypes : valueType l = valueType r := by
        refine h.resolve_right ?_
        rintro (rfl | rfl)
        · cases hvalues.1
        · cases hvalues.2
      dsimp only
      rw [if_neg hnull, compareOrdered, compare?_eq htypes hvalues.1, hvalues.1, hvalues.2]
      dsimp only
      rw [Checked.ofResult_ok, pure_bind]
      congr 2
      unfold below
      rw [Bool.eq_iff_iff]
      cases isNaN l <;> cases isNaN r <;>
        simp [threeWay_neg, threeWay_nonpos, threeWay_pos, threeWay_nonneg]

/-! ### Evaluation -/

/-- Boolean operands of AND are evaluated from the left. -/
theorem evaluate_and_iff : evaluate schema row (.binary left .and right) = pure v ↔
    ∃ lb, evaluate schema row left = pure (.bool lb) ∧
      if lb = true then ∃ rb, evaluate schema row right = pure (.bool rb) ∧ v = .bool rb
      else v = .bool lb := by
  simp only [evaluate, bind_eq_pure (x := evaluate schema row left >>= operand "left"),
    evaluate_operand_eq_pure]
  refine exists_congr fun lb => and_congr_right fun _ => ?_
  cases lb with
  | false => exact pure_inj.trans eq_comm
  | true =>
    rw [if_pos rfl, if_pos rfl, bind_eq_pure]
    exact exists_congr fun rb => and_congr evaluate_operand_eq_pure (pure_inj.trans eq_comm)

theorem evaluate_or_iff : evaluate schema row (.binary left .or right) = pure v ↔
    ∃ lb, evaluate schema row left = pure (.bool lb) ∧
      if lb = false then ∃ rb, evaluate schema row right = pure (.bool rb) ∧ v = .bool rb
      else v = .bool lb := by
  simp only [evaluate, bind_eq_pure (x := evaluate schema row left >>= operand "left"),
    evaluate_operand_eq_pure]
  refine exists_congr fun lb => and_congr_right fun _ => ?_
  cases lb with
  | true => exact pure_inj.trans eq_comm
  | false =>
    rw [if_neg Bool.false_ne_true, if_pos rfl, bind_eq_pure]
    exact exists_congr fun rb => and_congr evaluate_operand_eq_pure (pure_inj.trans eq_comm)

theorem meaning_comparison (hand : op ≠ .and) (hor : op ≠ .or) :
    meaning schema row (.binary left op right)
      = .bool (compares op (meaning schema row left) (meaning schema row right)) := by
  cases op with
  | and => exact absurd rfl hand
  | or => exact absurd rfl hor
  | eq | neq | lt | lte | gt | gte => rfl

theorem meaning_of_nullColumn (h : NullColumn schema row e) : meaning schema row e = .null := by
  cases e with
  | column name =>
    obtain ⟨i, hi, hv⟩ := h
    rw [meaning, hi, Option.bind_some, hv, Option.getD_some]
  | literal | binary => exact h.elim

/-- The type of what a well-typed expression means. -/
theorem valueType_meaning (hrow : RowConforms schema row) (hty : typeOf schema e = some ty) :
    valueType (meaning schema row e) = ty ∨ NullColumn schema row e := by
  cases e with
  | column name =>
    obtain ⟨i, hi, rfl⟩ := Option.map_eq_some_iff.mp hty
    obtain ⟨v, hv, hconforms⟩ := hrow.get i
    rw [meaning, hi, Option.bind_some, hv, Option.getD_some]
    refine (valueType_of_conforms hconforms).symm.imp_right ?_
    rintro rfl
    exact ⟨i, hi, hv⟩
  | literal value => exact .inl (Option.some.inj hty)
  | binary left op right =>
    obtain ⟨l, -, hl⟩ := Option.bind_eq_some_iff.mp hty
    obtain ⟨r, -, hr⟩ := Option.bind_eq_some_iff.mp hl
    rw [binaryType_eq hr]
    cases op <;> exact .inl rfl

/-- A boolean expression means a truth value unless it is a column that is NULL. -/
theorem meaning_bool_iff (hrow : RowConforms schema row) (hty : typeOf schema e = some .boolean) :
    (∃ b, meaning schema row e = .bool b) ↔ ¬ NullColumn schema row e := by
  constructor
  · rintro ⟨b, hb⟩ hnull
    rw [meaning_of_nullColumn hnull] at hb
    cases hb
  · intro hnull
    have htype := (valueType_meaning hrow hty).resolve_right hnull
    cases hv : meaning schema row e with
    | bool b => exact ⟨b, rfl⟩
    | null | int32 | int64 | double | string =>
      rw [hv] at htype
      cases htype

/-- The right operand matters for one value of the left one. -/
theorem connective_iff (go : Bool) {x : Fallible Value} {m : Value}
    (hx : ∀ {v}, x = pure v ↔ ∃ lb, evaluate schema row left = pure (.bool lb) ∧
      if lb = go then ∃ rb, evaluate schema row right = pure (.bool rb) ∧ v = .bool rb else v = .bool lb)
    (hm : ∀ lb rb, meaning schema row left = .bool lb → (lb = go → meaning schema row right = .bool rb) →
      m = .bool (if lb = go then rb else lb))
    (hl : ∀ {v}, evaluate schema row left = pure v ↔ Decided schema row left ∧ v = meaning schema row left)
    (hr : ∀ {v}, evaluate schema row right = pure v ↔
      Decided schema row right ∧ v = meaning schema row right)
    (hl' : (∃ b, meaning schema row left = .bool b) ↔ ¬ NullColumn schema row left)
    (hr' : (∃ b, meaning schema row right = .bool b) ↔ ¬ NullColumn schema row right) :
    x = pure v ↔ (Decided schema row left ∧ ¬ NullColumn schema row left ∧
      (meaning schema row left = .bool go → Decided schema row right ∧ ¬ NullColumn schema row right)) ∧
      v = m := by
  rw [hx]
  constructor
  · rintro ⟨lb, hlb, hv⟩
    obtain ⟨hleft, hlb⟩ := hl.mp hlb
    split_ifs at hv with hgo
    · obtain ⟨rb, hrb, rfl⟩ := hv
      obtain ⟨hright, hrb⟩ := hr.mp hrb
      refine ⟨⟨hleft, hl'.mp ⟨lb, hlb.symm⟩, fun _ => ⟨hright, hr'.mp ⟨rb, hrb.symm⟩⟩⟩, ?_⟩
      rw [hm lb rb hlb.symm fun _ => hrb.symm, if_pos hgo]
    · refine ⟨⟨hleft, hl'.mp ⟨lb, hlb.symm⟩, fun h => ?_⟩, ?_⟩
      · exact absurd (Value.bool.inj (hlb.trans h)) hgo
      · rw [hv, hm lb lb hlb.symm fun h => absurd h hgo, if_neg hgo]
  · rintro ⟨⟨hleft, hnull, hrest⟩, rfl⟩
    obtain ⟨lb, hlb⟩ := hl'.mpr hnull
    refine ⟨lb, hl.mpr ⟨hleft, hlb.symm⟩, ?_⟩
    split_ifs with hgo
    · obtain ⟨hright, hnull'⟩ := hrest (hgo ▸ hlb)
      obtain ⟨rb, hrb⟩ := hr'.mpr hnull'
      exact ⟨rb, hr.mpr ⟨hright, hrb.symm⟩, by rw [hm lb rb hlb fun _ => hrb, if_pos hgo]⟩
    · rw [hm lb lb hlb fun h => absurd h hgo, if_neg hgo]

/-- Values of operands whose types may be compared. -/
theorem comparable {l r : ExprType} (h : l = r ∨ l = .null ∨ r = .null) {lv rv : Value}
    (hl : valueType lv = l ∨ lv = .null) (hr : valueType rv = r ∨ rv = .null) :
    valueType lv = valueType rv ∨ lv = .null ∨ rv = .null := by
  have hnull : ∀ v, valueType v = .null → v = .null := by
    rintro (_ | _ | _ | _ | _ | _) hv
    · rfl
    all_goals cases hv
  rcases hl with hl | hl
  · rcases hr with hr | hr
    · rcases h with h | h | h
      · exact .inl (hl.trans (h.trans hr.symm))
      · exact .inr (.inl (hnull lv (hl.trans h)))
      · exact .inr (.inr (hnull rv (hr.trans h)))
    · exact .inr (.inr hr)
  · exact .inr (.inl hl)

/-- Both operands of a comparison are evaluated. -/
theorem comparison_iff (hand : op ≠ .and) (hor : op ≠ .or)
    (htypes : valueType (meaning schema row left) = valueType (meaning schema row right) ∨
      meaning schema row left = .null ∨ meaning schema row right = .null)
    (hl : ∀ {v}, evaluate schema row left = pure v ↔ Decided schema row left ∧ v = meaning schema row left)
    (hr : ∀ {v}, evaluate schema row right = pure v ↔
      Decided schema row right ∧ v = meaning schema row right) :
    evaluate schema row (.binary left op right) = pure v ↔
      (Decided schema row left ∧ Decided schema row right) ∧
        v = meaning schema row (.binary left op right) := by
  have hcompared := evaluateComparison_eq hand hor htypes
  rw [evaluate_comparison hand hor, meaning_comparison hand hor]
  simp only [bind_eq_pure, hl, hr]
  constructor
  · rintro ⟨_, ⟨hleft, rfl⟩, _, ⟨hright, rfl⟩, hv⟩
    exact ⟨⟨hleft, hright⟩, pure_inj.mp (hv.symm.trans hcompared)⟩
  · rintro ⟨⟨hleft, hright⟩, rfl⟩
    exact ⟨_, ⟨hleft, rfl⟩, _, ⟨hright, rfl⟩, hcompared⟩

/-- **A well-typed expression evaluates to what it means**, exactly if it is decided. -/
theorem evaluate_iff (hrow : RowConforms schema row) (hty : typeOf schema e = some ty) :
    evaluate schema row e = pure v ↔ Decided schema row e ∧ v = meaning schema row e := by
  induction e generalizing ty v with
  | column name =>
    obtain ⟨i, hi, -⟩ := Option.map_eq_some_iff.mp hty
    obtain ⟨w, hw, -⟩ := hrow.get i
    have hmeaning : meaning schema row (.column name) = w := by
      rw [meaning, hi, Option.bind_some, hw, Option.getD_some]
    rw [hmeaning, evaluate, hi]
    dsimp only
    rw [hw, Checked.access_some, pure_inj]
    exact ⟨fun h => ⟨trivial, h.symm⟩, fun h => h.2.symm⟩
  | literal value => exact pure_inj.trans ⟨fun h => ⟨trivial, h.symm⟩, fun h => h.2.symm⟩
  | binary left op right ihl ihr =>
    obtain ⟨l, hl, hty⟩ := Option.bind_eq_some_iff.mp hty
    obtain ⟨r, hr, hty⟩ := Option.bind_eq_some_iff.mp hty
    cases op with
    | and =>
      obtain ⟨rfl, rfl⟩ : l = .boolean ∧ r = .boolean := (Option.ite_none_right_eq_some.mp hty).1
      refine connective_iff true evaluate_and_iff (fun lb rb hlb hrb => ?_) (ihl hl) (ihr hr)
        (meaning_bool_iff hrow hl) (meaning_bool_iff hrow hr)
      cases lb with
      | false => simp [meaning, hlb]
      | true => simp [meaning, hlb, hrb rfl]
    | or =>
      obtain ⟨rfl, rfl⟩ : l = .boolean ∧ r = .boolean := (Option.ite_none_right_eq_some.mp hty).1
      refine connective_iff false evaluate_or_iff (fun lb rb hlb hrb => ?_) (ihl hl) (ihr hr)
        (meaning_bool_iff hrow hl) (meaning_bool_iff hrow hr)
      cases lb with
      | true => simp [meaning, hlb]
      | false => simp [meaning, hlb, hrb rfl]
    | eq | neq | lt | lte | gt | gte =>
      exact comparison_iff (by decide) (by decide) (comparable (Option.ite_none_right_eq_some.mp hty).1
        ((valueType_meaning hrow hl).imp_right meaning_of_nullColumn)
        ((valueType_meaning hrow hr).imp_right meaning_of_nullColumn)) (ihl hl) (ihr hr)

/-- **Well-typed conditions**: on a conforming row a well-typed condition evaluates to a truth value
exactly if no column that is evaluated as a truth value is NULL. -/
theorem evaluatePredicate_ok_iff (hrow : RowConforms schema row) {e : Expr}
    (hty : WellTyped schema e) :
    (∃ b, evaluatePredicate (some e) schema row = pure b) ↔
      Decided schema row e ∧ ¬ NullColumn schema row e := by
  rw [← meaning_bool_iff hrow hty, ← exists_and_left]
  refine exists_congr fun b => ?_
  rw [evaluatePredicate, Checked.bind_eq_pure]
  simp only [evaluate_iff hrow hty]
  constructor
  · rintro ⟨_, ⟨hdecided, rfl⟩, hb⟩
    refine ⟨hdecided, ?_⟩
    cases hv : meaning schema row e with
    | bool b' =>
      rw [hv] at hb
      rw [Checked.pure_inj.mp hb]
    | null | int32 | int64 | double | string =>
      rw [hv] at hb
      exact absurd hb (Checked.throw_ne_pure _ _)
  · rintro ⟨hdecided, hb⟩
    exact ⟨_, ⟨hdecided, hb.symm⟩, rfl⟩

/-- A table with a name, a flag and a number. -/
def flagSchema : Schema :=
  ⟨[⟨lit "name", .varchar, true, 255⟩, ⟨lit "flag", .bool, true, 255⟩, ⟨lit "n", .int, true, 255⟩]⟩

/-- `(name = 'x' OR flag) AND n = 7`. -/
def namedOrFlagged : Expr :=
  .binary (.binary (.binary (.column (lit "name")) .eq (.literal (.string (lit "x")))) .or
    (.column (lit "flag"))) .and (.binary (.column (lit "n")) .eq (.literal (.int64 7)))

/-- With the right name the NULL in the flag does not matter, and with another one it does; the NULL in the
number never does. -/
theorem evaluatePredicate_ok_named :
    WellTyped flagSchema namedOrFlagged ∧
    RowConforms flagSchema [.string (lit "x"), .null, .null] ∧
    (∃ b, evaluatePredicate (some namedOrFlagged) flagSchema [.string (lit "x"), .null, .null] = pure b) ∧
    RowConforms flagSchema [.string (lit "y"), .null, .null] ∧
    ¬ ∃ b, evaluatePredicate (some namedOrFlagged) flagSchema [.string (lit "y"), .null, .null]
      = pure b := by
  have hrow : ∀ name : Str, name.length ≤ 255 → RowConforms flagSchema [.string name, .null, .null] := by
    intro name hname
    refine .cons ⟨rfl, nofun, ?_⟩ (.cons ⟨rfl, fun _ => rfl, nofun⟩ (.cons ⟨rfl, fun _ => rfl, nofun⟩ .nil))
    intro s hs
    cases hs
    exact hname
  have hx := hrow (lit "x") (by decide)
  have hy := hrow (lit "y") (by decide)
  have hty : WellTyped flagSchema namedOrFlagged := rfl
  refine ⟨hty, hx, (evaluatePredicate_ok_iff hx hty).mpr ?_, hy, fun h => ?_⟩
  · exact ⟨⟨⟨⟨trivial, trivial⟩, id, fun h => absurd h (by decide)⟩, id,
      fun _ => ⟨⟨trivial, trivial⟩, id⟩⟩, id⟩
  · obtain ⟨⟨⟨-, -, hflag⟩, -⟩, -⟩ := (evaluatePredicate_ok_iff hy hty).mp h
    exact (hflag (by decide)).2 ⟨⟨1, by decide⟩, by decide, rfl⟩

/-- `WHERE flag` is well-typed, but fails on a row where the flag is NULL. -/
theorem null_flag_fails :
    RowConforms flagSchema [.null, .null, .null] ∧ WellTyped flagSchema (.column (lit "flag")) ∧
      evaluatePredicate (some (.column (lit "flag"))) flagSchema [.null, .null, .null] =
        throw ⟨.invalidArgument, lit "WHERE clause did not evaluate to a boolean"⟩ :=
  ⟨.cons ⟨rfl, fun _ => rfl, nofun⟩ (.cons ⟨rfl, fun _ => rfl, nofun⟩ (.cons ⟨rfl, fun _ => rfl, nofun⟩ .nil)),
    rfl, rfl⟩

end MiniDB.Executor
