import MiniDB.Executor.Executor

/-!
# Correctness of expression evaluation

On a row with a value for each column an expression evaluates to a value or an error, never reading
outside the row.  A conjunction holds exactly if all the conjuncts that `FlattenAnd` finds in it do.
-/

namespace MiniDB.Executor

open Effect Paged
open Checked (bind_eq_ofResult bind_eq_pure pure_inj throw_ne_pure)

variable {schema : Schema} {row : Row} {left right : Expr} {side : String} {b : Bool}

/-! ### No access outside the row -/

theorem operand_checked (side : String) (v : Value) : ∃ r, operand side v = Checked.ofResult r := by
  unfold operand
  cases v with
  | bool b => exact ⟨.ok b, rfl⟩
  | null | int32 | int64 | double | string => exact ⟨.error _, rfl⟩

theorem evaluateComparison_checked (op : BinaryOp) (l r : Value) :
    ∃ x, evaluateComparison op l r = Checked.ofResult x := by
  have hordered : ∀ g : Int → Bool, ∃ x, (if isNull l || isNull r then
      (return .bool false : Fallible Value)
    else do
      let c ← Checked.ofResult (compareOrdered l r)
      return .bool (g c)) = Checked.ofResult x := by
    intro g
    split_ifs
    · exact ⟨.ok (.bool false), rfl⟩
    · exact bind_eq_ofResult ⟨_, rfl⟩ fun c _ => ⟨.ok _, rfl⟩
  unfold evaluateComparison
  cases op with
  | eq => exact bind_eq_ofResult ⟨_, rfl⟩ fun _ _ => ⟨.ok _, rfl⟩
  | neq => exact bind_eq_ofResult ⟨_, rfl⟩ fun _ _ => ⟨.ok _, rfl⟩
  | lt => exact hordered fun c => decide (c < 0)
  | lte => exact hordered fun c => decide (c ≤ 0)
  | gt => exact hordered fun c => decide (c > 0)
  | gte => exact hordered fun c => decide (c ≥ 0)
  | and | or =>
    dsimp only
    split_ifs
    · exact ⟨.ok (.bool false), rfl⟩
    · exact bind_eq_ofResult ⟨_, rfl⟩ fun _ _ => ⟨.error _, rfl⟩

theorem evaluate_comparison {op : BinaryOp} (hand : op ≠ .and) (hor : op ≠ .or) :
    evaluate schema row (.binary left op right) = (do
      let l ← evaluate schema row left
      let r ← evaluate schema row right
      evaluateComparison op l r) := by
  cases op with
  | and => exact absurd rfl hand
  | or => exact absurd rfl hor
  | eq | neq | lt | lte | gt | gte => rfl

theorem evaluate_checked (h : row.length = schema.columnCount) (e : Expr) :
    ∃ r, evaluate schema row e = Checked.ofResult r := by
  induction e with
  | column name =>
    rw [evaluate]
    cases hidx : schema.indexOf name with
    | none => exact ⟨.error _, rfl⟩
    | some idx =>
      have hlt : idx.val < row.length := by rw [h]; exact idx.isLt
      exact ⟨.ok row[idx.val], by simp only [List.getElem?_eq_getElem hlt]; rfl⟩
  | literal v => exact ⟨.ok v, rfl⟩
  | binary left op right ihl ihr =>
    have hside : ∀ side e, (∃ r, evaluate schema row e = Checked.ofResult r) →
        ∃ r, (evaluate schema row e >>= operand side) = Checked.ofResult r := fun side e he =>
      bind_eq_ofResult he fun v _ => operand_checked side v
    cases op with
    | and =>
      rw [evaluate]
      refine bind_eq_ofResult (hside "left" left ihl) fun lb _ => ?_
      cases lb with
      | false => exact ⟨.ok (.bool false), rfl⟩
      | true => exact bind_eq_ofResult (hside "right" right ihr) fun _ _ => ⟨.ok _, rfl⟩
    | or =>
      rw [evaluate]
      refine bind_eq_ofResult (hside "left" left ihl) fun lb _ => ?_
      cases lb with
      | true => exact ⟨.ok (.bool true), rfl⟩
      | false => exact bind_eq_ofResult (hside "right" right ihr) fun _ _ => ⟨.ok _, rfl⟩
    | eq | neq | lt | lte | gt | gte =>
      rw [evaluate_comparison (by decide) (by decide)]
      refine bind_eq_ofResult ihl fun l _ => ?_
      exact bind_eq_ofResult ihr fun r _ => evaluateComparison_checked _ l r

theorem evaluatePredicate_checked (h : row.length = schema.columnCount) (w : Option Expr) :
    ∃ r, evaluatePredicate w schema row = Checked.ofResult r := by
  unfold evaluatePredicate
  cases w with
  | none => exact ⟨.ok true, rfl⟩
  | some e =>
    refine bind_eq_ofResult (evaluate_checked h e) fun v _ => ?_
    cases v with
    | bool b => exact ⟨.ok b, rfl⟩
    | null | int32 | int64 | double | string => exact ⟨.error _, rfl⟩

/-! ### Conjunctions -/

/-- The WHERE clause holds on the row. -/
def Holds (schema : Schema) (row : Row) (w : Expr) : Prop :=
  evaluatePredicate (some w) schema row = pure true

theorem holds_iff {w : Expr} : Holds schema row w ↔ evaluate schema row w = pure (.bool true) := by
  unfold Holds evaluatePredicate
  dsimp only
  rw [bind_eq_pure]
  constructor
  · rintro ⟨v, hv, hb⟩
    cases v with
    | bool b =>
      rw [hv, pure_inj.mp hb]
    | null | int32 | int64 | double | string => exact absurd hb (throw_ne_pure _ _)
  · exact fun h => ⟨.bool true, h, rfl⟩

theorem operand_eq_pure {v : Value} : operand side v = pure b ↔ v = .bool b := by
  cases v with
  | bool b' =>
    rw [Value.bool.injEq]
    exact pure_inj
  | null | int32 | int64 | double | string =>
    exact ⟨fun h => absurd h (throw_ne_pure _ _), (fun h => nomatch h)⟩

/-- An operand of AND and OR has to be a boolean. -/
theorem evaluate_operand_eq_pure {e : Expr} :
    (evaluate schema row e >>= operand side) = pure b ↔ evaluate schema row e = pure (.bool b) := by
  rw [bind_eq_pure]
  constructor
  · rintro ⟨v, hv, hb⟩
    rw [hv, operand_eq_pure.mp hb]
  · exact fun h => ⟨.bool b, h, operand_eq_pure.mpr rfl⟩

theorem holds_and :
    Holds schema row (.binary left .and right) ↔ Holds schema row left ∧ Holds schema row right := by
  rw [holds_iff, holds_iff, holds_iff, evaluate, bind_eq_pure]
  constructor
  · rintro ⟨lb, hl, hr⟩
    cases lb with
    | false => exact absurd (pure_inj.mp hr) (by simp)
    | true =>
      obtain ⟨rb, hrb, heq⟩ := bind_eq_pure.mp hr
      obtain rfl : rb = true := by simpa using pure_inj.mp heq
      exact ⟨evaluate_operand_eq_pure.mp hl, evaluate_operand_eq_pure.mp hrb⟩
  · rintro ⟨hl, hr⟩
    refine ⟨true, evaluate_operand_eq_pure.mpr hl, ?_⟩
    exact bind_eq_pure.mpr ⟨true, evaluate_operand_eq_pure.mpr hr, rfl⟩

/-- A WHERE clause holds exactly if all its conjuncts do. -/
theorem holds_iff_flattenAnd (w : Expr) :
    Holds schema row w ↔ ∀ c ∈ flattenAnd w, Holds schema row c := by
  induction w with
  | column name => simp [flattenAnd]
  | literal v => simp [flattenAnd]
  | binary left op right ihl ihr =>
    cases op with
    | and =>
      rw [holds_and, ihl, ihr, flattenAnd, List.forall_mem_append]
    | eq | neq | lt | lte | gt | gte | or => simp [flattenAnd]

end MiniDB.Executor
