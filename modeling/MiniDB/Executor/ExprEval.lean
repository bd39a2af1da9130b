import MiniDB.Parser.Ast

/-!
# Evaluating expressions

`Evaluate` and `EvaluatePredicate` on a row, with the comparisons of values they use, and the
comparison that sorting and the aggregates use.  Reading a value of the row is an access: rows are
not checked against the schema here.
-/

namespace MiniDB.Executor

open Effect Paged

/-- `ToDouble` and `ValueToDoubleOrNull`. -/
def toDouble : Value → Option Double
  | .int32 v => some (.ofInt v.toInt)
  | .int64 v => some (.ofInt v.toInt)
  | .double v => some v
  | _ => none

/-- `ValuesEqual`. -/
def valuesEqual (a b : Value) : Result Bool :=
  if isNull a || isNull b then .ok false
  else
    match toDouble a, toDouble b with
    | some da, some db => .ok (da.eq db)
    | _, _ =>
      match a, b with
      | .string sa, .string sb => .ok (sa = sb)
      | .bool ba, .bool bb => .ok (ba = bb)
      | _, _ => .error ⟨.invalidArgument, lit "cannot compare values of incompatible types"⟩

/-- The three-way comparison of `CompareOrdered` and `CompareForSort`, where there is one. -/
def compare? (a b : Value) : Option Int :=
  match toDouble a, toDouble b with
  | some da, some db => some (if da.lt db then -1 else if db.lt da then 1 else 0)
  | _, _ =>
    match a, b with
    | .string sa, .string sb => some (if sa < sb then -1 else if sb < sa then 1 else 0)
    | .bool ba, .bool bb => some (if ba = bb then 0 else if ba then 1 else -1)
    | _, _ => none

/-- `CompareOrdered`. -/
def compareOrdered (a b : Value) : Result Int :=
  match compare? a b with
  | some c => .ok c
  | none => .error ⟨.invalidArgument, lit "cannot order-compare values of incompatible types"⟩

/-- `CompareForSort`. -/
def compareForSort (a b : Value) : Int := (compare? a b).getD 0

/-- A boolean operand of AND and OR. -/
def operand (side : String) : Value → Fallible Bool
  | .bool b => return b
  | _ => throw ⟨.invalidArgument, lit side ++ lit " side of AND/OR did not evaluate to a boolean"⟩

/-- A comparison of two values. -/
def evaluateComparison (op : BinaryOp) (left right : Value) : Fallible Value := do
  match op with
  | .eq =>
    let eq ← Checked.ofResult (valuesEqual left right)
    return .bool eq
  | .neq =>
    let eq ← Checked.ofResult (valuesEqual left right)
    return .bool (!eq)
  | _ =>
    if isNull left || isNull right then
      return .bool false
    else
      let c ← Checked.ofResult (compareOrdered left right)
      match op with
      | .lt => return .bool (c < 0)
      | .lte => return .bool (c ≤ 0)
      | .gt => return .bool (c > 0)
      | .gte => return .bool (c ≥ 0)
      | _ => throw ⟨.invalidArgument, lit "unsupported comparison operator"⟩

/-- `Evaluate`. -/
def evaluate (schema : Schema) (row : Row) : Expr → Fallible Value
  | .column name =>
    match schema.indexOf name with
    | none => throw ⟨.invalidArgument, lit "unknown column '" ++ name ++ lit "' in expression"⟩
    | some idx => Checked.access .outOfBounds row[idx.val]?
  | .literal value => return value
  | .binary left .and right => do
    let lb ← evaluate schema row left >>= operand "left"
    if lb then
      let rb ← evaluate schema row right >>= operand "right"
      return .bool rb
    else
      return .bool false
  | .binary left .or right => do
    let lb ← evaluate schema row left >>= operand "left"
    if lb then
      return .bool true
    else
      let rb ← evaluate schema row right >>= operand "right"
      return .bool rb
  | .binary left op right => do
    let l ← evaluate schema row left
    let r ← evaluate schema row right
    evaluateComparison op l r

/-- `EvaluatePredicate`. -/
def evaluatePredicate (expr : Option Expr) (schema : Schema) (row : Row) : Fallible Bool := do
  match expr with
  | none => return true
  | some expr =>
    match ← evaluate schema row expr with
    | .bool b => return b
    | _ => throw ⟨.invalidArgument, lit "WHERE clause did not evaluate to a boolean"⟩

end MiniDB.Executor
