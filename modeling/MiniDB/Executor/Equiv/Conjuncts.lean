import MiniDB.Executor.Equiv.Comparison
import MiniDB.Executor.Equiv.ExprEval

/-!
# The conjuncts of a WHERE clause

`FlattenAnd` takes a conjunction apart and `ExtractIndexableConjunct` turns a comparison of a literal
with a column around.  Neither changes what is true of a row (`conjuncts_keep_truth`): a conjunction
holds if all its conjuncts do, and a comparison has the result, the error included, that the flipped
operator has on the exchanged operands (`evaluateComparison_flip`), NULLs, NaNs and values without an
order among them.
-/

namespace MiniDB.Executor

open Effect Paged

/-! ### Exchanging the operands -/

/-- Equality of values does not depend on their order. -/
theorem valuesEqual_comm (a b : Value) : valuesEqual b a = valuesEqual a b := by
  have hdouble : ∀ x y : Double, y.eq x = x.eq y := by
    intro x y
    unfold Double.eq
    rw [Bool.and_comm (!y.isNaN), decide_eq_decide.mpr (eq_comm (a := y.units))]
  unfold valuesEqual
  rw [Bool.or_comm]
  split_ifs
  · rfl
  · cases ha : toDouble a with
    | some x =>
      cases hb : toDouble b with
      | some y => exact congrArg Except.ok (hdouble x y)
      | none => cases a <;> cases b <;> first | rfl | cases ha
    | none =>
      -- only strings and booleans are left to be compared
      cases a <;> cases b <;> first | rfl | cases ha
      · exact congrArg Except.ok (decide_eq_decide.mpr eq_comm)
      · exact congrArg Except.ok (decide_eq_decide.mpr eq_comm)

/-- The comparison the other way round. -/
theorem compare?_swap (a b : Value) : compare? b a = (compare? a b).map Neg.neg := by
  have hdouble : ∀ x y : Double, (if y.lt x then (-1 : Int) else if x.lt y then 1 else 0)
      = -(if x.lt y then (-1 : Int) else if y.lt x then 1 else 0) := by
    intro x y
    rw [threeWay_units, threeWay_units, Bool.or_comm]
    split_ifs
    · rfl
    · exact threeWay_swap _ _
  unfold compare?
  cases ha : toDouble a with
  | some x =>
    cases hb : toDouble b with
    | some y => exact congrArg some (hdouble x y)
    | none => cases a <;> cases b <;> first | rfl | cases ha
  | none =>
    cases a <;> cases b <;> first | rfl | cases ha
    · rename_i p q
      cases p <;> cases q <;> rfl
    · rename_i s t
      exact congrArg some (compareForSort_swap (.varchar s) (.varchar t))

/-- **A comparison is the flipped one of the exchanged operands**, whatever they are. -/
theorem evaluateComparison_flip (op : BinaryOp) (a b : Value) :
    evaluateComparison op a b = evaluateComparison (flipComparisonOp op) b a := by
  have hordered : ∀ f g : Int → Fallible Value, (∀ c, f c = g (-c)) →
      (if isNull a || isNull b then (return .bool false : Fallible Value)
        else Checked.ofResult (compareOrdered a b) >>= f)
      = if isNull b || isNull a then (return .bool false : Fallible Value)
        else Checked.ofResult (compareOrdered b a) >>= g := by
    intro f g hfg
    rw [Bool.or_comm]
    split_ifs
    · rfl
    · unfold compareOrdered
      rw [compare?_swap a b]
      cases compare? a b with
      | none => rfl
      | some c => exact hfg c
  unfold evaluateComparison
  cases op with
  | eq | neq =>
    rw [valuesEqual_comm b a]
    rfl
  | lt => exact hordered _ _ fun c => by simp [flipComparisonOp]
  | lte => exact hordered _ _ fun c => by simp [flipComparisonOp]
  | gt => exact hordered _ _ fun c => by simp [flipComparisonOp]
  | gte => exact hordered _ _ fun c => by simp [flipComparisonOp]
  | and | or => exact hordered _ _ fun c => rfl

/-! ### Conjuncts that an index can answer -/

theorem flipComparisonOp_ne {op : BinaryOp} (hand : op ≠ .and) (hor : op ≠ .or) :
    flipComparisonOp op ≠ .and ∧ flipComparisonOp op ≠ .or := by
  cases op with
  | and => exact absurd rfl hand
  | or => exact absurd rfl hor
  | eq | neq | lt | lte | gt | gte => exact ⟨nofun, nofun⟩

variable {conj : IndexableConjunct} {e : Expr}

/-- The comparisons an index can answer. -/
theorem extract_some (h : extractIndexableConjunct e = some conj) :
    conj.op ≠ .and ∧ conj.op ≠ .or ∧
      (e = .binary (.column conj.column) conj.op (.literal (.int64 conj.value)) ∨
        ∃ op, op ≠ .and ∧ op ≠ .or ∧ conj.op = flipComparisonOp op ∧
          e = .binary (.literal (.int64 conj.value)) op (.column conj.column)) := by
  unfold extractIndexableConjunct at h
  split at h
  · cases h
  · cases h
  · rename_i column op value hand hor
    obtain rfl := Option.some.inj h
    exact ⟨hand, hor, .inl rfl⟩
  · rename_i value op column hand hor
    obtain rfl := Option.some.inj h
    obtain ⟨hand', hor'⟩ := flipComparisonOp_ne hand hor
    exact ⟨hand', hor', .inr ⟨op, hand, hor, rfl, rfl⟩⟩
  · cases h

/-- The comparison that a conjunct stands for, with the column on the left. -/
def IndexableConjunct.toExpr (conj : IndexableConjunct) : Expr :=
  .binary (.column conj.column) conj.op (.literal (.int64 conj.value))

variable {schema : Schema} {row : Row}

/-- A conjunct evaluates as the comparison that was extracted from it. -/
theorem evaluate_extracted (h : extractIndexableConjunct e = some conj) :
    evaluate schema row e = evaluate schema row conj.toExpr := by
  obtain ⟨hand, hor, rfl | ⟨op, hand', hor', hflip, rfl⟩⟩ := extract_some h
  · rfl
  · -- the literal is evaluated without effect, so that the order of evaluation does not matter
    have hlit : evaluate schema row (.literal (.int64 conj.value)) = pure (.int64 conj.value) := rfl
    rw [IndexableConjunct.toExpr, evaluate_comparison hand' hor', evaluate_comparison hand hor, hlit,
      hflip]
    simp only [pure_bind]
    exact bind_congr fun v => evaluateComparison_flip op _ v

/-- **Taking a WHERE clause apart keeps its truth**: on every row, it is true if and only if all the
conjuncts that `FlattenAnd` finds in it are, and each conjunct from which a comparison is extracted
evaluates as this comparison, with the column on the left. -/
theorem conjuncts_keep_truth (schema : Schema) (row : Row) :
    (∀ w, evaluatePredicate (some w) schema row = pure true ↔
      ∀ e ∈ flattenAnd w, evaluate schema row e = pure (.bool true)) ∧
    ∀ e conj, extractIndexableConjunct e = some conj →
      evaluate schema row e = evaluate schema row
        (.binary (.column conj.column) conj.op (.literal (.int64 conj.value))) := by
  refine ⟨fun w => ?_, fun e conj hconj => evaluate_extracted hconj⟩
  show Holds schema row w ↔ _
  rw [holds_iff_flattenAnd]
  exact forall₂_congr fun e _ => holds_iff

/-- A table with one column. -/
def xSchema : Schema := ⟨[⟨lit "x", .int, true, 255⟩]⟩

/-- `7 > x`, on a row where `x` is a text: the comparison that is extracted fails in the same way. -/
theorem literal_on_the_left :
    extractIndexableConjunct (.binary (.literal (.int64 7)) .gt (.column (lit "x")))
      = some ⟨lit "x", .lt, 7⟩ ∧
    evaluate xSchema [.string (lit "a")] (.binary (.literal (.int64 7)) .gt (.column (lit "x")))
      = evaluate xSchema [.string (lit "a")]
          (.binary (.column (lit "x")) .lt (.literal (.int64 7))) :=
  ⟨by decide, (conjuncts_keep_truth xSchema [.string (lit "a")]).2 _ ⟨lit "x", .lt, 7⟩ (by decide)⟩

end MiniDB.Executor
