import MiniDB.Executor.Equiv.Plan

/-!
# Comparing integers

All comparisons of numbers go through doubles, so that integers are compared after they have been
rounded to 53 bits.  A comparison of two integers is therefore right exactly if they are equal or
rounding leaves them different (`Separated`); ORDER BY, MIN and MAX follow the order of the integers
on columns whose values are pairwise separated.
-/

namespace MiniDB.Executor

open Effect Paged Cursor Extremum

/-- The comparisons of two values are those of the integers `x` and `y`. -/
structure ComparesExactly (a b : Value) (x y : Int) : Prop where
  equal : valuesEqual a b = .ok (decide (x = y))
  ordered : ∃ c, compareOrdered a b = .ok c ∧ (c < 0 ↔ x < y) ∧ (c = 0 ↔ x = y) ∧ (c > 0 ↔ x > y)
  forSort : compareOrdered a b = .ok (compareForSort a b)

/-- The operators of expressions say what they say about the integers. -/
def OperatorsExact (a b : Value) (x y : Int) : Prop :=
  ∀ op, op ≠ .and → op ≠ .or → evaluateComparison op a b = pure (.bool (decide (Compares op x y)))

section Pair

variable {a b : Value} {x y : Int}

theorem comparesExactly_of_separated (ha : IsInteger a x) (hb : IsInteger b y)
    (h : Separated x y) : ComparesExactly a b x y := by
  have hcmp : compare? a b = some (threeWay x y) := by
    rw [compare?_integers ha hb, h.threeWay_eq]
  have hordered : compareOrdered a b = .ok (threeWay x y) := by
    rw [compareOrdered, hcmp]
  refine ⟨?_, ⟨_, hordered, threeWay_neg, threeWay_eq_zero, threeWay_pos⟩, ?_⟩
  · rw [valuesEqual_integers ha hb, decide_eq_decide.mpr h.eq_iff]
  · rw [hordered, compareForSort, hcmp]
    rfl

/-- `ValuesEqual` alone already tells. -/
theorem separated_of_valuesEqual (ha : IsInteger a x) (hb : IsInteger b y)
    (h : valuesEqual a b = .ok (decide (x = y))) : Separated x y := by
  rw [valuesEqual_integers ha hb, Except.ok.injEq, decide_eq_decide] at h
  by_cases hxy : x = y
  · exact .inl hxy
  · exact .inr fun hround => hxy (h.mp hround)

theorem separated_of_operatorsExact (ha : IsInteger a x) (hb : IsInteger b y)
    (h : OperatorsExact a b x y) : Separated x y := by
  refine separated_of_valuesEqual ha hb ?_
  have heq := h .eq nofun nofun
  rw [valuesEqual_integers ha hb]
  simp only [evaluateComparison, valuesEqual_integers ha hb, Checked.ofResult_ok, pure_bind] at heq
  exact congrArg Except.ok (Value.bool.inj (Checked.pure_inj.mp heq))

end Pair

/-! ### Columns -/

/-- The values that are not NULL are integers which rounding does not make equal. -/
def SeparatedValues (values : List Value) : Prop :=
  (∀ v ∈ values, isNull v = true ∨ ∃ n : Int64, v = .int64 n) ∧
    ∀ m n : Int64, .int64 m ∈ values → .int64 n ∈ values → Separated m.toInt n.toInt

variable {m : Int64} {values : List Value}

theorem SeparatedValues.compareForSort_eq (h : SeparatedValues values) {n : Int64}
    (hm : .int64 m ∈ values) (hn : .int64 n ∈ values) :
    compareForSort (.int64 m) (.int64 n) = threeWay m.toInt n.toInt := by
  rw [compareForSort, compare?_integers (.int64 m) (.int64 n), (h.2 m n hm hn).threeWay_eq]
  rfl

theorem SeparatedValues.sortValue (h : SeparatedValues values) {v : Value} (hv : v ∈ values) :
    SortValue .bigInt v := by
  rcases h.1 v hv with hnull | ⟨n, rfl⟩
  · cases v with
    | null => exact ⟨rfl, rfl⟩
    | _ => cases hnull
  · exact ⟨rfl, rfl⟩

/-- The order of two integers that a clause asks for. -/
def InOrder (descending : Bool) (m n : Int64) : Prop :=
  if descending then n.toInt ≤ m.toInt else m.toInt ≤ n.toInt

/-- ORDER BY follows the order of the integers. -/
theorem sorted_integers (orderBy : OrderByClause) (col : Nat) (ts : List Tuple)
    (h : SeparatedValues (ts.map (Tuple.key col))) :
    (sorted orderBy col ts).Pairwise fun t u => ∀ m n : Int64, t.key col = .int64 m →
      u.key col = .int64 n → InOrder orderBy.descending m n := by
  have hkey : ∀ t ∈ ts, t.key col ∈ ts.map (Tuple.key col) := fun t ht => List.mem_map_of_mem ht
  have hsorted := sorted_sortedBy orderBy fun t ht => h.sortValue (hkey t ht)
  refine hsorted.monotone.imp_of_mem fun {t u} ht hu hmono m n hm hn => ?_
  have hm' : .int64 m ∈ ts.map (Tuple.key col) := hm ▸ hkey t (hsorted.perm.subset ht)
  have hn' : .int64 n ∈ ts.map (Tuple.key col) := hn ▸ hkey u (hsorted.perm.subset hu)
  rw [hm, hn, h.compareForSort_eq hm' hn'] at hmono
  have hcmp := hmono rfl rfl
  unfold InOrder
  split_ifs at hcmp ⊢ with hdesc
  · exact threeWay_nonneg.mp hcmp
  · exact threeWay_nonpos.mp hcmp

section Extrema

variable {schema : Schema} {column : Str} {alias? : Option Str} {rows : List Row}

theorem columnValues_bigInt (h : SeparatedValues (columnValues schema column rows)) :
    ∀ v ∈ columnValues schema column rows, OfType .bigInt v := by
  intro v hv
  obtain ⟨row, -, hrow⟩ := List.mem_filterMap.mp hv
  have hnull : isNull v = false := by
    unfold valueIn at hrow
    obtain ⟨idx, -, hfilter⟩ := Option.bind_eq_some_iff.mp hrow
    simpa using (Option.filter_eq_some_iff.mp hfilter).2
  rcases h.1 v hv with hv' | ⟨n, rfl⟩
  · rw [hnull] at hv'
    cases hv'
  · exact .bigInt n

/-- MIN follows the order of the integers. -/
theorem min_integers (h : SeparatedValues (columnValues schema column rows))
    (hm : aggregateValue schema (.ofColumn .min column alias?) rows = .int64 m) :
    .int64 m ∈ columnValues schema column rows ∧
      ∀ n : Int64, .int64 n ∈ columnValues schema column rows → m.toInt ≤ n.toInt := by
  rw [aggregateValue_min] at hm
  cases hrun : running smaller (columnValues schema column rows) with
  | none =>
    rw [hrun] at hm
    cases hm
  | some v =>
    rw [hrun] at hm
    obtain rfl : v = .int64 m := hm
    obtain ⟨hmem, hbest⟩ := running_smaller (columnValues_bigInt h) hrun
    refine ⟨hmem, fun n hn => ?_⟩
    have hle := hbest _ hn
    rw [h.compareForSort_eq hmem hn] at hle
    exact threeWay_nonpos.mp hle

/-- MAX follows the order of the integers. -/
theorem max_integers (h : SeparatedValues (columnValues schema column rows))
    (hm : aggregateValue schema (.ofColumn .max column alias?) rows = .int64 m) :
    .int64 m ∈ columnValues schema column rows ∧
      ∀ n : Int64, .int64 n ∈ columnValues schema column rows → n.toInt ≤ m.toInt := by
  rw [aggregateValue_max] at hm
  cases hrun : running larger (columnValues schema column rows) with
  | none =>
    rw [hrun] at hm
    cases hm
  | some v =>
    rw [hrun] at hm
    obtain rfl : v = .int64 m := hm
    obtain ⟨hmem, hbest⟩ := running_larger (columnValues_bigInt h) hrun
    refine ⟨hmem, fun n hn => ?_⟩
    have hge := hbest _ hn
    rw [h.compareForSort_eq hmem hn] at hge
    exact threeWay_nonneg.mp hge

end Extrema

/-- **Integers are compared exactly if rounding does not make them equal.**  The comparisons of two
integers, of which each is of 32 or 64 bits, and the operators of expressions on them are right
exactly if they are separated.  On BIGINT columns with separated values, ORDER BY, MIN and MAX follow
the order of the integers. -/
theorem integer_comparisons_exact_iff {a b : Value} {x y : Int} (ha : IsInteger a x)
    (hb : IsInteger b y) :
    (ComparesExactly a b x y ↔ Separated x y) ∧ (OperatorsExact a b x y ↔ Separated x y) ∧
      (∀ (orderBy : OrderByClause) (col : Nat) (ts : List Tuple),
        SeparatedValues (ts.map (Tuple.key col)) →
          (sorted orderBy col ts).Pairwise fun t u => ∀ m n : Int64, t.key col = .int64 m →
            u.key col = .int64 n → InOrder orderBy.descending m n) ∧
      ∀ (schema : Schema) (column : Str) (alias? : Option Str) (rows : List Row) (m : Int64),
        SeparatedValues (columnValues schema column rows) →
          (aggregateValue schema (.ofColumn .min column alias?) rows = .int64 m →
            .int64 m ∈ columnValues schema column rows ∧
              ∀ n : Int64, .int64 n ∈ columnValues schema column rows → m.toInt ≤ n.toInt) ∧
          (aggregateValue schema (.ofColumn .max column alias?) rows = .int64 m →
            .int64 m ∈ columnValues schema column rows ∧
              ∀ n : Int64, .int64 n ∈ columnValues schema column rows → n.toInt ≤ m.toInt) := by
  refine ⟨⟨?_, ?_⟩, ⟨?_, ?_⟩, sorted_integers, fun schema column alias? rows m h => ⟨?_, ?_⟩⟩
  · exact fun h => separated_of_valuesEqual ha hb h.equal
  · exact comparesExactly_of_separated ha hb
  · exact separated_of_operatorsExact ha hb
  · exact fun h op hand hor => evaluateComparison_separated hand hor ha hb h
  · exact min_integers h
  · exact max_integers h

/-- `2 ^ 53 + 2` is not rounded. -/
theorem integer_comparisons_exact_even :
    ComparesExactly (.int64 9007199254740992) (.int64 9007199254740994)
      9007199254740992 9007199254740994 :=
  (integer_comparisons_exact_iff (.int64 9007199254740992) (.int64 9007199254740994)).1.mpr
    (.inr (by decide +kernel))

/-- `2 ^ 53 + 1` is rounded to `2 ^ 53`: the two are equal, none is below the other, and of a column
with both MIN is the one that comes first. -/
theorem neighbours_compare_equal :
    valuesEqual (.int64 9007199254740992) (.int64 9007199254740993) = .ok true ∧
      compareOrdered (.int64 9007199254740992) (.int64 9007199254740993) = .ok 0 ∧
      compareForSort (.int64 9007199254740992) (.int64 9007199254740993) = 0 ∧
      aggregateValue ⟨[{ name := lit "a", type := .bigInt }]⟩ (.ofColumn .min (lit "a") none)
        [[.int64 9007199254740993], [.int64 9007199254740992]] = .int64 9007199254740993 ∧
      ¬ ComparesExactly (.int64 9007199254740992) (.int64 9007199254740993)
        9007199254740992 9007199254740993 := by
  have hequal : valuesEqual (.int64 9007199254740992) (.int64 9007199254740993) = .ok true := by
    decide +kernel
  refine ⟨hequal, by decide +kernel, by decide +kernel, by decide +kernel, fun h => ?_⟩
  have := hequal.symm.trans h.equal
  exact absurd this (by decide)

end MiniDB.Executor
