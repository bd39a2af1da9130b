import Mathlib.Data.Int.ConditionallyCompleteOrder
import Mathlib.Order.WithBot
import MiniDB.Executor.Equiv.Comparison
import MiniDB.Executor.Equiv.Definitions
import MiniDB.Executor.Equiv.Operator
import MiniDB.Lib.StableSort

/-!
# ORDER BY sorts

The comparator of `SortOperator` compares keys: a NULL is below every value, and values are compared
by their ranks.  On the values of one column type it is therefore a strict weak order, and so is its
converse, which is the comparator of DESC: there NULLs come last.  `SortedBy` says what is expected
of the operator, stability in both directions included.
-/

namespace MiniDB.Executor

open Effect Paged Cursor Sorting

/-- NULL, or a value of the column type that has a place in its order. -/
def SortValue (type : ColumnType) (v : Value) : Prop :=
  valueMatchesType v type = true ∧ isNaN v = false

/-- The key a value is sorted by. -/
def sortKey (v : Value) : WithBot (Lex (Int × List Nat)) := if isNull v then ⊥ else rank v

variable {v : Value}

theorem sortKey_of_null (h : isNull v = true) : sortKey v = ⊥ := if_pos h

theorem sortKey_of_not_null (h : isNull v = false) : sortKey v = rank v :=
  if_neg (by rw [h]; exact Bool.false_ne_true)

section Comparator

variable {type : ColumnType} {a b : Value}

/-- Two values that are not NULL. -/
theorem SortValue.compareForSort_eq (ha : SortValue type a) (hb : SortValue type b)
    (hna : isNull a = false) (hnb : isNull b = false) :
    compareForSort a b = threeWay (rank a) (rank b) := by
  rw [Executor.compareForSort_eq (ofType_of_matches hna ha.1) (ofType_of_matches hnb hb.1), ha.2,
    hb.2, Bool.or_self, if_neg Bool.false_ne_true]

/-- The comparator of ASC. -/
theorem sortsBefore_ascending (ha : SortValue type a) (hb : SortValue type b) :
    sortsBefore false a b = true ↔ sortKey a < sortKey b := by
  unfold sortsBefore
  cases hna : isNull a with
  | true =>
    rw [sortKey_of_null hna]
    cases hnb : isNull b with
    | true => simp [sortKey_of_null hnb]
    | false => simp [sortKey_of_not_null hnb, WithBot.bot_lt_coe]
  | false =>
    rw [sortKey_of_not_null hna]
    cases hnb : isNull b with
    | true => simp [sortKey_of_null hnb]
    | false =>
      rw [sortKey_of_not_null hnb, ha.compareForSort_eq hb hna hnb, WithBot.coe_lt_coe]
      simp [threeWay_neg]

/-- The comparator of DESC. -/
theorem sortsBefore_descending (ha : SortValue type a) (hb : SortValue type b) :
    sortsBefore true a b = true ↔ sortKey b < sortKey a := by
  unfold sortsBefore
  cases hna : isNull a with
  | true =>
    rw [sortKey_of_null hna]
    cases hnb : isNull b with
    | true => simp [sortKey_of_null hnb]
    | false => simp
  | false =>
    rw [sortKey_of_not_null hna]
    cases hnb : isNull b with
    | true => simp [sortKey_of_null hnb, WithBot.bot_lt_coe]
    | false =>
      rw [sortKey_of_not_null hnb, ha.compareForSort_eq hb hna hnb, WithBot.coe_lt_coe]
      simp [threeWay_pos]

/-- **The comparator is a strict weak order** in both directions. -/
theorem sortsBefore_strictWeakOrder (type : ColumnType) (descending : Bool) :
    StrictWeakOrderOn (SortValue type) (sortsBefore descending) := by
  cases descending with
  | false => exact .of_rank sortKey fun a b => sortsBefore_ascending
  | true => exact .of_rank (fun v => OrderDual.toDual (sortKey v)) fun a b => sortsBefore_descending

theorem tied_iff (ha : SortValue type a) (hb : SortValue type b) :
    tied a b = true ↔ sortKey a = sortKey b := by
  unfold tied
  cases hna : isNull a with
  | true =>
    cases a with
    | null =>
      cases hnb : isNull b with
      | true => simp [sortKey_of_null hna, sortKey_of_null hnb, compareForSort, compare?, toDouble]
      | false => simp [sortKey_of_null hna, sortKey_of_not_null hnb]
    | _ => cases hna
  | false =>
    cases hnb : isNull b with
    | true => simp [sortKey_of_null hnb, sortKey_of_not_null hna]
    | false =>
      rw [ha.compareForSort_eq hb hna hnb, sortKey_of_not_null hna, sortKey_of_not_null hnb,
        WithBot.coe_inj]
      simp [threeWay_eq_zero]

end Comparator

/-! ### The sorted tuples -/

/-- The value a tuple is sorted by. -/
def Tuple.key (col : Nat) (t : Tuple) : Value := t.values[col]?.getD .null

/-- What is expected of sorting tuples by a column. -/
structure SortedBy (type : ColumnType) (descending : Bool) (col : Nat) (input output : List Tuple) :
    Prop where
  perm : output.Perm input
  /-- NULLs come first, or last if the order is descending -/
  nulls : output.Pairwise fun t u =>
    if descending then isNull (t.key col) = true → isNull (u.key col) = true
    else isNull (u.key col) = true → isNull (t.key col) = true
  monotone : output.Pairwise fun t u => isNull (t.key col) = false → isNull (u.key col) = false →
    if descending then compareForSort (t.key col) (u.key col) ≥ 0
    else compareForSort (t.key col) (u.key col) ≤ 0
  /-- tuples with equal values, or with NULL, stay in the order of the input -/
  stable : ∀ v, SortValue type v →
    output.filter (fun t => tied v (t.key col)) = input.filter fun t => tied v (t.key col)

theorem sorted_eq (orderBy : OrderByClause) (col : Nat) (ts : List Tuple) :
    sorted orderBy col ts
      = ts.mergeSort fun t u => !sortsBefore orderBy.descending (u.key col) (t.key col) := by
  unfold sorted stableSort
  have hmap : (ts.map fun t => (t.values[col]?.getD .null, t)).map Prod.snd = ts := by
    rw [List.map_map]
    exact List.map_id' ts
  rw [List.map_mergeSort (s := fun t u => !sortsBefore orderBy.descending (u.key col) (t.key col)),
    hmap]
  intro p hp q hq
  obtain ⟨t, -, rfl⟩ := List.mem_map.mp hp
  obtain ⟨u, -, rfl⟩ := List.mem_map.mp hq
  rfl

variable {type : ColumnType} {col : Nat} {ts : List Tuple} {descending : Bool}

/-- The order of the result, for two tuples of which the second is not sorted before the first. -/
theorem keys_ordered {a b : Value} (ha : SortValue type a) (hb : SortValue type b)
    (h : sortsBefore descending b a = false) :
    (if descending then isNull a = true → isNull b = true else isNull b = true → isNull a = true) ∧
      (isNull a = false → isNull b = false →
        if descending then compareForSort a b ≥ 0 else compareForSort a b ≤ 0) := by
  rw [← Bool.not_eq_true] at h
  cases descending with
  | false =>
    rw [sortsBefore_ascending hb ha, not_lt] at h
    refine ⟨fun hnb => ?_, fun hna hnb => ?_⟩
    · rw [sortKey_of_null hnb, le_bot_iff] at h
      by_contra hna
      rw [Bool.not_eq_true] at hna
      rw [sortKey_of_not_null hna] at h
      exact WithBot.coe_ne_bot h
    · rw [sortKey_of_not_null hna, sortKey_of_not_null hnb, WithBot.coe_le_coe] at h
      rw [ha.compareForSort_eq hb hna hnb]
      exact threeWay_nonpos.mpr h
  | true =>
    rw [sortsBefore_descending hb ha, not_lt] at h
    refine ⟨fun hna => ?_, fun hna hnb => ?_⟩
    · rw [sortKey_of_null hna, le_bot_iff] at h
      by_contra hnb
      rw [Bool.not_eq_true] at hnb
      rw [sortKey_of_not_null hnb] at h
      exact WithBot.coe_ne_bot h
    · rw [sortKey_of_not_null hna, sortKey_of_not_null hnb, WithBot.coe_le_coe] at h
      rw [ha.compareForSort_eq hb hna hnb, ge_iff_le, ← not_lt, threeWay_neg, not_lt]
      exact h

/-- Tuples tied with the same value are not sorted before each other. -/
theorem not_sortsBefore_of_tied {a b : Value} (hv : SortValue type v) (ha : SortValue type a)
    (hb : SortValue type b) (hta : tied v a = true) (htb : tied v b = true) :
    sortsBefore descending a b = false := by
  rw [tied_iff hv ha] at hta
  rw [tied_iff hv hb] at htb
  rw [← Bool.not_eq_true]
  cases descending with
  | false => rw [sortsBefore_ascending ha hb, ← hta, ← htb]; exact lt_irrefl _
  | true => rw [sortsBefore_descending ha hb, ← hta, ← htb]; exact lt_irrefl _

/-- `sorted` gives what is expected of it. -/
theorem sorted_sortedBy (orderBy : OrderByClause) (h : ∀ t ∈ ts, SortValue type (t.key col)) :
    SortedBy type orderBy.descending col ts (sorted orderBy col ts) := by
  have hperm := sorted_perm orderBy col ts
  have horder := sortsBefore_strictWeakOrder type orderBy.descending
  have hswo : StrictWeakOrderOn (fun t : Tuple => SortValue type (t.key col))
      fun t u => sortsBefore orderBy.descending (t.key col) (u.key col) :=
    { irrefl := fun t => horder.irrefl _
      trans := fun t u w => horder.trans _ _ _
      ties := fun t u w => horder.ties _ _ _ }
  have hpairs : (sorted orderBy col ts).Pairwise fun t u =>
      sortsBefore orderBy.descending (u.key col) (t.key col) = false := by
    rw [sorted_eq]
    exact hswo.pairwise_mergeSort_on h
  have hkeys : ∀ t ∈ sorted orderBy col ts, SortValue type (t.key col) :=
    fun t ht => h t (hperm.subset ht)
  refine ⟨hperm, ?_, ?_, fun v hv => ?_⟩
  · exact hpairs.imp_of_mem fun ht hu htu => (keys_ordered (hkeys _ ht) (hkeys _ hu) htu).1
  · exact hpairs.imp_of_mem fun ht hu htu => (keys_ordered (hkeys _ ht) (hkeys _ hu) htu).2
  · rw [sorted_eq]
    exact hswo.filter_mergeSort_on h fun t ht u hu htt htu =>
      not_sortsBefore_of_tied hv (h t ht) (h u hu) htt htu

/-! ### The operator -/

variable {σ : Type} {allow : Fault → Prop} {I : Database σ → Prop} {child : Operator σ}
  {stream : TupleStream} {db : Database σ} {schema : Schema}

/-- **ORDER BY sorts.**  The comparator of `SortOperator` is a strict weak order in both directions,
and what the operator emits is its input, sorted stably with the NULLs at the end the direction puts
them. -/
theorem sort_emits_sorted (orderBy : OrderByClause) {col : Fin schema.columnCount}
    (hcol : schema.indexOf orderBy.column = some col) (hchild : Produces allow I child stream db)
    (hdb : I db) (type : ColumnType)
    (hvalues : ∀ t ∈ stream.items, ∃ v, t.values[col.val]? = some v ∧ SortValue type v) :
    (∀ descending, StrictWeakOrderOn (SortValue type) (sortsBefore descending)) ∧
      ∃ output,
        Produces allow I (sort orderBy schema child) ⟨output, stream.atEnd, stream.atEnd⟩ db ∧
        SortedBy type orderBy.descending col stream.items output := by
  have hkeys : ∀ t ∈ stream.items, t.HasKey orderBy schema := by
    intro t ht col' hcol'
    obtain rfl : col = col' := Option.some.inj (hcol.symm.trans hcol')
    obtain ⟨v, hv, -⟩ := hvalues t ht
    exact (List.getElem?_eq_some_iff.mp hv).1
  have hsort : Produces allow I (sort orderBy schema child) (sortStream orderBy schema stream) db :=
    sort_produces hchild hdb hkeys
  unfold sortStream at hsort
  rw [hcol] at hsort
  refine ⟨sortsBefore_strictWeakOrder type, _, hsort, sorted_sortedBy orderBy fun t ht => ?_⟩
  obtain ⟨v, hv, hsv⟩ := hvalues t ht
  rw [Tuple.key, hv]
  exact hsv

/-- A table with one column. -/
def oneColumn : Schema := ⟨[{ name := lit "a", type := .int }]⟩

/-- Three rows with the values 1, NULL and 1. -/
def nullBetween : List Tuple :=
  [⟨⟨0, 0⟩, [.int32 1]⟩, ⟨⟨0, 1⟩, [.null]⟩, ⟨⟨0, 2⟩, [.int32 1]⟩]

theorem sort_emits_sorted_nullBetween : ∃ (db : Database Multimaps) (output : List Tuple),
    Produces (fun _ => False) (fun _ => True)
      (sort ⟨lit "a", true⟩ oneColumn (ofList nullBetween)) ⟨output, none, none⟩ db ∧
    SortedBy .int true 0 nullBetween output := by
  obtain ⟨db, -⟩ := exists_session (⟨[]⟩ : Multimaps) [] (fun _ => true) (by decide +kernel)
  have hvalues : ∀ t ∈ nullBetween, ∃ v, t.values[0]? = some v ∧ SortValue .int v := by
    intro t ht
    simp only [nullBetween, List.mem_cons, List.not_mem_nil, or_false] at ht
    rcases ht with rfl | rfl | rfl
    · exact ⟨_, rfl, rfl, rfl⟩
    · exact ⟨_, rfl, rfl, rfl⟩
    · exact ⟨_, rfl, rfl, rfl⟩
  have hcol : oneColumn.indexOf (lit "a") = some ⟨0, by decide⟩ := by decide
  have hchild : Produces (fun _ => False) (fun _ => True) (ofList nullBetween : Operator Multimaps)
      ⟨nullBetween, none, none⟩ db := ofList_produces nullBetween trivial
  obtain ⟨-, output, hout⟩ := sort_emits_sorted ⟨lit "a", true⟩ hcol hchild trivial .int hvalues
  exact ⟨db, output, hout⟩

end MiniDB.Executor
