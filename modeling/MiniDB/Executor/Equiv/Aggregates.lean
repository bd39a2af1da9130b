import MiniDB.Executor.Equiv.Sorting
import MiniDB.Lib.Extremum

/-!
# The values of aggregates

`Compute` has one loop over the tuples for all items, each with an accumulator of its own.  For
COUNT, MIN and MAX of columns that exist no item ends the loop with an error, so that the
accumulators do not influence each other: the row is the list of what each item makes of the rows on
its own (`accumulateAll_supported`).  What that is follows from the loop over the values of one
column, of which NULLs are skipped: COUNT counts them, MIN and MAX are running extrema.  SUM and AVG
add doubles, and are exact for integers as long as no sum needs more than 53 bits (`sums_exact`).
-/

namespace MiniDB.Executor

open Effect Paged Cursor Extremum

/-- The value of a row in a column, unless it is NULL. -/
def valueIn (schema : Schema) (column : Str) (row : Row) : Option Value :=
  (schema.indexOf column).bind fun idx => row[idx.val]?.filter fun v => !isNull v

/-- The values of a column that are not NULL. -/
def columnValues (schema : Schema) (column : Str) (rows : List Row) : List Value :=
  rows.filterMap (valueIn schema column)

/-- COUNT, MIN or MAX of a column that exists, or `COUNT(*)`. -/
def Supported (schema : Schema) : AggregateItem → Prop
  | .countStar _ => True
  | .ofColumn func column _ =>
    (func = .count ∨ func = .min ∨ func = .max) ∧ ∃ idx, schema.indexOf column = some idx

/-- A value is added; SUM and AVG stay as they are if it is not a number. -/
def Accumulator.added (func : AggregateFunc) (acc : Accumulator) (v : Value) : Accumulator :=
  match acc.add func v with
  | .ok acc' => acc'
  | .error _ => acc

/-- One row for one item. -/
def accumulated (schema : Schema) (item : AggregateItem) (acc : Accumulator) (row : Row) :
    Accumulator :=
  match item with
  | .countStar _ => { acc with count := acc.count + 1 }
  | .ofColumn func column _ =>
    match valueIn schema column row with
    | none => acc
    | some v => acc.added func v

/-- What an item makes of the rows. -/
def aggregateValue (schema : Schema) (item : AggregateItem) (rows : List Row) : Value :=
  (rows.foldl (accumulated schema item) {}).value item

section Loop

variable {schema : Schema} {item : AggregateItem} {accs : List (AggregateItem × Accumulator)}
  {tuple : Tuple} {ts : List Tuple} {items : List AggregateItem}

/-- COUNT, MIN and MAX take every value. -/
theorem Accumulator.add_eq {func : AggregateFunc} (h : func = .count ∨ func = .min ∨ func = .max)
    (acc : Accumulator) (v : Value) : acc.add func v = .ok (acc.added func v) := by
  rcases h with rfl | rfl | rfl <;> rfl

theorem valueIn_eq {column : Str} {idx : Fin schema.columnCount} {row : Row}
    (hidx : schema.indexOf column = some idx) (hrow : idx.val < row.length) :
    valueIn schema column row = if isNull row[idx.val] then none else some row[idx.val] := by
  rw [valueIn, hidx, Option.bind_some, List.getElem?_eq_getElem hrow, Option.filter_some]
  cases isNull row[idx.val] <;> rfl

theorem accumulate_supported (hfits : tuple.Fits schema) (h : Supported schema item) (acc : Accumulator) :
    accumulate schema tuple.values item acc = pure (accumulated schema item acc tuple.values) := by
  cases item with
  | countStar alias? => rfl
  | ofColumn func column alias? =>
    obtain ⟨hfunc, idx, hidx⟩ := h
    have hlt : idx.val < tuple.values.length := by
      rw [hfits]
      exact idx.isLt
    simp only [accumulate, accumulated, hidx, valueIn_eq hidx hlt, List.getElem?_eq_getElem hlt,
      Checked.access_some, pure_bind]
    cases isNull tuple.values[idx.val] with
    | true => rfl
    | false =>
      rw [Accumulator.add_eq hfunc]
      rfl

theorem accumulateTuple_supported (h : ∀ p ∈ accs, Supported schema p.1) (hfits : tuple.Fits schema) :
    accumulateTuple schema accs tuple
      = pure (accs.map fun p => (p.1, accumulated schema p.1 p.2 tuple.values)) := by
  induction accs with
  | nil => rfl
  | cons p accs ih =>
    rw [accumulateTuple, List.mapM_cons, accumulate_supported hfits (h p (List.mem_cons_self ..)),
      pure_bind, pure_bind, ← accumulateTuple, ih fun p' hp' => h p' (List.mem_cons_of_mem _ hp'),
      pure_bind]
    rfl

/-- The loop over the tuples is one loop for each item. -/
theorem accumulateAll_supported (h : ∀ p ∈ accs, Supported schema p.1)
    (hfits : ∀ tuple ∈ ts, tuple.Fits schema) :
    accumulateAll schema accs ts = pure (accs.map fun p =>
      (p.1, (ts.map Tuple.values).foldl (accumulated schema p.1) p.2)) := by
  unfold accumulateAll
  induction ts generalizing accs with
  | nil =>
    rw [List.foldlM_nil]
    exact congrArg pure (List.map_id' accs).symm
  | cons tuple ts ih =>
    rw [List.foldlM_cons, accumulateTuple_supported h (hfits tuple (List.mem_cons_self ..)),
      pure_bind, ih]
    · rw [List.map_map]
      rfl
    · intro p hp
      obtain ⟨p', hp', rfl⟩ := List.mem_map.mp hp
      exact h p' hp'
    · exact fun tuple' ht' => hfits tuple' (List.mem_cons_of_mem _ ht')

theorem checkItem_supported (h : Supported schema item) : checkItem schema item = .ok () := by
  cases item with
  | countStar alias? => rfl
  | ofColumn func column alias? =>
    obtain ⟨rfl | rfl | rfl, -⟩ := h <;> rfl

theorem forM_checkItem (h : ∀ item ∈ items, Supported schema item) :
    items.forM (checkItem schema) = .ok () := by
  induction items with
  | nil => rfl
  | cons item items ih =>
    have hfirst := checkItem_supported (h item (List.mem_cons_self ..))
    rw [List.forM, hfirst]
    exact ih fun item' hitem' => h item' (List.mem_cons_of_mem _ hitem')

theorem aggregateRow_supported (h : ∀ item ∈ items, Supported schema item)
    (hfits : ∀ tuple ∈ ts, tuple.Fits schema) :
    aggregateRow items schema ts
      = .ok (items.map fun item => aggregateValue schema item (ts.map Tuple.values)) := by
  have haccs : ∀ p ∈ items.map fun i => (i, ({} : Accumulator)), Supported schema p.1 := by
    intro p hp
    obtain ⟨item, hitem, rfl⟩ := List.mem_map.mp hp
    exact h item hitem
  rw [aggregateRow, forM_checkItem h]
  dsimp only
  rw [accumulateAll_supported haccs hfits]
  refine congrArg Except.ok ?_
  dsimp only
  rw [List.map_map, List.map_map]
  rfl

end Loop

/-! ### One item -/

section Item

variable {schema : Schema} {column : Str} {rows : List Row} {alias? : Option Str}

/-- The loop over the rows is one over the values of the column. -/
theorem foldl_accumulated (func : AggregateFunc) (alias? : Option Str) (acc : Accumulator) :
    rows.foldl (accumulated schema (.ofColumn func column alias?)) acc
      = (columnValues schema column rows).foldl (Accumulator.added func) acc := by
  rw [columnValues, List.foldl_filterMap]
  refine congrFun (congrFun (congrArg List.foldl ?_) acc) rows
  funext acc row
  rw [accumulated]
  cases valueIn schema column row <;> rfl

theorem count_foldl_rows (acc : Accumulator) :
    (rows.foldl (accumulated schema (.countStar alias?)) acc).count
      = acc.count + Int64.ofNat rows.length := by
  induction rows generalizing acc with
  | nil => simp
  | cons row rows ih =>
    rw [List.foldl_cons, ih, List.length_cons, Int64.ofNat_add, Int64.add_comm (Int64.ofNat _),
      ← Int64.add_assoc]
    rfl

theorem count_foldl_values (values : List Value) (acc : Accumulator) :
    (values.foldl (Accumulator.added .count) acc).count
      = acc.count + Int64.ofNat values.length := by
  induction values generalizing acc with
  | nil => simp
  | cons v values ih =>
    rw [List.foldl_cons, ih, List.length_cons, Int64.ofNat_add, Int64.add_comm (Int64.ofNat _),
      ← Int64.add_assoc]
    rfl

/-- The value is smaller. -/
def smaller (v m : Value) : Bool := decide (compareForSort v m < 0)

/-- The value is larger. -/
def larger (v m : Value) : Bool := decide (compareForSort v m > 0)

theorem min_foldl_values (values : List Value) (acc : Accumulator) :
    (values.foldl (Accumulator.added .min) acc).min = values.foldl (keep smaller) acc.min := by
  induction values generalizing acc with
  | nil => rfl
  | cons v values ih =>
    have hstep : (acc.added .min v).min = keep smaller acc.min v := by
      unfold Accumulator.added Accumulator.add
      cases acc.min with
      | none => rfl
      | some m => rfl
    rw [List.foldl_cons, List.foldl_cons, ih, hstep]

theorem max_foldl_values (values : List Value) (acc : Accumulator) :
    (values.foldl (Accumulator.added .max) acc).max = values.foldl (keep larger) acc.max := by
  induction values generalizing acc with
  | nil => rfl
  | cons v values ih =>
    have hstep : (acc.added .max v).max = keep larger acc.max v := by
      unfold Accumulator.added Accumulator.add
      cases acc.max with
      | none => rfl
      | some m => rfl
    rw [List.foldl_cons, List.foldl_cons, ih, hstep]

theorem aggregateValue_countStar :
    aggregateValue schema (.countStar alias?) rows = .int64 (Int64.ofNat rows.length) := by
  rw [aggregateValue, Accumulator.value, count_foldl_rows, Int64.zero_add]

theorem aggregateValue_count :
    aggregateValue schema (.ofColumn .count column alias?) rows
      = .int64 (Int64.ofNat (columnValues schema column rows).length) := by
  rw [aggregateValue, foldl_accumulated, Accumulator.value, count_foldl_values, Int64.zero_add]

theorem aggregateValue_min :
    aggregateValue schema (.ofColumn .min column alias?) rows
      = (running smaller (columnValues schema column rows)).getD .null := by
  rw [aggregateValue, foldl_accumulated, Accumulator.value, min_foldl_values]
  rfl

theorem aggregateValue_max :
    aggregateValue schema (.ofColumn .max column alias?) rows
      = (running larger (columnValues schema column rows)).getD .null := by
  rw [aggregateValue, foldl_accumulated, Accumulator.value, max_foldl_values]
  rfl

end Item

/-! ### MIN and MAX -/

section Extrema

variable {type : ColumnType} {values values' : List Value} {m m' : Value}

theorem running_smaller (h : ∀ v ∈ values, OfType type v) (hm : running smaller values = some m) :
    m ∈ values ∧ ∀ v ∈ values, compareForSort m v ≤ 0 := by
  have hflip : ∀ a ∈ values, ∀ b ∈ values, smaller a b = false → compareForSort b a ≤ 0 := by
    intro a ha b hb hab
    have hle := not_lt.mp (of_decide_eq_false hab)
    rw [compareForSort_swap (h a ha) (h b hb)]
    omega
  have hbest : IsBest smaller values m := by
    refine running_isBest (fun a ha => ?_) (fun a ha b hb c hc hab hcb => ?_) hm
    · exact decide_eq_false (by rw [compareForSort_self (h a ha)]; exact lt_irrefl 0)
    · have hlt := of_decide_eq_true hab
      have hnan := isNaN_eq_false_of_ne (h a ha) (h b hb) hlt.ne
      have hac := compareForSort_trans (h a ha) (h b hb) (h c hc) hnan hlt.le (hflip c hc b hb hcb)
      rw [compareForSort_swap (h c hc) (h a ha)] at hac
      exact decide_eq_false (by omega)
  exact ⟨hbest.1, fun v hv => hflip v hv m hbest.1 (hbest.2 v hv)⟩

theorem running_larger (h : ∀ v ∈ values, OfType type v) (hm : running larger values = some m) :
    m ∈ values ∧ ∀ v ∈ values, compareForSort m v ≥ 0 := by
  have hbest : IsBest larger values m := by
    refine running_isBest (fun a ha => ?_) (fun a ha b hb c hc hab hcb => ?_) hm
    · exact decide_eq_false (by rw [compareForSort_self (h a ha)]; exact lt_irrefl 0)
    · have hgt := of_decide_eq_true hab
      have hnan := isNaN_eq_false_of_ne (h a ha) (h b hb) hgt.ne'
      have hba : compareForSort b a ≤ 0 := by
        rw [compareForSort_swap (h a ha) (h b hb)]
        omega
      have hca := compareForSort_trans (h c hc) (h b hb) (h a ha) hnan
        (not_lt.mp (of_decide_eq_false hcb)) hba
      exact decide_eq_false (not_lt.mpr hca)
  refine ⟨hbest.1, fun v hv => ?_⟩
  have hle := not_lt.mp (of_decide_eq_false (hbest.2 v hv))
  rw [compareForSort_swap (h v hv) (h m hbest.1)]
  omega

variable {before : Value → Value → Bool}

/-- The extremum of the same values in another order. -/
theorem running_perm {R : Int → Prop} (hR : ∀ x, R x → R (-x) → x = 0)
    (hspec : ∀ values m, (∀ v ∈ values, OfType type v) → running before values = some m →
      m ∈ values ∧ ∀ v ∈ values, R (compareForSort m v)) (h : ∀ v ∈ values, OfType type v)
    (hperm : values'.Perm values) :
    tied ((running before values').getD .null) ((running before values).getD .null) = true := by
  have h' : ∀ v ∈ values', OfType type v := fun v hv => h v (hperm.subset hv)
  cases hm : running before values with
  | none =>
    obtain rfl := running_eq_none.mp hm
    rw [hperm.eq_nil]
    rfl
  | some m =>
    cases hm' : running before values' with
    | none =>
      obtain rfl := running_eq_none.mp hm'
      rw [hperm.symm.eq_nil] at hm
      cases hm
    | some m' =>
      obtain ⟨hmem, hbest⟩ := hspec values m h hm
      obtain ⟨hmem', hbest'⟩ := hspec values' m' h' hm'
      have hzero : compareForSort m' m = 0 := by
        refine hR _ (hbest' m (hperm.symm.subset hmem)) ?_
        rw [← compareForSort_swap (h' m' hmem') (h m hmem)]
        exact hbest m' (hperm.subset hmem')
      have hnull : ∀ {v}, OfType type v → isNull v = false := fun hv => by cases hv <;> rfl
      rw [tied, Option.getD_some, Option.getD_some, hzero, hnull (h m hmem), hnull (h' m' hmem')]
      rfl

end Extrema

/-! ### The operator -/

/-- The value an aggregate should have: a number of rows, or a value of the column that none is
smaller, or larger, than. -/
def IsValueOf (schema : Schema) (rows : List Row) (v : Value) : AggregateItem → Prop
  | .countStar _ => v = .int64 (Int64.ofNat rows.length)
  | .ofColumn .count column _ => v = .int64 (Int64.ofNat (columnValues schema column rows).length)
  | .ofColumn .min column _ =>
    (v = .null ↔ columnValues schema column rows = []) ∧
      (v ≠ .null → v ∈ columnValues schema column rows ∧
        ∀ w ∈ columnValues schema column rows, compareForSort v w ≤ 0)
  | .ofColumn .max column _ =>
    (v = .null ↔ columnValues schema column rows = []) ∧
      (v ≠ .null → v ∈ columnValues schema column rows ∧
        ∀ w ∈ columnValues schema column rows, compareForSort v w ≥ 0)
  | .ofColumn .sum _ _ | .ofColumn .avg _ _ => False

section Values

variable {schema : Schema} {rows rows' : List Row} {column : Str} {idx : Fin schema.columnCount}
  {type : ColumnType} {item : AggregateItem}

theorem columnValues_ofType (hidx : schema.indexOf column = some idx)
    (hrows : ∀ row ∈ rows, RowConforms schema row) :
    ∀ v ∈ columnValues schema column rows, OfType (schema.columnAt idx).type v := by
  intro v hv
  obtain ⟨row, hrow, hvalue⟩ := List.mem_filterMap.mp hv
  obtain ⟨w, hw, hconf⟩ := (hrows row hrow).get idx
  rw [valueIn, hidx, Option.bind_some, hw, Option.filter_some] at hvalue
  split_ifs at hvalue with hnull
  obtain rfl := Option.some.inj hvalue
  exact ofType_of_matches (by simpa using hnull) hconf.1

theorem ofType_ne_null {v : Value} (h : OfType type v) : v ≠ .null := by
  rintro rfl
  cases h

/-- What is NULL exactly if there is nothing to choose from. -/
theorem getD_running {values : List Value} {R : Value → Prop} (h : ∀ v ∈ values, OfType type v)
    (hspec : ∀ m, running before values = some m → m ∈ values ∧ R m) :
    ((running before values).getD .null = .null ↔ values = []) ∧
      ((running before values).getD .null ≠ .null →
        (running before values).getD .null ∈ values ∧ R ((running before values).getD .null)) := by
  cases hm : running before values with
  | none =>
    obtain rfl := running_eq_none.mp hm
    exact ⟨⟨fun _ => rfl, fun _ => rfl⟩, fun hne => absurd rfl hne⟩
  | some m =>
    obtain ⟨hmem, hR⟩ := hspec m hm
    refine ⟨⟨fun hnull => absurd hnull (ofType_ne_null (h m hmem)), ?_⟩, fun _ => ⟨hmem, hR⟩⟩
    rintro rfl
    cases hmem

theorem aggregateValue_isValueOf (h : Supported schema item)
    (hrows : ∀ row ∈ rows, RowConforms schema row) :
    IsValueOf schema rows (aggregateValue schema item rows) item := by
  cases item with
  | countStar alias? => exact aggregateValue_countStar
  | ofColumn func column alias? =>
    obtain ⟨hfunc, idx, hidx⟩ := h
    have htype := columnValues_ofType hidx hrows
    rcases hfunc with rfl | rfl | rfl
    · exact aggregateValue_count
    · rw [aggregateValue_min]
      exact getD_running htype fun m hm => running_smaller htype hm
    · rw [aggregateValue_max]
      exact getD_running htype fun m hm => running_larger htype hm

/-- The rows in another order give the same value, or one that is equal for `CompareForSort`. -/
theorem aggregateValue_perm (h : Supported schema item) (hrows : ∀ row ∈ rows, RowConforms schema row)
    (hperm : rows'.Perm rows) :
    tied (aggregateValue schema item rows') (aggregateValue schema item rows) = true := by
  have hself : ∀ n, tied (.int64 n) (.int64 n) = true := by
    intro n
    rw [tied, compareForSort_self (.bigInt n)]
    rfl
  cases item with
  | countStar alias? =>
    rw [aggregateValue_countStar, aggregateValue_countStar, hperm.length_eq]
    exact hself _
  | ofColumn func column alias? =>
    obtain ⟨hfunc, idx, hidx⟩ := h
    have htype := columnValues_ofType hidx hrows
    have hvalues : (columnValues schema column rows').Perm (columnValues schema column rows) :=
      hperm.filterMap _
    rcases hfunc with rfl | rfl | rfl
    · rw [aggregateValue_count, aggregateValue_count, hvalues.length_eq]
      exact hself _
    · rw [aggregateValue_min, aggregateValue_min]
      exact running_perm (R := fun x => x ≤ 0) (fun x h₁ h₂ => by omega)
        (fun _ _ => running_smaller) htype hvalues
    · rw [aggregateValue_max, aggregateValue_max]
      exact running_perm (R := fun x => x ≥ 0) (fun x h₁ h₂ => by omega)
        (fun _ _ => running_larger) htype hvalues

end Values

variable {σ : Type} {allow : Fault → Prop} {I : Database σ → Prop} {child : Operator σ}
  {db : Database σ} {schema : Schema}

/-- **Aggregates are what they are defined to be.**  COUNT, MIN and MAX of existing columns over
rows that conform to the schema: `AggregateOperator` answers one row, the value of each item in it is
a function of that item and the rows, it is the value the item should have, and the order of the rows
does not matter. -/
theorem aggregates_meet_definitions {items : List AggregateItem} {ts : List Tuple}
    (hitems : ∀ item ∈ items, Supported schema item)
    (hrows : ∀ t ∈ ts, RowConforms schema t.values) {during : Option Status}
    (hchild : Produces allow I child ⟨ts, during, none⟩ db) :
    Action.wp allow (runOperator (aggregate items schema child)) (fun r db' => I db' ∧
        r = .ok [items.map fun item => aggregateValue schema item (ts.map Tuple.values)]) db ∧
      ∀ item ∈ items,
        IsValueOf schema (ts.map Tuple.values)
            (aggregateValue schema item (ts.map Tuple.values)) item ∧
          ∀ rows', rows'.Perm (ts.map Tuple.values) →
            tied (aggregateValue schema item rows')
              (aggregateValue schema item (ts.map Tuple.values)) = true := by
  have hfits : ∀ t ∈ ts, t.Fits schema := fun t ht => (hrows t ht).length_eq
  have hrows' : ∀ row ∈ ts.map Tuple.values, RowConforms schema row := by
    intro row hrow
    obtain ⟨t, ht, rfl⟩ := List.mem_map.mp hrow
    exact hrows t ht
  refine ⟨?_, fun item hitem => ⟨?_, fun rows' hperm => ?_⟩⟩
  · have hresult : aggregateRows items schema ⟨ts, during, none⟩
        = .ok [items.map fun item => aggregateValue schema item (ts.map Tuple.values)] := by
      rw [aggregateRows, aggregateRow_supported hitems hfits]
    rw [← hresult]
    exact runOperator_aggregate_wp hchild hfits
  · exact aggregateValue_isValueOf (hitems item hitem) hrows'
  · exact aggregateValue_perm (hitems item hitem) hrows' hperm

/-- `SELECT COUNT(*), MIN(a), MAX(a)`. -/
def countMinMax : List AggregateItem :=
  [.countStar none, .ofColumn .min (lit "a") none, .ofColumn .max (lit "a") none]

/-- Rows of the schema `oneColumn` with the values 2, NULL and 1. -/
def twoNullOne : List Tuple :=
  [⟨⟨0, 0⟩, [.int32 2]⟩, ⟨⟨0, 1⟩, [.null]⟩, ⟨⟨0, 2⟩, [.int32 1]⟩]

theorem aggregates_meet_definitions_twoNullOne : ∃ (db : Database Multimaps),
    Action.wp (fun _ => False) (runOperator (aggregate countMinMax oneColumn (ofList twoNullOne)))
      (fun r _ => r = .ok [[.int64 3, .int32 1, .int32 2]]) db := by
  obtain ⟨db, -⟩ := exists_session (⟨[]⟩ : Multimaps) [] (fun _ => true) (by decide +kernel)
  have hitems : ∀ item ∈ countMinMax, Supported oneColumn item := by
    intro item hitem
    simp only [countMinMax, List.mem_cons, List.not_mem_nil, or_false] at hitem
    rcases hitem with rfl | rfl | rfl
    · trivial
    · exact ⟨.inr (.inl rfl), ⟨0, by decide⟩, by decide⟩
    · exact ⟨.inr (.inr rfl), ⟨0, by decide⟩, by decide⟩
  have hrows : ∀ t ∈ twoNullOne, RowConforms oneColumn t.values := by
    intro t ht
    simp only [twoNullOne, List.mem_cons, List.not_mem_nil, or_false] at ht
    rcases ht with rfl | rfl | rfl
    · exact .cons ⟨rfl, nofun, nofun⟩ .nil
    · exact .cons ⟨rfl, fun _ => rfl, nofun⟩ .nil
    · exact .cons ⟨rfl, nofun, nofun⟩ .nil
  have hchild : Produces (fun _ => False) (fun _ => True) (ofList twoNullOne : Operator Multimaps)
      ⟨twoNullOne, none, none⟩ db := ofList_produces twoNullOne trivial
  have hvalues : (countMinMax.map fun item =>
      aggregateValue oneColumn item (twoNullOne.map Tuple.values))
        = [.int64 3, .int32 1, .int32 2] := by decide +kernel
  obtain ⟨hrun, -⟩ := aggregates_meet_definitions hitems hrows hchild
  rw [hvalues] at hrun
  exact ⟨db, Action.wp_mono (fun r db' h => h.2) hrun⟩

/-! ### SUM and AVG -/

/-- The integer that a value of an INT or BIGINT column stands for. -/
def integerOf : Value → Int
  | .int32 n => n.toInt
  | .int64 n => n.toInt
  | _ => 0

section Sums

variable {func : AggregateFunc} {column : Str} {alias? : Option Str} {idx : Fin schema.columnCount}
  {ts : List Tuple}

/-- While the sums are small the accumulator holds the exact one. -/
theorem accumulateAll_integers (hfunc : func = .sum ∨ func = .avg)
    (hidx : schema.indexOf column = some idx) (hfits : ∀ t ∈ ts, t.Fits schema) {values : List Value}
    (hvalues : columnValues schema column (ts.map Tuple.values) = values)
    (hints : ∀ v ∈ values, toDouble v = some (.ofInt (integerOf v))) {acc : Accumulator} {n : Int}
    (hacc : acc.sum = .ofInt n)
    (hsmall : n.natAbs + (values.map fun v => (integerOf v).natAbs).sum < 2 ^ 53) :
    accumulateAll schema [(.ofColumn func column alias?, acc)] ts
      = pure [(.ofColumn func column alias?, { acc with
          sum := .ofInt (n + (values.map integerOf).sum)
          count := acc.count + Int64.ofNat values.length
          hasValue := acc.hasValue || !values.isEmpty })] := by
  unfold accumulateAll
  induction ts generalizing values acc n with
  | nil =>
    subst hvalues
    simp [columnValues, ← hacc]
  | cons t ts ih =>
    obtain ⟨hfirst, hrest⟩ := List.forall_mem_cons.mp hfits
    have hlt : idx.val < t.values.length := by
      rw [hfirst]
      exact idx.isLt
    rw [List.map_cons, columnValues, List.filterMap_cons, valueIn_eq hidx hlt] at hvalues
    simp only [List.foldlM_cons, accumulateTuple, List.mapM_cons, List.mapM_nil, accumulate, hidx,
      List.getElem?_eq_getElem hlt, Checked.access_some, pure_bind]
    generalize t.values[idx.val] = v at hvalues
    cases hnull : isNull v with
    | true =>
      rw [hnull] at hvalues
      exact ih hrest hvalues hints hacc hsmall
    | false =>
      rw [hnull] at hvalues
      obtain rfl : v :: columnValues schema column (ts.map Tuple.values) = values := hvalues
      obtain ⟨hv, hvs⟩ := List.forall_mem_cons.mp hints
      rw [List.map_cons, List.sum_cons] at hsmall
      have hadd : acc.add func v = .ok { acc with
          sum := .ofInt (n + integerOf v), count := acc.count + 1, hasValue := true } := by
        rw [← Double.add_ofInt (by omega), ← hacc]
        rcases hfunc with rfl | rfl <;> rw [Accumulator.add, hv] <;> rfl
      rw [hadd]
      refine Eq.trans (ih hrest rfl hvs (n := n + integerOf v) ?_ (by omega)) ?_
      · rfl
      · simp [Int.add_assoc, Int64.ofNat_add, Int64.add_assoc, Int64.add_comm 1]

/-- **SUM and AVG of integers are exact.**  If the absolute values of an INT or BIGINT column have a sum
below `2 ^ 53`, `AggregateOperator` answers the sum without any rounding, or the quotient of this sum and
the number of values, in whatever order the rows come; NULLs do not count, and the answer is NULL if there
is nothing else. -/
theorem sums_exact (hfunc : func = .sum ∨ func = .avg) (hidx : schema.indexOf column = some idx)
    (htype : (schema.columnAt idx).type = .int ∨ (schema.columnAt idx).type = .bigInt)
    (hrows : ∀ t ∈ ts, RowConforms schema t.values) {values : List Value}
    (hvalues : columnValues schema column (ts.map Tuple.values) = values)
    (hsmall : (values.map fun v => (integerOf v).natAbs).sum < 2 ^ 53) {during : Option Status}
    (hchild : Produces allow I child ⟨ts, during, none⟩ db) :
    Action.wp allow (runOperator (aggregate [.ofColumn func column alias?] schema child))
      (fun r db' => I db' ∧ r = .ok [[if values = [] then .null else .double <|
        if func = .sum then .ofInt (values.map integerOf).sum else
          (Double.ofInt (values.map integerOf).sum).div (.ofInt (Int64.ofNat values.length).toInt)]])
      db := by
  have hfits : ∀ t ∈ ts, t.Fits schema := fun t ht => (hrows t ht).length_eq
  have hints : ∀ v ∈ values, toDouble v = some (.ofInt (integerOf v)) := by
    intro v hv
    have hof := columnValues_ofType hidx (List.forall_mem_map.mpr hrows) v (hvalues ▸ hv)
    generalize (schema.columnAt idx).type = type at hof htype
    rcases htype with rfl | rfl <;> cases hof <;> rfl
  have hcheck : List.forM [.ofColumn func column alias?] (checkItem schema) = .ok () := by
    rcases hfunc with rfl | rfl <;> rcases htype with htype | htype <;>
      simp only [List.forM, checkItem, hidx, htype] <;> rfl
  have hall := @accumulateAll_integers _ _ _ alias? _ _ hfunc hidx hfits _ hvalues hints {} 0 rfl
    (by simpa using hsmall)
  dsimp only at hall
  rw [Int.zero_add, Int64.zero_add, Bool.false_or] at hall
  refine Action.wp_mono ?_ (runOperator_aggregate_wp hchild hfits)
  rintro r db' ⟨hdb', rfl⟩
  rw [aggregateRows, aggregateRow, hcheck, List.map_singleton, hall]
  refine ⟨hdb', ?_⟩
  cases values with
  | nil => rcases hfunc with rfl | rfl <;> rfl
  | cons v values =>
    rw [if_neg (List.cons_ne_nil v values)]
    rcases hfunc with rfl | rfl
    · rw [if_pos rfl]
      rfl
    · rw [if_neg (by decide)]
      rfl
end Sums

theorem sums_exact_twoNullOne : ∃ (db : Database Multimaps),
    Action.wp (fun _ => False)
      (runOperator (aggregate [.ofColumn .avg (lit "a") none] oneColumn (ofList twoNullOne)))
      (fun r _ => r = .ok [[.double ((Double.ofInt 3).div (.ofInt 2))]]) db := by
  let db : Database Multimaps := ⟨.new, .new, ⟨[]⟩,
    ⟨⟨0, 0⟩, ⟨0, 0⟩, .empty id .refl, .empty id .refl, 1, 1⟩, noTables⟩
  have hrows : ∀ t ∈ twoNullOne, RowConforms oneColumn t.values := by
    simp only [twoNullOne, List.forall_mem_cons, List.not_mem_nil, false_imp_iff, implies_true]
    exact ⟨.cons ⟨rfl, nofun, nofun⟩ .nil, .cons ⟨rfl, fun _ => rfl, nofun⟩ .nil,
      .cons ⟨rfl, nofun, nofun⟩ .nil, trivial⟩
  have hwp := @sums_exact _ (fun _ => False) (fun _ => True) _ db _ _ (lit "a") none ⟨0, by decide⟩ _
    (.inr rfl) (by decide) (.inl rfl) hrows [.int32 2, .int32 1] rfl (by decide) none
    (ofList_produces twoNullOne trivial)
  rw [if_neg (List.cons_ne_nil _ _), if_neg (by decide)] at hwp
  exact ⟨db, Action.wp_mono (fun r db' h => h.2) hwp⟩

end MiniDB.Executor
