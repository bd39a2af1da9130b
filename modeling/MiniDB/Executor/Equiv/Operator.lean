import MiniDB.Executor.Equiv.Rows

/-!
# What the operators of a plan hand out

An operator on top of one that hands out a stream hands out a stream, which is a function of the one
below it.  A filter ends at the first tuple on which its predicate does not evaluate, and reports that
error; a sort has read everything, and reports the error of its child from the start; a limit that is
reached does not see how the stream below it ends.  `runPlan_wp` puts this together: what a SELECT
answers is a function of the stream of its source (`selectResult`).

The tuples of a plan have a value for each column, so that no operator reads outside a row.
-/

namespace MiniDB.Executor

open Effect Paged Cursor
open Effect.Action (post post_ok wp wp_bind wp_check wp_mono wp_mono_ok)

/-- What an operator hands out. -/
abbrev TupleStream := Effect.Stream Status Tuple

variable {σ : Type} {allow : Fault → Prop} {I : Database σ → Prop} {child : Operator σ}
  {stream : TupleStream} {db : Database σ} {schema : Schema}

/-- The tuple has a value for each column. -/
def Tuple.Fits (schema : Schema) (t : Tuple) : Prop := t.values.length = schema.columnCount

/-! ### Filter -/

/-- What the predicate says about a row. -/
def predicateResult (predicate : Expr) (schema : Schema) (row : Row) : Result Bool :=
  match (evaluatePredicate (some predicate) schema row).run with
  | .ok r => r
  | .error _ => .ok false

variable {predicate : Expr} {during atEnd : Option Status} {ts : List Tuple} {s : child.State}
  {k n : Int64} {stmt : SelectStmt} {fuel : Nat} {t : Tuple} {orderBy : OrderByClause}
  {indices : List Nat} {values : Row} {items : List AggregateItem}

theorem evaluatePredicate_eq {row : Row} (h : row.length = schema.columnCount) :
    evaluatePredicate (some predicate) schema row
      = Checked.ofResult (predicateResult predicate schema row) := by
  obtain ⟨r, hr⟩ := evaluatePredicate_checked h (some predicate)
  rw [predicateResult, hr]
  rfl

/-- The tuples a filter lets through, and the error that ends it. -/
def filterItems (predicate : Expr) (schema : Schema) : List Tuple → List Tuple × Option Status
  | [] => ([], none)
  | t :: ts =>
    match predicateResult predicate schema t.values with
    | .error e => ([], some e)
    | .ok true => (t :: (filterItems predicate schema ts).1, (filterItems predicate schema ts).2)
    | .ok false => filterItems predicate schema ts

/-- The stream of a filter. -/
def filterStream (predicate : Expr) (schema : Schema) (stream : TupleStream) :
    TupleStream :=
  ⟨(filterItems predicate schema stream.items).1, stream.during,
    (filterItems predicate schema stream.items).2 <|> stream.atEnd⟩

theorem filterItems_sublist (predicate : Expr) (schema : Schema) (ts : List Tuple) :
    (filterItems predicate schema ts).1.Sublist ts := by
  induction ts with
  | nil => exact List.Sublist.slnil
  | cons t ts ih =>
    rw [filterItems]
    split
    · exact List.nil_sublist _
    · exact ih.cons_cons t
    · exact ih.cons t

/-- `FilterOperator::Next` goes on to the next tuple that passes. -/
theorem filterNext_wp (h : YieldsFrom allow I child during atEnd ts s) (hfits : ∀ t ∈ ts, t.Fits schema)
    (hfuel : ts.length < fuel) (hdb : I db) :
    wp allow (filterNext predicate schema child fuel (s, none)) (post
      (fun r db' => I db' ∧
        ((∃ t ts', r.1 = some t ∧ r.2.2 = none ∧ ts' ⊆ ts ∧
            YieldsFrom allow I child during atEnd ts' r.2.1 ∧ filterItems predicate schema ts
              = (t :: (filterItems predicate schema ts').1, (filterItems predicate schema ts').2)) ∨
          (r.1 = none ∧ (filterItems predicate schema ts).1 = [] ∧
            (r.2.2 <|> child.error r.2.1) = ((filterItems predicate schema ts).2 <|> atEnd))))
      fun _ _ => False) db := by
  induction ts generalizing s fuel db with
  | nil =>
    obtain ⟨fuel, rfl⟩ : ∃ m, fuel = m + 1 := ⟨fuel - 1, by omega⟩
    rw [filterNext, wp_bind]
    refine wp_mono_ok ?_ (h.2 db hdb)
    rintro ⟨t?, s'⟩ db' ⟨rfl, herr, hdb'⟩
    exact ⟨hdb', .inr ⟨rfl, rfl, herr⟩⟩
  | cons t ts ih =>
    obtain ⟨fuel, rfl⟩ : ∃ m, fuel = m + 1 := ⟨fuel - 1, by omega⟩
    rw [filterNext, wp_bind]
    refine wp_mono_ok ?_ (h.2.2 db hdb)
    rintro ⟨t?, s'⟩ db' ⟨rfl, hrest, hdb'⟩
    dsimp only
    rw [evaluatePredicate_eq (hfits t (List.mem_cons_self ..)), Checked.attempt_ofResult,
      wp_bind, ← Checked.ofResult_ok, wp_check rfl, post_ok, filterItems]
    cases hres : predicateResult predicate schema t.values with
    | error e => exact ⟨hdb', .inr ⟨rfl, rfl, rfl⟩⟩
    | ok b =>
      cases b with
      | true => exact ⟨hdb', .inl ⟨t, ts, rfl, rfl, List.subset_cons_self t ts, hrest, rfl⟩⟩
      | false =>
        refine wp_mono_ok ?_ (ih hrest
          (fun t' ht' => hfits t' (List.mem_cons_of_mem _ ht')) (Nat.lt_of_succ_lt_succ hfuel) hdb')
        rintro r db'' ⟨hdb'', ⟨t', ts', h₁, h₂, hsub, h₃⟩ | hnone⟩
        · exact ⟨hdb'', .inl ⟨t', ts', h₁, h₂, List.subset_cons_of_subset t hsub, h₃⟩⟩
        · exact ⟨hdb'', .inr hnone⟩

theorem filter_yields (h : Yields allow I child stream s)
    (hfits : ∀ t ∈ stream.items, t.Fits schema) :
    Yields allow I (filter predicate schema child) (filterStream predicate schema stream)
      (s, none) := by
  obtain ⟨ts, during, atEnd⟩ := stream
  -- induction on the tuples that are let through
  have hall : ∀ items ts s, (filterItems predicate schema ts).1 = items →
      YieldsFrom allow I child during atEnd ts s → (∀ t ∈ ts, t.Fits schema) →
      YieldsFrom allow I (filter predicate schema child) during
        ((filterItems predicate schema ts).2 <|> atEnd) items (s, none) := by
    intro items
    induction items with
    | nil =>
      intro ts s hitems h hfits
      refine ⟨h.error_eq, fun db hdb => ?_⟩
      refine wp_mono_ok ?_
        (filterNext_wp h hfits (Nat.lt_succ_of_le h.length_le) hdb)
      rintro r db' ⟨hdb', ⟨t, ts', -, -, -, -, heq⟩ | ⟨hnone, -, herr⟩⟩
      · rw [heq] at hitems
        cases hitems
      · exact ⟨hnone, herr, hdb'⟩
    | cons t items ih =>
      intro ts s hitems h hfits
      refine ⟨h.error_eq, ?_, fun db hdb => ?_⟩
      · have hle := (filterItems_sublist predicate schema ts).length_le
        rw [hitems] at hle
        exact Nat.lt_of_lt_of_le hle h.length_le
      · refine wp_mono_ok ?_
          (filterNext_wp h hfits (Nat.lt_succ_of_le h.length_le) hdb)
        rintro ⟨t?, s', e?⟩ db' ⟨hdb', ⟨t', ts', rfl, rfl, hsub, hrest, heq⟩ | ⟨-, hnil, -⟩⟩
        · rw [heq, List.cons.injEq] at hitems
          obtain ⟨rfl, hitems⟩ := hitems
          rw [heq]
          exact ⟨rfl, ih ts' s' hitems hrest fun t ht => hfits t (hsub ht), hdb'⟩
        · rw [hitems] at hnil
          cases hnil
  exact hall _ ts s rfl h hfits

theorem filter_produces (h : Produces allow I child stream db)
    (hfits : ∀ t ∈ stream.items, t.Fits schema) :
    Produces allow I (filter predicate schema child) (filterStream predicate schema stream) db :=
  h.lift (fun s => (s, none)) rfl fun _ hs => filter_yields hs hfits

/-! ### Sort -/

/-- The tuples in the order of the clause. -/
def sorted (orderBy : OrderByClause) (col : Nat) (ts : List Tuple) : List Tuple :=
  stableSort orderBy.descending (ts.map fun t => (t.values[col]?.getD .null, t))

theorem sorted_perm (orderBy : OrderByClause) (col : Nat) (ts : List Tuple) :
    (sorted orderBy col ts).Perm ts := by
  unfold sorted stableSort
  have hperm := (List.mergeSort_perm (ts.map fun t => (t.values[col]?.getD .null, t))
    fun a b => !sortsBefore orderBy.descending b.1 a.1).map Prod.snd
  rw [List.map_map] at hperm
  exact hperm.trans (List.Perm.of_eq (List.map_id' ts))

theorem keyedBy_eq {col : Nat} (h : ∀ t ∈ ts, col < t.values.length) :
    keyedBy col ts = pure (ts.map fun t => (t.values[col]?.getD .null, t)) := by
  induction ts with
  | nil => rfl
  | cons t ts ih =>
    have ht := h t (List.mem_cons_self ..)
    rw [keyedBy, List.mapM_cons, List.getElem?_eq_getElem ht, Checked.access_some, pure_bind,
      pure_bind, ← keyedBy, ih fun t' ht' => h t' (List.mem_cons_of_mem _ ht'), pure_bind,
      List.map_cons, List.getElem?_eq_getElem ht]
    rfl

/-- The answer to ORDER BY a column that does not exist. -/
def unknownOrder (orderBy : OrderByClause) : Status :=
  ⟨.invalidArgument, lit "ORDER BY: unknown column '" ++ orderBy.column ++ lit "'"⟩

/-- The stream of a sort. -/
def sortStream (orderBy : OrderByClause) (schema : Schema) (stream : TupleStream) :
    TupleStream :=
  match schema.indexOf orderBy.column with
  | none => ⟨[], some (unknownOrder orderBy), some (unknownOrder orderBy)⟩
  | some col => ⟨sorted orderBy col stream.items, stream.atEnd, stream.atEnd⟩

/-- The tuple has a value in the column of the clause. -/
def Tuple.HasKey (orderBy : OrderByClause) (schema : Schema) (t : Tuple) : Prop :=
  ∀ col, schema.indexOf orderBy.column = some col → col.val < t.values.length

theorem Tuple.Fits.hasKey (h : t.Fits schema) (orderBy : OrderByClause) : t.HasKey orderBy schema := by
  intro col _
  rw [h]
  exact col.isLt

theorem openSort_wp (h : Produces allow I child stream db) (hdb : I db)
    (hkeys : ∀ t ∈ stream.items, t.HasKey orderBy schema) :
    wp allow (openSort orderBy schema child) (post
      (fun s db' => Yields allow I (sort orderBy schema child) (sortStream orderBy schema stream) s ∧
        I db') fun _ _ => False) db := by
  unfold openSort sortStream
  cases hcol : schema.indexOf orderBy.column with
  | none => exact ⟨⟨rfl, fun db' hdb' => ⟨rfl, rfl, hdb'⟩⟩, hdb⟩
  | some col =>
    dsimp only
    rw [wp_bind]
    refine wp_mono_ok ?_ h
    rintro s db₁ ⟨hs, hdb₁⟩
    rw [wp_bind]
    refine wp_mono_ok ?_ (hs.drain .noFuel hdb₁)
    rintro ⟨ts, s'⟩ db₂ ⟨rfl, herr, hdb₂⟩
    have hlt : ∀ t ∈ stream.items, col.val < t.values.length := fun t ht => hkeys t ht col hcol
    dsimp only
    rw [wp_bind, wp_check (keyedBy_eq hlt), post_ok]
    refine ⟨?_, hdb₂⟩
    rw [herr]
    exact yields_of_list (c := sort orderBy schema child) (fun ts => ⟨ts, none, stream.atEnd⟩) rfl
      (fun _ _ => rfl) (fun _ => rfl) (fun _ => le_rfl) _

theorem sort_produces (h : Produces allow I child stream db) (hdb : I db)
    (hkeys : ∀ t ∈ stream.items, t.HasKey orderBy schema) :
    Produces allow I (sort orderBy schema child) (sortStream orderBy schema stream) db :=
  openSort_wp h hdb hkeys

/-! ### Project -/

/-- The columns of a row. -/
def projected (indices : List Nat) (t : Tuple) : Tuple :=
  ⟨t.rid, indices.map fun i => t.values[i]?.getD .null⟩

theorem projectRow_eq (h : ∀ i ∈ indices, i < values.length) :
    projectRow values indices = .ok (indices.map fun i => values[i]?.getD .null) := by
  refine mapM_eq_ok.mpr ?_
  rw [List.forall₂_map_right_iff, List.forall₂_same]
  intro i hi
  rw [List.getElem?_eq_getElem (h i hi)]
  rfl

/-- The stream of a projection. -/
def projectStream (indices : List Nat) (stream : TupleStream) : TupleStream :=
  ⟨stream.items.map (projected indices), stream.during, stream.atEnd⟩

theorem project_yields (h : Yields allow I child stream s)
    (hidx : ∀ t ∈ stream.items, ∀ i ∈ indices, i < t.values.length) :
    Yields allow I (project indices child) (projectStream indices stream) (s, none) := by
  obtain ⟨ts, during, atEnd⟩ := stream
  show YieldsFrom allow I (project indices child) during atEnd (ts.map (projected indices)) (s, none)
  have h' : YieldsFrom allow I child during atEnd ts s := h
  clear h
  induction ts generalizing s with
  | nil =>
    refine ⟨h'.1, fun db hdb => ?_⟩
    refine (wp_bind _ _ _).mpr ?_
    refine wp_mono_ok ?_ (h'.2 db hdb)
    rintro ⟨t?, s'⟩ db' ⟨rfl, herr, hdb'⟩
    exact ⟨rfl, herr, hdb'⟩
  | cons t ts ih =>
    obtain ⟨herr, hleft, hnext⟩ := h'
    refine ⟨herr, by rw [List.length_map]; exact hleft, fun db hdb => ?_⟩
    refine (wp_bind _ _ _).mpr ?_
    refine wp_mono_ok ?_ (hnext db hdb)
    rintro ⟨t?, s'⟩ db' ⟨rfl, hrest, hdb'⟩
    dsimp only
    rw [projectRow_eq (hidx t (List.mem_cons_self ..))]
    exact ⟨rfl, ih (fun t' ht' => hidx t' (List.mem_cons_of_mem _ ht')) hrest, hdb'⟩

theorem project_produces (h : Produces allow I child stream db)
    (hidx : ∀ t ∈ stream.items, ∀ i ∈ indices, i < t.values.length) :
    Produces allow I (project indices child) (projectStream indices stream) db :=
  h.lift (fun s => (s, none)) rfl fun _ hs => project_yields hs hidx

/-! ### Limit -/

/-- The stream of a limit: if it is reached, what comes later is not asked for. -/
def limitStream (k : Int64) (stream : TupleStream) : TupleStream :=
  ⟨stream.items.take k.toInt.toNat, stream.during,
    if k.toInt.toNat ≤ stream.items.length then stream.during else stream.atEnd⟩

theorem limit_next_of_ge (h : n ≥ k) :
    (limit k child).next (s, n) = pure (none, (s, n)) := if_pos h

theorem limit_next_of_lt (h : ¬ n ≥ k) :
    (limit k child).next (s, n) = (do
      match ← child.next s with
      | (none, t) => return (none, t, n)
      | (some tuple, t) => return (some tuple, t, n + 1)) := if_neg h

theorem limit_next_wp (h : ¬ n ≥ k) {V : Option Tuple × child.State → Database σ → Prop}
    {Q : Result (Option Tuple × child.State × Int64) → Database σ → Prop}
    (hnext : wp allow (child.next s) (post V fun _ _ => False) db)
    (hQ : ∀ r db', V r db' → Q (.ok (r.1, r.2, if r.1.isSome then n + 1 else n)) db') :
    wp allow ((limit k child).next (s, n)) Q db := by
  rw [limit_next_of_lt h]
  refine (wp_bind _ _ _).mpr (wp_mono ?_ hnext)
  rintro (e | ⟨t? | t, s'⟩) db' hV
  · exact hV.elim
  · exact hQ _ db' hV
  · exact hQ _ db' hV

theorem toInt_succ (h : n < k) : (n + 1).toInt = n.toInt + 1 := by
  have hlt := Int64.lt_iff_toInt_lt.mp h
  have hk := Int64.toInt_lt k
  have hn := Int64.le_toInt n
  rw [Int64.toInt_add, Int64.toInt_one]
  exact Int.bmod_eq_of_le (by omega) (by omega)

/-- A limit that has returned `n` tuples. -/
theorem limit_yieldsFrom (h : YieldsFrom allow I child during atEnd ts s) :
    YieldsFrom allow I (limit k child) during
      (if (k.toInt - n.toInt).toNat ≤ ts.length then during else atEnd)
      (ts.take (k.toInt - n.toInt).toNat) (s, n) := by
  induction ts generalizing s n with
  | nil =>
    rw [List.take_nil]
    refine ⟨h.1, fun db hdb => ?_⟩
    by_cases hk : n ≥ k
    · have hnat : (k.toInt - n.toInt).toNat ≤ ([] : List Tuple).length := by
        have := Int64.le_iff_toInt_le.mp hk
        rw [List.length_nil]
        omega
      rw [if_pos hnat, limit_next_of_ge hk]
      exact ⟨rfl, h.1, hdb⟩
    · have hnat : ¬ (k.toInt - n.toInt).toNat ≤ ([] : List Tuple).length := by
        have := Int64.lt_iff_toInt_lt.mp (Int64.not_le.mp hk)
        rw [List.length_nil]
        omega
      rw [if_neg hnat]
      refine limit_next_wp hk (h.2 db hdb) ?_
      rintro ⟨t?, s'⟩ db' ⟨rfl, herr, hdb'⟩
      exact ⟨rfl, herr, hdb'⟩
  | cons t ts ih =>
    by_cases hk : n ≥ k
    · have hnat : (k.toInt - n.toInt).toNat = 0 := by
        have := Int64.le_iff_toInt_le.mp hk
        omega
      rw [hnat, if_pos (Nat.zero_le _), List.take_zero]
      refine ⟨h.1, fun db hdb => ?_⟩
      rw [limit_next_of_ge hk]
      exact ⟨rfl, h.1, hdb⟩
    · have hlt := Int64.not_le.mp hk
      have hnat : (k.toInt - n.toInt).toNat = (k.toInt - (n + 1).toInt).toNat + 1 := by
        have := Int64.lt_iff_toInt_lt.mp hlt
        rw [toInt_succ hlt]
        omega
      rw [hnat, List.take_succ_cons, List.length_cons]
      simp only [Nat.succ_le_succ_iff]
      refine ⟨h.1, ?_, fun db hdb => ?_⟩
      · exact Nat.lt_of_le_of_lt (List.length_take_le' _ _) h.2.1
      · refine limit_next_wp hk (h.2.2 db hdb) ?_
        rintro ⟨t?, s'⟩ db' ⟨rfl, hrest, hdb'⟩
        exact ⟨rfl, ih hrest, hdb'⟩

theorem limit_yields (h : Yields allow I child stream s) :
    Yields allow I (limit k child) (limitStream k stream) (s, 0) := by
  have hstart := limit_yieldsFrom (k := k) (n := 0) h
  rw [Int64.toInt_zero, Int.sub_zero] at hstart
  exact hstart

theorem limit_produces (h : Produces allow I child stream db) :
    Produces allow I (limit k child) (limitStream k stream) db :=
  h.lift (fun s => (s, 0)) rfl fun _ hs => limit_yields hs

/-! ### Aggregates -/

theorem accumulate_checked (h : values.length = schema.columnCount) (item : AggregateItem)
    (acc : Accumulator) : ∃ r, accumulate schema values item acc = Checked.ofResult r := by
  unfold accumulate
  cases item with
  | countStar alias? => exact ⟨.ok _, rfl⟩
  | ofColumn func column alias? =>
    dsimp only
    cases hidx : schema.indexOf column with
    | none => exact ⟨.error _, rfl⟩
    | some idx =>
      have hlt : idx.val < values.length := by rw [h]; exact idx.isLt
      dsimp only
      rw [List.getElem?_eq_getElem hlt, Checked.access_some, pure_bind]
      split_ifs
      · exact ⟨.ok _, rfl⟩
      · exact ⟨_, rfl⟩

theorem mapM_checked {A B : Type} {f : A → Fallible B} {l : List A}
    (h : ∀ a ∈ l, ∃ r, f a = Checked.ofResult r) : ∃ r, l.mapM f = Checked.ofResult r := by
  induction l with
  | nil => exact ⟨.ok [], rfl⟩
  | cons a l ih =>
    rw [List.mapM_cons]
    refine Checked.bind_eq_ofResult (h a (List.mem_cons_self ..)) fun b _ => ?_
    exact Checked.bind_eq_ofResult (ih fun a' ha' => h a' (List.mem_cons_of_mem _ ha'))
      fun bs _ => ⟨.ok _, rfl⟩

theorem accumulateTuple_checked (h : t.Fits schema) (accs : List (AggregateItem × Accumulator)) :
    ∃ r, accumulateTuple schema accs t = Checked.ofResult r :=
  mapM_checked fun p _ =>
    Checked.bind_eq_ofResult (accumulate_checked h p.1 p.2) fun _ _ => ⟨.ok _, rfl⟩

/-- All tuples for all items. -/
def accumulateAll (schema : Schema) (accs : List (AggregateItem × Accumulator)) (ts : List Tuple) :
    Fallible (List (AggregateItem × Accumulator)) := ts.foldlM (accumulateTuple schema) accs

theorem accumulateAll_checked (h : ∀ t ∈ ts, t.Fits schema)
    (accs : List (AggregateItem × Accumulator)) :
    ∃ r, accumulateAll schema accs ts = Checked.ofResult r := by
  unfold accumulateAll
  induction ts generalizing accs with
  | nil => exact ⟨.ok accs, rfl⟩
  | cons t ts ih =>
    rw [List.foldlM_cons]
    exact Checked.bind_eq_ofResult (accumulateTuple_checked (h t (List.mem_cons_self ..)) accs)
      fun accs' _ => ih (fun t' ht' => h t' (List.mem_cons_of_mem _ ht')) accs'

theorem accumulateFrom_wp (h : YieldsFrom allow I child during atEnd ts s)
    {accs : List (AggregateItem × Accumulator)} {r : Result (List (AggregateItem × Accumulator))}
    (hall : accumulateAll schema accs ts = Checked.ofResult r) (hfuel : ts.length < fuel) (hdb : I db) :
    wp allow (accumulateFrom schema child fuel accs s) (post
      (fun p db' => I db' ∧ p.1 = r ∧ ((∃ accs', r = .ok accs') → child.error p.2 = atEnd))
      fun _ _ => False) db := by
  unfold accumulateAll at hall
  induction ts generalizing s fuel accs db with
  | nil =>
    obtain ⟨fuel, rfl⟩ : ∃ m, fuel = m + 1 := ⟨fuel - 1, by omega⟩
    obtain rfl : .ok accs = r := by cases hall; rfl
    rw [accumulateFrom, wp_bind]
    refine wp_mono_ok ?_ (h.2 db hdb)
    rintro ⟨t?, s'⟩ db' ⟨rfl, herr, hdb'⟩
    exact ⟨hdb', rfl, fun _ => herr⟩
  | cons t ts ih =>
    obtain ⟨fuel, rfl⟩ : ∃ m, fuel = m + 1 := ⟨fuel - 1, by omega⟩
    rw [accumulateFrom, wp_bind]
    refine wp_mono_ok ?_ (h.2.2 db hdb)
    rintro ⟨t?, s'⟩ db' ⟨rfl, hrest, hdb'⟩
    dsimp only
    rw [List.foldlM_cons] at hall
    rcases Checked.bind_eq_ofResult_iff.mp hall with ⟨e, hfirst, rfl⟩ | ⟨accs', hfirst, hlast⟩
    · rw [hfirst, ← Checked.ofResult_error, Checked.attempt_ofResult, wp_bind,
        ← Checked.ofResult_ok, wp_check rfl]
      exact ⟨hdb', rfl, fun ⟨_, h⟩ => nomatch h⟩
    · rw [hfirst, ← Checked.ofResult_ok, Checked.attempt_ofResult, wp_bind,
        ← Checked.ofResult_ok, wp_check rfl]
      exact ih hrest hlast (Nat.lt_of_succ_lt_succ hfuel) hdb'

/-- What an aggregate makes of the tuples below it. -/
def aggregateRow (items : List AggregateItem) (schema : Schema) (ts : List Tuple) : Result Row :=
  match items.forM (checkItem schema) with
  | .error e => .error e
  | .ok () =>
    match (accumulateAll schema (items.map fun i => (i, {})) ts).run with
    | .error _ => .ok []
    | .ok r => r.map fun accs => accs.map fun p => p.2.value p.1

theorem compute_wp (h : Yields allow I child stream s) (hfits : ∀ t ∈ stream.items, t.Fits schema)
    (hdb : I db) :
    wp allow (compute items schema child s) (post
      (fun p db' => I db' ∧ p.1 = aggregateRow items schema stream.items ∧
        ((∃ row, p.1 = .ok row) → child.error p.2 = stream.atEnd)) fun _ _ => False) db := by
  unfold compute aggregateRow
  cases hcheck : items.forM (checkItem schema) with
  | error e => exact ⟨hdb, rfl, fun ⟨_, h⟩ => nomatch h⟩
  | ok u =>
    obtain ⟨r, hr⟩ := accumulateAll_checked hfits (items.map fun i => (i, ({} : Accumulator)))
    dsimp only
    rw [wp_bind, hr]
    refine wp_mono_ok ?_
      (accumulateFrom_wp h hr (Nat.lt_succ_of_le h.length_le) hdb)
    rintro ⟨r', s'⟩ db' ⟨hdb', rfl, hend⟩
    refine ⟨hdb', rfl, fun ⟨row, hrow⟩ => hend ?_⟩
    cases r' with
    | error e => cases hrow
    | ok accs => exact ⟨accs, rfl⟩

/-! ### Whole plans -/

/-- What a plan answers that hands out a stream. -/
def TupleStream.rows (stream : TupleStream) : Result (List Row) :=
  match stream.atEnd with
  | some e => .error e
  | none => .ok (stream.items.map Tuple.values)

theorem runOperator_wp {plan : Operator σ} (h : Produces allow I plan stream db) :
    wp allow (runOperator plan) (fun r db' => I db' ∧ r = TupleStream.rows stream) db := by
  unfold runOperator TupleStream.rows
  rw [wp_bind]
  refine wp_mono ?_ h
  rintro (e | s) db₁ hs
  · exact hs.elim
  · obtain ⟨hs, hdb₁⟩ := hs
    rw [post_ok, wp_bind]
    refine wp_mono ?_ (hs.drain .noFuel hdb₁)
    rintro (e | ⟨ts, s'⟩) db₂ hpost
    · exact hpost.elim
    · obtain ⟨rfl, herr, hdb₂⟩ := hpost
      rw [post_ok]
      dsimp only
      rw [herr]
      cases stream.atEnd with
      | none => exact ⟨hdb₂, rfl⟩
      | some e => exact ⟨hdb₂, rfl⟩

/-- The one row of an aggregate, or its error, or that of the tuples below it. -/
def aggregateRows (items : List AggregateItem) (schema : Schema) (stream : TupleStream) :
    Result (List Row) :=
  match aggregateRow items schema stream.items with
  | .error e => .error e
  | .ok row =>
    match stream.atEnd with
    | some e => .error e
    | none => .ok [row]

/-- The first tuple of an aggregate. -/
theorem aggregate_next_wp (h : Yields allow I child stream s)
    (hfits : ∀ t ∈ stream.items, t.Fits schema) (hdb : I db) :
    wp allow ((aggregate items schema child).next { child := s }) (post
      (fun r db' => I db' ∧ ∃ t e, r.2 = ⟨t, true, e⟩ ∧
        match aggregateRow items schema stream.items with
        | .error status => r.1 = none ∧ e = some status
        | .ok row => r.1 = some ⟨⟨kInvalidPageId, 0⟩, row⟩ ∧ e = none ∧ child.error t = stream.atEnd)
      fun _ _ => False) db := by
  refine (wp_bind (compute items schema child s) _ _).mpr ?_
  refine wp_mono_ok ?_ (compute_wp h hfits hdb)
  rintro ⟨r, s'⟩ db' ⟨hdb', hr, hend⟩
  dsimp only at hr hend ⊢
  rw [← hr]
  cases r with
  | error e => exact ⟨hdb', s', some e, rfl, rfl, rfl⟩
  | ok row => exact ⟨hdb', s', none, rfl, rfl, rfl, hend ⟨row, rfl⟩⟩

/-- The error an aggregate reports in the end. -/
def aggregateError (r : Result Row) (atEnd : Option Status) : Option Status :=
  match r with
  | .error e => some e
  | .ok _ => atEnd

/-- Two rounds of the loop that asks for all tuples: the row, and the end. -/
theorem aggregate_drain_wp (h : Yields allow I child stream s)
    (hfits : ∀ t ∈ stream.items, t.Fits schema) (hdb : I db) :
    wp allow ((aggregate items schema child).drain .noFuel { child := s }) (post
      (fun r db' => I db' ∧
        r.1.map Tuple.values = (aggregateRow items schema stream.items).toOption.toList ∧
        (aggregate items schema child).error r.2
          = aggregateError (aggregateRow items schema stream.items) stream.atEnd)
      fun _ _ => False) db := by
  refine (wp_bind ((aggregate items schema child).next { child := s }) _ _).mpr ?_
  refine wp_mono_ok ?_ (aggregate_next_wp h hfits hdb)
  rintro ⟨t?, s'⟩ db' ⟨hdb', t, e, hs', hres⟩
  dsimp only at hs' hres
  subst hs'
  cases hrow : aggregateRow items schema stream.items with
  | error status =>
    rw [hrow] at hres
    obtain ⟨rfl, rfl⟩ := hres
    exact ⟨hdb', rfl, rfl⟩
  | ok row =>
    rw [hrow] at hres
    obtain ⟨rfl, rfl, herr⟩ := hres
    exact ⟨hdb', rfl, herr⟩

theorem runOperator_aggregate_wp (h : Produces allow I child stream db)
    (hfits : ∀ t ∈ stream.items, t.Fits schema) :
    wp allow (runOperator (aggregate items schema child))
      (fun r db' => I db' ∧ r = aggregateRows items schema stream) db := by
  unfold runOperator
  rw [wp_bind]
  refine (wp_bind child.start _ _).mpr (wp_mono ?_ h)
  rintro (e | s) db₁ hs
  · exact hs.elim
  obtain ⟨hs, hdb₁⟩ := hs
  refine (wp_bind ((aggregate items schema child).drain .noFuel { child := s }) _ _).mpr ?_
  refine wp_mono ?_ (aggregate_drain_wp hs hfits hdb₁)
  rintro (e | ⟨ts, s'⟩) db₂ hpost
  · exact hpost.elim
  obtain ⟨hdb₂, hrows, herr⟩ := hpost
  rw [post_ok]
  dsimp only
  rw [herr]
  unfold aggregateRows
  cases hrow : aggregateRow items schema stream.items with
  | error e => exact ⟨hdb₂, rfl⟩
  | ok row =>
    cases stream.atEnd with
    | some e => exact ⟨hdb₂, rfl⟩
    | none =>
      rw [hrow] at hrows
      refine ⟨hdb₂, ?_⟩
      exact congrArg Except.ok hrows

/-! ### SELECT -/

theorem buildColumnPlan_lt (items : List (Str × Option Str)) :
    ∀ i ∈ (buildColumnPlan schema items).indices, i < schema.columnCount := by
  induction items with
  | nil => exact fun i hi => nomatch hi
  | cons item items ih =>
    obtain ⟨column, alias?⟩ := item
    rw [buildColumnPlan]
    cases hidx : schema.indexOf column with
    | none => exact fun i hi => nomatch hi
    | some idx =>
      intro i hi
      rcases List.mem_cons.mp hi with rfl | hi
      · exact idx.isLt
      · exact ih i hi

theorem columnPlan_lt (items : SelectList) :
    ∀ i ∈ (columnPlan schema items).indices, i < schema.columnCount := by
  cases items with
  | star => exact buildColumnPlan_lt _
  | items items => exact buildColumnPlan_lt _

/-- The stream of the ORDER BY clause. -/
def orderStream (stmt : SelectStmt) (schema : Schema) (stream : TupleStream) : TupleStream :=
  match stmt.orderBy with
  | none => stream
  | some orderBy => sortStream orderBy schema stream

theorem orderPlan_produces (h : Produces allow I child stream db) (hdb : I db)
    (hfits : ∀ t ∈ stream.items, t.Fits schema) :
    Produces allow I (orderPlan stmt schema child) (orderStream stmt schema stream) db := by
  unfold orderPlan orderStream
  cases stmt.orderBy with
  | none => exact h
  | some orderBy => exact sort_produces h hdb fun t ht => (hfits t ht).hasKey orderBy

/-- Sorting adds no tuples. -/
theorem orderStream_subset (stmt : SelectStmt) (schema : Schema) (stream : TupleStream) :
    (orderStream stmt schema stream).items ⊆ stream.items := by
  unfold orderStream
  cases stmt.orderBy with
  | none => exact List.Subset.refl _
  | some orderBy =>
    dsimp only
    unfold sortStream
    cases schema.indexOf orderBy.column with
    | none => exact List.nil_subset _
    | some col => exact (sorted_perm orderBy col stream.items).subset

/-- The stream of the LIMIT clause. -/
def limitedStream (stmt : SelectStmt) (stream : TupleStream) : TupleStream :=
  match stmt.limit with
  | none => stream
  | some k => limitStream k stream

theorem limitPlan_produces (h : Produces allow I child stream db) :
    Produces allow I (limitPlan stmt child) (limitedStream stmt stream) db := by
  unfold limitPlan limitedStream
  cases stmt.limit with
  | none => exact h
  | some k => exact limit_produces h

/-- The rows a SELECT makes of the stream of its source. -/
def selectRows (stmt : SelectStmt) (schema : Schema) (source : TupleStream) : Result (List Row) :=
  if SelectList.aggregates stmt.items ≠ [] then
    aggregateRows (SelectList.aggregates stmt.items) schema source
  else
    (limitedStream stmt (projectStream (columnPlan schema stmt.items).indices
      (orderStream stmt schema source))).rows

/-- What a SELECT answers, given the stream of its source. -/
def selectResult (stmt : SelectStmt) (schema : Schema) (path : AccessPath) (source : TupleStream) :
    Result QueryResult :=
  (selectRows stmt schema source).map fun rows => {
    columnNames := selectNames stmt schema
    rows := rows
    message := lit "SELECT " ++ toString rows.length
    scanStrategy := path.strategy }

variable [IndexPool σ] {path : AccessPath}

theorem selectPlan_wp (h : Produces allow I (sourcePlan stmt schema path) stream db) (hdb : I db)
    (hfits : ∀ t ∈ stream.items, t.Fits schema) :
    wp allow (runOperator (selectPlan stmt schema path))
      (fun r db' => I db' ∧ r = selectRows stmt schema stream) db := by
  unfold selectPlan selectRows
  split_ifs
  · exact runOperator_aggregate_wp h hfits
  · refine runOperator_wp (limitPlan_produces (project_produces
      (orderPlan_produces h hdb hfits) fun t ht i hi => ?_))
    rw [hfits t (orderStream_subset stmt schema stream ht)]
    exact columnPlan_lt stmt.items i hi

/-- What a plan answers is a function of the stream of its source. -/
theorem runPlan_wp (h : Produces allow I (sourcePlan stmt schema path) stream db) (hdb : I db)
    (hfits : ∀ t ∈ stream.items, t.Fits schema) :
    wp allow (runPlan stmt schema path)
      (fun r db' => I db' ∧ r = selectResult stmt schema path stream) db := by
  unfold runPlan selectResult
  rw [wp_bind]
  refine wp_mono ?_ (selectPlan_wp h hdb hfits)
  rintro r db' ⟨hdb', rfl⟩
  cases selectRows stmt schema stream with
  | error e => exact ⟨hdb', rfl⟩
  | ok rows => exact ⟨hdb', rfl⟩

end MiniDB.Executor
