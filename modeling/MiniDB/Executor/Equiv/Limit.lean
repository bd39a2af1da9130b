import MiniDB.Executor.Equiv.Plan

/-!
# LIMIT

A SELECT with a LIMIT runs the plan of the SELECT without it and stops early.  If the plan without the
limit ends without an error, it has reported none on the way either (`KeepsError`), and the limited
plan has returned the first tuples of it (`limit_drainFrom`).  This needs nothing of the database: the
two runs do the same up to the point where the limited one stops.

Errors of the WHERE clause are reported by `GetError` after the last tuple, so that a SELECT that
pulls a row on which the clause fails returns that error.  Whether it pulls the row depends on the
shape of the plan: a sort pulls all rows, a limit on top of a filter stops when it has its tuples.
-/

namespace MiniDB.Executor

open Effect Paged Cursor
open Effect.Action (exec_bind_eq_ok wp)

variable {σ : Type} {child : Operator σ}

/-! ### Errors stay -/

theorem seqScan_keepsError (table : Str) : KeepsError (seqScan table : Operator σ) :=
  fun _ _ _ _ _ _ _ => rfl

theorem indexScan_keepsError [IndexPool σ] (table : Str) (tree : PageId) (lookup : IndexLookup) :
    KeepsError (indexScan table tree lookup : Operator σ) := by
  intro s x r s' x' hnext herror
  obtain ⟨⟨t?, candidates⟩, x₁, -, hpure⟩ := exec_bind_eq_ok.mp hnext
  cases hpure
  exact herror

theorem orElse_eq_none {α : Type} {a b : Option α} : (a <|> b) = none ↔ a = none ∧ b = none := by
  cases a <;> simp

variable {schema : Schema} {x x' db db' : Database σ} {stmt : SelectStmt} {predicate : Expr}
  {fuel : Nat} {k n : Int64} {s : child.State}

theorem filterNext_keepsError (h : KeepsError child) {s : child.State × Option Status}
    {r : Option Tuple} {s' : child.State × Option Status}
    (hnext : (filterNext predicate schema child fuel s).exec x = .ok (.ok (r, s'), x'))
    (herror : (s'.2 <|> child.error s'.1) = none) : (s.2 <|> child.error s.1) = none := by
  induction fuel generalizing s x with
  | zero => cases hnext
  | succ fuel ih =>
    obtain ⟨s, error⟩ := s
    rw [filterNext, exec_bind_eq_ok] at hnext
    obtain ⟨⟨t?, s₁⟩, x₁, hchild, hrest⟩ := hnext
    have hback : ∀ {e : Option Status}, (e <|> child.error s₁) = none →
        (e <|> child.error s) = none := by
      intro e he
      rw [orElse_eq_none] at he ⊢
      exact ⟨he.1, h _ _ _ _ _ hchild he.2⟩
    cases t? with
    | none =>
      cases hrest
      exact hback herror
    | some t =>
      obtain ⟨matched, x₂, -, hmatched⟩ := exec_bind_eq_ok.mp hrest
      rcases matched with status | _ | _
      · -- the error is recorded, so the state does not report none
        cases hmatched
        cases herror
      · exact hback (ih hmatched)
      · cases hmatched
        exact hback herror

theorem filter_keepsError (h : KeepsError child) : KeepsError (filter predicate schema child) :=
  fun _ _ _ _ _ hnext herror => filterNext_keepsError h hnext herror

theorem sort_keepsError (orderBy : OrderByClause) (schema : Schema) (child : Operator σ) :
    KeepsError (sort orderBy schema child) := by
  rintro ⟨buffered, error, childError⟩ x r s' x' hnext herror
  cases error with
  | some e =>
    cases hnext
    exact herror
  | none =>
    cases buffered with
    | nil =>
      cases hnext
      exact herror
    | cons t buffered =>
      cases hnext
      exact herror

theorem project_keepsError {indices : List Nat} (h : KeepsError child) :
    KeepsError (project indices child) := by
  rintro ⟨s, error⟩ x r s' x' hnext herror
  obtain ⟨⟨t?, s₁⟩, x₁, hchild, hrest⟩ := exec_bind_eq_ok.mp hnext
  have hback : (error <|> child.error s₁) = none → (error <|> child.error s) = none := by
    intro he
    rw [orElse_eq_none] at he ⊢
    exact ⟨he.1, h _ _ _ _ _ hchild he.2⟩
  cases t? with
  | none =>
    cases hrest
    exact hback herror
  | some t =>
    dsimp only at hrest
    cases hrow : projectRow t.values indices with
    | error status =>
      rw [hrow] at hrest
      cases hrest
      cases herror
    | ok values =>
      rw [hrow] at hrest
      cases hrest
      exact hback herror

theorem sourcePlan_keepsError [IndexPool σ] (stmt : SelectStmt) (schema : Schema)
    (path : AccessPath) : KeepsError (sourcePlan stmt schema path : Operator σ) := by
  have hscan : KeepsError (path.scan stmt.tableName : Operator σ) := by
    cases path with
    | seqScan => exact seqScan_keepsError _
    | indexScan indexName tree lookup => exact indexScan_keepsError _ tree lookup
  unfold sourcePlan
  cases stmt.where? with
  | none => exact hscan
  | some predicate => exact filter_keepsError hscan

theorem orderPlan_keepsError (h : KeepsError child) :
    KeepsError (orderPlan stmt schema child) := by
  unfold orderPlan
  cases stmt.orderBy with
  | none => exact h
  | some orderBy => exact sort_keepsError orderBy schema child

/-! ### The first tuples -/

/-- A limit that is not reached asks its child. -/
theorem limit_next_exec (hk : ¬ n ≥ k) {s₁ : child.State} {x₁ : Database σ} {t? : Option Tuple}
    (h : (child.next s).exec x = .ok (.ok (t?, s₁), x₁)) :
    ((limit k child).next (s, n)).exec x
      = .ok (.ok (t?, s₁, if t?.isSome then n + 1 else n), x₁) := by
  rw [limit_next_of_lt hk]
  refine exec_bind_eq_ok.mpr ⟨_, _, h, ?_⟩
  cases t? <;> rfl

/-- A limit that has returned `n` tuples returns the next ones of what its child would, and reports
no error if that does not. -/
theorem limit_drainFrom (h : KeepsError child) {dry : Fault} {s' : child.State} {ts : List Tuple}
    (hdrain : (child.drainFrom dry fuel s).exec x = .ok (.ok (ts, s'), x'))
    (herror : child.error s' = none) :
    ∃ s'' x'', ((limit k child).drainFrom dry fuel (s, n)).exec x
        = .ok (.ok (ts.take (k.toInt - n.toInt).toNat, s''), x'') ∧
      (limit k child).error s'' = none := by
  induction fuel generalizing s x ts n with
  | zero => cases hdrain
  | succ fuel ih =>
    by_cases hk : n ≥ k
    · -- the limit is reached
      have hnat : (k.toInt - n.toInt).toNat = 0 := by
        have := Int64.le_iff_toInt_le.mp hk
        omega
      rw [hnat, List.take_zero]
      refine ⟨(s, n), x, drainFrom_succ_eq_ok.mpr (.inl ⟨rfl, ?_⟩), h.drainFrom hdrain herror⟩
      rw [limit_next_of_ge hk]
      rfl
    · rcases drainFrom_succ_eq_ok.mp hdrain with
        ⟨rfl, hnext⟩ | ⟨t, ts', s₁, x₁, rfl, hnext, hrest⟩
      · rw [List.take_nil]
        exact ⟨(s', n), x', drainFrom_succ_eq_ok.mpr (.inl ⟨rfl, limit_next_exec hk hnext⟩), herror⟩
      · obtain ⟨s'', x'', hlimit, hnone⟩ := ih (n := n + 1) hrest
        have hnat : (k.toInt - n.toInt).toNat = (k.toInt - (n + 1).toInt).toNat + 1 := by
          have hlt := Int64.not_le.mp hk
          have := Int64.lt_iff_toInt_lt.mp hlt
          rw [toInt_succ hlt]
          omega
        rw [hnat, List.take_succ_cons]
        exact ⟨s'', x'', drainFrom_succ_eq_ok.mpr
          (.inr ⟨t, _, _, x₁, rfl, limit_next_exec hk hnext, hlimit⟩), hnone⟩

/-- The rows of a plan under a limit. -/
theorem runOperator_limit (h : KeepsError child) {rows : List Row}
    (hrun : (runOperator child).exec x = .ok (.ok rows, x')) :
    ∃ x'', (runOperator (limit k child)).exec x = .ok (.ok (rows.take k.toInt.toNat), x'') := by
  obtain ⟨s, x₁, hstart, hrest⟩ := exec_bind_eq_ok.mp hrun
  obtain ⟨⟨ts, s'⟩, x₂, hdrain, hfinal⟩ := exec_bind_eq_ok.mp hrest
  dsimp only at hfinal
  cases herror : child.error s' with
  | some e =>
    rw [herror] at hfinal
    cases hfinal
  | none =>
    rw [herror] at hfinal
    cases hfinal
    obtain ⟨s'', x'', hlimit, hnone⟩ := limit_drainFrom h (k := k) (n := 0) hdrain herror
    rw [Int64.toInt_zero, Int.sub_zero] at hlimit
    refine ⟨x'', exec_bind_eq_ok.mpr ⟨(s, 0), x₁, ?_, ?_⟩⟩
    · exact exec_bind_eq_ok.mpr ⟨s, x₁, hstart, rfl⟩
    · refine exec_bind_eq_ok.mpr ⟨_, x'', hlimit, ?_⟩
      dsimp only
      rw [hnone, List.map_take]
      rfl

variable [IndexPool σ] {res : QueryResult} {path : AccessPath}

/-- The SELECT with a LIMIT clause. -/
def withLimit (stmt : SelectStmt) (k : Int64) : SelectStmt := { stmt with limit := some k }

theorem runPlan_limit (hplain : SelectList.aggregates stmt.items = []) (hnone : stmt.limit = none)
    (hrun : (runPlan stmt schema path).exec x = .ok (.ok res, x')) (k : Int64) :
    ∃ res' x'', (runPlan (withLimit stmt k) schema path).exec x = .ok (.ok res', x'') ∧
      res'.rows = res.rows.take k.toInt.toNat ∧ res'.columnNames = res.columnNames := by
  have hplan : (selectPlan stmt schema path : Operator σ) = project (columnPlan schema stmt.items).indices
      (orderPlan stmt schema (sourcePlan stmt schema path)) := by
    rw [selectPlan, if_neg (not_not.mpr hplain), limitPlan, hnone]
  have hplan' : (selectPlan (withLimit stmt k) schema path : Operator σ)
      = limit k (selectPlan stmt schema path) := by
    rw [hplan]
    exact if_neg (not_not.mpr hplain)
  have hkeeps : KeepsError (selectPlan stmt schema path : Operator σ) := by
    rw [hplan]
    exact project_keepsError (orderPlan_keepsError (sourcePlan_keepsError stmt schema path))
  obtain ⟨rows, x₁, hrows, hpure⟩ := exec_bind_eq_ok.mp hrun
  cases hpure
  obtain ⟨x'', hlimit⟩ := runOperator_limit hkeeps (k := k) hrows
  refine ⟨_, x'', exec_bind_eq_ok.mpr ⟨_, x'', ?_, rfl⟩, rfl, rfl⟩
  rw [hplan']
  exact hlimit

/-- A SELECT chooses an access path for its table and runs its plan, unless its list is mixed. -/
theorem executeSelect_eq_ok :
    (executeSelect stmt).exec db = .ok (.ok res, db') ↔
      ∃ schema path db₁ db₂, (requireSchema stmt.tableName).exec db = .ok (.ok schema, db₁) ∧
        ¬ (SelectList.aggregates stmt.items ≠ [] ∧ SelectList.anyPlain stmt.items = true) ∧
        (chooseAccessPath stmt).exec db₁ = .ok (.ok path, db₂) ∧
        (runPlan stmt schema path).exec db₂ = .ok (.ok res, db') := by
  constructor
  · intro h
    obtain ⟨schema, db₁, hschema, hrest⟩ := exec_bind_eq_ok.mp h
    split_ifs at hrest with hmixed
    · cases hrest
    · obtain ⟨path, db₂, hpath, hplan⟩ := exec_bind_eq_ok.mp hrest
      exact ⟨schema, path, db₁, db₂, hschema, hmixed, hpath, hplan⟩
  · rintro ⟨schema, path, db₁, db₂, hschema, hmixed, hpath, hplan⟩
    refine exec_bind_eq_ok.mpr ⟨schema, db₁, hschema, ?_⟩
    rw [if_neg hmixed]
    exact exec_bind_eq_ok.mpr ⟨path, db₂, hpath, hplan⟩

theorem executeSelect_limit (hplain : SelectList.aggregates stmt.items = []) (hnone : stmt.limit = none)
    (h : (executeSelect stmt).exec db = .ok (.ok res, db')) (k : Int64) :
    ∃ res' db'', (executeSelect (withLimit stmt k)).exec db = .ok (.ok res', db'') ∧
      res'.rows = res.rows.take k.toInt.toNat ∧ res'.columnNames = res.columnNames := by
  obtain ⟨schema, path, db₁, db₂, hschema, hmixed, hpath, hplan⟩ := executeSelect_eq_ok.mp h
  obtain ⟨res', db'', hlimit, hrows⟩ := runPlan_limit hplain hnone hplan k
  exact ⟨res', db'', executeSelect_eq_ok.mpr
    ⟨schema, path, db₁, db₂, hschema, hmixed, hpath, hlimit⟩, hrows⟩

/-! ### Errors of the WHERE clause -/

/-- The rows on which the WHERE clause holds. -/
def passing (w : Expr) (schema : Schema) (ts : List Tuple) : List Tuple :=
  ts.filter fun t => decide (predicateResult w schema t.values = .ok true)

/-- The plan asks for another row of the table when the rows `passed` are those that the filter has
let through: a sort or an aggregate asks for all of them, unless it has failed; a limit asks until it
has its tuples. -/
def Pulls (stmt : SelectStmt) (schema : Schema) (passed : List Tuple) : Prop :=
  if SelectList.aggregates stmt.items ≠ [] then
    SelectList.anyPlain stmt.items = false ∧
      ∃ row, aggregateRow (SelectList.aggregates stmt.items) schema passed = .ok row
  else
    match stmt.orderBy with
    | some orderBy => ∃ col, schema.indexOf orderBy.column = some col
    | none => ∀ k, stmt.limit = some k → (passed.length : Int) < k.toInt

section WhereError

variable {stmt : SelectStmt} {w : Expr} {schema : Schema} {before after : List Tuple} {t : Tuple}
  {e : Status} {during : Option Status} {passed : List Tuple}

/-- A filter ends at the first row on which its predicate fails. -/
theorem filterItems_fails
    (hbefore : ∀ p ∈ before, ∃ b, predicateResult w schema p.values = .ok b)
    (hfail : predicateResult w schema t.values = .error e) :
    filterItems w schema (before ++ t :: after) = (passing w schema before, some e) := by
  induction before with
  | nil =>
    rw [List.nil_append, filterItems, hfail]
    rfl
  | cons p before ih =>
    have hrest := ih fun p' hp' => hbefore p' (List.mem_cons_of_mem _ hp')
    obtain ⟨b, hb⟩ := hbefore p (List.mem_cons_self ..)
    rw [List.cons_append, filterItems, hb, hrest]
    cases b with
    | true => simp [passing, hb]
    | false => simp [passing, hb]

/-- What a plan answers whose source ends with an error. -/
theorem selectRows_fails (hpulls : Pulls stmt schema passed) :
    selectRows stmt schema ⟨passed, during, some e⟩ = .error e := by
  unfold Pulls at hpulls
  unfold selectRows
  split_ifs at hpulls ⊢ with hagg
  · obtain ⟨-, row, hrow⟩ := hpulls
    rw [aggregateRows, hrow]
  · unfold orderStream limitedStream
    cases horder : stmt.orderBy with
    | some orderBy =>
      rw [horder] at hpulls
      obtain ⟨col, hcol⟩ := hpulls
      unfold sortStream
      dsimp only
      rw [hcol]
      cases stmt.limit with
      | none => rfl
      | some k =>
        -- the sort has read everything, so the limit reports its error in any case
        unfold limitStream projectStream TupleStream.rows
        dsimp only
        rw [ite_self]
    | none =>
      rw [horder] at hpulls
      cases hlimit : stmt.limit with
      | none => rfl
      | some k =>
        have hlt := hpulls k hlimit
        have hnot : ¬ k.toInt.toNat ≤ (passed.map
            (projected (columnPlan schema stmt.items).indices)).length := by
          rw [List.length_map]
          omega
        unfold limitStream projectStream TupleStream.rows
        dsimp only
        rw [if_neg hnot]

theorem runPlan_fails {allow : Fault → Prop} {I : Database σ → Prop} {atEnd : Option Status}
    (hw : stmt.where? = some w)
    (hscan : Produces allow I (path.scan stmt.tableName) ⟨before ++ t :: after, during, atEnd⟩ db)
    (hdb : I db) (hfits : ∀ p ∈ before ++ t :: after, p.Fits schema)
    (hbefore : ∀ p ∈ before, ∃ b, predicateResult w schema p.values = .ok b)
    (hfail : predicateResult w schema t.values = .error e)
    (hpulls : Pulls stmt schema (passing w schema before)) :
    wp allow (runPlan stmt schema path) (fun r _ => r = .error e) db := by
  have hsource : Produces allow I (sourcePlan stmt schema path)
      ⟨passing w schema before, during, some e⟩ db := by
    have hstream : filterStream w schema ⟨before ++ t :: after, during, atEnd⟩
        = ⟨passing w schema before, during, some e⟩ := by
      rw [filterStream, filterItems_fails hbefore hfail]
      rfl
    rw [sourcePlan, hw, ← hstream]
    exact filter_produces hscan hfits
  have hpassed : ∀ p ∈ passing w schema before, p.Fits schema := fun p hp =>
    hfits p (List.mem_append_left _ (List.mem_filter.mp hp).1)
  refine Action.wp_mono ?_ (runPlan_wp hsource hdb hpassed)
  rintro r db' ⟨-, rfl⟩
  rw [selectResult, selectRows_fails hpulls]
  rfl

theorem not_mixed_of_pulls (h : Pulls stmt schema passed) :
    ¬ (SelectList.aggregates stmt.items ≠ [] ∧ SelectList.anyPlain stmt.items = true) := by
  rintro ⟨hagg, hplain⟩
  rw [Pulls, if_pos hagg, hplain] at h
  cases h.1

end WhereError

/-- The filter of the plan is handed the row `t` after the rows `before`, and its predicate fails on
it with the error `e` and on no row before. -/
structure FailsAt (w : Expr) (schema : Schema) (before : List Tuple) (t : Tuple) (e : Status) :
    Prop where
  before : ∀ p ∈ before, ∃ b, evaluatePredicate (some w) schema p.values = pure b
  fails : evaluatePredicate (some w) schema t.values = throw e

/-- **LIMIT returns the first rows.**  On any database, if a SELECT without aggregates and without a
LIMIT returns rows, then with `LIMIT k` it returns the first `k` of them.  And if the scan of a SELECT
hands out a row on which the WHERE clause fails, at a point where the plan still pulls rows, then the
SELECT returns that error, and so no rows. -/
theorem limit_returns_first (db : Database σ) (stmt : SelectStmt) :
    (SelectList.aggregates stmt.items = [] → stmt.limit = none → ∀ res db',
      execStatement db (.select stmt) = .ok (.ok res, db') → ∀ k : Int64,
        ∃ res' db'', execStatement db (.select (withLimit stmt k)) = .ok (.ok res', db'') ∧
          res'.rows = res.rows.take k.toInt.toNat ∧ res'.columnNames = res.columnNames) ∧
      ∀ (allow : Fault → Prop) (I : Database σ → Prop) w table path db₁ before t after during atEnd e,
        stmt.where? = some w → db.catalog.getTable stmt.tableName = some table →
        (chooseAccessPath stmt).exec db = .ok (.ok path, db₁) → I db₁ →
        Produces allow I (path.scan stmt.tableName) ⟨before ++ t :: after, during, atEnd⟩ db₁ →
        (∀ p ∈ before ++ t :: after, p.Fits table.schema) → FailsAt w table.schema before t e →
        Pulls stmt table.schema (passing w table.schema before) →
        Action.wp allow (execute (.select stmt)) (fun r _ => r = .error e) db := by
  refine ⟨fun hplain hnone res db' h => executeSelect_limit hplain hnone h, ?_⟩
  intro allow I w table path db₁ before t after during atEnd e hw htable hpath hdb hscan hfits hfails
    hpulls
  have hbefore : ∀ p ∈ before, ∃ b, predicateResult w table.schema p.values = .ok b := by
    intro p hp
    obtain ⟨b, hb⟩ := hfails.before p hp
    exact ⟨b, by rw [predicateResult, hb]; rfl⟩
  have hfail : predicateResult w table.schema t.values = .error e := by
    rw [predicateResult, hfails.fails]
    rfl
  have hplan := runPlan_fails hw hscan hdb hfits hbefore hfail hpulls
  show Action.wp allow (executeSelect stmt) _ db
  rw [executeSelect, Action.wp_bind]
  refine Action.wp_of_exec (requireSchema_exec htable) ?_
  rw [Action.post_ok, if_neg (not_mixed_of_pulls hpulls), Action.wp_bind]
  exact Action.wp_of_exec hpath hplan

/-- A table with three rows. -/
def threeRows : List (Statement × Result QueryResult) := [
  (.createTable ⟨lit "t", intColumn, intColumn_ne⟩,
    .ok { message := lit "CREATE TABLE" }),
  (.insert ⟨lit "t", [], [[.int64 1], [.int64 2], [.int64 3]]⟩,
    .ok { rowsAffected := 3, message := lit "INSERT 0 3" })]

/-- `SELECT * FROM t`. -/
def allRows : SelectStmt := ⟨.star, lit "t", none, none, none⟩

/-- `SELECT * FROM t WHERE a LIMIT 1`, where `a` is not a boolean. -/
def whereInteger : SelectStmt := ⟨.star, lit "t", some (.column (lit "a")), none, some 1⟩

/-- The access path of that SELECT, and the rows its scan reads. -/
def pathAndRows : Db Multimaps (AccessPath × List Row) := do
  let path ← chooseAccessPath whereInteger
  let rows ← TableManager.scan (lit "t")
  return (path, rows.map Prod.snd)

theorem limit_returns_first_threeRows : ∃ (db₀ db : Database Multimaps) (res : QueryResult)
    (db' : Database Multimaps), Database.create insertionOrder noTables ⟨[]⟩ = .ok db₀ ∧
    Runs.Run execStatement db₀ threeRows db ∧
    execStatement db (.select (withLimit allRows 2)) = .ok (.ok res, db') ∧
    res.rows = [[.int32 1], [.int32 2]] ∧
    Action.wp (fun _ => False) (execute (.select whereInteger)) (fun r _ => r = .error
      ⟨.invalidArgument, lit "WHERE clause did not evaluate to a boolean"⟩) db := by
  obtain ⟨db₀, db, hcreate, hrun, hcheck⟩ := exists_session (⟨[]⟩ : Multimaps) threeRows
    (fun db => decide ((answer (execStatement db (.select allRows))).map QueryResult.rows
        = some [[.int32 1], [.int32 2], [.int32 3]]) &&
      decide ((db.catalog.getTable (lit "t")).map TableMetadata.schema = some oneColumn) &&
      decide (answer (pathAndRows.exec db) = some (.seqScan, [[.int32 1], [.int32 2], [.int32 3]])))
    (by decide +kernel)
  simp only [Bool.and_eq_true, decide_eq_true_iff] at hcheck
  obtain ⟨⟨hall, htable⟩, hpath⟩ := hcheck
  obtain ⟨res, hres, hrows⟩ := Option.map_eq_some_iff.mp hall
  obtain ⟨db', hexec⟩ := answer_eq_some.mp hres
  obtain ⟨table, htable, hschema⟩ := Option.map_eq_some_iff.mp htable
  obtain ⟨dbEnd, hread⟩ := answer_eq_some.mp hpath
  obtain ⟨path, db₁, hpath, hrest⟩ := Action.exec_bind_eq_ok.mp hread
  obtain ⟨rows, db₂, hscan, hpure⟩ := Action.exec_bind_eq_ok.mp hrest
  obtain ⟨⟨rfl, hvalues⟩, -⟩ : (path = .seqScan ∧
      rows.map Prod.snd = [[.int32 1], [.int32 2], [.int32 3]]) ∧ db₂ = dbEnd := by
    simpa using hpure
  obtain ⟨first, after, rfl, hfirst, -⟩ := List.map_eq_cons_iff.mp hvalues
  have hfits : ∀ p ∈ [] ++ toTuple first :: after.map toTuple, p.Fits table.schema := by
    intro p hp
    obtain ⟨r, hr, rfl⟩ := List.mem_map.mp
      (show p ∈ (first :: after).map toTuple by simpa using hp)
    have hmem := List.mem_map_of_mem (f := Prod.snd) hr
    rw [hvalues] at hmem
    rw [Tuple.Fits, hschema]
    simp only [List.mem_cons, List.not_mem_nil, or_false] at hmem
    rcases hmem with h | h | h <;> rw [toTuple, h] <;> rfl
  have hfails : FailsAt (.column (lit "a")) table.schema [] (toTuple first)
      ⟨.invalidArgument, lit "WHERE clause did not evaluate to a boolean"⟩ := by
    refine ⟨nofun, ?_⟩
    rw [hschema, toTuple, hfirst]
    rfl
  obtain ⟨res', db'', hexec', hrows', -⟩ :=
    (limit_returns_first db allRows).1 rfl rfl res db' hexec 2
  refine ⟨db₀, db, res', db'', hcreate, hrun, hexec', by rw [hrows', hrows]; rfl, ?_⟩
  refine (limit_returns_first db whereInteger).2 (fun _ => False) (fun _ => True) _ table _ db₁ []
    (toTuple first) (after.map toTuple) none none _ rfl htable hpath trivial ?_ hfits hfails ?_
  · exact seqScan_produces_of_exec hscan trivial
  · rw [Pulls, if_neg (by decide)]
    intro k hk
    obtain rfl := Option.some.inj hk
    rw [passing, List.filter_nil]
    decide

end MiniDB.Executor
