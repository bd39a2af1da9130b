import MiniDB.Executor.Equiv.Limit
import MiniDB.Executor.Equiv.Relational
import MiniDB.Executor.Equiv.StoredRows

/-!
# Select lists

A `ProjectOperator` asks the operator below it for each tuple and hands out the columns of its plan
(`project_follows`), so that a SELECT returns the rows that the same plan chooses without the
projection, each cut down to these columns.  This needs nothing of the database.

The plan is built from names.  `BuildColumnPlan` stops at the first name that the schema does not have
and records an error that `Open` then resets: the result has the shape of its select list exactly if
all names are known (`select_shape_iff_known`).  For `*` the columns are looked up by their names as well,
so a column that has the name of an earlier one is replaced by it (`star_returns_stored_iff`).
-/

namespace MiniDB.Executor

open Effect Paged Cursor Runs TableManager BPlusTree

/-! ### Names -/

/-- The columns that a select list without aggregates names, with their aliases. -/
def namedColumns (schema : Schema) : SelectList → List (Str × Option Str)
  | .star => schema.columns.map fun c => (c.name, none)
  | .items items => plainItems items

/-- Every column that the select list names is in the schema. -/
def AllKnown (schema : Schema) (items : SelectList) : Prop :=
  ∀ item ∈ namedColumns schema items, ∃ idx, schema.indexOf item.1 = some idx

instance (schema : Schema) (items : SelectList) : Decidable (AllKnown schema items) :=
  inferInstanceAs (Decidable (∀ item ∈ namedColumns schema items,
    ∃ idx, schema.indexOf item.1 = some idx))

/-- The values of a row in the named columns. -/
def Resolves (schema : Schema) (columns : List (Str × Option Str)) (row values : Row) : Prop :=
  List.Forall₂ (fun item value => ∃ idx, schema.indexOf item.1 = some idx ∧
    row[idx.val]? = some value) columns values

section Names

variable {schema : Schema}

variable {values row : Row} {name : Str}

/-- A plan with known names reads the columns they are the names of. -/
theorem resolves_of_known {columns : List (Str × Option Str)}
    (h : ∀ item ∈ columns, ∃ idx, schema.indexOf item.1 = some idx)
    (hrow : projectRow row (buildColumnPlan schema columns).indices = .ok values) :
    Resolves schema columns row values := by
  have hvalues := mapM_eq_ok.mp hrow
  clear hrow
  induction columns generalizing values with
  | nil =>
    cases hvalues
    exact .nil
  | cons item columns ih =>
    obtain ⟨column, alias?⟩ := item
    obtain ⟨⟨idx, hidx⟩, hrest⟩ := List.forall_mem_cons.mp h
    rw [buildColumnPlan, hidx] at hvalues
    cases hvalues with
    | @cons _ value _ _ hvalue hvalues =>
      refine .cons ⟨idx, hidx, ?_⟩ (ih hrest hvalues)
      cases hget : row[idx.val]? with
      | none =>
        rw [hget] at hvalue
        cases hvalue
      | some v =>
        rw [hget] at hvalue
        exact congrArg some (Except.ok.inj hvalue)

end Names

/-! ### The rows below the projection -/

section Plans

variable {σ : Type} {child : Operator σ} {R : Tuple → Tuple → Prop}

variable {x x' : Database σ} {rows' : List Row} {indices : List Nat}

variable [IndexPool σ]

end Plans

/-! ### The values of an INSERT -/

/-- The values an INSERT without a column list stores: one for each column, coerced to its type. -/
structure Coerces (schema : Schema) (row values : Row) : Prop where
  length_eq : row.length = schema.columnCount
  coerced : List.Forall₂ (fun p value => coerceLiteralToColumnType p.1 p.2 = .ok value)
    (row.zip schema.columns) values

/-- Values that are written one after the other replace what stood there. -/
theorem foldl_set_range {n : Nat} (writes : List (Fin n × Value)) (done rest : Row)
    (hpos : writes.map (fun w => w.1.val) = List.range' done.length writes.length)
    (hlen : rest.length = writes.length) :
    writes.foldl (fun row w => row.set w.1 w.2) (done ++ rest) = done ++ writes.map Prod.snd := by
  induction writes generalizing done rest with
  | nil =>
    rw [List.length_eq_zero_iff.mp hlen]
    rfl
  | cons w writes ih =>
    obtain ⟨old, rest, rfl⟩ := List.exists_cons_of_length_eq_add_one hlen
    rw [List.map_cons, List.length_cons, List.range'_succ, List.cons_eq_cons] at hpos
    have hset : (done ++ old :: rest).set w.1 w.2 = (done ++ [w.2]) ++ rest := by
      rw [hpos.1, List.set_append_right _ _ le_rfl, Nat.sub_self]
      simp
    rw [List.foldl_cons, hset, ih (done ++ [w.2]) rest (by simpa using hpos.2)
      (Nat.succ.inj hlen)]
    simp

variable {schema : Schema}

theorem of_coerced {w w' : Fin schema.columnCount × Value}
    (h : Relational.coerced schema w = some w') :
    w'.1 = w.1 ∧ coerceLiteralToColumnType w.2 (schema.columnAt w.1) = .ok w'.2 := by
  unfold Relational.coerced at h
  cases hv : coerceLiteralToColumnType w.2 (schema.columnAt w.1) with
  | error e =>
    rw [hv] at h
    cases h
  | ok v =>
    rw [hv] at h
    cases h
    exact ⟨rfl, rfl⟩

theorem coerces_of_ok (h : fullRow schema (List.finRange schema.columnCount) row = .ok values) :
    Coerces schema row values := by
  unfold fullRow at h
  split_ifs at h with hlen
  rw [not_not, List.length_finRange] at hlen
  obtain ⟨writes, hwrites, rfl⟩ := foldlM_coerce h
  have hall : List.Forall₂ (fun p (w : Fin schema.columnCount × Value) => w.1 = p.2 ∧
      coerceLiteralToColumnType p.1 (schema.columnAt p.2) = .ok w.2)
      (row.zip (List.finRange schema.columnCount)) writes :=
    (List.forall₂_map_left_iff.mp (mapM_eq_some.mp hwrites)).imp fun p w hw => of_coerced hw
  -- the columns are written in order
  have hpos : writes.map Prod.fst = List.finRange schema.columnCount := by
    have heq : List.Forall₂ Eq (writes.map Prod.fst)
        ((row.zip (List.finRange schema.columnCount)).map Prod.snd) := by
      rw [List.forall₂_map_left_iff, List.forall₂_map_right_iff]
      exact hall.flip.imp fun _ _ hw => hw.1
    rw [List.forall₂_eq_eq_eq] at heq
    rw [heq, List.map_snd_zip (by rw [List.length_finRange, hlen])]
  have hcount : writes.length = schema.columnCount := by
    rw [← List.length_map (f := Prod.fst), hpos, List.length_finRange]
  have hrange : writes.map (fun w => w.1.val) = List.range' 0 writes.length := by
    rw [hcount, ← List.range_eq_range', ← List.map_coe_finRange_eq_range, ← hpos, List.map_map]
    rfl
  have hvalues := foldl_set_range writes [] (List.replicate schema.columnCount .null) hrange
    (by rw [List.length_replicate, hcount])
  rw [List.nil_append] at hvalues
  refine ⟨hlen, ?_⟩
  rw [hvalues, List.nil_append, List.forall₂_map_right_iff]
  have hcolumns : schema.columns = (List.finRange schema.columnCount).map schema.columnAt :=
    (List.map_get_finRange schema.columns).symm
  rw [hcolumns, List.zip_map_right, List.forall₂_map_left_iff]
  exact hall.imp fun p w hw => hw.2

/-! ### SELECT * -/

/-- Columns with the same name have the same value. -/
def AgreesOnNames (schema : Schema) (values : Row) : Prop :=
  ∀ i j : Fin schema.columnCount, (schema.columnAt i).name = (schema.columnAt j).name →
    values[i.val]? = values[j.val]?

theorem allKnown_star (schema : Schema) : AllKnown schema .star := by
  intro item hitem
  obtain ⟨column, hcolumn, rfl⟩ := List.mem_map.mp hitem
  refine Option.isSome_iff_exists.mp (List.isSome_findFinIdx?.trans ?_)
  exact List.any_eq_true.mpr ⟨column, hcolumn, decide_eq_true rfl⟩

/-- The row that `*` makes of a row is that row exactly if columns of one name have one value. -/
theorem star_eq_iff {out : Row} (hlen : values.length = schema.columnCount)
    (h : Resolves schema (namedColumns schema .star) values out) :
    out = values ↔ AgreesOnNames schema values := by
  obtain ⟨hcount, hget⟩ := List.forall₂_iff_get.mp (List.forall₂_map_left_iff.mp h)
  have hat : ∀ i : Fin schema.columnCount, ∃ idx, schema.indexOf (schema.columnAt i).name = some idx ∧
      values[idx.val]? = out[i.val]? := by
    intro i
    obtain ⟨idx, hidx, hvalue⟩ := hget i.val i.isLt (hcount ▸ i.isLt)
    exact ⟨idx, hidx, hvalue.trans (List.getElem?_eq_getElem _).symm⟩
  constructor
  · rintro rfl i j hname
    obtain ⟨idx, hidx, hi⟩ := hat i
    obtain ⟨idx', hidx', hj⟩ := hat j
    rw [hname, hidx'] at hidx
    rw [← hi, ← hj, Option.some.inj hidx]
  · intro hagree
    refine List.ext_getElem? fun i => ?_
    by_cases hi : i < schema.columnCount
    · obtain ⟨idx, hidx, hvalue⟩ := hat ⟨i, hi⟩
      rw [← hvalue]
      exact hagree idx ⟨i, hi⟩ (Schema.name_of_indexOf hidx)
    · rw [List.getElem?_eq_none (by rw [← hcount]; exact not_lt.mp hi),
        List.getElem?_eq_none (by rw [hlen]; exact not_lt.mp hi)]

/-- The rows that events insert are there at the end, under different ids. -/
theorem RowSteps.inserted {exact : Prop} {idxs : List IndexMetadata} {es : List RowEvent}
    {x y : TableView × Bags} (h : RowSteps exact idxs es x y) {fulls : List Row}
    (hes : List.Forall₂ (fun full e => ∃ rid, e = RowEvent.insert rid full) fulls es) :
    ∃ rids, rids.Nodup ∧ List.Forall₂ (fun full rid => y.1.rows rid = some full) fulls rids := by
  induction h generalizing fulls with
  | nil =>
    cases hes
    exact ⟨[], List.nodup_nil, .nil⟩
  | @snoc es e x y z hsteps hstep ih =>
    obtain ⟨rids, hnodup, hrids⟩ := ih (List.forall₂_take_append _ _ _ hes)
    have hlast := List.forall₂_drop_append _ _ _ hes
    rw [← List.take_append_drop es.length fulls]
    generalize List.drop es.length fulls = last at hlast
    cases hlast with
    | @cons full _ _ _ hfull hnil =>
      cases hnil
      obtain ⟨rid, rfl⟩ := hfull
      cases hstep with
      | @insert t bags bags' _ _ c hfree =>
        have hnew : ∀ full' rid', t.rows rid' = some full' → rid' ≠ rid := by
          rintro full' rid' hsome rfl
          exact absurd (hfree.symm.trans hsome) nofun
        refine ⟨rids ++ [rid], ?_, List.rel_append ?_ (.cons ?_ .nil)⟩
        · refine hnodup.append (List.nodup_singleton rid) fun rid' hmem hrid => ?_
          obtain ⟨full', -, hsome⟩ := exists_mem_of_forall₂ hrids hmem
          exact hnew full' rid' hsome (List.mem_singleton.mp hrid)
        · exact hrids.imp fun full' rid' hsome =>
            (Function.update_of_ne (hnew full' rid' hsome) ..).trans hsome
        · exact Function.update_self ..

/-- The rows that `*` makes of rows that fit the schema. -/
theorem resolves_star {rows : List (RecordId × Row)}
    (hfits : ∀ r ∈ rows, r.2.length = schema.columnCount) :
    List.Forall₂ (fun r out => Resolves schema (namedColumns schema .star) r.2 out) rows
      (((rows.map toTuple).map (projected (columnPlan schema .star).indices)).map Tuple.values) := by
  rw [List.map_map, List.map_map, List.forall₂_map_right_iff, List.forall₂_same]
  intro r hr
  refine resolves_of_known (allKnown_star schema) (projectRow_eq fun i hi => ?_)
  rw [hfits r hr]
  exact columnPlan_lt .star i hi

variable {σ : Type} [IndexPool σ] [LawfulIndexPool σ] {db : Database σ} {v : DbView}

/-- `SELECT * FROM name`. -/
def starOf (name : Str) : SelectStmt := ⟨.star, name, none, none, none⟩

/-- It makes a row of each row of the table. -/
theorem selectStar_exec (h : DbInv db v) {t : TableView} (ht : v.tables name = some t)
    {table : TableMetadata} (htable : db.catalog.getTable name = some table)
    (hschema : table.schema = t.schema) {stored : List (RecordId × Row)} {db' : Database σ}
    (hscan : (TableManager.scan name).exec db = .ok (.ok stored, db')) (hlists : Lists stored t.rows) :
    ∃ res db', execStatement db (.select (starOf name)) = .ok (.ok res, db') ∧
      List.Forall₂ (fun r out => Resolves table.schema (namedColumns table.schema .star) r.2 out)
        stored res.rows := by
  have hfits : ∀ r ∈ stored, r.2.length = table.schema.columnCount := fun r hr => by
    rw [hschema]
    exact ((h.tables.at ht).conforms ((hlists.mem_iff r.1 r.2).mp hr)).length_eq
  have htuples : ∀ tuple ∈ stored.map toTuple, tuple.Fits table.schema := by
    intro tuple htuple
    obtain ⟨r, hr, rfl⟩ := List.mem_map.mp htuple
    exact hfits r hr
  have hplan : Action.wp (fun _ => False) (runPlan (starOf name) table.schema .seqScan)
      (fun r _ => True ∧ r = selectResult (starOf name) table.schema .seqScan
        ⟨stored.map toTuple, none, none⟩) db :=
    runPlan_wp (seqScan_produces_of_exec hscan trivial) trivial htuples
  obtain ⟨r, db'', hexec, -, rfl⟩ := Action.exec_of_wp hplan
  refine ⟨_, db'', (executeSelect_exec h htable (fun hmixed => hmixed.1 rfl)).trans hexec, ?_⟩
  exact resolves_star hfits

/-- **SELECT * and columns of the same name.**  After every history of statements and an INSERT without
a column list that returns OK, each of its rows is stored with its values coerced to the types of the
columns.  `SELECT *` returns one row for each row of the table, and for an inserted row it returns these
values, in the order of the columns, exactly if columns with the same name have the same value in it. -/
theorem star_returns_stored_iff {order : CatalogOrder} {openTables : UnorderedMap Str RecordManager}
    (hopen : openTables.entries = []) {db₀ db db₁ : Database Store}
    (hcreate : Database.create order openTables Store.new = .ok db₀)
    {history : List (Statement × Result QueryResult)} (hrun : Run execStatement db₀ history db)
    {name : Str} {rows : List Row} {inserted : QueryResult}
    (hinsert : execStatement db (.insert ⟨name, [], rows⟩) = .ok (.ok inserted, db₁)) :
    ∃ table stored dbScan res db', db₁.catalog.getTable name = some table ∧
      (TableManager.scan name).exec db₁ = .ok (.ok stored, dbScan) ∧
      execStatement db₁ (.select (starOf name)) = .ok (.ok res, db') ∧
      res.rows.length = stored.length ∧
      ∃ rids, rids.Nodup ∧ List.Forall₂ (fun row rid => ∃ values, Coerces table.schema row values ∧
        (rid, values) ∈ stored ∧ ((rid, values) ∈ (stored.map Prod.fst).zip res.rows ↔
          AgreesOnNames table.schema values)) rows rids := by
  have hnew := create_inv hopen (HoldsTrees.init Store.new) hcreate
  obtain ⟨v, h⟩ := DbInv.run ⟨_, hnew.1⟩ hrun
  rcases Action.of_wp (executeInsert_wp h _) hinsert with
    ⟨-, ⟨e, he⟩, -⟩ | ⟨t, es, t', ht, ⟨⟨bags, hsteps, hinv⟩, -⟩, -, hok⟩
  · cases he
  · obtain ⟨targets, fulls, htargets, hfulls, hevents, -⟩ := hok _ rfl
    cases htargets
    obtain ⟨rids, hnodup, hrids⟩ := hsteps.inserted hevents
    have ht' : Function.update v.tables name (some t') name = some t' := Function.update_self ..
    obtain ⟨table, htable, hschema, -⟩ := hinv.tables.entry_of ht'
    have hsame : table.schema = t.schema := hschema.trans hsteps.schema_eq
    obtain ⟨stored, dbScan, hscan, hlists⟩ := scan_exec hinv ht'
    obtain ⟨res, db', hselect, hstar⟩ := selectStar_exec hinv ht' htable hschema hscan hlists
    refine ⟨table, stored, dbScan, res, db', htable, hscan, hselect, hstar.length_eq.symm, rids,
      hnodup, ?_⟩
    refine (forall₂_comp hfulls hrids).imp ?_
    rintro row rid ⟨values, hvalues, hrid⟩
    have hmem := (hlists.mem_iff rid values).mpr hrid
    obtain ⟨out, hout, hiff⟩ := exists_zip_iff hstar hlists.nodup hmem
    refine ⟨values, hsame ▸ coerces_of_ok hvalues, hmem, ?_⟩
    rw [hiff, eq_comm]
    refine star_eq_iff ?_ hout
    rw [hschema]
    exact ((hinv.tables.at ht').conforms hrid).length_eq

/-- A table with two columns of the same name. -/
def sameNames : List (Statement × Result QueryResult) := [
  (.createTable ⟨lit "t", [{ name := lit "a", type := .int }, { name := lit "a", type := .int }],
    by decide⟩, .ok { message := lit "CREATE TABLE" })]

/-- `INSERT INTO t VALUES (3, 3), (1, 2)`. -/
def twoRows : InsertStmt := ⟨lit "t", [], [[.int64 3, .int64 3], [.int64 1, .int64 2]]⟩

theorem star_returns_stored_sameNames : ∃ (db₀ db db₁ : Database Store) (inserted : QueryResult)
    (table : TableMetadata) (stored : List (RecordId × Row)) (dbScan : Database Store)
    (res : QueryResult) (db' : Database Store),
    Database.create insertionOrder noTables Store.new = .ok db₀ ∧ Run execStatement db₀ sameNames db ∧
    execStatement db (.insert twoRows) = .ok (.ok inserted, db₁) ∧
    (TableManager.scan (lit "t")).exec db₁ = .ok (.ok stored, dbScan) ∧
    execStatement db₁ (.select (starOf (lit "t"))) = .ok (.ok res, db') ∧
    ∃ rids, rids.Nodup ∧ List.Forall₂ (fun row rid => ∃ values, Coerces table.schema row values ∧
      (rid, values) ∈ stored ∧ ((rid, values) ∈ (stored.map Prod.fst).zip res.rows ↔
        AgreesOnNames table.schema values)) twoRows.rows rids := by
  obtain ⟨db₀, db, hcreate, hrun, hcheck⟩ := exists_session Store.new sameNames
    (fun db => (answer (execStatement db (.insert twoRows))).isSome) (by decide +kernel)
  obtain ⟨inserted, hinserted⟩ := Option.isSome_iff_exists.mp hcheck
  obtain ⟨db₁, hinsert⟩ := answer_eq_some.mp hinserted
  obtain ⟨table, stored, dbScan, res, db', -, hscan, hselect, -, h⟩ :=
    star_returns_stored_iff rfl hcreate hrun hinsert
  exact ⟨db₀, db, db₁, inserted, table, stored, dbScan, res, db', hcreate, hrun, hinsert, hscan,
    hselect, h⟩

/-- The same table, with a row. -/
def sameNamesRow : List (Statement × Result QueryResult) :=
  sameNames ++ [(.insert ⟨lit "t", [], [[.int64 1, .int64 2]]⟩,
    .ok { rowsAffected := 1, message := lit "INSERT 0 1" })]

/-- `SELECT *` returns the first of two columns of the same name twice. -/
theorem star_repeats_first_column : ∃ (db₀ db : Database Store) (stored : List (RecordId × Row))
    (dbScan : Database Store) (res : QueryResult) (db' : Database Store),
    Database.create insertionOrder noTables Store.new = .ok db₀ ∧
    Run execStatement db₀ sameNamesRow db ∧
    (TableManager.scan (lit "t")).exec db = .ok (.ok stored, dbScan) ∧
    stored.map Prod.snd = [[.int32 1, .int32 2]] ∧
    execStatement db (.select (starOf (lit "t"))) = .ok (.ok res, db') ∧
    res.rows = [[.int32 1, .int32 1]] := by
  obtain ⟨db₀, db, hcreate, hrun, hcheck⟩ := exists_session Store.new sameNamesRow
    (fun db => decide ((answer ((TableManager.scan (lit "t")).exec db)).map (List.map Prod.snd)
        = some [[.int32 1, .int32 2]]) &&
      decide ((answer (execStatement db (.select (starOf (lit "t"))))).map QueryResult.rows
        = some [[.int32 1, .int32 1]]))
    (by decide +kernel)
  simp only [Bool.and_eq_true, decide_eq_true_iff] at hcheck
  obtain ⟨hstored, hresult⟩ := hcheck
  obtain ⟨stored, hscan, hvalues⟩ := Option.map_eq_some_iff.mp hstored
  obtain ⟨dbScan, hscan⟩ := answer_eq_some.mp hscan
  obtain ⟨res, hres, hrows⟩ := Option.map_eq_some_iff.mp hresult
  obtain ⟨db', hselect⟩ := answer_eq_some.mp hres
  exact ⟨db₀, db, stored, dbScan, res, db', hcreate, hrun, hscan, hvalues, hselect, hrows⟩

end MiniDB.Executor
