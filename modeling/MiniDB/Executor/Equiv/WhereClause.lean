import MiniDB.Executor.Equiv.Atomicity
import MiniDB.Executor.Equiv.Projection

/-!
# The WHERE clause of SELECT, UPDATE and DELETE

A SELECT reports the error of the first row on which its WHERE clause fails.  The visitor of UPDATE and
DELETE takes such a row for one that does not match and goes on (`matchingRows_eq`), so that these
statements change the other rows and return OK.  Where the clause evaluates on every row of the table
the three agree: `where_agrees_iff`.

What UPDATE and DELETE do is told on listings of the table: every event takes a row out of the listing
or puts another one in its place (`RowSteps.listed`).
-/

namespace MiniDB.Executor

open Effect Paged Cursor Runs TableManager BPlusTree
open Relational (satisfies)

/-! ### Events on listings -/

section Listings

variable {exact : Prop} {idxs : List IndexMetadata} {e : RowEvent} {es : List RowEvent}
  {x y : TableView × Bags} {before after : List (RecordId × Row)} {m : RecordId × Row}

/-- If each event puts other pairs in the place of a row, a list of events does so one by one. -/
theorem RowSteps.listed {Ev : RecordId × Row → RowEvent → Prop}
    {Out : RecordId × Row → List (RecordId × Row) → Prop}
    (hstep : ∀ m e x y, Ev m e → RowStep exact idxs e x y → ∃ out, Out m out ∧
      ∀ before after, Lists (before ++ m :: after) x.1.rows → Lists (before ++ out ++ after) y.1.rows)
    (h : RowSteps exact idxs es x y) {ms : List (RecordId × Row)} (hes : List.Forall₂ Ev ms es) :
    ∃ outs, List.Forall₂ Out ms outs ∧
      ∀ rest, Lists (ms ++ rest) x.1.rows → Lists (outs.flatten ++ rest) y.1.rows := by
  induction h generalizing ms with
  | nil =>
    cases hes
    exact ⟨[], .nil, fun _ hrest => hrest⟩
  | @snoc es e x y z _ hlast ih =>
    obtain ⟨outs, houts, hlists⟩ := ih (List.forall₂_take_append _ _ _ hes)
    have hend := List.forall₂_drop_append _ _ _ hes
    rw [← List.take_append_drop es.length ms]
    generalize List.drop es.length ms = last at hend
    cases hend with
    | @cons m _ _ _ hm hnil =>
      cases hnil
      obtain ⟨out, hout, hput⟩ := hstep m e y z hm hlast
      refine ⟨outs ++ [out], List.rel_append houts (.cons hout .nil), fun rest hrest => ?_⟩
      rw [List.append_assoc, List.singleton_append] at hrest
      rw [List.flatten_append, List.flatten_singleton]
      exact hput _ _ (hlists _ hrest)

/-- A deleted row is taken out of the listing. -/
theorem RowStep.listed_delete (h : RowStep exact idxs (.delete m.1 m.2) x y)
    (hlists : Lists (before ++ m :: after) x.1.rows) : Lists (before ++ after) y.1.rows := by
  cases h with
  | delete hold => exact hlists.remove

/-- A replaced row gives its place to the new one. -/
theorem RowStep.listed_replace {rid' : RecordId} {new : Row}
    (h : RowStep exact idxs (.replace m.1 m.2 rid' new) x y)
    (hlists : Lists (before ++ m :: after) x.1.rows) :
    Lists (before ++ (rid', new) :: after) y.1.rows := by
  cases h with
  | replace hold _ _ _ hfree =>
    exact (hlists.remove.insert (update_none_of_free hfree) new).of_perm List.perm_middle.symm

end Listings

/-! ### SELECT -/

/-- The rows on which the clause is true. -/
def selected (w : Expr) (schema : Schema) (stored : List (RecordId × Row)) :
    List (RecordId × Row) := stored.filter fun r => satisfies (some w) schema r.2

/-- The other rows. -/
def unselected (w : Expr) (schema : Schema) (stored : List (RecordId × Row)) :
    List (RecordId × Row) := stored.filter fun r => !satisfies (some w) schema r.2

/-- The clause evaluates on the row. -/
def Evaluates (w : Expr) (schema : Schema) (row : Row) : Prop :=
  ∃ b, evaluatePredicate (some w) schema row = pure b

instance (w : Expr) (schema : Schema) (row : Row) : Decidable (Evaluates w schema row) :=
  decidable_of_iff ((evaluatePredicate (some w) schema row).run.toOption.any fun r => r.isOk) <| by
    unfold Evaluates
    generalize evaluatePredicate (some w) schema row = x
    rcases x with f | e | b
    · exact ⟨(fun h => nomatch h), (fun ⟨_, h⟩ => nomatch h)⟩
    · exact ⟨(fun h => nomatch h), (fun ⟨_, h⟩ => nomatch h)⟩
    · exact iff_of_true rfl ⟨b, rfl⟩

/-- `SELECT * FROM name WHERE w`. -/
def starWhere (name : Str) (w : Expr) : SelectStmt := ⟨.star, name, some w, none, none⟩

section Clause

variable {w : Expr} {schema : Schema}

variable {row : Row}

theorem evaluates_iff (h : row.length = schema.columnCount) :
    Evaluates w schema row ↔ ∃ b, predicateResult w schema row = .ok b := by
  unfold Evaluates
  rw [evaluatePredicate_eq h]
  cases predicateResult w schema row with
  | error e => exact ⟨(fun ⟨_, h⟩ => nomatch h), (fun ⟨_, h⟩ => nomatch h)⟩
  | ok b => exact iff_of_true ⟨b, rfl⟩ ⟨b, rfl⟩

theorem passes_toTuple (r : RecordId × Row) :
    passes w schema (toTuple r) = satisfies (some w) schema r.2 := by
  unfold passes predicateResult satisfies toTuple
  rcases (evaluatePredicate (some w) schema r.2).run with f | e | b
  · rfl
  · rfl
  · cases b <;> rfl

theorem filter_toTuple (stored : List (RecordId × Row)) :
    (stored.map toTuple).filter (passes w schema) = (selected w schema stored).map toTuple := by
  rw [List.filter_map, selected]
  congr 1
  exact List.filter_congr fun r _ => passes_toTuple r

end Clause

variable {σ : Type} [IndexPool σ] [LawfulIndexPool σ] {db db' : Database σ} {v : DbView} {name : Str}
  {t t' : TableView} {w : Expr} {stored : List (RecordId × Row)} {table : TableMetadata}
  {r : Result QueryResult}

/-- What a SELECT answers that reads the table in its order. -/
theorem selectWhere_exec (h : DbInv db v) (ht : v.tables name = some t)
    (htable : db.catalog.getTable name = some table) (hschema : table.schema = t.schema)
    (hindexes : db.catalog.getIndexesForTable name = [])
    (hscan : (TableManager.scan name).exec db = .ok (.ok stored, db')) (hlists : Lists stored t.rows) :
    ∃ r db', execStatement db (.select (starWhere name w)) = .ok (r, db') ∧
      ((∀ m ∈ stored, Evaluates w table.schema m.2) → ∃ res, r = .ok res ∧
        List.Forall₂ (fun m out => Resolves table.schema (namedColumns table.schema .star) m.2 out)
          (selected w table.schema stored) res.rows) ∧
      ((∃ m ∈ stored, ¬ Evaluates w table.schema m.2) → ∃ e, r = .error e) := by
  have hfits : ∀ m ∈ stored, m.2.length = table.schema.columnCount := fun m hm => by
    rw [hschema]
    exact ((h.tables.at ht).conforms ((hlists.mem_iff m.1 m.2).mp hm)).length_eq
  have htuples : ∀ tuple ∈ stored.map toTuple, tuple.Fits table.schema := by
    intro tuple htuple
    obtain ⟨m, hm, rfl⟩ := List.mem_map.mp htuple
    exact hfits m hm
  have hpath : accessPath (chooseIndex (db.catalog.getIndexesForTable name) (some w)) = .seqScan := by
    rw [hindexes]
    cases hchoice : chooseIndex [] (some w) with
    | none => rfl
    | some c => exact absurd (chooseIndex_some hchoice).1 List.not_mem_nil
  have hsource : Produces (fun _ => False) (fun _ => True)
      (sourcePlan (starWhere name w) table.schema .seqScan)
      (filterStream w table.schema ⟨stored.map toTuple, none, none⟩) db :=
    sourcePlan_produces rfl (seqScan_produces_of_exec hscan trivial) htuples
  obtain ⟨_, db'', hplan, -, rfl⟩ := Action.exec_of_wp (runPlan_wp hsource trivial fun tuple hmem =>
    htuples tuple ((filterItems_sublist w table.schema _).subset hmem))
  have hselect : (executeSelect (starWhere name w)).exec db = (runPlan (starWhere name w) table.schema
      (accessPath (chooseIndex (db.catalog.getIndexesForTable name) (some w)))).exec db :=
    executeSelect_exec h htable fun hmixed => hmixed.1 rfl
  rw [hpath] at hselect
  refine ⟨_, db'', hselect.trans hplan, fun hall => ?_, fun ⟨m, hm, hfail⟩ => ?_⟩
  · have hitems : filterItems w table.schema (stored.map toTuple)
        = ((selected w table.schema stored).map toTuple, none) := by
      rw [← filter_toTuple]
      refine filterItems_eq fun tuple htuple => ?_
      obtain ⟨m, hm, rfl⟩ := List.mem_map.mp htuple
      exact (evaluates_iff (hfits m hm)).mp (hall m hm)
    rw [filterStream, hitems]
    exact ⟨_, rfl, resolves_star fun m hm => hfits m (List.mem_filter.mp hm).1⟩
  · cases herror : (filterItems w table.schema (stored.map toTuple)).2 with
    | none =>
      refine absurd ((evaluates_iff (hfits m hm)).mpr ?_) hfail
      exact filterItems_none herror (toTuple m) (List.mem_map_of_mem hm)
    | some e =>
      rw [filterStream, herror]
      exact ⟨e, rfl⟩

/-! ### DELETE and UPDATE -/

/-- What a DELETE does to the rows `stored` of the table: the selected rows are gone, the others are as
they were. -/
def DeletesSelected (w : Expr) (schema : Schema) (stored : List (RecordId × Row)) (name : Str)
    (r : Result QueryResult) (db' : Database σ) : Prop :=
  ∃ res left dbScan, r = .ok res ∧ res.rowsAffected = (selected w schema stored).length ∧
    (TableManager.scan name).exec db' = .ok (.ok left, dbScan) ∧
    left.Perm (unselected w schema stored)

/-- What an UPDATE does to them: if it returns OK, each selected row has the assigned values, and in any
case the others are as they were. -/
def UpdatesSelected (w : Expr) (schema : Schema) (stored : List (RecordId × Row)) (name : Str)
    (assigns : List (Str × Value)) (r : Result QueryResult) (db' : Database σ) : Prop :=
  ∃ left dbScan, (TableManager.scan name).exec db' = .ok (.ok left, dbScan) ∧
    unselected w schema stored ⊆ left ∧
    ∀ res, r = .ok res → res.rowsAffected = (selected w schema stored).length ∧
      ∃ writes moved, resolveAssignments schema assigns = .ok writes ∧
        List.Forall₂ (fun m m' => m'.2 = assigned writes m.2) (selected w schema stored) moved ∧
        left.Perm (moved ++ unselected w schema stored)

/-- A statement that deals with the selected rows of a listing, one event for each, and leaves the
others alone. -/
theorem After.listed {es : List RowEvent} (hafter : After db v name t es t' db')
    {rows : List (RecordId × Row)} (hrows : Lists rows t.rows) (hlists : Lists stored t.rows)
    {E : RecordId × Row → RowEvent → Prop} {O : RecordId × Row → List (RecordId × Row) → Prop}
    (hstep : ∀ m e x y, E m e →
      RowStep (LawfulIndexPool.exact σ) (db.catalog.getIndexesForTable name) e x y → ∃ out, O m out ∧
      ∀ before after, Lists (before ++ m :: after) x.1.rows → Lists (before ++ out ++ after) y.1.rows)
    (hes : List.Forall₂ E (selected w t.schema rows) es) :
    ∃ left dbScan outs, (TableManager.scan name).exec db' = .ok (.ok left, dbScan) ∧
      List.Forall₂ O (selected w t.schema stored) outs ∧
      left.Perm (outs.flatten ++ unselected w t.schema stored) := by
  obtain ⟨⟨bags, hsteps, hinv⟩, -⟩ := hafter
  obtain ⟨left, dbScan, hscan, hleft⟩ := scan_exec hinv (Function.update_self ..)
  obtain ⟨outs, houts, hput⟩ := hsteps.listed hstep hes
  have hperm := hrows.perm hlists
  -- the rows may have been visited in another order
  obtain ⟨outs', houts', hsame⟩ := List.perm_comp_forall₂ (hperm.symm.filter _) houts
  refine ⟨left, dbScan, outs', hscan, houts', ?_⟩
  have hsplit : Lists (selected w t.schema rows ++ unselected w t.schema rows) t.rows :=
    hrows.of_perm (List.filter_append_perm _ rows).symm
  exact (hleft.perm (hput _ hsplit)).trans (hsame.symm.flatten.append (hperm.filter _))

theorem deletesSelected (h : DbInv db v) (ht : v.tables name = some t) (hlists : Lists stored t.rows)
    (hexec : execStatement db (.delete ⟨name, some w⟩) = .ok (r, db')) :
    DeletesSelected w t.schema stored name r db' := by
  rcases Action.of_wp (executeDelete_wp h _) hexec with
    ⟨hnone, -, -⟩ | ⟨t₀, t', rows, ht₀, hrows, hafter, res, rfl, hcount⟩
  · exact absurd (ht.symm.trans hnone) nofun
  · obtain rfl := Option.some.inj (ht.symm.trans ht₀)
    obtain ⟨left, dbScan, outs, hscan, houts, hleft⟩ := hafter.listed hrows hlists
      (E := fun m e => e = .delete m.1 m.2) (O := fun _ out => out = []) (by
        rintro m _ x y rfl hstep
        refine ⟨[], rfl, fun before after hbefore => ?_⟩
        rw [List.append_nil]
        exact hstep.listed_delete hbefore)
      (List.forall₂_map_right_iff.mpr (List.forall₂_same.mpr fun _ _ => rfl))
    have hflat : outs.flatten = [] := List.flatten_eq_nil_iff.mpr fun out hout => by
      obtain ⟨m, -, hnil⟩ := exists_mem_of_forall₂ houts hout
      exact hnil
    rw [hflat, List.nil_append] at hleft
    exact ⟨res, left, dbScan, rfl, hcount.trans ((hrows.perm hlists).filter _).length_eq, hscan, hleft⟩

/-- One pair in the place of each row. -/
theorem forall₂_flatten {A B : Type} {R : A → B → Prop} {as : List A} {bss : List (List B)}
    (h : List.Forall₂ (fun a bs => ∃ b, bs = [b] ∧ R a b) as bss) :
    List.Forall₂ R as bss.flatten := by
  induction h with
  | nil => exact .nil
  | cons hb _ ih =>
    obtain ⟨b, rfl, hR⟩ := hb
    exact .cons hR ih

/-- A row that does not match stays under an UPDATE, whatever its outcome. -/
theorem After.keeps_unselected {es : List RowEvent} {stmt : UpdateStmt}
    (hafter : After db v name t es t' db') (hes : ∀ e ∈ es, UpdateEvent stmt t e) {rid : RecordId}
    (hrow : t.rows rid = some row) (hnot : satisfies stmt.where? t.schema row = false) :
    t'.rows rid = some row := by
  obtain ⟨⟨bags', hsteps, -⟩, -⟩ := hafter
  refine hsteps.invariant (P := fun z => z.1.rows rid = some row) (A := UpdateEvent stmt t) ?_ hes hrow
  intro e x y he hstep hx
  have hne : ∀ m : RecordId × Row, t.rows m.1 = some m.2 →
      satisfies stmt.where? t.schema m.2 = true → rid ≠ m.1 := by
    rintro m hm hmatch rfl
    obtain rfl := Option.some.inj (hrow.symm.trans hm)
    rw [hnot] at hmatch
    cases hmatch
  rcases he with rfl | ⟨assignments, m, -, hm, hmatch, rfl | ⟨rid', rfl⟩⟩
  · cases hstep
    exact hx
  · cases hstep
    exact (Function.update_of_ne (hne m hm hmatch) ..).trans hx
  · cases hstep with
    | replace hold _ _ _ hfree => exact replaced_other hfree (hne m hm hmatch) hx

theorem updatesSelected (h : DbInv db v) (ht : v.tables name = some t) (hlists : Lists stored t.rows)
    {assigns : List (Str × Value)}
    (hexec : execStatement db (.update ⟨name, assigns, some w⟩) = .ok (r, db')) :
    UpdatesSelected w t.schema stored name assigns r db' := by
  rcases Action.of_wp (executeUpdate_wp h _) hexec with
    ⟨hnone, -, -⟩ | ⟨t₀, es, t', ht₀, hafter, hes, hok⟩
  · exact absurd (ht.symm.trans hnone) nofun
  · obtain rfl := Option.some.inj (ht.symm.trans ht₀)
    have hinv := hafter.steps
    obtain ⟨bags, -, hinv⟩ := hinv
    obtain ⟨left, dbScan, hscan, hleft⟩ := scan_exec hinv (Function.update_self ..)
    refine ⟨left, dbScan, hscan, fun m hm => ?_, fun res hres => ?_⟩
    · obtain ⟨hmem, hnot⟩ := List.mem_filter.mp hm
      refine (hleft.mem_iff m.1 m.2).mpr (hafter.keeps_unselected hes ?_ ?_)
      · exact (hlists.mem_iff m.1 m.2).mp hmem
      · simpa using hnot
    · obtain ⟨writes, rows, hrows, hwrites, hevents, hcount⟩ := hok res hres
      obtain ⟨left', dbScan', outs, hscan', houts, hperm⟩ := hafter.listed hrows hlists
        (O := fun m out => ∃ m', out = [m'] ∧ m'.2 = assigned writes m.2) (by
          rintro m _ x y ⟨rid', rfl⟩ hstep
          refine ⟨[(rid', assigned writes m.2)], ⟨_, rfl, rfl⟩, fun before after hbefore => ?_⟩
          rw [List.append_assoc, List.singleton_append]
          exact hstep.listed_replace hbefore) hevents
      cases hscan.symm.trans hscan'
      exact ⟨hcount.trans ((hrows.perm hlists).filter _).length_eq, writes, outs.flatten, hwrites,
        forall₂_flatten houts, hperm⟩

/-! ### Agreement -/

/-- UPDATE and DELETE agree with SELECT on the WHERE clause `w`: if the SELECT returns rows, they act on
exactly these; if it returns an error, so do they, and they change nothing. -/
structure AgreesWithSelect (db : Database σ) (name : Str) (schema : Schema)
    (stored : List (RecordId × Row)) (w : Expr) (assigns : List (Str × Value)) : Prop where
  rows : ∀ res dbSelect, execStatement db (.select (starWhere name w)) = .ok (.ok res, dbSelect) →
    List.Forall₂ (fun m out => Resolves schema (namedColumns schema .star) m.2 out)
      (selected w schema stored) res.rows ∧
    (∀ r db', execStatement db (.delete ⟨name, some w⟩) = .ok (r, db') →
      DeletesSelected w schema stored name r db') ∧
    ∀ r db', execStatement db (.update ⟨name, assigns, some w⟩) = .ok (r, db') →
      UpdatesSelected w schema stored name assigns r db'
  errors : ∀ e dbSelect, execStatement db (.select (starWhere name w)) = .ok (.error e, dbSelect) →
    (∃ e' db', execStatement db (.delete ⟨name, some w⟩) = .ok (.error e', db') ∧
      SameContents name db db') ∧
    ∃ e' db', execStatement db (.update ⟨name, assigns, some w⟩) = .ok (.error e', db') ∧
      SameContents name db db'

theorem DbInv.agrees_iff (h : DbInv db v) (htable : db.catalog.getTable name = some table)
    (hindexes : db.catalog.getIndexesForTable name = []) (w : Expr) (assigns : List (Str × Value)) :
    ∃ stored dbScan, (TableManager.scan name).exec db = .ok (.ok stored, dbScan) ∧
      (AgreesWithSelect db name table.schema stored w assigns ↔
        ∀ m ∈ stored, Evaluates w table.schema m.2) := by
  obtain ⟨t, ht, hschema, -⟩ := h.tables.entry htable
  obtain ⟨stored, dbScan, hscan, hlists⟩ := scan_exec h ht
  obtain ⟨r, dbSelect, hselect, hok, hfail⟩ :=
    selectWhere_exec (w := w) h ht htable hschema hindexes hscan hlists
  refine ⟨stored, dbScan, hscan, fun hagrees => ?_, fun hall => ?_⟩
  · by_contra hnot
    push Not at hnot
    obtain ⟨e, rfl⟩ := hfail hnot
    -- a DELETE from a table that exists does not return an error
    obtain ⟨⟨e', db', hdelete, -⟩, -⟩ := hagrees.errors e dbSelect hselect
    obtain ⟨res, -, -, hres, -⟩ := deletesSelected h ht hlists hdelete
    cases hres
  · obtain ⟨res, rfl, hrows⟩ := hok hall
    rw [hschema] at hrows ⊢
    refine ⟨fun res' dbSelect' hselect' => ?_, fun e dbSelect' hselect' => ?_⟩
    · cases hselect.symm.trans hselect'
      exact ⟨hrows, fun r db' hdelete => deletesSelected h ht hlists hdelete,
        fun r db' hupdate => updatesSelected h ht hlists hupdate⟩
    · cases hselect.symm.trans hselect'

/-- **UPDATE and DELETE agree with SELECT exactly if the clause evaluates on every row.**  After every
history of statements, take a table without indexes, a WHERE clause and the assignments of an UPDATE.
UPDATE and DELETE act on the rows that `SELECT *` returns, and return an error without changing anything
if the SELECT returns one, if and only if the clause evaluates on all rows of the table. -/
theorem where_agrees_iff {order : CatalogOrder} {openTables : UnorderedMap Str RecordManager}
    (hopen : openTables.entries = []) {db₀ db : Database Store}
    (hcreate : Database.create order openTables Store.new = .ok db₀)
    {history : List (Statement × Result QueryResult)} (hrun : Run execStatement db₀ history db)
    {name : Str} {table : TableMetadata} (htable : db.catalog.getTable name = some table)
    (hindexes : db.catalog.getIndexesForTable name = []) (w : Expr) (assigns : List (Str × Value)) :
    ∃ stored dbScan, (TableManager.scan name).exec db = .ok (.ok stored, dbScan) ∧
      (AgreesWithSelect db name table.schema stored w assigns ↔
        ∀ m ∈ stored, Evaluates w table.schema m.2) := by
  have hnew := create_inv hopen (HoldsTrees.init Store.new) hcreate
  obtain ⟨v, h⟩ := DbInv.run ⟨_, hnew.1⟩ hrun
  exact h.agrees_iff htable hindexes w assigns

/-- `a > 1`. -/
def aboveOne : Expr := .binary (.column (lit "a")) .gt (.literal (.int64 1))

theorem where_agrees_aboveOne : ∃ (db₀ db : Database Store) (table : TableMetadata)
    (stored : List (RecordId × Row)), Database.create insertionOrder noTables Store.new = .ok db₀ ∧
    Run execStatement db₀ threeRows db ∧
    stored.map Prod.snd = [[.int32 1], [.int32 2], [.int32 3]] ∧
    AgreesWithSelect db (lit "t") table.schema stored aboveOne [(lit "a", .int64 0)] := by
  obtain ⟨db₀, db, hcreate, hrun, hcheck⟩ := exists_session Store.new threeRows
    (fun db => decide ((db.catalog.getTable (lit "t")).map TableMetadata.schema = some oneColumn) &&
      (db.catalog.getIndexesForTable (lit "t")).isEmpty &&
      decide ((answer ((TableManager.scan (lit "t")).exec db)).map (List.map Prod.snd)
        = some [[.int32 1], [.int32 2], [.int32 3]]))
    (by decide +kernel)
  simp only [Bool.and_eq_true, decide_eq_true_iff, List.isEmpty_iff] at hcheck
  obtain ⟨⟨hschema, hindexes⟩, hvalues⟩ := hcheck
  obtain ⟨table, htable, hschema⟩ := Option.map_eq_some_iff.mp hschema
  obtain ⟨stored, dbScan, hscan, hiff⟩ := where_agrees_iff rfl hcreate hrun htable hindexes aboveOne
    [(lit "a", .int64 0)]
  have hstored : stored.map Prod.snd = [[.int32 1], [.int32 2], [.int32 3]] := by
    rw [answer_eq_some.mpr ⟨dbScan, hscan⟩] at hvalues
    exact Option.some.inj hvalues
  refine ⟨db₀, db, table, stored, hcreate, hrun, hstored, hiff.mpr fun m hm => ?_⟩
  have hmem := List.mem_map_of_mem (f := Prod.snd) hm
  rw [hstored] at hmem
  rw [hschema]
  have hall : ∀ row ∈ [[.int32 1], [.int32 2], [.int32 3]], Evaluates aboveOne oneColumn row := by
    decide +kernel
  exact hall m.2 hmem

/-- `a = 1 OR a > 'x'`: the second comparison is made on the rows with another value, and fails. -/
def oneOrString : Expr := .binary (.binary (.column (lit "a")) .eq (.literal (.int64 1))) .or
  (.binary (.column (lit "a")) .gt (.literal (.string (lit "x"))))

/-- The DELETE with `oneOrString` deletes one row, and the rows 2 and 3 are left. -/
def deletesOne (db : Database Store) : Bool :=
  match execStatement db (.delete ⟨lit "t", some oneOrString⟩) with
  | .ok (.ok res, db') => decide (res.rowsAffected = 1 ∧
    (answer ((TableManager.scan (lit "t")).exec db')).map (List.map Prod.snd)
      = some [[.int32 2], [.int32 3]])
  | _ => false

/-- The SELECT fails, and the DELETE with the same clause returns OK and deletes a row. -/
theorem delete_ignores_where_error : ∃ (db₀ db dbSelect db' dbScan : Database Store) (e : Status)
    (res : QueryResult) (left : List (RecordId × Row)),
    Database.create insertionOrder noTables Store.new = .ok db₀ ∧ Run execStatement db₀ threeRows db ∧
    db.catalog.getIndexesForTable (lit "t") = [] ∧
    execStatement db (.select (starWhere (lit "t") oneOrString)) = .ok (.error e, dbSelect) ∧
    execStatement db (.delete ⟨lit "t", some oneOrString⟩) = .ok (.ok res, db') ∧
    res.rowsAffected = 1 ∧ (TableManager.scan (lit "t")).exec db' = .ok (.ok left, dbScan) ∧
    left.map Prod.snd = [[.int32 2], [.int32 3]] := by
  obtain ⟨db₀, db, hcreate, hrun, hcheck⟩ := exists_session Store.new threeRows
    (fun db => (db.catalog.getIndexesForTable (lit "t")).isEmpty &&
      (failure (execStatement db (.select (starWhere (lit "t") oneOrString)))).isSome &&
      deletesOne db)
    (by decide +kernel)
  simp only [Bool.and_eq_true, List.isEmpty_iff] at hcheck
  obtain ⟨⟨hindexes, hfail⟩, hdelete⟩ := hcheck
  obtain ⟨⟨e, dbSelect⟩, hfail⟩ := Option.isSome_iff_exists.mp hfail
  unfold deletesOne at hdelete
  split at hdelete
  · rename_i res db' hexec
    obtain ⟨hcount, hleft⟩ := of_decide_eq_true hdelete
    obtain ⟨left, hscan, hvalues⟩ := Option.map_eq_some_iff.mp hleft
    obtain ⟨dbScan, hscan⟩ := answer_eq_some.mp hscan
    exact ⟨db₀, db, dbSelect, db', dbScan, e, res, left, hcreate, hrun, hindexes, of_failure hfail,
      hexec, hcount, hscan, hvalues⟩
  · cases hdelete

end MiniDB.Executor
