import MiniDB.Executor.Equiv.Definitions
import MiniDB.Lib.Run

/-!
# Indexes mirror their tables

In a database whose index trees are exact, every index holds one entry for each row of its table that
has a key.  Each event that a statement makes on a row keeps this (`RowStep.mirrors`), with one
exception: an UPDATE that fails after it has deleted a row leaves the entries of that row behind.  So
the indexes mirror their tables after every history in which no UPDATE failed.
-/

namespace MiniDB.Executor

open Paged Effect BPlusTree TableManager CatalogManager Runs

/-! ### Events -/

section Steps

variable {idxs : List IndexMetadata} {schema : Schema} {row : Row} {rid : RecordId}
  {bags bags' : Bags} {rows : RecordId → Option Row} {id : PageId}

/-- The trees of the indexes are the indexes of the rows. -/
def MirrorsRows (idxs : List IndexMetadata) (schema : Schema) (rows : RecordId → Option Row)
    (bags : Bags) : Prop :=
  ∀ idx ∈ idxs, ∃ b, bags idx.metaPageId = some b ∧ Mirrors b (keyOf schema idx.columnName) rows

theorem Maintained.mirrors_insert (h : Maintained AddsEntry idxs schema row rid bags bags')
    (hm : MirrorsRows idxs schema rows bags) (hrid : rows rid = none) :
    MirrorsRows idxs schema (Function.update rows rid (some row)) bags' := by
  intro idx hidx
  obtain ⟨b, b', hb, hb', hadd⟩ := h.index idx hidx
  obtain ⟨b₀, hb₀, hmirror⟩ := hm idx hidx
  rw [hb] at hb₀
  obtain rfl := Option.some.inj hb₀
  have hnew := hmirror.insert hrid row
  refine ⟨b', hb', ?_⟩
  cases hk : keyOf schema idx.columnName row with
  | none =>
    rw [hk] at hadd hnew
    rw [hadd]
    exact hnew
  | some key =>
    rw [hk] at hadd hnew
    rw [hadd]
    exact hnew

theorem Maintained.mirrors_erase {exact : Prop} (hexact : exact)
    (h : Maintained (RemovesEntry exact) idxs schema row rid bags bags')
    (hm : MirrorsRows idxs schema rows bags) (hrid : rows rid = some row) :
    MirrorsRows idxs schema (Function.update rows rid none) bags' := by
  intro idx hidx
  obtain ⟨b, b', hb, hb', hremove⟩ := h.index idx hidx
  obtain ⟨b₀, hb₀, hmirror⟩ := hm idx hidx
  rw [hb] at hb₀
  obtain rfl := Option.some.inj hb₀
  have hnew := hmirror.erase hrid
  refine ⟨b', hb', ?_⟩
  cases hk : keyOf schema idx.columnName row with
  | none =>
    rw [hk] at hremove hnew
    rw [hremove]
    exact hnew
  | some key =>
    rw [hk] at hremove hnew
    rcases hremove with hremove | ⟨hnot, -⟩
    · rw [hremove]
      exact hnew
    · exact absurd hexact hnot

theorem Maintained.other_of_both {R R' : Bag → Key × RecordId → Bag → Prop} {row' : Row}
    {rid' : RecordId} {bags₁ : Bags} (h : Maintained R idxs schema row rid bags bags₁)
    (h' : Maintained R' idxs schema row' rid' bags₁ bags') (hid : ∀ idx ∈ idxs, idx.metaPageId ≠ id) :
    bags' id = bags id := by
  rw [h'.other id hid, h.other id hid]

variable {exact : Prop} {e : RowEvent} {es : List RowEvent} {x y : TableView × Bags}

/-- Trees of other tables are not touched. -/
theorem RowStep.bags_other (h : RowStep exact idxs e x y) (hid : ∀ idx ∈ idxs, idx.metaPageId ≠ id) :
    y.2 id = x.2 id := by
  cases h with
  | insert _ _ _ _ hm => exact hm.other id hid
  | replace _ _ _ _ _ hm hm' => exact hm.other_of_both hm' hid
  | delete _ hm => exact hm.other id hid
  | lose => rfl
  | grow => rfl

/-- The indexes of the table mirror it after every event but the loss of a row. -/
theorem RowStep.mirrors (hexact : exact) (h : RowStep exact idxs e x y) (he : e.Clean)
    (hm : MirrorsRows idxs x.1.schema x.1.rows x.2) :
    MirrorsRows idxs y.1.schema y.1.rows y.2 := by
  cases h with
  | insert hfree _ _ _ hmaint => exact hmaint.mirrors_insert hm hfree
  | replace hold _ _ _ hfree hremove hadd =>
    have hgone := hremove.mirrors_erase hexact hm hold
    exact hadd.mirrors_insert hgone (update_none_of_free hfree)
  | delete hold hremove => exact hremove.mirrors_erase hexact hm hold
  | lose => exact he.elim
  | grow => exact hm

theorem RowSteps.mirrors (hexact : exact) (h : RowSteps exact idxs es x y) (hes : ∀ e ∈ es, e.Clean)
    (hm : MirrorsRows idxs x.1.schema x.1.rows x.2) :
    MirrorsRows idxs y.1.schema y.1.rows y.2 :=
  h.invariant (P := fun z => MirrorsRows idxs z.1.schema z.1.rows z.2)
    (fun _ _ _ he hs hz => hs.mirrors hexact he hz) hes hm

theorem RowSteps.bags_other (h : RowSteps exact idxs es x y) (hid : ∀ idx ∈ idxs, idx.metaPageId ≠ id) :
    y.2 id = x.2 id :=
  h.invariant (P := fun z => z.2 id = x.2 id) (A := fun _ => True)
    (fun _ _ _ _ hs hz => (hs.bags_other hid).trans hz) (fun _ _ => trivial) rfl

end Steps

/-! ### Databases -/

variable {σ : Type} [IndexPool σ] [LawfulIndexPool σ] {db db' : Database σ} {v : DbView} {t : TableView}
  {name : Str} {r : Result QueryResult}

/-- The index is one on an integer column of a table, and mirrors it. -/
def MirroredBy (v : DbView) (idx : IndexMetadata) : Prop :=
  ∃ t b, v.tables idx.tableName = some t ∧ IntegerColumn t.schema idx.columnName ∧
    v.bags idx.metaPageId = some b ∧ Mirrors b (keyOf t.schema idx.columnName) t.rows

/-- The database is sound and its indexes mirror their tables. -/
def MirrorInv (db : Database σ) (v : DbView) : Prop :=
  DbInv db v ∧ ∀ name idx, db.catalog.indexes.find? name = some idx → MirroredBy v idx

/-- The events of a statement keep the indexes. -/
theorem After.mirrors {t' : TableView} {es : List RowEvent} (hexact : LawfulIndexPool.exact σ)
    (h : After db v name t es t' db') (hv : MirrorInv db v) (ht : v.tables name = some t)
    (hes : ∀ e ∈ es, e.Clean) : ∃ v', MirrorInv db' v' := by
  obtain ⟨hdb, hm⟩ := hv
  obtain ⟨⟨bags', hsteps, hinv⟩, hcat⟩ := h
  refine ⟨_, hinv, fun iname idx hidx => ?_⟩
  rw [hcat] at hidx
  obtain ⟨t₀, b, ht₀, hcolumn, hb, hmirror⟩ := hm iname idx hidx
  by_cases htable : idx.tableName = name
  · -- an index of the table itself
    rw [htable, ht] at ht₀
    obtain rfl := Option.some.inj ht₀
    have hstart : MirrorsRows (db.catalog.getIndexesForTable name) t.schema t.rows v.bags := by
      intro idx' hidx'
      obtain ⟨htable', iname', hfind'⟩ := mem_getIndexesForTable.mp hidx'
      obtain ⟨t₁, b₁, ht₁, -, hb₁, hmirror₁⟩ := hm iname' idx' hfind'
      rw [htable', ht] at ht₁
      obtain rfl := Option.some.inj ht₁
      exact ⟨b₁, hb₁, hmirror₁⟩
    have hmem := mem_getIndexesForTable.mpr ⟨htable, iname, hidx⟩
    obtain ⟨b', hb', hmirror'⟩ := hsteps.mirrors hexact hes hstart idx hmem
    have hschema : t'.schema = t.schema := hsteps.schema_eq
    refine ⟨t', b', ?_, ?_, hb', hmirror'⟩
    · rw [htable]
      exact Function.update_self ..
    · rwa [hschema]
  · -- an index of another table has another tree
    have hother : bags' idx.metaPageId = v.bags idx.metaPageId := by
      refine hsteps.bags_other fun idx' hidx' heq => htable ?_
      obtain ⟨htable', iname', hfind'⟩ := mem_getIndexesForTable.mp hidx'
      rw [← hdb.indexes.eq_of_metaPageId hfind' hidx heq, htable']
    refine ⟨t₀, b, ?_, hcolumn, hother.trans hb, hmirror⟩
    dsimp only
    rw [Function.update_of_ne htable, ht₀]

/-- The statements of a history whose indexes are looked at: no tables are dropped, and no UPDATE
fails. -/
def KeepsIndexes : Statement → Result QueryResult → Prop
  | .createTable _, _ | .createIndex _, _ | .dropIndex _, _ | .insert _, _ | .delete _, _ => True
  | .update _, r => ∃ res, r = .ok res
  | .dropTable _, _ | .select _, _ => False

theorem MirrorInv.createTable (hv : MirrorInv db v) {stmt : CreateTableStmt}
    (h : CreateTableOutcome stmt db v r db') : ∃ v', MirrorInv db' v' := by
  obtain ⟨hindexes, ⟨-, hinv⟩ | ⟨id, -, hnone, hinv⟩⟩ := h
  · refine ⟨v, hinv, fun iname idx hidx => ?_⟩
    rw [hindexes] at hidx
    exact hv.2 iname idx hidx
  · refine ⟨_, hinv, fun iname idx hidx => ?_⟩
    rw [hindexes] at hidx
    obtain ⟨t, b, ht, hrest⟩ := hv.2 iname idx hidx
    have hne : idx.tableName ≠ stmt.tableName := by
      intro heq
      rw [heq, hnone] at ht
      cases ht
    refine ⟨t, b, ?_, hrest⟩
    dsimp only
    rw [Function.update_of_ne hne, ht]

theorem MirrorInv.createIndex (hv : MirrorInv db v) {stmt : CreateIndexStmt}
    (h : CreateIndexOutcome stmt db v r db') : ∃ v', MirrorInv db' v' := by
  obtain ⟨-, ⟨-, hindexes, bags', hkeep, hinv⟩ |
    ⟨t, idx, b, ht, hcolumn, htable, hname, hnew, hinsert, hfresh, hmirror, hinv⟩⟩ := h
  · refine ⟨_, hinv, fun iname idx hidx => ?_⟩
    rw [hindexes] at hidx
    obtain ⟨t, b, ht, hcolumn, hb, hmirror⟩ := hv.2 iname idx hidx
    exact ⟨t, b, ht, hcolumn, hkeep _ _ hb, hmirror⟩
  · refine ⟨_, hinv, fun iname idx' hidx' => ?_⟩
    rw [hinsert, UnorderedMap.find?_insert] at hidx'
    split_ifs at hidx'
    · obtain rfl := Option.some.inj hidx'
      refine ⟨t, b, ?_, ?_, Function.update_self .., ?_⟩
      · rw [htable]
        exact ht
      · rwa [hname]
      · rwa [hname]
    · obtain ⟨t', b', ht', hcolumn', hb', hmirror'⟩ := hv.2 iname idx' hidx'
      exact ⟨t', b', ht', hcolumn', update_of_none hfresh b _ _ hb', hmirror'⟩

theorem MirrorInv.dropIndex (hv : MirrorInv db v) {indexName : Str}
    (h : DropIndexOutcome indexName db v r db') : MirrorInv db' v := by
  obtain ⟨hinv, -, ⟨-, hindexes⟩ | hindexes⟩ := h
  · refine ⟨hinv, fun iname idx hidx => hv.2 iname idx ?_⟩
    rwa [hindexes] at hidx
  · refine ⟨hinv, fun iname idx hidx => hv.2 iname idx ?_⟩
    rw [hindexes, UnorderedMap.find?_erase] at hidx
    split_ifs at hidx
    exact hidx

/-- Every statement that keeps the indexes does so. -/
theorem MirrorInv.step (hexact : LawfulIndexPool.exact σ) (hv : MirrorInv db v) {stmt : Statement}
    (hstmt : KeepsIndexes stmt r) (h : execStatement db stmt = .ok (r, db')) :
    ∃ v', MirrorInv db' v' := by
  cases stmt with
  | createTable stmt => exact hv.createTable (Action.of_wp (executeCreateTable_wp hv.1 stmt) h)
  | dropTable name => exact hstmt.elim
  | createIndex stmt => exact hv.createIndex (Action.of_wp (executeCreateIndex_wp hv.1 stmt) h)
  | dropIndex name => exact ⟨v, hv.dropIndex (Action.of_wp (executeDropIndex_wp hv.1 name) h)⟩
  | insert stmt =>
    rcases Action.of_wp (executeInsert_wp hv.1 stmt) h with ⟨-, -, rfl⟩ | ⟨t, es, t', ht, hafter, hes, -⟩
    · exact ⟨v, hv⟩
    · refine hafter.mirrors hexact hv ht fun e he => ?_
      rcases hes e he with rfl | ⟨_, _, _, _, _, _, _, rfl⟩
      · exact trivial
      · exact trivial
  | update stmt =>
    rcases Action.of_wp (executeUpdate_wp hv.1 stmt) h with
      ⟨-, -, rfl⟩ | ⟨t, es, t', ht, hafter, -, hok⟩
    · exact ⟨v, hv⟩
    · -- it has not failed, so that all its events are replacements
      obtain ⟨res, rfl⟩ := hstmt
      obtain ⟨_, _, -, -, hall, -⟩ := hok res rfl
      refine hafter.mirrors hexact hv ht fun e he => ?_
      obtain ⟨_, -, _, rfl⟩ := exists_mem_of_forall₂ hall he
      exact trivial
  | delete stmt =>
    rcases Action.of_wp (executeDelete_wp hv.1 stmt) h with
      ⟨-, -, rfl⟩ | ⟨t, t', rows, ht, -, hafter, -⟩
    · exact ⟨v, hv⟩
    · refine hafter.mirrors hexact hv ht fun e he => ?_
      obtain ⟨_, -, rfl⟩ := List.mem_map.mp he
      exact trivial
  | select stmt => exact hstmt.elim

/-! ### Histories -/

/-- What an index on the column in position `c` should hold: for each row whose value there is not NULL,
the key of the value and the id of the row. -/
def notNullEntries (c : Nat) (rows : List (RecordId × Row)) : List (Option Key × RecordId) :=
  rows.filterMap fun r =>
    match (r.2[c]? : Option Value) with
    | none | some .null => none
    | some value => some (extractInt64Key value, r.1)

/-- On an integer column, these are the entries of the rows that have a key. -/
theorem notNullEntries_eq {schema : Schema} {column : Str} {c : Fin schema.columnCount}
    (hc : schema.indexOf column = some c)
    (htype : (schema.columnAt c).type = .int ∨ (schema.columnAt c).type = .bigInt)
    {rows : List (RecordId × Row)} (hrows : ∀ r ∈ rows, RowConforms schema r.2) :
    notNullEntries c rows = (indexEntries (keyOf schema column) rows).map fun e => (some e.1, e.2) := by
  rw [notNullEntries, indexEntries, List.map_filterMap]
  refine List.filterMap_congr fun r hr => ?_
  obtain ⟨value, hvalue, hconf⟩ := (hrows r hr).get c
  have hkey : keyOf schema column r.2 = extractInt64Key value := by
    rw [keyOf, hc, Option.bind_some, hvalue, Option.bind_some]
  rw [hvalue, hkey]
  by_cases hnull : isNull value = true
  · obtain rfl : value = .null := by cases value <;> simp_all [isNull]
    rfl
  · have hint := hconf.integer (Bool.eq_false_iff.mpr hnull)
    rcases htype with htype | htype
    · obtain ⟨n, rfl⟩ := hint.1 htype
      rfl
    · obtain ⟨n, rfl⟩ := hint.2 htype
      rfl

theorem MirrorInv.run {db₀ : Database σ} (hexact : LawfulIndexPool.exact σ)
    (hstart : ∃ v, MirrorInv db₀ v) {history : List (Statement × Result QueryResult)}
    (hrun : Run execStatement db₀ history db)
    (hkeeps : ∀ c ∈ history, KeepsIndexes c.1 c.2) : ∃ v, MirrorInv db v := by
  refine hrun.invariant (fun _ db => ∃ v, MirrorInv db v) hstart ?_ (guarded_of_forall hkeeps)
  rintro _ db₁ stmt r db₂ ⟨v, hv⟩ hstmt hexec
  exact hv.step hexact hstmt hexec

/-- A new database has no indexes. -/
theorem MirrorInv.create {order : CatalogOrder} {openTables : UnorderedMap Str RecordManager}
    (hopen : openTables.entries = []) {db₀ : Database Multimaps}
    (hcreate : Database.create order openTables ⟨[]⟩ = .ok db₀) : ∃ v, MirrorInv db₀ v := by
  have hempty : LawfulIndexPool.Holds (⟨[]⟩ : Multimaps) (Multimaps.bags ⟨[]⟩) := rfl
  obtain ⟨hinv, hindexes⟩ := create_inv hopen hempty hcreate
  refine ⟨_, hinv, fun name idx hidx => ?_⟩
  rw [← UnorderedMap.mem_entries_iff, hindexes] at hidx
  cases hidx

/-- A table that exists is scanned without a failure. -/
theorem scan_exec (h : DbInv db v) (ht : v.tables name = some t) :
    ∃ rows db', (TableManager.scan name).exec db = .ok (.ok rows, db') ∧ Lists rows t.rows := by
  have hwp : Action.wp (fun _ => False) (TableManager.scan name)
      (fun r _ => ∃ rows, r = .ok rows ∧ Lists rows t.rows) db :=
    scan_wp db h.tables ht fun rows _ hlists _ => ⟨rows, rfl, hlists⟩
  obtain ⟨_, db', hexec, rows, rfl, hlists⟩ := Action.exec_of_wp hwp
  exact ⟨rows, db', hexec, hlists⟩

/-- **Indexes mirror their tables.**  After every history of CREATE TABLE, INSERT, UPDATE, DELETE,
CREATE INDEX and DROP INDEX statements on a new database in which no UPDATE failed, and with trees
that are bags of entries: each index of the catalog on a table that exists is on one of its columns,
and holds one entry for each row of a scan of the table whose value in that column is not NULL, the
key of the value with the id of the row, and nothing else. -/
theorem index_mirrors_table {order : CatalogOrder} {openTables : UnorderedMap Str RecordManager}
    (hopen : openTables.entries = []) {db₀ db : Database Multimaps}
    (hcreate : Database.create order openTables ⟨[]⟩ = .ok db₀)
    {history : List (Statement × Result QueryResult)} (hrun : Run execStatement db₀ history db)
    (hkeeps : ∀ c ∈ history, KeepsIndexes c.1 c.2)
    {name : Str} {idx : IndexMetadata} (hidx : db.catalog.indexes.find? name = some idx)
    {table : TableMetadata} (htable : db.catalog.getTable idx.tableName = some table) :
    ∃ c rows db' entries, table.schema.indexOf idx.columnName = some c ∧
      (TableManager.scan idx.tableName).exec db = .ok (.ok rows, db') ∧
      db.indexPool.get? idx.metaPageId = some entries ∧
      (entries.map fun e => (some e.1, e.2)).Perm (notNullEntries c rows) := by
  obtain ⟨v, hinv, hmirrored⟩ := MirrorInv.run trivial (MirrorInv.create hopen hcreate) hrun hkeeps
  obtain ⟨t, b, ht, ⟨c, hc, htype⟩, hb, hmirror⟩ := hmirrored name idx hidx
  obtain ⟨t', ht', hschema, -⟩ := hinv.tables.entry htable
  rw [ht] at ht'
  obtain rfl := Option.some.inj ht'
  obtain ⟨rows, db', hexec, hlists⟩ := scan_exec hinv ht
  have hbags : db.indexPool.bags = v.bags := hinv.indexes.holds
  rw [← hbags] at hb
  obtain ⟨entries, hentries, rfl⟩ := Multimaps.get?_of_bags hb
  have hperm : entries.Perm (indexEntries (keyOf t.schema idx.columnName) rows) :=
    Multiset.coe_eq_coe.mp (hmirror.eq hlists)
  have hrows : ∀ r ∈ rows, RowConforms t.schema r.2 := fun r hr =>
    (hinv.tables.at ht).conforms ((hlists.mem_iff r.1 r.2).mp hr)
  rw [hschema]
  refine ⟨c, rows, db', entries, hc, hexec, hentries, ?_⟩
  rw [notNullEntries_eq hc htype hrows]
  exact hperm.map _

/-- A session that moves a row from one key to another, with a NULL in the column. -/
def movedKey : List (Statement × Result QueryResult) := [
  (.createTable ⟨lit "t", intColumn, intColumn_ne⟩,
    .ok { message := lit "CREATE TABLE" }),
  (.insert ⟨lit "t", [], [[.int64 7], [.null]]⟩,
    .ok { rowsAffected := 2, message := lit "INSERT 0 2" }),
  (.createIndex ⟨lit "i", lit "t", lit "a"⟩, .ok { message := lit "CREATE INDEX" }),
  (.update ⟨lit "t", [(lit "a", .int64 8)],
      some (.binary (.column (lit "a")) .eq (.literal (.int64 7)))⟩,
    .ok { rowsAffected := 1, message := lit "UPDATE 1" })]

theorem index_mirrors_table_movedKey : ∃ db₀ db idx table c rows db' entries,
    Database.create insertionOrder noTables (⟨[]⟩ : Multimaps) = .ok db₀ ∧
    Run execStatement db₀ movedKey db ∧ db.catalog.indexes.find? (lit "i") = some idx ∧
    db.catalog.getTable idx.tableName = some table ∧
    table.schema.indexOf idx.columnName = some c ∧
    (TableManager.scan idx.tableName).exec db = .ok (.ok rows, db') ∧
    db.indexPool.get? idx.metaPageId = some entries ∧
    (entries.map fun e => (some e.1, e.2)).Perm (notNullEntries c rows) := by
  obtain ⟨db₀, db, hcreate, hrun, hcheck⟩ := exists_session (⟨[]⟩ : Multimaps) movedKey
    (fun db => decide ((db.catalog.indexes.find? (lit "i")).map (fun idx =>
      (db.catalog.getTable idx.tableName).isSome) = some true)) (by decide +kernel)
  obtain ⟨idx, hidx, htable⟩ := Option.map_eq_some_iff.mp (of_decide_eq_true hcheck)
  obtain ⟨table, htable⟩ := Option.isSome_iff_exists.mp htable
  have hkeeps : ∀ c ∈ movedKey, KeepsIndexes c.1 c.2 := by
    simp [movedKey, KeepsIndexes]
  obtain ⟨c, rows, db', entries, h⟩ := index_mirrors_table rfl hcreate hrun hkeeps hidx htable
  exact ⟨db₀, db, idx, table, c, rows, db', entries, hcreate, hrun, hidx, htable, h⟩

end MiniDB.Executor
