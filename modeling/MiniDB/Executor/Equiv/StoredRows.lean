import MiniDB.Executor.Equiv.Freshness

/-!
# Every statement keeps the database sound

`DbInv.step` says that no statement, whatever its outcome, leaves the invariant of the database: the heap
file of a table holds the encodings of rows that fit its schema, and nothing else.  A SELECT may read
through an index of a table that was dropped and created again; it then fetches whatever record stands
behind an old id, but it changes nothing (`executeSelect_wp`).

So the records of a heap all decode, and the scan that skips the others skips none.
-/

namespace MiniDB.Executor

open Paged Effect Cursor BPlusTree TableManager CatalogManager HeapFile Runs

variable {σ : Type} [IndexPool σ] [LawfulIndexPool σ] {db db' : Database σ} {v : DbView}

/-! ### Statements -/

theorem After.dbInv {name : Str} {t t' : TableView} {es : List RowEvent}
    (h : After db v name t es t' db') : ∃ v', DbInv db' v' := by
  obtain ⟨⟨bags', -, hinv⟩, -⟩ := h
  exact ⟨_, hinv⟩

/-- A statement, whatever its outcome, leaves a sound database. -/
theorem DbInv.step (h : DbInv db v) {stmt : Statement} {r : Result QueryResult}
    (hexec : execStatement db stmt = .ok (r, db')) : ∃ v', DbInv db' v' := by
  cases stmt with
  | createTable stmt =>
    obtain ⟨-, ⟨-, hinv⟩ | ⟨id, -, -, hinv⟩⟩ := Action.of_wp (executeCreateTable_wp h stmt) hexec
    · exact ⟨_, hinv⟩
    · exact ⟨_, hinv⟩
  | dropTable name =>
    obtain ⟨-, ⟨-, hinv⟩ | ⟨-, hinv⟩⟩ := Action.of_wp (executeDropTable_wp h name) hexec
    · exact ⟨_, hinv⟩
    · exact ⟨_, hinv⟩
  | createIndex stmt =>
    obtain ⟨-, ⟨-, -, bags', -, hinv⟩ | ⟨t, idx, b, -, -, -, -, -, -, -, -, hinv⟩⟩ :=
      Action.of_wp (executeCreateIndex_wp h stmt) hexec
    · exact ⟨_, hinv⟩
    · exact ⟨_, hinv⟩
  | dropIndex name => exact ⟨v, (Action.of_wp (executeDropIndex_wp h name) hexec).1⟩
  | insert stmt =>
    rcases Action.of_wp (executeInsert_wp h stmt) hexec with ⟨-, -, rfl⟩ | ⟨t, es, t', -, hafter, -⟩
    · exact ⟨v, h⟩
    · exact hafter.dbInv
  | update stmt =>
    rcases Action.of_wp (executeUpdate_wp h stmt) hexec with ⟨-, -, rfl⟩ | ⟨t, es, t', -, hafter, -⟩
    · exact ⟨v, h⟩
    · exact hafter.dbInv
  | delete stmt =>
    rcases Action.of_wp (executeDelete_wp h stmt) hexec with
      ⟨-, -, rfl⟩ | ⟨t, t', rows, -, -, hafter, -⟩
    · exact ⟨v, h⟩
    · exact hafter.dbInv
  | select stmt => exact ⟨v, (Action.of_wp (executeSelect_wp h stmt) hexec).1.inv⟩

/-! ### Histories -/

theorem DbInv.run {db₀ : Database σ} (hstart : ∃ v, DbInv db₀ v)
    {history : List (Statement × Result QueryResult)} (hrun : Run execStatement db₀ history db) :
    ∃ v, DbInv db v := by
  refine hrun.always (fun _ db => ∃ v, DbInv db v) hstart ?_
  rintro _ _ _ _ _ ⟨v, h⟩ hexec
  exact h.step hexec

/-- **Stored rows conform, and none is skipped.**  After every history of statements, with any outcomes, take
a table of the catalog, the pages of its heap file and the live records in these pages, as `HeapFile::Scan`
visits them.  Each of them decodes, under the schema of the table, to a row that fits it: one value for each
column, NULL only where it is allowed, of the type of the column and not longer than its limit.  The scan of the
table returns all these rows. -/
theorem stored_rows_conform {order : CatalogOrder} {openTables : UnorderedMap Str RecordManager}
    (hopen : openTables.entries = []) {db₀ db : Database Store}
    (hcreate : Database.create order openTables Store.new = .ok db₀)
    {history : List (Statement × Result QueryResult)} (hrun : Run execStatement db₀ history db)
    {name : Str} {table : TableMetadata} (htable : db.catalog.getTable name = some table) :
    ∃ chain records rows db', HeapInv db.dataPool ⟨table.firstPageId, table.firstPageId⟩ chain ∧
      (∀ rid bytes, (rid, bytes) ∈ records ↔ rid.pageId ∈ chain ∧ recordAt db.dataPool rid = some bytes) ∧
      Store.exec (C := Empty) (HeapFile.scan ⟨table.firstPageId, table.firstPageId⟩) db.dataPool
        = .ok (records, db.dataPool) ∧
      (TableManager.scan name).exec db = .ok (.ok rows, db') ∧
      List.Forall₂ (fun r p => r.1 = p.1 ∧ RecordCodec.decode table.schema r.2 = pure p.2 ∧
        RowConforms table.schema p.2) records rows := by
  have hnew := create_inv hopen (HoldsTrees.init Store.new) hcreate
  obtain ⟨v, h⟩ := DbInv.run ⟨_, hnew.1⟩ hrun
  obtain ⟨t, ht, hschema, hfirst⟩ := h.tables.entry htable
  have hat := h.tables.at ht
  have hheap : HeapInv db.dataPool ⟨table.firstPageId, table.firstPageId⟩ t.chain := by
    obtain ⟨first, hi⟩ := hat.heap
    have hsame : first = table.firstPageId := Option.some.inj (hi.head_eq.symm.trans hfirst)
    rwa [hsame] at hi
  obtain ⟨rows, hlists, hall⟩ := hat.listing
  have hscan : Action.wp (fun _ => False) (TableManager.scan name) (fun r _ => r = .ok rows) db :=
    scan_records_wp db h.tables ht hall fun _ _ => rfl
  obtain ⟨_, db', hexec, rfl⟩ := Action.exec_of_wp hscan
  obtain ⟨_, _, hrecords, rfl, rfl⟩ := Store.exec_of_wp_false (C := Empty)
    (HeapFile.scan_wp hheap (Nat.lt_succ_of_le hheap.length_le)
      (Q := fun records st => records = heapRecords db.dataPool t.chain ∧ st = db.dataPool) ⟨rfl, rfl⟩)
  refine ⟨t.chain, _, rows, db', hheap, fun rid bytes => mem_heapRecords, hrecords, hexec, ?_⟩
  rw [hschema]
  refine hall.imp fun r p hr => ⟨hr.1, RecordCodec.decode_encode hr.2, ?_⟩
  exact RecordCodec.encode_ok_iff.mp ⟨_, hr.2⟩

/-- A session in which a table is dropped and created with another schema, and an INSERT fails. -/
def recreatedTable : List (Statement × Result QueryResult) := [
  (.createTable ⟨lit "t", intColumn, intColumn_ne⟩,
    .ok { message := lit "CREATE TABLE" }),
  (.insert ⟨lit "t", [], [[.int64 7]]⟩, .ok { rowsAffected := 1, message := lit "INSERT 0 1" }),
  (.dropTable (lit "t"), .ok { message := lit "DROP TABLE" }),
  (.createTable ⟨lit "t", [{ name := lit "s", type := .varchar, maxLength := 2 }], by decide⟩,
    .ok { message := lit "CREATE TABLE" }),
  (.insert ⟨lit "t", [], [[.string (lit "ab")], [.string (lit "abc")]]⟩,
    .error ⟨.invalidArgument, lit "RecordCodec::Encode: value too long for column 's'"⟩)]

theorem stored_rows_conform_recreated : ∃ db₀ db table chain records rows db',
    Database.create insertionOrder noTables Store.new = .ok db₀ ∧
    Run execStatement db₀ recreatedTable db ∧ db.catalog.getTable (lit "t") = some table ∧
    HeapInv db.dataPool ⟨table.firstPageId, table.firstPageId⟩ chain ∧
    Store.exec (C := Empty) (HeapFile.scan ⟨table.firstPageId, table.firstPageId⟩) db.dataPool
      = .ok (records, db.dataPool) ∧
    (TableManager.scan (lit "t")).exec db = .ok (.ok rows, db') ∧
    List.Forall₂ (fun r p => r.1 = p.1 ∧ RecordCodec.decode table.schema r.2 = pure p.2 ∧
      RowConforms table.schema p.2) records rows := by
  obtain ⟨db₀, db, hcreate, hrun, hcheck⟩ := exists_session Store.new recreatedTable
    (fun db => (db.catalog.getTable (lit "t")).isSome) (by decide +kernel)
  obtain ⟨table, htable⟩ := Option.isSome_iff_exists.mp hcheck
  obtain ⟨chain, records, rows, db', hheap, -, h⟩ := stored_rows_conform rfl hcreate hrun htable
  exact ⟨db₀, db, table, chain, records, rows, db', hcreate, hrun, htable, hheap, h⟩

end MiniDB.Executor
