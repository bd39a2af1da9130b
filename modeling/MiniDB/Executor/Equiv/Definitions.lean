import MiniDB.Executor.Equiv.Rows
import MiniDB.Lib.Run

/-!
# What CREATE and DROP do

A new table has no rows and pages of its own; a dropped one is forgotten, and its pages stay where
they are.  A new index is filled from a scan of its table, so that it mirrors the rows; a dropped one
leaves its tree behind.  No statement removes or changes the indexes of a table that is dropped.
-/

namespace MiniDB.TableManager

open Paged HeapFile Tenancy
open Function (update update_of_ne update_self)
variable {catalog : UnorderedMap Str TableMetadata} {o : UnorderedMap Str RecordManager}
  {tables : Str → Option TableView} {st st' : Store}

/-- New pages in the store do not matter to the tables. -/
theorem TablesInv.frame (h : TablesInv catalog o st tables) {own : List PageId}
    (hs : OwnStep Store.get? st [] st' own) : TablesInv catalog o st' tables where
  named := h.named.frame hs fun _ _ _ => List.disjoint_nil_left _
  entry := h.entry
  known := h.known
  opened := by
    intro name rm hrm
    obtain ⟨t, ht, hschema, hinv⟩ := h.opened hrm
    exact ⟨t, ht, hschema,
      (heapTenant.keep (b := (rm.heapFile, t.chain)) hs hinv (List.disjoint_nil_left _)).1⟩

/-- A table that is created without rows. -/
def newTable (schema : Schema) (id : PageId) : TableView := ⟨schema, [id], fun _ => none⟩

theorem TablesInv.create (h : TablesInv catalog o st tables) {name : Str} {e : TableMetadata}
    (hne : e.schema.columns ≠ []) (hheap : HeapInv st' ⟨e.firstPageId, e.firstPageId⟩ [e.firstPageId])
    (hpages : OwnStep Store.get? st [] st' [e.firstPageId])
    (hrec : ∀ rid, rid.pageId = e.firstPageId → recordAt st' rid = none) :
    TablesInv (catalog.insert name e)
      (o.insert name ⟨⟨e.firstPageId, e.firstPageId⟩, e.schema⟩) st'
      (update tables name (some (newTable e.schema e.firstPageId))) := by
  have hat : TableAt st' (newTable e.schema e.firstPageId) := by
    refine ⟨hne, ⟨_, hheap⟩, fun rid => ?_, (fun h => nomatch h)⟩
    rw [recordIn]
    split_ifs with hmem
    · exact hrec rid (List.mem_singleton.mp hmem)
    · rfl
  have hold := h.frame hpages
  refine ⟨h.named.create hpages hat, ?_, ?_, ?_⟩
  · intro name' e' he'
    rw [UnorderedMap.find?_insert] at he'
    split_ifs at he' with hname
    · obtain rfl := Option.some.inj he'
      exact ⟨_, by rw [hname, update_self], rfl, rfl⟩
    · rw [update_of_ne hname]
      exact h.entry he'
  · intro name' t ht
    rw [UnorderedMap.find?_insert]
    split_ifs with hname
    · exact ⟨e, rfl⟩
    · rw [update_of_ne hname] at ht
      exact h.known ht
  · intro name' rm hrm
    rw [UnorderedMap.find?_insert] at hrm
    split_ifs at hrm with hname
    · obtain rfl := Option.some.inj hrm
      exact ⟨_, by rw [hname, update_self], rfl, hheap⟩
    · rw [update_of_ne hname]
      exact hold.opened hrm

theorem TablesInv.drop (h : TablesInv catalog o st tables) (name : Str) :
    TablesInv (catalog.erase name) (o.erase name) st (update tables name none) where
  named := h.named.forget
  entry := by
    intro name' e he
    rw [UnorderedMap.find?_erase] at he
    split_ifs at he with hname
    rw [update_of_ne hname]
    exact h.entry he
  known := by
    intro name' t ht
    by_cases hname : name' = name
    · rw [hname, update_self] at ht
      cases ht
    · rw [update_of_ne hname] at ht
      rw [UnorderedMap.find?_erase, if_neg hname]
      exact h.known ht
  opened := by
    intro name' rm hrm
    rw [UnorderedMap.find?_erase] at hrm
    split_ifs at hrm with hname
    rw [update_of_ne hname]
    exact h.opened hrm

end MiniDB.TableManager

namespace MiniDB.Executor

open Paged Effect BPlusTree TableManager CatalogManager HeapFile Tenancy
open Function (update update_eq_self update_idem update_of_ne update_self)
open Effect.Action (post_ok wp wp_bind wp_check wp_forM wp_mono wp_ofResult wp_onPart)

variable {σ : Type} [IndexPool σ] [LawfulIndexPool σ] {db : Database σ} {v : DbView} {name : Str}
  {bags : Bags} {pool : σ} {schema : Schema} {column : Str} {tree : PageId}
  {indexes : UnorderedMap Str IndexMetadata}

/-! ### A new database -/

/-- The view of a new database. -/
def newView (bags : Bags) : DbView := ⟨fun _ => none, bags⟩

/-- A new database has no tables and no indexes. -/
theorem create_inv {order : CatalogOrder} {openTables : UnorderedMap Str RecordManager}
    (hopen : openTables.entries = []) (hpool : LawfulIndexPool.Holds pool bags)
    (h : Database.create order openTables pool = .ok db) :
    DbInv db (newView bags) ∧ db.catalog.indexes.entries = [] := by
  unfold Database.create at h
  have hwp : (CatalogManager.create order : Prog PageId Page Empty _).wp Store.OutOfPages
      (fun _ _ => True) (fun c st => CatalogInv c st ∧ (∀ name, c.tables.find? name = none) ∧
        c.indexes.entries = []) Store.new := create_wp order fun c st h₁ h₂ h₃ => ⟨h₁, h₂, h₃⟩
  rcases Store.exec_of_wp (x := fun _ => CatalogManager.create order) hwp with
    herr | ⟨c, st, hrun, hc, htables, hindexes⟩
  · rw [herr] at h
    cases h
  · rw [hrun] at h
    obtain rfl := Except.ok.inj h
    refine ⟨⟨hc, ⟨.empty _ _, ?_, (fun h => nomatch h), ?_⟩, hpool, ?_, ?_⟩, hindexes⟩
    · intro name e he
      dsimp only at he
      rw [htables] at he
      cases he
    · intro name rm hrm
      rw [← UnorderedMap.mem_entries_iff] at hrm
      dsimp only at hrm
      rw [hopen] at hrm
      cases hrm
    · intro name idx hidx
      rw [← UnorderedMap.mem_entries_iff] at hidx
      dsimp only at hidx
      rw [hindexes] at hidx
      cases hidx
    · dsimp only
      rw [hindexes]
      exact List.nodup_nil

/-- A catalog that iterates over its entries from the last to the first. -/
def insertionOrder : CatalogOrder := ⟨id, fun _ => .refl _, id, fun _ => .refl _⟩

/-- No open tables. -/
def noTables : UnorderedMap Str RecordManager := .empty id fun _ => .refl _

/-- The columns of `CREATE TABLE t (a INT)`. -/
def intColumn : List Column := [{ name := lit "a", type := .int }]

theorem intColumn_ne : intColumn ≠ [] := List.cons_ne_nil _ _

/-- The history of a session on a new database, computed from its statements. -/
def session (pool : σ) (stmts : List Statement) :
    Option (List (Statement × Result QueryResult) × Database σ) :=
  (Database.create insertionOrder noTables pool).toOption.bind fun db =>
    (Runs.runAll execStatement db stmts).toOption

omit [LawfulIndexPool σ] in
/-- A computed session whose final state passes a check. -/
theorem exists_session (pool : σ) (history : List (Statement × Result QueryResult))
    (check : Database σ → Bool)
    (h : (session pool (history.map Prod.fst)).map (fun p => (p.1, check p.2)) = some (history, true)) :
    ∃ db₀ db, Database.create insertionOrder noTables pool = .ok db₀ ∧
      Runs.Run execStatement db₀ history db ∧ check db = true := by
  unfold session at h
  cases hcreate : Database.create insertionOrder noTables pool with
  | error f =>
    rw [hcreate] at h
    cases h
  | ok db₀ =>
    rw [hcreate] at h
    obtain ⟨db, hrun, hcheck⟩ := Runs.exists_run_of_check execStatement db₀ _ history check h
    exact ⟨db₀, db, rfl, hrun, hcheck⟩

/-- The answer of a call that returns without an error. -/
def answer {α : Type} (r : Except Fault (Result α × Database σ)) : Option α :=
  r.toOption.bind fun p => p.1.toOption

omit [IndexPool σ] [LawfulIndexPool σ] in
theorem answer_eq_some {α : Type} {r : Except Fault (Result α × Database σ)} {a : α} :
    answer r = some a ↔ ∃ db, r = .ok (.ok a, db) := by
  rcases r with f | ⟨e | a', db⟩
  · exact ⟨nofun, nofun⟩
  · exact ⟨nofun, nofun⟩
  · constructor
    · intro h
      obtain rfl := Option.some.inj h
      exact ⟨db, rfl⟩
    · rintro ⟨db', h⟩
      cases h
      rfl

/-! ### Tables -/

/-- What CREATE TABLE does. -/
def CreateTableOutcome (stmt : CreateTableStmt) (db : Database σ) (v : DbView)
    (r : Result QueryResult) (db' : Database σ) : Prop :=
  db'.catalog.indexes = db.catalog.indexes ∧
    (((∃ e, r = .error e) ∧ DbInv db' v) ∨
      ∃ id, r = .ok { message := lit "CREATE TABLE" } ∧ v.tables stmt.tableName = none ∧
        DbInv db' ⟨update v.tables stmt.tableName (some (newTable ⟨stmt.columns⟩ id)), v.bags⟩)

theorem executeCreateTable_wp (h : DbInv db v) (stmt : CreateTableStmt) :
    wp Store.OutOfPages (executeCreateTable stmt) (CreateTableOutcome stmt db v) db := by
  unfold executeCreateTable TableManager.createTable
  rw [wp_bind, wp_bind]
  refine Database.wp_onData (P := fun hf st => ∃ id, hf = ⟨id, id⟩ ∧ HeapInv st ⟨id, id⟩ [id] ∧
    OwnStep Store.get? db.dataPool [] st [id] ∧
    ∀ rid, rid.pageId = id → recordAt st rid = none) ?_ ?_
  · apply openHeap_new_wp
    intro id st' hnew hinv hsame hrec
    refine ⟨id, rfl, hinv, ⟨List.nil_subset _, ?_, ?_⟩, ?_⟩
    · intro i p _ hp
      rw [hsame i, hp]
      rintro rfl
      rw [hnew] at hp
      cases hp
    · intro i hi _
      rw [List.mem_singleton.mp hi, hnew]
    · intro rid hrid
      rw [hrec, recordAt, hrid, hnew]
      rfl
  · rintro _ st ⟨id, rfl, hheap, hpages, hrec⟩
    rw [post_ok, wp_bind]
    refine Database.wp_onCatalog (P := fun r c st => TableCreated db.catalog stmt.tableName
      ⟨stmt.columns⟩ id (r, c) st)
      (CatalogManager.createTable_wp h.catalog _ _ _ (Nat.lt_succ_self _)) ?_
    rintro r c cst ⟨hcat, hindexes, hcase⟩
    dsimp only at hcat hindexes hcase
    rw [post_ok, wp_bind]
    rcases hcase with ⟨e, rfl, htables⟩ | ⟨e, rfl, hnone, hschema, rfl, htables⟩
    · refine ⟨hindexes, .inl ⟨⟨e, rfl⟩, hcat, ?_, ?_⟩⟩
      · rw [htables]
        exact h.tables.frame hpages
      · rw [hindexes]
        exact h.indexes
    · rw [wp_ofResult, post_ok, wp_bind]
      unfold openAndCache
      rw [wp_bind]
      refine Database.wp_onData (P := fun hf st' => hf = ⟨e.firstPageId, e.firstPageId⟩ ∧ st' = st)
        (openHeap_existing_wp hheap fun _ => ⟨rfl, rfl⟩) ?_
      rintro _ _ ⟨rfl, rfl⟩
      refine ⟨hindexes, .inr ⟨e.firstPageId, rfl, (h.tables.none_iff _).mp hnone, hcat, ?_, ?_⟩⟩
      · have hne : e.schema.columns ≠ [] := by
          rw [hschema]
          exact stmt.columns_ne
        show TablesInv c.tables _ _ _
        rw [htables, ← hschema]
        exact h.tables.create hne hheap hpages hrec
      · rw [hindexes]
        exact h.indexes

/-- What DROP TABLE does. -/
def DropTableOutcome (name : Str) (db : Database σ) (v : DbView) (r : Result QueryResult)
    (db' : Database σ) : Prop :=
  db'.catalog.indexes = db.catalog.indexes ∧
    (((∃ e, r = .error e) ∧ DbInv db' v) ∨
      r = .ok { message := lit "DROP TABLE" } ∧
        DbInv db' ⟨update v.tables name none, v.bags⟩)

theorem executeDropTable_wp (h : DbInv db v) (name : Str) :
    wp Store.OutOfPages (executeDropTable name) (DropTableOutcome name db v) db := by
  unfold executeDropTable TableManager.dropTable
  rw [wp_bind, wp_bind]
  refine Database.wp_onCatalog (P := fun r c st => TableDropped db.catalog name (r, c) st)
    (CatalogManager.dropTable_wp h.catalog name) ?_
  rintro r c cst ⟨hcat, hindexes, hcase⟩
  dsimp only at hcat hindexes hcase
  rw [post_ok, wp_bind]
  rcases hcase with ⟨e, rfl, htables⟩ | ⟨rfl, htables⟩
  · refine ⟨hindexes, .inl ⟨⟨e, rfl⟩, hcat, ?_, ?_⟩⟩
    · rw [htables]
      exact h.tables
    · rw [hindexes]
      exact h.indexes
  · refine ⟨hindexes, .inr ⟨rfl, hcat, ?_, ?_⟩⟩
    · show TablesInv c.tables _ _ _
      rw [htables]
      exact h.tables.drop name
    · show IndexesInv c.indexes _ _
      rw [hindexes]
      exact h.indexes

/-! ### Indexes -/

/-- The schema has a column of that name, with integer values. -/
def IntegerColumn (schema : Schema) (column : Str) : Prop :=
  ∃ i, schema.indexOf column = some i ∧
    ((schema.columnAt i).type = .int ∨ (schema.columnAt i).type = .bigInt)

theorem indexedColumn_ok {idx : Fin schema.columnCount} (h : indexedColumn schema column = .ok idx) :
    schema.indexOf column = some idx ∧
      IntegerColumn schema column := by
  unfold indexedColumn at h
  cases hidx : schema.indexOf column with
  | none =>
    rw [hidx] at h
    cases h
  | some i =>
    rw [hidx] at h
    dsimp only at h
    split at h
    · obtain rfl := Except.ok.inj h
      exact ⟨rfl, i, hidx, .inl ‹_›⟩
    · obtain rfl := Except.ok.inj h
      exact ⟨rfl, i, hidx, .inr ‹_›⟩
    · cases h

/-- The loop that fills a new index. -/
theorem insertScanned_wp (hholds : LawfulIndexPool.Holds db.indexPool bags) (htree : bags tree = some 0)
    {idx : Fin schema.columnCount} (hidx : schema.indexOf column = some idx)
    {rows : List (RecordId × Row)} (hlen : ∀ r ∈ rows, r.2.length = schema.columnCount)
    {Q : Result Unit → Database σ → Prop} (hQ : ∀ pool, LawfulIndexPool.Holds pool
      (update bags tree (some (indexEntries (keyOf schema column) rows))) →
      Q (.ok ()) { db with indexPool := pool }) :
    wp Store.OutOfPages (rows.forM (insertScanned tree idx)) Q db := by
  refine wp_mono ?_ (wp_forM (E := fun _ _ => False)
    (fun before db' => ∃ pool, db' = { db with indexPool := pool } ∧ LawfulIndexPool.Holds pool
      (update bags tree (some (indexEntries (keyOf schema column) before)))) ?_ ?_)
  · rintro (e | ⟨⟩) db' hpost
    · exact hpost.elim
    · obtain ⟨pool, rfl, hpool⟩ := hpost
      exact hQ pool hpool
  · refine ⟨db.indexPool, rfl, ?_⟩
    rw [show ((indexEntries (keyOf schema column) ([] : List (RecordId × Row)) : List _) : Bag) = 0
      from rfl, ← htree, update_eq_self]
    exact hholds
  · rintro before r after _ heq ⟨pool, rfl, hpool⟩
    have hlt : idx.val < r.2.length := by
      rw [hlen r (by simp [heq])]
      exact idx.isLt
    have hkey : keyOf schema column r.2 = extractInt64Key r.2[idx.val] := by
      rw [keyOf, hidx, Option.bind_some, List.getElem?_eq_getElem hlt, Option.bind_some]
    unfold insertScanned
    rw [wp_bind, List.getElem?_eq_getElem hlt, wp_check (Checked.access_some _ _),
      post_ok, ← hkey]
    cases hk : keyOf schema column r.2 with
    | none =>
      refine ⟨pool, rfl, ?_⟩
      rw [indexEntries_concat, hk]
      exact hpool
    | some key =>
      dsimp only
      rw [wp_bind]
      refine wp_onPart (LawfulIndexPool.insert key r.1 hpool (update_self ..)) ?_
      intro _ pool' hpool'
      refine ⟨pool', rfl, ?_⟩
      rw [update_idem] at hpool'
      rw [indexEntries_concat, hk]
      exact hpool'

/-- What CREATE INDEX does: the tree of the new index mirrors the rows of its table. -/
def CreateIndexOutcome (stmt : CreateIndexStmt) (db : Database σ) (v : DbView)
    (r : Result QueryResult) (db' : Database σ) : Prop :=
  db'.catalog.tables = db.catalog.tables ∧
    (((∃ e, r = .error e) ∧ db'.catalog.indexes = db.catalog.indexes ∧
        ∃ bags', (∀ id b, v.bags id = some b → bags' id = some b) ∧ DbInv db' ⟨v.tables, bags'⟩) ∨
      ∃ t idx b, v.tables stmt.tableName = some t ∧ IntegerColumn t.schema stmt.columnName ∧
        idx.tableName = stmt.tableName ∧ idx.columnName = stmt.columnName ∧
        db.catalog.indexes.find? stmt.indexName = none ∧
        db'.catalog.indexes = db.catalog.indexes.insert stmt.indexName idx ∧
        v.bags idx.metaPageId = none ∧
        Mirrors b (keyOf t.schema stmt.columnName) t.rows ∧
        DbInv db' ⟨v.tables, update v.bags idx.metaPageId (some b)⟩)

/-- A new tree in the pool leaves the others. -/
theorem update_of_none {id : PageId} (hid : bags id = none) (b : Bag) :
    ∀ id' b', bags id' = some b' → update bags id (some b) id' = some b' := by
  intro id' b' hb'
  rw [update_of_ne, hb']
  rintro rfl
  rw [hid] at hb'
  cases hb'

/-- The catalog gets an entry for a tree that is not in it. -/
theorem IndexesInv.create {b : Bag} (h : IndexesInv indexes pool (update bags tree (some b)))
    (hold : ∀ {name idx}, indexes.find? name = some idx → ∃ b, bags idx.metaPageId = some b)
    (htree : bags tree = none) {idx : IndexMetadata} (hidx : idx.metaPageId = tree)
    (hname : indexes.find? name = none) :
    IndexesInv (indexes.insert name idx) pool (update bags tree (some b)) where
  holds := h.holds
  present := by
    intro name' idx' hfind
    rw [UnorderedMap.find?_insert] at hfind
    split_ifs at hfind
    · obtain rfl := Option.some.inj hfind
      exact ⟨b, by rw [hidx, update_self]⟩
    · exact h.present hfind
  distinct := by
    rw [((UnorderedMap.entries_insert_perm hname idx).map _).nodup_iff, List.map_cons,
      List.nodup_cons]
    refine ⟨fun hmem => ?_, h.distinct⟩
    -- a tree of the catalog was in the pool before
    obtain ⟨⟨name', idx'⟩, hentry, heq⟩ := List.mem_map.mp hmem
    obtain ⟨b', hb'⟩ := hold (UnorderedMap.mem_entries_iff.mp hentry)
    dsimp only at heq
    rw [heq, hidx, htree] at hb'
    cases hb'

theorem executeCreateIndex_wp (h : DbInv db v) (stmt : CreateIndexStmt) :
    wp Store.OutOfPages (executeCreateIndex stmt) (CreateIndexOutcome stmt db v) db := by
  unfold executeCreateIndex
  rw [wp_bind]
  refine requireSchema_wp h _ ?_ ?_
  · exact fun e _ => ⟨rfl, .inl ⟨⟨e, rfl⟩, rfl, v.bags, fun _ _ hb => hb, h⟩⟩
  intro t ht
  rw [post_ok, wp_bind]
  cases hcol : indexedColumn t.schema stmt.columnName with
  | error e => exact ⟨rfl, .inl ⟨⟨e, rfl⟩, rfl, v.bags, fun _ _ hb => hb, h⟩⟩
  | ok i =>
    obtain ⟨hi, htype⟩ := indexedColumn_ok hcol
    rw [wp_ofResult, post_ok, wp_bind]
    refine wp_onPart (LawfulIndexPool.openTree_new h.indexes.holds) ?_
    rintro tree pool ⟨hfresh, hpool⟩
    rw [post_ok, wp_bind]
    refine scan_wp { db with indexPool := pool } h.tables ht ?_
    intro rows o hlists htables
    have hlen : ∀ r ∈ rows, r.2.length = t.schema.columnCount := fun r hr =>
      ((h.tables.at ht).conforms ((hlists.mem_iff r.1 r.2).mp hr)).length_eq
    rw [post_ok, wp_bind]
    refine insertScanned_wp hpool (update_self ..) hi hlen ?_
    intro pool' hpool'
    rw [update_idem] at hpool'
    rw [post_ok, wp_bind]
    have hkeep := update_of_none hfresh (indexEntries (keyOf t.schema stmt.columnName) rows)
    have hindexes := h.indexes.of_holds hpool' fun id b hb => ⟨b, hkeep id b hb⟩
    refine Database.wp_onCatalog (P := fun r c st => IndexCreated db.catalog stmt.indexName
      stmt.tableName stmt.columnName tree (r, c) st)
      (CatalogManager.createIndex_wp h.catalog _ _ _ _ (Nat.lt_succ_self _)) ?_
    rintro r c cst ⟨hcat, htables', hcase⟩
    dsimp only at hcat htables' hcase
    rw [post_ok, wp_bind]
    rcases hcase with ⟨e, rfl, hsame⟩ | ⟨idx, rfl, hname, htable, hcolumn, rfl, hinsert⟩
    · refine ⟨htables', .inl ⟨⟨e, rfl⟩, hsame, _, hkeep, hcat, ?_, ?_⟩⟩
      · show TablesInv c.tables o _ _
        rw [htables']
        exact htables
      · show IndexesInv c.indexes pool' _
        rw [hsame]
        exact hindexes
    · refine ⟨htables', .inr ⟨t, idx, _, ht, htype, htable, hcolumn, hname, hinsert, hfresh,
        ⟨rows, hlists, rfl⟩, hcat, ?_, ?_⟩⟩
      · show TablesInv c.tables o _ _
        rw [htables']
        exact htables
      · show IndexesInv c.indexes pool' _
        rw [hinsert]
        exact hindexes.create h.indexes.present hfresh rfl hname

/-- What DROP INDEX does. -/
def DropIndexOutcome (indexName : Str) (db : Database σ) (v : DbView) (r : Result QueryResult)
    (db' : Database σ) : Prop :=
  DbInv db' v ∧ db'.catalog.tables = db.catalog.tables ∧
    (((∃ e, r = .error e) ∧ db'.catalog.indexes = db.catalog.indexes) ∨
      db'.catalog.indexes = db.catalog.indexes.erase indexName)

theorem IndexesInv.drop (h : IndexesInv indexes pool bags) (indexName : Str) :
    IndexesInv (indexes.erase indexName) pool bags where
  holds := h.holds
  present := by
    intro name idx hfind
    rw [UnorderedMap.find?_erase] at hfind
    split_ifs at hfind
    exact h.present hfind
  distinct := h.distinct.sublist (List.filter_sublist.map _)

theorem executeDropIndex_wp (h : DbInv db v) (indexName : Str) :
    wp Store.OutOfPages (executeDropIndex indexName) (DropIndexOutcome indexName db v) db := by
  unfold executeDropIndex
  rw [wp_bind]
  refine Database.wp_onCatalog (P := fun r c st => IndexDropped db.catalog indexName (r, c) st)
    (CatalogManager.dropIndex_wp h.catalog indexName) ?_
  rintro r c cst ⟨hcat, htables, hcase⟩
  dsimp only at hcat htables hcase
  rw [post_ok, wp_bind]
  rcases hcase with ⟨e, rfl, hsame⟩ | ⟨rfl, herase⟩
  · refine ⟨⟨hcat, ?_, ?_⟩, htables, .inl ⟨⟨e, rfl⟩, hsame⟩⟩
    · rw [htables]
      exact h.tables
    · rw [hsame]
      exact h.indexes
  · refine ⟨⟨hcat, ?_, ?_⟩, htables, .inr herase⟩
    · rw [htables]
      exact h.tables
    · rw [herase]
      exact h.indexes.drop indexName

end MiniDB.Executor
