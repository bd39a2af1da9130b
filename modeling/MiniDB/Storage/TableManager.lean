import MiniDB.Database

/-!
# Table managers

`TableManager` finds the record manager of a table by name, opening the table's heap file on first
use.  An open table is a `RecordManager`: the heap file and the schema of the catalog entry it was
opened with.
-/

namespace MiniDB.TableManager

open Paged Effect CatalogManager

variable {σ : Type}

/-- `GetSchema`. -/
def getSchema (table : Str) : Db σ (Option Schema) := do
  let db ← get
  return (db.catalog.getTable table).map TableMetadata.schema

/-- `OpenAndCache`. -/
def openAndCache (name : Str) (entry : TableMetadata) : Db σ RecordManager := do
  let heapFile ← Database.onData fun _ => HeapFile.openHeap entry.firstPageId
  let rm : RecordManager := { heapFile := heapFile, schema := entry.schema }
  modify fun db => { db with openTables := db.openTables.insert name rm }
  return rm

/-- `GetOrOpen`. -/
def getOrOpen (name : Str) : Db σ (Option RecordManager) := do
  let db ← get
  match db.openTables.find? name with
  | some rm => return some rm
  | none =>
    match db.catalog.getTable name with
    | none => return none
    | some entry =>
      let rm ← openAndCache name entry
      return some rm

/-- The open table, or `NotFound` from the given caller. -/
def requireTable (caller : String) (table : Str) : Db σ RecordManager := do
  match ← getOrOpen table with
  | some rm => return rm
  | none => throw ⟨.notFound, lit caller ++ lit ": no such table " ++ quoted table⟩

/-- A call on an open table that may change its heap file object. -/
def callTable {α : Type} (table : Str)
    (x : Nat → Prog PageId Page Empty (Result α × RecordManager)) : Db σ α := do
  let (r, rm) ← Database.onData x
  modify fun db => { db with openTables := db.openTables.adjust table fun _ => rm }
  Action.ofResult r

/-- `CreateTable`. -/
def createTable (name : Str) (schema : Schema) : Db σ Unit := do
  let heap ← Database.onData fun _ => HeapFile.openHeap kInvalidPageId
  let created ← Database.onCatalog fun c => c.createTable name schema heap.firstPageId
  let entry ← Action.ofResult created
  let _ ← openAndCache name entry

/-- `DropTable`. -/
def dropTable (name : Str) : Db σ Unit := do
  let dropped ← Database.onCatalog fun c _ => c.dropTable name
  Action.ofResult dropped
  modify fun db => { db with openTables := db.openTables.erase name }

/-- `InsertRow`. -/
def insertRow (table : Str) (values : Row) : Db σ RecordId := do
  let rm ← requireTable "InsertRow" table
  callTable table (rm.insertRow values)

/-- `GetRow`. -/
def getRow (table : Str) (rid : RecordId) : Db σ Row := do
  let rm ← requireTable "GetRow" table
  let r ← Database.onData fun _ => rm.getRow rid
  Action.ofResult r

/-- `UpdateRow`. -/
def updateRow (table : Str) (rid : RecordId) (values : Row) : Db σ RecordId := do
  let rm ← requireTable "UpdateRow" table
  callTable table (rm.updateRow rid values)

/-- `DeleteRow`. -/
def deleteRow (table : Str) (rid : RecordId) : Db σ Unit := do
  let _ ← requireTable "DeleteRow" table
  let r ← Database.onData fun _ => RecordManager.deleteRow rid
  Action.ofResult r

/-- `Scan`: the rows passed to the visitor, in order. -/
def scan (table : Str) : Db σ (List (RecordId × Row)) := do
  let rm ← requireTable "Scan" table
  Database.onData rm.scan

end MiniDB.TableManager
