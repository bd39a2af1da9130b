import MiniDB.Catalog.Metadata
import MiniDB.Lib.UnorderedMap
import MiniDB.Storage.HeapFile

/-!
# The catalog

`CatalogManager` keeps the tables and the indexes of a database in two maps by name, and an entry for
each of them in two heap files of its own pool.  The functions are programs over that pool; they
return the catalog as they leave it.
-/

namespace MiniDB

open Paged Catalog

/-- `CatalogManager`. -/
structure CatalogManager where
  catalogHeap : HeapFile
  indexHeap : HeapFile
  tables : UnorderedMap Str TableMetadata
  indexes : UnorderedMap Str IndexMetadata
  nextTableId : UInt32
  nextIndexId : UInt32

/-- The iteration orders of the maps of a catalog. -/
structure CatalogOrder where
  tables : List (Str × TableMetadata) → List (Str × TableMetadata)
  tables_perm : ∀ l, (tables l).Perm l
  indexes : List (Str × IndexMetadata) → List (Str × IndexMetadata)
  indexes_perm : ∀ l, (indexes l).Perm l

namespace CatalogManager

variable {C : Type}

/-- The constructor for a new catalog: two new heap files and no entries. -/
def create (order : CatalogOrder) : Prog PageId Page C CatalogManager := do
  let catalogHeap ← HeapFile.openHeap kInvalidPageId
  let indexHeap ← HeapFile.openHeap kInvalidPageId
  return {
    catalogHeap := catalogHeap
    indexHeap := indexHeap
    tables := .empty order.tables order.tables_perm
    indexes := .empty order.indexes order.indexes_perm
    nextTableId := 1
    nextIndexId := 1 }

/-- `'…'` around a name in a message. -/
def quoted (name : Str) : Str := lit "'" ++ name ++ lit "'"

/-- `GetTable`. -/
def getTable (c : CatalogManager) (name : Str) : Option TableMetadata := c.tables.find? name

/-- `GetIndexesForTable`, in the iteration order of the map. -/
def getIndexesForTable (c : CatalogManager) (tableName : Str) : List IndexMetadata :=
  (c.indexes.entries.map Prod.snd).filter fun m => m.tableName = tableName

/-- `CreateTable`. -/
def createTable (c : CatalogManager) (name : Str) (schema : Schema) (dataFirstPageId : PageId)
    (fuel : Nat) : Prog PageId Page C (Result TableMetadata × CatalogManager) := do
  if (c.tables.find? name).isSome then
    return (.error ⟨.alreadyExists,
      lit "CreateTable: table " ++ quoted name ++ lit " already exists"⟩, c)
  else
    let entry : TableMetadata := {
      tableId := c.nextTableId
      tableName := name
      schema := schema
      firstPageId := dataFirstPageId }
    let c := { c with nextTableId := c.nextTableId + 1 }
    let encoded := encodeTableMetadata entry
    if h : encoded.length > 0xFFFF then
      return (.error ⟨.invalidArgument,
        lit "CreateTable: encoded metadata too large (too many/long columns)"⟩, c)
    else
      let (rid, catalogHeap) ← HeapFile.insertRecord c.catalogHeap ⟨encoded, by omega⟩ fuel
      let c := { c with catalogHeap := catalogHeap }
      match rid with
      | .error status => return (.error status, c)
      | .ok rid =>
        let entry := { entry with catalogRecordId := rid }
        return (.ok entry, { c with tables := c.tables.insert name entry })

/-- `DropTable`. -/
def dropTable (c : CatalogManager) (name : Str) :
    Prog PageId Page C (Result Unit × CatalogManager) := do
  match c.tables.find? name with
  | none =>
    return (.error ⟨.notFound, lit "DropTable: table " ++ quoted name ++ lit " does not exist"⟩, c)
  | some entry =>
    match ← HeapFile.deleteRecord entry.catalogRecordId with
    | .error status => return (.error status, c)
    | .ok () => return (.ok (), { c with tables := c.tables.erase name })

/-- `CreateIndex`. -/
def createIndex (c : CatalogManager) (indexName tableName columnName : Str) (metaPageId : PageId)
    (fuel : Nat) : Prog PageId Page C (Result IndexMetadata × CatalogManager) := do
  if (c.indexes.find? indexName).isSome then
    return (.error ⟨.alreadyExists,
      lit "CreateIndex: index " ++ quoted indexName ++ lit " already exists"⟩, c)
  else
    let entry : IndexMetadata := {
      indexId := c.nextIndexId
      indexName := indexName
      tableName := tableName
      columnName := columnName
      metaPageId := metaPageId }
    let c := { c with nextIndexId := c.nextIndexId + 1 }
    let encoded := encodeIndexMetadata entry
    if h : encoded.length > 0xFFFF then
      return (.error ⟨.invalidArgument, lit "CreateIndex: encoded metadata too large"⟩, c)
    else
      let (rid, indexHeap) ← HeapFile.insertRecord c.indexHeap ⟨encoded, by omega⟩ fuel
      let c := { c with indexHeap := indexHeap }
      match rid with
      | .error status => return (.error status, c)
      | .ok rid =>
        let entry := { entry with catalogRecordId := rid }
        return (.ok entry, { c with indexes := c.indexes.insert indexName entry })

/-- `DropIndex`. -/
def dropIndex (c : CatalogManager) (indexName : Str) :
    Prog PageId Page C (Result Unit × CatalogManager) := do
  match c.indexes.find? indexName with
  | none =>
    return (.error
      ⟨.notFound, lit "DropIndex: index " ++ quoted indexName ++ lit " does not exist"⟩, c)
  | some entry =>
    match ← HeapFile.deleteRecord entry.catalogRecordId with
    | .error status => return (.error status, c)
    | .ok () => return (.ok (), { c with indexes := c.indexes.erase indexName })

end CatalogManager

end MiniDB
