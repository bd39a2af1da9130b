import MiniDB.Lib.Reader
import MiniDB.Common.Value
import MiniDB.Storage.Page
import MiniDB.Utilities.Status

/-!
# Catalog metadata

The entries of the catalog for tables and indexes, and their bytes in the catalog heaps.  Lengths of
names and the number of columns are written as 16-bit numbers, whatever they are; callers refuse
encodings above 65535 bytes.
-/

namespace MiniDB

open Bytes Effect

/-- `catalog::TableMetadata`. -/
structure TableMetadata where
  tableId : UInt32 := 0
  tableName : Str
  schema : Schema
  firstPageId : PageId := kInvalidPageId
  /-- where the entry is stored in the catalog heap -/
  catalogRecordId : RecordId := ⟨kInvalidPageId, 0⟩
  deriving DecidableEq

/-- `catalog::IndexMetadata`. -/
structure IndexMetadata where
  indexId : UInt32 := 0
  indexName : Str
  tableName : Str
  columnName : Str
  metaPageId : PageId := kInvalidPageId
  /-- where the entry is stored in the index catalog heap -/
  catalogRecordId : RecordId := ⟨kInvalidPageId, 0⟩
  deriving DecidableEq

namespace Catalog

/-- A string with its length. -/
def encodeString (s : Str) : Str := FixedSize.toBytes (UInt16.ofNat s.length) ++ s

/-- `static_cast<char>(col.type)`. -/
def columnTypeCode : ColumnType → UInt8
  | .int => 0
  | .bigInt => 1
  | .double => 2
  | .bool => 3
  | .varchar => 4

def encodeColumn (col : Column) : Str :=
  encodeString col.name ++ [columnTypeCode col.type] ++ [if col.nullable then 1 else 0]
    ++ FixedSize.toBytes col.maxLength

/-- `EncodeTableMetadata`. -/
def encodeTableMetadata (m : TableMetadata) : Str :=
  FixedSize.toBytes m.tableId ++ encodeString m.tableName ++ FixedSize.toBytes m.firstPageId
    ++ FixedSize.toBytes (UInt16.ofNat m.schema.columnCount) ++ m.schema.columns.flatMap encodeColumn

/-- `EncodeIndexMetadata`. -/
def encodeIndexMetadata (m : IndexMetadata) : Str :=
  FixedSize.toBytes m.indexId ++ encodeString m.indexName ++ encodeString m.tableName
    ++ encodeString m.columnName ++ FixedSize.toBytes m.metaPageId

/-! ### Decoding -/

/-- `Corruption` with the given message. -/
def corrupt (message : String) : Status := ⟨.corruption, lit message⟩

/-- `static_cast<ColumnType>`.  A byte that is not the code of a type has no counterpart here. -/
def columnTypeOfCode? (code : UInt8) : Option ColumnType :=
  if code = 0 then some .int
  else if code = 1 then some .bigInt
  else if code = 2 then some .double
  else if code = 3 then some .bool
  else if code = 4 then some .varchar
  else none

/-- A string behind its length. -/
def readString (noLength noString : Status) (data : Str) (cursor : Nat) : Fallible (Str × Nat) := do
  let (len, cursor) ← Reader.fixed UInt16 noLength data cursor
  Reader.bytes len.toNat noString data cursor

/-- A column of a table. -/
def readColumn (data : Str) (cursor : Nat) : Fallible (Column × Nat) := do
  let (name, cursor) ← readString (corrupt "catalog: truncated column name length")
    (corrupt "catalog: truncated column name") data cursor
  let (code, cursor) ← Reader.fixed UInt8 (corrupt "catalog: truncated column type") data cursor
  let type ← Checked.access .outOfBounds (columnTypeOfCode? code)
  let (nullable, cursor) ← Reader.fixed UInt8 (corrupt "catalog: truncated nullable flag") data cursor
  let (maxLength, cursor) ← Reader.fixed UInt16 (corrupt "catalog: truncated max_length") data cursor
  return (⟨name, type, nullable != 0, maxLength⟩, cursor)

/-- The loop over the columns of a table. -/
def readColumns : Nat → Str → Nat → Fallible (List Column × Nat)
  | 0, _, cursor => return ([], cursor)
  | n + 1, data, cursor => do
    let (col, cursor) ← readColumn data cursor
    let (cols, cursor) ← readColumns n data cursor
    return (col :: cols, cursor)

/-- The entry of a table, and the cursor behind it. -/
def readTableMetadata (data : Str) (cursor : Nat) : Fallible (TableMetadata × Nat) := do
  let (tableId, cursor) ← Reader.fixed UInt32 (corrupt "catalog: truncated table_id") data cursor
  let (tableName, cursor) ← readString (corrupt "catalog: truncated name length")
    (corrupt "catalog: truncated name") data cursor
  let (firstPageId, cursor) ←
    Reader.fixed PageId (corrupt "catalog: truncated first_page_id") data cursor
  let (colCount, cursor) ← Reader.fixed UInt16 (corrupt "catalog: truncated column count") data cursor
  let (columns, cursor) ← readColumns colCount.toNat data cursor
  return ({ tableId, tableName, schema := ⟨columns⟩, firstPageId }, cursor)

/-- `DecodeTableMetadata`. -/
def decodeTableMetadata (data : Str) : Fallible TableMetadata := do
  let (entry, _) ← readTableMetadata data 0
  return entry

/-- The entry of an index, and the cursor behind it. -/
def readIndexMetadata (data : Str) (cursor : Nat) : Fallible (IndexMetadata × Nat) := do
  let (indexId, cursor) ←
    Reader.fixed UInt32 (corrupt "index catalog: truncated index_id") data cursor
  let (indexName, cursor) ← readString (corrupt "index catalog: truncated index_name")
    (corrupt "index catalog: truncated index_name") data cursor
  let (tableName, cursor) ← readString (corrupt "index catalog: truncated table_name")
    (corrupt "index catalog: truncated table_name") data cursor
  let (columnName, cursor) ← readString (corrupt "index catalog: truncated column_name")
    (corrupt "index catalog: truncated column_name") data cursor
  let (metaPageId, cursor) ←
    Reader.fixed PageId (corrupt "index catalog: truncated meta_page_id") data cursor
  return ({ indexId, indexName, tableName, columnName, metaPageId }, cursor)

/-- `DecodeIndexMetadata`. -/
def decodeIndexMetadata (data : Str) : Fallible IndexMetadata := do
  let (entry, _) ← readIndexMetadata data 0
  return entry

end Catalog

end MiniDB
