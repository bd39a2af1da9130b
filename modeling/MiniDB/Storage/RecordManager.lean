import MiniDB.Storage.HeapFile
import MiniDB.Storage.Record

/-!
# Record managers

A `RecordManager` stores the rows of one table: it encodes rows for a heap file and decodes what it
reads from it.  It holds the heap file and the schema by pointer; here it carries both, and returns
itself with the heap file as the call left it.
-/

namespace MiniDB

open Paged

/-- `RecordManager` with the heap file and the schema it points to. -/
structure RecordManager where
  heapFile : HeapFile
  schema : Schema
  deriving DecidableEq

namespace RecordManager

variable {C : Type}

/-- The bytes of a row for the heap file, whose lengths are 16-bit numbers. -/
def encodeRow (rm : RecordManager) (caller : String) (values : Row) : Result RecordBytes := do
  let bytes ← RecordCodec.encode rm.schema values
  if h : bytes.length > 0xFFFF then
    throw ⟨.invalidArgument, lit caller ++ lit ": encoded row exceeds 65535-byte codec limit"⟩
  else
    return ⟨bytes, by omega⟩

/-- `InsertRow`. -/
def insertRow (rm : RecordManager) (values : Row) (fuel : Nat) :
    Prog PageId Page C (Result RecordId × RecordManager) := do
  match rm.encodeRow "InsertRow" values with
  | .error status => return (.error status, rm)
  | .ok bytes =>
    let (r, h) ← HeapFile.insertRecord rm.heapFile bytes fuel
    return (r, { rm with heapFile := h })

/-- `GetRow`. -/
def getRow (rm : RecordManager) (rid : RecordId) : Prog PageId Page C (Result Row) := do
  match ← HeapFile.getRecordBytes rid with
  | .error status => return .error status
  | .ok bytes => Prog.check (RecordCodec.decode rm.schema bytes)

/-- `UpdateRow`. -/
def updateRow (rm : RecordManager) (rid : RecordId) (values : Row) (fuel : Nat) :
    Prog PageId Page C (Result RecordId × RecordManager) := do
  match rm.encodeRow "UpdateRow" values with
  | .error status => return (.error status, rm)
  | .ok bytes =>
    let (r, h) ← HeapFile.updateRecord rm.heapFile rid bytes fuel
    return (r, { rm with heapFile := h })

/-- `DeleteRow`. -/
def deleteRow (rid : RecordId) : Prog PageId Page C (Result Unit) := HeapFile.deleteRecord rid

/-- What `Scan` passes on to its visitor: the records that can be decoded. -/
def decodeRecords (schema : Schema) :
    List (RecordId × Str) → Prog PageId Page C (List (RecordId × Row))
  | [] => return []
  | (rid, bytes) :: rest => do
    match ← Prog.check (RecordCodec.decode schema bytes) with
    | .ok row =>
      let rows ← decodeRecords schema rest
      return (rid, row) :: rows
    | .error _ => decodeRecords schema rest

/-- `Scan`: the rows passed to the visitor, in order. -/
def scan (rm : RecordManager) (fuel : Nat) : Prog PageId Page C (List (RecordId × Row)) := do
  let records ← HeapFile.scan rm.heapFile fuel
  decodeRecords rm.schema records

end RecordManager

end MiniDB
