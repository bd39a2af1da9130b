import MiniDB.Storage.HeapFile
import MiniDB.Storage.Record
import MiniDB.Transaction.TransactionManager

/-!
# Versions of rows

A `VersionedRecordStore` keeps rows in a heap file with a header in front of them: the transaction that
made the version, and the one that deleted it.  An update deletes the old version and inserts a new one.
What a transaction sees of this is decided when it scans, from its own snapshot and the states the
transactions have by then (`isVisible`).
-/

namespace MiniDB

open Paged Bytes

/-- `VersionMeta`. -/
structure VersionMeta where
  xmin : TxnId
  xmax : TxnId
  deriving DecidableEq

namespace Mvcc

/-- `kVersionHeaderSize`. -/
def kVersionHeaderSize : Nat := 16

/-- `EncodeVersioned`. -/
def encodeVersioned (m : VersionMeta) (encodedRow : Str) : Str :=
  FixedSize.toBytes m.xmin ++ FixedSize.toBytes m.xmax ++ encodedRow

/-- `DecodeVersionMeta`. -/
def decodeVersionMeta (bytes : Str) : Option VersionMeta := do
  let xmin ← fixedAt? TxnId bytes 0
  let xmax ← fixedAt? TxnId bytes 8
  return ⟨xmin, xmax⟩

/-- `RowPayload`; `substr` refuses to start outside the string. -/
def rowPayload (bytes : Str) : Option Str :=
  if kVersionHeaderSize ≤ bytes.length then some (bytes.drop kVersionHeaderSize) else none

/-- `CommittedAndVisibleTo`. -/
def committedAndVisibleTo (id : TxnId) (reader : Transaction) (txnMgr : TransactionManager) : Bool :=
  if id = kInvalidTxnId then false
  else
    match txnMgr.getTransaction id with
    | none => false
    | some actor =>
      if actor.state ≠ .committed then false
      else
        match reader.isolationLevel with
        | .readCommitted => true
        | .snapshotIsolation => decide (id < reader.txnId) && decide (id ∉ reader.activeAtStart)

/-- `IsVisible`. -/
def isVisible (m : VersionMeta) (reader : Transaction) (txnMgr : TransactionManager) : Bool :=
  let createdBySelf := decide (m.xmin = reader.txnId)
  let deletedBySelf := decide (m.xmax = reader.txnId)
  if deletedBySelf then false
  else if !(createdBySelf || committedAndVisibleTo m.xmin reader txnMgr) then false
  else if m.xmax = kInvalidTxnId then true
  else !committedAndVisibleTo m.xmax reader txnMgr

end Mvcc

/-- `VersionedRecordStore` with the heap file and the schema it points to. -/
structure VersionedRecordStore where
  heapFile : HeapFile
  schema : Schema
  deriving DecidableEq

namespace VersionedRecordStore

open Mvcc

variable {C : Type}

/-- The record of a new version. -/
def encodeNew (vs : VersionedRecordStore) (txnId : TxnId) (values : Row) : Result RecordBytes := do
  let encoded ← RecordCodec.encode vs.schema values
  let versioned := encodeVersioned ⟨txnId, kInvalidTxnId⟩ encoded
  if h : versioned.length > 0xFFFF then
    throw ⟨.invalidArgument, lit "InsertVersion: encoded row exceeds codec limit"⟩
  else
    return ⟨versioned, by omega⟩

/-- `InsertVersion`. -/
def insertVersion (vs : VersionedRecordStore) (txnId : TxnId) (values : Row) (fuel : Nat) :
    Prog PageId Page C (Result RecordId × VersionedRecordStore) := do
  match vs.encodeNew txnId values with
  | .error status => return (.error status, vs)
  | .ok versioned =>
    let (r, h) ← HeapFile.insertRecord vs.heapFile versioned fuel
    return (r, { vs with heapFile := h })

/-- The bytes that are passed on with a size cast to 16 bits. -/
def castSize (bytes : Str) : RecordBytes :=
  ⟨bytes.take (bytes.length % 2 ^ 16), by
    rw [List.length_take]
    exact Nat.lt_of_le_of_lt (Nat.min_le_left ..) (Nat.mod_lt _ (by decide))⟩

/-- `DeleteVersion`. -/
def deleteVersion (vs : VersionedRecordStore) (txnId : TxnId) (rid : RecordId) (fuel : Nat) :
    Prog PageId Page C (Result Unit × VersionedRecordStore) := do
  match ← HeapFile.getRecordBytes rid with
  | .error status => return (.error status, vs)
  | .ok bytes =>
    let m ← Prog.access (decodeVersionMeta bytes)
    let payload ← Prog.access (rowPayload bytes)
    let versioned := encodeVersioned { m with xmax := txnId } payload
    let (r, h) ← HeapFile.updateRecord vs.heapFile rid (castSize versioned) fuel
    return (r.map fun _ => (), { vs with heapFile := h })

/-- `UpdateVersion`. -/
def updateVersion (vs : VersionedRecordStore) (txnId : TxnId) (oldRid : RecordId) (newValues : Row)
    (fuel : Nat) : Prog PageId Page C (Result RecordId × VersionedRecordStore) := do
  match ← vs.deleteVersion txnId oldRid fuel with
  | (.error status, vs) => return (.error status, vs)
  | (.ok (), vs) => vs.insertVersion txnId newValues fuel

/-- What `ScanVisible` passes on to its visitor. -/
def visibleRows (schema : Schema) (reader : Transaction) (txnMgr : TransactionManager) :
    List (RecordId × Str) → Prog PageId Page C (List (RecordId × Row))
  | [] => return []
  | (rid, bytes) :: rest => do
    let m ← Prog.access (decodeVersionMeta bytes)
    if isVisible m reader txnMgr then
      let payload ← Prog.access (rowPayload bytes)
      match ← Prog.check (RecordCodec.decode schema payload) with
      | .ok row =>
        let rows ← visibleRows schema reader txnMgr rest
        return (rid, row) :: rows
      | .error _ => visibleRows schema reader txnMgr rest
    else visibleRows schema reader txnMgr rest

/-- `ScanVisible`. -/
def scanVisible (vs : VersionedRecordStore) (reader : Transaction) (txnMgr : TransactionManager)
    (fuel : Nat) : Prog PageId Page C (List (RecordId × Row)) := do
  let records ← HeapFile.scan vs.heapFile fuel
  visibleRows vs.schema reader txnMgr records

end VersionedRecordStore

/-! ### Interleaved transactions -/

/-- A versioned store with its transaction manager. -/
structure MvccSystem where
  txnMgr : TransactionManager
  pool : Store
  records : VersionedRecordStore

/-- A call of a transaction. -/
inductive MvccCall
  | txn (call : TxnCall)
  | insertVersion (txnId : TxnId) (values : Row)
  | deleteVersion (txnId : TxnId) (rid : RecordId)
  | updateVersion (txnId : TxnId) (oldRid : RecordId) (newValues : Row)
  deriving DecidableEq

/-- Its answer. -/
inductive MvccAnswer
  | txn (answer : TxnAnswer)
  | record (r : Result RecordId)
  | status (r : Result Unit)
  deriving DecidableEq

namespace MvccSystem

/-- A new heap file for the versions, and a manager that has no transactions. -/
def create (transactions : UnorderedMap TxnId Transaction) (pool : Store) (schema : Schema) :
    Except Fault MvccSystem := do
  let (h, pool) ← Store.exec (fun _ => HeapFile.openHeap (C := Empty) kInvalidPageId) pool
  return ⟨.new transactions, pool, ⟨h, schema⟩⟩

/-- A call of the versioned store. -/
def call {α : Type} (s : MvccSystem) (answer : α → MvccAnswer)
    (x : Nat → Prog PageId Page Empty (α × VersionedRecordStore)) :
    Except Fault (MvccAnswer × MvccSystem) := do
  let ((a, records), pool) ← Store.exec x s.pool
  return (answer a, { s with pool := pool, records := records })

/-- The system executes a call. -/
def exec (s : MvccSystem) : MvccCall → Except Fault (MvccAnswer × MvccSystem)
  | .txn c => (s.txnMgr.exec c).map fun r => (.txn r.1, { s with txnMgr := r.2 })
  | .insertVersion txnId values => s.call .record (s.records.insertVersion txnId values)
  | .deleteVersion txnId rid => s.call .status (s.records.deleteVersion txnId rid)
  | .updateVersion txnId oldRid newValues =>
    s.call .record (s.records.updateVersion txnId oldRid newValues)

/-- What `ScanVisible` of a transaction returns. -/
def scanVisible (s : MvccSystem) (id : TxnId) : Option (List (RecordId × Row)) := do
  let reader ← s.txnMgr.getTransaction id
  let (rows, _) ← (Store.exec (C := Empty) (s.records.scanVisible reader s.txnMgr) s.pool).toOption
  return rows

end MvccSystem

end MiniDB
