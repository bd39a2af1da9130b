import MiniDB.Storage.Page
import MiniDB.Transaction.TransactionManager

/-!
# The write-ahead log

A `WalManager` appends records to a log file and reads all of them back.  A record is written as its
length, in four bytes, and then its bytes: the log sequence number, the type, the transaction and the
page, and the two page images if it is an update.

The file is the list of its bytes.  It is flushed with every append, so that a manager and everyone who
reads the file by its path see the same bytes.
-/

namespace MiniDB

open Bytes Effect Paged

/-- `lsn_t`. -/
abbrev Lsn := UInt64

/-- `kInvalidLsn`. -/
def kInvalidLsn : Lsn := 0

/-- `WALRecordType`.  The type of a record that is read is any byte, whether it has a name or not. -/
inductive WalRecordType
  | update
  | commit
  | abort
  | checkpoint
  | unnamed (byte : UInt8)
  deriving DecidableEq, Repr

namespace WalRecordType

/-- `static_cast<char>`. -/
def toByte : WalRecordType → UInt8
  | update => 1
  | commit => 2
  | abort => 3
  | checkpoint => 4
  | unnamed byte => byte

/-- `static_cast<WALRecordType>`. -/
def ofByte (byte : UInt8) : WalRecordType :=
  if byte = 1 then update
  else if byte = 2 then commit
  else if byte = 3 then abort
  else if byte = 4 then checkpoint
  else unnamed byte

end WalRecordType

/-- `WALRecord`. -/
structure WalRecord where
  lsn : Lsn := kInvalidLsn
  type : WalRecordType := .update
  txnId : TxnId := kInvalidTxnId
  pageId : PageId := kInvalidPageId
  beforeImage : Str := []
  afterImage : Str := []
  deriving DecidableEq, Repr

namespace WalRecord

/-- `kFixedSize`: the bytes of a record before its images. -/
def kFixedSize : Nat := 8 + 1 + 8 + 4

/-- The bytes of a record. -/
def serialize (r : WalRecord) : Str :=
  FixedSize.toBytes r.lsn ++ r.type.toByte :: FixedSize.toBytes r.txnId
    ++ FixedSize.toBytes r.pageId
    ++ if r.type = .update then r.beforeImage ++ r.afterImage else []

/-- What is written for a record: its length and its bytes. -/
def frame (r : WalRecord) : Str :=
  FixedSize.toBytes (UInt32.ofNat r.serialize.length) ++ r.serialize

/-- The record with the given bytes, as `ReadAll` takes them apart.  The length is not checked for
the fixed part. -/
def deserialize (buf : Str) : Fallible WalRecord := do
  -- `data()` has the terminator of the string behind its bytes
  let data := buf ++ [0]
  let lsn ← Checked.access .outOfBounds (fixedAt? Lsn data 0)
  let type ← Checked.access .outOfBounds (fixedAt? UInt8 data 8)
  let txnId ← Checked.access .outOfBounds (fixedAt? TxnId data 9)
  let pageId ← Checked.access .outOfBounds (fixedAt? PageId data 17)
  if WalRecordType.ofByte type = .update then
    if buf.length < kFixedSize + 2 * kPageSize then
      throw ⟨.corruption, lit "WAL: truncated update record images"⟩
    return {
      lsn, txnId, pageId
      type := .ofByte type
      beforeImage := slice kFixedSize kPageSize buf
      afterImage := slice (kFixedSize + kPageSize) kPageSize buf }
  return { lsn, txnId, pageId, type := .ofByte type }

end WalRecord

/-- `WALManager`. -/
structure WalManager where
  file : Str
  nextLsn : Lsn
  deriving DecidableEq, Repr

namespace WalManager

/-- The loop of `ReadAll` on what is left of the file. -/
def readRecords : Nat → Str → Fallible (List WalRecord)
  | 0, _ => Checked.die .noFuel
  | rounds + 1, file =>
    -- fewer bytes than a length has are the end of the log
    if file.length < 4 then
      pure []
    else do
      let len := (FixedSize.ofBytes (file.take 4) : UInt32).toNat
      let rest := file.drop 4
      if rest.length < len then
        throw ⟨.corruption, lit "WAL: truncated record (possible mid-write crash)"⟩
      let r ← WalRecord.deserialize (rest.take len)
      let records ← readRecords rounds (rest.drop len)
      return r :: records

/-- `ReadAll`.  A round of the loop takes bytes off the file, so that it has fewer rounds than bytes
and one more. -/
def readAll (file : Str) : Fallible (List WalRecord) := readRecords (file.length + 1) file

/-- The constructor: the log goes on after its last record, or with the first number if there is none or
the log cannot be read. -/
def openFile (file : Str) : Except Fault WalManager :=
  (readAll file).run.map fun existing => {
    file
    nextLsn := match existing with
      | .ok records => records.getLast?.elim 1 fun r => r.lsn + 1
      | .error _ => 1 }

/-- `AppendRecord`.  Every record takes bytes of the file, so that the disk ends before the numbers do:
the model stops with the last number. -/
def appendRecord (record : WalRecord) (m : WalManager) : Except Fault (Lsn × WalManager) :=
  if m.nextLsn = 0xFFFFFFFFFFFFFFFF then
    .error .noMemory
  else
    let r := { record with lsn := m.nextLsn }
    .ok (r.lsn, { file := m.file ++ r.frame, nextLsn := m.nextLsn + 1 })

/-- `AppendUpdate`. -/
def appendUpdate (txnId : TxnId) (pageId : PageId) (before after : Page) :
    WalManager → Except Fault (Lsn × WalManager) :=
  appendRecord {
    type := .update
    txnId, pageId
    beforeImage := before.data
    afterImage := after.data }

/-- `AppendCommit`. -/
def appendCommit (txnId : TxnId) : WalManager → Except Fault (Lsn × WalManager) :=
  appendRecord { type := .commit, txnId }

/-- `AppendAbort`. -/
def appendAbort (txnId : TxnId) : WalManager → Except Fault (Lsn × WalManager) :=
  appendRecord { type := .abort, txnId }

/-- `AppendCheckpoint`. -/
def appendCheckpoint : WalManager → Except Fault (Lsn × WalManager) :=
  appendRecord { type := .checkpoint }

end WalManager

/-! ### Histories -/

/-- The calls that append a record. -/
inductive WalCall
  | appendUpdate (txnId : TxnId) (pageId : PageId) (before after : Page)
  | appendCommit (txnId : TxnId)
  | appendAbort (txnId : TxnId)
  | appendCheckpoint
  deriving DecidableEq

/-- An appending call on a manager. -/
def WalCall.exec (m : WalManager) : WalCall → Except Fault (Lsn × WalManager)
  | appendUpdate txnId pageId before after => m.appendUpdate txnId pageId before after
  | appendCommit txnId => m.appendCommit txnId
  | appendAbort txnId => m.appendAbort txnId
  | appendCheckpoint => m.appendCheckpoint

/-- What happens to a log file: a call on the manager that has it open, or its end and a new manager
for the same file. -/
inductive WalStep
  | call (c : WalCall)
  | reopen
  deriving DecidableEq

/-- A step of a history; the number an appending call returns. -/
def WalStep.exec (m : WalManager) : WalStep → Except Fault (Option Lsn × WalManager)
  | call c => (c.exec m).map fun p => (some p.1, p.2)
  | reopen => (WalManager.openFile m.file).map fun m => (none, m)

end MiniDB
