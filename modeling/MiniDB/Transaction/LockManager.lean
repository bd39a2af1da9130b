import MiniDB.Lib.UnorderedMap
import MiniDB.Storage.Page
import MiniDB.Transaction.TransactionManager

/-!
# Row locks

A `LockManager` keeps the holders of the lock on each row, and for each transaction the rows it has
locks on.  No call waits: a lock that cannot be had is a `Conflict`.

Each call holds the mutex from its start to its end, but for `ReleaseAll`: it copies the rows of the
transaction, unlocks them one by one, and forgets the transaction, and the mutex is free between these
steps.  `LockSystem` keeps for each transaction what is left to do of its `ReleaseAll`; the steps of
several transactions may alternate in any way.
-/

namespace MiniDB

/-- `LockManager::LockEntry`. -/
structure LockEntry where
  sharedHolders : Finset TxnId
  exclusiveHolder : TxnId
  deriving DecidableEq

/-- `LockManager`.  `emptySet` is the empty set of rows of some implementation. -/
structure LockManager where
  lockTable : UnorderedMap RecordId LockEntry
  txnLocks : UnorderedMap TxnId (UnorderedSet RecordId)
  emptySet : UnorderedSet RecordId

namespace LockManager

/-- `lock_table_[rid]`, which adds an entry if there is none. -/
def entryAt (m : LockManager) (rid : RecordId) : LockEntry × LockManager :=
  match m.lockTable.find? rid with
  | some entry => (entry, m)
  | none =>
    let entry : LockEntry := ⟨∅, kInvalidTxnId⟩
    (entry, { m with lockTable := m.lockTable.insert rid entry })

/-- The entry changed in its place, and `txn_locks_[txn_id].insert(rid)`. -/
def setEntry (m : LockManager) (txnId : TxnId) (rid : RecordId) (entry : LockEntry) : LockManager :=
  { m with
    lockTable := m.lockTable.adjust rid fun _ => entry
    txnLocks :=
      match m.txnLocks.find? txnId with
      | some rows => m.txnLocks.adjust txnId fun _ => rows.add rid
      | none => m.txnLocks.insert txnId (m.emptySet.add rid) }

/-- `LockShared`. -/
def lockShared (m : LockManager) (txnId : TxnId) (rid : RecordId) : Result Unit × LockManager :=
  let (entry, m) := m.entryAt rid
  if entry.exclusiveHolder ≠ kInvalidTxnId ∧ entry.exclusiveHolder ≠ txnId then
    (.error ⟨.conflict, lit "LockShared: row is exclusively locked by another transaction"⟩, m)
  else
    (.ok (), m.setEntry txnId rid { entry with sharedHolders := insert txnId entry.sharedHolders })

/-- `LockExclusive`. -/
def lockExclusive (m : LockManager) (txnId : TxnId) (rid : RecordId) : Result Unit × LockManager :=
  let (entry, m) := m.entryAt rid
  if entry.exclusiveHolder ≠ kInvalidTxnId ∧ entry.exclusiveHolder ≠ txnId then
    (.error ⟨.conflict, lit "LockExclusive: row is exclusively locked by another transaction"⟩, m)
  else if ∃ holder ∈ entry.sharedHolders, holder ≠ txnId then
    (.error ⟨.conflict, lit "LockExclusive: row is share-locked by another transaction"⟩, m)
  else
    (.ok (), m.setEntry txnId rid ⟨∅, txnId⟩)

/-- `Unlock`. -/
def unlock (m : LockManager) (txnId : TxnId) (rid : RecordId) : Result Unit × LockManager :=
  match m.lockTable.find? rid with
  | none => (.error ⟨.notFound, lit "Unlock: no lock held on this row"⟩, m)
  | some entry =>
    let held := txnId ∈ entry.sharedHolders ∨ entry.exclusiveHolder = txnId
    let entry : LockEntry := {
      sharedHolders := entry.sharedHolders.erase txnId
      exclusiveHolder :=
        if entry.exclusiveHolder = txnId then kInvalidTxnId else entry.exclusiveHolder }
    let m := { m with
      lockTable :=
        if entry.sharedHolders = ∅ ∧ entry.exclusiveHolder = kInvalidTxnId then
          m.lockTable.erase rid
        else m.lockTable.adjust rid fun _ => entry
      txnLocks := m.txnLocks.adjust txnId fun rows => rows.erase rid }
    if held then (.ok (), m)
    else
      (.error ⟨.notFound, lit "Unlock: this transaction does not hold a lock on this row"⟩, m)

end LockManager

/-! ### Interleaved transactions -/

/-- A call of a transaction. -/
inductive LockCall
  | lockShared (rid : RecordId)
  | lockExclusive (rid : RecordId)
  | unlock (rid : RecordId)
  | releaseAll
  deriving DecidableEq

/-- A step: a transaction makes a call, or goes on with its `ReleaseAll`. -/
inductive LockStep
  | call (txnId : TxnId) (c : LockCall)
  | resume (txnId : TxnId)
  deriving DecidableEq

/-- The transaction that makes the step. -/
def LockStep.txnId : LockStep → TxnId
  | .call txnId _ => txnId
  | .resume txnId => txnId

/-- What is seen of a step. -/
inductive LockAnswer
  | status (r : Result Unit)
  /-- `ReleaseAll` has copied the rows -/
  | copied
  /-- `ReleaseAll` has unlocked a row -/
  | unlocked (rid : RecordId)
  /-- `ReleaseAll` has returned -/
  | released
  deriving DecidableEq

/-- Why a step cannot be taken: the transaction is in its `ReleaseAll`, or is not. -/
inductive NotEnabled
  | busy
  | idle
  deriving DecidableEq

/-- The lock manager, and the rows that the running `ReleaseAll`s have still to unlock. -/
structure LockSystem where
  locks : LockManager
  releasing : TxnId → Option (List RecordId)

namespace LockSystem

/-- A lock manager with no locks; the tables are empty ones of some implementation. -/
def new (lockTable : UnorderedMap RecordId LockEntry)
    (txnLocks : UnorderedMap TxnId (UnorderedSet RecordId)) (emptySet : UnorderedSet RecordId) :
    LockSystem := ⟨⟨lockTable, txnLocks, emptySet⟩, fun _ => none⟩

/-- The answer of a call that is one step. -/
def answer (s : LockSystem) (p : Result Unit × LockManager) : LockAnswer × LockSystem :=
  (.status p.1, { s with locks := p.2 })

/-- The first step of a call. -/
def start (s : LockSystem) (txnId : TxnId) : LockCall → LockAnswer × LockSystem
  | .lockShared rid => s.answer (s.locks.lockShared txnId rid)
  | .lockExclusive rid => s.answer (s.locks.lockExclusive txnId rid)
  | .unlock rid => s.answer (s.locks.unlock txnId rid)
  | .releaseAll =>
    match s.locks.txnLocks.find? txnId with
    | none => (.released, s)
    | some rows =>
      (.copied, { s with releasing := Function.update s.releasing txnId (some rows.elems) })

/-- A step of the system. -/
def exec (s : LockSystem) : LockStep → Except NotEnabled (LockAnswer × LockSystem)
  | .call txnId c =>
    match s.releasing txnId with
    | some _ => .error .busy
    | none => .ok (s.start txnId c)
  | .resume txnId =>
    match s.releasing txnId with
    | none => .error .idle
    | some (rid :: held) => .ok (.unlocked rid,
        ⟨(s.locks.unlock txnId rid).2, Function.update s.releasing txnId (some held)⟩)
    | some [] => .ok (.released,
        ⟨{ s.locks with txnLocks := s.locks.txnLocks.erase txnId },
          Function.update s.releasing txnId none⟩)

end LockSystem

end MiniDB
