import MiniDB.Lib.UnorderedMap
import MiniDB.Utilities.Status
import Mathlib.Data.Finset.Insert
import Mathlib.Data.Finset.Erase

/-!
# Transactions

A `TransactionManager` numbers its transactions and keeps all of them for good.  A transaction remembers
which others were active when it began.  Each call holds the mutex from its start to its end, so that a
history of calls is a list of them.

A pointer to a transaction is modelled by the id of the transaction, and the null pointer by `none`:
the only transactions there are belong to the manager.
-/

namespace MiniDB

open Paged

/-- `txn_id_t`. -/
abbrev TxnId := UInt64

/-- `kInvalidTxnId`. -/
def kInvalidTxnId : TxnId := 0

/-- `TxnState`. -/
inductive TxnState
  | active
  | committed
  | aborted
  deriving DecidableEq, Repr

/-- `IsolationLevel`. -/
inductive IsolationLevel
  | readCommitted
  | snapshotIsolation
  deriving DecidableEq, Repr

/-- `Transaction`. -/
structure Transaction where
  txnId : TxnId
  state : TxnState
  isolationLevel : IsolationLevel
  activeAtStart : Finset TxnId
  deriving DecidableEq

/-- `TransactionManager`. -/
structure TransactionManager where
  nextTxnId : TxnId
  transactions : UnorderedMap TxnId Transaction
  activeTxnIds : Finset TxnId

namespace TransactionManager

/-- A new manager; the map is an empty one of some implementation. -/
def new (transactions : UnorderedMap TxnId Transaction) : TransactionManager := ⟨1, transactions, ∅⟩

/-- `Begin`.  Transactions are never removed from the map, so that memory ends before the ids do: the
model stops with the last id. -/
def begin (m : TransactionManager) (level : IsolationLevel) : Except Fault (TxnId × TransactionManager) :=
  if m.nextTxnId = 0xFFFFFFFFFFFFFFFF then
    .error .noMemory
  else
    let txn : Transaction := {
      txnId := m.nextTxnId
      state := .active
      isolationLevel := level
      activeAtStart := m.activeTxnIds }
    .ok (txn.txnId, {
      nextTxnId := m.nextTxnId + 1
      transactions := m.transactions.insert txn.txnId txn
      activeTxnIds := insert txn.txnId m.activeTxnIds })

/-- The common part of `Commit` and `Abort`: an active transaction gets its final state. -/
def finish (caller : String) (state : TxnState) (m : TransactionManager) (txn : Option TxnId) :
    Result Unit × TransactionManager :=
  match txn.bind fun id => m.transactions.find? id with
  | some t =>
    if t.state = .active then
      (.ok (), { m with
        transactions := m.transactions.adjust t.txnId fun t => { t with state := state }
        activeTxnIds := m.activeTxnIds.erase t.txnId })
    else
      (.error ⟨.invalidArgument, lit caller ++ lit ": transaction is not active"⟩, m)
  | none => (.error ⟨.invalidArgument, lit caller ++ lit ": transaction is not active"⟩, m)

/-- `Commit`. -/
def commit (m : TransactionManager) (txn : Option TxnId) : Result Unit × TransactionManager :=
  finish "Commit" .committed m txn

/-- `Abort`. -/
def abort (m : TransactionManager) (txn : Option TxnId) : Result Unit × TransactionManager :=
  finish "Abort" .aborted m txn

/-- `GetTransaction`. -/
def getTransaction (m : TransactionManager) (id : TxnId) : Option Transaction :=
  m.transactions.find? id

/-- `IsCommitted`. -/
def isCommitted (m : TransactionManager) (id : TxnId) : Bool :=
  (m.getTransaction id).any fun t => t.state = .committed

/-- `IsActive`. -/
def isActive (m : TransactionManager) (id : TxnId) : Bool :=
  (m.getTransaction id).any fun t => t.state = .active

end TransactionManager

/-- A call of the transaction manager. -/
inductive TxnCall
  | begin (level : IsolationLevel)
  | commit (txn : Option TxnId)
  | abort (txn : Option TxnId)
  deriving DecidableEq

/-- Its answer. -/
inductive TxnAnswer
  | begun (id : TxnId)
  | status (r : Result Unit)
  deriving DecidableEq

/-- The manager executes a call. -/
def TransactionManager.exec (m : TransactionManager) :
    TxnCall → Except Fault (TxnAnswer × TransactionManager)
  | .begin level => (m.begin level).map fun r => (.begun r.1, r.2)
  | .commit txn => .ok (.status (m.commit txn).1, (m.commit txn).2)
  | .abort txn => .ok (.status (m.abort txn).1, (m.abort txn).2)

end MiniDB
