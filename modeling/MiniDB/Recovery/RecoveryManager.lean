import MiniDB.Recovery.WalManager
import MiniDB.Storage.PageManager
import Mathlib.Data.Finset.Insert

/-!
# Recovery

`Recover` reads the log and goes over it three times: the analysis finds the transactions with a commit
record and the last checkpoint, redo writes the after-images of all updates behind that checkpoint, and
undo writes the before-images of the updates of all other transactions, backwards over the whole log.

The pages are written to a `PageDevice`.  It is a `PageManager`, or one whose machine stops after a
number of writes (`Crashing`).
-/

namespace MiniDB

open Effect Paged

/-- What takes the page writes of a recovery. -/
class PageDevice (σ : Type) where
  writePage : PageId → Page → σ → Result Unit × σ

instance : PageDevice PageManager where
  writePage := PageManager.writePage

/-- A device on a machine that stops after `writesLeft` more page writes: nothing that comes later
reaches the device. -/
structure Crashing (σ : Type) where
  device : σ
  writesLeft : Nat

instance {σ : Type} [PageDevice σ] : PageDevice (Crashing σ) where
  writePage id page c :=
    match c.writesLeft with
    | 0 => (.ok (), c)
    | n + 1 =>
      let r := PageDevice.writePage id page c.device
      (r.1, ⟨r.2, n⟩)

/-- The page in the first bytes of a string, or `none` if it is too short for one. -/
def Page.ofImage? (image : Str) : Option Page :=
  if h : kPageSize ≤ image.length then
    some ⟨image.take kPageSize, by rw [List.length_take, Nat.min_eq_left h]⟩
  else none

/-- `RecoveryStats`. -/
structure RecoveryStats where
  redoCount : Nat := 0
  undoCount : Nat := 0
  checkpointLsnUsed : Lsn := kInvalidLsn
  deriving DecidableEq, Repr

namespace RecoveryManager

/-- What the first pass over the log finds. -/
structure Analysis where
  committed : Finset TxnId := ∅
  aborted : Finset TxnId := ∅
  checkpointLsnUsed : Lsn := kInvalidLsn
  redoStartIndex : Nat := 0

/-- The record at index `i` in the first pass. -/
def Analysis.add (a : Analysis) (r : WalRecord) (i : Nat) : Analysis :=
  match r.type with
  | .commit => { a with committed := insert r.txnId a.committed }
  | .abort => { a with aborted := insert r.txnId a.aborted }
  | .checkpoint => { a with checkpointLsnUsed := r.lsn, redoStartIndex := i + 1 }
  | _ => a

/-- The first pass. -/
def analyze (records : List WalRecord) : Analysis :=
  records.zipIdx.foldl (fun a p => a.add p.1 p.2) {}

variable {σ : Type} [PageDevice σ]

/-- `std::memcpy` of an image into a page, and `WritePage` of that page. -/
def writeImage (id : PageId) (image : Str) : Action Fault Status σ Unit :=
  match Page.ofImage? image with
  | some page => ExceptT.mk fun s => .ok (PageDevice.writePage id page s)
  | none => Action.die .outOfBounds

/-- A record in the second pass. -/
def redo (stats : RecoveryStats) (r : WalRecord) : Action Fault Status σ RecoveryStats := do
  if r.type ≠ .update then
    return stats
  writeImage r.pageId r.afterImage
  return { stats with redoCount := stats.redoCount + 1 }

/-- A record in the third pass. -/
def undo (committed : Finset TxnId) (stats : RecoveryStats) (r : WalRecord) :
    Action Fault Status σ RecoveryStats := do
  if r.type ≠ .update then
    return stats
  if r.txnId ∈ committed then
    return stats
  writeImage r.pageId r.beforeImage
  return { stats with undoCount := stats.undoCount + 1 }

/-- `Recover`. -/
def recover (wal : WalManager) : Action Fault Status σ RecoveryStats := do
  let records ← Action.check (WalManager.readAll wal.file)
  let a := analyze records
  let stats ← (records.drop a.redoStartIndex).foldlM redo
    { checkpointLsnUsed := a.checkpointLsnUsed }
  records.reverse.foldlM (undo a.committed) stats

end RecoveryManager

end MiniDB
