import MiniDB.Buffer.Store
import MiniDB.Storage.SlottedPage
import MiniDB.Utilities.Status

/-!
# Heap files

A heap file is a chain of slotted pages, linked from its first page.  Inserts start at the page of
the last successful insert (`lastInsertPageId`), walk the chain to its end, and extend it by a new
page when no page on the way has room.

The functions are programs over the page pool; those that loop over the chain take the number of
rounds they may make (`Store.exec` gives them one for every page).  `Scan` returns the records in
the order in which it hands them to its visitor.
-/

namespace MiniDB

open Paged

/-- `HeapFile`: the ids of the first page and of the page of the last insert. -/
structure HeapFile where
  firstPageId : PageId
  lastInsertPageId : PageId
  deriving DecidableEq

namespace HeapFile

variable {C : Type}

/-- The constructor: opens the heap with the given first page, or starts a new one. -/
def openHeap (firstPageId : PageId) : Prog PageId Page C HeapFile := do
  if firstPageId = kInvalidPageId then
    let newPageId ← Prog.alloc
    Prog.set newPageId (SlottedPage.init Page.blank newPageId kInvalidPageId)
    Prog.unpin newPageId true
    return { firstPageId := newPageId, lastInsertPageId := newPageId }
  else
    return { firstPageId := firstPageId, lastInsertPageId := firstPageId }

/-- `AllocateNewPage`: a new empty page, linked from `linkFromPageId`. -/
def allocateNewPage (linkFromPageId : PageId) : Prog PageId Page C PageId := do
  let newPageId ← Prog.alloc
  Prog.set newPageId (SlottedPage.init Page.blank newPageId kInvalidPageId)
  Prog.unpin newPageId true
  let linkPage ← Prog.fetch linkFromPageId
  Prog.set linkFromPageId (SlottedPage.setNextPageId linkPage newPageId)
  Prog.unpin linkFromPageId true
  return newPageId

/-- The loop of `InsertRecord` over the chain: the record's id (or an error) when a page takes the
record or cannot be fetched, else the last page visited. -/
def insertLoop (data : RecordBytes) :
    Nat → PageId → PageId → Prog PageId Page C (Result RecordId ⊕ PageId)
  | 0, _, _ => .fault .noFuel
  | fuel + 1, current, prev => do
    if current = kInvalidPageId then
      return .inr prev
    else
      match ← Prog.fetch? current with
      | none =>
        return .inl (.error ⟨.ioError, lit "InsertRecord: failed to fetch page"⟩)
      | some page =>
        match ← Prog.access (SlottedPage.insertRecord page data) with
        | (some slot, page) =>
          Prog.set current page
          Prog.unpin current true
          return .inl (.ok { pageId := current, slotId := slot })
        | (none, page) =>
          let next := SlottedPage.nextPageId page
          Prog.unpin current false
          insertLoop data fuel next current

/-- `InsertRecord`. -/
def insertRecord (h : HeapFile) (data : RecordBytes) (fuel : Nat) :
    Prog PageId Page C (Result RecordId × HeapFile) := do
  match ← insertLoop data fuel h.lastInsertPageId kInvalidPageId with
  | .inl (.ok rid) => return (.ok rid, { h with lastInsertPageId := rid.pageId })
  | .inl (.error status) => return (.error status, h)
  | .inr prev =>
    let linkSource := if prev ≠ kInvalidPageId then prev else h.lastInsertPageId
    let newPageId ← allocateNewPage linkSource
    let newPage ← Prog.fetch newPageId
    let (slot, newPage) ← Prog.access (SlottedPage.insertRecord newPage data)
    Prog.set newPageId newPage
    Prog.unpin newPageId true
    match slot with
    | none =>
      return (.error ⟨.outOfSpace, lit "InsertRecord: record too large for an empty page"⟩, h)
    | some slot =>
      return (.ok { pageId := newPageId, slotId := slot }, { h with lastInsertPageId := newPageId })

/-- `GetRecordBytes`. -/
def getRecordBytes (rid : RecordId) : Prog PageId Page C (Result (List UInt8)) := do
  match ← Prog.fetch? rid.pageId with
  | none => return .error ⟨.notFound, lit "GetRecordBytes: page not found"⟩
  | some page =>
    match ← Prog.access (SlottedPage.getRecord page rid.slotId) with
    | none =>
      Prog.unpin rid.pageId false
      return .error ⟨.notFound, lit "GetRecordBytes: record deleted or slot invalid"⟩
    | some bytes =>
      Prog.unpin rid.pageId false
      return .ok bytes

/-- `DeleteRecord`. -/
def deleteRecord (rid : RecordId) : Prog PageId Page C (Result Unit) := do
  match ← Prog.fetch? rid.pageId with
  | none => return .error ⟨.notFound, lit "DeleteRecord: page not found"⟩
  | some page =>
    let (ok, page) ← Prog.access (SlottedPage.deleteRecord page rid.slotId)
    Prog.set rid.pageId page
    Prog.unpin rid.pageId ok
    if ok then
      return .ok ()
    else
      return .error ⟨.notFound, lit "DeleteRecord: record already deleted or invalid slot"⟩

/-- `UpdateRecord`: in place when the new bytes fit the old record, else delete and insert. -/
def updateRecord (h : HeapFile) (rid : RecordId) (data : RecordBytes) (fuel : Nat) :
    Prog PageId Page C (Result RecordId × HeapFile) := do
  match ← Prog.fetch? rid.pageId with
  | none => return (.error ⟨.notFound, lit "UpdateRecord: page not found"⟩, h)
  | some page =>
    let (inPlace, page) ← Prog.access (SlottedPage.updateRecordInPlace page rid.slotId data)
    Prog.set rid.pageId page
    Prog.unpin rid.pageId inPlace
    if inPlace then
      return (.ok rid, h)
    else
      match ← deleteRecord rid with
      | .error status => return (.error status, h)
      | .ok () => insertRecord h data fuel

/-- The loop of `Scan` over the slots of one page, `n` slots before the end of its directory. -/
def scanSlots (page : Page) (current : PageId) :
    Nat → SlotId → Option (List (RecordId × List UInt8))
  | 0, _ => some []
  | n + 1, s => do
    let rec? ← SlottedPage.getRecord page s
    let rest ← scanSlots page current n (s + 1)
    match rec? with
    | some bytes => return ({ pageId := current, slotId := s }, bytes) :: rest
    | none => return rest

/-- The loop of `Scan` over the chain. -/
def scanLoop : Nat → PageId → Prog PageId Page C (List (RecordId × List UInt8))
  | 0, _ => .fault .noFuel
  | fuel + 1, current => do
    if current = kInvalidPageId then
      return []
    else
      match ← Prog.fetch? current with
      | none => return []
      | some page =>
        let visited ← Prog.access (scanSlots page current (SlottedPage.slotCount page).toNat 0)
        let next := SlottedPage.nextPageId page
        Prog.unpin current false
        let rest ← scanLoop fuel next
        return visited ++ rest

/-- `Scan`: the records passed to the visitor, in order. -/
def scan (h : HeapFile) (fuel : Nat) : Prog PageId Page C (List (RecordId × List UInt8)) :=
  scanLoop fuel h.firstPageId

end HeapFile

end MiniDB
