import MiniDB.Storage.Page

/-!
# Slotted pages

`SlottedPage` reads a page as a header, a slot directory growing up from byte `kHeaderSize`, and
records growing down from the end of the page:

* bytes `0..11` hold the page id, the id of the next page of the heap, the slot count and the
  offset of the lowest record byte;
* slot `i` is the pair (offset, length) at byte `kHeaderSize + i * kSlotSize`; length `0` marks a
  deleted record, whose slot is reused before the directory grows.

Every access to the directory or to record bytes goes through the checked reads and writes of
`Page`, so that a result `none` is an access outside the page.  The correctness of the layout is in
`Equiv/SlottedPage.lean`.
-/

namespace MiniDB

/-- The bytes of a record together with their 16-bit length, as the record functions take them
(`const char* data, std::uint16_t length`). -/
structure RecordBytes where
  bytes : List UInt8
  length_lt : bytes.length < 2 ^ 16
  deriving DecidableEq

/-- `PageHeader`. -/
structure PageHeader where
  pageId : PageId
  nextPageId : PageId
  slotCount : UInt16
  freeSpaceOffset : UInt16
  deriving DecidableEq

/-- `Slot`: where a record lies in its page. -/
structure Slot where
  offset : UInt16
  length : UInt16
  deriving DecidableEq

namespace SlottedPage

/-- Size of the page header. -/
def kHeaderSize : Nat := 12

/-- Size of one directory entry. -/
def kSlotSize : Nat := 4

/-! ### Header and directory -/

def readHeader (p : Page) : PageHeader where
  pageId := p.get PageId 0
  nextPageId := p.get PageId 4
  slotCount := p.get UInt16 8
  freeSpaceOffset := p.get UInt16 10

def writeHeader (p : Page) (h : PageHeader) : Page :=
  (((p.put 0 h.pageId).put 4 h.nextPageId).put 8 h.slotCount).put 10 h.freeSpaceOffset

def init (p : Page) (pageId nextPageId : PageId) : Page :=
  writeHeader p
    { pageId := pageId, nextPageId := nextPageId, slotCount := 0,
      freeSpaceOffset := UInt16.ofNat kPageSize }

def pageId (p : Page) : PageId := (readHeader p).pageId

def nextPageId (p : Page) : PageId := (readHeader p).nextPageId

def setNextPageId (p : Page) (next : PageId) : Page :=
  writeHeader p { readHeader p with nextPageId := next }

def slotCount (p : Page) : UInt16 := (readHeader p).slotCount

/-- Byte offset of a directory entry. -/
def slotBase (i : Nat) : Nat := kHeaderSize + i * kSlotSize

def readSlot (p : Page) (slotId : SlotId) : Option Slot := do
  let offset ← p.get? UInt16 (slotBase slotId.toNat)
  let length ← p.get? UInt16 (slotBase slotId.toNat + 2)
  return { offset := offset, length := length }

def writeSlot (p : Page) (slotId : SlotId) (s : Slot) : Option Page := do
  let p ← p.put? (slotBase slotId.toNat) s.offset
  p.put? (slotBase slotId.toNat + 2) s.length

/-! ### Record operations -/

/-- The search of `InsertRecord` for a deleted slot, `n` slots before the end of the directory. -/
def findReusable (p : Page) : Nat → SlotId → Option (Option SlotId)
  | 0, _ => some none
  | n + 1, i => do
    let s ← readSlot p i
    if s.length = 0 then return some i else findReusable p n (i + 1)

/-- `InsertRecord`: the slot the record was stored in, or `none` when it does not fit, with the
page afterwards. -/
def insertRecord (p : Page) (data : RecordBytes) : Option (Option SlotId × Page) := do
  let h := readHeader p
  let length := UInt16.ofNat data.bytes.length
  let reuseSlot ← findReusable p h.slotCount.toNat 0
  let neededDirectoryGrowth := if reuseSlot.isSome then 0 else kSlotSize
  let directoryEnd := kHeaderSize + h.slotCount.toNat * kSlotSize
  let neededBeforeRecord := directoryEnd + neededDirectoryGrowth
  if neededBeforeRecord > h.freeSpaceOffset.toNat then
    return (none, p)
  let available := h.freeSpaceOffset.toNat - neededBeforeRecord
  if available < length.toNat then
    return (none, p)
  let newOffset := h.freeSpaceOffset - length
  let p ← p.putBytes? newOffset.toNat data.bytes
  match reuseSlot with
  | some slotId =>
    let p ← writeSlot p slotId { offset := newOffset, length := length }
    return (some slotId, writeHeader p { h with freeSpaceOffset := newOffset })
  | none =>
    let slotId := h.slotCount
    let p ← writeSlot p slotId { offset := newOffset, length := length }
    return (some slotId,
      writeHeader p { h with slotCount := h.slotCount + 1, freeSpaceOffset := newOffset })

/-- `GetRecord`: the bytes of the record, or `none` when there is no live record in the slot. -/
def getRecord (p : Page) (slotId : SlotId) : Option (Option (List UInt8)) := do
  if slotId ≥ slotCount p then
    return none
  let s ← readSlot p slotId
  if s.length = 0 then
    return none
  let bytes ← p.bytes? s.offset.toNat s.length.toNat
  return some bytes

/-- `DeleteRecord`: marks the slot as deleted, keeping its offset. -/
def deleteRecord (p : Page) (slotId : SlotId) : Option (Bool × Page) := do
  if slotId ≥ slotCount p then
    return (false, p)
  let s ← readSlot p slotId
  if s.length = 0 then
    return (false, p)
  let p ← writeSlot p slotId { s with length := 0 }
  return (true, p)

/-- `UpdateRecordInPlace`: overwrites the record when the new bytes are not longer. -/
def updateRecordInPlace (p : Page) (slotId : SlotId) (data : RecordBytes) :
    Option (Bool × Page) := do
  let length := UInt16.ofNat data.bytes.length
  if slotId ≥ slotCount p then
    return (false, p)
  let s ← readSlot p slotId
  if s.length = 0 then
    return (false, p)
  if length > s.length then
    return (false, p)
  let p ← p.putBytes? s.offset.toNat data.bytes
  let p ← writeSlot p slotId { s with length := length }
  return (true, p)

end SlottedPage

end MiniDB
