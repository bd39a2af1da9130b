import MiniDB.Lib.Cells
import MiniDB.Storage.Page
import Mathlib.Order.Defs.LinearOrder

/-!
# B+tree nodes

`BPlusNodeView` reads a page as a node of a B+tree.  Byte `0` tells leaves from internal nodes,
bytes `1..2` hold the key count and bytes `3..6` the id of the next leaf.  A leaf has its entries
(key, record id) from byte `kNodeHeaderSize` on; an internal node has its keys there and its
children behind the room for `kInternalMaxKeys` keys.

As in `SlottedPage`, accesses whose position depends on an index are checked, and `none` is an access
outside the page.
-/

namespace MiniDB

open Cells

/-- `Key`. -/
abbrev Key := Int64

instance instLinearOrderInt64 : LinearOrder Int64 where
  le_refl a := Int64.le_iff_toInt_le.mpr (le_refl _)
  le_trans a b c hab hbc := by
    rw [Int64.le_iff_toInt_le] at *
    exact le_trans hab hbc
  le_antisymm a b hab hba := by
    rw [Int64.le_iff_toInt_le] at *
    exact Int64.toInt.inj (le_antisymm hab hba)
  le_total a b := by
    rw [Int64.le_iff_toInt_le, Int64.le_iff_toInt_le]
    exact le_total _ _
  lt_iff_le_not_ge a b := by
    rw [Int64.lt_iff_toInt_lt, Int64.le_iff_toInt_le, Int64.le_iff_toInt_le]
    omega
  toDecidableLE := inferInstance
  toDecidableLT := inferInstance
  toDecidableEq := inferInstance

def kNodeHeaderSize : Nat := 1 + 2 + 4
def kKeySize : Nat := 8
def kRidSize : Nat := 4 + 2
def kLeafEntrySize : Nat := kKeySize + kRidSize
def kChildSize : Nat := 4
def kLeafMaxKeys : Nat := (kPageSize - kNodeHeaderSize) / kLeafEntrySize
def kInternalMaxKeys : Nat := (kPageSize - kNodeHeaderSize - kChildSize) / (kKeySize + kChildSize)

namespace BPlusNode

/-! ### Header -/

def isLeaf (p : Page) : Bool := p.get UInt8 0 ≠ 0

def keyCount (p : Page) : UInt16 := p.get UInt16 1

def setKeyCount (p : Page) (n : UInt16) : Page := p.put 1 n

def nextLeafId (p : Page) : PageId := p.get PageId 3

def setNextLeafId (p : Page) (id : PageId) : Page := p.put 3 id

def initLeaf (p : Page) (nextLeafId : PageId) : Page :=
  setNextLeafId (setKeyCount (p.put 0 (1 : UInt8)) 0) nextLeafId

def initInternal (p : Page) : Page :=
  setNextLeafId (setKeyCount (p.put 0 (0 : UInt8)) 0) kInvalidPageId

/-! ### Leaves -/

def leafEntryPtr (i : Nat) : Nat := kNodeHeaderSize + i * kLeafEntrySize

def leafKeyAt (p : Page) (i : Nat) : Option Key := p.get? Key (leafEntryPtr i)

def leafRidAt (p : Page) (i : Nat) : Option RecordId := do
  let pageId ← p.get? PageId (leafEntryPtr i + kKeySize)
  let slotId ← p.get? SlotId (leafEntryPtr i + kKeySize + 4)
  return { pageId := pageId, slotId := slotId }

def setLeafEntry (p : Page) (i : Nat) (key : Key) (rid : RecordId) : Option Page := do
  let p ← p.put? (leafEntryPtr i) key
  let p ← p.put? (leafEntryPtr i + kKeySize) rid.pageId
  p.put? (leafEntryPtr i + kKeySize + 4) rid.slotId

/-- The entries of a leaf, each read and written as a whole. -/
def leafEntries : CellArray Page (Key × RecordId) where
  get? p i := do
    let key ← leafKeyAt p i
    let rid ← leafRidAt p i
    return (key, rid)
  set? p i e := setLeafEntry p i e.1 e.2

def insertLeafEntryAt (p : Page) (i : Nat) (key : Key) (rid : RecordId) : Option Page := do
  let n := keyCount p
  let p ← leafEntries.insertAt p i n.toNat (key, rid)
  return setKeyCount p (n + 1)

def removeLeafEntryAt (p : Page) (i : Nat) : Option Page := do
  let n := keyCount p
  let p ← leafEntries.shiftDown p n.toNat n.toNat i
  return setKeyCount p (n - 1)

/-! ### Internal nodes -/

def internalKeyPtr (i : Nat) : Nat := kNodeHeaderSize + i * kKeySize

def internalChildPtr (i : Nat) : Nat :=
  kNodeHeaderSize + kInternalMaxKeys * kKeySize + i * kChildSize

def internalKeyAt (p : Page) (i : Nat) : Option Key := p.get? Key (internalKeyPtr i)

def setInternalKeyAt (p : Page) (i : Nat) (key : Key) : Option Page := p.put? (internalKeyPtr i) key

def internalChildAt (p : Page) (i : Nat) : Option PageId := p.get? PageId (internalChildPtr i)

def setInternalChildAt (p : Page) (i : Nat) (child : PageId) : Option Page :=
  p.put? (internalChildPtr i) child

def internalKeys : CellArray Page Key := ⟨internalKeyAt, setInternalKeyAt⟩

def internalChildren : CellArray Page PageId := ⟨internalChildAt, setInternalChildAt⟩

def insertInternalKeyChildAt (p : Page) (keyI : Nat) (key : Key) (rightChild : PageId) :
    Option Page := do
  let n := keyCount p
  let p ← internalKeys.insertAt p keyI n.toNat key
  let p ← internalChildren.insertAt p (keyI + 1) (n.toNat + 1) rightChild
  return setKeyCount p (n + 1)

/-- The test the tree makes before it descends: the node has no room for another key. -/
def isFull (p : Page) : Bool :=
  if isLeaf p then kLeafMaxKeys ≤ (keyCount p).toNat else kInternalMaxKeys ≤ (keyCount p).toNat

end BPlusNode

end MiniDB
