import MiniDB.Buffer.Store
import MiniDB.Index.BPlusNode
import MiniDB.Lib.Outward
import MiniDB.Utilities.Status

/-!
# B+trees

A `BPlusTree` is known by its meta page, which holds the id of the root.  Inserts split every full
node on the way down before they enter it, deletes only remove the entry from its leaf, and lookups
and range scans descend to a leaf and then follow the chain of leaves.

The functions are programs over the page pool, as those of `HeapFile`; descents and walks along the
chain take the number of rounds they may make.  `SplitChild` and `InsertNonFull` are marked as entry
points (`TreeCall`), so that one can speak about the pages at the moment they are called.
-/

namespace MiniDB

open Paged BPlusNode

/-- The internal functions of the tree that expect something of their argument. -/
inductive TreeCall
  | splitChild (parentId : PageId) (childIndex : Nat)
  | insertNonFull (nodeId : PageId)
  deriving DecidableEq

/-- Programs over index pages. -/
abbrev TreeProg := Prog PageId Page TreeCall

namespace BPlusTree

/-- The constructor: opens the tree with the given meta page, or makes an empty one.  The result is
the meta page id, which is all a tree object holds. -/
def openTree (metaPageId : PageId) : TreeProg PageId := do
  if metaPageId = kInvalidPageId then
    let newMetaId ← Prog.alloc
    let newRootId ← Prog.alloc
    Prog.set newRootId (initLeaf Page.blank kInvalidPageId)
    Prog.unpin newRootId true
    Prog.set newMetaId (Page.blank.put 0 newRootId)
    Prog.unpin newMetaId true
    return newMetaId
  else
    return metaPageId

/-- `GetRootPageId`. -/
def getRootPageId (metaPageId : PageId) : TreeProg PageId := do
  let page ← Prog.fetch metaPageId
  let root := page.get PageId 0
  Prog.unpin metaPageId false
  return root

/-- `SetRootPageId`. -/
def setRootPageId (metaPageId newRoot : PageId) : TreeProg Unit := do
  let page ← Prog.fetch metaPageId
  Prog.set metaPageId (page.put 0 newRoot)
  Prog.unpin metaPageId true

/-! ### Descending -/

/-- `while (i < n && InternalKeyAt(i) <= key) ++i`, `m` keys before the end. -/
def findChildIndexFrom (node : Page) (key : Key) : Nat → Nat → Option Nat
  | 0, i => some i
  | m + 1, i => do
    let k ← internalKeyAt node i
    if k ≤ key then findChildIndexFrom node key m (i + 1) else return i

/-- `FindChildIndex`. -/
def findChildIndex (node : Page) (key : Key) : Option Nat :=
  findChildIndexFrom node key (keyCount node).toNat 0

/-- The loop of `FindLeafForKey`. -/
def findLeafFrom (key : Key) : Nat → PageId → TreeProg PageId
  | 0, _ => .fault .noFuel
  | fuel + 1, current => do
    let page ← Prog.fetch current
    if isLeaf page then
      Prog.unpin current false
      return current
    else
      let idx ← Prog.access (findChildIndex page key)
      let child ← Prog.access (internalChildAt page idx)
      Prog.unpin current false
      findLeafFrom key fuel child

/-- `FindLeafForKey`. -/
def findLeafForKey (metaPageId : PageId) (key : Key) (fuel : Nat) : TreeProg PageId := do
  let root ← getRootPageId metaPageId
  findLeafFrom key fuel root

/-- The loop of `RangeScan` that descends to the leftmost leaf. -/
def leftmostLeafFrom : Nat → PageId → TreeProg PageId
  | 0, _ => .fault .noFuel
  | fuel + 1, current => do
    let page ← Prog.fetch current
    if isLeaf page then
      Prog.unpin current false
      return current
    else
      let child ← Prog.access (internalChildAt page 0)
      Prog.unpin current false
      leftmostLeafFrom fuel child

/-! ### Splitting -/

/-- The entries `i - 1` and `i` of a leaf have different keys. -/
def isBoundary (leaf : Page) (i : Nat) : Option Bool := do
  let k ← leafKeyAt leaf i
  let k' ← leafKeyAt leaf (i - 1)
  return k ≠ k'

/-- The loop of `SplitChild` over `left` and `right`, which looks for a boundary between different keys from
the middle of a leaf of `n` entries outwards; `mid` if there is none. -/
def findBoundary (leaf : Page) (n mid : Nat) : Nat → Nat → Nat → Option Nat :=
  Outward.outward (isBoundary leaf) n mid

/-- The leaf case of `SplitChild`: the separator, the left half and the right half. -/
def splitLeaf (child : Page) (newRightId : PageId) : Option (Key × Page × Page) := do
  let newRight := initLeaf Page.blank (nextLeafId child)
  let child := setNextLeafId child newRightId
  let n := (keyCount child).toNat
  let mid ← findBoundary child n (n / 2) n (n / 2) (n / 2)
  let rightCount := n - mid
  let newRight ← leafEntries.copy child mid newRight rightCount 0
  let newRight := setKeyCount newRight (UInt16.ofNat rightCount)
  let child := setKeyCount child (UInt16.ofNat mid)
  let separator ← leafKeyAt newRight 0
  return (separator, child, newRight)

/-- The internal case of `SplitChild`: the middle key moves up. -/
def splitInternal (child : Page) : Option (Key × Page × Page) := do
  let newRight := initInternal Page.blank
  let n := (keyCount child).toNat
  let mid := n / 2
  let separator ← internalKeyAt child mid
  let rightCount := n - mid - 1
  let newRight ← internalKeys.copy child (mid + 1) newRight rightCount 0
  let newRight ← internalChildren.copy child (mid + 1) newRight (rightCount + 1) 0
  let newRight := setKeyCount newRight (UInt16.ofNat rightCount)
  let child := setKeyCount child (UInt16.ofNat mid)
  return (separator, child, newRight)

/-- `SplitChild`.  The three pages are pinned together and written through their pointers. -/
def splitChild (parentId : PageId) (childIndex : Nat) : TreeProg PageId := do
  Prog.entered (.splitChild parentId childIndex)
  let parent ← Prog.fetch parentId
  let childId ← Prog.access (internalChildAt parent childIndex)
  let child ← Prog.fetch childId
  let newRightId ← Prog.alloc
  let (separator, child, newRight) ← Prog.access
    (if isLeaf child then splitLeaf child newRightId else splitInternal child)
  let parent ← Prog.access (insertInternalKeyChildAt parent childIndex separator newRightId)
  Prog.set childId child
  Prog.set newRightId newRight
  Prog.set parentId parent
  Prog.unpin childId true
  Prog.unpin newRightId true
  Prog.unpin parentId true
  return newRightId

/-! ### Inserting -/

/-- `while (i < n && LeafKeyAt(i) < key) ++i`, `m` entries before the end. -/
def lowerBoundFrom (leaf : Page) (key : Key) : Nat → Nat → Option Nat
  | 0, i => some i
  | m + 1, i => do
    let k ← leafKeyAt leaf i
    if k < key then lowerBoundFrom leaf key m (i + 1) else return i

/-- `InsertNonFull`. -/
def insertNonFull (key : Key) (rid : RecordId) : Nat → PageId → TreeProg Unit
  | 0, _ => .fault .noFuel
  | fuel + 1, nodeId => do
    Prog.entered (.insertNonFull nodeId)
    let node ← Prog.fetch nodeId
    if isLeaf node then
      let i ← Prog.access (lowerBoundFrom node key (keyCount node).toNat 0)
      let node ← Prog.access (insertLeafEntryAt node i key rid)
      Prog.set nodeId node
      Prog.unpin nodeId true
    else
      let idx ← Prog.access (findChildIndex node key)
      let childId ← Prog.access (internalChildAt node idx)
      Prog.unpin nodeId false
      let child ← Prog.fetch childId
      Prog.unpin childId false
      if isFull child then
        let _ ← splitChild nodeId idx
        let parent ← Prog.fetch nodeId
        let idx ← Prog.access (findChildIndex parent key)
        let childId ← Prog.access (internalChildAt parent idx)
        Prog.unpin nodeId false
        insertNonFull key rid fuel childId
      else
        insertNonFull key rid fuel childId

/-- The part of `Insert` for a full root: the root becomes the only child of a new one and is split
there. -/
def growRoot (metaPageId rootId : PageId) : TreeProg PageId := do
  let newRootId ← Prog.alloc
  let newRoot ← Prog.access (setInternalChildAt (initInternal Page.blank) 0 rootId)
  Prog.set newRootId newRoot
  Prog.unpin newRootId true
  let _ ← splitChild newRootId 0
  setRootPageId metaPageId newRootId
  return newRootId

/-- `Insert`. -/
def insert (metaPageId : PageId) (key : Key) (rid : RecordId) (fuel : Nat) :
    TreeProg (Result Unit) := do
  let rootId ← getRootPageId metaPageId
  let root ← Prog.fetch rootId
  Prog.unpin rootId false
  let rootId ← if isFull root then growRoot metaPageId rootId else pure rootId
  insertNonFull key rid fuel rootId
  return .ok ()

/-! ### Deleting and searching -/

/-- What the loop of `Delete` over one leaf finds. -/
inductive DeleteScan
  | found (i : Nat)
  | exceeded
  | absent
  deriving DecidableEq

/-- The loop of `Delete` over the entries of a leaf, `m` entries before the end. -/
def deleteScan (leaf : Page) (key : Key) (rid : RecordId) : Nat → Nat → Option DeleteScan
  | 0, _ => some .absent
  | m + 1, i => do
    let k ← leafKeyAt leaf i
    if k > key then
      return .exceeded
    if k = key then
      let r ← leafRidAt leaf i
      if r.pageId = rid.pageId ∧ r.slotId = rid.slotId then
        return .found i
    deleteScan leaf key rid m (i + 1)

/-- The answer of `Delete` when there is no such entry. -/
def entryNotFound : Status := ⟨.notFound, lit "index entry not found for given key/RecordId"⟩

/-- The walk of `Delete` along the leaves. -/
def deleteFrom (key : Key) (rid : RecordId) : Nat → PageId → TreeProg (Result Unit)
  | 0, _ => .fault .noFuel
  | fuel + 1, leafId => do
    if leafId = kInvalidPageId then
      return .error entryNotFound
    else
      let leaf ← Prog.fetch leafId
      match ← Prog.access (deleteScan leaf key rid (keyCount leaf).toNat 0) with
      | .found i =>
        let leaf ← Prog.access (removeLeafEntryAt leaf i)
        Prog.set leafId leaf
        Prog.unpin leafId true
        return .ok ()
      | .exceeded =>
        Prog.unpin leafId false
        return .error entryNotFound
      | .absent =>
        let next := nextLeafId leaf
        Prog.unpin leafId false
        deleteFrom key rid fuel next

/-- `Delete`. -/
def delete (metaPageId : PageId) (key : Key) (rid : RecordId) (fuel : Nat) :
    TreeProg (Result Unit) := do
  let leafId ← findLeafForKey metaPageId key fuel
  deleteFrom key rid fuel leafId

/-- The loop of `SearchEqual` over the entries of a leaf: the matching record ids, and whether a
larger key was met. -/
def searchScan (leaf : Page) (key : Key) : Nat → Nat → Option (List RecordId × Bool)
  | 0, _ => some ([], false)
  | m + 1, i => do
    let k ← leafKeyAt leaf i
    if k = key then
      let r ← leafRidAt leaf i
      let (rest, exceeded) ← searchScan leaf key m (i + 1)
      return (r :: rest, exceeded)
    else if k > key then
      return ([], true)
    else
      searchScan leaf key m (i + 1)

/-- The walk of `SearchEqual` along the leaves; in the first leaf smaller keys are skipped first. -/
def searchFrom (key : Key) : Nat → Bool → PageId → TreeProg (List RecordId)
  | 0, _, _ => .fault .noFuel
  | fuel + 1, first, leafId => do
    if leafId = kInvalidPageId then
      return []
    else
      let leaf ← Prog.fetch leafId
      let n := (keyCount leaf).toNat
      let i ← Prog.access (if first then lowerBoundFrom leaf key n 0 else some 0)
      let (results, exceeded) ← Prog.access (searchScan leaf key (n - i) i)
      let next := nextLeafId leaf
      Prog.unpin leafId false
      if exceeded then
        return results
      else
        let rest ← searchFrom key fuel false next
        return results ++ rest

/-- `SearchEqual`. -/
def searchEqual (metaPageId : PageId) (key : Key) (fuel : Nat) :
    TreeProg (Result (List RecordId)) := do
  let leafId ← findLeafForKey metaPageId key fuel
  let results ← searchFrom key fuel true leafId
  return .ok results

/-- The key is below the lower bound of a range scan. -/
def belowLow (low : Option Key) (lowInclusive : Bool) (k : Key) : Bool :=
  match low with
  | some l => k < l || (!lowInclusive && k == l)
  | none => false

/-- The key is above the upper bound of a range scan. -/
def aboveHigh (high : Option Key) (highInclusive : Bool) (k : Key) : Bool :=
  match high with
  | some h => k > h || (!highInclusive && k == h)
  | none => false

/-- The loop of `RangeScan` over the entries of a leaf: the entries in range, and whether the upper
bound was passed. -/
def rangeScanLeaf (leaf : Page) (below above : Key → Bool) :
    Nat → Nat → Option (List (Key × RecordId) × Bool)
  | 0, _ => some ([], false)
  | m + 1, i => do
    let k ← leafKeyAt leaf i
    if below k then
      rangeScanLeaf leaf below above m (i + 1)
    else if above k then
      return ([], true)
    else
      let r ← leafRidAt leaf i
      let (rest, stop) ← rangeScanLeaf leaf below above m (i + 1)
      return ((k, r) :: rest, stop)

/-- The walk of `RangeScan` along the leaves. -/
def rangeScanFrom (below above : Key → Bool) :
    Nat → PageId → TreeProg (List (Key × RecordId))
  | 0, _ => .fault .noFuel
  | fuel + 1, leafId => do
    if leafId = kInvalidPageId then
      return []
    else
      let leaf ← Prog.fetch leafId
      let (results, stop) ← Prog.access
        (rangeScanLeaf leaf below above (keyCount leaf).toNat 0)
      let next := nextLeafId leaf
      Prog.unpin leafId false
      if stop then
        return results
      else
        let rest ← rangeScanFrom below above fuel next
        return results ++ rest

/-- `RangeScan`. -/
def rangeScan (metaPageId : PageId) (low : Option Key) (lowInclusive : Bool) (high : Option Key)
    (highInclusive : Bool) (fuel : Nat) : TreeProg (Result (List (Key × RecordId))) := do
  let leafId ← match low with
    | some l => findLeafForKey metaPageId l fuel
    | none => do
      let root ← getRootPageId metaPageId
      leftmostLeafFrom fuel root
  let results ← rangeScanFrom (belowLow low lowInclusive) (aboveHigh high highInclusive) fuel leafId
  return .ok results

end BPlusTree

end MiniDB
