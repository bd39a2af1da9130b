import MiniDB.Index.BPlusTree

/-!
# Index pools

What the executor uses of the pool of the indexes: trees that are known by the id of their meta page.
There are two such pools.  A page store holds B+trees (`Store`); `Multimaps` holds sorted multimaps,
the data structure a B+tree is meant to be.
-/

namespace MiniDB

open Paged

/-- Trees by the id of their meta page.  A call on an id that names no tree is a fault. -/
class IndexPool (σ : Type) where
  /-- the constructor of `BPlusTree`: opens the tree with that meta page, or makes an empty one -/
  openTree : PageId → σ → Except Fault (PageId × σ)
  insert : PageId → Key → RecordId → σ → Except Fault (Result Unit × σ)
  delete : PageId → Key → RecordId → σ → Except Fault (Result Unit × σ)
  searchEqual : PageId → Key → σ → Except Fault (Result (List RecordId) × σ)
  rangeScan : PageId → Option Key → Bool → Option Key → Bool → σ →
    Except Fault (Result (List (Key × RecordId)) × σ)

/-- B+trees in a page store. -/
instance : IndexPool Store where
  openTree id := Store.exec fun _ => BPlusTree.openTree id
  insert id key rid := Store.exec (BPlusTree.insert id key rid)
  delete id key rid := Store.exec (BPlusTree.delete id key rid)
  searchEqual id key := Store.exec (BPlusTree.searchEqual id key)
  rangeScan id low lowInclusive high highInclusive :=
    Store.exec (BPlusTree.rangeScan id low lowInclusive high highInclusive)

/-- Sorted multimaps; the id of one is its number. -/
structure Multimaps where
  maps : List (List (Key × RecordId))
  deriving DecidableEq

namespace Multimaps

/-- The multimap with the given id. -/
def get? (s : Multimaps) (id : PageId) : Option (List (Key × RecordId)) :=
  if 0 ≤ id then s.maps[id.toInt.toNat]? else none

/-- Overwrite a multimap. -/
def set (s : Multimaps) (id : PageId) (m : List (Key × RecordId)) : Multimaps :=
  if 0 ≤ id then ⟨s.maps.set id.toInt.toNat m⟩ else s

/-- A new entry, before those with the same key. -/
def insertSorted (key : Key) (rid : RecordId) :
    List (Key × RecordId) → List (Key × RecordId)
  | [] => [(key, rid)]
  | e :: es => if e.1 < key then e :: insertSorted key rid es else (key, rid) :: e :: es

/-- The entries within the bounds. -/
def within (low : Option Key) (lowInclusive : Bool) (high : Option Key)
    (highInclusive : Bool) (m : List (Key × RecordId)) : List (Key × RecordId) :=
  m.filter fun e => !BPlusTree.belowLow low lowInclusive e.1
    && !BPlusTree.aboveHigh high highInclusive e.1

/-- A call on an existing multimap. -/
def onMap {α : Type} (id : PageId) (s : Multimaps)
    (f : List (Key × RecordId) → α × List (Key × RecordId)) :
    Except Fault (α × Multimaps) :=
  match s.get? id with
  | none => .error .nullPage
  | some m => .ok ((f m).1, s.set id (f m).2)

instance : IndexPool Multimaps where
  openTree id s :=
    if id ≠ kInvalidPageId then .ok (id, s)
    else if s.maps.length < 2 ^ 31 then .ok (Int32.ofNat s.maps.length, ⟨s.maps ++ [[]]⟩)
    else .error .noNewPage
  insert id key rid s := onMap id s fun m => (.ok (), insertSorted key rid m)
  delete id key rid s := onMap id s fun m =>
    if (key, rid) ∈ m then (.ok (), m.erase (key, rid)) else (.error BPlusTree.entryNotFound, m)
  searchEqual id key s := onMap id s fun m =>
    (.ok ((m.filter fun e => e.1 = key).map Prod.snd), m)
  rangeScan id low lowInclusive high highInclusive s := onMap id s fun m =>
    (.ok (within low lowInclusive high highInclusive m), m)

end Multimaps

end MiniDB
