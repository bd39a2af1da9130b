import MiniDB.Lib.Paged
import MiniDB.Lib.UnorderedMap
import MiniDB.Storage.PageManager

/-!
# Buffer pools

A `BufferPool` keeps pages of a file in a fixed number of frames.  A page that is fetched is pinned
in its frame until it was unpinned as often as it was fetched; then the replacer may give the frame
to another page, and the old page is written to the file if it is dirty.

A pointer to a page is the number of its frame.  The counters of hits and misses are left out: no
function of the pool reads them.
-/

namespace MiniDB

open Paged

/-! ### Frames and the replacer -/

/-- `Frame`.  Its `pin_count` is an `int`: the model is that of a page with fewer than `2 ^ 31` pins. -/
structure Frame where
  page : Page := Page.blank
  pageId : PageId := kInvalidPageId
  pinCount : Nat := 0
  isDirty : Bool := false

/-- `LRUReplacer`: the nodes of `lru_list_` with their frames, the one that was unpinned last in front, and
for each frame the iterator to its node.  An iterator is the number of the node; nodes are numbered as they
are pushed. -/
structure LRUReplacer (n : Nat) where
  lruList : List (Nat × Fin n)
  position : UnorderedMap (Fin n) Nat
  nextNode : Nat
  nodes_nodup : (lruList.map Prod.fst).Nodup
  fresh : ∀ e ∈ lruList, e.1 < nextNode
  /-- the iterators lead to nodes of the list, and each node is led to by its frame -/
  position_iff : ∀ f node, position.find? f = some node ↔ (node, f) ∈ lruList

namespace LRUReplacer

variable {n : Nat}

/-- The constructor.  Nothing goes through `position_` in its order. -/
def new : LRUReplacer n where
  lruList := []
  position := .empty id fun _ => .refl _
  nextNode := 0
  nodes_nodup := List.nodup_nil
  fresh := by simp
  position_iff := by simp [UnorderedMap.find?, UnorderedMap.empty]

/-- Without a frame in `position_`, the iterators lead to the nodes but for the one of the frame. -/
theorem position_erase (r : LRUReplacer n) {frameId : Fin n} {it : Nat}
    (h : (it, frameId) ∈ r.lruList) (f : Fin n) (node : Nat) :
    (r.position.erase frameId).find? f = some node ↔ (node, f) ∈ r.lruList ∧ node ≠ it := by
  rw [UnorderedMap.find?_erase]
  split_ifs with hf
  · subst hf
    refine iff_of_false (by simp) fun hnode => hnode.2 (Option.some.inj ?_)
    rw [← (r.position_iff f node).mpr hnode.1, (r.position_iff f it).mpr h]
  · rw [r.position_iff]
    refine (and_iff_left_of_imp ?_).symm
    rintro hnode rfl
    exact hf (congrArg Prod.snd (List.inj_on_of_nodup_map r.nodes_nodup hnode h rfl))

/-- `Unpin`. -/
def unpin (frameId : Fin n) (r : LRUReplacer n) : LRUReplacer n :=
  match h : r.position.find? frameId with
  | some _ => r
  | none => {
    lruList := (r.nextNode, frameId) :: r.lruList
    position := r.position.insert frameId r.nextNode
    nextNode := r.nextNode + 1
    nodes_nodup := by
      refine List.nodup_cons.mpr ⟨fun hmem => ?_, r.nodes_nodup⟩
      obtain ⟨e, he, heq⟩ := List.mem_map.mp hmem
      exact (r.fresh e he).ne heq
    fresh := by
      rintro e (_ | ⟨_, he⟩)
      · exact Nat.lt_succ_self _
      · exact Nat.lt_succ_of_lt (r.fresh e he)
    position_iff := by
      intro f node
      rw [UnorderedMap.find?_insert, List.mem_cons, Prod.mk.injEq, ← r.position_iff]
      split_ifs with hf
      · simp [hf, h, eq_comm]
      · simp [hf] }

/-- `Pin`. -/
def pin (frameId : Fin n) (r : LRUReplacer n) : LRUReplacer n :=
  match h : r.position.find? frameId with
  | none => r
  | some it => {
    lruList := r.lruList.filter fun e => e.1 ≠ it
    position := r.position.erase frameId
    nextNode := r.nextNode
    nodes_nodup := r.nodes_nodup.sublist (List.filter_sublist.map _)
    fresh := fun e he => r.fresh e (List.mem_of_mem_filter he)
    position_iff := by
      intro f node
      rw [r.position_erase ((r.position_iff frameId it).mp h), List.mem_filter, decide_eq_true_iff] }

/-- `Victim`. -/
def victim (r : LRUReplacer n) : Option (Fin n) × LRUReplacer n :=
  match h : r.lruList.getLast? with
  | none => (none, r)
  | some (back, frameId) => (some frameId, {
    lruList := r.lruList.dropLast
    position := r.position.erase frameId
    nextNode := r.nextNode
    nodes_nodup := r.nodes_nodup.sublist ((List.dropLast_sublist _).map _)
    fresh := fun e he => r.fresh e ((List.dropLast_sublist _).mem he)
    position_iff := by
      intro f node
      have hlist := List.dropLast_append_getLast? _ h
      have hnodup := r.nodes_nodup
      rw [r.position_erase (List.mem_of_getLast? h)]
      rw [← hlist, List.map_append, List.nodup_append] at hnodup
      nth_rewrite 1 [← hlist]
      refine ⟨fun hnode => ?_, fun hnode => ⟨List.mem_append_left _ hnode, ?_⟩⟩
      · simpa [hnode.2] using hnode.1
      · exact hnodup.2.2 node (List.mem_map_of_mem hnode) back (List.mem_singleton_self _) })

end LRUReplacer

/-! ### The pool -/

/-- `BufferPool`, with `n` frames and the page manager it works on. -/
structure BufferPool (n : Nat) where
  pageManager : PageManager
  frames : Fin n → Frame
  pageTable : UnorderedMap PageId (Fin n)
  freeList : List (Fin n)
  replacer : LRUReplacer n

namespace BufferPool

variable {n : Nat}

/-- The constructor; `pageTable` is the empty map of the implementation. -/
def new (pageManager : PageManager) (pageTable : UnorderedMap PageId (Fin n)) : BufferPool n where
  pageManager := pageManager
  frames := fun _ => {}
  pageTable := pageTable
  freeList := List.finRange n
  replacer := .new

/-- The pool with one frame changed. -/
def setFrame (frameId : Fin n) (frame : Frame) (pool : BufferPool n) : BufferPool n :=
  { pool with frames := Function.update pool.frames frameId frame }

/-- `FindVictimFrame`. -/
def findVictimFrame (pool : BufferPool n) : Option (Fin n) × BufferPool n :=
  match pool.freeList.getLast? with
  | some frameId => (some frameId, { pool with freeList := pool.freeList.dropLast })
  | none =>
    let (frameId, replacer) := pool.replacer.victim
    (frameId, { pool with replacer := replacer })

/-- What `FetchPage` and `NewPage` do with the frame they found: its page leaves the pool, and is
written if it is dirty.  The answer of `WritePage` is not looked at. -/
def evict (frameId : Fin n) (pool : BufferPool n) : BufferPool n :=
  let frame := pool.frames frameId
  let pool :=
    if frame.pageId ≠ kInvalidPageId then
      let pool :=
        if frame.isDirty then
          { pool with pageManager := (pool.pageManager.writePage frame.pageId frame.page).2 }
        else pool
      { pool with pageTable := pool.pageTable.erase frame.pageId }
    else pool
  pool.setFrame frameId {}

/-- The frame gets its new page, with one pin. -/
def install (frameId : Fin n) (pageId : PageId) (page : Page) (isDirty : Bool)
    (pool : BufferPool n) : BufferPool n :=
  { pool.setFrame frameId { page, pageId, pinCount := 1, isDirty } with
    pageTable := pool.pageTable.insert pageId frameId }

/-- `FetchPage`: the frame that the pointer points into, if it is not null. -/
def fetchPage (pageId : PageId) (pool : BufferPool n) : Option (Fin n) × BufferPool n :=
  match pool.pageTable.find? pageId with
  | some frameId =>
    let frame := pool.frames frameId
    let pool :=
      if frame.pinCount = 0 then { pool with replacer := pool.replacer.pin frameId } else pool
    (some frameId, pool.setFrame frameId { frame with pinCount := frame.pinCount + 1 })
  | none =>
    match pool.findVictimFrame with
    | (none, pool) => (none, pool)
    | (some frameId, pool) =>
      let pool := pool.evict frameId
      match pool.pageManager.readPage pageId with
      | .error _ => (none, { pool with freeList := pool.freeList ++ [frameId] })
      | .ok page => (some frameId, pool.install frameId pageId page false)

/-- `NewPage`: the id of the page and its frame.  The file has been extended even if no frame is
found. -/
def newPage (pool : BufferPool n) : Option (PageId × Fin n) × BufferPool n :=
  match pool.pageManager.allocatePage with
  | (.error _, pageManager) => (none, { pool with pageManager := pageManager })
  | (.ok pageId, pageManager) =>
    match { pool with pageManager := pageManager }.findVictimFrame with
    | (none, pool) => (none, pool)
    | (some frameId, pool) =>
      (some (pageId, frameId), (pool.evict frameId).install frameId pageId Page.blank true)

/-- `UnpinPage`. -/
def unpinPage (pageId : PageId) (isDirty : Bool) (pool : BufferPool n) : Bool × BufferPool n :=
  match pool.pageTable.find? pageId with
  | none => (false, pool)
  | some frameId =>
    let frame := pool.frames frameId
    if frame.pinCount = 0 then (false, pool)
    else
      let frame :=
        { frame with isDirty := frame.isDirty || isDirty, pinCount := frame.pinCount - 1 }
      let pool := pool.setFrame frameId frame
      (true,
        if frame.pinCount = 0 then { pool with replacer := pool.replacer.unpin frameId } else pool)

/-- `FlushPage`. -/
def flushPage (pageId : PageId) (pool : BufferPool n) : Result Unit × BufferPool n :=
  match pool.pageTable.find? pageId with
  | none => (.error ⟨.notFound, lit "FlushPage: page not resident"⟩, pool)
  | some frameId =>
    let frame := pool.frames frameId
    let (status, pageManager) := pool.pageManager.writePage pageId frame.page
    let pool := { pool with pageManager := pageManager }
    match status with
    | .ok () => (.ok (), pool.setFrame frameId { frame with isDirty := false })
    | .error status => (.error status, pool)

/-- The loop of `FlushAll` over the page table. -/
def flushFrom : List (PageId × Fin n) → BufferPool n → Result Unit × BufferPool n
  | [], pool => (.ok (), pool)
  | (pageId, frameId) :: rest, pool =>
    let frame := pool.frames frameId
    if frame.isDirty then
      let (status, pageManager) := pool.pageManager.writePage pageId frame.page
      let pool := { pool with pageManager := pageManager }
      match status with
      | .ok () => flushFrom rest (pool.setFrame frameId { frame with isDirty := false })
      | .error status => (.error status, pool)
    else flushFrom rest pool

/-- `FlushAll`. -/
def flushAll (pool : BufferPool n) : Result Unit × BufferPool n :=
  flushFrom pool.pageTable.entries pool

/-- A client writes a page through its pointer. -/
def write (frameId : Fin n) (page : Page) (pool : BufferPool n) : BufferPool n :=
  pool.setFrame frameId { pool.frames frameId with page := page }

/-- Programs run on a pool.  They write through the pointer to the page that they got when they
fetched it. -/
instance : Pool (BufferPool n) PageId Page where
  fetchPage pageId pool :=
    let (frameId?, pool) := pool.fetchPage pageId
    (frameId?.map fun frameId => (pool.frames frameId).page, pool)
  newPage pool := (pool.newPage.1.map Prod.fst, pool.newPage.2)
  setPage pageId page pool := (pool.pageTable.find? pageId).elim pool (pool.write · page)
  unpinPage pageId isDirty pool := (pool.unpinPage pageId isDirty).2

end BufferPool

end MiniDB
