import MiniDB.Buffer.Equiv.Transparency
import MiniDB.Storage.HeapFile

/-!
# Programs on a buffer pool

Heap files and B+trees are programs over a pool of pages, and are verified on a plain `Store`.  On a
buffer pool they do the same (`Holds.run`), as long as the operations on the file succeed, there is a
frame for every page they ask for, and they do what the clients of a pool may do (`Orderly`).
-/

namespace MiniDB.BufferPool

open Paged WriteBack PageManager

variable {n : Nat} {pool pool' : BufferPool n} {s s' : Clients PageId Page} {st st' : Store} {p : PageId}

/-- The store has the pages of the file, with the content that the clients of the pool expect. -/
structure Holds (s : Clients PageId Page) (st : Store) (pool : BufferPool n) : Prop where
  inv : Inv none pool
  good : pool.pageManager.good = true
  agrees : Agrees dataPages pool.cache s
  length : st.pages.length = pool.pageManager.pageCount
  content : ∀ p ∈ dataPages,
    st.get? p = if pool.pageManager.InRange p then some (s.content p) else none

/-- The pages of a file. -/
def fileStore (pm : PageManager) : Store :=
  ⟨(List.range pm.pageCount).map fun i => pm.content (Int32.ofNat i)⟩

/-- A new pool holds the pages of its file. -/
theorem Holds.new {pm : PageManager} (hpm : pm.Counted) (hgood : pm.good = true)
    {table : UnorderedMap PageId (Fin n)} (htable : ∀ p, table.find? p = none) :
    Holds ⟨pm.content, [], ∅⟩ (fileStore pm) (BufferPool.new pm table) := by
  have hshows := Shows.new hpm htable
  refine ⟨hshows.inv, hgood, hshows.agrees, by simp [fileStore, BufferPool.new], fun p _ => ?_⟩
  show (if 0 ≤ p then _ else _) = if 0 ≤ p ∧ p.toInt < pm.pageCount then _ else _
  by_cases h0 : 0 ≤ p
  · have hp := h0
    rw [Int32.le_iff_toInt_le, Int32.toInt_zero] at hp
    rw [if_pos h0, fileStore, List.getElem?_map]
    by_cases hlt : p.toInt < pm.pageCount
    · rw [if_pos ⟨h0, hlt⟩, List.getElem?_range (by omega), Option.map_some, ← Int32.ofInt_eq_ofNat,
        Int.toNat_of_nonneg hp, Int32.ofInt_toInt]
    · rw [if_neg (hlt ·.2), List.getElem?_eq_none (by rw [List.length_range]; omega)]
      rfl
  · rw [if_neg h0, if_neg (h0 ·.1)]

/-- A program that does what clients may do, and finds a frame for every page: it leaves the header alone,
writes to pages that it holds a pin on, and reports its changes with the last pin that it gives back. -/
def Orderly {C α : Type} : Prog PageId Page C α → Clients PageId Page → BufferPool n → Prop
  | .pure _, _, _ => True
  | .fault _, _, _ => True
  | .fetchPage p k, s, pool => p ∈ dataPages ∧
    if pool.pageManager.InRange p then
      (pool.fetchPage p).1 ≠ none ∧ Orderly (k (some (s.content p))) (s.pin p) (pool.fetchPage p).2
    else Orderly (k none) s (pool.fetchPage p).2
  | .newPage k, s, pool => pool.newPage.1 ≠ none ∧
    let new := pool.pageManager.nextPageId
    Orderly (k (some new)) ((s.create new Page.blank).pin new) pool.newPage.2
  | .setPage p page k, s, pool => p ∈ dataPages ∧ p ∈ s.pins ∧
    Orderly k (s.write p page) (Pool.setPage p page pool)
  | .unpinPage p dirty k, s, pool => p ∈ s.pins ∧ s.MayUnpin p dirty ∧
    Orderly k (s.unpin p dirty) (pool.unpinPage p dirty).2
  | .enter _ k, s, pool => Orderly k s pool

namespace Holds

variable (h : Holds s st pool)

include h

theorem serve (hserved : Served pool s pool' s') (hgood : pool'.pageManager.good = true)
    (hlength : st'.pages.length = pool'.pageManager.pageCount)
    (hcontent : ∀ p ∈ dataPages,
      st'.get? p = if pool'.pageManager.InRange p then some (s'.content p) else none) :
    Holds s' st' pool' :=
  ⟨hserved.inv, hgood, (hserved.steps h.good).agrees h.agrees, hlength, hcontent⟩

/-- `FetchPage` gives the page of the store, or null if there is none. -/
theorem fetchPage (hp : p ∈ dataPages)
    (hframe : pool.pageManager.InRange p → (pool.fetchPage p).1 ≠ none) :
    (Pool.fetchPage p pool).1 = st.get? p ∧
      Holds (if pool.pageManager.InRange p then s.pin p else s) st (pool.fetchPage p).2 := by
  obtain ⟨hcount, -, hgood, hcases⟩ := fetchPage_spec (s := s) h.inv p
  have hrange : ∀ q, (pool.fetchPage p).2.pageManager.InRange q ↔ pool.pageManager.InRange q := by
    intro q
    rw [PageManager.InRange, hcount, PageManager.InRange]
  have hcontent : ∀ q ∈ dataPages, st.get? q
      = if (pool.fetchPage p).2.pageManager.InRange q then some (s.content q) else none := by
    simpa only [hrange] using h.content
  show (pool.fetchPage p).1.map (fun f => ((pool.fetchPage p).2.frames f).page) = _ ∧ _
  rcases hcases with ⟨f, hf, hfind, hserved⟩ | ⟨hf, hserved, -⟩
  · have hin := (hrange p).mp (hserved.inv.inRange p f hfind)
    have hm : Holds (s.pin p) st (pool.fetchPage p).2 :=
      h.serve hserved (hgood.trans h.good) (h.length.trans hcount.symm) hcontent
    have hpage : ((pool.fetchPage p).2.frames f).page = s.content p :=
      (Cache.read_of_line (lines_of_find hfind)).symm.trans (hm.agrees.read_eq hp)
    rw [hf, Option.map_some, hpage, h.content p hp, if_pos hin, if_pos hin]
    exact ⟨rfl, hm⟩
  · have hin : ¬ pool.pageManager.InRange p := fun hin => hframe hin hf
    rw [hf, h.content p hp, if_neg hin, if_neg hin]
    exact ⟨rfl, h.serve hserved (hgood.trans h.good) (h.length.trans hcount.symm) hcontent⟩

/-- `NewPage` extends the file as it extends the store. -/
theorem newPage (hframe : pool.newPage.1 ≠ none) :
    let new := pool.pageManager.nextPageId
    (Pool.newPage Page pool).1 = some new ∧ Pool.newPage Page st = (some new, st.extend) ∧
      Holds ((s.create new Page.blank).pin new) st.extend pool.newPage.2 := by
  obtain ⟨hcount, -, ⟨hnone, -⟩ | ⟨hnew, -, hgood, ⟨f, hf, -, -, hserved⟩ | ⟨hnone, -⟩⟩⟩ :=
    newPage_spec (s := s) h.inv
  · exact absurd hnone hframe
  · have hnext : st.nextId = some pool.pageManager.nextPageId := by
      have hlt := Int32.toInt_lt pool.pageManager.nextPageId
      rw [Store.nextId, h.length, if_pos (by omega), ← h.inv.counted.next]
    refine ⟨congrArg (Option.map Prod.fst) hf, ?_, h.serve hserved hgood ?_ fun p hp => ?_⟩
    · show (st.nextId, if st.nextId.isSome then st.extend else st) = _
      rw [hnext]
      rfl
    · rw [hcount, ← h.length]
      exact List.length_append ..
    · rw [Store.get?_extend hnext, h.content p hp]
      show _ = if _ then some (Function.update s.content _ Page.blank p) else none
      simp only [PageManager.InRange, hcount]
      rw [Function.update_apply]
      by_cases hpnew : p = pool.pageManager.nextPageId
      · have h0 := Store.nonneg_of_nextId hnext
        rw [if_pos hpnew, if_pos hpnew, if_pos ⟨hpnew ▸ h0, by rw [hpnew]; omega⟩]
      · have hne : p.toInt ≠ pool.pageManager.nextPageId.toInt := fun heq => hpnew (Int32.toInt.inj heq)
        rw [if_neg hpnew, if_neg hpnew]
        refine if_congr (and_congr_right fun _ => ?_) rfl rfl
        omega
  · exact absurd hnone hframe

/-- A client writes to a page that it holds a pin on. -/
theorem setPage (hdata : p ∈ dataPages) (hp : p ∈ s.pins) (page : Page) :
    Holds (s.write p page) (st.set p page) (Pool.setPage p page pool) := by
  obtain ⟨f, hfind, hpos⟩ := resident_of_pinned h.agrees hp
  have hin := h.inv.inRange p f hfind
  have hget := (h.content p hdata).trans (if_pos hin)
  show Holds _ _ ((pool.pageTable.find? p).elim pool (pool.write · page))
  rw [hfind]
  refine h.serve (write_spec h.inv hfind hpos page) h.good ((Store.length_set ..).trans h.length) ?_
  intro q hq
  rw [Store.get?_set hget, h.content q hq]
  show _ = if pool.pageManager.InRange q then some (Function.update s.content p page q) else none
  rw [Function.update_apply]
  split_ifs with hqp hin' <;> first | rfl | exact absurd (hqp ▸ hin) hin'

theorem unpinPage (hp : p ∈ s.pins) {dirty : Bool} (hmay : s.MayUnpin p dirty) :
    Holds (s.unpin p dirty) st (pool.unpinPage p dirty).2 := by
  obtain ⟨f, hfind, hpos⟩ := resident_of_pinned h.agrees hp
  have hserved := unpinPage_spec h.inv dirty hfind hpos hmay
  have hpm := pageManager_unpinPage pool p dirty
  exact h.serve hserved (hpm ▸ h.good) (hpm ▸ h.length) (hpm ▸ h.content)

/-- **A program on a pool does what it does on the store of its pages**: it returns the same result or dies
of the same fault, and leaves the same pages. -/
theorem run {C α : Type} {x : Prog PageId Page C α} (hx : Orderly x s pool) :
    (∃ a pool' st' s', x.run pool = .ok (a, pool') ∧ x.run st = .ok (a, st') ∧ Holds s' st' pool') ∨
      ∃ e, x.run pool = .error e ∧ x.run st = .error e := by
  induction x generalizing s st pool with
  | pure a => exact .inl ⟨a, pool, st, s, rfl, rfl, h⟩
  | fault e => exact .inr ⟨e, rfl, rfl⟩
  | fetchPage p k ih =>
    obtain ⟨hp, hx⟩ := hx
    obtain ⟨hpool, hm⟩ := h.fetchPage hp fun hin => by rw [if_pos hin] at hx; exact hx.1
    have hget := h.content p hp
    simp only [Prog.run, hpool, Store.fetchPage_eq]
    split_ifs at hx hm hget with hin
    · rw [hget]
      exact ih _ hm hx.2
    · rw [hget]
      exact ih _ hm hx
  | newPage k ih =>
    obtain ⟨hpool, hstore, hm⟩ := h.newPage hx.1
    simp only [Prog.run, hpool, hstore]
    exact ih _ hm hx.2
  | setPage p page k ih => exact ih (h.setPage hx.1 hx.2.1 page) hx.2.2
  | unpinPage p dirty k ih => exact ih (h.unpinPage hx.1 hx.2.1) hx.2.2
  | enter c k ih => exact ih h hx

end Holds

-- starting a heap file in a new data file is orderly on a pool of one frame
example : Orderly (C := RecordId) (HeapFile.openHeap kInvalidPageId) ⟨(openFile 9 none).content, [], ∅⟩
    (.new (openFile 9 none) (.empty id fun _ => .refl _) : BufferPool 1) :=
  ⟨by decide, (by decide : kFirstDataPageId ≠ kHeaderPageId), .head _, .head _, .inl rfl, trivial⟩

end MiniDB.BufferPool
