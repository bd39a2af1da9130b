import MiniDB.Storage.PageManager

/-!
# What a page manager keeps

The next page id of a page manager is the number of its pages (`Counted`): `AllocatePage` moves both on,
whether it can extend the file or not.  As long as the stream works, so that a failed extension has not
happened yet, the ids of all pages are within 31 bits, a written page is the page read next, and a new
page is one of zeroes.
-/

namespace MiniDB

namespace PageManager

/-- A page manager whose next page id is the number of pages. -/
structure Counted (pm : PageManager) : Prop where
  next : pm.nextPageId = Int32.ofNat pm.pageCount
  pos : 0 < pm.pageCount
  le : pm.good = true → pm.pageCount ≤ 2 ^ 31

/-- The pages of a file other than its header. -/
def dataPages : Set PageId := { p | p ≠ kHeaderPageId }

variable {pm pm' : PageManager} {p q : PageId}

/-! ### Writing and reading -/

/-- `WritePage` changes nothing but the file. -/
theorem writePage_snd (p : PageId) (page : Page) (pm : PageManager) :
    ∃ file, (pm.writePage p page).2 = { pm with file := file } := by
  unfold PageManager.writePage
  split_ifs
  · exact ⟨_, rfl⟩
  · exact ⟨_, rfl⟩
  · exact ⟨_, rfl⟩

theorem Counted.writePage (h : pm.Counted) (p : PageId) (page : Page) :
    (pm.writePage p page).2.Counted := by
  obtain ⟨file, heq⟩ := writePage_snd p page pm
  rw [heq]
  exact ⟨h.next, h.pos, h.le⟩

theorem pageCount_writePage (p : PageId) (page : Page) (pm : PageManager) :
    (pm.writePage p page).2.pageCount = pm.pageCount := by
  obtain ⟨file, heq⟩ := writePage_snd p page pm
  rw [heq]

theorem nextPageId_writePage (p : PageId) (page : Page) (pm : PageManager) :
    (pm.writePage p page).2.nextPageId = pm.nextPageId := by
  obtain ⟨file, heq⟩ := writePage_snd p page pm
  rw [heq]

theorem good_writePage (p : PageId) (page : Page) (pm : PageManager) :
    (pm.writePage p page).2.good = pm.good := by
  obtain ⟨file, heq⟩ := writePage_snd p page pm
  rw [heq]

/-- The other pages are as they were. -/
theorem content_writePage_of_ne (h : q ≠ p) (page : Page) (pm : PageManager) :
    (pm.writePage p page).2.content q = pm.content q := by
  unfold PageManager.writePage
  split_ifs with hin hgood
  · show pageAt (writeAt pm.file p page) q = pageAt pm.file q
    rw [pageAt_writeAt _ hin.1, Function.update_of_ne h]
  · rfl
  · rfl

/-- A written page is the page read next. -/
theorem content_writePage (hin : pm.InRange p) (hgood : pm.good = true) (page : Page) :
    (pm.writePage p page).2.content = Function.update pm.content p page := by
  rw [writePage_eq hin hgood]
  funext q
  exact pageAt_writeAt pm.file hin.1 page q

theorem writePage_cases (p : PageId) (page : Page) (pm : PageManager) :
    (∃ e, pm.writePage p page = (.error e, pm)) ∧ ¬ (pm.InRange p ∧ pm.good = true) ∨
      (pm.writePage p page).1 = .ok () ∧ pm.InRange p ∧ pm.good = true := by
  unfold PageManager.writePage
  split_ifs with hin hgood
  · exact .inr ⟨rfl, hin, hgood⟩
  · exact .inl ⟨⟨_, rfl⟩, fun h => hgood h.2⟩
  · exact .inl ⟨⟨_, rfl⟩, fun h => hin h.1⟩

theorem readPage_eq (p : PageId) (pm : PageManager) :
    (∃ e, pm.readPage p = .error e) ∧ ¬ (pm.InRange p ∧ pm.good = true) ∨
      pm.readPage p = .ok (pm.content p) ∧ pm.InRange p ∧ pm.good = true := by
  unfold PageManager.readPage
  split_ifs with hin hgood
  · exact .inr ⟨rfl, hin, hgood⟩
  · exact .inl ⟨⟨_, rfl⟩, fun h => hgood h.2⟩
  · exact .inl ⟨⟨_, rfl⟩, fun h => hin h.1⟩

/-! ### Extending the file -/

/-- `AllocatePage` appends a page of zeroes, or breaks the stream. -/
theorem Counted.allocatePage (h : pm.Counted) :
    pm.allocatePage.2.Counted ∧ pm.allocatePage.2.pageCount = pm.pageCount + 1 ∧
      pm.allocatePage.2.nextPageId = pm.nextPageId + 1 ∧
      (((∃ e, pm.allocatePage.1 = .error e) ∧ pm.allocatePage.2.good = false ∧
          pm.allocatePage.2.content = pm.content) ∨
        pm.allocatePage.1 = .ok pm.nextPageId ∧ pm.good = true ∧ pm.allocatePage.2.good = true ∧
          pm.nextPageId.toInt = pm.pageCount ∧
          ∀ q ∈ dataPages, pm.allocatePage.2.content q
            = Function.update pm.content pm.nextPageId Page.blank q) := by
  have hnext : pm.nextPageId + 1 = Int32.ofNat (pm.pageCount + 1) := by
    rw [h.next, Int32.ofNat_add]
    rfl
  unfold PageManager.allocatePage
  dsimp only
  split_ifs with hroom
  · obtain ⟨hgood, hnonneg, -⟩ := hroom
    have hcount : pm.pageCount < 2 ^ 31 := by
      refine Nat.lt_of_le_of_ne (h.le hgood) fun heq => ?_
      rw [h.next, heq] at hnonneg
      exact absurd hnonneg (by decide)
    have hint : pm.nextPageId.toInt = pm.pageCount := by
      rw [h.next]
      exact Int32.toInt_ofNat_of_lt hcount
    rw [writeFileHeader, if_pos hgood]
    refine ⟨⟨hnext, Nat.succ_pos _, fun _ => hcount⟩, rfl, rfl, .inr ⟨rfl, hgood, hgood, hint, ?_⟩⟩
    intro q hq
    show pageAt (writeAt (writeAt pm.file pm.nextPageId Page.blank) kHeaderPageId _) q = _
    rw [pageAt_writeAt _ (by decide), Function.update_of_ne hq, pageAt_writeAt _ hnonneg]
    rfl
  · exact ⟨⟨hnext, Nat.succ_pos _, fun hbroken => absurd hbroken Bool.false_ne_true⟩, rfl, rfl,
      .inl ⟨⟨_, rfl⟩, rfl, rfl⟩⟩

/-! ### Opening files -/

/-- The header page holds the counters; that of the pages has 32 bits. -/
theorem decodeHeaderPage_encodeHeaderPage (next : PageId) (count : Nat) :
    decodeHeaderPage (encodeHeaderPage next count) = (next, count % 2 ^ 32) := by
  have hnext : (encodeHeaderPage next count).get PageId 0 = next := by
    rw [encodeHeaderPage, Page.get_put_of_disjoint _ _ (.inl (by decide)),
      Page.get_put_self _ _ (by decide)]
  have hcount : (encodeHeaderPage next count).get UInt32 4 = UInt32.ofNat count := by
    rw [encodeHeaderPage, Page.get_put_self _ _ (by decide)]
  rw [decodeHeaderPage, hnext, hcount, UInt32.toNat_ofNat']

/-- The page manager of a new file. -/
theorem counted_openFile (room : Nat) : (openFile room none).Counted :=
  ⟨rfl, Nat.one_pos, fun _ => (by decide : 1 ≤ 2 ^ 31)⟩

end PageManager

end MiniDB
