import MiniDB.Storage.Page
import MiniDB.Utilities.Status

/-!
# The page manager

A `PageManager` keeps the pages of one data file.  Page `0` is the header, which holds the id of the
next page and the number of pages.  A page that was written is flushed at once, so that the file holds
what was written last.

The file is the list of its pages; what lies behind its end reads as zeroes.  Its stream is `good` until
some input or output fails: `room` is the number of pages that the disk can hold, and a page that does
not fit any more is such a failure.  Nothing makes a stream good again.
-/

namespace MiniDB

open Bytes

/-- `config::kHeaderPageId`. -/
def kHeaderPageId : PageId := 0

/-- `config::kFirstDataPageId`. -/
def kFirstDataPageId : PageId := 1

/-- `EncodeHeaderPage`. -/
def encodeHeaderPage (nextPageId : PageId) (pageCount : Nat) : Page :=
  (Page.blank.put 0 nextPageId).put 4 (UInt32.ofNat pageCount)

/-- `DecodeHeaderPage`. -/
def decodeHeaderPage (page : Page) : PageId × Nat :=
  (page.get PageId 0, (page.get UInt32 4).toNat)

/-- A page read at its place of the file. -/
def pageAt (file : List Page) (id : PageId) : Page :=
  if 0 ≤ id then file.getD id.toInt.toNat Page.blank else Page.blank

/-- The file with a page written at its place; a gap before it is filled with zeroes. -/
def writeAt (file : List Page) (id : PageId) (page : Page) : List Page :=
  if id.toInt.toNat < file.length then file.set id.toInt.toNat page
  else file ++ List.replicate (id.toInt.toNat - file.length) Page.blank ++ [page]

/-- `PageManager`. -/
structure PageManager where
  file : List Page
  nextPageId : PageId
  pageCount : Nat
  good : Bool
  room : Nat
  deriving DecidableEq

namespace PageManager

/-- `WriteFileHeader`. -/
def writeFileHeader (pm : PageManager) : PageManager :=
  if pm.good then
    { pm with file := writeAt pm.file kHeaderPageId (encodeHeaderPage pm.nextPageId pm.pageCount) }
  else pm

/-- The constructor, for a file that exists or not.  A file without its header page breaks the stream. -/
def openFile (room : Nat) : Option (List Page) → PageManager
  | some file =>
    let header := decodeHeaderPage (pageAt file kHeaderPageId)
    { file, room
      nextPageId := header.1
      pageCount := header.2
      good := 0 < file.length }
  | none =>
    writeFileHeader {
      file := []
      room
      nextPageId := kFirstDataPageId
      pageCount := 1
      good := true }

/-- The file that the destructor leaves. -/
def close (pm : PageManager) : List Page := pm.writeFileHeader.file

/-- `AllocatePage`.  The counters have moved on even if the file cannot be extended. -/
def allocatePage (pm : PageManager) : Result PageId × PageManager :=
  let newId := pm.nextPageId
  let pm := { pm with nextPageId := pm.nextPageId + 1, pageCount := pm.pageCount + 1 }
  if pm.good ∧ 0 ≤ newId ∧ newId.toInt < pm.room then
    (.ok newId, writeFileHeader { pm with file := writeAt pm.file newId Page.blank })
  else
    (.error ⟨.ioError, lit "failed to extend data file for new page"⟩, { pm with good := false })

/-- The ids that `ReadPage` and `WritePage` take. -/
def InRange (pm : PageManager) (id : PageId) : Prop := 0 ≤ id ∧ id.toInt < pm.pageCount

instance (pm : PageManager) (id : PageId) : Decidable (pm.InRange id) :=
  inferInstanceAs (Decidable (_ ∧ _))

/-- `ReadPage`, into a page of zeroes. -/
def readPage (id : PageId) (pm : PageManager) : Result Page :=
  if ¬ pm.InRange id then .error ⟨.invalidArgument, lit "ReadPage: page_id out of range"⟩
  else if ¬ pm.good then .error ⟨.ioError, lit "ReadPage: I/O error"⟩
  else .ok (pageAt pm.file id)

/-- `WritePage`. -/
def writePage (id : PageId) (page : Page) (pm : PageManager) : Result Unit × PageManager :=
  if ¬ pm.InRange id then (.error ⟨.invalidArgument, lit "WritePage: page_id out of range"⟩, pm)
  else if ¬ pm.good then (.error ⟨.ioError, lit "WritePage: I/O error"⟩, pm)
  else (.ok (), { pm with file := writeAt pm.file id page })

/-! ### Contents -/

theorem toNat_ne_of_ne {id id' : PageId} (h : 0 ≤ id) (h' : 0 ≤ id') (hne : id' ≠ id) :
    id'.toInt.toNat ≠ id.toInt.toNat := by
  rw [Int32.le_iff_toInt_le, Int32.toInt_zero] at h h'
  intro heq
  exact hne (Int32.toInt.inj (by omega))

/-- The pages after one was written. -/
theorem pageAt_writeAt (file : List Page) {id : PageId} (h : 0 ≤ id) (page : Page) (id' : PageId) :
    pageAt (writeAt file id page) id' = Function.update (pageAt file) id page id' := by
  by_cases heq : id' = id
  · subst heq
    rw [Function.update_self, pageAt, if_pos h, writeAt]
    split_ifs with hlt
    · rw [List.getD_eq_getElem?_getD, List.getElem?_set_self hlt, Option.getD_some]
    · have hlen : (file ++ List.replicate (id'.toInt.toNat - file.length) Page.blank).length
          = id'.toInt.toNat := by
        rw [List.length_append, List.length_replicate]
        omega
      rw [List.getD_eq_getElem?_getD, List.getElem?_append_right (Nat.le_of_eq hlen), hlen]
      simp
  · rw [Function.update_of_ne heq, pageAt, pageAt]
    split_ifs with h'
    · have hne := toNat_ne_of_ne h h' heq
      rw [List.getD_eq_getElem?_getD, List.getD_eq_getElem?_getD, writeAt]
      split_ifs with hlt
      · rw [List.getElem?_set_ne hne.symm]
      · -- behind the old end there are zeroes, and behind the new page nothing
        rw [List.append_assoc, List.getElem?_append]
        split_ifs with hold
        · rfl
        · rw [List.getElem?_append, List.length_replicate, List.getElem?_eq_none (Nat.not_lt.mp hold)]
          split_ifs with hgap
          · rw [List.getElem?_replicate, if_pos hgap]
            rfl
          · rw [List.getElem?_eq_none]
            rw [List.length_singleton]
            omega
    · rfl

/-- The content of a page of the file. -/
def content (pm : PageManager) : PageId → Page := pageAt pm.file

theorem writePage_eq {pm : PageManager} {id : PageId} (hin : pm.InRange id) (hgood : pm.good)
    (page : Page) :
    pm.writePage id page = (.ok (), { pm with file := writeAt pm.file id page }) := by
  rw [writePage, if_neg (not_not.mpr hin), if_neg (not_not.mpr hgood)]

end PageManager

end MiniDB
