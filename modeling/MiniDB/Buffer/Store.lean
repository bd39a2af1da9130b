import MiniDB.Lib.Paged
import MiniDB.Lib.Tenancy
import MiniDB.Storage.Page
import Mathlib.Data.List.Nodup
import Mathlib.Data.List.Perm.Subperm

/-!
# The page store behind a buffer pool

What a client of a `BufferPool` sees when a frame can always be found for it: the current content
of every allocated page.  Page ids are positions in the data file; page `0` is the file's own
header page, so a new file has one page and the first page handed out is page `1`.

`FetchPage` answers null outside the file (`PageManager::ReadPage` rejects the id), and `NewPage`
answers null once the 32-bit page ids are used up, when `PageManager::AllocatePage` can no longer
extend the file.  `UnpinPage` has no effect on contents.  A program on a buffer pool does the same as on the
store of its pages (`BufferPool.Holds.run`).
-/

namespace MiniDB

open Paged

/-- The contents of the pages of one data file. -/
structure Store where
  pages : List Page
  deriving DecidableEq

namespace Store

/-- A new file: the header page only. -/
def new : Store := ⟨[Page.blank]⟩

/-- The content of a page of the file. -/
def get? (s : Store) (id : PageId) : Option Page :=
  if 0 ≤ id then s.pages[id.toInt.toNat]? else none

/-- Overwrite a page of the file. -/
def set (s : Store) (id : PageId) (page : Page) : Store :=
  if 0 ≤ id then ⟨s.pages.set id.toInt.toNat page⟩ else s

/-- The id the next new page gets, while there is one. -/
def nextId (s : Store) : Option PageId :=
  if s.pages.length < 2 ^ 31 then some (Int32.ofNat s.pages.length) else none

/-- The file extended by a page of zeroes. -/
def extend (s : Store) : Store := ⟨s.pages ++ [Page.blank]⟩

instance : Pool Store PageId Page where
  fetchPage id s := (s.get? id, s)
  newPage s := (s.nextId, if s.nextId.isSome then s.extend else s)
  setPage id page s := s.set id page
  unpinPage _ _ s := s

/-! ### Contents -/

variable {s : Store} {id : PageId} {old page : Page}

theorem get?_set_self (h : s.get? id = some old) (page : Page) :
    (s.set id page).get? id = some page := by
  unfold get? at h ⊢
  unfold set
  split_ifs at h ⊢ with hid
  have hlt : id.toInt.toNat < s.pages.length := (List.getElem?_eq_some_iff.mp h).1
  rw [List.getElem?_set_self hlt]

theorem get?_set_of_ne (s : Store) {id' : PageId} (hne : id' ≠ id) (page : Page) :
    (s.set id page).get? id' = s.get? id' := by
  unfold get? set
  split_ifs with h' h
  · rw [List.getElem?_set_ne]
    intro heq
    apply hne
    apply Int32.toInt.inj
    rw [Int32.le_iff_toInt_le] at h h'
    simp only [Int32.toInt_zero] at h h'
    omega
  · rfl
  · rfl

theorem get?_set (h : s.get? id = some old) (page : Page) (id' : PageId) :
    (s.set id page).get? id' = if id' = id then some page else s.get? id' := by
  split_ifs with heq
  · rw [heq, get?_set_self h]
  · rw [get?_set_of_ne s heq]

/-- Writing back the page that is there. -/
theorem set_eq_self (h : s.get? id = some page) : s.set id page = s := by
  unfold get? at h
  unfold set
  split_ifs at h ⊢ with hid
  obtain ⟨hlt, rfl⟩ := List.getElem?_eq_some_iff.mp h
  rw [List.set_getElem_self]

theorem length_set (s : Store) (id : PageId) (page : Page) :
    (s.set id page).pages.length = s.pages.length := by
  unfold set
  split_ifs
  · exact List.length_set
  · rfl

theorem toInt_of_nextId (h : s.nextId = some id) : id.toInt = s.pages.length := by
  unfold nextId at h
  split_ifs at h with hlt
  obtain rfl := Option.some.inj h
  exact Int32.toInt_ofNat_of_lt hlt

theorem nonneg_of_nextId (h : s.nextId = some id) : 0 ≤ id := by
  rw [Int32.le_iff_toInt_le, toInt_of_nextId h, Int32.toInt_zero]
  omega

/-- A new page is one that was not in the file. -/
theorem get?_nextId (h : s.nextId = some id) : s.get? id = none := by
  have hid := toInt_of_nextId h
  rw [get?, if_pos (nonneg_of_nextId h), hid]
  simp

theorem get?_extend (h : s.nextId = some id) (id' : PageId) :
    s.extend.get? id' = if id' = id then some Page.blank else s.get? id' := by
  have hid := toInt_of_nextId h
  unfold get? extend
  by_cases heq : id' = id
  · rw [heq, if_pos rfl, if_pos (nonneg_of_nextId h), hid]
    simp
  · rw [if_neg heq]
    split_ifs with h0
    · rw [Int32.le_iff_toInt_le, Int32.toInt_zero] at h0
      have hne : id'.toInt ≠ s.pages.length := by
        intro h1
        exact heq (Int32.toInt.inj (h1.trans hid.symm))
      rw [List.getElem?_append]
      split_ifs with hlt
      · rfl
      · rw [List.getElem?_eq_none (by rw [List.length_singleton]; omega),
          List.getElem?_eq_none (by omega)]
    · rfl

theorem length_extend (s : Store) : s.extend.pages.length = s.pages.length + 1 := by
  simp [extend]

/-- A page id in use is below the number of pages. -/
theorem toInt_lt_length (h : s.get? id = some page) : 0 ≤ id.toInt ∧ id.toInt < s.pages.length := by
  unfold get? at h
  split_ifs at h with h0
  rw [Int32.le_iff_toInt_le, Int32.toInt_zero] at h0
  have := (List.getElem?_eq_some_iff.mp h).1
  omega

theorem ne_invalid_of_get (h : s.get? id = some page) : id ≠ kInvalidPageId := by
  rintro rfl
  have := (toInt_lt_length h).1
  exact absurd this (by decide)

/-- Distinct pages of a store are no more than its pages. -/
theorem length_le_of_nodup {ids : List PageId} (hn : ids.Nodup)
    (hget : ∀ id ∈ ids, ∃ page, s.get? id = some page) : ids.length ≤ s.pages.length := by
  have hinj : (ids.map fun id : PageId => id.toInt.toNat).Nodup := by
    apply hn.map_on
    intro a ha b hb hab
    obtain ⟨_, ha⟩ := hget a ha
    obtain ⟨_, hb⟩ := hget b hb
    have h1 := toInt_lt_length ha
    have h2 := toInt_lt_length hb
    apply Int32.toInt.inj
    omega
  have hsub : (ids.map fun id : PageId => id.toInt.toNat) ⊆ List.range s.pages.length := by
    intro n hn
    obtain ⟨id, hid, rfl⟩ := List.mem_map.mp hn
    obtain ⟨_, h⟩ := hget id hid
    have := toInt_lt_length h
    rw [List.mem_range]
    omega
  have := (hinj.subperm hsub).length_le
  rwa [List.length_map, List.length_range] at this

/-! ### Owned pages -/

open Tenancy

/-- Overwriting an owned page. -/
theorem ownStep_set (s : Store) {own : List PageId} (hid : id ∈ own) (page : Page) :
    OwnStep get? s own (s.set id page) own where
  subset := fun _ h => h
  frame := by
    intro i p hi hp
    rw [get?_set_of_ne s (by rintro rfl; exact hi hid), hp]
  fresh := fun _ h hnot => absurd h hnot

/-- Taking a new page. -/
theorem ownStep_extend (h : s.nextId = some id) (own : List PageId) :
    OwnStep get? s own s.extend (id :: own) where
  subset := fun _ h => List.mem_cons_of_mem _ h
  frame := by
    intro i p _ hp
    rw [get?_extend h, if_neg (by rintro rfl; rw [get?_nextId h] at hp; cases hp), hp]
  fresh := by
    intro i hi hnot
    obtain rfl := (List.mem_cons.mp hi).resolve_right hnot
    exact get?_nextId h

/-! ### Executing programs on a store -/

/-- The only way a program may die here: the file cannot be extended any more. -/
def OutOfPages (f : Fault) : Prop := f = .noNewPage

variable {C α : Type} {pre : C → Store → Prop} {x : Nat → Prog PageId Page C α} {Q : α → Store → Prop}

/-- Run a program whose loops get one round for every page of the file and one to stop. -/
def exec (x : Nat → Prog PageId Page C α) (s : Store) : Except Fault (α × Store) :=
  (x (s.pages.length + 1)).run s

/-- An execution returns, unless the file cannot be extended. -/
theorem exec_of_wp (h : (x (s.pages.length + 1)).wp OutOfPages (fun _ _ => True) Q s) :
    exec x s = .error .noNewPage ∨ ∃ a s', exec x s = .ok (a, s') ∧ Q a s' := by
  rcases Prog.run_of_wp h with hok | ⟨e, herr, rfl⟩
  · exact .inr hok
  · exact .inl herr

/-- An execution without allowed faults returns. -/
theorem exec_of_wp_false (h : (x (s.pages.length + 1)).wp (fun _ => False) (fun _ _ => True) Q s) :
    ∃ a s', exec x s = .ok (a, s') ∧ Q a s' := by
  rcases Prog.run_of_wp h with hok | ⟨e, -, hf⟩
  · exact hok
  · exact hf.elim

@[simp] theorem fetchPage_eq (id : PageId) (s : Store) :
    Pool.fetchPage (P := Page) id s = (s.get? id, s) := rfl

@[simp] theorem setPage_eq (id : PageId) (page : Page) (s : Store) :
    Pool.setPage id page s = s.set id page := rfl

@[simp] theorem unpinPage_eq (id : PageId) (d : Bool) (s : Store) :
    Pool.unpinPage Page id d s = s := rfl

@[simp] theorem newPage_eq (s : Store) :
    Pool.newPage (I := PageId) Page s = (s.nextId, if s.nextId.isSome then s.extend else s) := rfl

/-- A program finds new pages as long as the file has room for all it asks for. -/
theorem run_ne_noNewPage {x : Prog PageId Page C α} {n : Nat} (hx : x.AllocAtMost n)
    (hroom : s.pages.length + n ≤ 2 ^ 31) : x.run s ≠ .error .noNewPage := by
  induction x generalizing n s with
  | pure a => exact fun h => by cases h
  | fault e => exact fun h => hx (Except.error.inj h)
  | fetchPage id k ih => exact ih _ (hx _) hroom
  | newPage k ih =>
    obtain ⟨m, rfl, hx⟩ := hx
    have hid : s.nextId = some (Int32.ofNat s.pages.length) := by
      rw [nextId, if_pos (by omega)]
    rw [Prog.run, newPage_eq, hid]
    refine ih _ (hx _) ?_
    rw [Option.isSome_some, if_pos rfl, length_extend]
    omega
  | setPage id page k ih => exact ih hx (by rw [setPage_eq, length_set]; exact hroom)
  | unpinPage id d k ih => exact ih hx hroom
  | enter c k ih => exact ih hx hroom

theorem wp_fetch {allow : Fault → Prop} (h : s.get? id = some page) (Q : Page → Store → Prop) :
    (Prog.fetch id : Prog PageId Page C Page).wp allow pre Q s ↔ Q page s :=
  Prog.wp_fetch_of_eq h Q

/-- A new page either gets the next id, or the program dies for want of one. -/
theorem wp_alloc {Q : PageId → Store → Prop} (h : ∀ id, s.nextId = some id → Q id s.extend) :
    (Prog.alloc : Prog PageId Page C PageId).wp OutOfPages pre Q s := by
  cases hid : s.nextId with
  | none => exact (Prog.wp_alloc_of_none (by rw [newPage_eq, hid]) Q).mpr rfl
  | some id =>
    have hnew : (Pool.newPage Page s).1 = some id := by rw [newPage_eq, hid]
    rw [Prog.wp_alloc_of_eq hnew, newPage_eq, hid]
    exact h id hid

end Store

end MiniDB
