import MiniDB.Storage.HeapFile
import MiniDB.Storage.Equiv.SlottedPage

/-!
# Correctness of `HeapFile`

A heap file is a map from record ids to byte strings.  The pages of a heap are the list `chain` of
`HeapInv`: it starts at the first page, has no repetitions, each page links to the next one and the
last to none (`ChainTo`), and the page of the last insert is one of them, whichever it is.

Every operation has one specification, as a weakest precondition over the store
(`insertRecord_wp`, `getRecordBytes_wp`, `deleteRecord_wp`, `updateRecord_wp`, `scan_wp`).  They speak
about `recordAt`, the record behind a record id in the whole store, so that one equation says both
what an operation does to its own heap and that it does nothing to any other.
-/

namespace MiniDB.HeapFile

open Paged SlottedPage Tenancy
open Store (fetchPage_eq get?_extend get?_set ne_invalid_of_get setPage_eq unpinPage_eq wp_alloc
  wp_fetch)
open Prog (wp_access wp_bind wp_fetch? wp_pure wp_set wp_unpin)

variable {C : Type} {pre : C → Store → Prop} {allow : Fault → Prop}

/-! ### The chain of pages -/

/-- The record behind a record id. -/
def recordAt (st : Store) (rid : RecordId) : Option (List UInt8) :=
  (st.get? rid.pageId).bind fun page => record page rid.slotId.toNat

/-- The pages `ids` are sound slotted pages, each linked to the next and the last one to `tail`. -/
def ChainTo (st : Store) : List PageId → PageId → Prop
  | [], _ => True
  | id :: rest, tail =>
    (∃ page, st.get? id = some page ∧ Layout page ∧ nextPageId page = rest.headD tail) ∧
      ChainTo st rest tail

/-- The invariant of a heap file with the pages `chain`. -/
structure HeapInv (st : Store) (h : HeapFile) (chain : List PageId) : Prop where
  head_eq : chain.head? = some h.firstPageId
  last_mem : h.lastInsertPageId ∈ chain
  nodup : chain.Nodup
  chainTo : ChainTo st chain kInvalidPageId

variable {st st' : Store} {ids chain c c' : List PageId} {tail id last : PageId} {rid : RecordId}
  {page page' : Page} {bs : List UInt8} {h h' : HeapFile} {d : RecordBytes} {fuel : Nat}
  {Q : List (RecordId × List UInt8) → Store → Prop}

theorem chainTo_append (a b : List PageId) (tail : PageId) :
    ChainTo st (a ++ b) tail ↔ ChainTo st a (b.headD tail) ∧ ChainTo st b tail := by
  induction a with
  | nil => simp [ChainTo]
  | cons id a ih =>
    have hhead : (a ++ b).headD tail = a.headD (b.headD tail) := by cases a <;> rfl
    simp only [List.cons_append, ChainTo, ih, hhead, and_assoc]

/-- Each page of a chain is in the store, with a sound layout. -/
theorem ChainTo.get (h : ChainTo st ids tail) :
    ∀ id ∈ ids, ∃ page, st.get? id = some page ∧ Layout page := by
  induction ids with
  | nil => intro id hid; cases hid
  | cons i ids ih =>
    intro id hid
    rcases List.mem_cons.mp hid with rfl | hid
    · obtain ⟨page, hget, hl, -⟩ := h.1
      exact ⟨page, hget, hl⟩
    · exact ih h.2 id hid

/-- A chain only depends on the soundness and the links of its pages. -/
theorem ChainTo.congr (h : ChainTo st ids tail)
    (hpages : ∀ id ∈ ids, ∀ page, st.get? id = some page → Layout page →
      ∃ page', st'.get? id = some page' ∧ Layout page' ∧ nextPageId page' = nextPageId page) :
    ChainTo st' ids tail := by
  induction ids with
  | nil => trivial
  | cons i ids ih =>
    obtain ⟨⟨page, hget, hl, hnext⟩, hrest⟩ := h
    obtain ⟨page', hget', hl', hnext'⟩ := hpages i (List.mem_cons_self ..) page hget hl
    exact ⟨⟨page', hget', hl', hnext'.trans hnext⟩,
      ih hrest fun id hid => hpages id (List.mem_cons_of_mem _ hid)⟩

theorem ChainTo.frame (h : ChainTo st ids tail) (hsame : ∀ id ∈ ids, st'.get? id = st.get? id) :
    ChainTo st' ids tail :=
  h.congr fun id hid page hget hl => ⟨page, (hsame id hid).trans hget, hl, rfl⟩

/-- Rewriting one page of a chain, keeping its link. -/
theorem ChainTo.set (h : ChainTo st ids tail) (hget : st.get? id = some page) (hl : Layout page')
    (hnext : nextPageId page' = nextPageId page) : ChainTo (st.set id page') ids tail := by
  apply h.congr
  intro i _ q hq hlq
  by_cases hi : i = id
  · subst hi
    rw [hget] at hq
    obtain rfl := Option.some.inj hq
    exact ⟨page', Store.get?_set_self hget page', hl, hnext⟩
  · exact ⟨q, by rw [Store.get?_set_of_ne st hi, hq], hlq, rfl⟩

theorem HeapInv.present (hi : HeapInv st h chain) : ∀ id ∈ chain, ∃ page, st.get? id = some page := by
  intro id hid
  obtain ⟨page, hget, -⟩ := hi.chainTo.get id hid
  exact ⟨page, hget⟩

theorem HeapInv.frame (hi : HeapInv st h chain) (hsame : ∀ id ∈ chain, st'.get? id = st.get? id) :
    HeapInv st' h chain :=
  ⟨hi.head_eq, hi.last_mem, hi.nodup, hi.chainTo.frame hsame⟩

/-- Inserts may start anew at the first page. -/
theorem HeapInv.restart (hi : HeapInv st h chain) : HeapInv st ⟨h.firstPageId, h.firstPageId⟩ chain :=
  ⟨hi.head_eq, List.mem_of_head? hi.head_eq, hi.nodup, hi.chainTo⟩

/-- Heap files as tenants of the store. -/
def heapTenant : Tenant Store.get? (HeapFile × List PageId) where
  own := Prod.snd
  inv := fun st a => HeapInv st a.1 a.2
  present := HeapInv.present
  frame := HeapInv.frame

theorem HeapInv.length_le (hi : HeapInv st h chain) : chain.length ≤ st.pages.length :=
  Store.length_le_of_nodup hi.nodup fun id hid => by
    obtain ⟨page, hget, -⟩ := hi.chainTo.get id hid
    exact ⟨page, hget⟩

theorem recordAt_eq (h : st.get? rid.pageId = some page) :
    recordAt st rid = record page rid.slotId.toNat := by
  rw [recordAt, h]
  rfl

/-- Rewriting a page changes the records of that page only. -/
theorem recordAt_set (hget : st.get? id = some page) (rid : RecordId) :
    recordAt (st.set id page') rid
      = if rid.pageId = id then record page' rid.slotId.toNat else recordAt st rid := by
  unfold recordAt
  rw [get?_set hget]
  split_ifs <;> rfl

/-- Storing `new` in slot `slot` of a page stores it under that record id and nowhere else. -/
theorem recordAt_set_slot {slot : SlotId} {new : Option (List UInt8)}
    (hget : st.get? id = some page)
    (hrec : ∀ j, record page' j = if j = slot.toNat then new else record page j) (rid : RecordId) :
    recordAt (st.set id page') rid
      = if rid = ⟨id, slot⟩ then new else recordAt st rid := by
  rw [recordAt_set hget, hrec]
  by_cases hid : rid.pageId = id
  · rw [if_pos hid]
    by_cases hs : rid.slotId = slot
    · rw [if_pos (by rw [hs]), if_pos]
      cases rid
      simp_all
    · rw [if_neg (fun h => hs (UInt16.toNat_inj.mp h)), if_neg]
      · rw [recordAt_eq (hid ▸ hget)]
      · rintro rfl
        exact hs rfl
  · rw [if_neg hid, if_neg]
    rintro rfl
    exact hid rfl

/-! ### Reading -/

/-- Reading from any sound page. -/
theorem getRecordBytes_page_wp (hget : st.get? rid.pageId = some page) (hl : Layout page)
    {Q : Result (List UInt8) → Store → Prop}
    (hsome : ∀ bs, recordAt st rid = some bs → Q (.ok bs) st)
    (hnone : recordAt st rid = none →
      Q (.error ⟨.notFound, lit "GetRecordBytes: record deleted or slot invalid"⟩) st) :
    (getRecordBytes rid : Prog PageId Page C _).wp allow pre Q st := by
  rw [recordAt_eq hget] at hsome hnone
  unfold getRecordBytes
  simp only [wp_bind, wp_fetch?, fetchPage_eq, hget]
  rw [wp_access (getRecord_eq hl rid.slotId)]
  cases hr : record page rid.slotId.toNat with
  | none => exact hnone hr
  | some bs => exact hsome bs hr

theorem getRecordBytes_wp (hi : HeapInv st h chain) (hrid : rid.pageId ∈ chain)
    {Q : Result (List UInt8) → Store → Prop} (hsome : ∀ bs, recordAt st rid = some bs → Q (.ok bs) st)
    (hnone : recordAt st rid = none →
      Q (.error ⟨.notFound, lit "GetRecordBytes: record deleted or slot invalid"⟩) st) :
    (getRecordBytes rid : Prog PageId Page C _).wp allow pre Q st := by
  obtain ⟨page, hget, hl⟩ := hi.chainTo.get _ hrid
  exact getRecordBytes_page_wp hget hl hsome hnone

/-! ### Inserting -/

/-- The longest record a page can hold. -/
def kMaxRecordSize : Nat := kPageSize - kHeaderSize - kSlotSize

/-- What an operation on the heap `h` does to the store at large: the heap keeps its invariant and
its pages and may gain new ones, and no page outside the heap changes. -/
structure HeapStep (st : Store) (h : HeapFile) (chain : List PageId)
    (st' : Store) (h' : HeapFile) (chain' : List PageId) : Prop where
  inv : HeapInv st' h' chain'
  first_eq : h'.firstPageId = h.firstPageId
  pages : OwnStep Store.get? st chain st' chain'

theorem HeapStep.refl (hi : HeapInv st h chain) :
    HeapStep st h chain st h chain := ⟨hi, rfl, .refl st chain⟩

theorem HeapStep.trans {st'' : Store} {h'' : HeapFile} {c'' : List PageId}
    (h1 : HeapStep st h c st' h' c') (h2 : HeapStep st' h' c' st'' h'' c'') :
    HeapStep st h c st'' h'' c'' :=
  ⟨h2.inv, h2.first_eq.trans h1.first_eq, h1.pages.trans h2.pages⟩

/-- Rewriting a page of the heap, keeping its link. -/
theorem HeapInv.set (hi : HeapInv st h chain) (hid : id ∈ chain) (hget : st.get? id = some page)
    (hl : Layout page') (hnext : nextPageId page' = nextPageId page) :
    HeapStep st h chain (st.set id page') h chain where
  inv := ⟨hi.head_eq, hi.last_mem, hi.nodup, hi.chainTo.set hget hl hnext⟩
  first_eq := rfl
  pages := Store.ownStep_set st hid page'

/-- Any page of the heap may be the page of the last insert. -/
theorem HeapStep.setLast (hs : HeapStep st h c st' h' c') (hid : id ∈ c') :
    HeapStep st h c st' { h' with lastInsertPageId := id } c' :=
  ⟨⟨hs.inv.head_eq, hid, hs.inv.nodup, hs.inv.chainTo⟩, hs.first_eq, hs.pages⟩

theorem length_le_of_fits {p : Page} (hl : Layout p) (hf : Fits p d) :
    d.bytes.length ≤ kMaxRecordSize := by
  have hoff := hl.offset_le
  have hmax : kMaxRecordSize = 4080 := rfl
  have hsize : kPageSize = 4096 := rfl
  have hslot : kSlotSize = 4 := rfl
  have hbase := slotBase_eq (slotCount p).toNat
  unfold Fits directoryGrowth at hf
  split_ifs at hf with hreuse
  · obtain ⟨i, hi, -⟩ := hreuse
    omega
  · omega

/-- An empty page takes every record up to `kMaxRecordSize` bytes. -/
theorem fits_init (p : Page) (pid next : PageId) (d : RecordBytes) :
    Fits (init p pid next) d ↔ d.bytes.length ≤ kMaxRecordSize := by
  refine ⟨length_le_of_fits (init_layout p pid next), fun h => ?_⟩
  have hh : readHeader (init p pid next) = ⟨pid, next, 0, UInt16.ofNat kPageSize⟩ :=
    readHeader_writeHeader p _
  have hc : (slotCount (init p pid next)).toNat = 0 := by rw [slotCount, hh]; rfl
  have hf : (readHeader (init p pid next)).freeSpaceOffset.toNat = 4096 := by rw [hh]; rfl
  have hmax : kMaxRecordSize = 4080 := rfl
  have hslot : kSlotSize = 4 := rfl
  have hnone : ¬ ∃ i, i < (slotCount (init p pid next)).toNat ∧
      (slotAt (init p pid next) i).length = 0 := by
    rintro ⟨i, hi, -⟩
    omega
  rw [Fits, directoryGrowth, if_neg hnone, hc, hf, slotBase_eq]
  omega

/-- The walk along the chain: either some page takes the record, or it ends at the last page. -/
theorem insertLoop_wp (d : RecordBytes) {Q : Result RecordId ⊕ PageId → Store → Prop}
    (ids : List PageId) :
    ∀ (fuel : Nat) (prev : PageId), ChainTo st ids kInvalidPageId → ids.length < fuel →
    (∀ id ∈ ids, ∀ page slot page', st.get? id = some page → Layout page →
      SlottedPage.insertRecord page d = some (some slot, page') →
      Q (.inl (.ok ⟨id, slot⟩)) (st.set id page')) →
    Q (.inr (ids.getLastD prev)) st →
    (insertLoop d fuel (ids.headD kInvalidPageId) prev : Prog PageId Page C _).wp
      allow pre Q st := by
  induction ids with
  | nil =>
    intro fuel prev _ hfuel _ hfull
    obtain _ | fuel := fuel
    · cases hfuel
    exact hfull
  | cons id ids ih =>
    intro fuel prev hc hfuel htake hfull
    obtain _ | fuel := fuel
    · cases hfuel
    obtain ⟨⟨page, hget, hl, hnext⟩, hrest⟩ := hc
    rw [List.headD_cons, insertLoop, if_neg (ne_invalid_of_get hget)]
    simp only [wp_bind, wp_fetch?, fetchPage_eq, hget]
    rcases insertRecord_spec hl d with ⟨-, hins⟩ | ⟨slot, page', -, hins, -⟩
    · rw [wp_access hins]
      simp only [wp_bind, wp_unpin, unpinPage_eq, hnext]
      apply ih fuel id hrest (by simpa using hfuel)
      · intro i hi
        exact htake i (List.mem_cons_of_mem _ hi)
      · rwa [List.getLastD_cons] at hfull
    · rw [wp_access hins]
      exact htake id (List.mem_cons_self ..) page slot page' hget hl hins

/-- A new empty page at the end of the chain. -/
theorem allocateNewPage_wp (hc : ChainTo st (ids ++ [last]) kInvalidPageId)
    (hn : (ids ++ [last]).Nodup) {Q : PageId → Store → Prop}
    (hQ : ∀ id st', st.get? id = none →
      st'.get? id = some (init Page.blank id kInvalidPageId) →
      ChainTo st' (ids ++ [last] ++ [id]) kInvalidPageId →
      (∀ i, i ≠ id → i ≠ last → st'.get? i = st.get? i) →
      (∀ rid, recordAt st' rid = recordAt st rid) → Q id st') :
    (allocateNewPage last : Prog PageId Page C _).wp Store.OutOfPages pre Q st := by
  obtain ⟨hids, ⟨page, hget, hl, -⟩, -⟩ := (chainTo_append ids [last] _).mp hc
  unfold allocateNewPage
  simp only [wp_bind]
  apply wp_alloc
  intro id hid
  have hnone := Store.get?_nextId hid
  have hne : last ≠ id := by
    rintro rfl
    simp [hnone] at hget
  set new := init Page.blank id kInvalidPageId with hnew
  set st₁ := st.extend.set id new with hst₁
  have hget₁ : ∀ i, st₁.get? i = if i = id then some new else st.get? i := by
    intro i
    have hblank : st.extend.get? id = some Page.blank := by rw [get?_extend hid, if_pos rfl]
    rw [hst₁, get?_set hblank]
    split_ifs with h
    · rfl
    · rw [get?_extend hid, if_neg h]
  have hlast : st₁.get? last = some page := by rw [hget₁, if_neg hne, hget]
  obtain ⟨hl', -, hnext', hrec'⟩ := setNextPageId_spec hl id
  set st₂ := st₁.set last (setNextPageId page id) with hst₂
  have hget₂ : ∀ i, st₂.get? i = if i = last then some (setNextPageId page id)
      else if i = id then some new else st.get? i := by
    intro i
    rw [hst₂, get?_set hlast]
    split_ifs with h1 h2
    · rfl
    · rw [hget₁, if_pos h2]
    · rw [hget₁, if_neg h2]
  simp only [wp_set, wp_unpin, setPage_eq, unpinPage_eq, wp_pure]
  rw [wp_fetch hlast]
  have hnewget : st₂.get? id = some new := by rw [hget₂, if_neg hne.symm, if_pos rfl]
  refine hQ id st₂ hnone hnewget ?_ ?_ ?_
  · rw [chainTo_append, chainTo_append]
    refine ⟨⟨hids.frame ?_, ⟨_, ?_, hl', hnext'⟩, trivial⟩, ⟨new, hnewget, ?_, ?_⟩, trivial⟩
    · intro i hi
      have hil : i ≠ last := by
        rintro rfl
        exact (List.nodup_append.mp hn).2.2 i hi i (List.mem_singleton_self i) rfl
      have hii : i ≠ id := by
        rintro rfl
        obtain ⟨q, hq, -⟩ := hids.get i hi
        simp [hnone] at hq
      rw [hget₂, if_neg hil, if_neg hii]
    · rw [hget₂, if_pos rfl]
    · exact init_layout _ _ _
    · rw [hnew, nextPageId, init, readHeader_writeHeader]
      rfl
  · intro i hid hil
    rw [hget₂, if_neg hil, if_neg hid]
  · intro rid
    rw [recordAt, recordAt, hget₂]
    split_ifs with h1 h2
    · rw [h1, hget]
      exact hrec' _
    · rw [h2, hnone]
      exact record_init _ _ _ _
    · rfl

/-- A heap extended by the new page `id`, linked from its last page. -/
theorem HeapInv.extend (hi : HeapInv st h chain) (hlast : last ∈ chain) (hnone : st.get? id = none)
    (hc : ChainTo st' (chain ++ [id]) kInvalidPageId)
    (hsame : ∀ i, i ≠ id → i ≠ last → st'.get? i = st.get? i) :
    HeapStep st h chain st' h (chain ++ [id]) := by
  have hnotin : id ∉ chain := by
    intro hid
    obtain ⟨q, hq, -⟩ := hi.chainTo.get id hid
    simp [hnone] at hq
  refine ⟨⟨?_, List.mem_append_left _ hi.last_mem, ?_, hc⟩, rfl,
    List.subset_append_left _ _, ?_, ?_⟩
  · rw [List.head?_append, hi.head_eq]
    rfl
  · rw [List.nodup_append]
    refine ⟨hi.nodup, List.nodup_singleton id, ?_⟩
    rintro a ha b hb rfl
    exact hnotin (List.mem_singleton.mp hb ▸ ha)
  · intro i page hnot hget
    rw [hsame i _ (by rintro rfl; exact hnot hlast), hget]
    rintro rfl
    simp [hnone] at hget
  · intro i hmem hnot
    rcases List.mem_append.mp hmem with h | h
    · exact absurd h hnot
    · rw [List.mem_singleton.mp h]
      exact hnone

/-- The answer to a record no page can hold. -/
def recordTooLarge : Status :=
  ⟨.outOfSpace, lit "InsertRecord: record too large for an empty page"⟩

/-- What `InsertRecord` does: a record of at most `kMaxRecordSize` bytes is stored under an id that
was free, and a longer one is refused with no record changed. -/
def Inserted (st : Store) (h : HeapFile) (chain : List PageId) (d : RecordBytes)
    (r : Result RecordId × HeapFile) (st' : Store) : Prop :=
  ∃ chain', HeapStep st h chain st' r.2 chain' ∧
    ((∃ rid, r.1 = .ok rid ∧ d.bytes.length ≤ kMaxRecordSize ∧ rid.pageId ∈ chain' ∧
        recordAt st rid = none ∧
        ∀ i, recordAt st' i = if i = rid then stored d else recordAt st i) ∨
      (r.1 = .error recordTooLarge ∧ kMaxRecordSize < d.bytes.length ∧
        ∀ i, recordAt st' i = recordAt st i))

theorem insertRecord_wp (hi : HeapInv st h chain) (d : RecordBytes) (hfuel : chain.length < fuel) :
    (HeapFile.insertRecord h d fuel : Prog PageId Page C _).wp Store.OutOfPages pre
      (Inserted st h chain d) st := by
  -- the walk starts in the middle of the chain, at the page of the last insert
  obtain ⟨before, after, hsplit⟩ := List.append_of_mem hi.last_mem
  have hsuf : ChainTo st (h.lastInsertPageId :: after) kInvalidPageId :=
    ((chainTo_append before _ _).mp (hsplit ▸ hi.chainTo)).2
  have hmem : ∀ id ∈ h.lastInsertPageId :: after, id ∈ chain := by
    intro id hid
    rw [hsplit]
    exact List.mem_append_right _ hid
  unfold HeapFile.insertRecord
  rw [wp_bind]
  apply insertLoop_wp d (h.lastInsertPageId :: after) fuel kInvalidPageId hsuf
  · rw [hsplit, List.length_append] at hfuel
    omega
  · -- a page on the way takes the record
    intro id hid page slot page' hget hl hins
    rcases insertRecord_spec hl d with ⟨-, hins'⟩ | ⟨s, q, hfit, hins', hfree, hl', -, hnext, hrec⟩
    · simp [hins] at hins'
    · obtain ⟨rfl, rfl⟩ : slot = s ∧ page' = q := by simpa [hins] using hins'
      refine ⟨chain, (hi.set (hmem id hid) hget hl' hnext).setLast (hmem id hid), .inl
        ⟨⟨id, slot⟩, rfl, length_le_of_fits hl hfit, hmem id hid, ?_, recordAt_set_slot hget hrec⟩⟩
      rw [recordAt_eq hget]
      exact hfree
  · -- the chain is extended by an empty page
    obtain ⟨last, ids, hlast, hids⟩ : ∃ last ids,
        (h.lastInsertPageId :: after).getLastD kInvalidPageId = last ∧ chain = ids ++ [last] := by
      refine ⟨_, before ++ (h.lastInsertPageId :: after).dropLast, rfl, ?_⟩
      rw [List.append_assoc, List.getLastD_eq_getLast?, List.getLast?_eq_some_getLast (by simp),
        Option.getD_some, List.dropLast_append_getLast, hsplit]
    have hlastmem : last ∈ chain := by simp [hids]
    obtain ⟨lastPage, hlastget, -⟩ := hi.chainTo.get last hlastmem
    simp only [hlast, if_pos (ne_invalid_of_get hlastget), wp_bind]
    apply allocateNewPage_wp (hids ▸ hi.chainTo) (hids ▸ hi.nodup)
    intro id st₁ hnone hnew hc hsame hrecs
    rw [← hids] at hc
    have hstep₁ : HeapStep st h chain st₁ h (chain ++ [id]) :=
      hi.extend hlastmem hnone hc hsame
    have hidmem : id ∈ chain ++ [id] := List.mem_append_right _ (List.mem_singleton_self id)
    obtain ⟨new, hnew, hl, hempty⟩ : ∃ new, st₁.get? id = some new ∧ Layout new ∧
        (Fits new d ↔ d.bytes.length ≤ kMaxRecordSize) :=
      ⟨_, hnew, init_layout _ _ _, fits_init _ _ _ d⟩
    rw [wp_fetch hnew]
    rcases insertRecord_spec hl d with
      ⟨hfit, hins⟩ | ⟨s, q, hfit, hins, hfree, hl', -, hnext, hrec⟩
    · rw [wp_access hins]
      simp only [wp_set, wp_unpin, setPage_eq, unpinPage_eq, wp_pure]
      rw [hempty, not_le] at hfit
      refine ⟨chain ++ [id], hstep₁.trans
        (hstep₁.inv.set hidmem hnew hl rfl), .inr ⟨rfl, hfit, ?_⟩⟩
      intro i
      rw [recordAt_set hnew, ← hrecs i]
      split_ifs with h
      · rw [recordAt_eq (h ▸ hnew)]
      · rfl
    · rw [wp_access hins]
      simp only [wp_set, wp_unpin, setPage_eq, unpinPage_eq, wp_pure]
      refine ⟨chain ++ [id], (hstep₁.trans (hstep₁.inv.set hidmem hnew hl' hnext)).setLast hidmem,
        .inl ⟨⟨id, s⟩, rfl, hempty.mp hfit, hidmem, ?_, ?_⟩⟩
      · rw [recordAt, hnone]
        rfl
      · intro i
        rw [recordAt_set_slot hnew hrec, hrecs i]

/-! ### Deleting and updating -/

/-- The answer when there is no live record to delete. -/
def recordNotLive : Status :=
  ⟨.notFound, lit "DeleteRecord: record already deleted or invalid slot"⟩

/-- `DeleteRecord` removes a live record and changes nothing otherwise. -/
theorem deleteRecord_wp (hi : HeapInv st h chain) (hrid : rid.pageId ∈ chain)
    {Q : Result Unit → Store → Prop}
    (hlive : ∀ bs st', recordAt st rid = some bs → HeapStep st h chain st' h chain →
      (∀ i, recordAt st' i = if i = rid then none else recordAt st i) → Q (.ok ()) st')
    (hdead : recordAt st rid = none → Q (.error recordNotLive) st) :
    (HeapFile.deleteRecord rid : Prog PageId Page C _).wp allow pre Q st := by
  obtain ⟨page, hget, hl⟩ := hi.chainTo.get _ hrid
  rw [recordAt_eq hget] at hlive hdead
  unfold HeapFile.deleteRecord
  simp only [wp_bind, wp_fetch?, fetchPage_eq, hget]
  rcases deleteRecord_spec hl rid.slotId with ⟨hnone, hdel⟩ | ⟨p', hsome, hdel, hl', -, hnext, hrec⟩
  · rw [wp_access hdel]
    simp only [wp_set, wp_unpin, setPage_eq, unpinPage_eq,
      Store.set_eq_self hget]
    exact hdead hnone
  · rw [wp_access hdel]
    obtain ⟨bs, hbs⟩ := Option.ne_none_iff_exists'.mp hsome
    exact hlive bs _ hbs (hi.set hrid hget hl' hnext) (recordAt_set_slot hget hrec)

/-- A live record has at most `kMaxRecordSize` bytes: its page also holds the header and its
directory entry. -/
theorem length_le_of_recordAt (hi : HeapInv st h chain) (hrid : rid.pageId ∈ chain)
    (hbs : recordAt st rid = some bs) : bs.length ≤ kMaxRecordSize := by
  obtain ⟨page, hget, hl⟩ := hi.chainTo.get _ hrid
  rw [recordAt_eq hget] at hbs
  rw [length_le_of_record hl hbs]
  unfold record at hbs
  split_ifs at hbs with hlive
  have hmem := hl.live_mem _ hlive.1 hlive.2
  have hbase := hl.slotBase_le hlive.1
  have hmax : kMaxRecordSize = 4080 := rfl
  have hsize : kPageSize = 4096 := rfl
  rw [slotBase_eq] at hbase
  omega

/-- What `UpdateRecord` does to the records of the store.  A live record is replaced, possibly under
a new id, when the new bytes fit a page; it is lost when they do not. -/
def Updated (st : Store) (h : HeapFile) (chain : List PageId) (rid : RecordId) (d : RecordBytes)
    (r : Result RecordId × HeapFile) (st' : Store) : Prop :=
  ∃ chain', HeapStep st h chain st' r.2 chain' ∧
    ((recordAt st rid = none ∧ r.1 = .error recordNotLive ∧ st' = st) ∨
      (recordAt st rid ≠ none ∧ d.bytes.length ≤ kMaxRecordSize ∧ ∃ rid', r.1 = .ok rid' ∧
        rid'.pageId ∈ chain' ∧ (rid' = rid ∨ recordAt st rid' = none) ∧
        ∀ i, recordAt st' i
          = if i = rid' then stored d else if i = rid then none else recordAt st i) ∨
      (recordAt st rid ≠ none ∧ kMaxRecordSize < d.bytes.length ∧ r.1 = .error recordTooLarge ∧
        ∀ i, recordAt st' i = if i = rid then none else recordAt st i))

theorem updateRecord_wp (hi : HeapInv st h chain) (hrid : rid.pageId ∈ chain) (d : RecordBytes)
    (hfuel : chain.length < fuel) :
    (HeapFile.updateRecord h rid d fuel : Prog PageId Page C _).wp Store.OutOfPages pre
      (Updated st h chain rid d) st := by
  obtain ⟨page, hget, hl⟩ := hi.chainTo.get _ hrid
  unfold HeapFile.updateRecord
  simp only [wp_bind, wp_fetch?, fetchPage_eq, hget]
  rcases updateRecordInPlace_spec hl rid.slotId d with
    ⟨-, hupd⟩ | ⟨p', bs, hbs, hlen, hupd, hl', -, hnext, hrec⟩
  · -- not in place: delete, then insert
    rw [wp_access hupd]
    simp only [wp_set, wp_unpin, setPage_eq, unpinPage_eq,
      Store.set_eq_self hget]
    rw [if_neg Bool.false_ne_true, wp_bind]
    apply deleteRecord_wp hi hrid
    · intro bs st₁ hbs hstep₁ hrec₁
      apply Prog.wp_mono _ (insertRecord_wp hstep₁.inv d hfuel)
      rintro ⟨r, h'⟩ st' ⟨chain', hstep, hins⟩
      refine ⟨chain', hstep₁.trans hstep, .inr ?_⟩
      have hlive : recordAt st rid ≠ none := by simp [hbs]
      rcases hins with ⟨rid', rfl, hle, hmem, hfree, hrec⟩ | ⟨rfl, hlt, hrec⟩
      · refine .inl ⟨hlive, hle, rid', rfl, hmem, ?_, ?_⟩
        · rw [hrec₁] at hfree
          split_ifs at hfree with h
          · exact .inl h
          · exact .inr hfree
        · intro i
          rw [hrec, hrec₁]
      · exact .inr ⟨hlive, hlt, rfl, fun i => by rw [hrec, hrec₁]⟩
    · intro hdead
      exact ⟨chain, .refl hi, .inl ⟨hdead, rfl, rfl⟩⟩
  · rw [wp_access hupd]
    have hlive : recordAt st rid = some bs := by rw [recordAt_eq hget, hbs]
    refine ⟨chain, hi.set hrid hget hl' hnext, .inr (.inl ⟨by simp [hlive], ?_, rid, rfl, hrid,
      .inl rfl, ?_⟩)⟩
    · exact hlen.trans (length_le_of_recordAt hi hrid hlive)
    · intro i
      rw [unpinPage_eq, setPage_eq, recordAt_set_slot hget hrec]
      split_ifs <;> rfl

/-- Bytes that are not longer than the record are written in its place. -/
theorem updateRecord_inPlace_wp (hi : HeapInv st h chain) (hrid : rid.pageId ∈ chain)
    (hbs : recordAt st rid = some bs) (hlen : d.bytes.length ≤ bs.length)
    {Q : Result RecordId × HeapFile → Store → Prop} (hQ : ∀ st', HeapStep st h chain st' h chain →
      (∀ i, recordAt st' i = if i = rid then stored d else recordAt st i) → Q (.ok rid, h) st') :
    (HeapFile.updateRecord h rid d fuel : Prog PageId Page C _).wp allow pre Q st := by
  obtain ⟨page, hget, hl⟩ := hi.chainTo.get _ hrid
  rw [recordAt_eq hget] at hbs
  unfold HeapFile.updateRecord
  simp only [wp_bind, wp_fetch?, fetchPage_eq, hget]
  rcases updateRecordInPlace_spec hl rid.slotId d with
    ⟨hlonger, -⟩ | ⟨p', -, -, -, hupd, hl', -, hnext, hrec⟩
  · have := hlonger bs hbs
    omega
  · rw [wp_access hupd]
    exact hQ _ (hi.set hrid hget hl' hnext) (recordAt_set_slot hget hrec)

/-! ### Scanning -/

/-- The live records of a page in slot order, from slot `s` on. -/
def slotRecords (page : Page) (id : PageId) (s n : Nat) : List (RecordId × List UInt8) :=
  (List.range' s n).filterMap fun j => (record page j).map fun bs => (⟨id, UInt16.ofNat j⟩, bs)

/-- The live records of the pages of a heap. -/
def heapRecords (st : Store) (chain : List PageId) : List (RecordId × List UInt8) :=
  chain.flatMap fun id =>
    ((st.get? id).map fun page => slotRecords page id 0 (slotCount page).toNat).getD []

theorem scanSlots_eq (hl : Layout page) (id : PageId) :
    ∀ (n : Nat) (s : SlotId), s.toNat + n = (slotCount page).toNat →
      scanSlots page id n s = some (slotRecords page id s.toNat n) := by
  intro n
  induction n with
  | zero => intro s _; rfl
  | succ n ih =>
    intro s hs
    have hmax := (slotCount page).toNat_lt
    have hsucc : n ≠ 0 → (s + 1).toNat = s.toNat + 1 := by
      intro hn
      rw [UInt16.toNat_add, UInt16.toNat_one, Nat.mod_eq_of_lt]
      omega
    have hrest : scanSlots page id n (s + 1) = some (slotRecords page id (s.toNat + 1) n) := by
      by_cases hn : n = 0
      · subst hn
        rfl
      · rw [ih (s + 1) (by rw [hsucc hn]; omega), hsucc hn]
    have hself : UInt16.ofNat s.toNat = s := UInt16.ofNat_toNat
    rw [scanSlots, getRecord_eq hl, hrest]
    simp only [slotRecords, List.range'_succ, List.filterMap_cons, hself]
    cases record page s.toNat <;> rfl

theorem scanLoop_wp (ids : List PageId) :
    ∀ (fuel : Nat), ChainTo st ids kInvalidPageId → ids.length < fuel →
      Q (heapRecords st ids) st →
      (scanLoop fuel (ids.headD kInvalidPageId) : Prog PageId Page C _).wp allow pre
        Q st := by
  induction ids generalizing Q with
  | nil =>
    intro fuel _ hfuel hQ
    obtain _ | fuel := fuel
    · cases hfuel
    exact hQ
  | cons id ids ih =>
    intro fuel hc hfuel hQ
    obtain _ | fuel := fuel
    · cases hfuel
    obtain ⟨⟨page, hget, hl, hnext⟩, hrest⟩ := hc
    rw [List.headD_cons, scanLoop, if_neg (ne_invalid_of_get hget)]
    simp only [wp_bind, wp_fetch?, fetchPage_eq, hget]
    have hslots := scanSlots_eq hl id (slotCount page).toNat 0 (by simp)
    rw [wp_access hslots]
    simp only [wp_unpin, unpinPage_eq, hnext, wp_pure]
    apply ih fuel hrest (by simpa using hfuel)
    rw [heapRecords, List.flatMap_cons, hget] at hQ
    exact hQ

/-- `Scan` reads the live records of the heap and changes nothing. -/
theorem scan_wp (hi : HeapInv st h chain) (hfuel : chain.length < fuel)
    (hQ : Q (heapRecords st chain) st) : (scan h fuel : Prog PageId Page C _).wp allow pre Q st := by
  have hfirst : h.firstPageId = chain.headD kInvalidPageId := by
    rw [List.headD_eq_head?_getD, hi.head_eq]
    rfl
  rw [scan, hfirst]
  exact scanLoop_wp chain fuel hi.chainTo hfuel hQ

theorem mem_slotRecords :
    (rid, bs) ∈ slotRecords page id 0 (slotCount page).toNat ↔
      rid.pageId = id ∧ record page rid.slotId.toNat = some bs := by
  have hmax := (slotCount page).toNat_lt
  simp only [slotRecords, List.mem_filterMap, List.mem_range'_1, Option.map_eq_some_iff,
    Prod.mk.injEq]
  constructor
  · rintro ⟨j, ⟨-, hj⟩, bs', hrec, rfl, rfl⟩
    have hnat : (UInt16.ofNat j).toNat = j := by
      rw [UInt16.toNat_ofNat', Nat.mod_eq_of_lt]
      omega
    exact ⟨rfl, by rw [hnat, hrec]⟩
  · rintro ⟨rfl, hrec⟩
    have hlt : rid.slotId.toNat < (slotCount page).toNat := by
      by_contra hge
      rw [record_of_le (not_lt.mp hge)] at hrec
      cases hrec
    exact ⟨rid.slotId.toNat, ⟨Nat.zero_le _, by omega⟩, bs, hrec, by rw [UInt16.ofNat_toNat], rfl⟩

theorem mem_heapRecords :
    (rid, bs) ∈ heapRecords st chain ↔ rid.pageId ∈ chain ∧ recordAt st rid = some bs := by
  simp only [heapRecords, List.mem_flatMap]
  constructor
  · rintro ⟨id, hid, hmem⟩
    cases hget : st.get? id with
    | none => simp [hget] at hmem
    | some page =>
      rw [hget] at hmem
      obtain ⟨rfl, hrec⟩ := mem_slotRecords.mp hmem
      exact ⟨hid, by rw [recordAt_eq hget, hrec]⟩
  · rintro ⟨hid, hrec⟩
    refine ⟨rid.pageId, hid, ?_⟩
    cases hget : st.get? rid.pageId with
    | none => simp [recordAt, hget] at hrec
    | some page =>
      rw [recordAt_eq hget] at hrec
      exact mem_slotRecords.mpr ⟨rfl, hrec⟩

theorem nodup_slotRecords (page : Page) (id : PageId) :
    ((slotRecords page id 0 (slotCount page).toNat).map Prod.fst).Nodup := by
  have hmax := (slotCount page).toNat_lt
  rw [slotRecords, List.map_filterMap, List.Nodup, List.pairwise_filterMap]
  have hrange : (List.range' 0 (slotCount page).toNat).Nodup := List.nodup_range'
  refine List.Pairwise.imp_of_mem ?_ hrange
  intro i j hi hj hne a ha b hb hab
  rw [List.mem_range'_1] at hi hj
  obtain ⟨_, hx, rfl⟩ := Option.map_eq_some_iff.mp ha
  obtain ⟨_, hy, rfl⟩ := Option.map_eq_some_iff.mp hb
  obtain ⟨_, _, rfl⟩ := Option.map_eq_some_iff.mp hx
  obtain ⟨_, _, rfl⟩ := Option.map_eq_some_iff.mp hy
  have hslot : UInt16.ofNat i = UInt16.ofNat j := congrArg RecordId.slotId hab
  have hnat := congrArg UInt16.toNat hslot
  rw [UInt16.toNat_ofNat', UInt16.toNat_ofNat', Nat.mod_eq_of_lt (by omega),
    Nat.mod_eq_of_lt (by omega)] at hnat
  exact hne hnat

/-- `Scan` visits no record twice. -/
theorem nodup_heapRecords (hn : chain.Nodup) :
    ((heapRecords st chain).map Prod.fst).Nodup := by
  rw [heapRecords, List.map_flatMap, List.nodup_flatMap]
  refine ⟨?_, hn.imp ?_⟩
  · intro id _
    cases st.get? id with
    | none => exact List.nodup_nil
    | some page => exact nodup_slotRecords page id
  · have hpage : ∀ (id : PageId) (rid : RecordId),
        rid ∈ (((st.get? id).map fun page =>
          slotRecords page id 0 (slotCount page).toNat).getD []).map Prod.fst → rid.pageId = id := by
      intro id rid hmem
      obtain ⟨⟨r, bs⟩, hin, rfl⟩ := List.mem_map.mp hmem
      cases hget : st.get? id with
      | none => simp [hget] at hin
      | some page =>
        rw [hget] at hin
        exact (mem_slotRecords.mp hin).1
    intro a b hab x hx hy
    exact hab ((hpage a x hx).symm.trans (hpage b x hy))

/-! ### Opening -/

/-- A new heap: one empty page that was not in the store. -/
theorem openHeap_new_wp {Q : HeapFile → Store → Prop}
    (hQ : ∀ id st', st.get? id = none → HeapInv st' ⟨id, id⟩ [id] →
      (∀ i, i ≠ id → st'.get? i = st.get? i) → (∀ rid, recordAt st' rid = recordAt st rid) →
      Q ⟨id, id⟩ st') :
    (openHeap kInvalidPageId : Prog PageId Page C _).wp Store.OutOfPages pre Q st := by
  unfold openHeap
  simp only [if_pos, wp_bind]
  apply wp_alloc
  intro id hid
  simp only [wp_set, wp_unpin, setPage_eq, unpinPage_eq, wp_pure]
  have hblank : st.extend.get? id = some Page.blank := by rw [get?_extend hid, if_pos rfl]
  refine hQ id _ (Store.get?_nextId hid) ⟨rfl, List.mem_singleton_self id,
    List.nodup_singleton id, ⟨_, Store.get?_set_self hblank _, init_layout _ _ _, ?_⟩, trivial⟩ ?_ ?_
  · rw [nextPageId, init, readHeader_writeHeader]
    rfl
  · intro i hi
    rw [Store.get?_set_of_ne _ hi, get?_extend hid, if_neg hi]
  · intro rid
    rw [recordAt_set hblank]
    split_ifs with h
    · rw [record_init, recordAt, h, Store.get?_nextId hid]
      rfl
    · rw [recordAt, get?_extend hid, if_neg h, recordAt]

/-- Opening an existing heap: the inserts start at its first page again. -/
theorem openHeap_existing_wp (hi : HeapInv st h chain) {Q : HeapFile → Store → Prop}
    (hQ : HeapStep st h chain st ⟨h.firstPageId, h.firstPageId⟩ chain →
      Q ⟨h.firstPageId, h.firstPageId⟩ st) :
    (openHeap h.firstPageId : Prog PageId Page C _).wp allow pre Q st := by
  have hmem : h.firstPageId ∈ chain := List.mem_of_head? hi.head_eq
  obtain ⟨page, hget, -⟩ := hi.chainTo.get _ hmem
  unfold openHeap
  rw [if_neg (ne_invalid_of_get hget)]
  exact hQ ((HeapStep.refl hi).setLast hmem)

end MiniDB.HeapFile
