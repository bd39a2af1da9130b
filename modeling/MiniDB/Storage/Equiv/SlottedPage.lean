import MiniDB.Storage.SlottedPage
import Mathlib.Logic.Function.Basic

/-!
# Correctness of `SlottedPage`

A slotted page is a partial map from slots to byte strings (`record`).  `Layout` is the invariant
that keeps the three regions of the page apart: the directory ends at or below the free-space
offset, every live record lies between that offset and the end of the page, and live records are
pairwise disjoint.  Deleted slots keep a stale offset and are left unconstrained.

The operations are specified once each (`insertRecord_spec`, `getRecord_eq`, `deleteRecord_spec`,
`updateRecordInPlace_spec`, `setNextPageId_spec`); `slottedPage_refines_map` assembles them into the
statement about whole runs.
-/

namespace MiniDB.SlottedPage

open Bytes
open Page (bytes_put_of_disjoint get_put_of_disjoint get_put_self)

/-! ### Header, directory and record bytes are disjoint regions -/

/-- Slot `i` of the directory. -/
def slotAt (p : Page) (i : Nat) : Slot where
  offset := p.get UInt16 (slotBase i)
  length := p.get UInt16 (slotBase i + 2)

/-- `writeSlot` at a position inside the page. -/
def putSlot (p : Page) (i : Nat) (s : Slot) : Page :=
  (p.put (slotBase i) s.offset).put (slotBase i + 2) s.length

@[simp] theorem size_pageId : FixedSize.size PageId = 4 := rfl

@[simp] theorem size_uint16 : FixedSize.size UInt16 = 2 := rfl

theorem slotBase_eq (i : Nat) : slotBase i = 12 + i * 4 := rfl

theorem readHeader_writeHeader (p : Page) (h : PageHeader) : readHeader (writeHeader p h) = h := by
  have h0 : (writeHeader p h).get PageId 0 = h.pageId := by
    unfold writeHeader
    rw [get_put_of_disjoint _ _ (by simp), get_put_of_disjoint _ _ (by simp),
      get_put_of_disjoint _ _ (by simp), get_put_self _ _ (by simp [kPageSize])]
  have h4 : (writeHeader p h).get PageId 4 = h.nextPageId := by
    unfold writeHeader
    rw [get_put_of_disjoint _ _ (by simp), get_put_of_disjoint _ _ (by simp),
      get_put_self _ _ (by simp [kPageSize])]
  have h8 : (writeHeader p h).get UInt16 8 = h.slotCount := by
    unfold writeHeader
    rw [get_put_of_disjoint _ _ (by simp), get_put_self _ _ (by simp [kPageSize])]
  have h10 : (writeHeader p h).get UInt16 10 = h.freeSpaceOffset := by
    unfold writeHeader
    rw [get_put_self _ _ (by simp [kPageSize])]
  unfold readHeader
  rw [h0, h4, h8, h10]

variable {off n i j count fso : Nat} {p p' : Page} {s : Slot}

theorem readHeader_congr (h : ∀ off n, off + n ≤ 12 → p'.bytes off n = p.bytes off n) :
    readHeader p' = readHeader p := by
  unfold readHeader Page.get
  rw [h 0 _ (by decide), h 4 _ (by decide), h 8 _ (by decide), h 10 _ (by decide)]

theorem slotAt_congr (h : ∀ off n, slotBase i ≤ off → off + n ≤ slotBase i + 4 →
    p'.bytes off n = p.bytes off n) : slotAt p' i = slotAt p i := by
  unfold slotAt Page.get
  rw [h (slotBase i) _ le_rfl (by simp), h (slotBase i + 2) _ (by simp) (by simp)]

theorem bytes_writeHeader (p : Page) (h : PageHeader) (ho : 12 ≤ off) :
    (writeHeader p h).bytes off n = p.bytes off n := by
  unfold writeHeader
  rw [bytes_put_of_disjoint _ _ (by simp; omega), bytes_put_of_disjoint _ _ (by simp; omega),
    bytes_put_of_disjoint _ _ (by simp; omega), bytes_put_of_disjoint _ _ (by simp; omega)]

theorem slotAt_writeHeader (p : Page) (h : PageHeader) (i : Nat) :
    slotAt (writeHeader p h) i = slotAt p i :=
  slotAt_congr fun _ _ ho _ => bytes_writeHeader p h (by rw [slotBase_eq] at ho; omega)

theorem bytes_putSlot (p : Page) (i : Nat) (s : Slot)
    (hd : off + n ≤ slotBase i ∨ slotBase i + 4 ≤ off) :
    (putSlot p i s).bytes off n = p.bytes off n := by
  unfold putSlot
  rw [bytes_put_of_disjoint _ _ (by simp; omega), bytes_put_of_disjoint _ _ (by simp; omega)]

theorem readHeader_putSlot (p : Page) (i : Nat) (s : Slot) :
    readHeader (putSlot p i s) = readHeader p :=
  readHeader_congr fun _ _ ho => bytes_putSlot p i s (.inl (by rw [slotBase_eq]; omega))

theorem slotAt_putSlot_self (p : Page) (s : Slot) (hi : slotBase i + 4 ≤ kPageSize) :
    slotAt (putSlot p i s) i = s := by
  unfold slotAt putSlot
  rw [get_put_of_disjoint _ _ (by simp), get_put_self _ _ (by simp; omega),
    get_put_self _ _ (by simp; omega)]

theorem slotAt_putSlot_of_ne (p : Page) (s : Slot) (hij : j ≠ i) :
    slotAt (putSlot p i s) j = slotAt p j :=
  slotAt_congr fun _ _ ho hn => bytes_putSlot p i s (by rw [slotBase_eq] at *; omega)

theorem readHeader_putBytes (p : Page) (bs : List UInt8) (ho : 12 ≤ off) :
    readHeader (p.putBytes off bs) = readHeader p :=
  readHeader_congr fun _ _ hn => Page.bytes_putBytes_of_disjoint p (.inl (hn.trans ho))

theorem slotAt_putBytes (p : Page) (bs : List UInt8) (ho : slotBase i + 4 ≤ off) :
    slotAt (p.putBytes off bs) i = slotAt p i :=
  slotAt_congr fun _ _ _ hn => Page.bytes_putBytes_of_disjoint p (.inl (hn.trans ho))

theorem readSlot_eq (p : Page) (i : SlotId) (hi : slotBase i.toNat + 4 ≤ kPageSize) :
    readSlot p i = some (slotAt p i.toNat) := by
  unfold readSlot
  rw [Page.get?_eq_some (by simp; omega), Page.get?_eq_some (by simp; omega)]
  rfl

theorem writeSlot_eq (p : Page) (i : SlotId) (s : Slot) (hi : slotBase i.toNat + 4 ≤ kPageSize) :
    writeSlot p i s = some (putSlot p i.toNat s) := by
  unfold writeSlot
  rw [Page.put?_eq_some (by simp; omega)]
  simp only [Option.bind_eq_bind, Option.bind_some]
  rw [Page.put?_eq_some (by simp; omega)]
  rfl

/-! ### The invariant -/

/-- The bytes of the live record in slot `i`. -/
def record (p : Page) (i : Nat) : Option (List UInt8) :=
  if i < (slotCount p).toNat ∧ (slotAt p i).length ≠ 0 then
    some (p.bytes (slotAt p i).offset.toNat (slotAt p i).length.toNat)
  else none

/-- Directory, free space and records do not overlap. -/
structure Layout (p : Page) : Prop where
  /-- the directory ends at or below the free-space offset -/
  directory_le : slotBase (slotCount p).toNat ≤ (readHeader p).freeSpaceOffset.toNat
  /-- the record area is inside the page -/
  offset_le : (readHeader p).freeSpaceOffset.toNat ≤ kPageSize
  /-- live records lie in the record area -/
  live_mem : ∀ i, i < (slotCount p).toNat → (slotAt p i).length ≠ 0 →
    (readHeader p).freeSpaceOffset.toNat ≤ (slotAt p i).offset.toNat ∧
      (slotAt p i).offset.toNat + (slotAt p i).length.toNat ≤ kPageSize
  /-- live records are pairwise disjoint -/
  live_disjoint : ∀ i j, i < (slotCount p).toNat → j < (slotCount p).toNat → i ≠ j →
    (slotAt p i).length ≠ 0 → (slotAt p j).length ≠ 0 →
    (slotAt p i).offset.toNat + (slotAt p i).length.toNat ≤ (slotAt p j).offset.toNat ∨
      (slotAt p j).offset.toNat + (slotAt p j).length.toNat ≤ (slotAt p i).offset.toNat

/-- Directory entries of a page with a sound layout lie inside the page. -/
theorem Layout.slotBase_le (hp : Layout p) (hi : i < (slotCount p).toNat) :
    slotBase i + 4 ≤ (readHeader p).freeSpaceOffset.toNat := by
  have h := hp.directory_le
  rw [slotBase_eq] at h ⊢
  omega

theorem Layout.slotBase_le_pageSize (hp : Layout p) (hi : i < (slotCount p).toNat) :
    slotBase i + 4 ≤ kPageSize :=
  (hp.slotBase_le hi).trans hp.offset_le

theorem record_of_le (h : (slotCount p).toNat ≤ i) : record p i = none := by
  rw [record, if_neg (by omega)]

theorem length_le_of_record {bs : List UInt8} (hp : Layout p) (h : record p i = some bs) :
    bs.length = (slotAt p i).length.toNat := by
  unfold record at h
  split_ifs at h with hlive
  obtain rfl := Option.some.inj h
  exact Page.length_bytes (hp.live_mem i hlive.1 hlive.2).2

/-- A freshly initialised page is empty and sound. -/
theorem init_layout (p : Page) (pid next : PageId) : Layout (init p pid next) := by
  have hh : readHeader (init p pid next)
      = ⟨pid, next, 0, UInt16.ofNat kPageSize⟩ := readHeader_writeHeader p _
  have hc : (slotCount (init p pid next)).toNat = 0 := by rw [slotCount, hh]; rfl
  have hf : (readHeader (init p pid next)).freeSpaceOffset.toNat = 4096 := by rw [hh]; rfl
  refine ⟨?_, ?_, ?_, ?_⟩
  · rw [hc, hf, slotBase_eq]; omega
  · rw [hf]; rfl
  · intro i hi; omega
  · intro i j hi; omega

theorem record_init (p : Page) (pid next : PageId) (i : Nat) :
    record (init p pid next) i = none := by
  apply record_of_le
  rw [slotCount, init, readHeader_writeHeader]
  exact Nat.zero_le i

/-! ### Reading a record -/

/-- What a call finds about a slot: there is no live record in it, or its directory entry. -/
theorem Layout.slot_cases (hp : Layout p) (s : SlotId) :
    (record p s.toNat = none ∧ (s ≥ slotCount p ∨ ¬ s ≥ slotCount p ∧
      readSlot p s = some (slotAt p s.toNat) ∧ (slotAt p s.toNat).length = 0)) ∨
    ¬ s ≥ slotCount p ∧ readSlot p s = some (slotAt p s.toNat) ∧ s.toNat < (slotCount p).toNat ∧
      (slotAt p s.toNat).length ≠ 0 ∧ record p s.toNat
        = some (p.bytes (slotAt p s.toNat).offset.toNat (slotAt p s.toNat).length.toNat) := by
  by_cases hge : s ≥ slotCount p
  · exact .inl ⟨record_of_le (UInt16.le_iff_toNat_le.mp hge), .inl hge⟩
  · have hs : s.toNat < (slotCount p).toNat := UInt16.lt_iff_toNat_lt.mp (UInt16.not_le.mp hge)
    have hread := readSlot_eq p s (hp.slotBase_le_pageSize hs)
    by_cases hl : (slotAt p s.toNat).length = 0
    · exact .inl ⟨if_neg fun h => h.2 hl, .inr ⟨hge, hread, hl⟩⟩
    · exact .inr ⟨hge, hread, hs, hl, if_pos ⟨hs, hl⟩⟩

theorem getRecord_eq (hp : Layout p) (s : SlotId) :
    getRecord p s = some (record p s.toNat) := by
  unfold getRecord
  rcases hp.slot_cases s with ⟨hrec, hge | ⟨hge, hread, hl⟩⟩ | ⟨hge, hread, hs, hl, hrec⟩
  · simp [hge, hrec]
  · simp [hge, hread, hl, hrec]
  · simp [hge, hread, hl, hrec, Page.bytes?_eq_some (hp.live_mem _ hs hl).2]

/-! ### Writing one slot

All three record operations end in the same way: bytes are copied to a range of the record area that
no other live record uses, and one directory entry is set.  `SlotWrite` says what such a page looks
like, and `SlotWrite.layout`/`SlotWrite.record_eq` draw the conclusions once. -/

/-- `p'` is `p` with slot `i` set to `s`, the directory grown to `count` slots, the record area
starting at `fso`, and no byte of another live record changed. -/
structure SlotWrite (p p' : Page) (i : Nat) (s : Slot) (count fso : Nat) : Prop where
  pageId_eq : pageId p' = pageId p
  nextPageId_eq : nextPageId p' = nextPageId p
  count_eq : (slotCount p').toNat = count
  offset_eq : (readHeader p').freeSpaceOffset.toNat = fso
  lt_count : i < count
  count_cases : count = (slotCount p).toNat ∨ (i = (slotCount p).toNat ∧ count = i + 1)
  slotAt_self : slotAt p' i = s
  slotAt_ne : ∀ j, j < (slotCount p).toNat → j ≠ i → slotAt p' j = slotAt p j
  bytes_ne : ∀ j, j < (slotCount p).toNat → j ≠ i → (slotAt p j).length ≠ 0 →
    p'.bytes (slotAt p j).offset.toNat (slotAt p j).length.toNat
      = p.bytes (slotAt p j).offset.toNat (slotAt p j).length.toNat
  directory_le : slotBase count ≤ fso
  offset_le : fso ≤ (readHeader p).freeSpaceOffset.toNat
  self_mem : s.length ≠ 0 → fso ≤ s.offset.toNat ∧ s.offset.toNat + s.length.toNat ≤ kPageSize
  self_disjoint : ∀ j, j < (slotCount p).toNat → j ≠ i → (slotAt p j).length ≠ 0 →
    s.length ≠ 0 →
    s.offset.toNat + s.length.toNat ≤ (slotAt p j).offset.toNat ∨
      (slotAt p j).offset.toNat + (slotAt p j).length.toNat ≤ s.offset.toNat

theorem SlotWrite.lt_of_ne (w : SlotWrite p p' i s count fso) (hj : j < count) (hji : j ≠ i) :
    j < (slotCount p).toNat := by
  rcases w.count_cases with h | ⟨h1, h2⟩ <;> omega

theorem SlotWrite.layout (w : SlotWrite p p' i s count fso) (hp : Layout p) : Layout p' := by
  have hoff := hp.offset_le
  refine ⟨?_, ?_, ?_, ?_⟩
  · rw [w.count_eq, w.offset_eq]; exact w.directory_le
  · rw [w.offset_eq]; exact w.offset_le.trans hoff
  · intro j hj hl
    rw [w.count_eq] at hj
    rw [w.offset_eq]
    by_cases hji : j = i
    · subst hji
      rw [w.slotAt_self] at hl ⊢
      exact w.self_mem hl
    · have hj' := w.lt_of_ne hj hji
      rw [w.slotAt_ne j hj' hji] at hl ⊢
      have := hp.live_mem j hj' hl
      exact ⟨w.offset_le.trans this.1, this.2⟩
  · intro j k hj hk hjk hlj hlk
    rw [w.count_eq] at hj hk
    by_cases hji : j = i
    · subst hji
      have hk' := w.lt_of_ne hk (Ne.symm hjk)
      rw [w.slotAt_ne k hk' (Ne.symm hjk)] at hlk ⊢
      rw [w.slotAt_self] at hlj ⊢
      exact w.self_disjoint k hk' (Ne.symm hjk) hlk hlj
    · have hj' := w.lt_of_ne hj hji
      rw [w.slotAt_ne j hj' hji] at hlj ⊢
      by_cases hki : k = i
      · subst hki
        rw [w.slotAt_self] at hlk ⊢
        exact (w.self_disjoint j hj' hji hlj hlk).symm
      · have hk' := w.lt_of_ne hk hki
        rw [w.slotAt_ne k hk' hki] at hlk ⊢
        exact hp.live_disjoint j k hj' hk' hjk hlj hlk

/-- The write changes what slot `i` holds and nothing else. -/
theorem SlotWrite.record_eq (w : SlotWrite p p' i s count fso) (j : Nat) :
    record p' j
      = if j = i then
          (if s.length ≠ 0 then some (p'.bytes s.offset.toNat s.length.toNat) else none)
        else record p j := by
  by_cases hji : j = i
  · subst hji
    have hlt : j < (slotCount p').toNat := by rw [w.count_eq]; exact w.lt_count
    rw [if_pos rfl, record, w.slotAt_self]
    simp only [hlt, true_and]
  · rw [if_neg hji]
    by_cases hj : j < (slotCount p).toNat
    · have hlt : j < (slotCount p').toNat := by
        rw [w.count_eq]
        rcases w.count_cases with h | ⟨h1, h2⟩ <;> omega
      unfold record
      rw [w.slotAt_ne j hj hji]
      by_cases hl : (slotAt p j).length = 0
      · rw [if_neg (by simp [hl]), if_neg (by simp [hl])]
      · rw [if_pos ⟨hlt, hl⟩, if_pos ⟨hj, hl⟩, w.bytes_ne j hj hji hl]
    · have hle : (slotCount p').toNat ≤ j := by
        rw [w.count_eq]
        rcases w.count_cases with h | ⟨h1, h2⟩ <;> omega
      rw [record_of_le hle, record_of_le (by omega)]

/-! ### Deleting and updating -/

theorem toNat_ofNat_length (d : RecordBytes) :
    (UInt16.ofNat d.bytes.length).toNat = d.bytes.length := by
  rw [UInt16.toNat_ofNat', Nat.mod_eq_of_lt d.length_lt]

/-- A record of no bytes reads back as a deleted slot. -/
def stored (d : RecordBytes) : Option (List UInt8) := if d.bytes = [] then none else some d.bytes

theorem ofNat_length_eq_zero (d : RecordBytes) :
    UInt16.ofNat d.bytes.length = 0 ↔ d.bytes = [] := by
  rw [← UInt16.toNat_inj, toNat_ofNat_length, ← List.length_eq_zero_iff]
  rfl

/-- A write of a record and its length stores the record. -/
theorem SlotWrite.stores {off : UInt16} {d : RecordBytes} (hp : Layout p)
    (w : SlotWrite p p' i ⟨off, UInt16.ofNat d.bytes.length⟩ count fso)
    (hb : p'.bytes off.toNat d.bytes.length = d.bytes) :
    Layout p' ∧ pageId p' = pageId p ∧ nextPageId p' = nextPageId p ∧
      ∀ j, record p' j = if j = i then stored d else record p j := by
  refine ⟨w.layout hp, w.pageId_eq, w.nextPageId_eq, fun j => ?_⟩
  rw [w.record_eq]
  congr 1
  simp only [stored, ne_eq, ofNat_length_eq_zero, toNat_ofNat_length, hb, ite_not]

/-- A record that is not longer takes the place of the one in a slot. -/
theorem inPlace_stores (hp : Layout p) (hi : i < (slotCount p).toNat) (hl : (slotAt p i).length ≠ 0)
    (d : RecordBytes) (hle : d.bytes.length ≤ (slotAt p i).length.toNat) :
    let p' := putSlot (p.putBytes (slotAt p i).offset.toNat d.bytes) i
      { slotAt p i with length := UInt16.ofNat d.bytes.length }
    Layout p' ∧ pageId p' = pageId p ∧ nextPageId p' = nextPageId p ∧
      ∀ j, record p' j = if j = i then stored d else record p j := by
  intro p'
  have hmem := hp.live_mem i hi hl
  have hslot := hp.slotBase_le hi
  have hbase := slotBase_eq i
  have hlen := toNat_ofNat_length d
  have hhead : readHeader p' = readHeader p := by
    rw [readHeader_putSlot, readHeader_putBytes _ _ (by omega)]
  -- the overwritten range is part of the old record, so it meets no other record
  have hw : SlotWrite p p' i ⟨(slotAt p i).offset, UInt16.ofNat d.bytes.length⟩ (slotCount p).toNat
      (readHeader p).freeSpaceOffset.toNat := by
    refine ⟨by rw [pageId, hhead, pageId], by rw [nextPageId, hhead, nextPageId],
      by rw [slotCount, hhead, slotCount], by rw [hhead], hi, .inl rfl,
      slotAt_putSlot_self _ _ (hp.slotBase_le_pageSize hi), ?_, ?_, hp.directory_le, le_rfl, ?_, ?_⟩
    · intro j hj hji
      rw [slotAt_putSlot_of_ne _ _ hji]
      exact slotAt_putBytes _ _ (by have := hp.slotBase_le hj; omega)
    · intro j hj hji hlj
      have hmj := hp.live_mem j hj hlj
      have hdj := hp.live_disjoint j i hj hi hji hlj hl
      rw [bytes_putSlot _ _ _ (by omega), Page.bytes_putBytes_of_disjoint _ (by omega)]
    · intro _
      dsimp only
      omega
    · intro j hj hji hlj _
      have hdj := hp.live_disjoint j i hj hi hji hlj hl
      dsimp only
      omega
  refine hw.stores hp ?_
  rw [bytes_putSlot _ _ _ (by omega), Page.bytes_putBytes_self (by omega)]

/-- `DeleteRecord` succeeds exactly on live slots; it then empties the slot and keeps everything
else, and otherwise changes no byte. -/
theorem deleteRecord_spec (hp : Layout p) (s : SlotId) :
    (record p s.toNat = none ∧ deleteRecord p s = some (false, p)) ∨
    ∃ p', record p s.toNat ≠ none ∧ deleteRecord p s = some (true, p') ∧ Layout p' ∧
      pageId p' = pageId p ∧ nextPageId p' = nextPageId p ∧
      ∀ j, record p' j = if j = s.toNat then none else record p j := by
  unfold deleteRecord
  rcases hp.slot_cases s with ⟨hrec, hge | ⟨hge, hread, hl⟩⟩ | ⟨hge, hread, hs, hl, hrec⟩
  · exact .inl ⟨hrec, by simp [hge]⟩
  · exact .inl ⟨hrec, by simp [hge, hread, hl]⟩
  · have hb := hp.slotBase_le_pageSize hs
    have hstores := inPlace_stores hp hs hl ⟨[], by decide⟩ (Nat.zero_le _)
    rw [Page.putBytes_nil] at hstores
    exact .inr ⟨_, by simp [hrec], by simp [hge, hread, hl, writeSlot_eq _ _ _ hb], hstores⟩

/-- `UpdateRecordInPlace` succeeds exactly on live slots whose record is at least as long as the new
one; it then replaces the record and keeps everything else, and otherwise changes no byte. -/
theorem updateRecordInPlace_spec (hp : Layout p) (s : SlotId) (d : RecordBytes) :
    ((∀ bs, record p s.toNat = some bs → bs.length < d.bytes.length) ∧
      updateRecordInPlace p s d = some (false, p)) ∨
    ∃ p' bs, record p s.toNat = some bs ∧ d.bytes.length ≤ bs.length ∧
      updateRecordInPlace p s d = some (true, p') ∧ Layout p' ∧
      pageId p' = pageId p ∧ nextPageId p' = nextPageId p ∧
      ∀ j, record p' j = if j = s.toNat then stored d else record p j := by
  unfold updateRecordInPlace
  rcases hp.slot_cases s with ⟨hrec, hge | ⟨hge, hread, hl⟩⟩ | ⟨hge, hread, hs, hl, hrec⟩
  · exact .inl ⟨by simp [hrec], by simp [hge]⟩
  · exact .inl ⟨by simp [hrec], by simp [hge, hread, hl]⟩
  · have hb := hp.slotBase_le_pageSize hs
    have hmem := hp.live_mem s.toNat hs hl
    have hlen := length_le_of_record hp hrec
    have hiff : UInt16.ofNat d.bytes.length > (slotAt p s.toNat).length ↔
        (slotAt p s.toNat).length.toNat < d.bytes.length := by
      rw [gt_iff_lt, UInt16.lt_iff_toNat_lt, toNat_ofNat_length]
    by_cases hgt : UInt16.ofNat d.bytes.length > (slotAt p s.toNat).length
    · refine .inl ⟨fun bs hbs => ?_, by simp [hge, hread, hl, hgt]⟩
      rw [length_le_of_record hp hbs]
      exact hiff.mp hgt
    · have hle := Nat.not_lt.mp fun h => hgt (hiff.mpr h)
      refine .inr ⟨_, _, hrec, hle.trans_eq hlen.symm, ?_, inPlace_stores hp hs hl d hle⟩
      simp [hge, hread, hl, hgt, Page.putBytes?_eq_some (hmem.2.trans' (Nat.add_le_add_left hle _)),
        writeSlot_eq _ _ _ hb]

/-- `SetNextPageId` touches the link and nothing else. -/
theorem setNextPageId_spec (hp : Layout p) (next : PageId) :
    Layout (setNextPageId p next) ∧ pageId (setNextPageId p next) = pageId p ∧
      nextPageId (setNextPageId p next) = next ∧
      ∀ j, record (setNextPageId p next) j = record p j := by
  have hh : readHeader (setNextPageId p next) = { readHeader p with nextPageId := next } :=
    readHeader_writeHeader p _
  have hc : slotCount (setNextPageId p next) = slotCount p := by rw [slotCount, hh]; rfl
  have hs : ∀ i, slotAt (setNextPageId p next) i = slotAt p i := slotAt_writeHeader p _
  refine ⟨⟨?_, ?_, ?_, ?_⟩, by rw [pageId, hh, pageId], by rw [nextPageId, hh], ?_⟩
  · rw [hc, hh]; exact hp.directory_le
  · rw [hh]; exact hp.offset_le
  · simpa only [hc, hs, hh] using hp.live_mem
  · simpa only [hc, hs] using hp.live_disjoint
  · intro j
    unfold record
    rw [hc, hs]
    refine if_ctx_congr Iff.rfl (fun hl => ?_) fun _ => rfl
    have hmem := (hp.live_mem j hl.1 hl.2).1
    have hdir := hp.slotBase_le hl.1
    rw [setNextPageId, bytes_writeHeader p _ (by rw [slotBase_eq] at hdir; omega)]

/-! ### Inserting -/

/-- Bytes the directory needs before a new record: none when a deleted slot can be reused. -/
def directoryGrowth (p : Page) : Nat :=
  if ∃ i, i < (slotCount p).toNat ∧ (slotAt p i).length = 0 then 0 else kSlotSize

/-- The search for a reusable slot returns the first deleted one of the slots `i, …, i + n - 1`. -/
theorem findReusable_cases (hp : Layout p) :
    ∀ (n : Nat) (i : SlotId), i.toNat + n = (slotCount p).toNat →
      (findReusable p n i = some none ∧
        ∀ j, i.toNat ≤ j → j < (slotCount p).toNat → (slotAt p j).length ≠ 0) ∨
      ∃ s : SlotId, findReusable p n i = some (some s) ∧ s.toNat < (slotCount p).toNat ∧
        (slotAt p s.toNat).length = 0 := by
  intro n
  induction n with
  | zero =>
    intro i hi
    exact .inl ⟨rfl, fun j h1 h2 => by omega⟩
  | succ n ih =>
    intro i hi
    have hlt : i.toNat < (slotCount p).toNat := by omega
    have hmax := (slotCount p).toNat_lt
    have hnext : (i + 1).toNat = i.toNat + 1 := by
      rw [UInt16.toNat_add]
      exact Nat.mod_eq_of_lt (by show i.toNat + 1 < 2 ^ 16; omega)
    rw [findReusable, readSlot_eq p i (hp.slotBase_le_pageSize hlt)]
    by_cases hl : (slotAt p i.toNat).length = 0
    · exact .inr ⟨i, by simp [hl], hlt, hl⟩
    · simp only [Option.bind_eq_bind, Option.bind_some, hl, if_false]
      rcases ih (i + 1) (by omega) with ⟨h1, h2⟩ | h
      · refine .inl ⟨h1, fun j hj hjc => ?_⟩
        rcases Nat.eq_or_lt_of_le hj with rfl | hlt'
        · exact hl
        · exact h2 j (by omega) hjc
      · exact .inr h

theorem findReusable_spec (hp : Layout p) : ∃ reuse, findReusable p (slotCount p).toNat 0 = some reuse ∧
    directoryGrowth p = (if reuse.isSome then 0 else kSlotSize) ∧
    ∀ s, reuse = some s → s.toNat < (slotCount p).toNat ∧ (slotAt p s.toNat).length = 0 := by
  rcases findReusable_cases hp (slotCount p).toNat 0 (by simp) with ⟨hfind, hall⟩ | ⟨s, hfind, hs, hl⟩
  · refine ⟨none, hfind, if_neg ?_, nofun⟩
    rintro ⟨i, hi, h0⟩
    exact hall i (Nat.zero_le i) hi h0
  · refine ⟨some s, hfind, if_pos ⟨_, hs, hl⟩, ?_⟩
    rintro _ ⟨⟩
    exact ⟨hs, hl⟩

/-- The record fits between the directory, grown if need be, and the record area. -/
def Fits (p : Page) (d : RecordBytes) : Prop :=
  slotBase (slotCount p).toNat + directoryGrowth p + d.bytes.length
    ≤ (readHeader p).freeSpaceOffset.toNat

/-- The common end of `InsertRecord`: the record bytes below the record area, then the directory
entry, then the header. -/
theorem insert_stores (hp : Layout p) (d : RecordBytes) {s : SlotId} {c off : UInt16}
    (hs : s.toNat < c.toNat) (hcount : c.toNat = (slotCount p).toNat ∨
      s.toNat = (slotCount p).toNat ∧ c.toNat = s.toNat + 1)
    (hfit : slotBase c.toNat ≤ off.toNat)
    (hoff : off.toNat + d.bytes.length = (readHeader p).freeSpaceOffset.toNat) :
    ∃ q p', p.putBytes? off.toNat d.bytes = some q ∧
      writeSlot q s ⟨off, UInt16.ofNat d.bytes.length⟩ = some p' ∧
      let p' := writeHeader p' { readHeader p with slotCount := c, freeSpaceOffset := off }
      Layout p' ∧ pageId p' = pageId p ∧ nextPageId p' = nextPageId p ∧
        ∀ j, record p' j = if j = s.toNat then stored d else record p j := by
  have hle := hp.offset_le
  have hbc := slotBase_eq c.toNat
  have hbi := slotBase_eq s.toNat
  have hlen := toNat_ofNat_length d
  have hsb : slotBase s.toNat + 4 ≤ kPageSize := by omega
  refine ⟨_, _, Page.putBytes?_eq_some (by omega), writeSlot_eq _ _ _ hsb, ?_⟩
  intro p'
  have hhead : readHeader p' = { readHeader p with slotCount := c, freeSpaceOffset := off } :=
    readHeader_writeHeader ..
  have hw : SlotWrite p p' s.toNat ⟨off, UInt16.ofNat d.bytes.length⟩ c.toNat off.toNat := by
    refine ⟨by rw [pageId, hhead, pageId], by rw [nextPageId, hhead, nextPageId],
      by rw [slotCount, hhead], by rw [hhead], hs, hcount, ?_, ?_, ?_, hfit, by omega, ?_, ?_⟩
    · rw [slotAt_writeHeader, slotAt_putSlot_self _ _ hsb]
    · intro j hj hji
      have := hp.slotBase_le hj
      have := slotBase_eq j
      rw [slotAt_writeHeader, slotAt_putSlot_of_ne _ _ hji, slotAt_putBytes]
      omega
    · intro j hj hji hlj
      have hm := hp.live_mem j hj hlj
      rw [bytes_writeHeader _ _ (by omega), bytes_putSlot _ _ _ (by omega),
        Page.bytes_putBytes_of_disjoint _ (by omega)]
    · intro _
      dsimp only
      omega
    · intro j hj hji hlj _
      have hm := hp.live_mem j hj hlj
      dsimp only
      omega
  refine hw.stores hp ?_
  rw [bytes_writeHeader _ _ (by omega), bytes_putSlot _ _ _ (by omega),
    Page.bytes_putBytes_self (by omega)]

/-- `InsertRecord` succeeds exactly when the record fits; it then stores the record in a slot that
held none and keeps everything else, and otherwise changes no byte. -/
theorem insertRecord_spec (hp : Layout p) (d : RecordBytes) :
    (¬ Fits p d ∧ insertRecord p d = some (none, p)) ∨
    ∃ (s : SlotId) (p' : Page), Fits p d ∧ insertRecord p d = some (some s, p') ∧
      record p s.toNat = none ∧ Layout p' ∧
      pageId p' = pageId p ∧ nextPageId p' = nextPageId p ∧
      ∀ j, record p' j = if j = s.toNat then stored d else record p j := by
  have hlen := toNat_ofNat_length d
  have hcnt : (readHeader p).slotCount = slotCount p := rfl
  have hend : kHeaderSize + (slotCount p).toNat * kSlotSize = slotBase (slotCount p).toNat := rfl
  obtain ⟨reuse, hfind, hgrow, hreuse⟩ := findReusable_spec hp
  unfold insertRecord
  simp only [hcnt, hfind, Option.bind_eq_bind, Option.bind_some, hend, ← hgrow, hlen]
  by_cases hfits : Fits p d
  · right
    have hle := hp.offset_le
    unfold Fits at hfits
    have hoff : ((readHeader p).freeSpaceOffset - UInt16.ofNat d.bytes.length).toNat + d.bytes.length
        = (readHeader p).freeSpaceOffset.toNat := by
      rw [UInt16.toNat_sub_of_le _ _ (by rw [UInt16.le_iff_toNat_le, hlen]; omega), hlen]
      omega
    rw [if_neg (by omega), if_neg (by omega)]
    cases reuse with
    | some s =>
      -- slot `s` is reused
      obtain ⟨hs, hl⟩ := hreuse s rfl
      obtain ⟨q, p', hput, hwrite, hstores⟩ := insert_stores hp d hs (.inl rfl) (by omega) hoff
      refine ⟨s, _, hfits, ?_, if_neg fun h => h.2 hl, hstores⟩
      simp [hput, hwrite]
    | none =>
      -- no deleted slot: the directory grows
      have hslot : directoryGrowth p = 4 := hgrow
      have hbase := slotBase_eq (slotCount p).toNat
      have hsucc : (slotCount p + 1).toNat = (slotCount p).toNat + 1 := by
        rw [UInt16.toNat_add]
        exact Nat.mod_eq_of_lt (by show _ + 1 < 2 ^ 16; have : kPageSize = 4096 := rfl; omega)
      obtain ⟨q, p', hput, hwrite, hstores⟩ := insert_stores hp d (s := slotCount p)
        (c := slotCount p + 1) (by omega) (.inr ⟨rfl, hsucc⟩) (by rw [hsucc, slotBase_eq]; omega) hoff
      refine ⟨slotCount p, _, hfits, ?_, record_of_le le_rfl, hstores⟩
      simp [hput, hwrite]
  · left
    refine ⟨hfits, ?_⟩
    unfold Fits at hfits
    split_ifs
    · rfl
    · rfl
    · omega

/-! ### Whole runs -/

/-- A record of at least one byte. -/
structure NonemptyRecord extends RecordBytes where
  ne_nil : bytes ≠ []

theorem NonemptyRecord.stored_eq (d : NonemptyRecord) :
    stored d.toRecordBytes = some d.bytes := by
  rw [stored, if_neg d.ne_nil]

/-- A call that changes a page. -/
inductive PageOp
  | insertRecord (d : NonemptyRecord)
  | deleteRecord (s : SlotId)
  | updateRecordInPlace (s : SlotId) (d : NonemptyRecord)
  | setNextPageId (next : PageId)

/-- What such a call returns. -/
inductive PageResult
  | slot (s : Option SlotId)
  | flag (ok : Bool)
  | unit
  deriving DecidableEq

/-- The call returned `nullopt` or `false`. -/
def PageResult.Failed (r : PageResult) : Prop := r = .slot none ∨ r = .flag false

/-- Execute a call; `none` is an access outside the page. -/
def PageOp.apply (p : Page) : PageOp → Option (PageResult × Page)
  | .insertRecord d => do
    let r ← SlottedPage.insertRecord p d.toRecordBytes
    return (.slot r.1, r.2)
  | .deleteRecord s => do
    let r ← SlottedPage.deleteRecord p s
    return (.flag r.1, r.2)
  | .updateRecordInPlace s d => do
    let r ← SlottedPage.updateRecordInPlace p s d.toRecordBytes
    return (.flag r.1, r.2)
  | .setNextPageId next => some (.unit, SlottedPage.setNextPageId p next)

/-- The slot a successful call is about. -/
def PageOp.target : PageOp → PageResult → Option SlotId
  | .insertRecord _, .slot s => s
  | .deleteRecord s, .flag true => some s
  | .updateRecordInPlace s _, .flag true => some s
  | _, _ => none

/-- The abstract page: the bytes last stored in each slot, if the slot is in use. -/
abbrev SlotMap := SlotId → Option (List UInt8)

/-- What a call with the given result does to the abstract page. -/
def PageOp.update (m : SlotMap) : PageOp → PageResult → SlotMap
  | .insertRecord d, .slot (some s) => Function.update m s (some d.bytes)
  | .deleteRecord s, .flag true => Function.update m s none
  | .updateRecordInPlace s d, .flag true => Function.update m s (some d.bytes)
  | _, _ => m

/-- Run a sequence of calls on a page, keeping the abstract page beside it. -/
def runOps : List PageOp → Page × SlotMap → Option (Page × SlotMap)
  | [], pm => some pm
  | op :: ops, (p, m) => do
    let r ← op.apply p
    runOps ops (r.2, op.update m r.1)

/-- One call from a page that stores `m`: it stays inside the page, keeps the layout, the page id
and all other slots, does what the map says, and changes nothing when it fails. -/
theorem apply_spec {m : SlotMap} (hp : Layout p) (hm : ∀ s : SlotId, record p s.toNat = m s)
    (op : PageOp) :
    ∃ r p', op.apply p = some (r, p') ∧ Layout p' ∧ pageId p' = pageId p ∧
      (∀ s : SlotId, record p' s.toNat = op.update m r s) ∧
      (∀ s : SlotId, op.target r ≠ some s → record p' s.toNat = record p s.toNat) ∧
      (r.Failed → p' = p) := by
  -- a call that stores `new` in slot `s` agrees with the map update
  have hstore : ∀ (p' : Page) (s : SlotId) (new : Option (List UInt8)),
      (∀ j, record p' j = if j = s.toNat then new else record p j) →
      (∀ t : SlotId, record p' t.toNat = Function.update m s new t) ∧
        ∀ t : SlotId, some s ≠ some t → record p' t.toNat = record p t.toNat := by
    intro p' s new h
    constructor
    · intro t
      rw [h, Function.update_apply, hm]
      simp only [UInt16.toNat_inj]
    · intro t ht
      rw [h, if_neg]
      intro heq
      exact ht (by rw [UInt16.toNat_inj.mp heq])
  cases op with
  | insertRecord d =>
    rcases insertRecord_spec hp d.toRecordBytes with ⟨-, h⟩ | ⟨s, p', -, h, -, hl, hid, -, hrec⟩
    · exact ⟨.slot none, p, by simp [PageOp.apply, h], hp, rfl, hm, fun _ _ => rfl, fun _ => rfl⟩
    · rw [d.stored_eq] at hrec
      obtain ⟨h1, h2⟩ := hstore p' s _ hrec
      exact ⟨.slot (some s), p', by simp [PageOp.apply, h], hl, hid, h1, h2,
        fun hf => by simp [PageResult.Failed] at hf⟩
  | deleteRecord s =>
    rcases deleteRecord_spec hp s with ⟨-, h⟩ | ⟨p', -, h, hl, hid, -, hrec⟩
    · exact ⟨.flag false, p, by simp [PageOp.apply, h], hp, rfl, hm, fun _ _ => rfl, fun _ => rfl⟩
    · obtain ⟨h1, h2⟩ := hstore p' s _ hrec
      exact ⟨.flag true, p', by simp [PageOp.apply, h], hl, hid, h1, h2,
        fun hf => by simp [PageResult.Failed] at hf⟩
  | updateRecordInPlace s d =>
    rcases updateRecordInPlace_spec hp s d.toRecordBytes with
      ⟨-, h⟩ | ⟨p', bs, -, -, h, hl, hid, -, hrec⟩
    · exact ⟨.flag false, p, by simp [PageOp.apply, h], hp, rfl, hm, fun _ _ => rfl, fun _ => rfl⟩
    · rw [d.stored_eq] at hrec
      obtain ⟨h1, h2⟩ := hstore p' s _ hrec
      exact ⟨.flag true, p', by simp [PageOp.apply, h], hl, hid, h1, h2,
        fun hf => by simp [PageResult.Failed] at hf⟩
  | setNextPageId next =>
    obtain ⟨hl, hid, -, hrec⟩ := setNextPageId_spec hp next
    refine ⟨.unit, _, rfl, hl, hid, fun s => ?_, fun s _ => hrec _, fun hf => ?_⟩
    · rw [hrec, hm]
      rfl
    · simp [PageResult.Failed] at hf

theorem runOps_spec (ops : List PageOp) : ∀ {p : Page} {m : SlotMap}, Layout p →
    (∀ s : SlotId, record p s.toNat = m s) →
    ∃ p' m', runOps ops (p, m) = some (p', m') ∧ Layout p' ∧ pageId p' = pageId p ∧
      ∀ s : SlotId, record p' s.toNat = m' s := by
  induction ops with
  | nil => intro p m hp hm; exact ⟨p, m, rfl, hp, rfl, hm⟩
  | cons op ops ih =>
    intro p m hp hm
    obtain ⟨r, p', happ, hl, hid, hm', -, -⟩ := apply_spec hp hm op
    obtain ⟨p'', m'', hrun, hl'', hid'', hm''⟩ := ih hl hm'
    exact ⟨p'', m'', by simp [runOps, happ, hrun], hl'', hid''.trans hid, hm''⟩

/-- **A slotted page is a partial map from slots to byte strings.**  After `Init` and any sequence
of calls, none of which leaves the page: `GetRecord` returns exactly the bytes last stored in each
slot; the page id is the one given to `Init`; the directory ends at or below the record area, in
which the live records are pairwise disjoint ranges; and every further call keeps the slots it is
not about, and the whole page when it fails. -/
theorem slottedPage_refines_map (p₀ : Page) (pid next : PageId) (ops : List PageOp) :
    ∃ p m, runOps ops (init p₀ pid next, fun _ => none) = some (p, m) ∧
      (∀ s, getRecord p s = some (m s)) ∧
      pageId p = pid ∧
      kHeaderSize + (slotCount p).toNat * kSlotSize ≤ (readHeader p).freeSpaceOffset.toNat ∧
      (∀ s slot, m s ≠ none → readSlot p s = some slot →
        (readHeader p).freeSpaceOffset.toNat ≤ slot.offset.toNat ∧
          slot.offset.toNat + slot.length.toNat ≤ kPageSize) ∧
      (∀ s t slot slot', s ≠ t → m s ≠ none → m t ≠ none → readSlot p s = some slot →
        readSlot p t = some slot' →
        slot.offset.toNat + slot.length.toNat ≤ slot'.offset.toNat ∨
          slot'.offset.toNat + slot'.length.toNat ≤ slot.offset.toNat) ∧
      ∀ op : PageOp, ∃ r p', op.apply p = some (r, p') ∧
        (∀ s, op.target r ≠ some s → getRecord p' s = getRecord p s) ∧
        (∀ s, getRecord p' s = some (op.update m r s)) ∧
        (r.Failed → p' = p) := by
  obtain ⟨p, m, hrun, hl, hid, hm⟩ := runOps_spec ops (init_layout p₀ pid next)
    (m := fun _ => none) (fun s => record_init p₀ pid next s.toNat)
  -- a slot in use is a live directory entry
  have hlive : ∀ s slot, m s ≠ none → readSlot p s = some slot →
      s.toNat < (slotCount p).toNat ∧ slot = slotAt p s.toNat ∧ (slotAt p s.toNat).length ≠ 0 := by
    intro s slot hs hslot
    rw [← hm s] at hs
    have hlt : s.toNat < (slotCount p).toNat := by
      by_contra hge
      exact hs (record_of_le (by omega))
    rw [readSlot_eq p s (hl.slotBase_le_pageSize hlt)] at hslot
    refine ⟨hlt, (Option.some.inj hslot).symm, fun h0 => hs ?_⟩
    rw [record, if_neg (fun h => h.2 h0)]
  refine ⟨p, m, hrun, ?_, ?_, hl.directory_le, ?_, ?_, ?_⟩
  · intro s
    rw [getRecord_eq hl, hm]
  · rw [hid, init, pageId, readHeader_writeHeader]
  · intro s slot hs hslot
    obtain ⟨hlt, rfl, hne⟩ := hlive s slot hs hslot
    exact hl.live_mem _ hlt hne
  · intro s t slot slot' hst hs ht hslot hslot'
    obtain ⟨hlt, rfl, hne⟩ := hlive s slot hs hslot
    obtain ⟨hlt', rfl, hne'⟩ := hlive t slot' ht hslot'
    exact hl.live_disjoint _ _ hlt hlt' (fun h => hst (UInt16.toNat_inj.mp h)) hne hne'
  · intro op
    obtain ⟨r, p', happ, hl', -, hm', hother, hfail⟩ := apply_spec hl hm op
    refine ⟨r, p', happ, fun s hs => ?_, fun s => ?_, hfail⟩
    · rw [getRecord_eq hl', getRecord_eq hl, hother s hs]
    · rw [getRecord_eq hl', hm']

end MiniDB.SlottedPage
