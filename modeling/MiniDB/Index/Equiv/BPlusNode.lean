import MiniDB.Index.BPlusNode

/-!
# Correctness of `BPlusNodeView`

A node page is read as a list of entries (`LeafView`) or as lists of keys and children
(`InnerView`).  In these terms the operations of a node are list operations: inserting at an index,
erasing at an index, keeping a front part, copying a back part.  All accesses stay inside the page as
long as the key count is at most `kLeafMaxKeys` or `kInternalMaxKeys`.
-/

namespace MiniDB.BPlusNode

open Cells Bytes
open Page (get?_eq_some get_put_of_disjoint get_put_self put?_eq_some)

theorem size_key : FixedSize.size Key = 8 := rfl

theorem size_pageId : FixedSize.size PageId = 4 := rfl

theorem size_slotId : FixedSize.size SlotId = 2 := rfl

theorem size_uint8 : FixedSize.size UInt8 = 1 := rfl

theorem size_uint16 : FixedSize.size UInt16 = 2 := rfl

theorem kLeafMaxKeys_eq : kLeafMaxKeys = 292 := rfl

theorem kInternalMaxKeys_eq : kInternalMaxKeys = 340 := rfl

theorem kPageSize_eq : kPageSize = 4096 := rfl

theorem leafEntryPtr_eq (i : Nat) : leafEntryPtr i = 7 + i * 14 := rfl

theorem internalKeyPtr_eq (i : Nat) : internalKeyPtr i = 7 + i * 8 := rfl

theorem internalChildPtr_eq (i : Nat) : internalChildPtr i = 2727 + i * 4 := rfl

/-! ### The arrays of a node -/

/-- The entries of a leaf as an array of cells. -/
def leafLawful : Lawful leafEntries kLeafMaxKeys where
  get p i := (p.get Key (leafEntryPtr i),
    ⟨p.get PageId (leafEntryPtr i + 8), p.get SlotId (leafEntryPtr i + 12)⟩)
  set p i e := ((p.put (leafEntryPtr i) e.1).put (leafEntryPtr i + 8) e.2.pageId).put
    (leafEntryPtr i + 12) e.2.slotId
  get?_eq p i hi := by
    have h := leafEntryPtr_eq i
    rw [kLeafMaxKeys_eq] at hi
    unfold leafEntries leafKeyAt leafRidAt
    simp only [kKeySize]
    rw [get?_eq_some (by rw [size_key, kPageSize_eq]; omega),
      get?_eq_some (by rw [size_pageId, kPageSize_eq]; omega),
      get?_eq_some (by rw [size_slotId, kPageSize_eq]; omega)]
    rfl
  set?_eq p i e hi := by
    have h := leafEntryPtr_eq i
    rw [kLeafMaxKeys_eq] at hi
    unfold leafEntries setLeafEntry
    simp only [kKeySize]
    rw [put?_eq_some (by rw [size_key, kPageSize_eq]; omega)]
    simp only [Option.bind_eq_bind, Option.bind_some]
    rw [put?_eq_some (by rw [size_pageId, kPageSize_eq]; omega)]
    simp only [Option.bind_some]
    rw [put?_eq_some (by rw [size_slotId, kPageSize_eq]; omega)]
  get_set p i e j hi hj := by
    have h := leafEntryPtr_eq i
    have h' := leafEntryPtr_eq j
    rw [kLeafMaxKeys_eq] at hi
    by_cases hij : j = i
    · subst hij
      rw [if_pos rfl]
      set q := p.put (leafEntryPtr j) e.1
      set q' := q.put (leafEntryPtr j + 8) e.2.pageId
      have hslot : (q'.put (leafEntryPtr j + 12) e.2.slotId).get SlotId (leafEntryPtr j + 12)
          = e.2.slotId := get_put_self _ _ (by rw [size_slotId, kPageSize_eq]; omega)
      have hpage : (q'.put (leafEntryPtr j + 12) e.2.slotId).get PageId (leafEntryPtr j + 8)
          = e.2.pageId := by
        rw [get_put_of_disjoint _ _ (by rw [size_pageId]; omega)]
        exact get_put_self _ _ (by rw [size_pageId, kPageSize_eq]; omega)
      have hkey : (q'.put (leafEntryPtr j + 12) e.2.slotId).get Key (leafEntryPtr j) = e.1 := by
        rw [get_put_of_disjoint _ _ (by rw [size_key]; omega),
          get_put_of_disjoint _ _ (by rw [size_key]; omega)]
        exact get_put_self _ _ (by rw [size_key, kPageSize_eq]; omega)
      rw [hslot, hpage, hkey]
    · rw [if_neg hij]
      repeat rw [get_put_of_disjoint _ _ (by simp only [size_key, size_pageId, size_slotId]; omega)]

theorem leafLawful_get (p : Page) (i : Nat) :
    leafLawful.get p i = (p.get Key (leafEntryPtr i),
      ⟨p.get PageId (leafEntryPtr i + 8), p.get SlotId (leafEntryPtr i + 12)⟩) := rfl

/-- An array of values of one fixed-size type, from byte `base` on. -/
def fieldLawful {α : Type} [FixedSize α] (base size cap : Nat) (c : CellArray Page α)
    (hsize : FixedSize.size α = size) (hget : ∀ p i, c.get? p i = p.get? α (base + i * size))
    (hset : ∀ p i a, c.set? p i a = p.put? (base + i * size) a)
    (hcap : base + cap * size ≤ kPageSize) : Lawful c cap where
  get p i := p.get α (base + i * size)
  set p i a := p.put (base + i * size) a
  get?_eq p i hi := by
    have hle := Nat.succ_mul i size ▸ Nat.mul_le_mul_right size hi
    rw [hget, get?_eq_some (by rw [hsize]; omega)]
  set?_eq p i a hi := by
    have hle := Nat.succ_mul i size ▸ Nat.mul_le_mul_right size hi
    rw [hset, put?_eq_some (by rw [hsize]; omega)]
  get_set p i a j hi hj := by
    have hle := Nat.succ_mul i size ▸ Nat.mul_le_mul_right size hi
    by_cases hij : j = i
    · subst hij
      rw [if_pos rfl, get_put_self _ _ (by rw [hsize]; omega)]
    · rw [if_neg hij, get_put_of_disjoint]
      rw [hsize]
      rcases Nat.lt_or_gt_of_ne hij with hlt | hlt
      · left
        have := Nat.succ_mul j size ▸ Nat.mul_le_mul_right size hlt
        omega
      · right
        have := Nat.succ_mul i size ▸ Nat.mul_le_mul_right size hlt
        omega

/-- The keys of an internal node. -/
def keysLawful : Lawful internalKeys kInternalMaxKeys :=
  fieldLawful 7 8 kInternalMaxKeys internalKeys rfl (fun _ _ => rfl) (fun _ _ _ => rfl) (by decide)

/-- The children of an internal node. -/
def childrenLawful : Lawful internalChildren (kInternalMaxKeys + 1) :=
  fieldLawful 2727 4 (kInternalMaxKeys + 1) internalChildren rfl (fun _ _ => rfl)
    (fun _ _ _ => rfl) (by decide)

/-! ### Header and arrays do not overlap -/

/-- The fields of the header. -/
def header (p : Page) : Bool × UInt16 × PageId := (isLeaf p, keyCount p, nextLeafId p)

variable {α : Type} {n : Nat}

theorem header_put_of_le [FixedSize α] (p : Page) {off : Nat} (v : α) (ho : 7 ≤ off) :
    header (p.put off v) = header p := by
  unfold header isLeaf keyCount nextLeafId
  rw [get_put_of_disjoint _ _ (by rw [size_uint8]; omega),
    get_put_of_disjoint _ _ (by rw [size_uint16]; omega),
    get_put_of_disjoint _ _ (by rw [size_pageId]; omega)]

theorem header_leafSet (p : Page) (i : Nat) (e : Key × RecordId) (_ : i < kLeafMaxKeys) :
    header (leafLawful.set p i e) = header p := by
  have h := leafEntryPtr_eq i
  unfold leafLawful
  rw [header_put_of_le _ _ (by omega), header_put_of_le _ _ (by omega),
    header_put_of_le _ _ (by omega)]

theorem header_keySet (p : Page) (i : Nat) (k : Key) (_ : i < kInternalMaxKeys) :
    header (keysLawful.set p i k) = header p :=
  header_put_of_le _ _ (by omega)

theorem header_childSet (p : Page) (i : Nat) (c : PageId) (_ : i < kInternalMaxKeys + 1) :
    header (childrenLawful.set p i c) = header p :=
  header_put_of_le _ _ (by omega)

theorem childGet_keySet (p : Page) (i : Nat) (k : Key) (hi : i < kInternalMaxKeys) :
    childrenLawful.get (keysLawful.set p i k) = childrenLawful.get p := by
  funext j
  rw [kInternalMaxKeys_eq] at hi
  exact get_put_of_disjoint _ _ (by rw [size_key]; omega)

theorem keyGet_childSet (p : Page) (i : Nat) (c : PageId) (_ : i < kInternalMaxKeys + 1) :
    ∀ j, j < kInternalMaxKeys → keysLawful.get (childrenLawful.set p i c) j = keysLawful.get p j := by
  intro j hj
  rw [kInternalMaxKeys_eq] at hj
  exact get_put_of_disjoint _ _ (by rw [size_key]; omega)

/-- The cells of the three arrays, which no write to the header changes. -/
theorem get_put_header [FixedSize α] (p : Page) (off : Nat) (v : α) (ho : off + FixedSize.size α ≤ 7) :
    leafLawful.get (p.put off v) = leafLawful.get p ∧
      keysLawful.get (p.put off v) = keysLawful.get p ∧
      childrenLawful.get (p.put off v) = childrenLawful.get p := by
  refine ⟨funext fun i => ?_, funext fun i => ?_, funext fun i => ?_⟩
  · have h := leafEntryPtr_eq i
    rw [leafLawful_get, leafLawful_get, get_put_of_disjoint _ _ (by omega),
      get_put_of_disjoint _ _ (by omega), get_put_of_disjoint _ _ (by omega)]
  · exact get_put_of_disjoint _ _ (by omega)
  · exact get_put_of_disjoint _ _ (by omega)

theorem header_setKeyCount (p : Page) (n : UInt16) :
    header (setKeyCount p n) = (isLeaf p, n, nextLeafId p) := by
  unfold header isLeaf nextLeafId keyCount setKeyCount
  rw [get_put_of_disjoint _ _ (by rw [size_uint8, size_uint16]; omega),
    get_put_self _ _ (by rw [size_uint16, kPageSize_eq]; omega),
    get_put_of_disjoint _ _ (by rw [size_uint16]; omega)]

theorem header_setNextLeafId (p : Page) (id : PageId) :
    header (setNextLeafId p id) = (isLeaf p, keyCount p, id) := by
  unfold header isLeaf nextLeafId keyCount setNextLeafId
  rw [get_put_of_disjoint _ _ (by rw [size_uint8]; omega),
    get_put_of_disjoint _ _ (by rw [size_uint16]; omega),
    get_put_self _ _ (by rw [size_pageId, kPageSize_eq]; omega)]

theorem header_put_flag (p : Page) (b : UInt8) :
    header (p.put 0 b) = (decide (b ≠ 0), keyCount p, nextLeafId p) := by
  unfold header isLeaf nextLeafId keyCount
  rw [get_put_self _ _ (by rw [size_uint8, kPageSize_eq]; omega),
    get_put_of_disjoint _ _ (by rw [size_uint8]; omega),
    get_put_of_disjoint _ _ (by rw [size_uint8]; omega)]

/-! ### Node views -/

/-- The page is a leaf with the entries `es`, linked to the leaf `next`. -/
structure LeafView (p : Page) (next : PageId) (es : List (Key × RecordId)) : Prop where
  header_eq : header p = (true, UInt16.ofNat es.length, next)
  length_le : es.length ≤ kLeafMaxKeys
  entries_eq : leafLawful.toList p es.length = es

/-- The page is an internal node with the keys `ks` and the children `cs`. -/
structure InnerView (p : Page) (ks : List Key) (cs : List PageId) : Prop where
  isLeaf_eq : isLeaf p = false
  keyCount_eq : keyCount p = UInt16.ofNat ks.length
  length_le : ks.length ≤ kInternalMaxKeys
  length_eq : cs.length = ks.length + 1
  keys_eq : keysLawful.toList p ks.length = ks
  children_eq : childrenLawful.toList p cs.length = cs

section Views

variable {p : Page} {next : PageId} {es : List (Key × RecordId)} {ks : List Key} {cs : List PageId}

variable {m i : Nat} {q r q' : Page}

theorem toNat_ofNat_of_le (hn : n ≤ m) (hm : m < 65536) : (UInt16.ofNat n).toNat = n := by
  rw [UInt16.toNat_ofNat', Nat.mod_eq_of_lt]
  omega

theorem LeafView.isLeaf (h : LeafView p next es) : isLeaf p = true :=
  congrArg Prod.fst h.header_eq

theorem LeafView.keyCount (h : LeafView p next es) : (keyCount p).toNat = es.length := by
  rw [show BPlusNode.keyCount p = UInt16.ofNat es.length from
    congrArg (fun x => x.2.1) h.header_eq]
  exact toNat_ofNat_of_le h.length_le (by decide)

theorem LeafView.nextLeafId (h : LeafView p next es) : nextLeafId p = next :=
  congrArg (fun x => x.2.2) h.header_eq

theorem InnerView.keyCount (h : InnerView p ks cs) : (keyCount p).toNat = ks.length := by
  rw [h.keyCount_eq]
  exact toNat_ofNat_of_le h.length_le (by decide)

theorem LeafView.isFull (h : LeafView p next es) : isFull p = decide (kLeafMaxKeys ≤ es.length) := by
  rw [BPlusNode.isFull, h.isLeaf, h.keyCount]
  rfl

theorem InnerView.isFull (h : InnerView p ks cs) :
    isFull p = decide (kInternalMaxKeys ≤ ks.length) := by
  rw [BPlusNode.isFull, h.isLeaf_eq, h.keyCount]
  rfl

/-! ### Reading -/

theorem LeafView.entryAt (h : LeafView p next es) {e : Key × RecordId} (he : es[i]? = some e) :
    leafKeyAt p i = some e.1 ∧ leafRidAt p i = some e.2 := by
  have hi : i < es.length := (List.getElem?_eq_some_iff.mp he).1
  have hcap : i < kLeafMaxKeys := lt_of_lt_of_le hi h.length_le
  have hget : leafLawful.get p i = e := by
    rw [← h.entries_eq, Lawful.getElem?_toList, if_pos (by simpa using hi)] at he
    exact Option.some.inj he
  have hcell := leafLawful.get?_eq p i hcap
  rw [hget] at hcell
  have hptr := leafEntryPtr_eq i
  rw [kLeafMaxKeys_eq] at hcap
  have hk : leafKeyAt p i = some (p.get Key (leafEntryPtr i)) :=
    get?_eq_some (by rw [size_key, kPageSize_eq]; omega)
  cases hr : leafRidAt p i with
  | none => simp [leafEntries, hk, hr] at hcell
  | some r =>
    have hpair : (p.get Key (leafEntryPtr i), r) = e := by
      simpa [leafEntries, hk, hr] using hcell
    rw [hk, ← hpair]
    exact ⟨rfl, rfl⟩

theorem InnerView.keyAt (h : InnerView p ks cs) {k : Key} (hk : ks[i]? = some k) :
    internalKeyAt p i = some k := by
  have hi : i < ks.length := (List.getElem?_eq_some_iff.mp hk).1
  rw [← h.keys_eq, Lawful.getElem?_toList, if_pos (by simpa using hi)] at hk
  rw [← hk]
  exact keysLawful.get?_eq p i (lt_of_lt_of_le hi h.length_le)

theorem InnerView.childAt (h : InnerView p ks cs) {c : PageId} (hc : cs[i]? = some c) :
    internalChildAt p i = some c := by
  have hi : i < cs.length := (List.getElem?_eq_some_iff.mp hc).1
  have hle := h.length_le
  have hlen := h.length_eq
  rw [← h.children_eq, Lawful.getElem?_toList, if_pos (by simpa using hi)] at hc
  rw [← hc]
  exact childrenLawful.get?_eq p i (by omega)

/-! ### Writing -/

theorem toList_of_get {P : Type} {c : CellArray P α} {cap : Nat} (h : Lawful c cap) {q q' : P}
    (hget : h.get q = h.get q') (n : Nat) : h.toList q n = h.toList q' n := by
  rw [Lawful.toList, hget, Lawful.toList]

theorem ofNat_length_succ : UInt16.ofNat n + 1 = UInt16.ofNat (n + 1) := by
  apply UInt16.toNat_inj.mp
  simp [UInt16.toNat_add, UInt16.toNat_ofNat']

/-- A leaf whose key count is set to the length of the entries it shows. -/
theorem leafView_setKeyCount {b : UInt16} {es' : List (Key × RecordId)}
    (hh : header q = (true, b, next)) (hle : es'.length ≤ kLeafMaxKeys)
    (hes : leafLawful.toList q es'.length = es') {n : UInt16} (hn : n = UInt16.ofNat es'.length) :
    LeafView (setKeyCount q n) next es' := by
  refine ⟨?_, hle, ?_⟩
  · rw [header_setKeyCount, hn]
    have h1 : BPlusNode.isLeaf q = true := congrArg Prod.fst hh
    have h3 : BPlusNode.nextLeafId q = next := congrArg (fun x => x.2.2) hh
    rw [h1, h3]
  · have hget : leafLawful.get (setKeyCount q n) = leafLawful.get q :=
      (get_put_header q 1 n (by rw [size_uint16]; omega)).1
    rw [toList_of_get leafLawful hget, hes]

/-- A page with cells of its arrays rewritten and the key count set. -/
theorem header_edited (hh : header q = header p) (n : UInt16) :
    header (setKeyCount q n) = (isLeaf p, n, nextLeafId p) := by
  have h1 : isLeaf q = isLeaf p := congrArg Prod.fst hh
  have h3 : nextLeafId q = nextLeafId p := congrArg (fun x => x.2.2) hh
  rw [header_setKeyCount, h1, h3]

/-- `InsertLeafEntryAt` on any page with room for an entry. -/
theorem insertLeafEntryAt_edit (p : Page) (hi : i ≤ (keyCount p).toNat)
    (hroom : (keyCount p).toNat < kLeafMaxKeys) (key : Key) (rid : RecordId) :
    ∃ q, insertLeafEntryAt p i key rid = some q ∧
      header q = (isLeaf p, keyCount p + 1, nextLeafId p) ∧
      leafLawful.toList q ((keyCount p).toNat + 1)
        = (leafLawful.toList p (keyCount p).toNat).insertIdx i (key, rid) := by
  obtain ⟨q, hq, hw, hlist⟩ := leafLawful.insertAt_spec p (key, rid) hi hroom
  have hh : header q = header p := Lawful.Writes.keep leafLawful header_leafSet hw
  have hget := (get_put_header q 1 (keyCount p + 1) (by rw [size_uint16]; omega)).1
  refine ⟨setKeyCount q (keyCount p + 1), ?_, header_edited hh _, ?_⟩
  · rw [insertLeafEntryAt, hq]
    rfl
  · exact (toList_of_get leafLawful hget _).trans hlist

/-- `RemoveLeafEntryAt` on any page with the entry. -/
theorem removeLeafEntryAt_edit (p : Page) (hi : i < (keyCount p).toNat)
    (hle : (keyCount p).toNat ≤ kLeafMaxKeys) :
    ∃ q, removeLeafEntryAt p i = some q ∧
      header q = (isLeaf p, keyCount p - 1, nextLeafId p) ∧
      leafLawful.toList q ((keyCount p).toNat - 1)
        = (leafLawful.toList p (keyCount p).toNat).eraseIdx i := by
  obtain ⟨q, hq, hw, hlist⟩ := leafLawful.shiftDown_spec p hle (keyCount p).toNat i (by omega) hi
  have hh : header q = header p := Lawful.Writes.keep leafLawful header_leafSet hw
  have hget := (get_put_header q 1 (keyCount p - 1) (by rw [size_uint16]; omega)).1
  refine ⟨setKeyCount q (keyCount p - 1), ?_, header_edited hh _, ?_⟩
  · rw [removeLeafEntryAt, hq]
    rfl
  · exact (toList_of_get leafLawful hget _).trans hlist

theorem LeafView.keyCount_eq (h : LeafView p next es) :
    BPlusNode.keyCount p = UInt16.ofNat es.length := congrArg (fun x => x.2.1) h.header_eq

theorem insertLeafEntryAt_spec (h : LeafView p next es) (hi : i ≤ es.length)
    (hroom : es.length < kLeafMaxKeys) (key : Key) (rid : RecordId) :
    ∃ q, insertLeafEntryAt p i key rid = some q ∧ LeafView q next (es.insertIdx i (key, rid)) := by
  rw [← h.keyCount] at hi hroom
  obtain ⟨q, hq, hh, hlist⟩ := insertLeafEntryAt_edit p hi hroom key rid
  rw [h.keyCount] at hi hroom hlist
  have hlen : (es.insertIdx i (key, rid)).length = es.length + 1 :=
    List.length_insertIdx_of_le_length hi _
  refine ⟨q, hq, ?_, by omega, ?_⟩
  · rw [hh, h.isLeaf, h.nextLeafId, h.keyCount_eq, hlen, ofNat_length_succ]
  · rw [hlen, hlist, h.entries_eq]

theorem removeLeafEntryAt_spec (h : LeafView p next es) (hi : i < es.length) :
    ∃ q, removeLeafEntryAt p i = some q ∧ LeafView q next (es.eraseIdx i) := by
  have hle := h.length_le
  rw [← h.keyCount] at hi hle
  obtain ⟨q, hq, hh, hlist⟩ := removeLeafEntryAt_edit p hi hle
  rw [h.keyCount] at hi hle hlist
  have hlen : (es.eraseIdx i).length = es.length - 1 := List.length_eraseIdx_of_lt hi
  refine ⟨q, hq, ?_, by omega, ?_⟩
  · have hc : BPlusNode.keyCount p = UInt16.ofNat (es.length - 1 + 1) := by
      rw [Nat.sub_add_cancel (by omega)]
      exact h.keyCount_eq
    rw [hh, h.isLeaf, h.nextLeafId, hc, hlen, ← ofNat_length_succ]
    exact congrArg (fun n => (true, n, next)) (UInt16.add_sub_cancel _ _)
  · rw [hlen, hlist, h.entries_eq]

/-- Keeping the first `m` entries of a leaf. -/
theorem LeafView.truncate (h : LeafView p next es) (hm : m ≤ es.length) :
    LeafView (setKeyCount p (UInt16.ofNat m)) next (es.take m) := by
  have hlen : (es.take m).length = m := List.length_take_of_le hm
  have hle := h.length_le
  refine leafView_setKeyCount h.header_eq (by omega) ?_ (by rw [hlen])
  rw [hlen, ← leafLawful.take_toList p hm, h.entries_eq]

theorem LeafView.setNextLeafId (h : LeafView p next es) (id : PageId) :
    LeafView (setNextLeafId p id) id es := by
  refine ⟨?_, h.length_le, ?_⟩
  · have hc : BPlusNode.keyCount p = UInt16.ofNat es.length :=
      congrArg (fun x => x.2.1) h.header_eq
    rw [header_setNextLeafId, h.isLeaf, hc]
  · have hget : leafLawful.get (BPlusNode.setNextLeafId p id) = leafLawful.get p :=
      (get_put_header p 3 id (by rw [size_pageId])).1
    rw [toList_of_get leafLawful hget, h.entries_eq]

/-- The header after `InitLeaf` and `InitInternal`: the flag, no keys, the link. -/
theorem header_init (q : Page) (b : UInt8) (id : PageId) :
    header (setNextLeafId (setKeyCount (q.put 0 b) 0) id) = (decide (b ≠ 0), 0, id) := by
  have h := header_setKeyCount (q.put 0 b) 0
  have hf := header_put_flag q b
  rw [header_setNextLeafId]
  simp only [header, Prod.mk.injEq] at h hf ⊢
  rw [h.1, h.2.1, hf.1]
  exact ⟨rfl, rfl, trivial⟩

theorem header_initInternal (q : Page) : header (initInternal q) = (false, 0, kInvalidPageId) :=
  header_init q 0 kInvalidPageId

theorem leafView_initLeaf (q : Page) (id : PageId) : LeafView (initLeaf q id) id [] :=
  ⟨header_init q 1 id, Nat.zero_le _, rfl⟩

/-- Moving the entries from `m` on to an empty leaf. -/
theorem LeafView.copy (h : LeafView p next es) (hm : m ≤ es.length) {next' : PageId}
    (hr : LeafView r next' []) :
    ∃ q, leafEntries.copy p m r (es.length - m) 0 = some q ∧
      LeafView (setKeyCount q (UInt16.ofNat (es.length - m))) next' (es.drop m) := by
  have hle := h.length_le
  obtain ⟨q, hq, hw, hlist⟩ := leafLawful.copy_spec p m r (show m + (es.length - m) ≤ _ by omega)
  have hh : header q = header r := Lawful.Writes.keep leafLawful header_leafSet hw
  have hlen : (es.drop m).length = es.length - m := List.length_drop
  refine ⟨q, hq, leafView_setKeyCount (hh.trans hr.header_eq) (by omega) ?_ (by rw [hlen])⟩
  rw [hlen, hlist, Nat.add_sub_cancel' hm, h.entries_eq]

/-- An internal node whose key count is set to the number of keys it shows. -/
theorem innerView_setKeyCount {ks' : List Key} {cs' : List PageId} (hleaf : isLeaf q = false)
    (hle : ks'.length ≤ kInternalMaxKeys) (hlen : cs'.length = ks'.length + 1)
    (hks : keysLawful.toList q ks'.length = ks') (hcs : childrenLawful.toList q cs'.length = cs')
    {n : UInt16} (hn : n = UInt16.ofNat ks'.length) : InnerView (setKeyCount q n) ks' cs' := by
  have hh := header_setKeyCount q n
  obtain ⟨-, hkeys, hchildren⟩ := get_put_header q 1 n (by rw [size_uint16]; omega)
  refine ⟨?_, ?_, hle, hlen, ?_, ?_⟩
  · rw [show isLeaf (setKeyCount q n) = isLeaf q from congrArg Prod.fst hh, hleaf]
  · rw [← hn]
    exact congrArg (fun x => x.2.1) hh
  · exact (toList_of_get keysLawful hkeys _).trans hks
  · exact (toList_of_get childrenLawful hchildren _).trans hcs

theorem isLeaf_of_header (h : header q = header q') : isLeaf q = isLeaf q' :=
  congrArg Prod.fst h

/-- Writing keys leaves the children alone. -/
theorem children_of_keyWrites (hw : keysLawful.Writes q q') (n : Nat) :
    childrenLawful.toList q' n = childrenLawful.toList q n :=
  toList_of_get childrenLawful (Lawful.Writes.keep keysLawful childGet_keySet hw) n

/-- Writing children leaves the keys alone. -/
theorem keys_of_childWrites (hw : childrenLawful.Writes q q') (hn : n ≤ kInternalMaxKeys) :
    keysLawful.toList q' n = keysLawful.toList q n := by
  apply keysLawful.toList_congr
  intro i hi
  exact Lawful.Writes.keep childrenLawful (f := fun p => keysLawful.get p i)
    (fun p j c hj => keyGet_childSet p j c hj i (by omega)) hw

/-- The bytes of the keys of an internal node. -/
def keyArea (p : Page) : List UInt8 := p.bytes (internalKeyPtr 0) (kInternalMaxKeys * kKeySize)

/-- The bytes of its children. -/
def childArea (p : Page) : List UInt8 :=
  p.bytes (internalChildPtr 0) ((kInternalMaxKeys + 1) * kChildSize)

theorem childArea_keySet (p : Page) (i : Nat) (k : Key) (hi : i < kInternalMaxKeys) :
    childArea (keysLawful.set p i k) = childArea p := by
  rw [kInternalMaxKeys_eq] at hi
  refine Page.bytes_put_of_disjoint p k (.inr ?_)
  rw [size_key, internalChildPtr_eq]
  omega

theorem keyArea_childSet (p : Page) (i : Nat) (c : PageId) (_ : i < kInternalMaxKeys + 1) :
    keyArea (childrenLawful.set p i c) = keyArea p := by
  refine Page.bytes_put_of_disjoint p c (.inl ?_)
  rw [internalKeyPtr_eq, kInternalMaxKeys_eq, kKeySize]
  omega

/-- The two loops of `InsertInternalKeyChildAt` on any page with room for a key: the first one writes
keys only, the second one children only. -/
theorem insertInternalKeyChildAt_edit (p : Page) (hi : i ≤ (keyCount p).toNat)
    (hroom : (keyCount p).toNat < kInternalMaxKeys) (key : Key) (child : PageId) :
    ∃ q₁ q₂, internalKeys.insertAt p i (keyCount p).toNat key = some q₁ ∧
      childArea q₁ = childArea p ∧
      internalChildren.insertAt q₁ (i + 1) ((keyCount p).toNat + 1) child = some q₂ ∧
      keyArea q₂ = keyArea q₁ ∧
      insertInternalKeyChildAt p i key child = some (setKeyCount q₂ (keyCount p + 1)) ∧
      header (setKeyCount q₂ (keyCount p + 1)) = (isLeaf p, keyCount p + 1, nextLeafId p) ∧
      keysLawful.toList (setKeyCount q₂ (keyCount p + 1)) ((keyCount p).toNat + 1)
        = (keysLawful.toList p (keyCount p).toNat).insertIdx i key ∧
      childrenLawful.toList (setKeyCount q₂ (keyCount p + 1)) ((keyCount p).toNat + 1 + 1)
        = (childrenLawful.toList p ((keyCount p).toNat + 1)).insertIdx (i + 1) child := by
  obtain ⟨q₁, hq₁, hw₁, hkeys⟩ := keysLawful.insertAt_spec p key hi hroom
  obtain ⟨q₂, hq₂, hw₂, hchildren⟩ := childrenLawful.insertAt_spec q₁ child
    (Nat.succ_le_succ hi) (Nat.succ_lt_succ hroom)
  have hh : header q₂ = header p :=
    (Lawful.Writes.keep childrenLawful header_childSet hw₂).trans
      (Lawful.Writes.keep keysLawful header_keySet hw₁)
  obtain ⟨-, hgetKeys, hgetChildren⟩ :=
    get_put_header q₂ 1 (keyCount p + 1) (by rw [size_uint16]; omega)
  refine ⟨q₁, q₂, hq₁, Lawful.Writes.keep keysLawful childArea_keySet hw₁, hq₂,
    Lawful.Writes.keep childrenLawful keyArea_childSet hw₂, ?_, header_edited hh _, ?_, ?_⟩
  · rw [insertInternalKeyChildAt, hq₁]
    simp only [Option.bind_eq_bind, Option.bind_some, hq₂]
    rfl
  · rw [← hkeys, ← keys_of_childWrites hw₂ (Nat.succ_le_of_lt hroom)]
    exact toList_of_get keysLawful hgetKeys _
  · rw [← children_of_keyWrites hw₁, ← hchildren]
    exact toList_of_get childrenLawful hgetChildren _

theorem insertInternalKeyChildAt_spec (h : InnerView p ks cs) (hi : i ≤ ks.length)
    (hroom : ks.length < kInternalMaxKeys) (key : Key) (child : PageId) :
    ∃ q, insertInternalKeyChildAt p i key child = some q ∧
      InnerView q (ks.insertIdx i key) (cs.insertIdx (i + 1) child) := by
  have hlen := h.length_eq
  rw [← h.keyCount] at hi hroom
  obtain ⟨q₁, q₂, -, -, -, -, hq, hh, hkeys, hchildren⟩ :=
    insertInternalKeyChildAt_edit p hi hroom key child
  rw [h.keyCount] at hi hroom hkeys hchildren
  have hks : (ks.insertIdx i key).length = ks.length + 1 :=
    List.length_insertIdx_of_le_length hi _
  have hcs : (cs.insertIdx (i + 1) child).length = cs.length + 1 :=
    List.length_insertIdx_of_le_length (by omega) _
  refine ⟨_, hq, (congrArg Prod.fst hh).trans h.isLeaf_eq, ?_, by omega, by omega, ?_, ?_⟩
  · rw [hks, ← ofNat_length_succ, ← h.keyCount_eq]
    exact congrArg (fun x => x.2.1) hh
  · rw [hks, hkeys, h.keys_eq]
  · rw [hcs, hlen, hchildren, ← hlen, h.children_eq]

/-- A new internal node with one child. -/
theorem innerView_initInternal (q : Page) (child : PageId) :
    ∃ q', setInternalChildAt (initInternal q) 0 child = some q' ∧ InnerView q' [] [child] := by
  have hset := childrenLawful.set?_eq (initInternal q) 0 child (by decide)
  refine ⟨_, hset, ?_⟩
  have hh : header (childrenLawful.set (initInternal q) 0 child) = (false, 0, kInvalidPageId) := by
    rw [header_childSet _ _ _ (by decide), header_initInternal]
  refine ⟨congrArg Prod.fst hh, congrArg (fun x => x.2.1) hh, Nat.zero_le _, rfl, rfl, ?_⟩
  show [childrenLawful.get (childrenLawful.set (initInternal q) 0 child) 0] = [child]
  rw [childrenLawful.get_set _ _ _ _ (by decide) (by decide), if_pos rfl]

/-- Keeping the first `m` keys and the children around them. -/
theorem InnerView.truncate (h : InnerView p ks cs) (hm : m ≤ ks.length) :
    InnerView (setKeyCount p (UInt16.ofNat m)) (ks.take m) (cs.take (m + 1)) := by
  have hlen := h.length_eq
  have hle := h.length_le
  have hks : (ks.take m).length = m := List.length_take_of_le hm
  have hcs : (cs.take (m + 1)).length = m + 1 := List.length_take_of_le (by omega)
  refine innerView_setKeyCount h.isLeaf_eq (by omega) (by omega) ?_ ?_ (by rw [hks])
  · rw [hks, ← keysLawful.take_toList p hm, h.keys_eq]
  · rw [hcs, ← childrenLawful.take_toList p (show m + 1 ≤ cs.length by omega), h.children_eq]

/-- Moving the keys and children from `m` on to a new node. -/
theorem InnerView.copy (h : InnerView p ks cs) (hm : m ≤ ks.length) (hr : isLeaf r = false) :
    ∃ q q', internalKeys.copy p m r (ks.length - m) 0 = some q ∧
      internalChildren.copy p m q (ks.length - m + 1) 0 = some q' ∧
      InnerView (setKeyCount q' (UInt16.ofNat (ks.length - m))) (ks.drop m) (cs.drop m) := by
  have hlen := h.length_eq
  have hle := h.length_le
  obtain ⟨q, hq, hw, hkeys⟩ :=
    keysLawful.copy_spec p m r (show m + (ks.length - m) ≤ kInternalMaxKeys by omega)
  obtain ⟨q', hq', hw', hchildren⟩ := childrenLawful.copy_spec p m q
    (show m + (ks.length - m + 1) ≤ kInternalMaxKeys + 1 by omega)
  have hks : (ks.drop m).length = ks.length - m := List.length_drop
  have hcs : (cs.drop m).length = ks.length - m + 1 := by rw [List.length_drop]; omega
  refine ⟨q, q', hq, hq', innerView_setKeyCount ?_ (by omega) (by omega) ?_ ?_ (by rw [hks])⟩
  · rw [isLeaf_of_header (Lawful.Writes.keep childrenLawful header_childSet hw'),
      isLeaf_of_header (Lawful.Writes.keep keysLawful header_keySet hw), hr]
  · rw [hks, keys_of_childWrites hw' (by omega), hkeys, Nat.add_sub_cancel' hm, h.keys_eq]
  · rw [hcs, hchildren, show m + (ks.length - m + 1) = cs.length by omega, h.children_eq]

end Views

/-! ### Edits of the decoded lists -/

/-- The entries that `LeafKeyAt` and `LeafRidAt` read. -/
def leafList? (p : Page) : Option (List (Key × RecordId)) :=
  (List.range (keyCount p).toNat).mapM (leafEntries.get? p)

/-- The keys that `InternalKeyAt` reads. -/
def keyList? (p : Page) : Option (List Key) :=
  (List.range (keyCount p).toNat).mapM (internalKeyAt p)

/-- The children that `InternalChildAt` reads, one more than keys. -/
def childList? (p : Page) : Option (List PageId) :=
  (List.range ((keyCount p).toNat + 1)).mapM (internalChildAt p)

/-- The leaf flag and the id of the next leaf are the same. -/
def SameLink (p q : Page) : Prop := isLeaf q = isLeaf p ∧ nextLeafId q = nextLeafId p

theorem leafList?_eq {p : Page} (hn : (keyCount p).toNat = n) (hle : n ≤ kLeafMaxKeys) :
    leafList? p = some (leafLawful.toList p n) := by
  rw [leafList?, hn, leafLawful.mapM_get? p hle]

theorem keyList?_eq {p : Page} (hn : (keyCount p).toNat = n) (hle : n ≤ kInternalMaxKeys) :
    keyList? p = some (keysLawful.toList p n) := by
  rw [keyList?, hn]
  exact keysLawful.mapM_get? p hle

theorem childList?_eq {p : Page} (hn : (keyCount p).toNat = n) (hle : n ≤ kInternalMaxKeys) :
    childList? p = some (childrenLawful.toList p (n + 1)) := by
  rw [childList?, hn]
  exact childrenLawful.mapM_get? p (Nat.succ_le_succ hle)

/-- The key count of an edited page, which does not wrap around. -/
theorem toNat_add_one {n : UInt16} {m : Nat} (h : n.toNat < m) (hm : m < 65536) :
    (n + 1).toNat = n.toNat + 1 := by
  rw [UInt16.toNat_add, UInt16.toNat_one]
  omega

theorem toNat_sub_one {n : UInt16} {i : Nat} (h : i < n.toNat) : (n - 1).toNat = n.toNat - 1 := by
  have hle : 1 ≤ n := UInt16.le_iff_toNat_le.mpr (by rw [UInt16.toNat_one]; omega)
  rw [UInt16.toNat_sub_of_le _ _ hle, UInt16.toNat_one]

/-- **The edits of a node are list edits.**  On every page whose key count leaves room, or for a removal
is in range, and at every position, they stay inside the page and insert or remove the one element of the
lists that are read from it; the leaf flag and the next leaf are kept.  Of the two arrays of an internal
node the first loop leaves the children alone, byte by byte, and the second one the keys. -/
theorem node_edits (p : Page) :
    (∀ i key rid, (keyCount p).toNat < kLeafMaxKeys → i ≤ (keyCount p).toNat →
      ∃ es q, leafList? p = some es ∧ insertLeafEntryAt p i key rid = some q ∧
        leafList? q = some (es.insertIdx i (key, rid)) ∧ SameLink p q) ∧
    (∀ i, (keyCount p).toNat ≤ kLeafMaxKeys → i < (keyCount p).toNat →
      ∃ es q, leafList? p = some es ∧ removeLeafEntryAt p i = some q ∧
        leafList? q = some (es.eraseIdx i) ∧ SameLink p q) ∧
    (∀ i key child, (keyCount p).toNat < kInternalMaxKeys → i ≤ (keyCount p).toNat →
      ∃ ks cs q, keyList? p = some ks ∧ childList? p = some cs ∧
        insertInternalKeyChildAt p i key child = some q ∧
        keyList? q = some (ks.insertIdx i key) ∧ childList? q = some (cs.insertIdx (i + 1) child) ∧
        SameLink p q ∧
        ∃ q₁ q₂, internalKeys.insertAt p i (keyCount p).toNat key = some q₁ ∧
          childArea q₁ = childArea p ∧
          internalChildren.insertAt q₁ (i + 1) ((keyCount p).toNat + 1) child = some q₂ ∧
          keyArea q₂ = keyArea q₁ ∧ q = setKeyCount q₂ (keyCount p + 1)) := by
  refine ⟨fun i key rid hroom hi => ?_, fun i hle hi => ?_, fun i key child hroom hi => ?_⟩
  · obtain ⟨q, hq, hh, hlist⟩ := insertLeafEntryAt_edit p hi hroom key rid
    have hcount : (keyCount q).toNat = (keyCount p).toNat + 1 := by
      rw [show keyCount q = keyCount p + 1 from congrArg (fun x => x.2.1) hh]
      exact toNat_add_one hroom (by decide)
    refine ⟨_, q, leafList?_eq rfl hroom.le, hq, ?_, congrArg Prod.fst hh,
      congrArg (fun x => x.2.2) hh⟩
    rw [leafList?_eq hcount (Nat.succ_le_of_lt hroom), hlist]
  · obtain ⟨q, hq, hh, hlist⟩ := removeLeafEntryAt_edit p hi hle
    have hcount : (keyCount q).toNat = (keyCount p).toNat - 1 := by
      rw [show keyCount q = keyCount p - 1 from congrArg (fun x => x.2.1) hh]
      exact toNat_sub_one hi
    refine ⟨_, q, leafList?_eq rfl hle, hq, ?_, congrArg Prod.fst hh, congrArg (fun x => x.2.2) hh⟩
    rw [leafList?_eq hcount (by omega), hlist]
  · obtain ⟨q₁, q₂, hq₁, harea₁, hq₂, harea₂, hq, hh, hkeys, hchildren⟩ :=
      insertInternalKeyChildAt_edit p hi hroom key child
    have hcount : (keyCount (setKeyCount q₂ (keyCount p + 1))).toNat = (keyCount p).toNat + 1 := by
      rw [show keyCount (setKeyCount q₂ (keyCount p + 1)) = keyCount p + 1 from
        congrArg (fun x => x.2.1) hh]
      exact toNat_add_one hroom (by decide)
    refine ⟨_, _, _, keyList?_eq rfl hroom.le, childList?_eq rfl hroom.le, hq, ?_, ?_,
      ⟨congrArg Prod.fst hh, congrArg (fun x => x.2.2) hh⟩, q₁, q₂, hq₁, harea₁, hq₂, harea₂, rfl⟩
    · rw [keyList?_eq hcount (Nat.succ_le_of_lt hroom), hkeys]
    · rw [childList?_eq hcount (Nat.succ_le_of_lt hroom), hchildren]

/-- An entry is put between two others and taken out again, and a key with its child between two keys. -/
theorem middle_edits : ∃ p q r s t, leafList? p = some [(5, ⟨1, 0⟩), (9, ⟨1, 1⟩)] ∧
    insertLeafEntryAt p 1 7 ⟨1, 2⟩ = some q ∧
    leafList? q = some [(5, ⟨1, 0⟩), (7, ⟨1, 2⟩), (9, ⟨1, 1⟩)] ∧
    removeLeafEntryAt q 1 = some r ∧ leafList? r = some [(5, ⟨1, 0⟩), (9, ⟨1, 1⟩)] ∧
    keyList? s = some [10, 30] ∧ childList? s = some [2, 3, 4] ∧
    insertInternalKeyChildAt s 1 20 5 = some t ∧
    keyList? t = some [10, 20, 30] ∧ childList? t = some [2, 3, 5, 4] := by
  obtain ⟨p₀, -, h₀⟩ := insertLeafEntryAt_spec (leafView_initLeaf Page.blank kInvalidPageId) (i := 0)
    le_rfl (by decide) 5 ⟨1, 0⟩
  obtain ⟨p, -, h⟩ := insertLeafEntryAt_spec h₀ (i := 1) le_rfl (by decide) 9 ⟨1, 1⟩
  have hp : (keyCount p).toNat = 2 := h.keyCount
  obtain ⟨es, q, hes, hinsert, hq, -⟩ := (node_edits p).1 1 7 ⟨1, 2⟩ (by rw [hp]; decide)
    (by rw [hp]; decide)
  have hlist := (leafList?_eq hp (by decide)).trans (congrArg some h.entries_eq)
  obtain rfl := Option.some.inj (hes.symm.trans hlist)
  -- the entry that was inserted is removed
  obtain ⟨q', hinsert', h'⟩ := insertLeafEntryAt_spec h (i := 1) (by decide) (by decide) 7 ⟨1, 2⟩
  obtain rfl := Option.some.inj (hinsert.symm.trans hinsert')
  have hcount : (keyCount q).toNat = 3 := h'.keyCount
  obtain ⟨es', r, hes', hremove, hr, -⟩ := (node_edits q).2.1 1 (by rw [hcount]; decide)
    (by rw [hcount]; decide)
  obtain rfl := Option.some.inj (hes'.symm.trans hq)
  obtain ⟨s₀, -, k₀⟩ := innerView_initInternal Page.blank 2
  obtain ⟨s₁, -, k₁⟩ := insertInternalKeyChildAt_spec k₀ (i := 0) le_rfl (by decide) 10 3
  obtain ⟨s, -, k⟩ := insertInternalKeyChildAt_spec k₁ (i := 1) le_rfl (by decide) 30 4
  have hs : (keyCount s).toNat = 2 := k.keyCount
  obtain ⟨ks, cs, t, hks, hcs, hchild, hkeys, hchildren, -⟩ := (node_edits s).2.2 1 20 5
    (by rw [hs]; decide) (by rw [hs]; decide)
  have hks' := (keyList?_eq hs (by decide)).trans (congrArg some k.keys_eq)
  have hcs' := (childList?_eq hs (by decide)).trans (congrArg some k.children_eq)
  obtain rfl := Option.some.inj (hks.symm.trans hks')
  obtain rfl := Option.some.inj (hcs.symm.trans hcs')
  exact ⟨p, q, r, s, t, hlist, hinsert, hq, hremove, hr, hks', hcs', hchild, hkeys, hchildren⟩

end MiniDB.BPlusNode
