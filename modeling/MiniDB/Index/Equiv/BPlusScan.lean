import MiniDB.Index.BPlusTree
import MiniDB.Index.Equiv.BPlusNode
import MiniDB.Lib.Outward
import MiniDB.Lib.Separated

/-!
# The loops of a B+tree over one node

What the loops of `BPlusTree` do within a single page, in terms of the lists the page shows: the
choice of a child and of an insertion point, the search for a split point and the two ways of
splitting, and the scans of `Delete`, `SearchEqual` and `RangeScan` over a leaf.
-/

namespace MiniDB.BPlusTree

open BPlusNode Cells Outward Separated
open List (drop_eq_getElem_cons drop_eq_nil_of_le getElem?_eq_getElem take_append_drop)

variable {p : Page} {next : PageId} {es : List (Key × RecordId)} {ks : List Key} {cs : List PageId}

/-! ### Choosing a child and an insertion point -/

theorem findChildIndexFrom_eq (h : InnerView p ks cs) (key : Key) :
    ∀ m i, i + m = ks.length →
      findChildIndexFrom p key m i = some (i + ((ks.drop i).takeWhile (· ≤ key)).length) := by
  intro m
  induction m with
  | zero =>
    intro i hi
    rw [drop_eq_nil_of_le (by omega)]
    rfl
  | succ m ih =>
    intro i hi
    have hlt : i < ks.length := by omega
    rw [findChildIndexFrom, h.keyAt (getElem?_eq_getElem hlt), drop_eq_getElem_cons hlt,
      List.takeWhile_cons]
    by_cases hk : ks[i] ≤ key
    · simp only [Option.bind_eq_bind, Option.bind_some, hk, if_true, decide_true]
      rw [ih (i + 1) (by omega), List.length_cons]
      congr 1
      omega
    · simp [hk]

/-- The child entered for `key`: keys up to it are at most `key`, the next one is above. -/
theorem findChildIndex_eq (h : InnerView p ks cs) (key : Key) :
    findChildIndex p key = some (ks.takeWhile (· ≤ key)).length := by
  rw [findChildIndex, h.keyCount, findChildIndexFrom_eq h key _ 0 (by omega), Nat.zero_add]
  rfl

theorem lowerBoundFrom_eq (h : LeafView p next es) (key : Key) :
    ∀ m i, i + m = es.length →
      lowerBoundFrom p key m i = some (i + ((es.drop i).takeWhile (·.1 < key)).length) := by
  intro m
  induction m with
  | zero =>
    intro i hi
    rw [drop_eq_nil_of_le (by omega)]
    rfl
  | succ m ih =>
    intro i hi
    have hlt : i < es.length := by omega
    rw [lowerBoundFrom, (h.entryAt (getElem?_eq_getElem hlt)).1,
      drop_eq_getElem_cons hlt, List.takeWhile_cons]
    by_cases hk : es[i].1 < key
    · simp only [Option.bind_eq_bind, Option.bind_some, hk, if_true, decide_true]
      rw [ih (i + 1) (by omega), List.length_cons]
      congr 1
      omega
    · simp [hk]

theorem lowerBound_eq (h : LeafView p next es) (key : Key) :
    lowerBoundFrom p key (keyCount p).toNat 0 = some (es.takeWhile (·.1 < key)).length := by
  rw [h.keyCount, lowerBoundFrom_eq h key _ 0 (by omega), Nat.zero_add]
  rfl

/-- Inserting at the lower bound of a key is inserting in order. -/
theorem insertIdx_lowerBound (es : List (Key × RecordId)) (key : Key) (rid : RecordId) :
    es.insertIdx (es.takeWhile (·.1 < key)).length (key, rid) = insertSorted key rid es := by
  have h := insertIdx_length (es.takeWhile (·.1 < key)) (es.dropWhile (·.1 < key)) (key, rid)
  rw [List.takeWhile_append_dropWhile] at h
  exact h

/-! ### Splitting -/

/-- The key of entry `i`. -/
def keyAt? (es : List (Key × RecordId)) (i : Nat) : Option Key := es[i]?.map Prod.fst

theorem isBoundary_eq (h : LeafView p next es) {i : Nat} (hi : i < es.length) :
    isBoundary p i = some (decide (keyAt? es i ≠ keyAt? es (i - 1))) := by
  have h1 := (h.entryAt (getElem?_eq_getElem hi)).1
  have h2 := (h.entryAt (getElem?_eq_getElem (show i - 1 < es.length by omega))).1
  rw [isBoundary, h1, h2, keyAt?, keyAt?, getElem?_eq_getElem hi,
    getElem?_eq_getElem (show i - 1 < es.length by omega)]
  simp

/-- The entries `i - 1` and `i` have different keys. -/
abbrev Differs (es : List (Key × RecordId)) (i : Nat) : Prop := keyAt? es i ≠ keyAt? es (i - 1)

/-- The split point of a leaf: the boundary nearest to the middle, or the middle. -/
theorem findBoundary_spec (h : LeafView p next es) (hn : 2 ≤ es.length) :
    ∃ m, findBoundary p es.length (es.length / 2) es.length (es.length / 2) (es.length / 2) = some m ∧
      Found (Differs es) es.length (es.length / 2) (es.length / 2) m :=
  outward_spec _ (by omega) (by omega) (by omega) fun _ _ hi => isBoundary_eq h hi

/-- The split point lies inside the leaf. -/
theorem pos_of_found (hn : 2 ≤ es.length) {m : Nat}
    (h : Found (Differs es) es.length (es.length / 2) (es.length / 2) m) :
    1 ≤ m ∧ m < es.length := by
  rcases h with h | ⟨rfl, -⟩
  · exact ⟨h.pos, h.lt⟩
  · omega

theorem leafSplit_of_found (hn : 2 ≤ es.length) {m : Nat}
    (h : Found (Differs es) es.length (es.length / 2) (es.length / 2) m) :
    ∃ s, LeafSplit es (es.take m) (es.drop m) s := by
  have hpos := pos_of_found hn h
  refine ⟨es[m].1, (take_append_drop m es).symm, ?_, ?_, ?_⟩
  · rw [ne_eq, List.take_eq_nil_iff]
    rintro (rfl | rfl)
    · omega
    · simp at hn
  · rw [List.head?_drop, getElem?_eq_getElem hpos.2]
    rfl
  · rcases h with h | ⟨-, hall⟩
    · left
      intro e he
      rw [List.getLast?_take, if_neg (by omega), getElem?_eq_getElem (by omega)] at he
      obtain rfl : es[m - 1] = e := by simpa using he
      have hne := h.holds
      rw [Differs, keyAt?, keyAt?, getElem?_eq_getElem hpos.2,
        getElem?_eq_getElem (by omega)] at hne
      intro heq
      exact hne (congrArg some heq.symm)
    · right
      have hkey : ∀ i, i < es.length → keyAt? es i = keyAt? es 0 := by
        intro i
        induction i with
        | zero => intro _; rfl
        | succ i ih =>
          intro hi
          have hsame := not_not.mp (hall (i + 1) (by omega) hi)
          rw [hsame, Nat.add_sub_cancel, ih (by omega)]
      intro e he
      obtain ⟨i, hi, rfl⟩ := List.getElem_of_mem he
      have := (hkey i hi).trans (hkey m hpos.2).symm
      rw [keyAt?, keyAt?, getElem?_eq_getElem hi, getElem?_eq_getElem hpos.2] at this
      exact Option.some.inj this

/-- A leaf is split at its split point. -/
theorem splitLeaf_at (h : LeafView p next es) (hn : 2 ≤ es.length) (newRightId : PageId) :
    ∃ m s pl pr, Found (Differs es) es.length (es.length / 2) (es.length / 2) m ∧
      splitLeaf p newRightId = some (s, pl, pr) ∧ LeafSplit es (es.take m) (es.drop m) s ∧
      LeafView pl newRightId (es.take m) ∧ LeafView pr next (es.drop m) := by
  have hset := h.setNextLeafId newRightId
  obtain ⟨m, hm, hfound⟩ := findBoundary_spec hset hn
  obtain ⟨s, hsplit⟩ := leafSplit_of_found hn hfound
  have hle : m ≤ es.length := (pos_of_found hn hfound).2.le
  obtain ⟨q, hq, hright⟩ := hset.copy hle (leafView_initLeaf Page.blank next)
  have hleft := hset.truncate hle
  refine ⟨m, s, _, _, hfound, ?_, hsplit, hleft, hright⟩
  obtain ⟨e, he, hes⟩ := Option.map_eq_some_iff.mp hsplit.head_eq
  have hsep := (hright.entryAt (i := 0) (e := e) (by rw [← List.head?_eq_getElem?, he])).1
  rw [hes] at hsep
  rw [splitLeaf, h.nextLeafId, hset.keyCount, hm]
  simp only [Option.bind_eq_bind, Option.bind_some, hq, hsep]
  rfl

theorem splitLeaf_spec (h : LeafView p next es) (hn : 2 ≤ es.length) (newRightId : PageId) :
    ∃ s pl pr l m, splitLeaf p newRightId = some (s, pl, pr) ∧ LeafSplit es l m s ∧
      LeafView pl newRightId l ∧ LeafView pr next m := by
  obtain ⟨m, s, pl, pr, -, heq, hsplit, hleft, hright⟩ := splitLeaf_at h hn newRightId
  exact ⟨s, pl, pr, es.take m, es.drop m, heq, hsplit, hleft, hright⟩

theorem splitInternal_spec (h : InnerView p ks cs) (hn : 1 ≤ ks.length) :
    ∃ s pl pr ks₁ ks₂ cs₁ cs₂, splitInternal p = some (s, pl, pr) ∧ ks = ks₁ ++ s :: ks₂ ∧
      cs = cs₁ ++ cs₂ ∧ cs₁.length = ks₁.length + 1 ∧ cs₂.length = ks₂.length + 1 ∧
      InnerView pl ks₁ cs₁ ∧ InnerView pr ks₂ cs₂ := by
  have hlen := h.length_eq
  have hlt : ks.length / 2 < ks.length := by omega
  have hleft := h.truncate hlt.le
  obtain ⟨q, q', hq, hq', hright⟩ := h.copy (show ks.length / 2 + 1 ≤ ks.length by omega)
    (show isLeaf (initInternal Page.blank) = false from
      congrArg Prod.fst (header_initInternal Page.blank))
  refine ⟨ks[ks.length / 2], _, _, _, _, _, _, ?_, ?_, ?_, ?_, ?_, hleft, hright⟩
  · rw [splitInternal, h.keyCount, h.keyAt (getElem?_eq_getElem hlt)]
    simp only [Option.bind_eq_bind, Option.bind_some, Nat.sub_sub, hq, hq']
    rfl
  · rw [← drop_eq_getElem_cons hlt, take_append_drop]
  · rw [take_append_drop]
  · rw [List.length_take_of_le hlt.le, List.length_take_of_le (by omega)]
  · rw [List.length_drop, List.length_drop]
    omega

/-! ### Scanning a leaf -/

/-- What the answer of the scan of `Delete` says about the entries of a leaf. -/
def DeleteFound (es : List (Key × RecordId)) (key : Key) (rid : RecordId) : DeleteScan → Prop
  | .found i => es[i]? = some (key, rid)
  | .exceeded => ∃ l e r, es = l ++ e :: r ∧ (key, rid) ∉ l ∧ key < e.1
  | .absent => (key, rid) ∉ es

theorem deleteScan_spec (h : LeafView p next es) (key : Key) (rid : RecordId) :
    ∀ m i, i + m = es.length → (key, rid) ∉ es.take i →
      ∃ r, deleteScan p key rid m i = some r ∧ DeleteFound es key rid r := by
  intro m
  induction m with
  | zero =>
    intro i hi hnot
    rw [List.take_of_length_le (by omega)] at hnot
    exact ⟨.absent, rfl, hnot⟩
  | succ m ih =>
    intro i hi hnot
    have hlt : i < es.length := by omega
    obtain ⟨hkey, hrid⟩ := h.entryAt (getElem?_eq_getElem hlt)
    rw [deleteScan, hkey, hrid]
    simp only [Option.bind_eq_bind, Option.bind_some]
    by_cases hgt : es[i].1 > key
    · rw [if_pos hgt]
      refine ⟨.exceeded, rfl, es.take i, es[i], es.drop (i + 1), ?_, hnot, hgt⟩
      rw [← drop_eq_getElem_cons hlt, take_append_drop]
    · rw [if_neg hgt]
      by_cases heq : es[i] = (key, rid)
      · refine ⟨.found i, ?_, by rw [DeleteFound, getElem?_eq_getElem hlt, heq]⟩
        rw [heq]
        simp
      · obtain ⟨r, hr, hfound⟩ := ih (i + 1) (by omega) (by
          rw [List.take_succ_eq_append_getElem hlt, List.mem_append, List.mem_singleton, not_or]
          exact ⟨hnot, Ne.symm heq⟩)
        refine ⟨r, ?_, hfound⟩
        rw [← hr]
        split_ifs with hk hr'
        · -- same key and same record id: the entry would be the one looked for
          exact absurd (Prod.ext hk (by cases hx : es[i].2; simp_all)) heq
        · rfl
        · rfl

theorem searchScan_eq (h : LeafView p next es) (key : Key) :
    ∀ m i, i + m = es.length → searchScan p key m i
      = some (((collect (fun k => decide (k < key)) (fun k => decide (k > key)) (es.drop i)).1.map
          Prod.snd),
        (collect (fun k => decide (k < key)) (fun k => decide (k > key)) (es.drop i)).2) := by
  intro m
  induction m with
  | zero =>
    intro i hi
    rw [drop_eq_nil_of_le (by omega)]
    rfl
  | succ m ih =>
    intro i hi
    have hlt : i < es.length := by omega
    obtain ⟨hkey, hrid⟩ := h.entryAt (getElem?_eq_getElem hlt)
    rw [searchScan, hkey, hrid, ih (i + 1) (by omega), drop_eq_getElem_cons hlt, collect]
    simp only [Option.bind_eq_bind, Option.bind_some]
    rcases lt_trichotomy es[i].1 key with hlt' | heq | hgt
    · rw [if_neg hlt'.ne, if_neg (not_lt.mpr hlt'.le), if_pos (decide_eq_true hlt')]
    · simp [heq]
    · rw [if_neg hgt.ne', if_pos hgt, if_neg (by simpa using hgt.le), if_pos (decide_eq_true hgt)]
      rfl

theorem rangeScanLeaf_eq (h : LeafView p next es) (below above : Key → Bool) :
    ∀ m i, i + m = es.length →
      rangeScanLeaf p below above m i = some (collect below above (es.drop i)) := by
  intro m
  induction m with
  | zero =>
    intro i hi
    rw [drop_eq_nil_of_le (by omega)]
    rfl
  | succ m ih =>
    intro i hi
    have hlt : i < es.length := by omega
    obtain ⟨hkey, hrid⟩ := h.entryAt (getElem?_eq_getElem hlt)
    rw [rangeScanLeaf, hkey, hrid, ih (i + 1) (by omega), drop_eq_getElem_cons hlt, collect]
    simp only [Option.bind_eq_bind, Option.bind_some]
    split_ifs <;> rfl

end MiniDB.BPlusTree
