import MiniDB.Index.Equiv.BPlusScan

/-!
# The split point of a leaf

`SplitChild` cuts a full leaf between two different keys as near to its middle as possible.  Here the
search is run over any reader of keys: it is asked only for keys of the leaf, and `split_point` tells
where it ends and what the two halves are.
-/

namespace MiniDB.BPlusTree

open BPlusNode Outward

variable {p : Page} {next : PageId} {es : List (Key × RecordId)}

/-- The search of `SplitChild` in a leaf of `n` entries whose keys are read by `keyAt`. -/
def splitSearch (keyAt : Nat → Option Key) (n : Nat) : Option Nat :=
  outward (fun i => do
    let k ← keyAt i
    let k' ← keyAt (i - 1)
    return k ≠ k') n (n / 2) n (n / 2) (n / 2)

/-- The position where the leaf with these keys is to be cut. -/
structure SplitPoint (keys : List Key) (mid : Nat) : Prop where
  pos : 1 ≤ mid
  le : mid ≤ keys.length - 1
  /-- if there are different keys, the cut is between two of them, and no other such place is nearer
  to the middle -/
  nearest : ∀ i, 1 ≤ i → i ≤ keys.length - 1 → keys[i - 1]? ≠ keys[i]? →
    keys[mid - 1]? ≠ keys[mid]? ∧ mid.dist (keys.length / 2) ≤ i.dist (keys.length / 2) ∧
      (mid.dist (keys.length / 2) = i.dist (keys.length / 2) → mid ≤ i)
  middle : (∀ i, 1 ≤ i → i ≤ keys.length - 1 → keys[i - 1]? = keys[i]?) → mid = keys.length / 2

theorem splitPoint_of_found {keys : List Key} (hn : 2 ≤ keys.length) {mid : Nat}
    (h : Found (fun i => keys[i]? ≠ keys[i - 1]?) keys.length (keys.length / 2) (keys.length / 2) mid) :
    SplitPoint keys mid := by
  rcases h with h | ⟨rfl, hnone⟩
  · refine ⟨h.pos, by have := h.lt; omega, fun i h1 h2 hi => ⟨h.holds.symm, ?_⟩, fun hall => ?_⟩
    · have := h.le i h1 (by omega) hi.symm
      omega
    · exact absurd (hall mid h.pos (by have := h.lt; omega)).symm h.holds
  · refine ⟨by omega, by omega, fun i h1 h2 hi => ?_, fun _ => rfl⟩
    exact absurd hi.symm (hnone i h1 (by omega))

/-- The search asks only for keys of the leaf. -/
theorem splitSearch_spec {keys : List Key} (hn : 2 ≤ keys.length) {keyAt : Nat → Option Key}
    (hkeys : ∀ i, i < keys.length → keyAt i = keys[i]?) :
    ∃ mid, splitSearch keyAt keys.length = some mid ∧
      Found (fun i => keys[i]? ≠ keys[i - 1]?) keys.length (keys.length / 2) (keys.length / 2) mid := by
  apply outward_spec
  · omega
  · omega
  · omega
  · intro i h1 hi
    have hprev : i - 1 < keys.length := by omega
    rw [hkeys i hi, hkeys (i - 1) hprev, List.getElem?_eq_getElem hi,
      List.getElem?_eq_getElem hprev]
    simp

/-- The keys of a leaf, as the search over its entries sees them. -/
theorem differs_iff (es : List (Key × RecordId)) (i : Nat) :
    Differs es i ↔ (es.map Prod.fst)[i]? ≠ (es.map Prod.fst)[i - 1]? := by
  rw [Differs, keyAt?, keyAt?, List.getElem?_map, List.getElem?_map]

theorem isFull_of_lt (h : LeafView p next es) (hlt : es.length < kLeafMaxKeys) : isFull p = false := by
  rw [isFull, h.isLeaf, if_pos rfl, h.keyCount]
  exact decide_eq_false (by omega)

/-- **The split point of a leaf.**  The search ends, whatever reading outside of the leaf would give;
it cuts the leaf between different keys nearest to its middle, the lower ones of two, or in its
middle if all keys are the same; and the halves are not full. -/
theorem split_point {keys : List Key} (hn : 2 ≤ keys.length) {keyAt : Nat → Option Key}
    (hkeys : ∀ i, i < keys.length → keyAt i = keys[i]?) :
    ∃ mid, splitSearch keyAt keys.length = some mid ∧ SplitPoint keys mid ∧
      ∀ (p : Page) (next : PageId) (es : List (Key × RecordId)) (newRightId : PageId),
        LeafView p next es → es.map Prod.fst = keys →
        findBoundary p keys.length (keys.length / 2) keys.length (keys.length / 2) (keys.length / 2)
          = some mid ∧
        ∃ s pl pr l r, splitLeaf p newRightId = some (s, pl, pr) ∧ l ++ r = es ∧ l.length = mid ∧
          LeafView pl newRightId l ∧ LeafView pr next r ∧ isFull pl = false ∧ isFull pr = false := by
  obtain ⟨mid, hmid, hfound⟩ := splitSearch_spec hn hkeys
  refine ⟨mid, hmid, splitPoint_of_found hn hfound, ?_⟩
  rintro p next es newRightId hp rfl
  have hlen : (es.map Prod.fst).length = es.length := List.length_map _
  rw [hlen] at hn hfound ⊢
  -- the split point is determined by the keys
  have hfound' : Found (Differs es) es.length (es.length / 2) (es.length / 2) mid := by
    have heq : Differs es = fun i => (es.map Prod.fst)[i]? ≠ (es.map Prod.fst)[i - 1]? :=
      funext fun i => propext (differs_iff es i)
    rwa [heq]
  obtain ⟨m, hm, hmfound⟩ := findBoundary_spec hp hn
  obtain rfl := hmfound.unique hfound'
  refine ⟨hm, ?_⟩
  obtain ⟨m', s, pl, pr, hm'found, hsplit, -, hl, hr⟩ := splitLeaf_at hp hn newRightId
  obtain rfl := hm'found.unique hfound'
  have hpos := pos_of_found hn hfound'
  have hcap := hp.length_le
  refine ⟨s, pl, pr, es.take m', es.drop m', hsplit, List.take_append_drop m' es, ?_, hl, hr,
    isFull_of_lt hl ?_, isFull_of_lt hr ?_⟩
  · rw [List.length_take_of_le hpos.2.le]
  · rw [List.length_take_of_le hpos.2.le]
    omega
  · rw [List.length_drop]
    omega

theorem split_point_threeKeys :
    ∃ mid, splitSearch (fun i => [1, 1, 2][i]?) 3 = some mid ∧ SplitPoint [1, 1, 2] mid := by
  obtain ⟨mid, hmid, hpoint, -⟩ := @split_point [1, 1, 2] (by decide) (fun i => [1, 1, 2][i]?)
    fun _ _ => rfl
  exact ⟨mid, hmid, hpoint⟩

end MiniDB.BPlusTree
