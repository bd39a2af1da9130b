import Mathlib.Data.List.InsertIdx

/-!
# Arrays of cells inside a container

A record of fixed-size cells stored in some container, such as a page, is given by its checked
accesses (`CellArray`).  The loops that open a gap, close one and copy a range are written once over
these accesses; `Lawful` says which indices are inside the container and that the cells do not
overlap, and the three specifications say what the loops do to the cells read as a list
(`insertAt_spec`, `shiftDown_spec`, `copy_spec`).  `Writes` records that nothing but cells of the array
was written, so that a caller learns at once that the rest of the container is unchanged.
-/

namespace MiniDB.Cells

theorem insertIdx_length {α : Type} (l r : List α) (a : α) :
    (l ++ r).insertIdx l.length a = l ++ a :: r := by
  induction l with
  | nil => rfl
  | cons x l ih =>
    rw [List.cons_append, List.length_cons, List.insertIdx_succ_cons, ih, List.cons_append]

/-- Checked reads and writes of the cells of a container. -/
structure CellArray (P α : Type) where
  get? : P → Nat → Option α
  set? : P → Nat → α → Option P

namespace CellArray

variable {P α : Type} (c : CellArray P α)

/-- `for (j = n; j > i; --j) set(j, get(j - 1))`. -/
def shiftUp (p : P) (i : Nat) : Nat → Option P
  | 0 => some p
  | j + 1 =>
    if j + 1 > i then do
      let a ← c.get? p j
      let p ← c.set? p (j + 1) a
      shiftUp p i j
    else some p

/-- A gap at cell `i` of the first `n` cells, filled by `a`. -/
def insertAt (p : P) (i n : Nat) (a : α) : Option P := do
  let p ← c.shiftUp p i n
  c.set? p i a

/-- `for (; j + 1 < n; ++j) set(j, get(j + 1))`, in at most `fuel` rounds. -/
def shiftDown (p : P) (n : Nat) : Nat → Nat → Option P
  | 0, _ => some p
  | fuel + 1, j =>
    if j + 1 < n then do
      let a ← c.get? p (j + 1)
      let p ← c.set? p j a
      shiftDown p n fuel (j + 1)
    else some p

/-- `for (; j < m; ++j) dst.set(j, src.get(start + j))`, with `n` rounds to go. -/
def copy (src : P) (start : Nat) (dst : P) : Nat → Nat → Option P
  | 0, _ => some dst
  | n + 1, j => do
    let a ← c.get? src (start + j)
    let dst ← c.set? dst j a
    copy src start dst n (j + 1)

end CellArray

/-- The accesses below `cap` stay inside the container, and the cells do not overlap. -/
structure Lawful {P α : Type} (c : CellArray P α) (cap : Nat) where
  get : P → Nat → α
  set : P → Nat → α → P
  get?_eq : ∀ p i, i < cap → c.get? p i = some (get p i)
  set?_eq : ∀ p i a, i < cap → c.set? p i a = some (set p i a)
  get_set : ∀ p i a j, i < cap → j < cap → get (set p i a) j = if j = i then a else get p j

namespace Lawful

variable {P α : Type} {c : CellArray P α} {cap : Nat} (h : Lawful c cap) {p q : P} {n m : Nat}

/-- `q` is `p` with some cells rewritten. -/
inductive Writes (p : P) : P → Prop
  | refl : Writes p p
  | set {q : P} {i : Nat} {a : α} : Writes p q → i < cap → Writes p (h.set q i a)

/-- What no write of a cell changes, no sequence of writes changes. -/
theorem Writes.keep {β : Type} {f : P → β} (hf : ∀ p i a, i < cap → f (h.set p i a) = f p)
    (hw : h.Writes p q) : f q = f p := by
  induction hw with
  | refl => rfl
  | set _ hi ih => rw [hf _ _ _ hi, ih]

theorem Writes.trans {r : P} (h1 : h.Writes p q) (h2 : h.Writes q r) : h.Writes p r := by
  induction h2 with
  | refl => exact h1
  | set _ hi ih => exact ih.set hi

/-- The first `n` cells. -/
def toList (p : P) (n : Nat) : List α := (List.range n).map (h.get p)

@[simp] theorem length_toList (p : P) (n : Nat) : (h.toList p n).length = n := by
  simp [toList]

theorem getElem?_toList (p : P) (n i : Nat) :
    (h.toList p n)[i]? = if i < n then some (h.get p i) else none := by
  unfold toList
  rw [List.getElem?_map]
  split_ifs with hi
  · rw [List.getElem?_range hi]
    rfl
  · rw [List.getElem?_eq_none (by simpa using hi)]
    rfl

theorem take_toList (p : P) (hm : m ≤ n) : (h.toList p n).take m = h.toList p m := by
  rw [toList, ← List.map_take, List.take_range, Nat.min_eq_left hm, toList]

theorem toList_congr (hpq : ∀ i, i < n → h.get p i = h.get q i) : h.toList p n = h.toList q n := by
  apply List.map_congr_left
  intro i hi
  exact hpq i (List.mem_range.mp hi)

/-- The first cells, read one after the other. -/
theorem mapM_get? (p : P) (hn : n ≤ cap) : (List.range n).mapM (c.get? p) = some (h.toList p n) := by
  suffices hgen : ∀ is : List Nat, (∀ i ∈ is, i < cap) →
      is.mapM (c.get? p) = some (is.map (h.get p)) from
    hgen _ fun i hi => Nat.lt_of_lt_of_le (List.mem_range.mp hi) hn
  intro is his
  induction is with
  | nil => rfl
  | cons i is ih =>
    obtain ⟨hi, hrest⟩ := List.forall_mem_cons.mp his
    rw [List.mapM_cons, h.get?_eq p i hi, ih hrest]
    rfl

/-- Opening a gap: cell `j` above `i` holds what cell `j - 1` held. -/
theorem shiftUp_spec (p : P) (i : Nat) (hn : n < cap) :
    ∃ q, c.shiftUp p i n = some q ∧ h.Writes p q ∧
      ∀ j, j < cap → h.get q j = if i < j ∧ j ≤ n then h.get p (j - 1) else h.get p j := by
  induction n generalizing p with
  | zero =>
    refine ⟨p, rfl, .refl, fun j _ => ?_⟩
    rw [if_neg (by omega)]
  | succ n ih =>
    rw [CellArray.shiftUp]
    by_cases hi : n + 1 > i
    · obtain ⟨q, hq, hw, hget⟩ := ih (h.set p (n + 1) (h.get p n)) (by omega)
      rw [if_pos hi, h.get?_eq p n (by omega)]
      refine ⟨q, ?_, Writes.trans h (.set .refl hn) hw, fun j hj => ?_⟩
      · simp only [Option.bind_eq_bind, Option.bind_some, h.set?_eq p (n + 1) _ hn]
        exact hq
      · -- cells up to `n` come from the recursive call, cell `n + 1` from this round
        rw [hget j hj]
        by_cases hjn : i < j ∧ j ≤ n
        · rw [if_pos hjn, if_pos (by omega), h.get_set _ _ _ _ hn (by omega), if_neg (by omega)]
        · rw [if_neg hjn, h.get_set _ _ _ _ hn hj]
          by_cases hj1 : j = n + 1
          · rw [if_pos hj1, if_pos (by omega), hj1, Nat.add_sub_cancel]
          · rw [if_neg hj1, if_neg (by omega)]
    · refine ⟨p, if_neg hi, .refl, fun j _ => ?_⟩
      rw [if_neg (by omega)]

/-- Opening a gap at `i` and writing `a` there inserts `a`. -/
theorem insertAt_spec (p : P) {i : Nat} (a : α) (hi : i ≤ n) (hn : n < cap) :
    ∃ q, c.insertAt p i n a = some q ∧ h.Writes p q ∧
      h.toList q (n + 1) = (h.toList p n).insertIdx i a := by
  obtain ⟨q, hq, hw, hget⟩ := h.shiftUp_spec p i hn
  refine ⟨h.set q i a, ?_, .set hw (by omega), ?_⟩
  · rw [CellArray.insertAt, hq]
    exact h.set?_eq q i a (by omega)
  · apply List.ext_getElem?
    intro j
    rw [List.getElem?_insertIdx, getElem?_toList, getElem?_toList, getElem?_toList, length_toList]
    by_cases hj : j < n + 1
    · rw [if_pos hj, h.get_set _ _ _ _ (by omega) (by omega), hget j (by omega)]
      rcases Nat.lt_trichotomy j i with hlt | rfl | hgt
      · rw [if_neg (by omega), if_neg (by omega), if_pos hlt, if_pos (by omega)]
      · rw [if_pos rfl, if_neg (by omega), if_pos rfl, if_pos (by omega)]
      · rw [if_neg (by omega), if_pos (by omega), if_neg (by omega), if_neg (by omega),
          if_pos (by omega)]
    · rw [if_neg hj, if_neg (by omega), if_neg (by omega), if_neg (by omega)]

/-- Closing the gap at `i` removes cell `i`. -/
theorem shiftDown_spec (p : P) (hn : n ≤ cap) :
    ∀ (fuel i : Nat), n ≤ i + fuel → i < n → ∃ q, c.shiftDown p n fuel i = some q ∧
      h.Writes p q ∧ h.toList q (n - 1) = (h.toList p n).eraseIdx i := by
  suffices hgen : ∀ (fuel i : Nat) (p : P), n ≤ i + fuel → i < n →
      ∃ q, c.shiftDown p n fuel i = some q ∧ h.Writes p q ∧
        ∀ j, j < cap → h.get q j = if i ≤ j ∧ j + 1 < n then h.get p (j + 1) else h.get p j by
    intro fuel i hfuel hi
    obtain ⟨q, hq, hw, hget⟩ := hgen fuel i p hfuel hi
    refine ⟨q, hq, hw, List.ext_getElem? fun j => ?_⟩
    rw [List.getElem?_eraseIdx, getElem?_toList, getElem?_toList, getElem?_toList]
    by_cases hj : j < n - 1
    · rw [if_pos hj, hget j (by omega)]
      by_cases hji : j < i
      · rw [if_neg (show ¬ (i ≤ j ∧ j + 1 < n) by omega), if_pos hji,
          if_pos (show j < n by omega)]
      · rw [if_pos (show i ≤ j ∧ j + 1 < n by omega), if_neg hji,
          if_pos (show j + 1 < n by omega)]
    · rw [if_neg hj]
      by_cases hji : j < i
      · omega
      · rw [if_neg hji, if_neg (by omega)]
  intro fuel
  induction fuel with
  | zero => intro i p hfuel hi; omega
  | succ fuel ih =>
    intro i p hfuel hi
    rw [CellArray.shiftDown]
    by_cases hlast : i + 1 < n
    · obtain ⟨q, hq, hw, hget⟩ := ih (i + 1) (h.set p i (h.get p (i + 1))) (by omega) hlast
      rw [if_pos hlast, h.get?_eq p (i + 1) (by omega)]
      refine ⟨q, ?_, Writes.trans h (.set .refl (by omega)) hw, fun j hj => ?_⟩
      · simp only [Option.bind_eq_bind, Option.bind_some, h.set?_eq p i _ (show i < cap by omega)]
        exact hq
      · rw [hget j hj]
        by_cases hji : i + 1 ≤ j ∧ j + 1 < n
        · rw [if_pos hji, if_pos (by omega), h.get_set _ _ _ _ (by omega) (by omega),
            if_neg (by omega)]
        · rw [if_neg hji, h.get_set _ _ _ _ (by omega) hj]
          by_cases hj1 : j = i
          · rw [if_pos hj1, if_pos (by omega), hj1]
          · rw [if_neg hj1, if_neg (by omega)]
    · refine ⟨p, if_neg hlast, .refl, fun j _ => ?_⟩
      rw [if_neg (by omega)]

/-- Copying a range of cells of `src` to the start of `dst`. -/
theorem copy_spec (src : P) (start : Nat) (dst : P) (hm : start + m ≤ cap) :
    ∃ q, c.copy src start dst m 0 = some q ∧ h.Writes dst q ∧
      h.toList q m = (h.toList src (start + m)).drop start := by
  suffices hgen : ∀ (n j : Nat) (dst : P), j + n = m →
      ∃ q, c.copy src start dst n j = some q ∧ h.Writes dst q ∧
        ∀ i, i < m → h.get q i = if j ≤ i then h.get src (start + i) else h.get dst i by
    obtain ⟨q, hq, hw, hget⟩ := hgen m 0 dst (by omega)
    refine ⟨q, hq, hw, List.ext_getElem? fun i => ?_⟩
    rw [List.getElem?_drop, getElem?_toList, getElem?_toList]
    by_cases hi : i < m
    · rw [if_pos hi, if_pos (by omega), hget i hi, if_pos (by omega)]
    · rw [if_neg hi, if_neg (by omega)]
  intro n
  induction n with
  | zero =>
    intro j dst hj
    refine ⟨dst, rfl, .refl, fun i hi => ?_⟩
    rw [if_neg (by omega)]
  | succ n ih =>
    intro j dst hj
    obtain ⟨q, hq, hw, hget⟩ := ih (j + 1) (h.set dst j (h.get src (start + j))) (by omega)
    refine ⟨q, ?_, Writes.trans h (.set .refl (by omega)) hw, fun i hi => ?_⟩
    · rw [CellArray.copy, h.get?_eq src (start + j) (by omega)]
      simp only [Option.bind_eq_bind, Option.bind_some, h.set?_eq dst j _ (show j < cap by omega)]
      exact hq
    · rw [hget i hi]
      by_cases hij : j + 1 ≤ i
      · rw [if_pos hij, if_pos (by omega)]
      · rw [if_neg hij, h.get_set _ _ _ _ (by omega) (by omega)]
        by_cases hi1 : i = j
        · rw [if_pos hi1, if_pos (by omega), hi1]
        · rw [if_neg hi1, if_neg (by omega)]

end Lawful

end MiniDB.Cells
