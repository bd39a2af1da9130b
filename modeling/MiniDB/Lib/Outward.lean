import Mathlib.Data.Nat.Dist

/-!
# Searching outwards

A search for a position with some property, from the middle of a sequence outwards: one cursor moves
up, the other one down, and each round looks at the upper one first.  The positions are those with a
neighbour on both sides of a cut, `1, …, n - 1`.

`outward_spec`: the search finds the position nearest to the middle, the lower one of two, and
looks at no position outside of `1, …, n - 1`.
-/

namespace MiniDB.Outward

/-- The search; `test` may fail, and `none` is also the answer of a search that is out of rounds. -/
def outward (test : Nat → Option Bool) (n otherwise : Nat) : Nat → Nat → Nat → Option Nat
  | 0, _, _ => none
  | rounds + 1, left, right =>
    if left > 1 ∨ right < n then do
      if ← (if right < n then test right else some false) then
        return right
      if ← (if left > 1 then test (left - 1) else some false) then
        return left - 1
      outward test n otherwise rounds (if left > 1 then left - 1 else left)
        (if right < n then right + 1 else right)
    else some otherwise

/-- `m` is the position with `P` that is nearest to `c`, the lower one of two. -/
structure Nearest (P : Nat → Prop) (n c m : Nat) : Prop where
  pos : 1 ≤ m
  lt : m < n
  holds : P m
  le : ∀ i, 1 ≤ i → i < n → P i → m.dist c < i.dist c ∨ m.dist c = i.dist c ∧ m ≤ i

/-- What a search from `c` is to find. -/
def Found (P : Nat → Prop) (n c otherwise m : Nat) : Prop :=
  Nearest P n c m ∨ m = otherwise ∧ ∀ i, 1 ≤ i → i < n → ¬ P i

theorem Found.unique {P : Nat → Prop} {n c otherwise m m' : Nat} (h : Found P n c otherwise m)
    (h' : Found P n c otherwise m') : m = m' := by
  rcases h with h | ⟨rfl, hnone⟩ <;> rcases h' with h' | ⟨rfl, hnone'⟩
  · have := h.le m' h'.pos h'.lt h'.holds
    have := h'.le m h.pos h.lt h.holds
    omega
  · exact absurd h.holds (hnone' m h.pos h.lt)
  · exact absurd h'.holds (hnone m' h'.pos h'.lt)
  · rfl

/-- The cursors after some rounds without success: everything between them was looked at. -/
structure Passed (P : Nat → Prop) (n c left right : Nat) : Prop where
  left_eq : ∃ k, left = max 1 (c - k) ∧ right = min n (c + k)
  nothing : ∀ i, left ≤ i → i < right → ¬ P i

variable {P : Nat → Prop} {n c left right : Nat} {test : Nat → Option Bool}

theorem Passed.start (hc : 1 ≤ c) (hcn : c ≤ n) : Passed P n c c c where
  left_eq := ⟨0, by omega, by omega⟩
  nothing := fun i h1 h2 => by omega

/-- The upper cursor is at a position with the property. -/
theorem Passed.found_right (h : Passed P n c left right) (hc : 1 ≤ c) (hr : right < n)
    (hP : P right) : Nearest P n c right := by
  obtain ⟨k, hl, hreq⟩ := h.left_eq
  refine ⟨by omega, hr, hP, fun i h1 h2 hi => ?_⟩
  have hout : i < left ∨ right ≤ i := by
    by_contra hin
    exact h.nothing i (by omega) (by omega) hi
  unfold Nat.dist
  omega

/-- The lower cursor is next to a position with the property, the upper one is not at one. -/
theorem Passed.found_left (h : Passed P n c left right) (hcn : c ≤ n)
    (hright : right < n → ¬ P right) (hl1 : left > 1) (hP : P (left - 1)) :
    Nearest P n c (left - 1) := by
  obtain ⟨k, hl, hreq⟩ := h.left_eq
  refine ⟨by omega, by omega, hP, fun i h1 h2 hi => ?_⟩
  have hout : i < left ∨ right < i := by
    by_contra hin
    by_cases heq : i = right
    · exact hright (by omega) (heq ▸ hi)
    · exact h.nothing i (by omega) (by omega) hi
  unfold Nat.dist
  omega

/-- A round without success. -/
theorem Passed.next (h : Passed P n c left right) (hright : right < n → ¬ P right)
    (hleft : left > 1 → ¬ P (left - 1)) :
    Passed P n c (if left > 1 then left - 1 else left) (if right < n then right + 1 else right) := by
  obtain ⟨k, hl, hreq⟩ := h.left_eq
  refine ⟨⟨k + 1, by split_ifs <;> omega, by split_ifs <;> omega⟩, fun i h1 h2 => ?_⟩
  by_cases hin : left ≤ i ∧ i < right
  · exact h.nothing i hin.1 hin.2
  · by_cases hil : i < left
    · have hi : left > 1 ∧ i = left - 1 := by split_ifs at h1 <;> omega
      rw [hi.2]
      exact hleft hi.1
    · have hi : right < n ∧ i = right := by split_ifs at h2 <;> omega
      rw [hi.2]
      exact hright hi.1

/-- The search from cursors that have passed everything between them. -/
theorem outward_of_passed [DecidablePred P] (otherwise : Nat) (hc : 1 ≤ c) (hcn : c ≤ n)
    (htest : ∀ i, 1 ≤ i → i < n → test i = some (decide (P i))) :
    ∀ rounds left right, Passed P n c left right → (n - right) + (left - 1) < rounds →
      ∃ m, outward test n otherwise rounds left right = some m ∧ Found P n c otherwise m := by
  intro rounds
  induction rounds with
  | zero =>
    intro left right _ hrounds
    omega
  | succ rounds ih =>
    intro left right h hrounds
    obtain ⟨k, hl, hreq⟩ := h.left_eq
    rw [outward]
    by_cases hgo : left > 1 ∨ right < n
    · rw [if_pos hgo]
      have hR : (if right < n then test right else some false)
          = some (decide (right < n ∧ P right)) := by
        split_ifs with hrn
        · rw [htest right (by omega) hrn]
          simp [hrn]
        · simp [hrn]
      have hL : (if left > 1 then test (left - 1) else some false)
          = some (decide (left > 1 ∧ P (left - 1))) := by
        split_ifs with hl1
        · rw [htest (left - 1) (by omega) (by omega)]
          simp [hl1]
        · simp [hl1]
      rw [hR, hL]
      by_cases hright : right < n ∧ P right
      · refine ⟨right, ?_, .inl (h.found_right hc hright.1 hright.2)⟩
        rw [decide_eq_true hright]
        rfl
      · have hright' : right < n → ¬ P right := fun hlt hP => hright ⟨hlt, hP⟩
        rw [decide_eq_false hright]
        by_cases hleft : left > 1 ∧ P (left - 1)
        · refine ⟨left - 1, ?_, .inl (h.found_left hcn hright' hleft.1 hleft.2)⟩
          rw [decide_eq_true hleft]
          rfl
        · rw [decide_eq_false hleft]
          -- neither cursor is at such a position: both move outwards
          apply ih _ _ (h.next hright' fun hlt hP => hleft ⟨hlt, hP⟩)
          split_ifs <;> omega
    · rw [if_neg hgo]
      exact ⟨otherwise, rfl, .inr ⟨rfl, fun i h1 h2 => h.nothing i (by omega) (by omega)⟩⟩

/-- **The search finds the nearest position**, and looks only at positions between `1` and `n - 1`:
nothing is asked of `test` elsewhere. -/
theorem outward_spec [DecidablePred P] (otherwise : Nat) {rounds : Nat} (hc : 1 ≤ c) (hcn : c ≤ n)
    (hrounds : n - 1 < rounds) (htest : ∀ i, 1 ≤ i → i < n → test i = some (decide (P i))) :
    ∃ m, outward test n otherwise rounds c c = some m ∧ Found P n c otherwise m :=
  outward_of_passed otherwise hc hcn htest rounds c c (.start hc hcn) (by omega)

end MiniDB.Outward
