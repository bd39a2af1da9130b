import Mathlib.Data.List.Basic

/-!
# Cutting a sequence of frames

A file of frames written one after the other, cut at an arbitrary position: the elements whose frames
are `whole`, followed by the `torn` beginning of the next frame (`take_flatMap`).
-/

namespace MiniDB.Framing

variable {α β : Type} {frame : α → List β}

/-- The elements whose frames lie within the first `n` positions. -/
def whole (frame : α → List β) : List α → Nat → List α
  | [], _ => []
  | a :: as, n =>
    if (frame a).length ≤ n then a :: whole frame as (n - (frame a).length) else []

/-- What a cut at position `n` leaves of the frame it falls into. -/
def torn (frame : α → List β) : List α → Nat → List β
  | [], _ => []
  | a :: as, n =>
    if (frame a).length ≤ n then torn frame as (n - (frame a).length) else (frame a).take n

/-- What a cut leaves: whole frames and a torn one. -/
theorem take_flatMap (as : List α) (n : Nat) :
    (as.flatMap frame).take n = (whole frame as n).flatMap frame ++ torn frame as n := by
  induction as generalizing n with
  | nil => rw [whole, torn, List.flatMap_nil, List.take_nil, List.append_nil]
  | cons a as ih =>
    rw [whole, torn, List.flatMap_cons, List.take_append]
    split_ifs with h
    · rw [List.take_of_length_le h, ih, List.flatMap_cons, List.append_assoc]
    · rw [Nat.sub_eq_zero_of_le (by omega), List.take_zero, List.append_nil, List.flatMap_nil,
        List.nil_append]

/-- The whole frames are the first ones; the next element, if the cut tears its frame. -/
theorem torn_cases (frame : α → List β) (as : List α) (n : Nat) :
    (∃ rest, as = whole frame as n ++ rest ∧ torn frame as n = []) ∨
      ∃ a rest k, as = whole frame as n ++ a :: rest ∧ 0 < k ∧ k < (frame a).length ∧
        torn frame as n = (frame a).take k := by
  induction as generalizing n with
  | nil => exact .inl ⟨[], rfl, rfl⟩
  | cons a as ih =>
    rw [whole, torn]
    split_ifs with h
    · rcases ih (n - (frame a).length) with ⟨rest, has, htorn⟩ | ⟨b, rest, k, has, hk⟩
      · exact .inl ⟨rest, by rw [List.cons_append, ← has], htorn⟩
      · exact .inr ⟨b, rest, k, by rw [List.cons_append, ← has], hk⟩
    · by_cases h0 : n = 0
      · exact .inl ⟨a :: as, rfl, by rw [h0, List.take_zero]⟩
      · exact .inr ⟨a, as, n, rfl, by omega, by omega, rfl⟩

theorem exists_append_whole (frame : α → List β) (as : List α) (n : Nat) :
    ∃ rest, as = whole frame as n ++ rest := by
  rcases torn_cases frame as n with ⟨rest, has, -⟩ | ⟨a, rest, k, has, -⟩
  · exact ⟨rest, has⟩
  · exact ⟨a :: rest, has⟩

end MiniDB.Framing
