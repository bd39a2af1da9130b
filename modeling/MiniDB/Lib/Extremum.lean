import Mathlib.Data.List.Basic
import Mathlib.Data.List.Induction

/-!
# Running extrema

A loop that keeps the best element it has seen: a new one replaces it only if it comes strictly
before it.  `running_isBest` says what is left at the end, for a relation that need not be an order:
it is enough that what comes before an element comes after nothing that the element does not come
after.
-/

namespace MiniDB.Extremum

variable {α : Type} (before : α → α → Bool)

/-- One round of the loop. -/
def keep : Option α → α → Option α
  | none, v => some v
  | some m, v => if before v m then some v else some m

/-- The whole loop. -/
def running (l : List α) : Option α := l.foldl (keep before) none

/-- The element is one of the list, and none comes before it. -/
def IsBest (l : List α) (m : α) : Prop := m ∈ l ∧ ∀ u ∈ l, before u m = false

variable {before} {l : List α} {m v : α}

theorem running_concat (l : List α) (v : α) :
    running before (l ++ [v]) = keep before (running before l) v := by
  rw [running, List.foldl_append]
  rfl

theorem keep_ne_none (best : Option α) (v : α) : keep before best v ≠ none := by
  cases best with
  | none => exact Option.some_ne_none v
  | some m =>
    rw [keep]
    split_ifs <;> exact Option.some_ne_none _

theorem running_eq_none : running before l = none ↔ l = [] := by
  induction l using List.reverseRecOn with
  | nil => exact ⟨fun _ => rfl, fun _ => rfl⟩
  | append_singleton l v _ =>
    rw [running_concat]
    exact ⟨fun h => absurd h (keep_ne_none _ v), fun h => absurd h (by simp)⟩

/-- One round keeps the best element. -/
theorem IsBest.keep (h : IsBest before l m) (hirrefl : before v v = false)
    (htrans : ∀ u ∈ l, before v m = true → before u m = false → before u v = false) {m' : α}
    (hkeep : Extremum.keep before (some m) v = some m') : IsBest before (l ++ [v]) m' := by
  obtain ⟨hmem, hbest⟩ := h
  rw [Extremum.keep] at hkeep
  split_ifs at hkeep with hv
  · obtain rfl := Option.some.inj hkeep
    refine ⟨by simp, fun u hu => ?_⟩
    rcases List.mem_append.mp hu with hu | hu
    · exact htrans u hu hv (hbest u hu)
    · rwa [List.mem_singleton.mp hu]
  · obtain rfl := Option.some.inj hkeep
    refine ⟨List.mem_append_left _ hmem, fun u hu => ?_⟩
    rcases List.mem_append.mp hu with hu | hu
    · exact hbest u hu
    · rw [List.mem_singleton.mp hu]
      exact Bool.eq_false_iff.mpr hv

/-- **What the loop is left with**: an element of the list that no other comes before. -/
theorem running_isBest (hirrefl : ∀ a ∈ l, before a a = false)
    (htrans : ∀ a ∈ l, ∀ b ∈ l, ∀ c ∈ l, before a b = true → before c b = false →
      before c a = false)
    (h : running before l = some m) : IsBest before l m := by
  induction l using List.reverseRecOn generalizing m with
  | nil => cases h
  | append_singleton l v ih =>
    have hleft : ∀ a ∈ l, a ∈ l ++ [v] := fun a ha => List.mem_append_left _ ha
    have hlast : v ∈ l ++ [v] := List.mem_append_right _ (List.mem_singleton_self v)
    rw [running_concat] at h
    cases hprev : running before l with
    | none =>
      -- the element is the first one
      rw [hprev] at h
      obtain rfl := Option.some.inj h
      obtain rfl := running_eq_none.mp hprev
      exact ⟨hlast, fun u hu => by rw [List.mem_singleton.mp hu]; exact hirrefl v hlast⟩
    | some m' =>
      rw [hprev] at h
      have hbest := ih (fun a ha => hirrefl a (hleft a ha))
        (fun a ha b hb c hc => htrans a (hleft a ha) b (hleft b hb) c (hleft c hc)) hprev
      exact hbest.keep (hirrefl v hlast)
        (fun u hu => htrans v hlast m' (hleft m' hbest.1) u (hleft u hu)) h

end MiniDB.Extremum
