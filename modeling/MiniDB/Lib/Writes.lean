import Mathlib.Data.List.Induction
import Mathlib.Logic.Function.Basic

/-!
# Lists of writes

A list of writes to places `i : I`, done one after the other on contents `d : I → P`.  A place holds
the `last` thing written to it, or what it held before (`apply_eq`).  Writes that are all repeated
later might as well not have been done (`apply_apply`).
-/

namespace MiniDB.Writes

variable {I P : Type} [DecidableEq I]

/-- The contents after the writes. -/
def apply (ws : List (I × P)) (d : I → P) : I → P :=
  ws.foldl (fun d w => Function.update d w.1 w.2) d

/-- The last thing written to a place. -/
def last (ws : List (I × P)) (i : I) : Option P :=
  (ws.reverse.find? fun w => w.1 = i).map Prod.snd

theorem last_append (vs ws : List (I × P)) (i : I) :
    last (vs ++ ws) i = (last ws i).or (last vs i) := by
  rw [last, last, last, List.reverse_append, List.find?_append, Option.map_or]

theorem last_singleton (w : I × P) (i : I) : last [w] i = if w.1 = i then some w.2 else none := by
  by_cases h : w.1 = i <;> simp [last, h]

theorem apply_append (vs ws : List (I × P)) (d : I → P) :
    apply (vs ++ ws) d = apply ws (apply vs d) := List.foldl_append

/-- A place holds what was written to it last. -/
theorem apply_eq (ws : List (I × P)) (d : I → P) (i : I) :
    apply ws d i = (last ws i).getD (d i) := by
  induction ws using List.reverseRecOn with
  | nil => rfl
  | append_singleton ws w ih =>
    rw [apply_append, last_append, last_singleton]
    show Function.update (apply ws d) w.1 w.2 i = _
    by_cases h : w.1 = i
    · rw [if_pos h, ← h, Function.update_self]
      rfl
    · rw [if_neg h, Function.update_of_ne (Ne.symm h), ih]
      rfl

/-- A place is written to or not. -/
theorem last_isSome (ws : List (I × P)) (i : I) : (last ws i).isSome ↔ i ∈ ws.map Prod.fst := by
  simp [last, List.find?_isSome]

/-- Writes to places that are all written to again. -/
theorem apply_apply {vs ws : List (I × P)} (h : vs.map Prod.fst ⊆ ws.map Prod.fst) (d : I → P) :
    apply ws (apply vs d) = apply ws d := by
  funext i
  rw [apply_eq, apply_eq, apply_eq]
  by_cases hi : i ∈ ws.map Prod.fst
  · obtain ⟨p, hp⟩ := Option.isSome_iff_exists.mp ((last_isSome ws i).mpr hi)
    rw [hp]
    rfl
  · have hvs : last vs i = none := by
      rw [← Option.not_isSome_iff_eq_none, last_isSome]
      exact fun hv => hi (h hv)
    rw [hvs]
    rfl

end MiniDB.Writes
