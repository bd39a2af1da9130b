import Mathlib.Data.List.Chain
import Mathlib.Data.List.Nodup
import Mathlib.Data.List.TakeWhile
import Mathlib.Logic.Function.Basic
import Mathlib.Logic.Relation

/-!
# Depth-first search with three colors

A depth-first search for a cycle colors a vertex gray when it enters it and black when it leaves it.
`Coloring` is what holds at any time between: the gray vertices are the path from the root to the
vertex visited last, and no cycle can be reached from a black one.  The search may enter a white
vertex that the path leads to (`Coloring.enter`) and leave the last vertex when everything it leads to
is black (`Coloring.leave`); an edge back to a gray vertex closes a cycle (`Coloring.cycle`).
-/

namespace MiniDB.ThreeColors

open Relation

/-- The state of a vertex: not entered, entered, left. -/
inductive Color
  | white
  | gray
  | black
  deriving DecidableEq, Repr

variable {V : Type} {E : V → V → Prop}

/-- Different vertices, at least one, each with an edge to the next and the last with an edge to the
first. -/
structure IsCycle (E : V → V → Prop) (c : List V) : Prop where
  ne : c ≠ []
  nodup : c.Nodup
  chain : c.IsChain E
  closes : E (c.getLast ne) (c.head ne)

/-- The vertices along a chain follow its first one. -/
theorem transGen_of_isChain {u w : V} {c : List V} (hc : (u :: c).IsChain E) (hw : w ∈ c) :
    TransGen E u w := by
  induction c generalizing u with
  | nil => cases hw
  | cons v c ih =>
    rw [List.isChain_cons_cons] at hc
    rcases List.mem_cons.mp hw with rfl | hw
    · exact .single hc.1
    · exact .head hc.1 (ih hc.2 hw)

/-- A cycle leads back to its first vertex. -/
theorem IsCycle.transGen {c : List V} (h : IsCycle E c) : ∃ v, TransGen E v v := by
  obtain ⟨v, rest, rfl⟩ := List.exists_cons_of_ne_nil h.ne
  have hclose : E ((v :: rest).getLast h.ne) v := h.closes
  rcases List.mem_cons.mp (List.getLast_mem h.ne) with hlast | hlast
  · rw [hlast] at hclose
    exact ⟨v, .single hclose⟩
  · exact ⟨v, (transGen_of_isChain h.chain hlast).tail hclose⟩

/-- The colors in a search, and the path from its root to the vertex visited last. -/
structure Coloring (E : V → V → Prop) (color : V → Color) (path : List V) : Prop where
  gray : ∀ v, color v = .gray ↔ v ∈ path
  nodup : path.Nodup
  chain : path.IsChain E
  closed : ∀ u v, color u = .black → E u v → color v = .black
  acyclic : ∀ v, color v = .black → ¬ TransGen E v v

/-- Before the search no vertex has been entered. -/
theorem Coloring.start : Coloring E (fun _ => .white) [] where
  gray := fun v => by simp
  nodup := List.nodup_nil
  chain := List.IsChain.nil
  closed := fun _ _ h => by cases h
  acyclic := fun _ h => by cases h

variable {color : V → Color} {path : List V} {u v w : V}

theorem Coloring.black_of_transGen (h : Coloring E color path) (hu : color u = .black)
    (huv : TransGen E u v) : color v = .black := by
  induction huv with
  | single huv => exact h.closed _ _ hu huv
  | tail _ hvw ih => exact h.closed _ _ ih hvw

/-- If everything with an edge is black, there is no cycle. -/
theorem Coloring.acyclic_of_black (h : Coloring E color path)
    (hblack : ∀ u v, E u v → color u = .black) : ¬ ∃ v, TransGen E v v := by
  rintro ⟨v, hv⟩
  obtain ⟨w, hvw, -⟩ := TransGen.head'_iff.mp hv
  exact h.acyclic v (hblack v w hvw) hv

variable [DecidableEq V]

/-- A white vertex that the path leads to is entered. -/
theorem Coloring.enter (h : Coloring E color path) (hv : color v = .white)
    (hlast : ∀ u ∈ path.getLast?, E u v) :
    Coloring E (Function.update color v .gray) (path ++ [v]) where
  gray := by
    intro u
    rw [List.mem_append, List.mem_singleton, ← h.gray u, Function.update_apply]
    split_ifs with huv <;> simp [huv]
  nodup := by
    refine h.nodup.append (List.nodup_singleton v) ?_
    rw [List.disjoint_singleton]
    intro hmem
    rw [← h.gray v, hv] at hmem
    cases hmem
  chain := by
    refine h.chain.append (List.isChain_singleton v) fun u hu w hw => ?_
    obtain rfl : v = w := by simpa using hw
    exact hlast u hu
  closed := by
    intro u w hu huw
    rw [Function.update_apply] at hu
    split_ifs at hu with huv
    -- a black vertex leads to no white one
    have hw := h.closed u w hu huw
    rw [Function.update_of_ne, hw]
    rintro rfl
    rw [hv] at hw
    cases hw
  acyclic := by
    intro u hu
    rw [Function.update_apply] at hu
    split_ifs at hu
    exact h.acyclic u hu

/-- The last vertex of the path is left when it leads to black ones only. -/
theorem Coloring.leave (h : Coloring E color (path ++ [v])) (hnext : ∀ w, E v w → color w = .black) :
    Coloring E (Function.update color v .black) path := by
  have hv : color v = .gray := (h.gray v).mpr (List.mem_append_right _ (List.mem_singleton_self v))
  have hnot : v ∉ path := fun hmem =>
    List.disjoint_of_nodup_append h.nodup hmem (List.mem_singleton_self v)
  -- a cycle through `v` would make `v` black
  have hv_acyclic : ¬ TransGen E v v := by
    intro hcycle
    obtain ⟨w, hvw, hwv⟩ := TransGen.head'_iff.mp hcycle
    have hw := hnext w hvw
    have hblack : color v = .black := by
      rcases reflTransGen_iff_eq_or_transGen.mp hwv with rfl | hwv
      · exact hw
      · exact h.black_of_transGen hw hwv
    rw [hv] at hblack
    cases hblack
  refine ⟨fun u => ?_, h.nodup.of_append_left, h.chain.left_of_append, fun u w hu huw => ?_,
    fun u hu => ?_⟩
  · rw [Function.update_apply]
    split_ifs with huv
    · subst huv
      simp [hnot]
    · rw [h.gray u, List.mem_append, List.mem_singleton]
      simp [huv]
  · rw [Function.update_apply] at hu
    have hw : color w = .black := by
      split_ifs at hu with huv
      · exact hnext w (huv ▸ huw)
      · exact h.closed u w hu huw
    rw [Function.update_apply, hw, ite_self]
  · rw [Function.update_apply] at hu
    split_ifs at hu with huv
    · exact huv ▸ hv_acyclic
    · exact h.acyclic u hu

/-- An edge from the last vertex back to the path closes a cycle: the path from there on. -/
theorem Coloring.cycle (h : Coloring E color path) (hlast : path.getLast? = some v)
    (hw : color w = .gray) (hvw : E v w) : IsCycle E (path.dropWhile (· ≠ w)) := by
  have hmem : w ∈ path := (h.gray w).mp hw
  have hsuffix : path.dropWhile (· ≠ w) <:+ path := List.dropWhile_suffix _
  have hne : path.dropWhile (· ≠ w) ≠ [] := by
    intro hnil
    have hall := List.dropWhile_eq_nil_iff.mp hnil w hmem
    simp at hall
  refine ⟨hne, hsuffix.sublist.nodup h.nodup, h.chain.suffix hsuffix, ?_⟩
  have hhead : (path.dropWhile (· ≠ w)).head hne = w := by
    have := List.head_dropWhile_not (· ≠ w) hne
    simpa using this
  have hend : (path.dropWhile (· ≠ w)).getLast hne = v := by
    obtain ⟨before, hbefore⟩ := hsuffix
    rw [← hbefore, List.getLast?_append_of_ne_nil _ hne, List.getLast?_eq_some_getLast hne] at hlast
    exact Option.some.inj hlast
  rw [hhead, hend]
  exact hvw

end MiniDB.ThreeColors
