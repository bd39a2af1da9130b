import Mathlib.Data.List.Nodup
import Mathlib.Data.List.Dedup

/-!
# Unordered maps

A map with at most one value for each key, listed in the order in which an iteration visits it.  The
order is up to the implementation: after an insertion it rearranges the elements as it likes
(`arrange`), so that what holds for every `UnorderedMap` holds for every order of iteration.
-/

namespace MiniDB

/-- An unordered map. -/
structure UnorderedMap (K V : Type) where
  entries : List (K × V)
  nodup : (entries.map Prod.fst).Nodup
  /-- The order of the elements after an insertion. -/
  arrange : List (K × V) → List (K × V)
  arrange_perm : ∀ l, (arrange l).Perm l

namespace UnorderedMap

variable {K V : Type} [DecidableEq K] {m : UnorderedMap K V}

/-- The empty map of an implementation. -/
def empty (arrange : List (K × V) → List (K × V)) (arrange_perm : ∀ l, (arrange l).Perm l) :
    UnorderedMap K V := ⟨[], List.nodup_nil, arrange, arrange_perm⟩

/-- The value of a key. -/
def find? (m : UnorderedMap K V) (k : K) : Option V :=
  (m.entries.find? fun e => e.1 = k).map Prod.snd

/-- The map without a key. -/
def erase (m : UnorderedMap K V) (k : K) : UnorderedMap K V where
  entries := m.entries.filter fun e => e.1 ≠ k
  nodup := m.nodup.sublist (List.filter_sublist.map Prod.fst)
  arrange := m.arrange
  arrange_perm := m.arrange_perm

/-- The map with the value of a key set to `v`. -/
def insert (m : UnorderedMap K V) (k : K) (v : V) : UnorderedMap K V where
  entries := m.arrange ((k, v) :: m.entries.filter fun e => e.1 ≠ k)
  nodup := by
    rw [((m.arrange_perm _).map Prod.fst).nodup_iff, List.map_cons, List.nodup_cons]
    refine ⟨fun h => ?_, m.nodup.sublist (List.filter_sublist.map Prod.fst)⟩
    obtain ⟨e, he, heq⟩ := List.mem_map.mp h
    have hne := (List.mem_filter.mp he).2
    simp [heq] at hne
  arrange := m.arrange
  arrange_perm := m.arrange_perm

/-- The map with `g` applied to the value of a key, in its place. -/
def adjust (m : UnorderedMap K V) (k : K) (g : V → V) : UnorderedMap K V where
  entries := m.entries.map fun e => if e.1 = k then (e.1, g e.2) else e
  nodup := by
    have hfst : (m.entries.map fun e => if e.1 = k then (e.1, g e.2) else e).map Prod.fst
        = m.entries.map Prod.fst := by
      rw [List.map_map]
      refine List.map_congr_left fun e _ => ?_
      show (if e.1 = k then (e.1, g e.2) else e).1 = e.1
      split_ifs <;> rfl
    rw [hfst]
    exact m.nodup
  arrange := m.arrange
  arrange_perm := m.arrange_perm

variable {k k' : K}

theorem mem_entries_iff {v : V} : (k, v) ∈ m.entries ↔ m.find? k = some v := by
  have hn := m.nodup
  unfold find?
  generalize m.entries = entries at hn
  induction entries with
  | nil => simp
  | cons e es ih =>
    rw [List.map_cons, List.nodup_cons] at hn
    obtain ⟨hnot, hn⟩ := hn
    by_cases hk : e.1 = k
    · have hfind : (e :: es).find? (fun e => decide (e.1 = k)) = some e := by simp [hk]
      rw [hfind, Option.map_some, Option.some.injEq]
      constructor
      · intro h
        rcases List.mem_cons.mp h with rfl | h
        · rfl
        · exact absurd (List.mem_map_of_mem h) (hk ▸ hnot)
      · rintro rfl
        subst hk
        exact List.mem_cons_self ..
    · have hfind : (e :: es).find? (fun e => decide (e.1 = k))
          = es.find? (fun e => decide (e.1 = k)) := by simp [hk]
      rw [hfind]
      refine Iff.trans ?_ (ih hn)
      constructor
      · intro h
        rcases List.mem_cons.mp h with rfl | h
        · exact absurd rfl hk
        · exact h
      · exact List.mem_cons_of_mem _

theorem find?_ext {m' : UnorderedMap K V} (h : ∀ v, (k, v) ∈ m.entries ↔ (k', v) ∈ m'.entries) :
    m.find? k = m'.find? k' := by
  refine Option.ext fun v => ?_
  rw [← mem_entries_iff, ← mem_entries_iff, h v]

theorem find?_erase (m : UnorderedMap K V) (k k' : K) :
    (m.erase k).find? k' = if k' = k then none else m.find? k' := by
  by_cases hk : k' = k
  · rw [if_pos hk]
    refine Option.eq_none_iff_forall_ne_some.mpr fun v hv => ?_
    have := (List.mem_filter.mp (mem_entries_iff.mpr hv)).2
    simp [hk] at this
  · rw [if_neg hk]
    refine find?_ext fun v => ?_
    rw [erase, List.mem_filter]
    simp [hk]

theorem find?_insert (m : UnorderedMap K V) (k k' : K) (v : V) :
    (m.insert k v).find? k' = if k' = k then some v else m.find? k' := by
  by_cases hk : k' = k
  · rw [if_pos hk, ← mem_entries_iff, hk]
    exact (m.arrange_perm _).mem_iff.mpr (List.mem_cons_self ..)
  · rw [if_neg hk]
    refine find?_ext fun w => ?_
    rw [insert, (m.arrange_perm _).mem_iff, List.mem_cons, List.mem_filter]
    simp [hk]

/-- A new key adds one element. -/
theorem entries_insert_perm (h : m.find? k = none) (v : V) :
    (m.insert k v).entries.Perm ((k, v) :: m.entries) := by
  have hall : (m.entries.filter fun e => e.1 ≠ k) = m.entries := by
    refine List.filter_eq_self.mpr fun e he => decide_eq_true fun hk => ?_
    rw [mem_entries_iff.mp (show (k, e.2) ∈ m.entries from hk ▸ he)] at h
    cases h
  show (m.arrange ((k, v) :: m.entries.filter fun e => e.1 ≠ k)).Perm _
  rw [hall]
  exact m.arrange_perm _

theorem find?_adjust (m : UnorderedMap K V) (k k' : K) (g : V → V) :
    (m.adjust k g).find? k' = if k' = k then (m.find? k').map g else m.find? k' := by
  refine Option.ext fun v => ?_
  rw [← mem_entries_iff, adjust, List.mem_map]
  by_cases hk : k' = k
  · subst hk
    rw [if_pos rfl, Option.map_eq_some_iff]
    constructor
    · rintro ⟨e, he, heq⟩
      split_ifs at heq with h
      · obtain ⟨-, rfl⟩ := Prod.mk.inj heq
        exact ⟨e.2, mem_entries_iff.mp (h ▸ he), rfl⟩
      · exact absurd (congrArg Prod.fst heq) h
    · rintro ⟨w, hw, rfl⟩
      exact ⟨(k', w), mem_entries_iff.mpr hw, if_pos rfl⟩
  · rw [if_neg hk, ← mem_entries_iff]
    constructor
    · rintro ⟨e, he, heq⟩
      split_ifs at heq with h
      · exact absurd ((congrArg Prod.fst heq).symm.trans h) hk
      · exact heq ▸ he
    · exact fun h => ⟨(k', v), h, if_neg hk⟩

end UnorderedMap

/-! ### Unordered sets -/

/-- An unordered set. -/
abbrev UnorderedSet (K : Type) := UnorderedMap K Unit

namespace UnorderedSet

variable {K : Type} [DecidableEq K] {s : UnorderedSet K}

/-- The elements, in the order of an iteration. -/
def elems (s : UnorderedSet K) : List K := s.entries.map Prod.fst

/-- The set with an element added, unless it is there. -/
def add (s : UnorderedSet K) (k : K) : UnorderedSet K := if k ∈ s.elems then s else s.insert k ()

theorem mem_elems_iff : k ∈ s.elems ↔ s.find? k = some () := by
  rw [← UnorderedMap.mem_entries_iff, elems, List.mem_map]
  constructor
  · rintro ⟨⟨k, u⟩, hmem, rfl⟩
    exact hmem
  · exact fun hmem => ⟨(k, ()), hmem, rfl⟩

theorem mem_elems_add : k' ∈ (s.add k).elems ↔ k' = k ∨ k' ∈ s.elems := by
  rw [add]
  split_ifs with hmem
  · refine (or_iff_right_of_imp fun heq => ?_).symm
    rw [heq]
    exact hmem
  · rw [mem_elems_iff, UnorderedMap.find?_insert, mem_elems_iff]
    split_ifs with hk <;> simp [hk]

theorem mem_elems_erase : k' ∈ elems (s.erase k) ↔ k' ≠ k ∧ k' ∈ s.elems := by
  rw [mem_elems_iff, UnorderedMap.find?_erase, mem_elems_iff]
  split_ifs with hk <;> simp [hk]

end UnorderedSet

end MiniDB
