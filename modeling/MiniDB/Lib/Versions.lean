import Mathlib.Data.Set.Insert

/-!
# Versions of a row

In a multi-version store a version carries its maker and a single slot for its deleter.  A reader
accepts the work of a set `S` of transactions, so that to it a version lives if `S` has its maker
and not its deleter (`Lives`).  A slot that nobody has written holds a transaction that no reader
accepts.

An update by `t` puts `t` into the slot of the old version and adds a new version made by `t`.
Readers that do not accept `t` see no change, as long as the slot held nobody they accept
(`Sole.update_of_notMem`); readers that do accept it see the new version in place of the old one
(`Sole.update`).
-/

namespace MiniDB.Versions

open Function (update update_of_ne update_self)

/-- A version: its maker and the last one to delete it. -/
structure Version (T : Type) where
  maker : T
  deleter : T

variable {V T : Type} {S S' : Set T} {f : V → Option (Version T)} {v w : V} {t : T}
  {x : Version T}

/-- The version `v` lives for a reader that accepts the transactions of `S`. -/
def Lives (S : Set T) (f : V → Option (Version T)) (v : V) : Prop :=
  ∃ x, f v = some x ∧ x.maker ∈ S ∧ x.deleter ∉ S

/-- A reader that accepts `S` sees exactly one version. -/
def Sole (S : Set T) (f : V → Option (Version T)) : Prop := ∃! v, Lives S f v

theorem Sole.congr_lives {g : V → Option (Version T)} (h : Sole S f)
    (hlives : ∀ v, Lives S' g v ↔ Lives S f v) : Sole S' g := by
  obtain ⟨v, hv, hunique⟩ := h
  exact ⟨v, (hlives v).mpr hv, fun w hw => hunique w ((hlives w).mp hw)⟩

/-- Two readers that differ only in transactions without any work. -/
theorem Sole.congr (h : Sole S f)
    (hsame : ∀ v x, f v = some x → (x.maker ∈ S' ↔ x.maker ∈ S) ∧ (x.deleter ∈ S' ↔ x.deleter ∈ S)) :
    Sole S' f := by
  refine h.congr_lives fun v => exists_congr fun x => and_congr_right fun hx => ?_
  obtain ⟨hmaker, hdeleter⟩ := hsame v x hx
  rw [hmaker, hdeleter]

variable [DecidableEq V]

/-- A deletion, seen by a reader that accepts neither the old nor the new deleter. -/
theorem lives_delete_of_notMem (hv : f v = some x) (hold : x.deleter ∉ S) (ht : t ∉ S) (w : V) :
    Lives S (update f v (some ⟨x.maker, t⟩)) w ↔ Lives S f w := by
  by_cases hw : w = v
  · subst hw
    rw [Lives, Lives, update_self, hv]
    constructor
    · rintro ⟨y, hy, hmaker, -⟩
      obtain rfl := Option.some.inj hy
      exact ⟨x, rfl, hmaker, hold⟩
    · rintro ⟨y, hy, hmaker, -⟩
      obtain rfl := Option.some.inj hy
      exact ⟨_, rfl, hmaker, ht⟩
  · rw [Lives, Lives, update_of_ne hw]

/-- A new version is not seen by those who do not accept its maker. -/
theorem lives_insert_of_notMem (hv : f v = none) (hx : x.maker ∉ S) (w : V) :
    Lives S (update f v (some x)) w ↔ Lives S f w := by
  by_cases hw : w = v
  · subst hw
    rw [Lives, Lives, update_self, hv]
    constructor
    · rintro ⟨y, hy, hmaker, -⟩
      obtain rfl := Option.some.inj hy
      exact absurd hmaker hx
    · rintro ⟨y, hy, -⟩
      cases hy
  · rw [Lives, Lives, update_of_ne hw]

theorem Sole.delete_of_notMem (h : Sole S f) (hv : f v = some x) (hold : x.deleter ∉ S)
    (ht : t ∉ S) : Sole S (update f v (some ⟨x.maker, t⟩)) :=
  h.congr_lives (lives_delete_of_notMem hv hold ht)

/-- For a reader that does not accept it, an update changes nothing. -/
theorem Sole.update_of_notMem {new : V} {nobody : T} (h : Sole S f) (hv : f v = some x)
    (hold : x.deleter ∉ S) (hnew : f new = none) (ht : t ∉ S) :
    Sole S (update (update f v (some ⟨x.maker, t⟩)) new (some ⟨t, nobody⟩)) := by
  refine (h.delete_of_notMem hv hold ht).congr_lives (lives_insert_of_notMem ?_ ht)
  rw [update_of_ne, hnew]
  rintro rfl
  rw [hv] at hnew
  cases hnew

/-- For a reader that accepts it, an update of a living version replaces the version. -/
theorem Sole.update {new : V} {nobody : T} (h : Sole S f) (hv : f v = some x) (hmaker : x.maker ∈ S)
    (hdeleter : x.deleter ∉ S) (hnew : f new = none) (ht : t ∈ S) (hnobody : nobody ∉ S) :
    Sole S (update (update f v (some ⟨x.maker, t⟩)) new (some ⟨t, nobody⟩)) := by
  have hne : v ≠ new := by
    rintro rfl
    rw [hv] at hnew
    cases hnew
  -- `v` was the one that lived
  have hother : ∀ w, Lives S f w → w = v := fun w hw =>
    h.unique hw ⟨x, hv, hmaker, hdeleter⟩
  refine ⟨new, ⟨_, update_self .., ht, hnobody⟩, fun w hw => ?_⟩
  obtain ⟨y, hy, hy_maker, hy_deleter⟩ := hw
  by_contra hwn
  rw [update_of_ne hwn] at hy
  by_cases hwv : w = v
  · rw [hwv, update_self] at hy
    obtain rfl := Option.some.inj hy
    exact hy_deleter ht
  · rw [update_of_ne hwv] at hy
    exact hwv (hother w ⟨y, hy, hy_maker, hy_deleter⟩)

end MiniDB.Versions
