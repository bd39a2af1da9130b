import Mathlib.Data.List.Basic
import Mathlib.Data.List.Pairwise
import Mathlib.Logic.Function.Basic

/-!
# Structures sharing a store

Several structures live in one store of pages, each in pages of its own.  An operation on one of them
changes only pages it owns and takes new pages from outside the store (`OwnStep`).  Then the pages of
the structures stay disjoint and the invariants of the others are kept (`Tenants.step`,
`Tenants.create`), whatever the structures are: all that is asked of an invariant is that it speaks
about owned pages only, and that these are in the store (`Tenant`).  `Named` is the same for
structures that are known by name and may be forgotten.
-/

namespace MiniDB.Tenancy

variable {σ I P T : Type} {get : σ → I → Option P} {own own' : List I}

/-- From `s` to `s'` only pages in `own` change, and the pages of `own'` that are not in `own` are new
ones. -/
structure OwnStep (get : σ → I → Option P) (s : σ) (own : List I) (s' : σ) (own' : List I) :
    Prop where
  subset : own ⊆ own'
  frame : ∀ i p, i ∉ own → get s i = some p → get s' i = some p
  fresh : ∀ i ∈ own', i ∉ own → get s i = none

theorem OwnStep.refl (s : σ) (own : List I) : OwnStep get s own s own :=
  ⟨fun _ h => h, fun _ _ _ h => h, fun _ hi hnot => absurd hi hnot⟩

theorem OwnStep.trans {s s' s'' : σ} {own'' : List I} (h₁ : OwnStep get s own s' own')
    (h₂ : OwnStep get s' own' s'' own'') : OwnStep get s own s'' own'' where
  subset := fun _ hi => h₂.subset (h₁.subset hi)
  frame := by
    intro i p hi hp
    refine h₂.frame i p (fun hmem => ?_) (h₁.frame i p hi hp)
    rw [h₁.fresh i hmem hi] at hp
    cases hp
  fresh := by
    intro i hi hnot
    by_cases hmem : i ∈ own'
    · exact h₁.fresh i hmem hnot
    · by_contra hsome
      obtain ⟨p, hp⟩ := Option.ne_none_iff_exists'.mp hsome
      have hp' := h₁.frame i p hnot hp
      rw [h₂.fresh i hi hmem] at hp'
      cases hp'

/-- Only the set of owned pages matters. -/
theorem OwnStep.congr {s s' : σ} {own₁ own₁' : List I} (h : OwnStep get s own s' own')
    (h₁ : ∀ i, i ∈ own₁ ↔ i ∈ own) (h₁' : ∀ i, i ∈ own₁' ↔ i ∈ own') :
    OwnStep get s own₁ s' own₁' where
  subset := fun i hi => (h₁' i).mpr (h.subset ((h₁ i).mp hi))
  frame := fun i p hi hp => h.frame i p (fun hmem => hi ((h₁ i).mpr hmem)) hp
  fresh := fun i hi hnot => h.fresh i ((h₁' i).mp hi) fun hmem => hnot ((h₁ i).mpr hmem)

/-- Owning more pages than are touched. -/
theorem OwnStep.weaken {s s' : σ} (h : OwnStep get s own s' own') (others : List I) :
    OwnStep get s (others ++ own) s' (others ++ own') where
  subset := by
    intro i hi
    rcases List.mem_append.mp hi with hi | hi
    · exact List.mem_append_left _ hi
    · exact List.mem_append_right _ (h.subset hi)
  frame := fun i p hi hp => h.frame i p (fun hmem => hi (List.mem_append_right _ hmem)) hp
  fresh := by
    intro i hi hnot
    rw [List.mem_append, not_or] at hnot
    exact h.fresh i ((List.mem_append.mp hi).resolve_left hnot.1) hnot.2

/-- Pages of the store that are not owned are not taken and not changed. -/
theorem OwnStep.other {s s' : σ} (h : OwnStep get s own s' own') {i : I} (hi : i ∉ own)
    (hget : ∃ p, get s i = some p) : i ∉ own' ∧ get s' i = get s i := by
  obtain ⟨p, hp⟩ := hget
  refine ⟨fun hmem => ?_, by rw [h.frame i p hi hp, hp]⟩
  rw [h.fresh i hmem hi] at hp
  cases hp

/-- A kind of structure: the pages it owns, and an invariant about them. -/
structure Tenant (get : σ → I → Option P) (T : Type) where
  own : T → List I
  inv : σ → T → Prop
  present : ∀ {s a}, inv s a → ∀ i ∈ own a, ∃ p, get s i = some p
  frame : ∀ {s s' a}, inv s a → (∀ i ∈ own a, get s' i = get s i) → inv s' a

/-- Structures side by side in a store. -/
structure Tenants (t : Tenant get T) (s : σ) (rows : List T) : Prop where
  disjoint : rows.Pairwise fun a b => (t.own a).Disjoint (t.own b)
  row : ∀ a ∈ rows, t.inv s a

variable {t : Tenant get T} {s s' : σ} {rows : List T} {a a' : T}

theorem Tenants.nil (t : Tenant get T) (s : σ) : Tenants t s [] :=
  ⟨List.Pairwise.nil, fun _ ha => by cases ha⟩

/-- The row with a given number, and the rows around it. -/
theorem split_of_getElem? {f : Nat} (h : rows[f]? = some a) :
    ∃ l r, rows = l ++ a :: r ∧ f = l.length := by
  obtain ⟨hlt, rfl⟩ := List.getElem?_eq_some_iff.mp h
  refine ⟨rows.take f, rows.drop (f + 1), ?_, (List.length_take_of_le (Nat.le_of_lt hlt)).symm⟩
  rw [← List.drop_eq_getElem_cons hlt, List.take_append_drop]

theorem modify_length (l r : List T) (a : T) (g : T → T) :
    (l ++ a :: r).modify l.length g = l ++ g a :: r := by
  induction l with
  | nil => rfl
  | cons b l ih => simp [ih]

/-- A structure with other pages is not affected by a step. -/
theorem Tenant.keep {b : T} (h : OwnStep get s own s' own') (hb : t.inv s b)
    (hd : own.Disjoint (t.own b)) : t.inv s' b ∧ own'.Disjoint (t.own b) := by
  have hother : ∀ i ∈ t.own b, i ∉ own' ∧ get s' i = get s i := fun i hi =>
    h.other (fun hmem => hd hmem hi) (t.present hb i hi)
  exact ⟨t.frame hb fun i hi => (hother i hi).2, fun i hi hib => (hother i hib).1 hi⟩

/-- A step of one structure. -/
theorem Tenants.step {l r : List T} (hs : Tenants t s (l ++ a :: r))
    (h : OwnStep get s (t.own a) s' (t.own a')) (ha' : t.inv s' a') : Tenants t s' (l ++ a' :: r) := by
  have hsymm : ∀ {x y : T}, (t.own x).Disjoint (t.own y) → (t.own y).Disjoint (t.own x) :=
    fun h _ hx hy => h hy hx
  obtain ⟨hfirst, hrest⟩ := List.pairwise_cons.mp ((List.pairwise_middle hsymm).mp hs.disjoint)
  have hkeep : ∀ b ∈ l ++ r, t.inv s' b ∧ (t.own a').Disjoint (t.own b) := by
    intro b hb
    refine t.keep h (hs.row b ?_) (hfirst b hb)
    rcases List.mem_append.mp hb with hb | hb
    · exact List.mem_append_left _ hb
    · exact List.mem_append_right _ (List.mem_cons_of_mem _ hb)
  refine ⟨?_, fun b hb => ?_⟩
  · rw [List.pairwise_middle hsymm, List.pairwise_cons]
    exact ⟨fun b hb => (hkeep b hb).2, hrest⟩
  · rw [List.mem_append, List.mem_cons] at hb
    rcases hb with hb | rfl | hb
    · exact (hkeep b (List.mem_append_left _ hb)).1
    · exact ha'
    · exact (hkeep b (List.mem_append_right _ hb)).1

/-- A new structure, in new pages. -/
theorem Tenants.create (hs : Tenants t s rows) (h : OwnStep get s [] s' (t.own a')) (ha' : t.inv s' a') :
    Tenants t s' (rows ++ [a']) := by
  have hkeep : ∀ b ∈ rows, t.inv s' b ∧ (t.own a').Disjoint (t.own b) := fun b hb =>
    t.keep h (hs.row b hb) (List.disjoint_nil_left _)
  refine ⟨?_, fun b hb => ?_⟩
  · refine List.pairwise_append.mpr ⟨hs.disjoint, List.pairwise_singleton _ _, ?_⟩
    intro b hb a ha
    rw [List.mem_singleton.mp ha]
    exact fun i hi hi' => (hkeep b hb).2 hi' hi
  · rcases List.mem_append.mp hb with hb | hb
    · exact (hkeep b hb).1
    · rwa [List.mem_singleton.mp hb]

/-! ### Structures by name -/

/-- Structures side by side in a store, each under a name. -/
structure Named {K : Type} (t : Tenant get T) (s : σ) (named : K → Option T) : Prop where
  disjoint : ∀ {k k' a a'}, k ≠ k' → named k = some a → named k' = some a' →
    (t.own a).Disjoint (t.own a')
  inv : ∀ {k a}, named k = some a → t.inv s a

section Named

variable {K : Type} {named : K → Option T}

theorem Named.empty (t : Tenant get T) (s : σ) : Named t s fun _ : K => none :=
  ⟨(fun _ h => nomatch h), (fun h => nomatch h)⟩

/-- A step in pages that belong to no structure. -/
theorem Named.frame (hs : Named t s named) (h : OwnStep get s own s' own')
    (hown : ∀ k a, named k = some a → own.Disjoint (t.own a)) : Named t s' named :=
  ⟨hs.disjoint, fun ha => (t.keep h (hs.inv ha) (hown _ _ ha)).1⟩

variable [DecidableEq K] {k : K}

/-- A step of the structure `k`, or the creation of one: the others own none of its pages. -/
theorem Named.update (hs : Named t s named) (h : OwnStep get s own s' (t.own a'))
    (hown : ∀ k' a, k' ≠ k → named k' = some a → own.Disjoint (t.own a)) (ha' : t.inv s' a') :
    Named t s' (Function.update named k (some a')) := by
  have hkeep : ∀ {k' a}, k' ≠ k → named k' = some a →
      t.inv s' a ∧ (t.own a').Disjoint (t.own a) := fun hne ha =>
    t.keep h (hs.inv ha) (hown _ _ hne ha)
  constructor
  · intro k₁ k₂ a₁ a₂ hne h₁ h₂
    by_cases hk₁ : k₁ = k
    · subst hk₁
      rw [Function.update_self] at h₁
      rw [Function.update_of_ne hne.symm] at h₂
      obtain rfl := Option.some.inj h₁
      exact (hkeep hne.symm h₂).2
    · rw [Function.update_of_ne hk₁] at h₁
      by_cases hk₂ : k₂ = k
      · subst hk₂
        rw [Function.update_self] at h₂
        obtain rfl := Option.some.inj h₂
        exact fun i hi hi' => (hkeep hk₁ h₁).2 hi' hi
      · rw [Function.update_of_ne hk₂] at h₂
        exact hs.disjoint hne h₁ h₂
  · intro k' a ha
    by_cases hk : k' = k
    · subst hk
      rw [Function.update_self] at ha
      obtain rfl := Option.some.inj ha
      exact ha'
    · rw [Function.update_of_ne hk] at ha
      exact (hkeep hk ha).1

/-- A step of one structure. -/
theorem Named.step (hs : Named t s named) (ha : named k = some a)
    (h : OwnStep get s (t.own a) s' (t.own a')) (ha' : t.inv s' a') :
    Named t s' (Function.update named k (some a')) :=
  hs.update h (fun _ _ hne hb => hs.disjoint hne.symm ha hb) ha'

/-- A new structure, in new pages. -/
theorem Named.create (hs : Named t s named) (h : OwnStep get s [] s' (t.own a')) (ha' : t.inv s' a') :
    Named t s' (Function.update named k (some a')) :=
  hs.update h (fun _ _ _ _ => List.disjoint_nil_left _) ha'

/-- A structure is forgotten. -/
theorem Named.forget (hs : Named t s named) : Named t s (Function.update named k none) := by
  have hold : ∀ {k' a}, Function.update named k none k' = some a → named k' = some a := by
    intro k' a ha
    by_cases hk : k' = k
    · rw [hk, Function.update_self] at ha
      cases ha
    · rwa [Function.update_of_ne hk] at ha
  exact ⟨fun hne h₁ h₂ => hs.disjoint hne (hold h₁) (hold h₂), fun ha => hs.inv (hold ha)⟩

end Named

end MiniDB.Tenancy
