import Mathlib.Data.List.Nodup
import Mathlib.Data.Multiset.AddSub
import Mathlib.Logic.Function.Basic

/-!
# Partial maps and their listings

A partial map `f : K → Option V` that a program keeps in some form, and the lists in which it shows
the pairs of the map (`Lists`): each pair once, in any order.  Two listings of one map are
permutations of each other.

The values of a map are a bag (`Contents`).  An index over the map holds an entry for each value that
has a search key (`Mirrors`).  `Mirrors.insert` and `Mirrors.erase` are what its maintenance has to
do, and `Mirrors.eq` reads the entries off any listing.
-/

namespace MiniDB

variable {K V C : Type}

/-- `l` lists the pairs of `f`. -/
structure Lists (l : List (K × V)) (f : K → Option V) : Prop where
  nodup : (l.map Prod.fst).Nodup
  mem_iff : ∀ k v, (k, v) ∈ l ↔ f k = some v

theorem Lists.nil : Lists ([] : List (K × V)) fun _ => none :=
  ⟨List.nodup_nil, fun _ _ => ⟨(fun h => nomatch h), (fun h => nomatch h)⟩⟩

variable {l : List (K × V)} {f : K → Option V} {B A : Type} {l' bs : List B} {k : K} {v : V}
  {R : A → B → Prop}

theorem Lists.nodup_pairs (h : Lists l f) : l.Nodup :=
  h.nodup.of_map

theorem Lists.perm {l' : List (K × V)} (h : Lists l f) (h' : Lists l' f) :
    l.Perm l' := by
  rw [List.perm_ext_iff_of_nodup h.nodup_pairs h'.nodup_pairs]
  rintro ⟨k, v⟩
  rw [h.mem_iff, h'.mem_iff]

theorem Lists.of_perm {l' : List (K × V)} (h : Lists l f) (hp : l.Perm l') :
    Lists l' f :=
  ⟨(hp.map Prod.fst).nodup_iff.mp h.nodup, fun k v => hp.mem_iff.symm.trans (h.mem_iff k v)⟩

/-- A listing shows all of its map. -/
theorem Lists.unique {f' : K → Option V} (h : Lists l f) (h' : Lists l f') :
    f = f' := by
  funext k
  ext v
  rw [← h.mem_iff, ← h'.mem_iff]

/-- The listing of a map with one pair. -/
theorem Lists.eq_singleton (h : Lists l f) (hv : f k = some v)
    (hunique : ∀ k' v', f k' = some v' → k' = k) : l = [(k, v)] := by
  have hone : Lists [(k, v)] f := by
    refine ⟨List.nodup_singleton k, fun k' v' => ?_⟩
    rw [List.mem_singleton, Prod.mk.injEq]
    constructor
    · rintro ⟨rfl, rfl⟩
      exact hv
    · intro hv'
      obtain rfl := hunique k' v' hv'
      exact ⟨rfl, Option.some.inj (hv'.symm.trans hv)⟩
  exact List.perm_singleton.mp (h.perm hone)

/-- The pairs that a pass over the map selects by their values. -/
theorem Lists.filter (h : Lists l f) (p : V → Bool) :
    (∀ m ∈ l.filter fun m => p m.2, f m.1 = some m.2 ∧ p m.2 = true) ∧
      ((l.filter fun m => p m.2).map Prod.fst).Nodup := by
  refine ⟨fun m hm => ?_, h.nodup.sublist (List.filter_sublist.map _)⟩
  obtain ⟨hmem, hp⟩ := List.mem_filter.mp hm
  exact ⟨(h.mem_iff _ _).mp hmem, hp⟩

/-- A pass over the map that passes on something for some of the values. -/
theorem Lists.filterMap (h : Lists l f) (g : V → Option B) :
    Lists (l.filterMap fun p => (g p.2).map fun b => (p.1, b))
      fun k => (f k).bind g := by
  constructor
  · refine h.nodup.sublist ?_
    clear h
    induction l with
    | nil => exact .slnil
    | cons p l ih =>
      rw [List.filterMap_cons]
      cases g p.2 with
      | none => exact ih.cons _
      | some b => exact ih.cons_cons _
  · intro k b
    rw [List.mem_filterMap, Option.bind_eq_some_iff]
    constructor
    · rintro ⟨⟨k', v⟩, hmem, hb⟩
      obtain ⟨b', hb', heq⟩ := Option.map_eq_some_iff.mp hb
      obtain ⟨rfl, rfl⟩ := Prod.mk.inj heq
      exact ⟨v, (h.mem_iff _ _).mp hmem, hb'⟩
    · rintro ⟨v, hv, hb⟩
      exact ⟨(k, v), (h.mem_iff _ _).mpr hv, by rw [hb]; rfl⟩

/-- A map that is kept as a list of encoded values, read back. -/
theorem Lists.of_encoded {R : V → B → Prop} {l : List (K × B)} (hnodup : (l.map Prod.fst).Nodup)
    (hmem : ∀ e ∈ l, ∃ v, f e.1 = some v ∧ R v e.2)
    (hall : ∀ k v, f k = some v → k ∈ l.map Prod.fst) :
    ∃ l', Lists l' f ∧ List.Forall₂ (fun e p => e.1 = p.1 ∧ R p.2 e.2) l l' := by
  -- decode the list element by element
  have hdecode : ∀ l : List (K × B), (∀ e ∈ l, ∃ v, f e.1 = some v ∧ R v e.2) →
      ∃ l' : List (K × V), List.Forall₂ (fun e p => e.1 = p.1 ∧ R p.2 e.2) l l' ∧
        l'.map Prod.fst = l.map Prod.fst ∧ ∀ p ∈ l', f p.1 = some p.2 := by
    intro l
    induction l with
    | nil => exact fun _ => ⟨[], .nil, rfl, fun p hp => nomatch hp⟩
    | cons e l ih =>
      intro hmem
      obtain ⟨l', hrel, hfst, hl'⟩ := ih fun e' he' => hmem e' (List.mem_cons_of_mem _ he')
      obtain ⟨v, hv, hR⟩ := hmem e (List.mem_cons_self ..)
      refine ⟨(e.1, v) :: l', .cons ⟨rfl, hR⟩ hrel, by rw [List.map_cons, hfst]; rfl,
        fun p hp => ?_⟩
      rcases List.mem_cons.mp hp with rfl | hp
      · exact hv
      · exact hl' p hp
  obtain ⟨l', hrel, hfst, hl'⟩ := hdecode l hmem
  refine ⟨l', ⟨hfst ▸ hnodup, fun k v => ⟨fun hin => hl' _ hin, fun hv => ?_⟩⟩, hrel⟩
  have hin := hall k v hv
  rw [← hfst] at hin
  obtain ⟨⟨k', v'⟩, hin', rfl⟩ := List.mem_map.mp hin
  obtain rfl : v = v' := Option.some.inj (hv.symm.trans (hl' _ hin'))
  exact hin'

/-- What a pass over `l` leaves for each element names its element. -/
theorem exists_mem_of_forall₂ {l : List A} (h : List.Forall₂ R l l') {b : B} (hb : b ∈ l') :
    ∃ a ∈ l, R a b := by
  induction h with
  | nil => cases hb
  | cons hR _ ih =>
    rcases List.mem_cons.mp hb with rfl | hb
    · exact ⟨_, List.mem_cons_self .., hR⟩
    · obtain ⟨a, ha, hR⟩ := ih hb
      exact ⟨a, List.mem_cons_of_mem _ ha, hR⟩

/-- Relations between lists compose. -/
theorem forall₂_comp {S : B → C → Prop} {as : List A} {cs : List C} (h : List.Forall₂ R as bs)
    (h' : List.Forall₂ S bs cs) : List.Forall₂ (fun a c => ∃ b, R a b ∧ S b c) as cs := by
  induction h generalizing cs with
  | nil =>
    cases h'
    exact .nil
  | cons hab _ ih =>
    cases h' with
    | cons hbc hrest => exact .cons ⟨_, hab, hbc⟩ (ih hrest)

/-- The item that stands in one list where a key stands in another. -/
theorem exists_zip_iff {R : K × V → B → Prop} (h : List.Forall₂ R l bs)
    (hnodup : (l.map Prod.fst).Nodup) (hmem : (k, v) ∈ l) :
    ∃ b, R (k, v) b ∧ ∀ b', (k, b') ∈ (l.map Prod.fst).zip bs ↔ b' = b := by
  induction h with
  | nil => cases hmem
  | @cons e b l bs hb hrest ih =>
    obtain ⟨hfresh, hnodup⟩ := List.nodup_cons.mp hnodup
    rw [List.map_cons, List.zip_cons_cons]
    rcases List.mem_cons.mp hmem with rfl | hmem
    · refine ⟨b, hb, fun b' => ⟨fun h => ?_, fun h => h ▸ List.mem_cons_self ..⟩⟩
      rcases List.mem_cons.mp h with h | h
      · exact congrArg Prod.snd h
      · exact absurd (List.of_mem_zip h).1 hfresh
    · obtain ⟨b₁, hb₁, hiff⟩ := ih hnodup hmem
      have hne : k ≠ e.1 := by
        rintro rfl
        exact hfresh (List.mem_map.mpr ⟨_, hmem, rfl⟩)
      refine ⟨b₁, hb₁, fun b' => ?_⟩
      rw [List.mem_cons, ← hiff b', or_iff_right]
      exact fun h => hne (congrArg Prod.fst h)

/-- A pass that may stop with an error goes through if it does for each element. -/
theorem mapM_eq_ok {E : Type} {f : A → Except E B} {l : List A} :
    l.mapM f = .ok l' ↔ List.Forall₂ (fun a b => f a = .ok b) l l' := by
  induction l generalizing l' with
  | nil => simp [pure, Except.pure, eq_comm]
  | cons a l ih =>
    rw [List.mapM_cons, List.forall₂_cons_left_iff]
    constructor
    · intro h
      cases ha : f a with
      | error e =>
        rw [ha] at h
        cases h
      | ok b =>
        rw [ha] at h
        cases hl : l.mapM f with
        | error e =>
          simp only [hl, bind, Except.bind] at h
          cases h
        | ok bs =>
          simp only [hl, bind, Except.bind, pure, Except.pure, Except.ok.injEq] at h
          exact ⟨b, bs, rfl, ih.mp hl, h.symm⟩
    · rintro ⟨b, bs, ha, hl, rfl⟩
      rw [ha, ih.mpr hl]
      rfl

theorem mapM_eq_some {f : A → Option B} {l : List A} :
    l.mapM f = some l' ↔ List.Forall₂ (fun a b => f a = some b) l l' := by
  induction l generalizing l' with
  | nil => simp [eq_comm]
  | cons a l ih =>
    rw [List.mapM_cons, List.forall₂_cons_left_iff]
    simp only [Option.bind_eq_bind, Option.bind_eq_some_iff, ih, Option.pure_def, Option.some.injEq]
    constructor
    · rintro ⟨b, ha, bs, hl, rfl⟩
      exact ⟨b, bs, ha, hl, rfl⟩
    · rintro ⟨b, bs, ha, hl, rfl⟩
      exact ⟨b, ha, bs, hl, rfl⟩

/-! ### The values of a map -/

/-- The values of the map, as a bag. -/
def Contents (b : Multiset V) (f : K → Option V) : Prop :=
  ∃ l, Lists l f ∧ b = (l.map Prod.snd : List V)

/-- The values read off any listing. -/
theorem Contents.eq {b : Multiset V} (h : Contents b f) (hl : Lists l f) :
    b = (l.map Prod.snd : List V) := by
  obtain ⟨l', hl', rfl⟩ := h
  exact Multiset.coe_eq_coe.mpr ((hl'.perm hl).map _)

theorem Contents.empty : Contents (0 : Multiset V) fun _ : K => none := ⟨[], .nil, rfl⟩

variable [DecidableEq K] {b : Multiset (C × K)} {key : V → Option C}

theorem Lists.insert (h : Lists l f) (hk : f k = none) (v : V) :
    Lists ((k, v) :: l) (Function.update f k (some v)) := by
  have hnew : ∀ w, (k, w) ∉ l := by
    intro w hw
    rw [h.mem_iff, hk] at hw
    cases hw
  constructor
  · rw [List.map_cons, List.nodup_cons]
    refine ⟨fun hmem => ?_, h.nodup⟩
    obtain ⟨⟨k', w⟩, hw, rfl⟩ := List.mem_map.mp hmem
    exact hnew w hw
  · intro k' w
    rw [List.mem_cons, Prod.mk.injEq, h.mem_iff]
    by_cases hk' : k' = k
    · subst hk'
      rw [Function.update_self, hk, Option.some.injEq]
      constructor
      · rintro (⟨-, rfl⟩ | hnone)
        · rfl
        · cases hnone
      · rintro rfl
        exact .inl ⟨rfl, rfl⟩
    · rw [Function.update_of_ne hk']
      exact ⟨fun h => h.resolve_left fun h => hk' h.1, .inr⟩

/-- Removing a pair from its place. -/
theorem Lists.remove {a b : List (K × V)} {e : K × V} (h : Lists (a ++ e :: b) f) :
    Lists (a ++ b) (Function.update f e.1 none) := by
  obtain ⟨k, v⟩ := e
  have hperm : (a ++ (k, v) :: b).Perm ((k, v) :: (a ++ b)) := List.perm_middle
  have hn := List.nodup_cons.mp ((hperm.map Prod.fst).nodup_iff.mp h.nodup)
  refine ⟨hn.2, fun k' w => ?_⟩
  have hnew : ∀ w, (k, w) ∉ a ++ b := fun w hw => hn.1 (List.mem_map.mpr ⟨(k, w), hw, rfl⟩)
  by_cases hk' : k' = k
  · subst hk'
    rw [Function.update_self]
    exact ⟨fun hw => absurd hw (hnew w), (fun h => nomatch h)⟩
  · rw [Function.update_of_ne hk', ← h.mem_iff, hperm.mem_iff, List.mem_cons, Prod.mk.injEq]
    exact ⟨.inr, fun h => h.resolve_left fun h => hk' h.1⟩

/-- Removing a pair. -/
theorem Lists.erase (h : Lists l f) (hk : f k = some v) :
    ∃ l', l.Perm ((k, v) :: l') ∧ Lists l' (Function.update f k none) := by
  obtain ⟨a, b, rfl⟩ := List.append_of_mem ((h.mem_iff k v).mpr hk)
  exact ⟨a ++ b, List.perm_middle, h.remove⟩

theorem Contents.insert {b : Multiset V} (h : Contents b f) (hk : f k = none) (v : V) :
    Contents (v ::ₘ b) (Function.update f k (some v)) := by
  obtain ⟨l, hl, rfl⟩ := h
  exact ⟨_, hl.insert hk v, rfl⟩

theorem Contents.erase [DecidableEq V] {b : Multiset V} (h : Contents b f) (hk : f k = some v) :
    Contents (b.erase v) (Function.update f k none) := by
  obtain ⟨l, hl, rfl⟩ := h
  obtain ⟨l', hperm, hl'⟩ := hl.erase hk
  refine ⟨l', hl', ?_⟩
  have hp : (l.map Prod.snd : Multiset V) = v ::ₘ (l'.map Prod.snd : List V) :=
    Multiset.coe_eq_coe.mpr (hperm.map _)
  rw [hp, Multiset.erase_cons_head]

/-! ### Indexes -/

/-- The index entries of a listing: a pair for each value that has a key. -/
def indexEntries (key : V → Option C) (l : List (K × V)) : List (C × K) :=
  l.filterMap fun p => (key p.2).map fun c => (c, p.1)

omit [DecidableEq K] in
theorem indexEntries_concat (key : V → Option C) (l : List (K × V)) (p : K × V) :
    (indexEntries key (l ++ [p]) : Multiset (C × K)) = match key p.2 with
      | some c => (c, p.1) ::ₘ (indexEntries key l : Multiset (C × K))
      | none => indexEntries key l := by
  rw [indexEntries, List.filterMap_append, ← indexEntries]
  cases hp : key p.2 with
  | none => simp [hp]
  | some c =>
    rw [List.filterMap_cons_some (by rw [hp]; rfl), List.filterMap_nil]
    exact Multiset.coe_eq_coe.mpr List.perm_append_comm

omit [DecidableEq K] in
/-- The entries whose key passes a test belong to the values whose key does. -/
theorem indexEntries_filter (key : V → Option C) (p : C → Bool) (l : List (K × V)) :
    ((indexEntries key l).filter fun e => p e.1).map Prod.snd
      = (l.filter fun r => (key r.2).any p).map Prod.fst := by
  induction l with
  | nil => rfl
  | cons r l ih =>
    rw [indexEntries] at ih ⊢
    cases hk : key r.2 with
    | none => simp [hk, ih]
    | some c =>
      cases hp : p c <;> simp [hk, hp, ih]

/-- The bag `b` is the index of the map `f` under the key function. -/
def Mirrors (b : Multiset (C × K)) (key : V → Option C) (f : K → Option V) : Prop :=
  ∃ l, Lists l f ∧ b = indexEntries key l

omit [DecidableEq K] in
/-- The index read off any listing of the map. -/
theorem Mirrors.eq (h : Mirrors b key f) (hl : Lists l f) : b = indexEntries key l := by
  obtain ⟨l', hl', rfl⟩ := h
  exact Multiset.coe_eq_coe.mpr ((hl'.perm hl).filterMap _)

omit [DecidableEq K] in
/-- An entry of the index is one of a value. -/
theorem Mirrors.exists_of_mem (h : Mirrors b key f) {e : C × K} (he : e ∈ b) :
    ∃ v, f e.2 = some v ∧ key v = some e.1 := by
  obtain ⟨l, hl, rfl⟩ := h
  rw [Multiset.mem_coe, indexEntries, List.mem_filterMap] at he
  obtain ⟨⟨k, v⟩, hmem, heq⟩ := he
  obtain ⟨c, hc, rfl⟩ := Option.map_eq_some_iff.mp heq
  exact ⟨v, (hl.mem_iff k v).mp hmem, hc⟩

theorem Mirrors.insert (h : Mirrors b key f) (hk : f k = none) (v : V) :
    Mirrors (match key v with
      | some c => (c, k) ::ₘ b
      | none => b) key (Function.update f k (some v)) := by
  obtain ⟨l, hl, rfl⟩ := h
  refine ⟨_, hl.insert hk v, ?_⟩
  cases hv : key v with
  | none => simp [indexEntries, hv]
  | some c => simp [indexEntries, hv]

theorem Mirrors.erase [DecidableEq C] (h : Mirrors b key f) (hk : f k = some v) :
    Mirrors (match key v with
      | some c => b.erase (c, k)
      | none => b) key (Function.update f k none) := by
  obtain ⟨l, hl, rfl⟩ := h
  obtain ⟨l', hperm, hl'⟩ := hl.erase hk
  refine ⟨l', hl', ?_⟩
  have hp : (indexEntries key l : Multiset (C × K)) = indexEntries key ((k, v) :: l') :=
    Multiset.coe_eq_coe.mpr (hperm.filterMap _)
  cases hv : key v with
  | none =>
    simp only [hp]
    simp [indexEntries, hv]
  | some c =>
    simp only [hp]
    simp [indexEntries, hv]

end MiniDB
