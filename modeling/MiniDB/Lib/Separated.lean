import Mathlib.Data.List.TakeWhile
import Mathlib.Data.Multiset.Filter
import Mathlib.Order.Basic

/-!
# Entries with separators between them

The in-order traversal of a search tree whose entries are all in the leaves is a list of entries with
separator keys in between.  Much of what such a tree does is invisible there: moving a key from an
internal node to its parent or growing a new root changes nothing, splitting a leaf puts one
separator between two entries, and inserting into a leaf puts one entry into a gap between
separators.

`Ordered R` says that keys do not decrease along the list, where an entry left of a separator must be
related to it by `R`: `≤` for trees in which equal keys may be on both sides of a separator, `<` for
trees in which they are all on its right (`SepRel` is what the proofs use of `R`).  `Target` is the
gap a search for `k` ends in, `Inserted` the effect of an insertion there.
-/

namespace MiniDB.Separated

open List (append_assoc cons_append filter_append length_append length_map map_cons mem_append
  mem_cons mem_cons_self mem_map nil_append pairwise_append pairwise_cons perm_middle)

variable {K V : Type}

/-- An entry of a leaf or a separator key of an internal node. -/
inductive Item (K V : Type)
  | sep (s : K)
  | entry (e : K × V)

namespace Item

def key : Item K V → K
  | .sep s => s
  | .entry e => e.1

def entry? : Item K V → Option (K × V)
  | .sep _ => none
  | .entry e => some e

end Item

/-- The entries of a list of items. -/
def entries (xs : List (Item K V)) : List (K × V) := xs.filterMap Item.entry?

@[simp] theorem entries_nil : entries ([] : List (Item K V)) = [] := rfl

@[simp] theorem entries_append (xs ys : List (Item K V)) :
    entries (xs ++ ys) = entries xs ++ entries ys := List.filterMap_append

@[simp] theorem entries_sep (s : K) (xs : List (Item K V)) :
    entries (.sep s :: xs) = entries xs := rfl

@[simp] theorem entries_entry (e : K × V) (xs : List (Item K V)) :
    entries (.entry e :: xs) = e :: entries xs := rfl

@[simp] theorem entries_map (es : List (K × V)) :
    entries (es.map Item.entry) = es := by
  induction es with
  | nil => rfl
  | cons e es ih => rw [map_cons, entries_entry, ih]

variable {xs : List (Item K V)} {e : K × V}

theorem mem_entries : e ∈ entries xs ↔ .entry e ∈ xs := by
  simp only [entries, List.mem_filterMap]
  constructor
  · rintro ⟨x, hx, he⟩
    cases x with
    | sep s => cases he
    | entry e' =>
      obtain rfl : e' = e := Option.some.inj he
      exact hx
  · intro h
    exact ⟨_, h, rfl⟩

/-! ### Scanning -/

/-- Scan entries from the left: skip those that are `below`, collect the others and stop at the first
that is `above`; the flag tells whether that happened. -/
def collect (below above : K → Bool) : List (K × V) → List (K × V) × Bool
  | [] => ([], false)
  | e :: es =>
    if below e.1 then collect below above es
    else if above e.1 then ([], true)
    else (e :: (collect below above es).1, (collect below above es).2)

theorem collect_append (below above : K → Bool) (xs ys : List (K × V)) :
    collect below above (xs ++ ys) = if (collect below above xs).2 then collect below above xs
      else ((collect below above xs).1 ++ (collect below above ys).1,
        (collect below above ys).2) := by
  induction xs with
  | nil => rfl
  | cons e xs ih =>
    by_cases hb : below e.1 = true
    · simp only [cons_append, collect, ih, if_pos hb]
    · by_cases ha : above e.1 = true
      · simp only [cons_append, collect, if_neg hb, if_pos ha, if_true]
      · simp only [cons_append, collect, ih, if_neg hb, if_neg ha]
        split_ifs <;> rfl

variable {below above : K → Bool} {k s : K} {a b b' a' : List (Item K V)} {es l r : List (K × V)}
  {cap : Nat} {v : V} {ys : List (Item K V)}

/-- Skipping entries that are below changes nothing. -/
theorem collect_skip {xs : List (K × V)} (ys : List (K × V)) (h : ∀ e ∈ xs, below e.1 = true) :
    collect below above (xs ++ ys) = collect below above ys := by
  induction xs with
  | nil => rfl
  | cons e xs ih =>
    rw [cons_append, collect, if_pos (h e (mem_cons_self ..))]
    exact ih fun x hx => h x (List.mem_cons_of_mem _ hx)

/-- An entry taken out of a list of items. -/
def Removed (e : K × V) (xs ys : List (Item K V)) : Prop :=
  ∃ b a, xs = b ++ .entry e :: a ∧ ys = b ++ a

theorem Removed.perm (h : Removed e xs ys) : (entries xs).Perm (e :: entries ys) := by
  obtain ⟨b, a, rfl, rfl⟩ := h
  rw [entries_append, entries_append, entries_entry]
  exact perm_middle

variable [LinearOrder K]

/-! ### Order -/

/-- What the order of items needs of the relation between an entry and a separator on its right. -/
structure SepRel (R : K → K → Prop) : Prop where
  le : ∀ {a b}, R a b → a ≤ b
  of_lt : ∀ {a b}, a < b → R a b
  trans_le : ∀ {a b c}, R a b → b ≤ c → R a c

theorem sepRel_le : SepRel (fun a b : K => a ≤ b) :=
  ⟨fun h => h, fun h => h.le, fun h h' => h.trans h'⟩

theorem sepRel_lt : SepRel (fun a b : K => a < b) :=
  ⟨fun h => h.le, fun h => h, fun h h' => h.trans_le h'⟩

/-- Item `a` may stand left of item `b`. -/
def Before (R : K → K → Prop) : Item K V → Item K V → Prop
  | .entry e, .sep s => R e.1 s
  | .entry e, .entry e' => e.1 ≤ e'.1
  | .sep s, x => s ≤ x.key

/-- The keys do not decrease, and entries are left of separators by `R`. -/
def Ordered (R : K → K → Prop) (xs : List (Item K V)) : Prop := xs.Pairwise (Before R)

variable {R : K → K → Prop}

theorem Before.le (hR : SepRel R) {a b : Item K V} (h : Before R a b) : a.key ≤ b.key := by
  cases a with
  | sep s => exact h
  | entry e =>
    cases b with
    | sep s => exact hR.le h
    | entry e' => exact h

/-- The entries of an ordered list are sorted. -/
theorem Ordered.entries_sorted (h : Ordered R xs) : (entries xs).Pairwise fun a b => a.1 ≤ b.1 := by
  rw [entries, List.pairwise_filterMap]
  refine List.Pairwise.imp (fun {a b} hab e he e' he' => ?_) h
  cases a with
  | sep s => cases he
  | entry x =>
    cases b with
    | sep s => cases he'
    | entry y =>
      obtain rfl := Option.some.inj he
      obtain rfl := Option.some.inj he'
      exact hab

/-- An item put between two parts of an ordered list. -/
theorem Ordered.insert_item {x : Item K V} (h : Ordered R (xs ++ ys)) (hl : ∀ y ∈ xs, Before R y x)
    (hr : ∀ y ∈ ys, Before R x y) : Ordered R (xs ++ x :: ys) := by
  obtain ⟨hxs, hys, hxy⟩ := pairwise_append.mp h
  refine pairwise_append.mpr ⟨hxs, pairwise_cons.mpr ⟨hr, hys⟩, ?_⟩
  intro a ha b hb
  rcases mem_cons.mp hb with rfl | hb
  · exact hl a ha
  · exact hxy a ha b hb

/-! ### The gap of a key -/

/-- Nothing, or items up to a separator that is at most `k`. -/
def LeftBound (k : K) (before : List (Item K V)) : Prop :=
  before = [] ∨ ∃ b s, before = b ++ [.sep s] ∧ s ≤ k

/-- Nothing, or items from a separator on that is greater than `k`. -/
def RightBound (k : K) (after : List (Item K V)) : Prop :=
  after = [] ∨ ∃ s a, after = .sep s :: a ∧ k < s

theorem LeftBound.append (h : LeftBound k b) (h' : LeftBound k b') : LeftBound k (b ++ b') := by
  rcases h' with rfl | ⟨c, s, rfl, hs⟩
  · rwa [List.append_nil]
  · exact .inr ⟨b ++ c, s, (append_assoc ..).symm, hs⟩

theorem RightBound.append (h : RightBound k a) (h' : RightBound k a') : RightBound k (a ++ a') := by
  rcases h with rfl | ⟨s, c, rfl, hs⟩
  · exact h'
  · exact .inr ⟨s, c ++ a', rfl, hs⟩

/-- Items left of the gap are related to the separator they end with. -/
theorem LeftBound.before (hR : SepRel R) (hb : LeftBound k b) (h : Ordered R (b ++ ys)) :
    ∀ x ∈ b, ∃ s, .sep s ∈ b ∧ s ≤ k ∧ x.key ≤ s ∧
      (∀ e, x = .entry e → R e.1 s) ∧ ∀ y ∈ ys, s ≤ y.key := by
  rcases hb with rfl | ⟨c, s, rfl, hs⟩
  · intro x hx
    cases hx
  · obtain ⟨hcs, -, hxy⟩ := pairwise_append.mp h
    obtain ⟨-, -, hc⟩ := pairwise_append.mp hcs
    have hright : ∀ y ∈ ys, s ≤ y.key := fun y hy => hxy (.sep s) (by simp) y hy
    intro x hx
    refine ⟨s, by simp, hs, ?_⟩
    rcases mem_append.mp hx with hx | hx
    · have hxs := hc x hx (.sep s) (List.mem_singleton_self _)
      exact ⟨hxs.le hR, fun e he => by subst he; exact hxs, hright⟩
    · obtain rfl := List.mem_singleton.mp hx
      exact ⟨le_refl _, (fun e he => by cases he), hright⟩

/-- Items right of the gap are above `k`. -/
theorem RightBound.lt (hR : SepRel R) (ha : RightBound k a) (h : Ordered R a) :
    ∀ x ∈ a, k < x.key := by
  rcases ha with rfl | ⟨s, c, rfl, hs⟩
  · intro x hx
    cases hx
  · intro x hx
    rcases mem_cons.mp hx with rfl | hx
    · exact hs
    · exact lt_of_lt_of_le hs (((pairwise_cons.mp h).1 x hx).le hR)

/-- The items are those of the gap `es` that a search for `k` ends in, between `before` and
`after`. -/
structure Target (k : K) (xs before : List (Item K V)) (es : List (K × V))
    (after : List (Item K V)) : Prop where
  eq : xs = before ++ es.map .entry ++ after
  left : LeftBound k before
  right : RightBound k after

theorem Target.lift (h : Target k xs b es a) (hb : LeftBound k b') (ha : RightBound k a') :
    Target k (b' ++ xs ++ a') (b' ++ b) es (a ++ a') := by
  refine ⟨?_, hb.append h.left, h.right.append ha⟩
  rw [h.eq]
  simp only [append_assoc]

/-- Entries left of the gap are at most `k`. -/
theorem Target.left_le (hR : SepRel R) (h : Target k xs b es a) (ho : Ordered R xs) :
    ∀ x ∈ b, x.key ≤ k := by
  rw [h.eq, append_assoc] at ho
  intro x hx
  obtain ⟨s, -, hs, hxs, -⟩ := h.left.before hR ho x hx
  exact hxs.trans hs

/-- Entries left of the gap of a strictly separated list are below `k`. -/
theorem Target.left_lt (h : Target k xs b es a) (ho : Ordered (fun a b => a < b) xs) :
    ∀ e ∈ entries b, e.1 < k := by
  rw [h.eq, append_assoc] at ho
  intro e he
  obtain ⟨s, -, hs, -, hes, -⟩ := h.left.before sepRel_lt ho _ (mem_entries.mp he)
  exact lt_of_lt_of_le (hes e rfl) hs

theorem Target.right_lt (hR : SepRel R) (h : Target k xs b es a) (ho : Ordered R xs) :
    ∀ x ∈ a, k < x.key := by
  rw [h.eq] at ho
  exact h.right.lt hR (pairwise_append.mp ho).2.1

theorem Target.sorted (h : Target k xs b es a) (ho : Ordered R xs) :
    es.Pairwise fun a b => a.1 ≤ b.1 := by
  have hs := ho.entries_sorted
  rw [h.eq, entries_append, entries_append, entries_map] at hs
  exact (pairwise_append.mp (pairwise_append.mp hs).1).2.1

theorem Target.entries_eq (h : Target k xs b es a) : entries xs = entries b ++ (es ++ entries a) := by
  rw [h.eq, append_assoc, entries_append, entries_append, entries_map]

/-- The entries from the gap on are sorted. -/
theorem Target.seen_sorted (h : Target k xs b es a) (ho : Ordered R xs) :
    (es ++ entries a).Pairwise fun a b => a.1 ≤ b.1 := by
  have hs := ho.entries_sorted
  rw [h.entries_eq] at hs
  exact (pairwise_append.mp hs).2.1

/-- Looking from the gap on is enough if nothing left of it is looked for. -/
theorem Target.filter_seen (h : Target k xs b es a) {p : K → Bool} (hp : ∀ e ∈ entries b, p e.1 = false) :
    ((entries xs).filter fun e => p e.1) = (es ++ entries a).filter fun e => p e.1 := by
  have hnone : (entries b).filter (fun e => p e.1) = [] := by
    rw [List.filter_eq_nil_iff]
    intro e he
    simp [hp e he]
  rw [h.entries_eq, filter_append, hnone, nil_append]

/-- In an ordered list the gap of a key is unique. -/
theorem Target.unique {es' : List (K × V)} (hR : SepRel R) (ho : Ordered R xs) (h : Target k xs b es a)
    (h' : Target k xs b' es' a') : es = es' ∧ b = b' ∧ a = a' := by
  -- neither `before` part can be longer: its last separator is at most `k`, while the other
  -- list continues with entries and then with items above `k`
  have hlen : ∀ {b a b' a' : List (Item K V)} {es es' : List (K × V)}, Target k xs b es a →
      Target k xs b' es' a' → b'.length ≤ b.length := by
    intro b a b' a' es es' h h'
    by_contra hlt
    have hlt : b.length < b'.length := not_le.mp hlt
    rcases h'.left with rfl | ⟨c, s, rfl, hs⟩
    · simp at hlt
    · have hmem : Item.sep s ∈ es.map .entry ++ a := by
        have heq : (c ++ [Item.sep s]) ++ (es'.map .entry ++ a') = b ++ (es.map .entry ++ a) := by
          rw [← append_assoc, ← append_assoc, ← h'.eq, h.eq]
        have hc : b.length ≤ c.length := by
          rw [length_append, List.length_singleton] at hlt
          omega
        rw [append_assoc] at heq
        rcases List.append_eq_append_iff.mp heq with ⟨t, hbt, ht⟩ | ⟨t, hct, ht⟩
        · obtain rfl : t = [] := by
            rw [hbt, length_append] at hc
            exact List.eq_nil_of_length_eq_zero (by omega)
          rw [nil_append] at ht
          rw [← ht]
          exact mem_cons_self ..
        · rw [ht]
          exact List.mem_append_right _ (mem_cons_self ..)
      rcases mem_append.mp hmem with hmem | hmem
      · obtain ⟨e, -, he⟩ := mem_map.mp hmem
        cases he
      · exact absurd hs (not_le.mpr (h.right_lt hR ho _ hmem))
  have hb : b.length = b'.length := le_antisymm (hlen h' h) (hlen h h')
  have heq : b ++ (es.map .entry ++ a) = b' ++ (es'.map .entry ++ a') := by
    rw [← append_assoc, ← append_assoc, ← h.eq, h'.eq]
  obtain ⟨rfl, hrest⟩ := List.append_inj heq hb
  -- the entries stop where the next separator stands
  have hsep : ∀ {a a' : List (Item K V)} {es es' : List (K × V)}, RightBound k a →
      es.map .entry ++ a = es'.map .entry ++ a' → es'.length ≤ es.length := by
    intro a a' es es' ha heq
    by_contra hlt
    have hlt : es.length < es'.length := not_le.mp hlt
    rcases ha with rfl | ⟨s, c, rfl, -⟩
    · have := congrArg List.length heq
      simp only [length_append, length_map, List.length_nil] at this
      omega
    · have hget := congrArg (fun l => l[es.length]?) heq
      simp [List.getElem?_append, hlt] at hget
  have hes : (es.map Item.entry).length = (es'.map Item.entry).length := by
    rw [length_map, length_map]
    exact le_antisymm (hsep h'.right hrest.symm) (hsep h.right hrest)
  obtain ⟨hes, rfl⟩ := List.append_inj hrest hes
  refine ⟨?_, rfl, rfl⟩
  rw [← entries_map es, hes, entries_map]

/-! ### Inserting -/

/-- The entry goes before the first one that is not below it. -/
def insertSorted (k : K) (v : V) (es : List (K × V)) : List (K × V) :=
  es.takeWhile (fun e => e.1 < k) ++ (k, v) :: es.dropWhile (fun e => e.1 < k)

theorem perm_insertSorted (k : K) (v : V) (es : List (K × V)) :
    (insertSorted k v es).Perm ((k, v) :: es) := by
  have h : (insertSorted k v es).Perm
      ((k, v) :: (es.takeWhile (fun e => e.1 < k) ++ es.dropWhile fun e => e.1 < k)) :=
    perm_middle
  rwa [List.takeWhile_append_dropWhile] at h

theorem le_of_mem_dropWhile (hs : es.Pairwise fun a b => a.1 ≤ b.1) :
    ∀ e ∈ es.dropWhile (fun e => e.1 < k), k ≤ e.1 := by
  induction es with
  | nil => intro e he; cases he
  | cons x es ih =>
    obtain ⟨hx, hes⟩ := pairwise_cons.mp hs
    rw [List.dropWhile_cons]
    split_ifs with hlt
    · exact ih hes
    · have hk : k ≤ x.1 := by simpa using hlt
      intro e he
      rcases mem_cons.mp he with rfl | he
      · exact hk
      · exact hk.trans (hx e he)

/-- Inserting into its gap keeps the list ordered. -/
theorem Ordered.insert (hR : SepRel R) (v : V) (ho : Ordered R xs) (ht : Target k xs b es a) :
    Ordered R (b ++ (insertSorted k v es).map .entry ++ a) := by
  have hleft := ht.left_le hR ho
  have hright := ht.right_lt hR ho
  have hsorted := ht.sorted ho
  have hsplit : xs = (b ++ (es.takeWhile fun e => e.1 < k).map .entry) ++
      ((es.dropWhile fun e => e.1 < k).map .entry ++ a) := by
    rw [append_assoc, ← append_assoc (List.map _ _), ← List.map_append,
      List.takeWhile_append_dropWhile, ← append_assoc]
    exact ht.eq
  rw [hsplit] at ho
  have hgoal := ho.insert_item (x := .entry (k, v)) ?_ ?_
  · simpa [insertSorted] using hgoal
  · intro y hy
    have hk : y.key ≤ k := by
      rcases mem_append.mp hy with hy | hy
      · exact hleft y hy
      · obtain ⟨e, he, rfl⟩ := mem_map.mp hy
        have hlt : e.1 < k := by simpa using List.mem_takeWhile_imp he
        exact le_of_lt hlt
    cases y with
    | sep s => exact hk
    | entry e => exact hk
  · intro y hy
    rcases mem_append.mp hy with hy | hy
    · obtain ⟨e, he, rfl⟩ := mem_map.mp hy
      exact le_of_mem_dropWhile hsorted e he
    · have hk := hright y hy
      cases y with
      | sep s => exact hR.of_lt hk
      | entry e => exact le_of_lt hk

/-- Separating a gap into `l` and `r` by the first key of `r` keeps the list ordered if `l` may stand
left of that key. -/
theorem Ordered.separate (hR : SepRel R) (ho : Ordered R xs) (ht : Target k xs b (l ++ r) a)
    (hs : r.head?.map Prod.fst = some s) (hl : ∀ e ∈ l, R e.1 s) :
    Ordered R (b ++ l.map .entry ++ .sep s :: (r.map .entry ++ a)) := by
  obtain ⟨e₀, r', rfl, rfl⟩ : ∃ e₀ r', r = e₀ :: r' ∧ e₀.1 = s := by
    cases r with
    | nil => cases hs
    | cons e₀ r' => exact ⟨e₀, r', rfl, Option.some.inj hs⟩
  have hxs : xs = (b ++ l.map .entry) ++ ((e₀ :: r').map .entry ++ a) := by
    rw [ht.eq, List.map_append]
    simp only [append_assoc]
  rw [hxs] at ho
  refine ho.insert_item ?_ ?_
  · intro y hy
    rcases mem_append.mp hy with hy | hy
    · rw [append_assoc] at ho
      obtain ⟨s', -, -, hys, hye, hright⟩ := ht.left.before hR ho y hy
      have hs' : s' ≤ e₀.1 := hright (.entry e₀) (by simp)
      cases y with
      | sep s'' => exact hys.trans hs'
      | entry e => exact hR.trans_le (hye e rfl) hs'
    · obtain ⟨e, he, rfl⟩ := mem_map.mp hy
      exact hl e he
  · intro y hy
    obtain ⟨-, hr, -⟩ := pairwise_append.mp ho
    rw [map_cons, cons_append] at hr hy
    obtain ⟨hfirst, -⟩ := pairwise_cons.mp hr
    rcases mem_cons.mp hy with rfl | hy
    · exact le_refl _
    · exact (hfirst y hy).le hR

/-- A leaf split in two at the first key `s` of the right part: between different keys if there are
any. -/
structure LeafSplit (es l r : List (K × V)) (s : K) : Prop where
  eq : es = l ++ r
  left_ne : l ≠ []
  head_eq : r.head?.map Prod.fst = some s
  boundary : (∀ e, l.getLast? = some e → e.1 ≠ s) ∨ ∀ e ∈ es, e.1 = s

/-- The entry `(k, v)` is put into the gap of `k`; a gap of `cap` entries or more is first split in
two. -/
def Inserted (cap : Nat) (k : K) (v : V) (xs ys : List (Item K V)) : Prop :=
  ∃ b es a, Target k xs b es a ∧
    ((es.length < cap ∧ ys = b ++ (insertSorted k v es).map .entry ++ a) ∨
      (cap ≤ es.length ∧ ∃ l r s, LeafSplit es l r s ∧
        ((k < s ∧ ys = b ++ (insertSorted k v l).map .entry ++ .sep s :: (r.map .entry ++ a)) ∨
          (s ≤ k ∧
            ys = b ++ l.map .entry ++ .sep s :: ((insertSorted k v r).map .entry ++ a)))))

/-- The gap of `k` is full, and all its keys are equal. -/
def UniformFull (cap : Nat) (k : K) (xs : List (Item K V)) : Prop :=
  ∃ b es a, Target k xs b es a ∧ cap ≤ es.length ∧ ∀ e ∈ es, ∀ e' ∈ es, e.1 = e'.1

/-- A full gap of one key has as many entries with a key as fit. -/
theorem UniformFull.exists_key [DecidableEq K] (h : UniformFull cap k xs) :
    ∃ k', cap ≤ ((entries xs).filter fun e => decide (e.1 = k')).length := by
  obtain ⟨b, es, a, ht, hfull, hall⟩ := h
  cases es with
  | nil => exact ⟨k, hfull.trans (Nat.zero_le _)⟩
  | cons e es =>
    refine ⟨e.1, hfull.trans ?_⟩
    have heq : (e :: es).filter (fun e' => decide (e'.1 = e.1)) = e :: es :=
      List.filter_eq_self.mpr fun e' he' => decide_eq_true (hall e' he' e (mem_cons_self ..))
    rw [ht.entries_eq, filter_append, filter_append, heq, length_append,
      length_append]
    omega

theorem Inserted.lift (h : Inserted cap k v xs ys) (hb : LeftBound k b) (ha : RightBound k a) :
    Inserted cap k v (b ++ xs ++ a) (b ++ ys ++ a) := by
  obtain ⟨b', es, a', ht, h⟩ := h
  refine ⟨b ++ b', es, a' ++ a, ht.lift hb ha, ?_⟩
  rcases h with ⟨hlt, rfl⟩ | ⟨hle, l, r, s, hs, h⟩
  · exact .inl ⟨hlt, by simp only [append_assoc]⟩
  · refine .inr ⟨hle, l, r, s, hs, ?_⟩
    rcases h with ⟨hk, rfl⟩ | ⟨hk, rfl⟩
    · exact .inl ⟨hk, by simp only [append_assoc, cons_append]⟩
    · exact .inr ⟨hk, by simp only [append_assoc, cons_append]⟩

/-- A list without separators has one gap only. -/
theorem Inserted.eq_of_leaf (h : Inserted cap k v (es.map .entry) ys) (hcap : es.length < cap) :
    ys = (insertSorted k v es).map .entry := by
  have hsep : ∀ s : K, Item.sep s ∉ es.map (Item.entry (V := V)) := by
    intro s hs
    obtain ⟨e, -, he⟩ := mem_map.mp hs
    cases he
  obtain ⟨b, es', a, ht, h⟩ := h
  have heq := ht.eq
  obtain rfl : b = [] := by
    rcases ht.left with hb | ⟨b', s, rfl, -⟩
    · exact hb
    · exact absurd (by rw [heq]; simp) (hsep s)
  obtain rfl : a = [] := by
    rcases ht.right with ha | ⟨s, a', rfl, -⟩
    · exact ha
    · exact absurd (by rw [heq]; simp) (hsep s)
  obtain rfl : es = es' := by
    have := congrArg entries heq
    simpa using this
  rcases h with ⟨-, rfl⟩ | ⟨hle, -⟩
  · simp
  · omega

/-- The new entry joins the others. -/
theorem Inserted.perm (h : Inserted cap k v xs ys) : (entries ys).Perm ((k, v) :: entries xs) := by
  obtain ⟨b, es, a, ht, h⟩ := h
  have hins : ∀ (p q r : List (K × V)), (p ++ insertSorted k v q ++ r).Perm ((k, v) :: (p ++ q ++ r)) := by
    intro p q r
    rw [append_assoc, append_assoc]
    refine (((perm_insertSorted k v q).append_right r).append_left p).trans ?_
    exact perm_middle
  rw [ht.eq]
  rcases h with ⟨-, rfl⟩ | ⟨-, l, r, s, hs, h⟩
  · simpa using hins (entries b) es (entries a)
  · rw [hs.eq]
    rcases h with ⟨-, rfl⟩ | ⟨-, rfl⟩
    · simpa using hins (entries b) l (r ++ entries a)
    · simpa using hins (entries b ++ l) r (entries a)

/-- Inserting keeps the list ordered, provided the left part of a split leaf may stand left of the
new separator. -/
theorem Inserted.ordered_of (hR : SepRel R) (ho : Ordered R xs) (h : Inserted cap k v xs ys)
    (hl : ∀ b es a l r s, Target k xs b es a → cap ≤ es.length → LeafSplit es l r s →
      ∀ e ∈ l, R e.1 s) : Ordered R ys := by
  obtain ⟨b, es, a, ht, h⟩ := h
  rcases h with ⟨-, rfl⟩ | ⟨hle, l, r, s, hs, h⟩
  · exact ho.insert hR v ht
  · have hsep := (ho.separate hR (hs.eq ▸ ht) hs.head_eq (hl b es a l r s ht hle hs))
    rcases h with ⟨hk, rfl⟩ | ⟨hk, rfl⟩
    · refine hsep.insert hR v ⟨rfl, ht.left, .inr ⟨s, _, rfl, hk⟩⟩
    · have htarget : Target k (b ++ l.map .entry ++ .sep s :: (r.map .entry ++ a))
          (b ++ l.map .entry ++ [.sep s]) r a :=
        ⟨by simp, .inr ⟨_, s, rfl, hk⟩, ht.right⟩
      have := hsep.insert hR v htarget
      simpa using this

/-- The entries of a leaf to be split are sorted. -/
theorem LeafSplit.left_le (h : LeafSplit es l r s) (hs : es.Pairwise fun a b => a.1 ≤ b.1) :
    ∀ e ∈ l, e.1 ≤ s := by
  intro e he
  obtain ⟨e₀, he₀, rfl⟩ := Option.map_eq_some_iff.mp h.head_eq
  rw [h.eq] at hs
  exact (pairwise_append.mp hs).2.2 e he e₀ (List.mem_of_head? he₀)

theorem LeafSplit.left_lt (h : LeafSplit es l r s) (hs : es.Pairwise fun a b => a.1 ≤ b.1)
    (hne : ¬ ∀ e ∈ es, e.1 = s) : ∀ e ∈ l, e.1 < s := by
  have hb := h.boundary.resolve_right hne
  obtain ⟨l', x, rfl⟩ := (List.eq_nil_or_concat l).resolve_left h.left_ne
  rw [List.concat_eq_append] at h hb
  have hx : x.1 < s := lt_of_le_of_ne (h.left_le hs x (by simp)) (hb x (by simp))
  intro e he
  rw [List.concat_eq_append] at he
  rcases mem_append.mp he with he | he
  · rw [h.eq] at hs
    have hl := (pairwise_append.mp (pairwise_append.mp hs).1).2.2
    exact lt_of_le_of_lt (hl e he x (List.mem_singleton_self x)) hx
  · rwa [List.mem_singleton.mp he]

theorem Inserted.ordered_le (ho : Ordered (fun a b => a ≤ b) xs) (h : Inserted cap k v xs ys) :
    Ordered (fun a b => a ≤ b) ys :=
  h.ordered_of sepRel_le ho fun _ _ _ _ _ _ ht _ hs => hs.left_le (ht.sorted ho)

/-- Inserting keeps strict separation, unless it splits a leaf of equal keys. -/
theorem Inserted.ordered_lt (ho : Ordered (fun a b => a < b) xs) (h : Inserted cap k v xs ys)
    (hne : ¬ UniformFull cap k xs) : Ordered (fun a b => a < b) ys := by
  refine h.ordered_of sepRel_lt ho fun b es a l r s ht hle hs => hs.left_lt (ht.sorted ho) ?_
  intro huniform
  exact hne ⟨b, es, a, ht, hle, fun e he e' he' => (huniform e he).trans (huniform e' he').symm⟩

/-- Splitting a leaf of equal keys leaves one of them left of an equal separator. -/
theorem Inserted.not_strict (ho : Ordered (fun a b => a < b) xs) (h : Inserted cap k v xs ys)
    (hu : UniformFull cap k xs) : ¬ Ordered (fun a b => a < b) ys := by
  suffices hbad : ∃ e s ys₁ ys₂, ys = ys₁ ++ .sep s :: ys₂ ∧ .entry e ∈ ys₁ ∧ e.1 = s by
    obtain ⟨e, s, ys₁, ys₂, rfl, he, rfl⟩ := hbad
    intro hys
    exact lt_irrefl _ ((pairwise_append.mp hys).2.2 _ he (.sep e.1) (mem_cons_self ..))
  obtain ⟨b, es, a, ht, hle, hall⟩ := hu
  obtain ⟨b', es', a', ht', h⟩ := h
  obtain ⟨rfl, rfl, rfl⟩ := ht.unique sepRel_lt ho ht'
  rcases h with ⟨hlt, -⟩ | ⟨-, l, r, s, hs, h⟩
  · omega
  · obtain ⟨x, l', rfl⟩ := List.exists_cons_of_ne_nil hs.left_ne
    obtain ⟨e₀, he₀, hes⟩ := Option.map_eq_some_iff.mp hs.head_eq
    have hx : x.1 = s := by
      rw [← hes]
      apply hall
      · rw [hs.eq]; simp
      · rw [hs.eq]; exact List.mem_append_right _ (List.mem_of_head? he₀)
    rcases h with ⟨hk, rfl⟩ | ⟨hk, rfl⟩
    · refine ⟨x, s, _, _, rfl, ?_, hx⟩
      apply List.mem_append_right
      apply List.mem_map_of_mem
      exact (perm_insertSorted k v _).mem_iff.mpr (by simp)
    · exact ⟨x, s, _, _, rfl, by simp, hx⟩

/-- An entry left of a separator `k` is left of the gap of `k`. -/
theorem Target.mem_before (h : Target k xs b es a) (ho : Ordered (fun a b => a ≤ b) xs)
    (hsub : [Item.entry e, .sep k].Sublist xs) : e ∈ entries b := by
  have hright := h.right_lt sepRel_le ho
  rw [h.eq, append_assoc] at hsub
  obtain ⟨l₁, l₂, hl, hl₁, hl₂⟩ := List.sublist_append_iff.mp hsub
  -- the separator is not right of the gap, so the second part is empty
  have hnot : Item.sep k ∉ l₂ := by
    intro hmem
    rcases mem_append.mp (hl₂.subset hmem) with hmem | hmem
    · obtain ⟨x, -, hx⟩ := mem_map.mp hmem
      cases hx
    · exact lt_irrefl k (hright _ hmem)
  have hmem : Item.entry e ∈ l₁ := by
    cases l₁ with
    | nil =>
      rw [nil_append] at hl
      exact absurd (hl ▸ List.mem_cons_of_mem _ (List.mem_singleton_self _)) hnot
    | cons x l₁ =>
      obtain ⟨rfl, -⟩ := List.cons_eq_cons.mp hl
      exact mem_cons_self ..
  exact mem_entries.mpr (hl₁.subset hmem)

/-- If no search misses an entry with its key, the separation is strict. -/
theorem Ordered.strict_of_seen (ho : Ordered (fun a b => a ≤ b) xs)
    (hseen : ∀ k, ∃ b es a, Target k xs b es a ∧ ∀ e ∈ entries b, e.1 ≠ k) :
    Ordered (fun a b => a < b) xs := by
  refine List.pairwise_iff_forall_sublist.mpr fun {x y} hsub => ?_
  have hle := List.pairwise_iff_forall_sublist.mp ho hsub
  cases x with
  | sep s => exact hle
  | entry e =>
    cases y with
    | entry e' => exact hle
    | sep s =>
      obtain ⟨b, es, a, ht, hnot⟩ := hseen s
      exact lt_of_le_of_ne hle (hnot e (ht.mem_before ho hsub))

/-- On sorted entries the scan finds exactly those in between. -/
theorem collect_eq_filter (habove : ∀ a b, a ≤ b → above a = true → above b = true)
    (hs : es.Pairwise fun a b => a.1 ≤ b.1) :
    (collect below above es).1 = es.filter fun e => !below e.1 && !above e.1 := by
  induction es with
  | nil => rfl
  | cons e es ih =>
    obtain ⟨he, hes⟩ := pairwise_cons.mp hs
    rw [collect, List.filter_cons]
    by_cases hb : below e.1 = true
    · simp [hb, ih hes]
    · by_cases ha : above e.1 = true
      · have hnone : es.filter (fun e => !below e.1 && !above e.1) = [] := by
          rw [List.filter_eq_nil_iff]
          intro x hx
          simp [habove _ _ (he x hx) ha]
        simp [hb, ha, hnone]
      · simp [hb, ha, ih hes]

/-- On sorted entries the scan for one key finds those with that key. -/
theorem collect_key (hs : es.Pairwise fun a b => a.1 ≤ b.1) :
    (collect (fun x => decide (x < k)) (fun x => decide (x > k)) es).1
      = es.filter fun e => e.1 = k := by
  rw [collect_eq_filter _ hs]
  · apply List.filter_congr
    intro e _
    rw [Bool.eq_iff_iff]
    simp only [Bool.and_eq_true, Bool.not_eq_true', decide_eq_false_iff_not, not_lt,
      decide_eq_true_iff, gt_iff_lt]
    exact ⟨fun h => le_antisymm h.2 h.1, fun h => ⟨h.ge, h.le⟩⟩
  · intro a b hab ha
    simp only [gt_iff_lt, decide_eq_true_eq] at ha ⊢
    exact lt_of_lt_of_le ha hab

theorem Removed.ordered (h : Removed e xs ys) (ho : Ordered R xs) : Ordered R ys := by
  obtain ⟨b, a, rfl, rfl⟩ := h
  exact List.Pairwise.sublist ((List.sublist_cons_self ..).append_left b) ho

end MiniDB.Separated
