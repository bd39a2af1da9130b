import MiniDB.Lib.Separated

/-!
# B+trees as values

`Tree I K V d` is the type of trees of depth `d`: all leaves have the same depth by construction.
Nodes carry a name of type `I`.  A tree is seen through three lists: its leaves from left to right,
its internal nodes, and its in-order items (entries with separators, `Separated`).

`Split` is the splitting of a node in two, and `Located` says to which leaf the descent for a key
leads.  What both do to the lists above a node is computed from what they do at the node
(`items_inner`, `Located.inner`, `Split.inserted`).
-/

namespace MiniDB.BTree

open Separated
open List (append_assoc append_nil cons_append flatMap_append flatMap_cons length_append
  length_cons length_map length_take map_append map_cons mem_append mem_append_left
  mem_append_right mem_cons mem_cons_of_mem mem_cons_self mem_map nil_append pairwise_append
  perm_middle take_append_drop)

/-- Trees of depth `d`: a leaf has entries, an internal node has keys and children. -/
def Tree (I K V : Type) : Nat → Type
  | 0 => I × List (K × V)
  | d + 1 => I × List K × List (Tree I K V d)

variable {I K V : Type} {d : Nat} {t : Tree I K V d} {l : I × List (K × V)}

def leaf (id : I) (es : List (K × V)) : Tree I K V 0 := (id, es)

def inner (id : I) (ks : List K) (cs : List (Tree I K V d)) : Tree I K V (d + 1) := (id, ks, cs)

theorem exists_leaf (t : Tree I K V 0) : ∃ id es, t = leaf id es := ⟨t.1, t.2, rfl⟩

theorem exists_inner (t : Tree I K V (d + 1)) : ∃ id ks cs, t = inner id ks cs :=
  ⟨t.1, t.2.1, t.2.2, rfl⟩

/-! ### Views of a tree -/

/-- The name of the root. -/
def rootId : {d : Nat} → Tree I K V d → I
  | 0, t => t.1
  | _ + 1, t => t.1

/-- The names and entries of the leaves, from left to right. -/
def leaves : {d : Nat} → Tree I K V d → List (I × List (K × V))
  | 0, t => [t]
  | _ + 1, t => t.2.2.flatMap fun c => leaves c

/-- The names, keys and children's names of the internal nodes. -/
def inners : {d : Nat} → Tree I K V d → List (I × List K × List I)
  | 0, _ => []
  | _ + 1, t => (t.1, t.2.1, t.2.2.map rootId) :: t.2.2.flatMap fun c => inners c

/-- The names of all nodes. -/
def ids : {d : Nat} → Tree I K V d → List I
  | 0, t => [t.1]
  | _ + 1, t => t.1 :: t.2.2.flatMap fun c => ids c

/-- Separators, each with the items of the child on its right. -/
def joinRight : List K → List (List (Item K V)) → List (Item K V)
  | k :: ks, c :: cs => .sep k :: (c ++ joinRight ks cs)
  | _, _ => []

/-- The items of children, each with the separator on its right. -/
def joinLeft : List (List (Item K V)) → List K → List (Item K V)
  | c :: cs, k :: ks => c ++ .sep k :: joinLeft cs ks
  | _, _ => []

/-- Children with separators in between. -/
def interleave (ks : List K) : List (List (Item K V)) → List (Item K V)
  | [] => []
  | c :: cs => c ++ joinRight ks cs

/-- The in-order items. -/
def items : {d : Nat} → Tree I K V d → List (Item K V)
  | 0, t => t.2.map .entry
  | _ + 1, t => interleave t.2.1 (t.2.2.map fun c => items c)

section Equations

variable (id : I) (es : List (K × V)) (ks : List K) (cs : List (Tree I K V d))

@[simp] theorem rootId_leaf : rootId (leaf id es) = id := rfl

@[simp] theorem rootId_inner : rootId (inner id ks cs) = id := rfl

@[simp] theorem leaves_leaf : leaves (leaf id es) = [(id, es)] := rfl

@[simp] theorem leaves_inner : leaves (inner id ks cs) = cs.flatMap leaves := rfl

@[simp] theorem inners_leaf : inners (leaf id es) = [] := rfl

@[simp] theorem inners_inner :
    inners (inner id ks cs) = (id, ks, cs.map rootId) :: cs.flatMap inners := rfl

@[simp] theorem ids_leaf : ids (leaf id es) = [id] := rfl

@[simp] theorem ids_inner : ids (inner id ks cs) = id :: cs.flatMap ids := rfl

@[simp] theorem items_leaf : items (leaf id es) = es.map .entry := rfl

theorem items_inner_eq : items (inner id ks cs) = interleave ks (cs.map items) := rfl

end Equations

/-! ### Names -/

theorem rootId_mem_ids (t : Tree I K V d) : rootId t ∈ ids t := by
  cases d with
  | zero => exact List.mem_singleton_self _
  | succ d => exact mem_cons_self ..

/-- The names are those of the leaves and of the internal nodes. -/
theorem ids_perm (t : Tree I K V d) :
    (ids t).Perm ((leaves t).map Prod.fst ++ (inners t).map Prod.fst) := by
  induction d with
  | zero => exact List.Perm.refl _
  | succ d ih =>
    obtain ⟨id, ks, cs, rfl⟩ := exists_inner t
    rw [ids_inner, leaves_inner, inners_inner, map_cons, List.map_flatMap, List.map_flatMap]
    refine (List.Perm.cons id ?_).trans perm_middle.symm
    exact (List.Perm.flatMap_left cs fun c _ => ih c).trans (List.flatMap_append_perm cs _ _).symm

theorem mem_ids_of_leaf (h : l ∈ leaves t) : l.1 ∈ ids t :=
  (ids_perm t).mem_iff.mpr (mem_append_left _ (List.mem_map_of_mem h))

theorem mem_ids_of_inner {n : I × List K × List I} (h : n ∈ inners t) : n.1 ∈ ids t :=
  (ids_perm t).mem_iff.mpr (mem_append_right _ (List.mem_map_of_mem h))

/-- Every name is that of a leaf or of an internal node. -/
theorem exists_of_mem_ids {i : I} (h : i ∈ ids t) :
    (∃ l ∈ leaves t, l.1 = i) ∨ ∃ n ∈ inners t, n.1 = i := by
  rcases mem_append.mp ((ids_perm t).mem_iff.mp h) with h | h
  · exact .inl (mem_map.mp h)
  · exact .inr (mem_map.mp h)

theorem length_leaves_le (t : Tree I K V d) : (leaves t).length ≤ (ids t).length := by
  have hlen := (ids_perm t).length_eq
  rw [length_append, length_map, length_map] at hlen
  omega

/-- The names below an internal node: those of one child and the others. -/
theorem ids_inner_perm (id : I) (ks : List K) (cs₁ cs₂ cs : List (Tree I K V d)) :
    (ids (inner id ks (cs₁ ++ (cs ++ cs₂)))).Perm
      (cs.flatMap ids ++ id :: (cs₁ ++ cs₂).flatMap ids) := by
  rw [ids_inner, flatMap_append, flatMap_append, flatMap_append]
  refine (List.Perm.cons id ?_).trans perm_middle.symm
  exact List.perm_append_comm_assoc ..

/-! ### Items of an internal node -/

variable {ks₁ ks₂ ks : List K} {cs₁ cs₂ cs : List (Tree I K V d)} {id : I}
  {ls₁ ls₂ : List (I × List (K × V))}

theorem joinRight_append {cs₁ cs₂ : List (List (Item K V))} (h : ks₁.length = cs₁.length) :
    joinRight (ks₁ ++ ks₂) (cs₁ ++ cs₂) = joinRight ks₁ cs₁ ++ joinRight ks₂ cs₂ := by
  induction ks₁ generalizing cs₁ with
  | nil =>
    obtain rfl := List.eq_nil_of_length_eq_zero h.symm
    rfl
  | cons k ks ih =>
    cases cs₁ with
    | nil => cases h
    | cons c cs =>
      rw [cons_append, cons_append, joinRight, ih (Nat.succ.inj h), joinRight]
      simp only [append_assoc, cons_append]

theorem interleave_split {cs₁ cs₂ : List (List (Item K V))} {c : List (Item K V)}
    (h : ks₁.length = cs₁.length) :
    interleave (ks₁ ++ ks₂) (cs₁ ++ c :: cs₂) = joinLeft cs₁ ks₁ ++ c ++ joinRight ks₂ cs₂ := by
  induction ks₁ generalizing cs₁ with
  | nil =>
    obtain rfl := List.eq_nil_of_length_eq_zero h.symm
    rfl
  | cons k ks ih =>
    cases cs₁ with
    | nil => cases h
    | cons x cs =>
      have hrest := ih (Nat.succ.inj h)
      cases cs with
      | nil =>
        obtain rfl := List.eq_nil_of_length_eq_zero (Nat.succ.inj h)
        simp [interleave, joinRight, joinLeft]
      | cons y cs =>
        simp only [cons_append, interleave, joinRight, joinLeft, append_assoc] at hrest ⊢
        rw [hrest]

/-- The items of an internal node around one of its children. -/
theorem items_inner (id : I) (c : Tree I K V d) (h : ks₁.length = cs₁.length) :
    items (inner id (ks₁ ++ ks₂) (cs₁ ++ c :: cs₂))
      = joinLeft (cs₁.map items) ks₁ ++ items c ++ joinRight ks₂ (cs₂.map items) := by
  rw [items_inner_eq, map_append, map_cons, interleave_split (by rw [h, length_map])]

/-- The items of an internal node around two neighbouring children. -/
theorem items_inner_pair (id : I) (c c' : Tree I K V d) (s : K) (h : ks₁.length = cs₁.length) :
    items (inner id (ks₁ ++ s :: ks₂) (cs₁ ++ c :: c' :: cs₂))
      = joinLeft (cs₁.map items) ks₁ ++ (items c ++ .sep s :: items c')
        ++ joinRight ks₂ (cs₂.map items) := by
  rw [items_inner id c h, map_cons, joinRight]
  simp only [append_assoc, cons_append]

theorem entries_joinLeft (h : ks.length = cs.length) :
    entries (joinLeft (cs.map items) ks) = cs.flatMap fun c => entries (items c) := by
  induction cs generalizing ks with
  | nil =>
    obtain rfl := List.eq_nil_of_length_eq_zero h
    rfl
  | cons c cs ih =>
    cases ks with
    | nil => cases h
    | cons k ks =>
      rw [map_cons, joinLeft, entries_append, entries_sep, ih (Nat.succ.inj h),
        flatMap_cons]

theorem entries_joinRight (h : ks.length = cs.length) :
    entries (joinRight ks (cs.map items)) = cs.flatMap fun c => entries (items c) := by
  induction cs generalizing ks with
  | nil =>
    obtain rfl := List.eq_nil_of_length_eq_zero h
    rfl
  | cons c cs ih =>
    cases ks with
    | nil => cases h
    | cons k ks =>
      rw [map_cons, joinRight, entries_sep, entries_append, ih (Nat.succ.inj h),
        flatMap_cons]

theorem sublist_joinRight {cs : List (List (Item K V))} (h : ks.length = cs.length) :
    (ks.map Item.sep).Sublist (joinRight ks cs) := by
  induction ks generalizing cs with
  | nil => exact List.nil_sublist _
  | cons k ks ih =>
    cases cs with
    | nil => cases h
    | cons c cs =>
      rw [map_cons, joinRight]
      exact ((ih (Nat.succ.inj h)).trans (List.sublist_append_right c _)).cons_cons _

theorem mem_joinLeft {cs : List (List (Item K V))} (h : ks.length = cs.length) {s : K} (hs : s ∈ ks) :
    Item.sep s ∈ joinLeft cs ks := by
  induction ks generalizing cs with
  | nil => cases hs
  | cons k ks ih =>
    cases cs with
    | nil => cases h
    | cons c cs =>
      rw [joinLeft, mem_append, mem_cons]
      rcases mem_cons.mp hs with rfl | hs
      · exact .inr (.inl rfl)
      · exact .inr (.inr (ih (Nat.succ.inj h) hs))

/-! ### Shape -/

/-- Nodes are within their capacities, and an internal node has one child more than keys. -/
def Wf (leafCap innerCap : Nat) : {d : Nat} → Tree I K V d → Prop
  | 0, t => t.2.length ≤ leafCap
  | _ + 1, t => t.2.1.length ≤ innerCap ∧ t.2.2.length = t.2.1.length + 1 ∧
    ∀ c ∈ t.2.2, Wf leafCap innerCap c

/-- There is no room for another key. -/
def Full (leafCap innerCap : Nat) : {d : Nat} → Tree I K V d → Prop
  | 0, t => leafCap ≤ t.2.length
  | _ + 1, t => innerCap ≤ t.2.1.length

variable {leafCap innerCap : Nat}

theorem wf_leaf {es : List (K × V)} :
    Wf leafCap innerCap (leaf id es) ↔ es.length ≤ leafCap := Iff.rfl

theorem wf_inner :
    Wf leafCap innerCap (inner id ks cs) ↔ ks.length ≤ innerCap ∧ cs.length = ks.length + 1 ∧
      ∀ c ∈ cs, Wf leafCap innerCap c := Iff.rfl

theorem full_leaf {es : List (K × V)} :
    Full leafCap innerCap (leaf id es) ↔ leafCap ≤ es.length := Iff.rfl

theorem full_inner :
    Full leafCap innerCap (inner id ks cs) ↔ innerCap ≤ ks.length := Iff.rfl

theorem Wf.child {c : Tree I K V d} (h : Wf leafCap innerCap (inner id ks (cs₁ ++ c :: cs₂))) :
    Wf leafCap innerCap c :=
  (wf_inner.mp h).2.2 c (mem_append_right _ (mem_cons_self ..))

theorem Wf.replace {c c' : Tree I K V d} (h : Wf leafCap innerCap (inner id ks (cs₁ ++ c :: cs₂)))
    (h' : Wf leafCap innerCap c') :
    Wf leafCap innerCap (inner id ks (cs₁ ++ c' :: cs₂)) := by
  obtain ⟨hle, hlen, hcs⟩ := wf_inner.mp h
  refine wf_inner.mpr ⟨hle, by simpa using hlen, fun x hx => ?_⟩
  rcases mem_append.mp hx with hx | hx
  · exact hcs x (mem_append_left _ hx)
  · rcases mem_cons.mp hx with rfl | hx
    · exact h'
    · exact hcs x (mem_append_right _ (mem_cons_of_mem _ hx))

/-- A well-formed tree has a leaf, and a node on each level. -/
theorem Wf.leaves_ne_nil (h : Wf leafCap innerCap t) : leaves t ≠ [] := by
  induction d with
  | zero => exact List.cons_ne_nil _ _
  | succ d ih =>
    obtain ⟨id, ks, cs, rfl⟩ := exists_inner t
    obtain ⟨-, hlen, hcs⟩ := wf_inner.mp h
    cases cs with
    | nil => cases hlen
    | cons c cs =>
      rw [leaves_inner, flatMap_cons]
      exact List.append_ne_nil_of_left_ne_nil (ih (hcs c (mem_cons_self ..))) _

theorem Wf.depth_lt (h : Wf leafCap innerCap t) : d < (ids t).length := by
  induction d with
  | zero => exact Nat.zero_lt_one
  | succ d ih =>
    obtain ⟨id, ks, cs, rfl⟩ := exists_inner t
    obtain ⟨-, hlen, hcs⟩ := wf_inner.mp h
    cases cs with
    | nil => cases hlen
    | cons c cs =>
      have := ih (hcs c (mem_cons_self ..))
      rw [ids_inner, flatMap_cons, length_cons, length_append]
      omega

/-- The entries among the items are those of the leaves. -/
theorem Wf.entries_items (h : Wf leafCap innerCap t) :
    entries (items t) = (leaves t).flatMap Prod.snd := by
  induction d with
  | zero =>
    obtain ⟨id, es, rfl⟩ := exists_leaf t
    simp
  | succ d ih =>
    obtain ⟨id, ks, cs, rfl⟩ := exists_inner t
    obtain ⟨-, hlen, hcs⟩ := wf_inner.mp h
    cases cs with
    | nil => cases hlen
    | cons c cs =>
      have hsplit : items (inner id ([] ++ ks) ([] ++ c :: cs)) = _ := items_inner id c rfl
      rw [nil_append, nil_append] at hsplit
      rw [hsplit, entries_append, entries_append,
        entries_joinRight (show ks.length = cs.length from (Nat.succ.inj hlen).symm), leaves_inner,
        flatMap_cons, flatMap_append, ih (hcs c (mem_cons_self ..)),
        List.flatMap_assoc]
      simp only [List.map_nil, joinLeft, entries_nil, nil_append]
      congr 1
      apply List.flatMap_congr
      intro x hx
      exact ih (hcs x (mem_cons_of_mem _ hx))

/-- The entries of well-formed children. -/
theorem flatMap_entries (h : ∀ c ∈ cs, Wf leafCap innerCap c) :
    (cs.flatMap fun c => entries (items c)) = (cs.flatMap leaves).flatMap Prod.snd := by
  rw [List.flatMap_assoc]
  apply List.flatMap_congr
  intro c hc
  exact (h c hc).entries_items

/-! ### Changing a leaf -/

/-- A leaf of a node is a leaf of one of its children. -/
theorem flatMap_leaves_split (h : cs.flatMap leaves = ls₁ ++ l :: ls₂) :
    ∃ cs₁ c cs₂ m₁ m₂, cs = cs₁ ++ c :: cs₂ ∧ leaves c = m₁ ++ l :: m₂ ∧
      ls₁ = cs₁.flatMap leaves ++ m₁ ∧ ls₂ = m₂ ++ cs₂.flatMap leaves := by
  induction cs generalizing ls₁ with
  | nil => simp at h
  | cons x cs ih =>
    rw [flatMap_cons] at h
    rcases List.append_eq_append_iff.mp h with ⟨m, rfl, hm⟩ | ⟨m, hx, hm⟩
    · obtain ⟨cs₁, c, cs₂, m₁, m₂, rfl, hc, rfl, rfl⟩ := ih hm
      exact ⟨x :: cs₁, c, cs₂, m₁, m₂, rfl, hc, by simp, rfl⟩
    · cases m with
      | nil =>
        have hcs : cs.flatMap leaves = [] ++ l :: ls₂ := hm.symm
        obtain ⟨cs₁, c, cs₂, m₁, m₂, rfl, hc, hnil, rfl⟩ := ih hcs
        refine ⟨x :: cs₁, c, cs₂, m₁, m₂, rfl, hc, ?_, rfl⟩
        rw [flatMap_cons, append_assoc, ← hnil, append_nil, hx, append_nil]
      | cons y m =>
        obtain ⟨rfl, rfl⟩ : l = y ∧ ls₂ = m ++ cs.flatMap leaves := by simpa using hm
        exact ⟨[], x, cs, ls₁, m, rfl, hx, by simp, rfl⟩

/-- A leaf given other entries: all else stays as it is. -/
theorem exists_setLeaf (hwf : Wf leafCap innerCap t) {es : List (K × V)}
    (h : leaves t = ls₁ ++ (id, es) :: ls₂) {es' : List (K × V)} (hle : es'.length ≤ leafCap) :
    ∃ t' : Tree I K V d, leaves t' = ls₁ ++ (id, es') :: ls₂ ∧ inners t' = inners t ∧
      ids t' = ids t ∧ rootId t' = rootId t ∧ Wf leafCap innerCap t' ∧
      ∃ b a, items t = b ++ es.map .entry ++ a ∧ items t' = b ++ es'.map .entry ++ a := by
  induction d generalizing ls₁ ls₂ with
  | zero =>
    obtain ⟨i, xs, rfl⟩ := exists_leaf t
    rw [leaves_leaf] at h
    obtain ⟨rfl, h⟩ : ls₁ = [] ∧ (id, es) :: ls₂ = [(i, xs)] := by
      cases ls₁ with
      | nil => exact ⟨rfl, h.symm⟩
      | cons y ys => simp at h
    obtain ⟨⟨rfl, rfl⟩, rfl⟩ : (i = id ∧ xs = es) ∧ ls₂ = [] := by simpa using h
    exact ⟨leaf i es', rfl, rfl, rfl, rfl, hle, [], [], by simp, by simp⟩
  | succ d ih =>
    obtain ⟨i, ks, cs, rfl⟩ := exists_inner t
    obtain ⟨cs₁, c, cs₂, m₁, m₂, rfl, hc, rfl, rfl⟩ := flatMap_leaves_split h
    obtain ⟨c', hlv, hin, hids, hroot, hwf', b, a, hb, ha⟩ := ih hwf.child hc
    obtain ⟨-, hlen, -⟩ := wf_inner.mp hwf
    -- the keys left and right of the child
    have hks := (take_append_drop cs₁.length ks).symm
    have h₁ : (ks.take cs₁.length).length = cs₁.length := by
      rw [length_append, length_cons] at hlen
      rw [length_take]
      omega
    refine ⟨inner i ks (cs₁ ++ c' :: cs₂), ?_, ?_, ?_, rfl, hwf.replace hwf',
      joinLeft (cs₁.map items) (ks.take cs₁.length) ++ b,
      a ++ joinRight (ks.drop cs₁.length) (cs₂.map items), ?_, ?_⟩
    · rw [leaves_inner, flatMap_append, flatMap_cons, hlv]
      simp
    · rw [inners_inner, inners_inner, flatMap_append, flatMap_append, flatMap_cons,
        flatMap_cons, hin, map_append, map_append, map_cons, map_cons, hroot]
    · rw [ids_inner, ids_inner, flatMap_append, flatMap_append, flatMap_cons,
        flatMap_cons, hids]
    · rw [hks, items_inner i c h₁, hb, ← hks]
      simp only [append_assoc]
    · rw [hks, items_inner i c' h₁, ha, ← hks]
      simp only [append_assoc]

/-! ### Splitting -/

/-- A node split in two: the left half keeps its name, the right half is named `r`, and `s` goes
between them.  A leaf keeps all its entries; an internal node gives up the key `s`. -/
inductive Split (r : I) : {d : Nat} → Tree I K V d → Tree I K V d → K → Tree I K V d → Prop
  | leaf {id : I} {es l m : List (K × V)} {s : K} :
      LeafSplit es l m s → Split r (leaf id es) (leaf id l) s (leaf r m)
  | inner {d : Nat} {id : I} {ks₁ ks₂ : List K} {cs₁ cs₂ : List (Tree I K V d)} {s : K} :
      cs₁.length = ks₁.length + 1 → cs₂.length = ks₂.length + 1 →
      Split r (inner id (ks₁ ++ s :: ks₂) (cs₁ ++ cs₂)) (inner id ks₁ cs₁) s (inner r ks₂ cs₂)

section Split

variable {r : I} {c cl cr : Tree I K V d} {s : K}

theorem Split.rootId_left (h : Split r c cl s cr) : rootId cl = rootId c := by
  cases h <;> rfl

theorem Split.rootId_right (h : Split r c cl s cr) : rootId cr = r := by
  cases h <;> rfl

theorem Split.ids_perm (h : Split r c cl s cr) : (ids cl ++ ids cr).Perm (r :: ids c) := by
  cases h with
  | leaf _ => exact List.Perm.swap ..
  | inner _ _ =>
    simp only [ids_inner, flatMap_append, cons_append]
    exact ((perm_middle).cons _).trans (List.Perm.swap ..)

theorem Split.wf (h : Split r c cl s cr) (hc : Wf leafCap innerCap c) :
    Wf leafCap innerCap cl ∧ Wf leafCap innerCap cr ∧ ¬ Full leafCap innerCap cl ∧
      ¬ Full leafCap innerCap cr := by
  cases h with
  | leaf hs =>
    rename_i id es l m
    rw [wf_leaf] at hc
    have hl : 0 < l.length := List.length_pos_of_ne_nil hs.left_ne
    have hm : 0 < m.length := by
      cases m with
      | nil => cases hs.head_eq
      | cons => exact Nat.succ_pos _
    rw [hs.eq, length_append] at hc
    simp only [wf_leaf, full_leaf]
    omega
  | inner h₁ h₂ =>
    obtain ⟨hle, hlen, hcs⟩ := wf_inner.mp hc
    rw [length_append, length_cons] at hle
    simp only [wf_inner, full_inner]
    exact ⟨⟨by omega, h₁, fun x hx => hcs x (mem_append_left _ hx)⟩,
      ⟨by omega, h₂, fun x hx => hcs x (mem_append_right _ hx)⟩, by omega, by omega⟩

theorem wf_inner_split (h : Split r c cl s cr)
    (hp : Wf leafCap innerCap (inner id (ks₁ ++ ks₂) (cs₁ ++ c :: cs₂)))
    (hroom : ¬ Full leafCap innerCap (inner id (ks₁ ++ ks₂) (cs₁ ++ c :: cs₂))) :
    Wf leafCap innerCap (inner id (ks₁ ++ s :: ks₂) (cs₁ ++ cl :: cr :: cs₂)) := by
  obtain ⟨hl, hr, -⟩ := h.wf hp.child
  obtain ⟨-, hlen, hcs⟩ := wf_inner.mp hp
  rw [full_inner, not_le] at hroom
  simp only [length_append, length_cons] at hlen hroom
  refine wf_inner.mpr ⟨?_, ?_, fun x hx => ?_⟩
  · rw [length_append, length_cons]
    omega
  · simp only [length_append, length_cons]
    omega
  · rw [mem_append, mem_cons, mem_cons] at hx
    rcases hx with hx | rfl | rfl | hx
    · exact hcs x (mem_append_left _ hx)
    · exact hl
    · exact hr
    · exact hcs x (mem_append_right _ (mem_cons_of_mem _ hx))

/-- The leaves of the halves: those of the node, or the two halves of a leaf. -/
theorem Split.head_leaf (h : Split r c cl s cr) (hc : Wf leafCap innerCap c) :
    (leaves cl).head?.map Prod.fst = (leaves c).head?.map Prod.fst := by
  cases h with
  | leaf _ => rfl
  | inner h₁ h₂ =>
    rename_i d id ks₁ ks₂ cs₁ cs₂
    obtain ⟨-, -, hcs⟩ := wf_inner.mp hc
    cases cs₁ with
    | nil => cases h₁
    | cons x cs₁ =>
      have hne := (hcs x (by simp)).leaves_ne_nil
      rw [leaves_inner, leaves_inner, cons_append, flatMap_cons, flatMap_cons,
        List.head?_append_of_ne_nil _ hne, List.head?_append_of_ne_nil _ hne]

theorem Split.items_inner {c cl cr : Tree I K V (d + 1)} (h : Split r c cl s cr) :
    items c = items cl ++ .sep s :: items cr := by
  cases h with
  | inner h₁ h₂ =>
    rename_i id ks₁ ks₂ cs₁ cs₂
    obtain ⟨x, cs₁, rfl⟩ := List.exists_cons_of_length_eq_add_one h₁
    obtain ⟨y, cs₂, rfl⟩ := List.exists_cons_of_length_eq_add_one h₂
    rw [items_inner_eq, items_inner_eq, items_inner_eq, map_append, map_cons,
      map_cons, cons_append, interleave, interleave, interleave,
      joinRight_append (by rw [length_map]; exact (Nat.succ.inj h₁).symm), joinRight,
      append_assoc]

end Split

/-! ### Descending -/

variable [LinearOrder K] {k : K} {zs : List (Item K V)}

/-- The keys of a node fall into those at most `k` and a rest that starts above `k`. -/
structure Routed (k : K) (ks₁ ks₂ : List K) : Prop where
  left : ∀ s ∈ ks₁, s ≤ k
  right : ∀ s, ks₂.head? = some s → k < s

/-- The loop that looks for the child stops where the keys divide. -/
theorem Routed.takeWhile_eq (h : Routed k ks₁ ks₂) : (ks₁ ++ ks₂).takeWhile (fun s => s ≤ k) = ks₁ := by
  rw [List.takeWhile_append_of_pos (by simpa using h.left)]
  cases ks₂ with
  | nil => simp
  | cons s ks₂ =>
    have hs := h.right s rfl
    rw [List.takeWhile_cons_of_neg (by simpa using hs), append_nil]

/-- The child of a node that the descent for `k` enters. -/
theorem Wf.route (h : Wf leafCap innerCap (inner id ks cs)) (k : K) :
    ∃ ks₁ ks₂ cs₁ c cs₂, ks = ks₁ ++ ks₂ ∧ cs = cs₁ ++ c :: cs₂ ∧ ks₁.length = cs₁.length ∧
      Routed k ks₁ ks₂ := by
  obtain ⟨-, hlen, -⟩ := wf_inner.mp h
  have hi : (ks.takeWhile fun s => decide (s ≤ k)).length < cs.length := by
    have := (List.takeWhile_sublist (l := ks) fun s => decide (s ≤ k)).length_le
    omega
  have hcs := take_append_drop (ks.takeWhile fun s => decide (s ≤ k)).length cs
  rw [List.drop_eq_getElem_cons hi] at hcs
  refine ⟨ks.takeWhile fun s => s ≤ k, ks.dropWhile fun s => s ≤ k, _, _, _,
    List.takeWhile_append_dropWhile.symm, hcs.symm, (List.length_take_of_le hi.le).symm, ?_, ?_⟩
  · intro s hs
    simpa using List.mem_takeWhile_imp hs
  · intro s hs
    have hnot := List.head?_dropWhile_not (fun s => decide (s ≤ k)) ks
    rw [hs] at hnot
    simpa using hnot

theorem leftBound_joinLeft {cs : List (List (Item K V))} (h : ks.length = cs.length)
    (hk : ∀ s ∈ ks, s ≤ k) : LeftBound k (joinLeft cs ks) := by
  induction cs generalizing ks with
  | nil => exact .inl rfl
  | cons c cs ih =>
    cases ks with
    | nil => cases h
    | cons s ks =>
      have hone : LeftBound k (c ++ [.sep s] : List (Item K V)) :=
        .inr ⟨c, s, rfl, hk s (mem_cons_self ..)⟩
      have hrest := ih (Nat.succ.inj h) fun x hx => hk x (mem_cons_of_mem _ hx)
      have := hone.append hrest
      rwa [append_assoc] at this

theorem rightBound_joinRight {cs : List (List (Item K V))} (hk : ∀ s, ks.head? = some s → k < s) :
    RightBound k (joinRight ks cs) := by
  cases ks with
  | nil => exact .inl (by simp [joinRight])
  | cons s ks =>
    cases cs with
    | nil => exact .inl rfl
    | cons c cs => exact .inr ⟨s, _, rfl, hk s rfl⟩

/-- The descent for `k` leads to the leaf `l`, between the leaves `ls₁` and `ls₂`. -/
structure Located (k : K) (t : Tree I K V d) (l : I × List (K × V))
    (ls₁ ls₂ : List (I × List (K × V))) (b a : List (Item K V)) : Prop where
  leaves_eq : leaves t = ls₁ ++ l :: ls₂
  target : Target k (items t) b l.2 a
  left_eq : entries b = ls₁.flatMap Prod.snd
  right_eq : entries a = ls₂.flatMap Prod.snd

theorem Located.leaf (k : K) (id : I) (es : List (K × V)) :
    Located k (leaf id es) (id, es) [] [] [] [] where
  leaves_eq := rfl
  target := ⟨by simp, .inl rfl, .inl rfl⟩
  left_eq := rfl
  right_eq := rfl

theorem Located.inner {c : Tree I K V d} {b a : List (Item K V)} (h : Located k c l ls₁ ls₂ b a)
    (hr : Routed k ks₁ ks₂) (h₁ : ks₁.length = cs₁.length)
    (hwf : Wf leafCap innerCap (inner id (ks₁ ++ ks₂) (cs₁ ++ c :: cs₂))) :
    Located k (inner id (ks₁ ++ ks₂) (cs₁ ++ c :: cs₂)) l (cs₁.flatMap leaves ++ ls₁)
      (ls₂ ++ cs₂.flatMap leaves) (joinLeft (cs₁.map items) ks₁ ++ b)
      (a ++ joinRight ks₂ (cs₂.map items)) := by
  obtain ⟨-, hlen, hcs⟩ := wf_inner.mp hwf
  have h₂ : ks₂.length = cs₂.length := by
    simp only [length_append, length_cons] at hlen
    omega
  have hwf₁ : ∀ x ∈ cs₁, Wf leafCap innerCap x := fun x hx => hcs x (mem_append_left _ hx)
  have hwf₂ : ∀ x ∈ cs₂, Wf leafCap innerCap x := fun x hx =>
    hcs x (mem_append_right _ (mem_cons_of_mem _ hx))
  refine ⟨?_, ?_, ?_, ?_⟩
  · rw [leaves_inner, flatMap_append, flatMap_cons, h.leaves_eq]
    simp only [append_assoc, cons_append]
  · rw [items_inner id c h₁]
    exact h.target.lift (leftBound_joinLeft (by rw [h₁, length_map]) hr.left)
      (rightBound_joinRight hr.right)
  · rw [entries_append, entries_joinLeft h₁, h.left_eq, flatMap_entries hwf₁, flatMap_append]
  · rw [entries_append, entries_joinRight h₂, h.right_eq, flatMap_entries hwf₂,
      flatMap_append]

/-! ### Bounds -/

section Bounds

variable {R : K → K → Prop}

/-- The keys of each internal node do not decrease, and what is below a child may stand between the
keys next to it; `R` relates entries to the separators on their right. -/
def Bounded (R : K → K → Prop) : {d : Nat} → Tree I K V d → Prop
  | 0, t => t.2.Pairwise fun a b => a.1 ≤ b.1
  | _ + 1, t => t.2.1.Pairwise (fun a b => a ≤ b) ∧
    (∀ i c, t.2.2[i]? = some c → ∀ x ∈ items c,
      (∀ s, t.2.1[i]? = some s → Before R x (.sep s)) ∧
      ∀ j s, i = j + 1 → t.2.1[j]? = some s → Before R (.sep s) x) ∧
    ∀ c ∈ t.2.2, Bounded R c

theorem bounded_leaf {es : List (K × V)} :
    Bounded R (leaf id es) ↔ es.Pairwise fun a b => a.1 ≤ b.1 := Iff.rfl

theorem bounded_inner :
    Bounded R (inner id ks cs) ↔ ks.Pairwise (fun a b => a ≤ b) ∧
      (∀ i c, cs[i]? = some c → ∀ x ∈ items c,
        (∀ s, ks[i]? = some s → Before R x (.sep s)) ∧
        ∀ j s, i = j + 1 → ks[j]? = some s → Before R (.sep s) x) ∧
      ∀ c ∈ cs, Bounded R c := Iff.rfl

/-- In-order items that are in order bound the keys of every node. -/
theorem Wf.bounded (hwf : Wf leafCap innerCap t) (ho : Ordered R (items t)) : Bounded R t := by
  induction d with
  | zero =>
    obtain ⟨id, es, rfl⟩ := exists_leaf t
    have hs := ho.entries_sorted
    rw [items_leaf, entries_map] at hs
    exact bounded_leaf.mpr hs
  | succ d ih =>
    obtain ⟨id, ks, cs, rfl⟩ := exists_inner t
    obtain ⟨-, hlen, hcs⟩ := wf_inner.mp hwf
    -- the items around child `i`
    have hsplit : ∀ i c, cs[i]? = some c → ∃ ks₁ ks₂ cs₁ cs₂, ks = ks₁ ++ ks₂ ∧
        cs = cs₁ ++ c :: cs₂ ∧ ks₁.length = i ∧ ks₁.length = cs₁.length := by
      intro i c hc
      obtain ⟨hi, rfl⟩ := List.getElem?_eq_some_iff.mp hc
      refine ⟨ks.take i, ks.drop i, cs.take i, cs.drop (i + 1), (take_append_drop ..).symm, ?_,
        ?_, ?_⟩
      · rw [← List.drop_eq_getElem_cons hi, take_append_drop]
      · rw [length_take]
        omega
      · rw [length_take, length_take]
        omega
    refine bounded_inner.mpr ⟨?_, ?_, ?_⟩
    · obtain ⟨c, cs, rfl⟩ := List.exists_cons_of_length_eq_add_one hlen
      have hks : ks.length = cs.length := (Nat.succ.inj hlen).symm
      have hsub : (ks.map Item.sep).Sublist (items (inner id ks (c :: cs))) := by
        rw [items_inner_eq, map_cons, interleave]
        exact (sublist_joinRight (by rw [hks, length_map])).trans (List.sublist_append_right _ _)
      have hseps := List.pairwise_map.mp (List.Pairwise.sublist hsub ho)
      exact hseps
    · intro i c hc x hx
      obtain ⟨ks₁, ks₂, cs₁, cs₂, rfl, rfl, hi, h₁⟩ := hsplit i c hc
      rw [items_inner id c h₁] at ho
      obtain ⟨hleft, -, hright⟩ := pairwise_append.mp ho
      have h₂ : ks₂.length = (cs₂.map items).length := by
        rw [length_map]
        simp only [length_append, length_cons] at hlen
        omega
      refine ⟨fun s hs => ?_, fun j s hj hs => ?_⟩
      · have hmem : s ∈ ks₂ := by
          rw [List.getElem?_append_right (by omega), hi, Nat.sub_self] at hs
          exact List.mem_of_getElem? hs
        exact hright x (mem_append_right _ hx) (.sep s)
          ((sublist_joinRight h₂).subset (List.mem_map_of_mem hmem))
      · have hmem : s ∈ ks₁ := by
          rw [List.getElem?_append_left (by omega)] at hs
          exact List.mem_of_getElem? hs
        exact (pairwise_append.mp hleft).2.2 (.sep s)
          (mem_joinLeft (by rw [h₁, length_map]) hmem) x hx
    · intro c hc
      obtain ⟨i, hi⟩ := List.getElem?_of_mem hc
      obtain ⟨ks₁, ks₂, cs₁, cs₂, rfl, rfl, -, h₁⟩ := hsplit i c hi
      rw [items_inner id c h₁] at ho
      exact ih (hcs c hc) (pairwise_append.mp (pairwise_append.mp ho).1).2.1

end Bounds

/-! ### Inserting -/

/-- An insertion into the proper half of a split node is an insertion into the node, which splits its
gap if the node is a full leaf. -/
theorem Split.inserted {r : I} {c cl cr : Tree I K V d} {s : K} (h : Split r c cl s cr)
    (hfull : Full leafCap innerCap c) (hc : Wf leafCap innerCap c) {v : V} {ys : List (Item K V)}
    (hins : (k < s ∧ Inserted leafCap k v (items cl) ys ∧ zs = ys ++ .sep s :: items cr) ∨
      (s ≤ k ∧ Inserted leafCap k v (items cr) ys ∧ zs = items cl ++ .sep s :: ys)) :
    Inserted leafCap k v (items c) zs := by
  have hroom := h.wf hc
  cases d with
  | zero =>
    cases h with
    | leaf hs =>
      rename_i id es l m
      simp only [full_leaf, not_le] at hfull hroom
      refine ⟨[], es, [], ⟨by simp, .inl rfl, .inl rfl⟩, .inr ⟨hfull, l, m, s, hs, ?_⟩⟩
      rcases hins with ⟨hk, hins, rfl⟩ | ⟨hk, hins, rfl⟩
      · rw [items_leaf] at hins
        rw [hins.eq_of_leaf hroom.2.2.1]
        exact .inl ⟨hk, by simp⟩
      · rw [items_leaf] at hins
        rw [hins.eq_of_leaf hroom.2.2.2]
        exact .inr ⟨hk, by simp⟩
  | succ d =>
    rw [h.items_inner]
    rcases hins with ⟨hk, hins, rfl⟩ | ⟨hk, hins, rfl⟩
    · have := hins.lift (.inl rfl) (.inr ⟨s, items cr, rfl, hk⟩)
      simpa using this
    · have := hins.lift (.inr ⟨items cl, s, rfl, hk⟩) (.inl rfl)
      simpa using this

/-- The same when the halves have become the children of a new root. -/
theorem Split.inserted_root {r : I} {c cl cr : Tree I K V d} {s : K} (h : Split r c cl s cr)
    (hfull : Full leafCap innerCap c) (hc : Wf leafCap innerCap c)
    (ho : Ordered (fun a b => a ≤ b) (items c)) {v : V}
    (hins : Inserted leafCap k v (items cl ++ .sep s :: items cr) zs) :
    Inserted leafCap k v (items c) zs := by
  have hroom := h.wf hc
  cases d with
  | zero =>
    cases h with
    | leaf hs =>
      rename_i id es l m
      simp only [full_leaf, not_le] at hfull hroom
      have htarget : Target k (items (BTree.leaf id es)) [] (l ++ m) [] :=
        ⟨by simp [hs.eq], .inl rfl, .inl rfl⟩
      -- the halves with their separator are ordered, so the gap of `k` is one of the two
      have ho' := ho.separate sepRel_le htarget hs.head_eq
        (hs.left_le (hs.eq ▸ htarget.sorted ho))
      simp only [nil_append, append_nil] at ho'
      obtain ⟨b, es', a, ht, hcase⟩ := hins
      rw [items_leaf, items_leaf] at ht
      refine ⟨[], es, [], hs.eq ▸ htarget, .inr ⟨hfull, l, m, s, hs, ?_⟩⟩
      by_cases hk : k < s
      · have ht' : Target k (l.map .entry ++ .sep s :: m.map .entry) [] l
            (.sep s :: m.map .entry) := ⟨by simp, .inl rfl, .inr ⟨s, _, rfl, hk⟩⟩
        obtain ⟨rfl, rfl, rfl⟩ := ht.unique sepRel_le ho' ht'
        rcases hcase with ⟨-, rfl⟩ | ⟨hle, -⟩
        · exact .inl ⟨hk, by simp⟩
        · omega
      · have hk := not_lt.mp hk
        have ht' : Target k (l.map .entry ++ .sep s :: m.map .entry) (l.map .entry ++ [.sep s]) m
            [] := ⟨by simp, .inr ⟨_, s, rfl, hk⟩, .inl rfl⟩
        obtain ⟨rfl, rfl, rfl⟩ := ht.unique sepRel_le ho' ht'
        rcases hcase with ⟨-, rfl⟩ | ⟨hle, -⟩
        · exact .inr ⟨hk, by simp⟩
        · omega
  | succ d => rwa [h.items_inner]

end MiniDB.BTree
