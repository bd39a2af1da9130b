import MiniDB.Index.Equiv.BPlusScan
import MiniDB.Lib.BTree
import MiniDB.Lib.Tenancy

/-!
# Correctness of `BPlusTree`: trees in pages

The pages of an index hold a tree (`BTree.Tree`) whose nodes are named by their page ids: each
internal node is a page with its keys and the ids of its children, and the leaves are pages linked
from left to right (`Rep`).  A program that works inside a tree leaves every other page of the store
alone and takes its new pages from outside (`TreeStep`).

`insertNonFull_spec` is the specification of the recursive insertion: within the tree it works on, it
has the effect `Inserted` on the in-order items.  Full nodes are split before they are entered, so
that neither `SplitChild` nor `InsertNonFull` is ever called on a full node (`TreePre`).
-/

namespace MiniDB.BPlusTree

open Paged BPlusNode Separated BTree Tenancy
open Prog (wp_access wp_bind wp_entered wp_set wp_unpin)
open Store (get?_set setPage_eq unpinPage_eq wp_fetch)
open List (flatMap_append flatMap_cons flatMap_singleton length_map map_append map_cons mem_append
  mem_append_left mem_append_right mem_cons mem_cons_of_mem mem_cons_self mem_flatMap nodup_append
  nodup_cons singleton_append)

/-- Trees whose nodes are named by page ids. -/
abbrev IndexTree := Tree PageId Key RecordId

/-- All nodes are within the capacities of a page. -/
abbrev IndexWf {d : Nat} (t : IndexTree d) : Prop := Wf kLeafMaxKeys kInternalMaxKeys t

/-- The root of the tree has no room for another key. -/
abbrev RootFull {d : Nat} (t : IndexTree d) : Prop := Full kLeafMaxKeys kInternalMaxKeys t

/-! ### Trees in pages -/

/-- The page of an internal node. -/
def InnerAt (st : Store) (n : PageId × List Key × List PageId) : Prop :=
  ∃ p, st.get? n.1 = some p ∧ InnerView p n.2.1 n.2.2

/-- The id of the first of some leaves, or `tail` if there are none. -/
def firstId (ls : List (PageId × List (Key × RecordId))) (tail : PageId) : PageId :=
  (ls.head?.map Prod.fst).getD tail

/-- The pages of leaves, each linked to the next and the last one to `tail`. -/
def LeafChain (st : Store) : List (PageId × List (Key × RecordId)) → PageId → Prop
  | [], _ => True
  | l :: ls, tail =>
    (∃ p, st.get? l.1 = some p ∧ LeafView p (firstId ls tail) l.2) ∧ LeafChain st ls tail

/-- The trees `ts` side by side in pages, the last leaf linked to `tail`. -/
structure RepList (st : Store) {d : Nat} (ts : List (IndexTree d)) (tail : PageId) : Prop where
  inners : ∀ n ∈ ts.flatMap BTree.inners, InnerAt st n
  leaves : LeafChain st (ts.flatMap BTree.leaves) tail

/-- The tree `t` in pages, its last leaf linked to `tail`. -/
structure Rep (st : Store) {d : Nat} (t : IndexTree d) (tail : PageId) : Prop where
  inners : ∀ n ∈ BTree.inners t, InnerAt st n
  leaves : LeafChain st (BTree.leaves t) tail

variable {st : Store} {ls : List (PageId × List (Key × RecordId))} {tail id : PageId} {d fuel : Nat}
  {t c : IndexTree d} {cs₁ cs₂ : List (IndexTree d)} {es es' : List (Key × RecordId)} {p : Page}
  {ks ks₁ ks₂ : List Key} {key : Key} {Q : Unit → Store → Prop} {rid : RecordId}

theorem leafChain_append (ls ls' : List (PageId × List (Key × RecordId))) (tail : PageId) :
    LeafChain st (ls ++ ls') tail ↔ LeafChain st ls (firstId ls' tail) ∧ LeafChain st ls' tail := by
  induction ls with
  | nil => simp [LeafChain]
  | cons l ls ih =>
    have hfirst : firstId (ls ++ ls') tail = firstId ls (firstId ls' tail) := by
      cases ls <;> rfl
    simp only [List.cons_append, LeafChain, ih, hfirst, and_assoc]

theorem LeafChain.get (h : LeafChain st ls tail) :
    ∀ l ∈ ls, ∃ p next, st.get? l.1 = some p ∧ LeafView p next l.2 := by
  induction ls with
  | nil => intro l hl; cases hl
  | cons x ls ih =>
    intro l hl
    rcases mem_cons.mp hl with rfl | hl
    · obtain ⟨p, hp, hv⟩ := h.1
      exact ⟨p, _, hp, hv⟩
    · exact ih h.2 l hl

theorem LeafChain.frame {st' : Store} (h : LeafChain st ls tail)
    (hsame : ∀ l ∈ ls, st'.get? l.1 = st.get? l.1) : LeafChain st' ls tail := by
  induction ls with
  | nil => trivial
  | cons x ls ih =>
    obtain ⟨⟨p, hp, hv⟩, hrest⟩ := h
    exact ⟨⟨p, (hsame x (mem_cons_self ..)).trans hp, hv⟩,
      ih hrest fun l hl => hsame l (mem_cons_of_mem _ hl)⟩

/-- Rewriting the page of one of the leaves, keeping its link. -/
theorem LeafChain.set {ls₁ ls₂ : List (PageId × List (Key × RecordId))}
    (h : LeafChain st (ls₁ ++ (id, es) :: ls₂) tail)
    (hn : ((ls₁ ++ (id, es) :: ls₂).map Prod.fst).Nodup) (hv : LeafView p (firstId ls₂ tail) es') :
    LeafChain (st.set id p) (ls₁ ++ (id, es') :: ls₂) tail := by
  obtain ⟨h₁, ⟨⟨q, hq, -⟩, h₂⟩⟩ := (leafChain_append _ _ _).mp h
  rw [map_append, map_cons] at hn
  obtain ⟨hid, -⟩ := nodup_cons.mp (List.nodup_middle.mp hn)
  have hkeep : ∀ l ∈ ls₁ ++ ls₂, (st.set id p).get? l.1 = st.get? l.1 := by
    intro l hl
    refine Store.get?_set_of_ne _ ?_ _
    intro heq
    rw [← map_append] at hid
    exact hid (List.mem_map.mpr ⟨l, hl, heq⟩)
  refine (leafChain_append _ _ _).mpr ⟨?_, ⟨p, Store.get?_set_self hq p, hv⟩, ?_⟩
  · exact h₁.frame fun l hl => hkeep l (mem_append_left _ hl)
  · exact h₂.frame fun l hl => hkeep l (mem_append_right _ hl)

theorem firstId_append (hne : ls ≠ []) (ls' : List (PageId × List (Key × RecordId))) (tail : PageId)
    :
    firstId (ls ++ ls') tail = firstId ls tail := by
  cases ls with
  | nil => exact absurd rfl hne
  | cons l ls => rfl

theorem firstId_of_ne_nil (hne : ls ≠ []) (tail tail' : PageId) :
    firstId ls tail = firstId ls tail' := by
  cases ls with
  | nil => exact absurd rfl hne
  | cons l ls => rfl

theorem firstId_congr {ls' : List (PageId × List (Key × RecordId))}
    (h : ls.head?.map Prod.fst = ls'.head?.map Prod.fst) (tail : PageId) :
    firstId ls tail = firstId ls' tail := by
  rw [firstId, h, firstId]

section Rep

variable {st' : Store} {ts : List (IndexTree d)}

theorem rep_leaf : Rep st (leaf id es) tail ↔ ∃ p, st.get? id = some p ∧ LeafView p tail es := by
  constructor
  · rintro ⟨-, ⟨p, hp, hv⟩, -⟩
    exact ⟨p, hp, hv⟩
  · rintro ⟨p, hp, hv⟩
    exact ⟨fun n hn => by simp at hn, ⟨p, hp, hv⟩, trivial⟩

theorem rep_inner {cs : List (IndexTree d)} :
    Rep st (inner id ks cs) tail ↔
      (∃ p, st.get? id = some p ∧ InnerView p ks (cs.map rootId)) ∧ RepList st cs tail := by
  constructor
  · intro h
    exact ⟨h.inners _ (mem_cons_self ..),
      fun n hn => h.inners n (mem_cons_of_mem _ hn), h.leaves⟩
  · rintro ⟨hroot, hcs⟩
    refine ⟨fun n hn => ?_, hcs.leaves⟩
    rcases mem_cons.mp hn with rfl | hn
    · exact hroot
    · exact hcs.inners n hn

theorem repList_append {as bs : List (IndexTree d)} :
    RepList st (as ++ bs) tail ↔
      RepList st as (firstId (bs.flatMap BTree.leaves) tail) ∧ RepList st bs tail := by
  constructor
  · rintro ⟨hin, hlv⟩
    rw [flatMap_append] at hin hlv
    obtain ⟨h1, h2⟩ := (leafChain_append _ _ _).mp hlv
    exact ⟨⟨fun n hn => hin n (mem_append_left _ hn), h1⟩,
      ⟨fun n hn => hin n (mem_append_right _ hn), h2⟩⟩
  · rintro ⟨⟨hin1, h1⟩, ⟨hin2, h2⟩⟩
    refine ⟨?_, ?_⟩
    · rw [flatMap_append]
      intro n hn
      rcases mem_append.mp hn with hn | hn
      · exact hin1 n hn
      · exact hin2 n hn
    · rw [flatMap_append]
      exact (leafChain_append _ _ _).mpr ⟨h1, h2⟩

theorem repList_singleton : RepList st [t] tail ↔ Rep st t tail := by
  constructor
  · rintro ⟨h1, h2⟩
    rw [flatMap_singleton] at h1 h2
    exact ⟨h1, h2⟩
  · rintro ⟨h1, h2⟩
    exact ⟨by rwa [flatMap_singleton], by rwa [flatMap_singleton]⟩

theorem repList_cons :
    RepList st (t :: ts) tail ↔
      Rep st t (firstId (ts.flatMap BTree.leaves) tail) ∧ RepList st ts tail := by
  rw [← singleton_append, repList_append, repList_singleton]

theorem RepList.frame (h : RepList st ts tail) (hsame : ∀ i ∈ ts.flatMap ids, st'.get? i = st.get? i) :
    RepList st' ts tail := by
  refine ⟨fun n hn => ?_, h.leaves.frame fun l hl => ?_⟩
  · obtain ⟨p, hp, hv⟩ := h.inners n hn
    obtain ⟨t, ht, hn⟩ := mem_flatMap.mp hn
    have hmem := mem_flatMap.mpr ⟨t, ht, mem_ids_of_inner hn⟩
    exact ⟨p, (hsame _ hmem).trans hp, hv⟩
  · obtain ⟨t, ht, hl⟩ := mem_flatMap.mp hl
    exact hsame _ (mem_flatMap.mpr ⟨t, ht, mem_ids_of_leaf hl⟩)

theorem Rep.frame (h : Rep st t tail) (hsame : ∀ i ∈ ids t, st'.get? i = st.get? i) : Rep st' t tail :=
  repList_singleton.mp ((repList_singleton.mpr h).frame (by rwa [flatMap_singleton]))

/-- The nodes of a tree are pages of the store. -/
theorem Rep.get (h : Rep st t tail) : ∀ i ∈ ids t, ∃ p, st.get? i = some p := by
  intro i hi
  rcases exists_of_mem_ids hi with ⟨l, hl, rfl⟩ | ⟨n, hn, rfl⟩
  · obtain ⟨p, _, hp, -⟩ := h.leaves.get l hl
    exact ⟨p, hp⟩
  · obtain ⟨p, hp, -⟩ := h.inners n hn
    exact ⟨p, hp⟩

end Rep

/-! ### Steps inside a tree -/

/-- What a program that works inside the tree `t` does to the store: the tree becomes `t'`, with the
same root and the same first leaf, and no page outside the tree changes. -/
structure TreeStep (st : Store) {d : Nat} (t : IndexTree d) (tail : PageId) (st' : Store)
    (t' : IndexTree d) : Prop where
  rep : Rep st' t' tail
  rootId_eq : rootId t' = rootId t
  head_eq : (BTree.leaves t').head?.map Prod.fst = (BTree.leaves t).head?.map Prod.fst
  nodup : (ids t').Nodup
  pages : OwnStep Store.get? st (ids t) st' (ids t')

theorem TreeStep.trans {st₁ st₂ : Store} {t₁ t₂ : IndexTree d} (h1 : TreeStep st t tail st₁ t₁)
    (h2 : TreeStep st₁ t₁ tail st₂ t₂) :
    TreeStep st t tail st₂ t₂ :=
  ⟨h2.rep, h2.rootId_eq.trans h1.rootId_eq, h2.head_eq.trans h1.head_eq, h2.nodup,
    h1.pages.trans h2.pages⟩

/-- A step that replaces a child of a node by the trees `cs`, and may rewrite the node itself. -/
theorem TreeStep.replace {st' : Store} {ks' : List Key} (cs : List (IndexTree d))
    (hrep : Rep st (inner id ks (cs₁ ++ c :: cs₂)) tail)
    (hn : (ids (inner id ks (cs₁ ++ c :: cs₂))).Nodup)
    (hroot : ∃ p, st'.get? id = some p ∧ InnerView p ks' ((cs₁ ++ (cs ++ cs₂)).map rootId))
    (hcs : RepList st' cs (firstId (cs₂.flatMap BTree.leaves) tail))
    (hhead : (cs.flatMap BTree.leaves).head?.map Prod.fst = (BTree.leaves c).head?.map Prod.fst)
    (hne : BTree.leaves c ≠ []) (hnodup : (cs.flatMap ids).Nodup) (hsub : ids c ⊆ cs.flatMap ids)
    (hframe : ∀ i p, i ∉ ids c → i ≠ id → st.get? i = some p → st'.get? i = some p)
    (hfresh : ∀ i ∈ cs.flatMap ids, i ∉ ids c → st.get? i = none) :
    TreeStep st (inner id ks (cs₁ ++ c :: cs₂)) tail st' (inner id ks' (cs₁ ++ (cs ++ cs₂))) := by
  have hperm := ids_inner_perm id ks cs₁ cs₂ [c]
  have hperm' := ids_inner_perm id ks' cs₁ cs₂ cs
  rw [flatMap_singleton, singleton_append] at hperm
  have hget := hrep.get
  obtain ⟨-, hrepcs⟩ := rep_inner.mp hrep
  obtain ⟨hrep₁, hrepcs⟩ := repList_append.mp hrepcs
  obtain ⟨-, hrep₂⟩ := repList_cons.mp hrepcs
  obtain ⟨-, hothers, hdisj⟩ := nodup_append.mp (hperm.nodup_iff.mp hn)
  obtain ⟨hid, hothers'⟩ := nodup_cons.mp hothers
  have hkeep : ∀ i ∈ (cs₁ ++ cs₂).flatMap ids, st'.get? i = st.get? i := by
    intro i hi
    obtain ⟨p, hp⟩ := hget i (hperm.mem_iff.mpr
      (mem_append_right _ (mem_cons_of_mem _ hi)))
    rw [hframe i p (fun hic => hdisj i hic i (mem_cons_of_mem _ hi) rfl) ?_ hp, hp]
    rintro rfl
    exact hid hi
  rw [flatMap_append] at hkeep
  have hne' : cs.flatMap BTree.leaves ≠ [] := by
    intro hnil
    rw [hnil] at hhead
    exact hne (List.head?_eq_none_iff.mp (Option.map_eq_none_iff.mp hhead.symm))
  refine ⟨rep_inner.mpr ⟨hroot, repList_append.mpr ⟨?_, repList_append.mpr ⟨hcs, ?_⟩⟩⟩, rfl, ?_, ?_,
    ?_, ?_, ?_⟩
  · rw [flatMap_append, firstId_append hne', firstId_congr hhead,
      ← firstId_append hne (cs₂.flatMap BTree.leaves), ← flatMap_cons]
    exact hrep₁.frame fun i hi => hkeep i (mem_append_left _ hi)
  · exact hrep₂.frame fun i hi => hkeep i (mem_append_right _ hi)
  · rw [leaves_inner, leaves_inner, flatMap_append, flatMap_append, flatMap_append,
      flatMap_cons]
    cases cs₁.flatMap BTree.leaves with
    | nil =>
      rw [List.nil_append, List.nil_append, List.head?_append_of_ne_nil _ hne',
        List.head?_append_of_ne_nil _ hne, hhead]
    | cons x xs => rfl
  · refine hperm'.nodup_iff.mpr (nodup_append.mpr ⟨hnodup, hothers, ?_⟩)
    rintro i hi _ hmem rfl
    obtain ⟨p, hp⟩ := hget i (hperm.mem_iff.mpr (mem_append_right _ hmem))
    rw [hfresh i hi fun hic => hdisj i hic i hmem rfl] at hp
    cases hp
  · intro i hi
    rcases mem_append.mp (hperm.mem_iff.mp hi) with hi | hi
    · exact hperm'.mem_iff.mpr (mem_append_left _ (hsub hi))
    · exact hperm'.mem_iff.mpr (mem_append_right _ hi)
  · intro i p hi hp
    rw [hperm.mem_iff, mem_append, mem_cons, not_or, not_or] at hi
    exact hframe i p hi.1 hi.2.1 hp
  · intro i hi hnot
    rw [hperm.mem_iff, mem_append, not_or] at hnot
    exact hfresh i ((mem_append.mp (hperm'.mem_iff.mp hi)).resolve_right hnot.2) hnot.1

/-- A step inside a child is a step inside the node. -/
theorem TreeStep.child {st' : Store} {c' : IndexTree d}
    (hrep : Rep st (inner id ks (cs₁ ++ c :: cs₂)) tail)
    (hn : (ids (inner id ks (cs₁ ++ c :: cs₂))).Nodup) (hne : BTree.leaves c ≠ [])
    (hstep : TreeStep st c (firstId (cs₂.flatMap BTree.leaves) tail) st' c') :
    TreeStep st (inner id ks (cs₁ ++ c :: cs₂)) tail st' (inner id ks (cs₁ ++ c' :: cs₂)) := by
  have hid : id ∉ ids c := by
    rw [ids_inner, flatMap_append, flatMap_cons, nodup_cons] at hn
    exact fun hi => hn.1 (mem_append_right _ (mem_append_left _ hi))
  refine TreeStep.replace [c'] hrep hn ?_ (repList_singleton.mpr hstep.rep) ?_ hne ?_ ?_
    (fun i p hi _ hp => hstep.pages.frame i p hi hp) ?_
  · obtain ⟨⟨p, hp, hv⟩, -⟩ := rep_inner.mp hrep
    refine ⟨p, hstep.pages.frame id p hid hp, ?_⟩
    rwa [map_append, singleton_append, map_cons, hstep.rootId_eq, ← map_cons,
      ← map_append]
  · rw [flatMap_singleton, hstep.head_eq]
  · rw [flatMap_singleton]
    exact hstep.nodup
  · rw [flatMap_singleton]
    exact hstep.pages.subset
  · rw [flatMap_singleton]
    exact hstep.pages.fresh

/-! ### `SplitChild` -/

/-- The page is there and has room for another key. -/
def NotFullAt (st : Store) (id : PageId) : Prop := ∃ p, st.get? id = some p ∧ isFull p = false

/-- What `SplitChild` and `InsertNonFull` expect: the parent, or the node, is not full. -/
def TreePre : TreeCall → Store → Prop
  | .splitChild parentId _, st => NotFullAt st parentId
  | .insertNonFull nodeId, st => NotFullAt st nodeId

/-- The page of the root of a tree tells whether it is a leaf and whether it is full. -/
theorem Rep.root (h : Rep st t tail) :
    ∃ p, st.get? (rootId t) = some p ∧ isLeaf p = decide (d = 0) ∧
      (isFull p = true ↔ RootFull t) := by
  cases d with
  | zero =>
    obtain ⟨id, es, rfl⟩ := exists_leaf t
    obtain ⟨p, hp, hv⟩ := rep_leaf.mp h
    refine ⟨p, hp, hv.isLeaf, ?_⟩
    rw [hv.isFull, decide_eq_true_iff]
    exact full_leaf.symm
  | succ d =>
    obtain ⟨id, ks, cs, rfl⟩ := exists_inner t
    obtain ⟨⟨p, hp, hv⟩, -⟩ := rep_inner.mp h
    refine ⟨p, hp, hv.isLeaf_eq, ?_⟩
    rw [hv.isFull, decide_eq_true_iff]
    exact full_inner.symm

theorem Rep.notFullAt (h : Rep st t tail) (hroom : ¬ RootFull t) : NotFullAt st (rootId t) := by
  obtain ⟨p, hp, -, hfull⟩ := h.root
  exact ⟨p, hp, Bool.eq_false_iff.mpr fun h => hroom (hfull.mp h)⟩

/-- The two halves that `SplitChild` computes, and that they make up the two trees when they are
written to their pages. -/
theorem split_spec (h : Rep st c tail) (hn : (ids c).Nodup) (hfull : RootFull c) (r : PageId)
    (hp : st.get? (rootId c) = some p) :
    ∃ s pl pr cl cr, (if isLeaf p then splitLeaf p r else splitInternal p) = some (s, pl, pr) ∧
      Split r c cl s cr ∧
      ∀ st' : Store, st'.get? (rootId c) = some pl → st'.get? r = some pr →
        (∀ i ∈ ids c, i ≠ rootId c → st'.get? i = st.get? i) →
        RepList st' [cl, cr] tail := by
  cases d with
  | zero =>
    obtain ⟨id, es, rfl⟩ := exists_leaf c
    obtain ⟨p', hp', hv⟩ := rep_leaf.mp h
    obtain rfl : p = p' := Option.some.inj (hp.symm.trans hp')
    have hlen : 2 ≤ es.length := le_trans (by decide) (full_leaf.mp hfull)
    obtain ⟨s, pl, pr, l, m, heq, hsplit, hl, hm⟩ := splitLeaf_spec hv hlen r
    refine ⟨s, pl, pr, leaf id l, leaf r m, ?_, .leaf hsplit, ?_⟩
    · rw [if_pos hv.isLeaf, heq]
    · intro st' hleft hright _
      exact repList_cons.mpr ⟨rep_leaf.mpr ⟨pl, hleft, hl⟩,
        repList_singleton.mpr (rep_leaf.mpr ⟨pr, hright, hm⟩)⟩
  | succ d =>
    obtain ⟨id, ks, cs, rfl⟩ := exists_inner c
    obtain ⟨⟨p', hp', hv⟩, hcs⟩ := rep_inner.mp h
    obtain rfl : p = p' := Option.some.inj (hp.symm.trans hp')
    have hlen : 1 ≤ ks.length := le_trans (by decide) (full_inner.mp hfull)
    obtain ⟨s, pl, pr, ks₁, ks₂, is₁, is₂, heq, rfl, his, h₁, h₂, hl, hr⟩ :=
      splitInternal_spec hv hlen
    obtain ⟨cs₁, cs₂, rfl, rfl, rfl⟩ := List.map_eq_append_iff.mp his
    rw [length_map] at h₁ h₂
    refine ⟨s, pl, pr, inner id ks₁ cs₁, inner r ks₂ cs₂, ?_, .inner h₁ h₂, ?_⟩
    · rw [if_neg (by rw [hv.isLeaf_eq]; decide), heq]
    · intro st' hleft hright hsame
      have hcs' : RepList st' (cs₁ ++ cs₂) tail := by
        refine hcs.frame fun i hi => hsame i (mem_cons_of_mem _ hi) ?_
        rintro rfl
        exact (nodup_cons.mp hn).1 hi
      obtain ⟨hcs₁, hcs₂⟩ := repList_append.mp hcs'
      refine repList_cons.mpr ⟨rep_inner.mpr ⟨⟨pl, hleft, hl⟩, ?_⟩, repList_singleton.mpr
        (rep_inner.mpr ⟨⟨pr, hright, hr⟩, hcs₂⟩)⟩
      rwa [flatMap_singleton, leaves_inner]

/-- The id of a child is where the descent looks for it. -/
theorem getElem?_rootId (cs₁ cs₂ : List (IndexTree d)) (c : IndexTree d) :
    ((cs₁ ++ c :: cs₂).map rootId)[cs₁.length]? = some (rootId c) := by
  rw [List.getElem?_map, List.getElem?_append_right (le_refl _), Nat.sub_self]
  rfl

/-- The child of a node that the descent for `key` enters. -/
theorem descend_spec (hv : InnerView p (ks₁ ++ ks₂) ((cs₁ ++ c :: cs₂).map rootId))
    (hroute : Routed key ks₁ ks₂) (h₁ : ks₁.length = cs₁.length) :
    findChildIndex p key = some cs₁.length ∧
      internalChildAt p cs₁.length = some (rootId c) := by
  refine ⟨?_, hv.childAt (getElem?_rootId cs₁ cs₂ c)⟩
  rw [findChildIndex_eq hv key, hroute.takeWhile_eq, h₁]

/-- **`SplitChild`** splits a full child of a node that has room. -/
theorem splitChild_wp (hrep : Rep st (inner id (ks₁ ++ ks₂) (cs₁ ++ c :: cs₂)) tail)
    (hn : (ids (inner id (ks₁ ++ ks₂) (cs₁ ++ c :: cs₂))).Nodup) (hwf : IndexWf c)
    (hroom : ¬ RootFull (inner id (ks₁ ++ ks₂) (cs₁ ++ c :: cs₂))) (h₁ : ks₁.length = cs₁.length)
    (hfull : RootFull c) {Q : PageId → Store → Prop} (hQ : ∀ r st' cl s cr, Split r c cl s cr →
      TreeStep st (inner id (ks₁ ++ ks₂) (cs₁ ++ c :: cs₂)) tail st'
        (inner id (ks₁ ++ s :: ks₂) (cs₁ ++ cl :: cr :: cs₂)) → Q r st') :
    (splitChild id cs₁.length).wp Store.OutOfPages TreePre Q st := by
  obtain ⟨⟨parent, hparent, hv⟩, hcs⟩ := rep_inner.mp hrep
  obtain ⟨-, hcs⟩ := repList_append.mp hcs
  obtain ⟨hc, -⟩ := repList_cons.mp hcs
  obtain ⟨child, hchild, -⟩ := hc.root
  have hperm := ids_inner_perm id (ks₁ ++ ks₂) cs₁ cs₂ [c]
  rw [flatMap_singleton, singleton_append] at hperm
  obtain ⟨hnc, -, hdisj⟩ := nodup_append.mp (hperm.nodup_iff.mp hn)
  have hidc : id ∉ ids c := fun hi => hdisj id hi id (mem_cons_self ..) rfl
  rw [splitChild, wp_bind, wp_entered]
  refine ⟨hrep.notFullAt hroom, ?_⟩
  rw [wp_bind, wp_fetch hparent, wp_bind,
    wp_access (hv.childAt (getElem?_rootId cs₁ cs₂ c)), wp_bind, wp_fetch hchild,
    wp_bind]
  refine Store.wp_alloc fun r hr => ?_
  obtain ⟨s, pl, pr, cl, cr, heq, hsplit, hhalves⟩ := split_spec hc hnc hfull r hchild
  rw [wp_bind, wp_access heq]
  -- the parent gets the separator and the new right half
  have hlt : (ks₁ ++ ks₂).length < kInternalMaxKeys :=
    not_le.mp fun h => hroom (full_inner.mpr h)
  obtain ⟨parent', hparent', hv'⟩ := insertInternalKeyChildAt_spec hv
    (i := cs₁.length) (by rw [List.length_append]; omega) hlt s r
  have hkeys := Cells.insertIdx_length ks₁ ks₂ s
  rw [h₁] at hkeys
  have hchildren := Cells.insertIdx_length (cs₁.map rootId ++ [rootId c]) (cs₂.map rootId) r
  rw [List.length_append, length_map, List.length_singleton, List.append_assoc,
    singleton_append, ← map_cons, ← map_append] at hchildren
  rw [hkeys, hchildren] at hv'
  rw [wp_bind, wp_access hparent']
  simp only [wp_bind, wp_set, wp_unpin, Prog.wp_pure, setPage_eq, unpinPage_eq]
  -- no page of the tree is the new one
  have hnew : ∀ i p, st.get? i = some p → i ≠ r := by
    rintro i p hp rfl
    rw [Store.get?_nextId hr] at hp
    cases hp
  have hne : rootId c ≠ id := fun h => hidc (h ▸ rootId_mem_ids c)
  have hcr := hnew _ _ hchild
  have hir := hnew _ _ hparent
  have hget : ∀ i, (((st.extend.set (rootId c) pl).set r pr).set id parent').get? i
      = if i = id then some parent' else if i = r then some pr else
        if i = rootId c then some pl else st.get? i := by
    intro i
    have hext := Store.get?_extend hr
    have hchild' : st.extend.get? (rootId c) = some child := by rw [hext, if_neg hcr, hchild]
    have hleft := get?_set hchild' pl
    have hblank : (st.extend.set (rootId c) pl).get? r = some Page.blank := by
      rw [hleft, if_neg (Ne.symm hcr), hext, if_pos rfl]
    have hright := get?_set hblank pr
    have hold : ((st.extend.set (rootId c) pl).set r pr).get? id = some parent := by
      rw [hright, if_neg hir, hleft, if_neg (Ne.symm hne), hext, if_neg hir, hparent]
    rw [get?_set hold, hright, hleft, hext]
    split_ifs <;> rfl
  generalize ((st.extend.set (rootId c) pl).set r pr).set id parent' = st' at hget ⊢
  refine hQ r st' cl s cr hsplit ?_
  have hids : [cl, cr].flatMap ids = ids cl ++ ids cr := by simp
  have hrc : r ∉ ids c := fun hi => by
    obtain ⟨p, hp⟩ := hc.get r hi
    exact hnew r p hp rfl
  refine TreeStep.replace [cl, cr] hrep hn ?_ ?_ ?_ hwf.leaves_ne_nil ?_ ?_ ?_ ?_
  · refine ⟨parent', by rw [hget, if_pos rfl], ?_⟩
    have hroots : (cs₁ ++ ([cl, cr] ++ cs₂)).map rootId
        = cs₁.map rootId ++ [rootId c] ++ r :: cs₂.map rootId := by
      simp [hsplit.rootId_left, hsplit.rootId_right]
    rw [hroots]
    exact hv'
  · apply hhalves
    · rw [hget, if_neg hne, if_neg hcr, if_pos rfl]
    · rw [hget, if_neg (Ne.symm hir), if_pos rfl]
    · intro i hi hroot
      obtain ⟨p, hp⟩ := hc.get i hi
      rw [hget, if_neg (by rintro rfl; exact hidc hi), if_neg (hnew i p hp), if_neg hroot]
  · have hhead := hsplit.head_leaf hwf
    have hne' := (hsplit.wf hwf).1.leaves_ne_nil
    rw [flatMap_cons, List.head?_append_of_ne_nil _ hne', hhead]
  · rw [hids]
    exact (hsplit.ids_perm.nodup_iff).mpr (nodup_cons.mpr ⟨hrc, hnc⟩)
  · intro i hi
    rw [hids]
    exact hsplit.ids_perm.mem_iff.mpr (mem_cons_of_mem _ hi)
  · intro i p hi hid hp
    rw [hget, if_neg hid, if_neg (hnew i p hp),
      if_neg (by rintro rfl; exact hi (rootId_mem_ids c)), hp]
  · intro i hi hnot
    rw [hids] at hi
    obtain rfl := (mem_cons.mp (hsplit.ids_perm.mem_iff.mp hi)).resolve_right hnot
    exact Store.get?_nextId hr

/-! ### `InsertNonFull` -/

/-- What `InsertNonFull` does to a tree of depth `d` when it may make `fuel` rounds. -/
def InsertSpec (key : Key) (rid : RecordId) (fuel d : Nat) : Prop :=
  ∀ (st : Store) (t : IndexTree d) (tail : PageId) (Q : Unit → Store → Prop), Rep st t tail →
    (ids t).Nodup → IndexWf t → ¬ RootFull t →
    (∀ st' t', TreeStep st t tail st' t' → IndexWf t' →
      Inserted kLeafMaxKeys key rid (items t) (items t') → Q () st') →
    (insertNonFull key rid fuel (rootId t)).wp Store.OutOfPages TreePre Q st

/-- Overwriting the page of a leaf. -/
theorem TreeStep.setLeaf {p' : Page} (hp : st.get? id = some p) (hv : LeafView p' tail es') :
    TreeStep st (leaf id es) tail (st.set id p') (leaf id es') where
  rep := rep_leaf.mpr ⟨p', Store.get?_set_self hp p', hv⟩
  rootId_eq := rfl
  head_eq := rfl
  nodup := List.nodup_singleton _
  pages := Store.ownStep_set st (List.mem_singleton_self id) p'

/-- Inserting into a leaf that has room. -/
theorem insertNonFull_leaf_wp (hrep : Rep st (leaf id es) tail) (hroom : ¬ RootFull (leaf id es))
    (key : Key) (rid : RecordId) (fuel : Nat) {allow : Fault → Prop}
    (hQ : ∀ p, LeafView p tail (insertSorted key rid es) → Q () (st.set id p)) :
    (insertNonFull key rid (fuel + 1) id).wp allow TreePre Q st := by
  obtain ⟨p, hp, hv⟩ := rep_leaf.mp hrep
  have hlt : es.length < kLeafMaxKeys := not_le.mp fun h => hroom (full_leaf.mpr h)
  have hle : (es.takeWhile fun e => decide (e.1 < key)).length ≤ es.length :=
    (List.takeWhile_sublist _).length_le
  obtain ⟨q, hq, hv'⟩ := insertLeafEntryAt_spec hv hle hlt key rid
  rw [insertIdx_lowerBound] at hv'
  rw [insertNonFull, wp_bind, wp_entered]
  refine ⟨hrep.notFullAt hroom, ?_⟩
  rw [wp_bind, wp_fetch hp, if_pos hv.isLeaf, wp_bind,
    wp_access (lowerBound_eq hv key), wp_bind, wp_access hq]
  simp only [wp_bind, wp_set, wp_unpin, setPage_eq, unpinPage_eq]
  exact hQ q hv'

theorem insertNonFull_leaf (key : Key) (rid : RecordId) (fuel : Nat) :
    InsertSpec key rid (fuel + 1) 0 := by
  intro st t tail Q hrep hn hwf hroom hQ
  obtain ⟨id, es, rfl⟩ := exists_leaf t
  obtain ⟨p, hp, hv⟩ := rep_leaf.mp hrep
  have hlt : es.length < kLeafMaxKeys := not_le.mp fun h => hroom (full_leaf.mpr h)
  refine insertNonFull_leaf_wp hrep hroom key rid fuel fun q hq => ?_
  refine hQ _ (leaf id (insertSorted key rid es)) (TreeStep.setLeaf hp hq) ?_ ?_
  · exact wf_leaf.mpr hq.length_le
  · exact ⟨[], es, [], ⟨by simp, .inl rfl, .inl rfl⟩, .inl ⟨hlt, by simp⟩⟩

/-- Inserting into a child of a node. -/
theorem InsertSpec.child (hspec : InsertSpec key rid fuel d)
    (hrep : Rep st (inner id ks (cs₁ ++ c :: cs₂)) tail)
    (hn : (ids (inner id ks (cs₁ ++ c :: cs₂))).Nodup) (hwf : IndexWf (inner id ks (cs₁ ++ c :: cs₂)))
    (hroom : ¬ RootFull c) (hQ : ∀ st' c', TreeStep st (inner id ks (cs₁ ++ c :: cs₂)) tail st'
        (inner id ks (cs₁ ++ c' :: cs₂)) → IndexWf (inner id ks (cs₁ ++ c' :: cs₂)) →
      Inserted kLeafMaxKeys key rid (items c) (items c') → Q () st') :
    (insertNonFull key rid fuel (rootId c)).wp Store.OutOfPages TreePre Q st := by
  obtain ⟨-, hcs⟩ := rep_inner.mp hrep
  obtain ⟨hc, -⟩ := repList_cons.mp (repList_append.mp hcs).2
  have hnc : (ids c).Nodup := by
    rw [ids_inner, flatMap_append, flatMap_cons] at hn
    exact (nodup_append.mp (nodup_append.mp (nodup_cons.mp hn).2).2.1).1
  refine hspec st c _ Q hc hnc hwf.child hroom fun st' c' hstep hwf' hins => ?_
  exact hQ st' c' (hstep.child hrep hn hwf.child.leaves_ne_nil) (hwf.replace hwf') hins

theorem insertNonFull_inner (hspec : InsertSpec key rid fuel d) :
    InsertSpec key rid (fuel + 1) (d + 1) := by
  intro st t tail Q hrep hn hwf hroom hQ
  obtain ⟨id, ks, cs, rfl⟩ := exists_inner t
  obtain ⟨ks₁, ks₂, cs₁, c, cs₂, rfl, rfl, h₁, hroute⟩ := hwf.route key
  obtain ⟨⟨p, hp, hv⟩, hcs⟩ := rep_inner.mp hrep
  obtain ⟨hc, -⟩ := repList_cons.mp (repList_append.mp hcs).2
  obtain ⟨child, hchild, -, hfull⟩ := hc.root
  obtain ⟨hidx, hat⟩ := descend_spec hv hroute h₁
  have hL : LeftBound key (joinLeft (cs₁.map items) ks₁) :=
    leftBound_joinLeft (by rw [h₁, length_map]) hroute.left
  have hR : RightBound key (joinRight ks₂ (cs₂.map items)) := rightBound_joinRight hroute.right
  rw [rootId_inner, insertNonFull, wp_bind, wp_entered]
  refine ⟨hrep.notFullAt hroom, ?_⟩
  rw [wp_bind, wp_fetch hp, if_neg (by rw [hv.isLeaf_eq]; decide), wp_bind,
    wp_access hidx, wp_bind, wp_access hat, wp_bind, wp_unpin,
    unpinPage_eq, wp_bind, wp_fetch hchild, wp_bind, wp_unpin,
    unpinPage_eq]
  split_ifs with hf
  · -- the full child is split, and the insertion goes on in one of the halves
    have hfullc := hfull.mp hf
    rw [wp_bind]
    refine splitChild_wp hrep hn hwf.child hroom h₁ hfullc fun r st₁ cl s cr hsplit hstep₁ => ?_
    obtain ⟨⟨p', hp', hv'⟩, -⟩ := rep_inner.mp hstep₁.rep
    have hwf₁ : IndexWf (inner id (ks₁ ++ s :: ks₂) (cs₁ ++ cl :: cr :: cs₂)) :=
      wf_inner_split hsplit hwf hroom
    obtain ⟨-, -, hroomL, hroomR⟩ := hsplit.wf hwf.child
    rw [wp_bind, wp_fetch hp', wp_bind]
    by_cases hs : key < s
    · have hroute' : Routed key ks₁ (s :: ks₂) :=
        ⟨hroute.left, fun x hx => Option.some.inj hx ▸ hs⟩
      obtain ⟨hidx', hat'⟩ := descend_spec hv' hroute' h₁
      rw [wp_access hidx', wp_bind, wp_access hat', wp_bind, wp_unpin,
        unpinPage_eq]
      refine hspec.child hstep₁.rep hstep₁.nodup hwf₁ hroomL fun st₂ c' hstep₂ hwf₂ hins => ?_
      refine hQ st₂ _ (hstep₁.trans hstep₂) hwf₂ ?_
      rw [items_inner id c h₁, items_inner_pair id c' cr s h₁]
      exact (hsplit.inserted hfullc hwf.child (.inl ⟨hs, hins, rfl⟩)).lift hL hR
    · have hs := not_lt.mp hs
      have hroute' : Routed key (ks₁ ++ [s]) ks₂ := by
        refine ⟨fun x hx => ?_, hroute.right⟩
        rcases mem_append.mp hx with hx | hx
        · exact hroute.left x hx
        · rwa [List.mem_singleton.mp hx]
      have hks : ks₁ ++ s :: ks₂ = (ks₁ ++ [s]) ++ ks₂ := by simp
      have hassoc : ∀ x : IndexTree d, cs₁ ++ cl :: x :: cs₂ = (cs₁ ++ [cl]) ++ x :: cs₂ := by
        simp
      rw [hassoc] at hstep₁ hwf₁ hv'
      obtain ⟨hidx', hat'⟩ := descend_spec (hks ▸ hv') hroute' (by simp [h₁])
      rw [wp_access hidx', wp_bind, wp_access hat', wp_bind, wp_unpin,
        unpinPage_eq]
      refine hspec.child hstep₁.rep hstep₁.nodup hwf₁ hroomR fun st₂ c' hstep₂ hwf₂ hins => ?_
      refine hQ st₂ _ (hstep₁.trans hstep₂) hwf₂ ?_
      rw [← hassoc, items_inner id c h₁, items_inner_pair id cl c' s h₁]
      exact (hsplit.inserted hfullc hwf.child (.inr ⟨hs, hins, rfl⟩)).lift hL hR
  · refine hspec.child hrep hn hwf (fun h => hf (hfull.mpr h)) fun st' c' hstep hwf' hins => ?_
    refine hQ st' _ hstep hwf' ?_
    rw [items_inner id c h₁, items_inner id c' h₁]
    exact hins.lift hL hR

/-- **`InsertNonFull`** inserts into any tree whose root has room, given a round for each level. -/
theorem insertNonFull_spec (key : Key) (rid : RecordId) (h : d < fuel) :
    InsertSpec key rid fuel d := by
  induction d generalizing fuel with
  | zero =>
    obtain ⟨n, rfl⟩ := Nat.exists_eq_add_of_lt h
    exact insertNonFull_leaf key rid _
  | succ d ih =>
    obtain ⟨n, rfl⟩ := Nat.exists_eq_add_of_lt h
    exact insertNonFull_inner (ih (by omega))

end MiniDB.BPlusTree
