import MiniDB.Index.Equiv.BPlusTree

/-!
# Correctness of `BPlusTree`: the operations

A tree object is its meta page and the tree below it (`TreeView`).  `TreeInv` is what every operation
may rely on and leaves behind; each operation has one specification as a weakest precondition
(`openTree_wp`, `insert_wp`, `delete_wp`, `searchEqual_wp`, `rangeScan_wp`), in terms of the in-order
items of the tree.

Searches start at the leaf the descent leads to (`Located`) and follow the chain of leaves, so what
they see is the entries of that leaf and all entries to its right.
-/

namespace MiniDB.BPlusTree

open Paged BPlusNode Separated BTree Tenancy
open Prog (allocAtMost_access allocAtMost_fetch allocAtMost_unpin wp_access wp_bind wp_pure wp_set
  wp_unpin)
open Store (get?_extend get?_set_of_ne get?_set_self ownStep_extend ownStep_set setPage_eq
  unpinPage_eq wp_alloc wp_fetch)
open List (flatMap_cons length_cons mem_append mem_cons mem_cons_of_mem mem_cons_self nodup_cons)

/-- A tree object: its meta page and the tree in the pages below it. -/
structure TreeView where
  metaId : PageId
  depth : Nat
  tree : IndexTree depth

/-- The pages of a tree object. -/
def TreeView.pages (v : TreeView) : List PageId := v.metaId :: ids v.tree

/-- The in-order items of a tree object. -/
def TreeView.items (v : TreeView) : List (Item Key RecordId) := BTree.items v.tree

/-- The tree object is in the pages of the store. -/
structure TreeAt (st : Store) (v : TreeView) : Prop where
  root : ∃ p, st.get? v.metaId = some p ∧ p.get PageId 0 = rootId v.tree
  rep : Rep st v.tree kInvalidPageId
  nodup : v.pages.Nodup
  wf : IndexWf v.tree

/-- The tree object is in the pages of the store, with its keys in order. -/
structure TreeInv (st : Store) (v : TreeView) : Prop extends TreeAt st v where
  ordered : Ordered (fun a b => a ≤ b) v.items

section Invariant

variable {st st' : Store} {v : TreeView}

theorem TreeAt.present (h : TreeAt st v) : ∀ i ∈ v.pages, ∃ p, st.get? i = some p := by
  intro i hi
  rcases mem_cons.mp hi with rfl | hi
  · obtain ⟨p, hp, -⟩ := h.root
    exact ⟨p, hp⟩
  · exact h.rep.get i hi

theorem TreeAt.frame (h : TreeAt st v) (hsame : ∀ i ∈ v.pages, st'.get? i = st.get? i) :
    TreeAt st' v := by
  obtain ⟨p, hp, hroot⟩ := h.root
  refine ⟨⟨p, ?_, hroot⟩, h.rep.frame fun i hi => ?_, h.nodup, h.wf⟩
  · rw [hsame _ (mem_cons_self ..), hp]
  · exact hsame i (mem_cons_of_mem _ hi)

/-- Tree objects as tenants of the store. -/
def treeTenant : Tenant Store.get? TreeView where
  own := TreeView.pages
  inv := TreeInv
  present := fun h => h.present
  frame := fun h hsame => ⟨h.toTreeAt.frame hsame, h.ordered⟩

theorem TreeAt.nodup_ids (h : TreeAt st v) : (ids v.tree).Nodup := (nodup_cons.mp h.nodup).2

theorem TreeAt.metaId_not_mem (h : TreeAt st v) : v.metaId ∉ ids v.tree :=
  (nodup_cons.mp h.nodup).1

/-- The pages of a tree are no more than those of the store. -/
theorem TreeAt.length_le (h : TreeAt st v) : v.pages.length ≤ st.pages.length :=
  Store.length_le_of_nodup h.nodup h.present

end Invariant

/-! ### The constructor -/

/-- An empty tree object. -/
def emptyView (metaId rootId : PageId) : TreeView := ⟨metaId, 0, leaf rootId []⟩

variable {st : Store} {Q : PageId → Store → Prop} {m : PageId}

theorem openTree_wp {pre : TreeCall → Store → Prop}
    (hQ : ∀ m r st', OwnStep Store.get? st [] st' (emptyView m r).pages →
      TreeInv st' (emptyView m r) → Q m st') :
    (openTree kInvalidPageId).wp Store.OutOfPages pre Q st := by
  rw [openTree, if_pos rfl, wp_bind]
  refine wp_alloc fun m hm => ?_
  rw [wp_bind]
  refine wp_alloc fun r hr => ?_
  simp only [wp_bind, wp_set, wp_unpin, wp_pure, setPage_eq,
    unpinPage_eq]
  have hm' : st.extend.get? m = some Page.blank := by rw [get?_extend hm, if_pos rfl]
  have hne : m ≠ r := by
    rintro rfl
    rw [Store.get?_nextId hr] at hm'
    cases hm'
  obtain ⟨root, hroot⟩ : ∃ root, root = initLeaf Page.blank kInvalidPageId := ⟨_, rfl⟩
  have hleaf : LeafView root kInvalidPageId [] := hroot ▸ leafView_initLeaf Page.blank _
  rw [← hroot]
  have hr₁ : st.extend.extend.get? r = some Page.blank := by rw [get?_extend hr, if_pos rfl]
  have hm₂ : (st.extend.extend.set r root).get? m = some Page.blank := by
    rw [get?_set_of_ne _ hne, get?_extend hr, if_neg hne, hm']
  refine hQ m r _ ?_ ⟨⟨⟨_, get?_set_self hm₂ _, ?_⟩, rep_leaf.mpr ⟨root, ?_, hleaf⟩, ?_, ?_⟩, ?_⟩
  · have hpages := ((ownStep_extend hm []).trans (ownStep_extend hr [m])).trans
      ((ownStep_set _ (mem_cons_self ..) root).trans
        (ownStep_set _ (mem_cons_of_mem _ (List.mem_singleton_self m)) (Page.blank.put 0 r)))
    refine hpages.congr (fun _ => Iff.rfl) fun i => ?_
    rw [TreeView.pages, emptyView, ids_leaf, mem_cons, mem_cons, or_comm]
    simp
  · exact Page.get_put_self _ _ (by rw [size_pageId, kPageSize_eq]; omega)
  · rw [get?_set_of_ne _ (Ne.symm hne), get?_set_self hr₁]
  · exact nodup_cons.mpr ⟨fun hmem => hne (List.mem_singleton.mp hmem), List.nodup_singleton r⟩
  · exact wf_leaf.mpr (Nat.zero_le _)
  · exact List.Pairwise.nil

/-! ### `Insert` -/

/-- What an insertion does to a tree object. -/
structure InsertStep (st : Store) (v : TreeView) (key : Key) (rid : RecordId) (st' : Store)
    (v' : TreeView) : Prop where
  metaId_eq : v'.metaId = v.metaId
  treeAt : TreeAt st' v'
  pages : OwnStep Store.get? st v.pages st' v'.pages
  inserted : Inserted kLeafMaxKeys key rid v.items v'.items

theorem getRootPageId_wp {v : TreeView} (h : TreeAt st v) {allow : Fault → Prop}
    {pre : TreeCall → Store → Prop} (hQ : Q (rootId v.tree) st) :
    (getRootPageId v.metaId).wp allow pre Q st := by
  obtain ⟨p, hp, hroot⟩ := h.root
  rw [getRootPageId, wp_bind, wp_fetch hp]
  simp only [wp_bind, wp_unpin, wp_pure, unpinPage_eq, hroot]
  exact hQ

/-- A step inside the tree is a step of the tree object. -/
theorem TreeAt.step {st' : Store} {d : Nat} {t t' : IndexTree d} (h : TreeAt st ⟨m, d, t⟩)
    (hstep : TreeStep st t kInvalidPageId st' t') (hwf : IndexWf t') :
    TreeAt st' ⟨m, d, t'⟩ ∧
      OwnStep Store.get? st (TreeView.pages ⟨m, d, t⟩) st' (TreeView.pages ⟨m, d, t'⟩) := by
  have hm : m ∉ ids t := h.metaId_not_mem
  obtain ⟨hm', hsame⟩ := hstep.pages.other hm (h.present m (mem_cons_self ..))
  obtain ⟨p, hp, hroot⟩ := h.root
  refine ⟨⟨⟨p, hsame.trans hp, ?_⟩, hstep.rep, nodup_cons.mpr ⟨hm', hstep.nodup⟩, hwf⟩,
    hstep.pages.weaken [m]⟩
  rw [hroot, hstep.rootId_eq]

/-- Inserting into a tree object whose root has room. -/
theorem insertRoot_wp {v : TreeView} (h : TreeAt st v) (hroom : ¬ RootFull v.tree) (key : Key)
    (rid : RecordId) {fuel : Nat} (hfuel : v.depth < fuel) {Q : Unit → Store → Prop}
    (hQ : ∀ st' v', InsertStep st v key rid st' v' → Q () st') :
    (insertNonFull key rid fuel (rootId v.tree)).wp Store.OutOfPages TreePre Q st := by
  obtain ⟨m, d, t⟩ := v
  refine insertNonFull_spec key rid hfuel st t kInvalidPageId Q h.rep h.nodup_ids h.wf hroom ?_
  intro st' t' hstep hwf hins
  obtain ⟨hat, hpages⟩ := h.step hstep hwf
  exact hQ st' ⟨m, d, t'⟩ ⟨rfl, hat, hpages, hins⟩

/-- A full root becomes the only child of a new root and is split there. -/
theorem growRoot_wp {d : Nat} {t : IndexTree d} (h : TreeAt st ⟨m, d, t⟩) (hfull : RootFull t)
    (hQ : ∀ r st' r' cl s cr, Split r' t cl s cr →
      TreeAt st' ⟨m, d + 1, inner r [s] [cl, cr]⟩ →
      OwnStep Store.get? st (TreeView.pages ⟨m, d, t⟩) st'
      (TreeView.pages ⟨m, d + 1, inner r [s] [cl, cr]⟩) → Q r st') :
    (growRoot m (rootId t)).wp Store.OutOfPages TreePre Q st := by
  rw [growRoot, wp_bind]
  refine wp_alloc fun r hr => ?_
  obtain ⟨q, hq, hv⟩ := innerView_initInternal Page.blank (rootId t)
  rw [wp_bind, wp_access hq]
  simp only [wp_bind, wp_set, wp_unpin, setPage_eq, unpinPage_eq]
  have hnew : st.extend.get? r = some Page.blank := by rw [get?_extend hr, if_pos rfl]
  have hpages₁ := (ownStep_extend hr (TreeView.pages ⟨m, d, t⟩)).trans
    (ownStep_set _ (mem_cons_self ..) q)
  have hgetr : (st.extend.set r q).get? r = some q := get?_set_self hnew q
  have hget : ∀ i, i ≠ r → (st.extend.set r q).get? i = st.get? i := by
    intro i hi
    rw [get?_set_of_ne _ hi, get?_extend hr, if_neg hi]
  generalize st.extend.set r q = st₁ at hpages₁ hgetr hget ⊢
  -- the new page is none of the tree's
  have hr' : ∀ i ∈ TreeView.pages ⟨m, d, t⟩, i ≠ r := by
    rintro i hi rfl
    obtain ⟨p, hp⟩ := h.present i hi
    rw [Store.get?_nextId hr] at hp
    cases hp
  have hrt : r ∉ ids t := fun hi => hr' r (mem_cons_of_mem _ hi) rfl
  have hrep₁ : Rep st₁ (inner r [] [t]) kInvalidPageId :=
    rep_inner.mpr ⟨⟨q, hgetr, hv⟩, repList_singleton.mpr (h.rep.frame fun i hi =>
      hget i (hr' i (mem_cons_of_mem _ hi)))⟩
  have hn₁ : (ids (inner r [] [t])).Nodup := by
    rw [ids_inner, List.flatMap_singleton]
    exact nodup_cons.mpr ⟨hrt, h.nodup_ids⟩
  have hroom : ∀ (ks : List Key) (cs : List (IndexTree d)), ks.length ≤ 1 →
      ¬ RootFull (inner r ks cs) := by
    intro ks cs hle hf
    have := full_inner.mp hf
    rw [kInternalMaxKeys_eq] at this
    omega
  have hwf₁ : IndexWf (inner r [] [t]) :=
    wf_inner.mpr ⟨Nat.zero_le _, rfl, fun c hc => List.mem_singleton.mp hc ▸ h.wf⟩
  refine @splitChild_wp st₁ kInvalidPageId r d t [] [] [] [] hrep₁ hn₁ h.wf
    (hroom [] [t] (Nat.zero_le _)) rfl hfull _ fun r' st₂ cl s cr hsplit hstep => ?_
  have hstep' : TreeStep st₁ (inner r [] [t]) kInvalidPageId st₂ (inner r [s] [cl, cr]) := hstep
  have hwf₂ : IndexWf (inner r [s] [cl, cr]) :=
    @wf_inner_split _ _ _ d [] [] [] [] r _ _ r' t cl cr s hsplit hwf₁
      (hroom [] [t] (Nat.zero_le _))
  -- the meta page is still there, and no page of the new tree
  have hm : m ∉ ids (inner r [] [t]) := by
    rw [ids_inner, List.flatMap_singleton, mem_cons, not_or]
    exact ⟨hr' m (mem_cons_self ..), h.metaId_not_mem⟩
  obtain ⟨p, hp⟩ := h.present m (mem_cons_self ..)
  have hp₁ : st₁.get? m = some p := by rw [hget m (hr' m (mem_cons_self ..)), hp]
  obtain ⟨hm₂, hsame⟩ := hstep'.pages.other hm ⟨p, hp₁⟩
  have hp₂ : st₂.get? m = some p := hsame.trans hp₁
  rw [setRootPageId, wp_bind, wp_fetch hp₂]
  simp only [wp_bind, wp_set, wp_unpin, setPage_eq, unpinPage_eq,
    wp_pure]
  refine hQ r _ r' cl s cr hsplit ⟨⟨_, get?_set_self hp₂ _, ?_⟩, ?_, ?_, hwf₂⟩ ?_
  · exact Page.get_put_self _ _ (by rw [size_pageId, kPageSize_eq]; omega)
  · refine hstep'.rep.frame fun i hi => get?_set_of_ne _ ?_ _
    rintro rfl
    exact hm₂ hi
  · exact nodup_cons.mpr ⟨hm₂, hstep'.nodup⟩
  · have hpages₂ := (hstep'.pages.weaken [m]).trans
      (ownStep_set st₂ (List.mem_append_left _ (List.mem_singleton_self m)) (p.put 0 r))
    have hswap : ∀ i, i ∈ [m] ++ ids (inner r [] [t]) ↔ i ∈ r :: TreeView.pages ⟨m, d, t⟩ := by
      intro i
      simp only [TreeView.pages, ids_inner, List.flatMap_singleton, mem_append,
        mem_cons, List.not_mem_nil, or_false]
      exact or_left_comm
    exact hpages₁.trans (hpages₂.congr (fun i => (hswap i).symm) fun _ => Iff.rfl)

/-- **`Insert`** returns OK and puts the entry into the gap of its key. -/
theorem insert_wp {v : TreeView} (h : TreeInv st v) (key : Key) (rid : RecordId) {fuel : Nat}
    (hfuel : v.pages.length ≤ fuel) {Q : Result Unit → Store → Prop}
    (hQ : ∀ st' v', InsertStep st v key rid st' v' → Q (.ok ()) st') :
    (insert v.metaId key rid fuel).wp Store.OutOfPages TreePre Q st := by
  have hdepth : v.depth + 1 < fuel := by
    have h1 := h.wf.depth_lt
    rw [TreeView.pages, length_cons] at hfuel
    omega
  obtain ⟨root, hroot, -, hfull⟩ := h.rep.root
  rw [insert, wp_bind]
  refine getRootPageId_wp h.toTreeAt ?_
  rw [wp_bind, wp_fetch hroot, wp_bind, wp_unpin, unpinPage_eq]
  dsimp only
  split_ifs with hf
  · obtain ⟨m, d, t⟩ := v
    rw [wp_bind]
    refine growRoot_wp h.toTreeAt (hfull.mp hf) fun r st₁ r' cl s cr hsplit hat hpages => ?_
    rw [wp_bind]
    have hroom : ¬ RootFull (inner r [s] [cl, cr]) := by
      intro hf
      have := full_inner.mp hf
      rw [kInternalMaxKeys_eq, List.length_singleton] at this
      omega
    refine insertRoot_wp hat hroom key rid hdepth fun st₂ v₂ hins => ?_
    refine hQ st₂ v₂ ⟨hins.metaId_eq, hins.treeAt, hpages.trans hins.pages, ?_⟩
    have hitems : BTree.items (inner r [s] [cl, cr]) = BTree.items cl ++ .sep s :: BTree.items cr := by
      rw [items_inner_eq]
      simp [interleave, joinRight]
    exact hsplit.inserted_root (hfull.mp hf) h.wf h.ordered (hitems ▸ hins.inserted)
  · rw [wp_bind, wp_pure, wp_bind]
    refine insertRoot_wp h.toTreeAt (fun h' => hf (hfull.mpr h')) key rid (by omega) ?_
    exact hQ

/-! ### Descending -/

section Reading

variable {st : Store} {allow : Fault → Prop} {pre : TreeCall → Store → Prop}

variable {d fuel : Nat} {Q : PageId → Store → Prop}
  {ls ls₁ ls₂ : List (PageId × List (Key × RecordId))} {v : TreeView} {t : IndexTree d} {tail : PageId}
  {l : PageId × List (Key × RecordId)} {key : Key}

/-- The descent ends at the leaf the key belongs to. -/
theorem findLeafFrom_wp (key : Key) (hfuel : d < fuel) (h : Rep st t tail) (hwf : IndexWf t)
    (hQ : ∀ l ls₁ ls₂ b a, Located key t l ls₁ ls₂ b a → Q l.1 st) :
    (findLeafFrom key fuel (rootId t)).wp allow pre Q st := by
  induction d generalizing fuel tail with
  | zero =>
    obtain _ | fuel := fuel
    · cases hfuel
    obtain ⟨id, es, rfl⟩ := exists_leaf t
    obtain ⟨p, hp, hv⟩ := rep_leaf.mp h
    rw [rootId_leaf, findLeafFrom, wp_bind, wp_fetch hp, if_pos hv.isLeaf, wp_bind,
      wp_unpin, unpinPage_eq, wp_pure]
    exact hQ (id, es) [] [] [] [] (.leaf key id es)
  | succ d ih =>
    obtain _ | fuel := fuel
    · cases hfuel
    obtain ⟨id, ks, cs, rfl⟩ := exists_inner t
    obtain ⟨ks₁, ks₂, cs₁, c, cs₂, rfl, rfl, h₁, hroute⟩ := hwf.route key
    obtain ⟨⟨p, hp, hv⟩, hcs⟩ := rep_inner.mp h
    obtain ⟨hc, -⟩ := repList_cons.mp (repList_append.mp hcs).2
    obtain ⟨hidx, hat⟩ := descend_spec hv hroute h₁
    rw [rootId_inner, findLeafFrom, wp_bind, wp_fetch hp,
      if_neg (by rw [hv.isLeaf_eq]; decide), wp_bind, wp_access hidx, wp_bind,
      wp_access hat, wp_bind, wp_unpin, unpinPage_eq]
    refine ih (Nat.lt_of_succ_lt_succ hfuel) hc hwf.child fun l ls₁ ls₂ b a hl => ?_
    exact hQ l _ _ _ _ (hl.inner hroute h₁ hwf)

/-- The descent along the first children ends at the first leaf. -/
theorem leftmostLeafFrom_wp (hfuel : d < fuel) (h : Rep st t tail) (hwf : IndexWf t)
    (hQ : Q (firstId (BTree.leaves t) tail) st) :
    (leftmostLeafFrom fuel (rootId t)).wp allow pre Q st := by
  induction d generalizing fuel tail with
  | zero =>
    obtain _ | fuel := fuel
    · cases hfuel
    obtain ⟨id, es, rfl⟩ := exists_leaf t
    obtain ⟨p, hp, hv⟩ := rep_leaf.mp h
    rw [rootId_leaf, leftmostLeafFrom, wp_bind, wp_fetch hp, if_pos hv.isLeaf,
      wp_bind, wp_unpin, unpinPage_eq, wp_pure]
    exact hQ
  | succ d ih =>
    obtain _ | fuel := fuel
    · cases hfuel
    obtain ⟨id, ks, cs, rfl⟩ := exists_inner t
    obtain ⟨⟨p, hp, hv⟩, hcs⟩ := rep_inner.mp h
    obtain ⟨-, hlen, hwfs⟩ := wf_inner.mp hwf
    obtain ⟨c, cs, rfl⟩ := List.exists_cons_of_length_eq_add_one hlen
    have hwfc := hwfs c (mem_cons_self ..)
    have hat : internalChildAt p 0 = some (rootId c) := hv.childAt rfl
    rw [rootId_inner, leftmostLeafFrom, wp_bind, wp_fetch hp,
      if_neg (by rw [hv.isLeaf_eq]; decide), wp_bind, wp_access hat, wp_bind,
      wp_unpin, unpinPage_eq]
    refine ih (Nat.lt_of_succ_lt_succ hfuel) (repList_cons.mp hcs).1 hwfc ?_
    rw [leaves_inner, flatMap_cons, firstId_append hwfc.leaves_ne_nil] at hQ
    rwa [firstId_of_ne_nil hwfc.leaves_ne_nil _ tail]

/-! ### Walking along the leaves -/

/-- The walk of `RangeScan` collects what is in range among the entries of the leaves. -/
theorem rangeScanFrom_wp (below above : Key → Bool) (h : LeafChain st ls kInvalidPageId)
    (hfuel : ls.length < fuel) {Q : List (Key × RecordId) → Store → Prop}
    (hQ : Q (collect below above (ls.flatMap Prod.snd)).1 st) :
    (rangeScanFrom below above fuel (firstId ls kInvalidPageId)).wp allow pre Q st := by
  induction ls generalizing fuel Q with
  | nil =>
    obtain _ | fuel := fuel
    · cases hfuel
    exact hQ
  | cons l ls ih =>
    obtain _ | fuel := fuel
    · cases hfuel
    obtain ⟨⟨p, hp, hv⟩, hrest⟩ := h
    have hid : firstId (l :: ls) kInvalidPageId = l.1 := rfl
    have hscan := rangeScanLeaf_eq hv below above _ 0 (Nat.zero_add _)
    rw [List.drop_zero, ← hv.keyCount] at hscan
    rw [flatMap_cons, collect_append] at hQ
    rw [hid, rangeScanFrom, if_neg (Store.ne_invalid_of_get hp), wp_bind, wp_fetch hp,
      wp_bind, wp_access hscan]
    generalize collect below above l.2 = c at hQ ⊢
    obtain ⟨results, stop⟩ := c
    simp only [wp_bind, wp_unpin, unpinPage_eq, hv.nextLeafId]
    cases stop with
    | true => exact hQ
    | false =>
      rw [if_neg Bool.false_ne_true] at hQ
      rw [if_neg Bool.false_ne_true, wp_bind]
      exact ih hrest (Nat.lt_of_succ_lt_succ hfuel) hQ

/-- The walk of `SearchEqual` collects the entries of the leaves with the key. -/
theorem searchFrom_wp (key : Key) (h : LeafChain st ls kInvalidPageId) (hfuel : ls.length < fuel)
    (first : Bool) {Q : List RecordId → Store → Prop}
    (hQ : Q ((collect (fun k => decide (k < key)) (fun k => decide (k > key))
      (ls.flatMap Prod.snd)).1.map Prod.snd) st) :
    (searchFrom key fuel first (firstId ls kInvalidPageId)).wp allow pre Q st := by
  induction ls generalizing fuel first Q with
  | nil =>
    obtain _ | fuel := fuel
    · cases hfuel
    exact hQ
  | cons l ls ih =>
    obtain _ | fuel := fuel
    · cases hfuel
    obtain ⟨⟨p, hp, hv⟩, hrest⟩ := h
    have hid : firstId (l :: ls) kInvalidPageId = l.1 := rfl
    -- where the scan of the leaf starts: what is skipped is below the key
    obtain ⟨i, hi, hle, hskip⟩ : ∃ i, (if first then lowerBoundFrom p key (keyCount p).toNat 0
        else some 0) = some i ∧ i ≤ l.2.length ∧
        collect (fun k => decide (k < key)) (fun k => decide (k > key)) l.2
          = collect (fun k => decide (k < key)) (fun k => decide (k > key)) (l.2.drop i) := by
      cases first with
      | true =>
        refine ⟨_, lowerBound_eq hv key, (List.takeWhile_sublist _).length_le, ?_⟩
        have hpart := (List.takeWhile_append_dropWhile
          (p := fun e : Key × RecordId => decide (e.1 < key)) (l := l.2)).symm
        have hdrop := congrArg (List.drop (l.2.takeWhile fun e => decide (e.1 < key)).length) hpart
        rw [List.drop_left] at hdrop
        rw [hdrop]
        conv_lhs => rw [hpart]
        refine collect_skip _ fun e he => ?_
        have hlt := List.mem_takeWhile_imp he
        exact hlt
      | false => exact ⟨0, rfl, Nat.zero_le _, rfl⟩
    have hscan := searchScan_eq hv key (l.2.length - i) i (by omega)
    rw [← hv.keyCount, ← hskip] at hscan
    rw [flatMap_cons, collect_append] at hQ
    rw [hid, searchFrom, if_neg (Store.ne_invalid_of_get hp), wp_bind, wp_fetch hp]
    dsimp only
    rw [wp_bind, wp_access hi, wp_bind, wp_access hscan]
    generalize collect (fun k => decide (k < key)) (fun k => decide (k > key)) l.2 = c at hQ ⊢
    obtain ⟨results, exceeded⟩ := c
    simp only [wp_bind, wp_unpin, unpinPage_eq, hv.nextLeafId]
    cases exceeded with
    | true => exact hQ
    | false =>
      rw [if_neg Bool.false_ne_true] at hQ
      rw [if_neg Bool.false_ne_true, wp_bind]
      refine ih hrest (Nat.lt_of_succ_lt_succ hfuel) false ?_
      rwa [List.map_append] at hQ

/-- The walk of `Delete` finds the first occurrence of the entry among the sorted entries of the
leaves, or none. -/
theorem deleteFrom_wp (key : Key) (rid : RecordId) (h : LeafChain st ls kInvalidPageId)
    (hsorted : (ls.flatMap Prod.snd).Pairwise fun a b => a.1 ≤ b.1) (hfuel : ls.length < fuel)
    {Q : Result Unit → Store → Prop}
    (hfound : ∀ ls₁ l ls₂ i p, ls = ls₁ ++ l :: ls₂ → l.2[i]? = some (key, rid) →
      LeafView p (firstId ls₂ kInvalidPageId) (l.2.eraseIdx i) → Q (.ok ()) (st.set l.1 p))
    (hmissed : (key, rid) ∉ ls.flatMap Prod.snd → Q (.error entryNotFound) st) :
    (deleteFrom key rid fuel (firstId ls kInvalidPageId)).wp allow pre Q st := by
  induction ls generalizing fuel with
  | nil =>
    obtain _ | fuel := fuel
    · cases hfuel
    exact hmissed (by simp)
  | cons l ls ih =>
    obtain _ | fuel := fuel
    · cases hfuel
    obtain ⟨⟨p, hp, hv⟩, hrest⟩ := h
    have hid : firstId (l :: ls) kInvalidPageId = l.1 := rfl
    rw [flatMap_cons] at hsorted hmissed
    obtain ⟨r, hscan, hr⟩ := deleteScan_spec hv key rid l.2.length 0 (Nat.zero_add _) (by simp)
    rw [← hv.keyCount] at hscan
    rw [hid, deleteFrom, if_neg (Store.ne_invalid_of_get hp), wp_bind, wp_fetch hp,
      wp_bind, wp_access hscan]
    cases r with
    | found i =>
      have hi : i < l.2.length := (List.getElem?_eq_some_iff.mp hr).1
      obtain ⟨q, hq, hv'⟩ := removeLeafEntryAt_spec hv hi
      rw [wp_bind, wp_access hq]
      exact hfound [] l ls i q rfl hr hv'
    | exceeded =>
      obtain ⟨pre, e, post, hl, hnot, hlt⟩ := hr
      refine hmissed fun hmem => ?_
      -- every entry from `e` on has a larger key
      rw [hl, List.append_assoc, List.cons_append] at hmem hsorted
      obtain ⟨-, hright, -⟩ := List.pairwise_append.mp hsorted
      rcases mem_append.mp hmem with hmem | hmem
      · exact hnot hmem
      · rcases mem_cons.mp hmem with rfl | hmem
        · exact lt_irrefl _ hlt
        · exact not_le.mpr hlt ((List.pairwise_cons.mp hright).1 _ hmem)
    | absent =>
      rw [hv.nextLeafId, wp_bind, wp_unpin, unpinPage_eq]
      refine ih hrest (List.pairwise_append.mp hsorted).2.1 (Nat.lt_of_succ_lt_succ hfuel) ?_ ?_
      · intro ls₁ x ls₂ i q hls
        exact hfound (l :: ls₁) x ls₂ i q (by rw [hls, List.cons_append])
      · intro hmem
        exact hmissed fun hmem' => (mem_append.mp hmem').elim hr hmem

/-! ### Searching and deleting -/

/-- The leaves from the one a search ends at on. -/
theorem LeafChain.of_located {b a : List (Item Key RecordId)} (h : Rep st t tail)
    (hl : Located key t l ls₁ ls₂ b a) : LeafChain st (l :: ls₂) tail := by
  have hchain := h.leaves
  rw [hl.leaves_eq] at hchain
  exact ((leafChain_append _ _ _).mp hchain).2

/-- The descent of a tree object. -/
theorem findLeafForKey_wp (h : TreeAt st v) (key : Key) (hfuel : v.pages.length ≤ fuel)
    (hQ : ∀ l ls₁ ls₂ b a, Located key v.tree l ls₁ ls₂ b a → (l :: ls₂).length < fuel → Q l.1 st) :
    (findLeafForKey v.metaId key fuel).wp allow pre Q st := by
  have hdepth := h.wf.depth_lt
  have hleaves := length_leaves_le v.tree
  rw [TreeView.pages, length_cons] at hfuel
  rw [findLeafForKey, wp_bind]
  refine getRootPageId_wp h (findLeafFrom_wp key (by omega) h.rep h.wf ?_)
  intro l ls₁ ls₂ b a hl
  refine hQ l ls₁ ls₂ b a hl ?_
  rw [hl.leaves_eq, List.length_append] at hleaves
  omega

/-- **`SearchEqual`** finds the entries with the key from its gap on. -/
theorem searchEqual_wp (h : TreeInv st v) (key : Key) (hfuel : v.pages.length ≤ fuel)
    {Q : Result (List RecordId) → Store → Prop}
    (hQ : ∀ b es a, Target key v.items b es a →
      Q (.ok (((es ++ entries a).filter fun e => e.1 = key).map Prod.snd)) st) :
    (searchEqual v.metaId key fuel).wp allow pre Q st := by
  rw [searchEqual, wp_bind]
  refine findLeafForKey_wp h.toTreeAt key hfuel fun l ls₁ ls₂ b a hl hlen => ?_
  rw [wp_bind]
  refine searchFrom_wp key (LeafChain.of_located h.rep hl) hlen true ?_
  rw [flatMap_cons, ← hl.right_eq, collect_key (hl.target.seen_sorted h.ordered)]
  exact hQ b l.2 a hl.target

/-- The key is within the bounds of a range scan. -/
def inRange (low : Option Key) (lowInclusive : Bool) (high : Option Key) (highInclusive : Bool)
    (k : Key) : Bool :=
  !belowLow low lowInclusive k && !aboveHigh high highInclusive k

theorem aboveHigh_mono (high : Option Key) (highInclusive : Bool) (a b : Key) (hab : a ≤ b)
    (ha : aboveHigh high highInclusive a = true) : aboveHigh high highInclusive b = true := by
  cases high with
  | none => cases ha
  | some h =>
    simp only [aboveHigh, Bool.or_eq_true, decide_eq_true_eq, gt_iff_lt, Bool.and_eq_true,
      Bool.not_eq_true', beq_iff_eq] at ha ⊢
    rcases ha with ha | ⟨hi, rfl⟩
    · exact .inl (lt_of_lt_of_le ha hab)
    · rcases lt_or_eq_of_le hab with hlt | rfl
      · exact .inl hlt
      · exact .inr ⟨hi, rfl⟩

/-- **`RangeScan`** without a lower bound finds all entries in range. -/
theorem rangeScan_none_wp (h : TreeInv st v) (lowInclusive : Bool) (high : Option Key)
    (highInclusive : Bool) (hfuel : v.pages.length ≤ fuel)
    {Q : Result (List (Key × RecordId)) → Store → Prop}
    (hQ : Q (.ok ((entries v.items).filter fun e =>
      inRange none lowInclusive high highInclusive e.1)) st) :
    (rangeScan v.metaId none lowInclusive high highInclusive fuel).wp allow pre Q st := by
  have hdepth := h.wf.depth_lt
  have hleaves := length_leaves_le v.tree
  rw [TreeView.pages, length_cons] at hfuel
  rw [rangeScan]
  dsimp only
  rw [wp_bind]
  refine getRootPageId_wp h.toTreeAt ?_
  rw [wp_bind]
  refine leftmostLeafFrom_wp (by omega) h.rep h.wf ?_
  rw [wp_bind]
  refine rangeScanFrom_wp _ _ h.rep.leaves (by omega) ?_
  have hsorted := h.ordered.entries_sorted
  rw [TreeView.items, h.wf.entries_items] at hQ hsorted
  rw [collect_eq_filter (aboveHigh_mono high highInclusive) hsorted]
  exact hQ

/-- **`RangeScan`** with a lower bound finds the entries in range from the gap of the bound on. -/
theorem rangeScan_some_wp (h : TreeInv st v) (low : Key) (lowInclusive : Bool) (high : Option Key)
    (highInclusive : Bool) (hfuel : v.pages.length ≤ fuel)
    {Q : Result (List (Key × RecordId)) → Store → Prop}
    (hQ : ∀ b es a, Target low v.items b es a →
      Q (.ok ((es ++ entries a).filter fun e =>
      inRange (some low) lowInclusive high highInclusive e.1)) st) :
    (rangeScan v.metaId (some low) lowInclusive high highInclusive fuel).wp allow pre Q st := by
  rw [rangeScan]
  dsimp only
  rw [wp_bind]
  refine findLeafForKey_wp h.toTreeAt low hfuel fun l ls₁ ls₂ b a hl hlen => ?_
  rw [wp_bind]
  refine rangeScanFrom_wp _ _ (LeafChain.of_located h.rep hl) hlen ?_
  rw [flatMap_cons, ← hl.right_eq,
    collect_eq_filter (aboveHigh_mono high highInclusive) (hl.target.seen_sorted h.ordered)]
  exact hQ b l.2 a hl.target

/-- What a deletion does to a tree object. -/
structure RemoveStep (st : Store) (v : TreeView) (key : Key) (rid : RecordId) (st' : Store)
    (v' : TreeView) : Prop where
  metaId_eq : v'.metaId = v.metaId
  treeAt : TreeAt st' v'
  pages : OwnStep Store.get? st v.pages st' v'.pages
  removed : Removed (key, rid) v.items v'.items

/-- Taking an entry out of a leaf. -/
theorem TreeAt.remove (h : TreeAt st v) (hl : BTree.leaves v.tree = ls₁ ++ l :: ls₂) {i : Nat}
    {rid : RecordId} (hi : l.2[i]? = some (key, rid)) {p : Page}
    (hv : LeafView p (firstId ls₂ kInvalidPageId) (l.2.eraseIdx i)) :
    ∃ v', RemoveStep st v key rid (st.set l.1 p) v' := by
  obtain ⟨m, d, t⟩ := v
  obtain ⟨id, es⟩ := l
  obtain ⟨t', hleaves, hinners, hids, hroot, hwf, b, a, hb, ha⟩ :=
    exists_setLeaf h.wf hl hv.length_le
  have hmem : (id, es) ∈ BTree.leaves t := hl ▸ List.mem_append_right _ (mem_cons_self ..)
  have hmemId : id ∈ ids t := mem_ids_of_leaf hmem
  obtain ⟨hnleaves, -, hdisj⟩ := List.nodup_append.mp ((ids_perm t).nodup_iff.mp h.nodup_ids)
  obtain ⟨q, hq, hmeta⟩ := h.root
  have hpages : TreeView.pages ⟨m, d, t'⟩ = TreeView.pages ⟨m, d, t⟩ := congrArg (List.cons m) hids
  refine ⟨⟨m, d, t'⟩, rfl, ⟨⟨q, ?_, hmeta.trans hroot.symm⟩, ⟨fun n hn => ?_, ?_⟩, ?_, hwf⟩, ?_, ?_⟩
  · rw [get?_set_of_ne st (by rintro rfl; exact h.metaId_not_mem hmemId), hq]
  · rw [hinners] at hn
    obtain ⟨q, hq, hv⟩ := h.rep.inners n hn
    refine ⟨q, ?_, hv⟩
    rw [get?_set_of_ne st, hq]
    exact fun heq => hdisj id (List.mem_map_of_mem hmem) n.1 (List.mem_map_of_mem hn) heq.symm
  · have hchain := h.rep.leaves
    simp only [hl] at hchain hnleaves
    simp only [hleaves]
    exact hchain.set hnleaves hv
  · rw [hpages]
    exact h.nodup
  · rw [hpages]
    exact ownStep_set st (mem_cons_of_mem _ hmemId) p
  · -- the entry is the one at `i` in the leaf
    obtain ⟨hlt, hget⟩ := List.getElem?_eq_some_iff.mp hi
    refine ⟨b ++ (es.take i).map .entry, (es.drop (i + 1)).map .entry ++ a, ?_, ?_⟩
    · rw [TreeView.items, hb]
      conv_lhs => rw [← List.take_append_drop i es, List.drop_eq_getElem_cons hlt, hget]
      simp
    · rw [TreeView.items, ha, List.eraseIdx_eq_take_drop_succ]
      simp

/-- **`Delete`** takes out one occurrence of the entry if there is one from the gap of the key on;
otherwise nothing changes. -/
theorem delete_wp (h : TreeInv st v) (key : Key) (rid : RecordId) (hfuel : v.pages.length ≤ fuel)
    {Q : Result Unit → Store → Prop}
    (hfound : ∀ st' v', RemoveStep st v key rid st' v' → Q (.ok ()) st')
    (hmissed : ∀ b es a, Target key v.items b es a → (key, rid) ∉ es ++ entries a →
      Q (.error entryNotFound) st) :
    (delete v.metaId key rid fuel).wp allow pre Q st := by
  rw [delete, wp_bind]
  refine findLeafForKey_wp h.toTreeAt key hfuel fun l ls₁ ls₂ b a hl hlen => ?_
  have hseen : (l :: ls₂).flatMap Prod.snd = l.2 ++ entries a := by
    rw [flatMap_cons, hl.right_eq]
  refine deleteFrom_wp key rid (LeafChain.of_located h.rep hl) ?_ hlen ?_ ?_
  · rw [hseen]
    exact hl.target.seen_sorted h.ordered
  · intro m₁ x m₂ i p hx hi hv
    have hleaves : BTree.leaves v.tree = (ls₁ ++ m₁) ++ x :: m₂ := by
      rw [hl.leaves_eq, hx, List.append_assoc]
    obtain ⟨v', hstep⟩ := h.toTreeAt.remove hleaves hi hv
    exact hfound _ v' hstep
  · rw [hseen]
    exact hmissed b l.2 a hl.target

end Reading

/-! ### New pages -/

theorem allocAtMost_getRootPageId (metaPageId : PageId) :
    (getRootPageId metaPageId).AllocAtMost 0 :=
  (allocAtMost_fetch _).after fun _ => trivial

theorem allocAtMost_splitChild (parentId : PageId) (childIndex : Nat) :
    (splitChild parentId childIndex).AllocAtMost 1 := by
  refine (Prog.allocAtMost_entered _).after fun _ => ?_
  refine (allocAtMost_fetch _).after fun _ => ?_
  refine (allocAtMost_access _).after fun _ => ?_
  refine (allocAtMost_fetch _).after fun _ => ?_
  refine Prog.allocAtMost_alloc.bind (n := 0) fun _ => ?_
  refine (allocAtMost_access _).after fun _ => ?_
  refine (allocAtMost_access _).after fun _ => ?_
  exact trivial

/-- `InsertNonFull` splits at most one node in each round. -/
theorem allocAtMost_insertNonFull (key : Key) (rid : RecordId) (fuel : Nat) (nodeId : PageId) :
    (insertNonFull key rid fuel nodeId).AllocAtMost fuel := by
  induction fuel generalizing nodeId with
  | zero => exact Fault.noConfusion
  | succ fuel ih =>
    have hrest : ∀ id, (insertNonFull key rid fuel id).AllocAtMost (fuel + 1) := fun id =>
      (ih id).mono (Nat.le_succ fuel)
    refine (Prog.allocAtMost_entered _).after fun _ => ?_
    refine (allocAtMost_fetch _).after fun node => ?_
    split_ifs
    · refine (allocAtMost_access _).after fun _ => ?_
      refine (allocAtMost_access _).after fun _ => ?_
      exact trivial
    · refine (allocAtMost_access _).after fun _ => ?_
      refine (allocAtMost_access _).after fun _ => ?_
      refine (allocAtMost_unpin _ _).after fun _ => ?_
      refine (allocAtMost_fetch _).after fun child => ?_
      refine (allocAtMost_unpin _ _).after fun _ => ?_
      split_ifs
      · rw [Nat.add_comm]
        refine (allocAtMost_splitChild _ _).bind fun _ => ?_
        refine (allocAtMost_fetch _).after fun _ => ?_
        refine (allocAtMost_access _).after fun _ => ?_
        refine (allocAtMost_access _).after fun _ => ?_
        exact (allocAtMost_unpin _ _).after fun _ => ih _
      · exact hrest _

/-- `Insert` makes at most one page a round, a new root and its second child. -/
theorem allocAtMost_insert (metaPageId : PageId) (key : Key) (rid : RecordId) (fuel : Nat) :
    (insert metaPageId key rid fuel).AllocAtMost (2 + fuel) := by
  have hset : ∀ id, (setRootPageId metaPageId id).AllocAtMost 0 := fun id =>
    (allocAtMost_fetch _).after fun _ => trivial
  have hgrow : ∀ id, (growRoot metaPageId id).AllocAtMost 2 := by
    intro id
    refine Prog.allocAtMost_alloc.bind (n := 1) fun _ => ?_
    refine (allocAtMost_access _).after fun _ => ?_
    refine (Prog.allocAtMost_set _ _).after fun _ => ?_
    refine (allocAtMost_unpin _ _).after fun _ => ?_
    refine (allocAtMost_splitChild _ _).bind (n := 0) fun _ => ?_
    exact (hset _).after fun _ => trivial
  have hins : ∀ id, (do
      insertNonFull key rid fuel id
      pure (.ok ()) : TreeProg (Result Unit)).AllocAtMost fuel := fun id =>
    (allocAtMost_insertNonFull key rid fuel id).bind (n := 0) fun _ => trivial
  refine (allocAtMost_getRootPageId _).after fun _ => ?_
  refine (allocAtMost_fetch _).after fun root => ?_
  refine (allocAtMost_unpin _ _).after fun _ => ?_
  dsimp only
  split_ifs
  · exact (hgrow _).bind hins
  · exact (Prog.allocAtMost_pure _ 2).bind hins

theorem allocAtMost_findLeafFrom (key : Key) (fuel : Nat) (id : PageId) :
    (findLeafFrom key fuel id).AllocAtMost 0 := by
  induction fuel generalizing id with
  | zero => exact Fault.noConfusion
  | succ fuel ih =>
    refine (allocAtMost_fetch _).after fun page => ?_
    split_ifs
    · exact trivial
    · refine (allocAtMost_access _).after fun _ => ?_
      refine (allocAtMost_access _).after fun _ => ?_
      exact (allocAtMost_unpin _ _).after fun _ => ih _

theorem allocAtMost_deleteFrom (key : Key) (rid : RecordId) (fuel : Nat) (id : PageId) :
    (deleteFrom key rid fuel id).AllocAtMost 0 := by
  induction fuel generalizing id with
  | zero => exact Fault.noConfusion
  | succ fuel ih =>
    rw [deleteFrom]
    split_ifs
    · exact trivial
    · refine (allocAtMost_fetch _).after fun leaf => ?_
      refine (allocAtMost_access _).after fun r => ?_
      cases r with
      | found i => exact (allocAtMost_access _).after fun _ => trivial
      | exceeded => exact trivial
      | absent => exact (allocAtMost_unpin _ _).after fun _ => ih _

theorem allocAtMost_delete (metaPageId : PageId) (key : Key) (rid : RecordId) (fuel : Nat) :
    (delete metaPageId key rid fuel).AllocAtMost 0 := by
  refine Prog.AllocAtMost.after ?_ fun _ => allocAtMost_deleteFrom key rid fuel _
  exact (allocAtMost_getRootPageId _).after fun _ => allocAtMost_findLeafFrom key fuel _

end MiniDB.BPlusTree
