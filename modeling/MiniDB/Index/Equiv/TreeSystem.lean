import MiniDB.Index.Equiv.BPlusOps
import MiniDB.Lib.Run

/-!
# B+trees sharing a pool

Any number of tree objects live in one page pool; inserts and deletes on them are interleaved freely
(`TreeOp`, `Trees.exec`).  The abstract state is computed from the calls and their answers alone: for
each tree the bag of entries inserted and not taken out again (`contents`).

The invariant `TreesInv` holds after every history, whatever the calls are: each tree is in pages of
its own with its keys in order, and its entries are the bag.  `treePages_sound` spells out what that
means for the pages, and `rangeScan_refines_bag` what a client sees through a range scan that does not
start inside a run of equal keys.
-/

namespace MiniDB.BPlusTree

open Paged BPlusNode Separated BTree Tenancy Runs

/-! ### Calls -/

/-- The tree objects of a pool, numbered in the order they were created. -/
structure Trees where
  store : Store
  metas : List PageId
  deriving DecidableEq

/-- An update of a tree. -/
inductive TreeUpdate
  | insert (key : Key) (rid : RecordId)
  | delete (key : Key) (rid : RecordId)
  deriving DecidableEq

/-- A new tree, or an update of the one with the given number. -/
inductive TreeOp
  | create
  | update (f : Nat) (u : TreeUpdate)
  deriving DecidableEq

/-- What a call answers. -/
inductive TreeAnswer
  | opened
  | status (r : Result Unit)
  | noTree
  deriving DecidableEq

/-- The program of an update. -/
def TreeUpdate.prog (u : TreeUpdate) (metaPageId : PageId) (fuel : Nat) : TreeProg (Result Unit) :=
  match u with
  | .insert key rid => BPlusTree.insert metaPageId key rid fuel
  | .delete key rid => BPlusTree.delete metaPageId key rid fuel

/-- Execute a call. -/
def Trees.exec (s : Trees) : TreeOp → Except Fault (TreeAnswer × Trees)
  | .create => do
    let (m, st) ← Store.exec (fun _ => openTree kInvalidPageId) s.store
    return (.opened, ⟨st, s.metas ++ [m]⟩)
  | .update f u =>
    match s.metas[f]? with
    | none => return (.noTree, s)
    | some m => do
      let (r, st) ← Store.exec (u.prog m) s.store
      return (.status r, ⟨st, s.metas⟩)

variable {s s' : Trees} {st : Store} {v : TreeView} {rows rows' : List TreeView}
  {lowInclusive highInclusive : Bool} {m : PageId} {r : Result Unit} {u : TreeUpdate} {f : Nat}

theorem Trees.exec_update (hm : s.metas[f]? = some m) (h : Store.exec (u.prog m) s.store = .ok (r, st)) :
    s.exec (.update f u) = .ok (.status r, ⟨st, s.metas⟩) := by
  simp only [Trees.exec, hm, h]
  rfl

/-! ### The abstract state -/

/-- The entries of a tree as its clients know them. -/
abbrev Bag := Multiset (Key × RecordId)

/-- The effect of an answered update on the tree it was made on. -/
def TreeUpdate.next : TreeUpdate → Result Unit → Bag → Bag
  | .insert key rid, .ok _, b => (key, rid) ::ₘ b
  | .delete key rid, .ok _, b => b.erase (key, rid)
  | _, .error _, b => b

/-- The effect of an answered call on all trees. -/
def TreeOp.next (bs : List Bag) : TreeOp → TreeAnswer → List Bag
  | .create, _ => bs ++ [0]
  | .update f u, .status r => bs.modify f (u.next r)
  | .update _ _, _ => bs

/-- The bags of all trees after a history of answered calls. -/
def contents (history : List (TreeOp × TreeAnswer)) : List Bag :=
  history.foldl (fun bs c => c.1.next bs c.2) []

theorem contents_snoc (history : List (TreeOp × TreeAnswer)) (op : TreeOp) (r : TreeAnswer) :
    contents (history ++ [(op, r)]) = op.next (contents history) r := by
  rw [contents, List.foldl_append]
  rfl

/-! ### The invariant -/

/-- The entries of a tree object. -/
def TreeView.bag (v : TreeView) : Bag := entries v.items

/-- The trees of a pool: sound, in disjoint pages, with the bags `bs`. -/
structure TreesInv (s : Trees) (bs : List Bag) (rows : List TreeView) : Prop where
  metas_eq : s.metas = rows.map TreeView.metaId
  bags_eq : bs = rows.map TreeView.bag
  tenants : Tenants treeTenant s.store rows

theorem TreesInv.init (st : Store) : TreesInv ⟨st, []⟩ [] [] := ⟨rfl, rfl, .nil _ _⟩

/-- A new tree is empty, in pages of its own. -/
theorem openTree_exec (st : Store) :
    Store.exec (fun _ => openTree kInvalidPageId) st = .error .noNewPage ∨
    ∃ m r st', Store.exec (fun _ => openTree kInvalidPageId) st = .ok (m, st') ∧
      OwnStep Store.get? st [] st' (emptyView m r).pages ∧ TreeInv st' (emptyView m r) := by
  have hwp := Store.exec_of_wp (s := st) (x := fun _ => openTree kInvalidPageId)
    (Q := fun m st' => ∃ r, OwnStep Store.get? st [] st' (emptyView m r).pages ∧
      TreeInv st' (emptyView m r))
    (openTree_wp fun m r st' hpages hinv => ⟨r, hpages, hinv⟩)
  rcases hwp with hrun | ⟨m, st', hrun, r, hpages, hinv⟩
  · exact .inl hrun
  · exact .inr ⟨m, r, st', hrun, hpages, hinv⟩

/-- What an update does to the tree it is made on. -/
def UpdateSpec (st : Store) (v : TreeView) (u : TreeUpdate) (r : Result Unit) (st' : Store)
    (v' : TreeView) : Prop :=
  match u with
  | .insert key rid => r = .ok () ∧ InsertStep st v key rid st' v'
  | .delete key rid => (r = .ok () ∧ RemoveStep st v key rid st' v') ∨
    (r = .error entryNotFound ∧ st' = st ∧ v' = v ∧
      ∃ b es a, Target key v.items b es a ∧ (key, rid) ∉ es ++ entries a)

theorem TreeUpdate.spec (h : TreeInv st v) (u : TreeUpdate) {fuel : Nat}
    (hfuel : v.pages.length ≤ fuel) :
    (u.prog v.metaId fuel).wp Store.OutOfPages TreePre
      (fun r st' => ∃ v', UpdateSpec st v u r st' v') st := by
  cases u with
  | insert key rid => exact insert_wp h key rid hfuel fun st' v' hstep => ⟨v', rfl, hstep⟩
  | delete key rid =>
    refine delete_wp h key rid hfuel (fun st' v' hstep => ⟨v', .inl ⟨rfl, hstep⟩⟩) ?_
    exact fun b es a ht hnot => ⟨v, .inr ⟨rfl, rfl, rfl, b, es, a, ht, hnot⟩⟩

/-- An update keeps the tree sound and has the effect on its bag that its answer tells. -/
theorem UpdateSpec.sound {st' : Store} {v' : TreeView} (h : TreeInv st v)
    (hu : UpdateSpec st v u r st' v') :
    v'.metaId = v.metaId ∧ TreeInv st' v' ∧ OwnStep Store.get? st v.pages st' v'.pages ∧
      v'.bag = u.next r v.bag := by
  cases u with
  | insert key rid =>
    obtain ⟨rfl, hstep⟩ := hu
    refine ⟨hstep.metaId_eq, ⟨hstep.treeAt, hstep.inserted.ordered_le h.ordered⟩, hstep.pages, ?_⟩
    exact Multiset.coe_eq_coe.mpr hstep.inserted.perm
  | delete key rid =>
    rcases hu with ⟨rfl, hstep⟩ | ⟨rfl, rfl, rfl, -⟩
    · refine ⟨hstep.metaId_eq, ⟨hstep.treeAt, hstep.removed.ordered h.ordered⟩, hstep.pages, ?_⟩
      have hbag : v.bag = (key, rid) ::ₘ v'.bag := Multiset.coe_eq_coe.mpr hstep.removed.perm
      rw [TreeUpdate.next, hbag, Multiset.erase_cons_head]
    · exact ⟨rfl, h, .refl _ _, rfl⟩

/-- What a call does to the trees. -/
def OpSpec (s : Trees) (rows : List TreeView) (op : TreeOp) (r : TreeAnswer) (s' : Trees)
    (rows' : List TreeView) : Prop :=
  match op with
  | .create => ∃ v, rows' = rows ++ [v] ∧ v.items = []
  | .update f u => (s.metas[f]? = none ∧ r = .noTree ∧ s' = s ∧ rows' = rows) ∨
    ∃ l v v' rest res, rows = l ++ v :: rest ∧ f = l.length ∧ r = .status res ∧
      rows' = l ++ v' :: rest ∧ UpdateSpec s.store v u res s'.store v'

variable {bs : List Bag} {op : TreeOp} {g : Nat} {low high : Option Key} {id : PageId}
  {before : List (TreeOp × TreeAnswer)}

theorem TreesInv.split (hs : TreesInv s bs rows) (hm : s.metas[f]? = some m) :
    ∃ l v rest, rows = l ++ v :: rest ∧ f = l.length ∧ m = v.metaId ∧ TreeInv s.store v := by
  rw [hs.metas_eq, List.getElem?_map] at hm
  obtain ⟨v, hv, rfl⟩ := Option.map_eq_some_iff.mp hm
  obtain ⟨l, rest, rfl, rfl⟩ := split_of_getElem? hv
  exact ⟨l, v, rest, rfl, rfl, rfl, hs.tenants.row v (List.mem_of_getElem? hv)⟩

/-- A call returns, unless the pool has no page left, and keeps the invariant. -/
theorem TreesInv.exec (hs : TreesInv s bs rows) (op : TreeOp) :
    s.exec op = .error .noNewPage ∨
    ∃ r s' rows', s.exec op = .ok (r, s') ∧ TreesInv s' (op.next bs r) rows' ∧
      OpSpec s rows op r s' rows' := by
  cases op with
  | create =>
    rcases openTree_exec s.store with hrun | ⟨m, r, st', hrun, hpages, hinv⟩
    · left
      rw [Trees.exec, hrun]
      rfl
    · right
      refine ⟨.opened, ⟨st', s.metas ++ [m]⟩, rows ++ [emptyView m r], ?_, ⟨?_, ?_, ?_⟩, _, rfl, rfl⟩
      · rw [Trees.exec, hrun]
        rfl
      · rw [hs.metas_eq, List.map_append]
        rfl
      · rw [TreeOp.next, hs.bags_eq, List.map_append]
        rfl
      · exact hs.tenants.create hpages hinv
  | update f u =>
    cases hm : s.metas[f]? with
    | none =>
      right
      refine ⟨.noTree, s, rows, ?_, hs, .inl ⟨hm, rfl, rfl, rfl⟩⟩
      simp only [Trees.exec, hm]
      rfl
    | some m =>
      obtain ⟨l, v, rest, rfl, rfl, rfl, hv⟩ := hs.split hm
      rcases Store.exec_of_wp (Prog.wp_forget (u.spec hv (Nat.le_succ_of_le hv.length_le))) with
        hrun | ⟨res, st', hrun, v', hu⟩
      · left
        simp only [Trees.exec, hm, hrun]
        rfl
      · right
        obtain ⟨hmeta, hinv, hpages, hbag⟩ := hu.sound hv
        refine ⟨.status res, ⟨st', s.metas⟩, l ++ v' :: rest, ?_, ⟨?_, ?_, ?_⟩,
          .inr ⟨l, v, v', rest, res, rfl, rfl, rfl, rfl, hu⟩⟩
        · exact Trees.exec_update hm hrun
        · rw [hs.metas_eq, List.map_append, List.map_append, List.map_cons, List.map_cons, hmeta]
        · have hmod := modify_length (l.map TreeView.bag) (rest.map TreeView.bag) v.bag (u.next res)
          rw [List.length_map, ← hbag] at hmod
          rw [TreeOp.next, hs.bags_eq, List.map_append, List.map_cons, hmod, List.map_append,
            List.map_cons]
        · exact hs.tenants.step hpages hinv

/-- The trees are sound after every history of calls. -/
theorem treesInv_of_run {history : List (TreeOp × TreeAnswer)}
    (hrun : Run Trees.exec ⟨st, []⟩ history s) : ∃ rows, TreesInv s (contents history) rows := by
  refine Run.always (fun history s => ∃ rows, TreesInv s (contents history) rows)
    ⟨[], TreesInv.init st⟩ ?_ hrun
  rintro history s op r s' ⟨rows, hs⟩ hexec
  rcases hs.exec op with herr | ⟨r', t, rows', hok, hs', -⟩
  · simp [hexec] at herr
  · obtain ⟨rfl, rfl⟩ : r = r' ∧ s' = t := by simpa [hexec] using hok
    exact ⟨rows', by rw [contents_snoc]; exact hs'⟩

/-- The row of a tree that a call does not update. -/
theorem OpSpec.row_eq {r : TreeAnswer} (h : OpSpec s rows op r s' rows') (hg : ∀ u, op ≠ .update g u)
    (hv : rows[g]? = some v) : rows'[g]? = some v := by
  cases op with
  | create =>
    obtain ⟨w, rfl, -⟩ := h
    rw [List.getElem?_append_left (List.getElem?_eq_some_iff.mp hv).1, hv]
  | update f u =>
    rcases h with ⟨-, -, -, rfl⟩ | ⟨l, w, w', rest, res, rfl, rfl, -, rfl, -⟩
    · exact hv
    · have hne : g ≠ l.length := fun h => hg u (by rw [h])
      rcases Nat.lt_or_gt_of_ne hne with hlt | hlt
      · rwa [List.getElem?_append_left hlt] at hv ⊢
      · obtain ⟨n, rfl⟩ : ∃ n, g = l.length + (n + 1) := ⟨g - l.length - 1, by omega⟩
        rwa [List.getElem?_append_right (Nat.le_add_right ..), Nat.add_sub_cancel_left,
          List.getElem?_cons_succ] at hv ⊢

/-! ### Range scans -/

/-- The key is within the bounds of a range, either of which may be missing. -/
def Within (low : Option Key) (lowInclusive : Bool) (high : Option Key) (highInclusive : Bool)
    (k : Key) : Prop :=
  (∀ l ∈ low, if lowInclusive then l ≤ k else l < k) ∧
    ∀ h ∈ high, if highInclusive then k ≤ h else k < h

theorem inRange_iff {k : Key} :
    inRange low lowInclusive high highInclusive k = true
      ↔ Within low lowInclusive high highInclusive k := by
  have hlow : belowLow low lowInclusive k = false ↔
      ∀ l ∈ low, if lowInclusive then l ≤ k else l < k := by
    cases low with
    | none => simp [belowLow]
    | some l =>
      cases lowInclusive with
      | true => simp [belowLow]
      | false =>
        simp only [belowLow, Bool.not_false, Bool.true_and, Bool.or_eq_false_iff,
          decide_eq_false_iff_not, not_lt, beq_eq_false_iff_ne, Option.mem_some_iff, forall_eq',
          Bool.false_eq_true, if_false]
        exact ⟨fun h => lt_of_le_of_ne h.1 (Ne.symm h.2), fun h => ⟨h.le, h.ne'⟩⟩
  have hhigh : aboveHigh high highInclusive k = false ↔
      ∀ h ∈ high, if highInclusive then k ≤ h else k < h := by
    cases high with
    | none => simp [aboveHigh]
    | some h =>
      cases highInclusive with
      | true => simp [aboveHigh]
      | false =>
        simp only [aboveHigh, Bool.not_false, Bool.true_and, Bool.or_eq_false_iff, gt_iff_lt,
          decide_eq_false_iff_not, not_lt, beq_eq_false_iff_ne, Option.mem_some_iff, forall_eq',
          Bool.false_eq_true, if_false]
        exact ⟨fun h => lt_of_le_of_ne h.1 h.2, fun h => ⟨h.le, h.ne⟩⟩
  rw [inRange, Bool.and_eq_true, Bool.not_eq_true', Bool.not_eq_true', hlow, hhigh, Within]

instance (low : Option Key) (lowInclusive : Bool) (high : Option Key) (highInclusive : Bool) :
    DecidablePred (Within low lowInclusive high highInclusive) :=
  fun _ => decidable_of_iff _ inRange_iff

/-- A lookup sees the entries from the gap of its key on. -/
theorem searchEqual_exec (h : TreeInv st v) (key : Key) :
    ∃ b es a, Target key v.items b es a ∧ Store.exec (searchEqual v.metaId key) st
      = .ok (.ok (((es ++ entries a).filter fun e => e.1 = key).map Prod.snd), st) := by
  have hwp : (searchEqual v.metaId key (st.pages.length + 1)).wp (fun _ => False)
      (fun _ _ => True) (fun r st' => ∃ b es a, Target key v.items b es a ∧
        r = .ok (((es ++ entries a).filter fun e => e.1 = key).map Prod.snd) ∧ st' = st) st :=
    searchEqual_wp h key (Nat.le_succ_of_le h.length_le) fun b es a ht => ⟨b, es, a, ht, rfl, rfl⟩
  obtain ⟨r, st', hrun, b, es, a, ht, rfl, rfl⟩ := Store.exec_of_wp_false hwp
  exact ⟨b, es, a, ht, hrun⟩

/-- A range scan with a lower bound sees the entries from the gap of the bound on. -/
theorem rangeScan_some_exec (h : TreeInv st v) (low : Key) (lowInclusive : Bool) (high : Option Key)
    (highInclusive : Bool) :
    ∃ b es a, Target low v.items b es a ∧
      Store.exec (rangeScan v.metaId (some low) lowInclusive high highInclusive) st
        = .ok (.ok ((es ++ entries a).filter fun e =>
          inRange (some low) lowInclusive high highInclusive e.1), st) := by
  have hwp : (rangeScan v.metaId (some low) lowInclusive high highInclusive
      (st.pages.length + 1)).wp (fun _ => False) (fun _ _ => True) (fun r st' =>
        ∃ b es a, Target low v.items b es a ∧ r = .ok ((es ++ entries a).filter fun e =>
          inRange (some low) lowInclusive high highInclusive e.1) ∧ st' = st) st :=
    rangeScan_some_wp h low lowInclusive high highInclusive (Nat.le_succ_of_le h.length_le)
      fun b es a ht => ⟨b, es, a, ht, rfl, rfl⟩
  obtain ⟨r, st', hrun, b, es, a, ht, rfl, rfl⟩ := Store.exec_of_wp_false hwp
  exact ⟨b, es, a, ht, hrun⟩

theorem rangeScan_none_exec (h : TreeInv st v) (lowInclusive : Bool) (high : Option Key)
    (highInclusive : Bool) :
    Store.exec (rangeScan v.metaId none lowInclusive high highInclusive) st
      = .ok (.ok ((entries v.items).filter fun e =>
        inRange none lowInclusive high highInclusive e.1), st) := by
  have hwp : (rangeScan v.metaId none lowInclusive high highInclusive (st.pages.length + 1)).wp
      (fun _ => False) (fun _ _ => True) (fun r st' => r = .ok ((entries v.items).filter fun e =>
        inRange none lowInclusive high highInclusive e.1) ∧ st' = st) st :=
    rangeScan_none_wp h lowInclusive high highInclusive (Nat.le_succ_of_le h.length_le) ⟨rfl, rfl⟩
  obtain ⟨r, st', hrun, rfl, rfl⟩ := Store.exec_of_wp_false hwp
  exact hrun

/-- A range scan that starts at the first leaf, or above its lower bound, finds all entries in
range. -/
theorem rangeScan_exec (h : TreeInv st v) (hlow : low = none ∨ lowInclusive = false) (high : Option Key)
    (highInclusive : Bool) :
    Store.exec (rangeScan v.metaId low lowInclusive high highInclusive) st
      = .ok (.ok ((entries v.items).filter fun e =>
        inRange low lowInclusive high highInclusive e.1), st) := by
  cases low with
  | none => exact rangeScan_none_exec h lowInclusive high highInclusive
  | some l =>
    obtain rfl : lowInclusive = false := hlow.resolve_left (Option.some_ne_none l)
    obtain ⟨b, es, a, ht, hrun⟩ := rangeScan_some_exec h l false high highInclusive
    -- what is left of the gap of `l` is at most `l`
    have hout : ∀ e ∈ entries b, inRange (some l) false high highInclusive e.1 = false := by
      intro e he
      have hle : e.1 ≤ l := ht.left_le sepRel_le h.ordered (.entry e) (mem_entries.mp he)
      rw [← Bool.not_eq_true, inRange_iff]
      intro hw
      have hlt := hw.1 l rfl
      rw [if_neg Bool.false_ne_true] at hlt
      exact not_lt.mpr hle hlt
    rw [hrun, ht.filter_seen hout]

/-- A range scan of a tree shows the entries of a bag within the bounds, each as often as it occurs,
with keys that do not decrease. -/
def ScanShows (st : Store) (m : PageId) (b : Bag) (low : Option Key) (lowInclusive : Bool)
    (high : Option Key) (highInclusive : Bool) : Prop :=
  ∃ out, Store.exec (rangeScan m low lowInclusive high highInclusive) st = .ok (.ok out, st) ∧
    (out : Bag) = b.filter (fun e => Within low lowInclusive high highInclusive e.1) ∧
    out.Pairwise fun a b => a.1 ≤ b.1

/-- Range scans without a lower bound, or with an exclusive one, show the bags of all trees. -/
def ScansShow (s : Trees) (bs : List Bag) : Prop :=
  s.metas.length = bs.length ∧
  ∀ (f : Nat) m b, s.metas[f]? = some m → bs[f]? = some b →
    ∀ low lowInclusive high highInclusive, low = none ∨ lowInclusive = false →
      ScanShows s.store m b low lowInclusive high highInclusive

/-- The same range scans of tree `g` have the same results in both states. -/
def SameScans (g : Nat) (s s' : Trees) : Prop :=
  ∀ m, s.metas[g]? = some m → s'.metas[g]? = some m ∧
    ∀ low lowInclusive high highInclusive, low = none ∨ lowInclusive = false →
      (Store.exec (rangeScan m low lowInclusive high highInclusive) s'.store).map Prod.fst
        = (Store.exec (rangeScan m low lowInclusive high highInclusive) s.store).map Prod.fst

/-- A range scan that returns all entries of the tree in range shows its bag. -/
theorem TreeInv.scanShows (h : TreeInv st v)
    (hrun : Store.exec (rangeScan v.metaId low lowInclusive high highInclusive) st
      = .ok (.ok ((entries v.items).filter fun e =>
      inRange low lowInclusive high highInclusive e.1), st)) :
    ScanShows st v.metaId v.bag low lowInclusive high highInclusive := by
  refine ⟨_, hrun, ?_, ?_⟩
  · rw [TreeView.bag, Multiset.filter_coe]
    congr 1
    exact List.filter_congr fun e _ => by rw [Bool.eq_iff_iff, inRange_iff, decide_eq_true_iff]
  · exact List.Pairwise.sublist List.filter_sublist h.ordered.entries_sorted

theorem TreesInv.scansShow (hs : TreesInv s bs rows) : ScansShow s bs := by
  refine ⟨by rw [hs.metas_eq, hs.bags_eq, List.length_map, List.length_map], ?_⟩
  intro f m b hm hb low lowInclusive high highInclusive hlow
  obtain ⟨l, v, rest, rfl, rfl, rfl, hv⟩ := hs.split hm
  obtain rfl : v.bag = b := by simpa [hs.bags_eq] using hb
  exact hv.scanShows (rangeScan_exec hv hlow high highInclusive)

theorem OpSpec.sameScans {bs' : List Bag} (hs : TreesInv s bs rows) (hs' : TreesInv s' bs' rows')
    {r : TreeAnswer} (h : OpSpec s rows op r s' rows') (hg : ∀ u, op ≠ .update g u) :
    SameScans g s s' := by
  intro m hm
  rw [hs.metas_eq, List.getElem?_map] at hm
  obtain ⟨v, hv, rfl⟩ := Option.map_eq_some_iff.mp hm
  have hv' := h.row_eq hg hv
  refine ⟨by rw [hs'.metas_eq, List.getElem?_map, hv']; rfl, ?_⟩
  intro low lowInclusive high highInclusive hlow
  rw [rangeScan_exec (hs.tenants.row v (List.mem_of_getElem? hv)) hlow,
    rangeScan_exec (hs'.tenants.row v (List.mem_of_getElem? hv')) hlow]
  rfl

/-- **No entry is lost or duplicated.**  After every history of inserts and deletes on any number of
trees in one pool, range scans show the bags computed from the history, and a call on one tree does
not change what they show of another. -/
theorem rangeScan_refines_bag (st : Store) {history : List (TreeOp × TreeAnswer)} {s : Trees}
    (hrun : Run Trees.exec ⟨st, []⟩ history s) :
    ScansShow s (contents history) ∧
      ∀ op r s', s.exec op = .ok (r, s') → ∀ g, (∀ u, op ≠ .update g u) → SameScans g s s' := by
  obtain ⟨rows, hs⟩ := treesInv_of_run hrun
  refine ⟨hs.scansShow, fun op r s' hexec g hg => ?_⟩
  rcases hs.exec op with herr | ⟨r', t, rows', hok, hs', hop⟩
  · simp [hexec] at herr
  · obtain ⟨rfl, rfl⟩ : r = r' ∧ s' = t := by simpa [hexec] using hok
    exact hop.sameScans hs hs' hg

/-! ### Filling a leaf -/

/-- An insert into a tree that is a leaf with room writes the leaf only. -/
theorem insert_leaf_exec (h : TreeInv st ⟨m, 0, leaf id es⟩) (hroom : es.length < kLeafMaxKeys)
    (key : Key) (rid : RecordId) :
    ∃ p, Store.exec (insert m key rid) st = .ok (.ok (), st.set id p) ∧
      TreeInv (st.set id p) ⟨m, 0, leaf id (insertSorted key rid es)⟩ := by
  obtain ⟨root, hroot, hv⟩ := rep_leaf.mp h.rep
  have hnot : ¬ RootFull (leaf id es) := fun hf => absurd (full_leaf.mp hf) (not_le.mpr hroom)
  have hwp : (insert m key rid (st.pages.length + 1)).wp (fun _ => False) TreePre
      (fun r st' => ∃ p, LeafView p kInvalidPageId (insertSorted key rid es) ∧ r = .ok () ∧
        st' = st.set id p) st := by
    rw [insert, Prog.wp_bind]
    refine getRootPageId_wp h.toTreeAt ?_
    rw [rootId_leaf, Prog.wp_bind, Store.wp_fetch hroot, Prog.wp_bind, Prog.wp_unpin,
      Store.unpinPage_eq]
    dsimp only
    rw [if_neg (by rw [hv.isFull, decide_eq_true_iff]; exact not_le.mpr hroom), Prog.wp_bind,
      Prog.wp_pure, Prog.wp_bind]
    exact insertNonFull_leaf_wp h.rep hnot key rid _ fun p hp => ⟨p, hp, rfl, rfl⟩
  obtain ⟨r, st', hrun, p, hp, rfl, rfl⟩ := Store.exec_of_wp_false (Prog.wp_forget hwp)
  refine ⟨p, hrun, (h.toTreeAt.step (TreeStep.setLeaf hroot hp) (wf_leaf.mpr hp.length_le)).1, ?_⟩
  have hins : Inserted kLeafMaxKeys key rid (BTree.items (leaf id es))
      (BTree.items (leaf id (insertSorted key rid es))) :=
    ⟨[], es, [], ⟨by simp, .inl rfl, .inl rfl⟩, .inl ⟨hroom, by simp⟩⟩
  exact hins.ordered_le h.ordered

/-- Any insert succeeds as long as there are pages. -/
theorem TreeInv.insert_exec (h : TreeInv st v) (hroom : st.pages.length + 1 < 2 ^ 30) (key : Key)
    (rid : RecordId) :
    ∃ st' v', Store.exec (insert v.metaId key rid) st = .ok (.ok (), st') ∧
      UpdateSpec st v (.insert key rid) (.ok ()) st' v' := by
  have hspec := TreeUpdate.spec h (.insert key rid) (Nat.le_succ_of_le h.length_le)
  rcases Store.exec_of_wp (Prog.wp_forget hspec) with herr | ⟨r, st', hexec, v', hu⟩
  · exact absurd herr (Store.run_ne_noNewPage (allocAtMost_insert _ key rid _) (by omega))
  · obtain rfl : r = .ok () := hu.1
    exact ⟨st', v', hexec, hu⟩

/-- `n` inserts into the first tree. -/
def inserts (key : Nat → Key) : Nat → List (TreeOp × TreeAnswer)
  | 0 => []
  | n + 1 => inserts key n ++ [(.update 0 (.insert (key n) ⟨1, UInt16.ofNat n⟩), .status (.ok ()))]

/-- As long as the first tree is a leaf with room, the inserts write the leaf only. -/
theorem run_inserts {s₀ : Trees} {es₀ : List (Key × RecordId)}
    (hrun : Run Trees.exec ⟨st, []⟩ before s₀) (hm : s₀.metas[0]? = some m)
    (hinv : TreeInv s₀.store ⟨m, 0, leaf id es₀⟩) (key : Nat → Key) {n : Nat}
    (hn : es₀.length + n ≤ kLeafMaxKeys) :
    ∃ s es, Run Trees.exec ⟨st, []⟩ (before ++ inserts key n) s ∧ s.metas = s₀.metas ∧
      s.store.pages.length = s₀.store.pages.length ∧ TreeInv s.store ⟨m, 0, leaf id es⟩ ∧
      es.length = es₀.length + n ∧ ∀ e ∈ es, e ∈ es₀ ∨ ∃ i, e.1 = key i := by
  induction n with
  | zero =>
    exact ⟨s₀, es₀, by rwa [inserts, List.append_nil], rfl, rfl, hinv, rfl, fun e he => .inl he⟩
  | succ n ih =>
    obtain ⟨s, es, hrun', hmetas, hpages, hinv', hlength, hkeys⟩ := ih (by omega)
    obtain ⟨p, hexec, hnext⟩ := insert_leaf_exec hinv' (by omega) (key n) ⟨1, UInt16.ofNat n⟩
    have hperm := perm_insertSorted (key n) (⟨1, UInt16.ofNat n⟩ : RecordId) es
    refine ⟨⟨s.store.set id p, s.metas⟩, _, ?_, hmetas, ?_, hnext, ?_, fun e he => ?_⟩
    · rw [inserts, ← List.append_assoc]
      exact hrun'.snoc (Trees.exec_update (by rwa [hmetas]) hexec)
    · rw [Store.length_set, hpages]
    · rw [hperm.length_eq, List.length_cons, hlength, Nat.add_assoc]
    · rcases List.mem_cons.mp (hperm.mem_iff.mp he) with rfl | he
      · exact .inr ⟨n, rfl⟩
      · exact hkeys e he

theorem contents_inserts {b : Bag} (hbefore : contents before = b :: bs) (key : Nat → Key) (n : Nat) :
    ∃ b', contents (before ++ inserts key n) = b' :: bs ∧ b'.card = b.card + n ∧
      (∀ i < n, (key i, ⟨1, UInt16.ofNat i⟩) ∈ b') ∧ ∀ e ∈ b', e ∈ b ∨ ∃ i, e.1 = key i := by
  induction n with
  | zero =>
    exact ⟨b, by rwa [inserts, List.append_nil], rfl, fun i hi => absurd hi (Nat.not_lt_zero i),
      fun e he => .inl he⟩
  | succ n ih =>
    obtain ⟨b', hb', hcard, hmem, hkeys⟩ := ih
    refine ⟨(key n, ⟨1, UInt16.ofNat n⟩) ::ₘ b', ?_, ?_, fun i hi => ?_, fun e he => ?_⟩
    · rw [inserts, ← List.append_assoc, contents_snoc, hb']
      rfl
    · rw [Multiset.card_cons, hcard, Nat.add_assoc]
    · rcases Nat.lt_succ_iff_lt_or_eq.mp hi with hi | rfl
      · exact Multiset.mem_cons_of_mem (hmem i hi)
      · exact Multiset.mem_cons_self _ _
    · rcases Multiset.mem_cons.mp he with rfl | he
      · exact .inr ⟨n, rfl⟩
      · exact hkeys e he

/-- Entries go into two trees in turn, and one comes out again. -/
def twoTrees : List (TreeOp × TreeAnswer) :=
  [(.create, .opened), (.create, .opened),
    (.update 0 (.insert 7 ⟨1, 0⟩), .status (.ok ())),
    (.update 1 (.insert (-3) ⟨1, 1⟩), .status (.ok ())),
    (.update 0 (.insert 2 ⟨1, 2⟩), .status (.ok ())),
    (.update 0 (.delete 7 ⟨1, 0⟩), .status (.ok ())),
    (.update 1 (.delete 7 ⟨1, 0⟩), .status (.error entryNotFound))]

theorem contents_twoTrees : contents twoTrees = [{(2, ⟨1, 2⟩)}, {(-3, ⟨1, 1⟩)}] := by decide

/-- The first tree is then a leaf with one entry. -/
theorem run_twoTrees : ∃ s m id es, Run Trees.exec ⟨Store.new, []⟩ twoTrees s ∧
    s.metas[0]? = some m ∧ s.metas.length = 2 ∧ s.store.pages.length = 5 ∧
    TreeInv s.store ⟨m, 0, leaf id es⟩ ∧ es.length = 1 := by
  obtain ⟨s, hrun, hcheck⟩ := exists_run_of_check Trees.exec ⟨Store.new, []⟩ (twoTrees.map Prod.fst)
    twoTrees (fun s => decide (s.metas.length = 2 ∧ s.store.pages.length = 5 ∧
      (s.metas.head?.bind fun m => (s.store.get? m).bind fun p => s.store.get? (p.get PageId 0)).map isLeaf
        = some true)) (by decide +kernel)
  obtain ⟨hlength, hpages, hleaf⟩ := of_decide_eq_true hcheck
  obtain ⟨rows, hs⟩ := treesInv_of_run hrun
  have hbags := hs.bags_eq
  rw [contents_twoTrees] at hbags
  obtain ⟨⟨m, d, t⟩, rest, rfl, hbag, -⟩ := List.map_eq_cons_iff.mp hbags.symm
  have hinv : TreeInv s.store ⟨m, d, t⟩ := hs.tenants.row _ (List.mem_cons_self ..)
  have hm : s.metas.head? = some m := by rw [hs.metas_eq]; rfl
  -- its root is a leaf
  obtain ⟨p, hp, hroot⟩ := hinv.root
  obtain ⟨q, hq, hd, -⟩ := hinv.rep.root
  rw [hm, Option.bind_some, hp, Option.bind_some, hroot, hq, Option.map_some, hd] at hleaf
  obtain rfl : d = 0 := of_decide_eq_true (Option.some.inj hleaf)
  obtain ⟨id, es, rfl⟩ := exists_leaf t
  refine ⟨s, m, id, es, hrun, List.head?_eq_getElem? .. ▸ hm, hlength, hpages, hinv, ?_⟩
  have hcard := congrArg Multiset.card hbag
  rwa [TreeView.bag, Multiset.coe_card, show entries (TreeView.items ⟨m, 0, leaf id es⟩) = es
    from entries_map es] at hcard

/-- Two keys in turn are inserted until there are too many entries for a leaf. -/
def splitTree : List (TreeOp × TreeAnswer) :=
  twoTrees ++ inserts (fun i => if i % 2 = 0 then 3 else 4) (291 + 1)

theorem run_splitTree : ∃ s, Run Trees.exec ⟨Store.new, []⟩ splitTree s ∧ s.metas.length = 2 := by
  obtain ⟨s₀, m, id, es₀, hrun₀, hm, hlength, hpages₀, hinv₀, hone⟩ := run_twoTrees
  obtain ⟨s, es, hrun, hmetas, hpages, hinv, -⟩ :=
    run_inserts hrun₀ hm hinv₀ (fun i => if i % 2 = 0 then 3 else 4) (n := 291) (by rw [hone]; decide)
  -- the last insert splits the leaf
  obtain ⟨st', v', hexec, -⟩ := hinv.insert_exec (by omega) 4 ⟨1, UInt16.ofNat 291⟩
  refine ⟨⟨st', s.metas⟩, ?_, by rw [hmetas, hlength]⟩
  rw [splitTree, inserts, ← List.append_assoc]
  exact hrun.snoc (Trees.exec_update (by rwa [hmetas]) hexec)

theorem contents_splitTree : ∃ b b', contents splitTree = [b, b'] ∧ b.card = kLeafMaxKeys + 1 ∧
    (3, ⟨1, 0⟩) ∈ b := by
  obtain ⟨b, hb, hcard, hmem, -⟩ := contents_inserts contents_twoTrees
    (fun i => if i % 2 = 0 then 3 else 4) (291 + 1)
  exact ⟨b, _, hb, hcard, hmem 0 (by decide)⟩

theorem rangeScan_refines_bag_splitTree :
    ∃ s b b', Run Trees.exec ⟨Store.new, []⟩ splitTree s ∧ ScansShow s (contents splitTree) ∧
      contents splitTree = [b, b'] ∧ b.card = kLeafMaxKeys + 1 := by
  obtain ⟨s, hrun, -⟩ := run_splitTree
  obtain ⟨b, b', hcontents, hcard, -⟩ := contents_splitTree
  exact ⟨s, b, b', hrun, (rangeScan_refines_bag Store.new hrun).1, hcontents, hcard⟩

/-! ### The pages of a tree -/

/-- Follow the links from leaf to leaf to the end. -/
def followLeaves (st : Store) : Nat → PageId → Option (List PageId)
  | 0, _ => none
  | fuel + 1, id =>
    if id = kInvalidPageId then some []
    else do
      let p ← st.get? id
      let rest ← followLeaves st fuel (nextLeafId p)
      return id :: rest

/-- The shape of a tree in its pages.  Its depth is the same everywhere by the type of `v.tree`. -/
structure WellShaped (st : Store) (v : TreeView) : Prop where
  /-- The meta page names the root. -/
  root : ∃ p, st.get? v.metaId = some p ∧ p.get PageId 0 = rootId v.tree
  /-- The nodes are in their pages, with their keys, children and entries. -/
  rep : Rep st v.tree kInvalidPageId
  /-- No page is reached twice. -/
  nodup : v.pages.Nodup
  /-- No node has more keys than fit. -/
  count_le : ∀ i ∈ ids v.tree, ∀ p, st.get? i = some p →
    (keyCount p).toNat ≤ if isLeaf p then kLeafMaxKeys else kInternalMaxKeys
  /-- Separators do not decrease, and the keys below a child are between those next to it. -/
  bounded : Bounded (fun a b => a ≤ b) v.tree
  /-- The links lead from the leftmost leaf through all leaves from left to right. -/
  linked : followLeaves st ((BTree.leaves v.tree).length + 1)
    (firstId (BTree.leaves v.tree) kInvalidPageId) = some ((BTree.leaves v.tree).map Prod.fst)

/-- The operations on a tree stay inside its pages and come to an end: none of them dies, but for an
insert that finds no new page, and a file of less than half the possible size has enough. -/
structure Operable (st : Store) (m : PageId) : Prop where
  update : ∀ u : TreeUpdate, Store.exec (u.prog m) st = .error .noNewPage ∨
    ∃ r st', Store.exec (u.prog m) st = .ok (r, st')
  room : st.pages.length + 1 < 2 ^ 30 → ∀ u : TreeUpdate,
    Store.exec (u.prog m) st ≠ .error .noNewPage
  search : ∀ key, ∃ rids, Store.exec (searchEqual m key) st = .ok (.ok rids, st)
  scan : ∀ low lowInclusive high highInclusive, ∃ out,
    Store.exec (rangeScan m low lowInclusive high highInclusive) st = .ok (.ok out, st)
  /-- `SplitChild` and `InsertNonFull` are only called on nodes that are not full. -/
  notFull : ∀ u : TreeUpdate, ∀ c ∈ (u.prog m (st.pages.length + 1)).calls st, TreePre c.1 c.2

theorem LeafChain.follow {ls : List (PageId × List (Key × RecordId))}
    (h : LeafChain st ls kInvalidPageId) :
    followLeaves st (ls.length + 1) (firstId ls kInvalidPageId) = some (ls.map Prod.fst) := by
  induction ls with
  | nil => rfl
  | cons l ls ih =>
    obtain ⟨⟨p, hp, hv⟩, hrest⟩ := h
    have hid : firstId (l :: ls) kInvalidPageId = l.1 := rfl
    rw [hid, List.length_cons, followLeaves, if_neg (Store.ne_invalid_of_get hp), hp,
      Option.bind_eq_bind, Option.bind_some, hv.nextLeafId, ih hrest]
    rfl

theorem TreeAt.count_le (h : TreeAt st v) :
    ∀ i ∈ ids v.tree, ∀ p, st.get? i = some p →
      (keyCount p).toNat ≤ if isLeaf p then kLeafMaxKeys else kInternalMaxKeys := by
  intro i hi p hp
  rcases exists_of_mem_ids hi with ⟨l, hl, rfl⟩ | ⟨n, hn, rfl⟩
  · obtain ⟨q, next, hq, hv⟩ := h.rep.leaves.get l hl
    obtain rfl : p = q := Option.some.inj (hp.symm.trans hq)
    rw [if_pos hv.isLeaf, hv.keyCount]
    exact hv.length_le
  · obtain ⟨q, hq, hv⟩ := h.rep.inners n hn
    obtain rfl : p = q := Option.some.inj (hp.symm.trans hq)
    rw [if_neg (by rw [hv.isLeaf_eq]; decide), hv.keyCount]
    exact hv.length_le

theorem TreeInv.wellShaped (h : TreeInv st v) : WellShaped st v :=
  ⟨h.root, h.rep, h.nodup, h.count_le, h.wf.bounded h.ordered, h.rep.leaves.follow⟩

theorem allocAtMost_update (u : TreeUpdate) (m : PageId) (fuel : Nat) :
    (u.prog m fuel).AllocAtMost (2 + fuel) := by
  cases u with
  | insert key rid => exact allocAtMost_insert m key rid fuel
  | delete key rid => exact (allocAtMost_delete m key rid fuel).mono (Nat.zero_le _)

theorem TreeInv.operable (h : TreeInv st v) :
    Operable st v.metaId where
  update := by
    intro u
    have hspec := u.spec h (Nat.le_succ_of_le h.length_le)
    rcases Store.exec_of_wp (Prog.wp_forget hspec) with hrun | ⟨r, st', hrun, -⟩
    · exact .inl hrun
    · exact .inr ⟨r, st', hrun⟩
  room := by
    intro hroom u
    exact Store.run_ne_noNewPage (allocAtMost_update u v.metaId _) (by omega)
  search := by
    intro key
    obtain ⟨b, es, a, -, hrun⟩ := searchEqual_exec h key
    exact ⟨_, hrun⟩
  scan := by
    intro low lowInclusive high highInclusive
    cases low with
    | none => exact ⟨_, rangeScan_none_exec h lowInclusive high highInclusive⟩
    | some l =>
      obtain ⟨b, es, a, -, hrun⟩ := rangeScan_some_exec h l lowInclusive high highInclusive
      exact ⟨_, hrun⟩
  notFull := fun u => Prog.calls_of_wp (u.spec h (Nat.le_succ_of_le h.length_le))

/-- **The representation invariant.**  After every history of inserts and deletes, every tree is well
shaped in its pages, and every operation on it stays inside them. -/
theorem treePages_sound (st : Store) {history : List (TreeOp × TreeAnswer)} {s : Trees}
    (hrun : Run Trees.exec ⟨st, []⟩ history s) :
    ∀ m ∈ s.metas, (∃ v : TreeView, v.metaId = m ∧ WellShaped s.store v) ∧ Operable s.store m := by
  obtain ⟨rows, hs⟩ := treesInv_of_run hrun
  intro m hm
  rw [hs.metas_eq] at hm
  obtain ⟨v, hv, rfl⟩ := List.mem_map.mp hm
  have hinv : TreeInv s.store v := hs.tenants.row v hv
  exact ⟨⟨v, rfl, hinv.wellShaped⟩, hinv.operable⟩

theorem treePages_sound_splitTree :
    ∃ s, Run Trees.exec ⟨Store.new, []⟩ splitTree s ∧ s.metas.length = 2 ∧
      ∀ m ∈ s.metas, (∃ v : TreeView, v.metaId = m ∧ WellShaped s.store v) ∧ Operable s.store m := by
  obtain ⟨s, hrun, hlen⟩ := run_splitTree
  exact ⟨s, hrun, hlen, treePages_sound Store.new hrun⟩

end MiniDB.BPlusTree
