import MiniDB.Index.Equiv.TreeSystem
import MiniDB.Index.IndexPool

/-!
# What index pools do

An index pool holds a bag of entries under each of its ids (`LawfulIndexPool.Holds`).  A new tree gets
an id that was not in use, an insert adds its entry, a delete removes one at most, and lookups find
only what is in the bag, or all of it if they have no bounds; no call touches another tree.  In an exact
pool a delete removes the entry if it is there, and lookups find everything.

Multimaps are exact.  The B+trees in a page store are not: lookups with an inclusive lower bound and
deletes do not see entries left of the gap of their key.
-/

namespace MiniDB

open Paged Effect BPlusTree Separated Tenancy
open Function (update_of_ne update_self)
open Effect.Action (Returns)

/-- The laws of an index pool. -/
class LawfulIndexPool (σ : Type) [IndexPool σ] where
  /-- the pool holds these bags -/
  Holds : σ → (PageId → Option Bag) → Prop
  /-- deletes and lookups see all entries -/
  exact : Prop
  openTree_new : ∀ {s bags}, Holds s bags →
    Returns Store.OutOfPages (IndexPool.openTree kInvalidPageId s) fun id s' =>
      bags id = none ∧ Holds s' (Function.update bags id (some 0))
  openTree_old : ∀ {s bags id b}, Holds s bags → bags id = some b →
    IndexPool.openTree id s = .ok (id, s)
  insert : ∀ {s bags id b} key rid, Holds s bags → bags id = some b →
    Returns Store.OutOfPages (IndexPool.insert id key rid s) fun _ s' =>
      Holds s' (Function.update bags id (some ((key, rid) ::ₘ b)))
  delete : ∀ {s bags id b} key rid, Holds s bags → bags id = some b →
    Returns Store.OutOfPages (IndexPool.delete id key rid s) fun _ s' =>
      ∃ b', Holds s' (Function.update bags id (some b')) ∧
        (b' = b.erase (key, rid) ∨ ¬ exact ∧ b' = b)
  searchEqual : ∀ {s bags id b} key, Holds s bags → bags id = some b →
    ∃ rids, IndexPool.searchEqual id key s = .ok (.ok rids, s) ∧
      (∀ rid ∈ rids, (key, rid) ∈ b) ∧
      (exact → (rids : Multiset RecordId) = (b.filter fun e => e.1 = key).map Prod.snd)
  rangeScan : ∀ {s bags id b} low lowInclusive high highInclusive, Holds s bags → bags id = some b →
    ∃ es, IndexPool.rangeScan id low lowInclusive high highInclusive s = .ok (.ok es, s) ∧
      (∀ e ∈ es, e ∈ b) ∧
      (exact → (es : Bag) = b.filter fun e => Within low lowInclusive high highInclusive e.1)
  /-- a scan without bounds finds everything -/
  scanAll : ∀ {s bags id b}, Holds s bags → bags id = some b →
    ∃ es, IndexPool.rangeScan id none true none true s = .ok (.ok es, s) ∧ (es : Bag) = b

/-! ### Multimaps -/

namespace Multimaps

variable {s : Multimaps} {id : PageId} {m : List (Key × RecordId)}

theorem get?_set_self (h : s.get? id = some m) (m' : List (Key × RecordId)) :
    (s.set id m').get? id = some m' := by
  unfold get? at h ⊢
  unfold set
  split_ifs at h ⊢ with hid
  rw [List.getElem?_set_self (List.getElem?_eq_some_iff.mp h).1]

theorem get?_set_of_ne (s : Multimaps) {id' : PageId} (hne : id' ≠ id) (m : List (Key × RecordId)) :
    (s.set id m).get? id' = s.get? id' := by
  unfold get? set
  split_ifs with h' h
  · rw [List.getElem?_set_ne]
    intro heq
    apply hne
    apply Int32.toInt.inj
    rw [Int32.le_iff_toInt_le] at h h'
    simp only [Int32.toInt_zero] at h h'
    omega
  · rfl
  · rfl

theorem set_eq_self (h : s.get? id = some m) : s.set id m = s := by
  unfold get? at h
  unfold set
  split_ifs at h ⊢ with hid
  obtain ⟨hlt, rfl⟩ := List.getElem?_eq_some_iff.mp h
  rw [List.set_getElem_self]

/-- The bags of the multimaps. -/
def bags (s : Multimaps) (id : PageId) : Option Bag := (s.get? id).map Multiset.ofList

theorem bags_set (h : s.get? id = some m) (m' : List (Key × RecordId)) :
    (s.set id m').bags = Function.update s.bags id (some m') := by
  funext id'
  by_cases hid : id' = id
  · rw [hid, update_self, bags, get?_set_self h]
    rfl
  · rw [update_of_ne hid, bags, get?_set_of_ne s hid, bags]

variable {b : Bag}

theorem get?_of_bags (h : s.bags id = some b) :
    ∃ m, s.get? id = some m ∧ (m : Bag) = b := Option.map_eq_some_iff.mp h

theorem insertSorted_perm (key : Key) (rid : RecordId) (m : List (Key × RecordId)) :
    (insertSorted key rid m).Perm ((key, rid) :: m) := by
  induction m with
  | nil => rfl
  | cons e es ih =>
    rw [insertSorted]
    split_ifs with hlt
    · exact (ih.cons e).trans (List.Perm.swap ..)
    · rfl

/-- A new multimap gets the next number. -/
theorem bags_push (h : s.maps.length < 2 ^ 31) :
    s.bags (Int32.ofNat s.maps.length) = none ∧
      (⟨s.maps ++ [[]]⟩ : Multimaps).bags
        = Function.update s.bags (Int32.ofNat s.maps.length) (some 0) := by
  have hint : (Int32.ofNat s.maps.length).toInt = s.maps.length := Int32.toInt_ofNat_of_lt h
  have hpos : 0 ≤ Int32.ofNat s.maps.length := by
    rw [Int32.le_iff_toInt_le, hint, Int32.toInt_zero]
    omega
  constructor
  · rw [bags, get?, if_pos hpos, hint]
    simp
  · funext id
    by_cases hid : id = Int32.ofNat s.maps.length
    · rw [hid, update_self, bags, get?, if_pos hpos, hint]
      simp
    · rw [update_of_ne hid, bags, bags, get?, get?]
      split_ifs with h0
      · have hne : id.toInt.toNat ≠ s.maps.length := by
          intro heq
          rw [Int32.le_iff_toInt_le, Int32.toInt_zero] at h0
          exact hid (Int32.toInt.inj (by omega))
        rw [List.getElem?_append]
        split_ifs with hlt
        · rfl
        · rw [List.getElem?_eq_none (by rw [List.length_singleton]; omega),
            List.getElem?_eq_none (by omega)]
      · rfl

theorem onMap_eq {α : Type} (h : s.get? id = some m)
    (f : List (Key × RecordId) → α × List (Key × RecordId)) :
    onMap id s f = .ok ((f m).1, s.set id (f m).2) := by
  rw [onMap, h]

theorem within_eq_filter (low : Option Key) (lowInclusive : Bool) (high : Option Key)
    (highInclusive : Bool) (m : List (Key × RecordId)) :
    (within low lowInclusive high highInclusive m : Bag)
      = (m : Bag).filter fun e => Within low lowInclusive high highInclusive e.1 := by
  rw [within, Multiset.filter_coe]
  congr 1
  refine List.filter_congr fun e _ => ?_
  rw [Bool.eq_iff_iff, decide_eq_true_iff]
  exact inRange_iff

instance : LawfulIndexPool Multimaps where
  Holds s bags := s.bags = bags
  exact := True
  openTree_new := by
    rintro s _ rfl
    show Returns _ (if kInvalidPageId ≠ kInvalidPageId then _ else _) _
    rw [if_neg (not_not.mpr rfl)]
    split_ifs with hlt
    · exact bags_push hlt
    · rfl
  openTree_old := by
    rintro s _ id b rfl hb
    obtain ⟨m, hm, -⟩ := get?_of_bags hb
    show (if id ≠ kInvalidPageId then _ else _) = _
    rw [if_pos]
    rintro rfl
    exact absurd hm (by rw [get?, if_neg (by decide)]; exact (nofun))
  insert := by
    rintro s _ id b key rid rfl hb
    obtain ⟨m, hm, rfl⟩ := get?_of_bags hb
    show Returns _ (onMap id s _) _
    rw [onMap_eq hm]
    show (s.set id (insertSorted key rid m)).bags = _
    rw [bags_set hm]
    congr 2
    exact Multiset.coe_eq_coe.mpr (insertSorted_perm key rid m)
  delete := by
    rintro s _ id b key rid rfl hb
    obtain ⟨m, hm, rfl⟩ := get?_of_bags hb
    show Returns _ (onMap id s _) _
    rw [onMap_eq hm]
    by_cases hmem : (key, rid) ∈ m
    · rw [if_pos hmem]
      refine ⟨_, bags_set hm _, .inl ?_⟩
      rw [Multiset.coe_erase]
      dsimp only
      congr 2
      exact lawful_beq_subsingleton _ _
    · rw [if_neg hmem]
      refine ⟨_, bags_set hm _, .inl ?_⟩
      rw [Multiset.erase_of_notMem (by simpa using hmem)]
  searchEqual := by
    rintro s _ id b key rfl hb
    obtain ⟨m, hm, rfl⟩ := get?_of_bags hb
    refine ⟨(m.filter fun e => e.1 = key).map Prod.snd, ?_, ?_, fun _ => ?_⟩
    · show onMap id s _ = _
      rw [onMap_eq hm, set_eq_self hm]
    · intro rid hrid
      obtain ⟨⟨k, r⟩, he, rfl⟩ := List.mem_map.mp hrid
      obtain ⟨hmem, hk⟩ := List.mem_filter.mp he
      obtain rfl : k = key := of_decide_eq_true hk
      exact hmem
    · rw [Multiset.filter_coe, Multiset.map_coe]
  rangeScan := by
    rintro s _ id b low lowInclusive high highInclusive rfl hb
    obtain ⟨m, hm, rfl⟩ := get?_of_bags hb
    refine ⟨within low lowInclusive high highInclusive m, ?_, ?_, fun _ => ?_⟩
    · show onMap id s _ = _
      rw [onMap_eq hm, set_eq_self hm]
    · exact fun e he => (List.mem_filter.mp he).1
    · exact within_eq_filter ..
  scanAll := by
    rintro s _ id b rfl hb
    obtain ⟨m, hm, rfl⟩ := get?_of_bags hb
    refine ⟨within none true none true m, ?_, ?_⟩
    · show onMap id s _ = _
      rw [onMap_eq hm, set_eq_self hm]
    · rw [within_eq_filter, Multiset.filter_eq_self]
      exact fun e _ => ⟨by simp, by simp⟩

end Multimaps

/-! ### B+trees -/

namespace BPlusTree

/-- The store holds sound trees in disjoint pages, with these bags. -/
def HoldsTrees (st : Store) (bags : PageId → Option Bag) : Prop :=
  ∃ trees : PageId → Option TreeView, Named treeTenant st trees ∧
    (∀ id v, trees id = some v → v.metaId = id) ∧
    bags = fun id => (trees id).map TreeView.bag

theorem HoldsTrees.init (st : Store) : HoldsTrees st fun _ => none :=
  ⟨fun _ => none, .empty _ _, (fun _ _ h => nomatch h), rfl⟩

variable {st : Store} {id : PageId}

theorem HoldsTrees.tree {bags : PageId → Option Bag} (h : HoldsTrees st bags) (hb : bags id = some b) :
    ∃ v, v.metaId = id ∧ v.bag = b ∧ TreeInv st v := by
  obtain ⟨trees, hnamed, hmeta, rfl⟩ := h
  obtain ⟨v, hv, rfl⟩ := Option.map_eq_some_iff.mp hb
  exact ⟨v, hmeta id v hv, rfl, hnamed.inv hv⟩

variable {bags : PageId → Option Bag}

theorem HoldsTrees.openTree_new (h : HoldsTrees st bags) :
    Returns Store.OutOfPages (Store.exec (fun _ => openTree kInvalidPageId) st) fun id st' =>
      bags id = none ∧ HoldsTrees st' (Function.update bags id (some 0)) := by
  obtain ⟨trees, hnamed, hmeta, rfl⟩ := h
  rcases openTree_exec st with hrun | ⟨m, r, st', hrun, hpages, hinv⟩
  · rw [hrun]
    rfl
  · rw [hrun]
    -- a tree of that name would have its meta page in the store already
    have hnew : trees m = none := by
      refine Option.eq_none_iff_forall_ne_some.mpr fun v hv => ?_
      obtain ⟨p, hp⟩ := (hnamed.inv hv).present v.metaId (List.mem_cons_self ..)
      rw [hmeta m v hv, hpages.fresh m (List.mem_cons_self ..) (List.not_mem_nil)] at hp
      cases hp
    refine ⟨by simp [hnew], Function.update trees m (some (emptyView m r)),
      hnamed.create hpages hinv, ?_, ?_⟩
    · intro id v hv
      by_cases hid : id = m
      · rw [hid, update_self] at hv
        obtain rfl := Option.some.inj hv
        exact hid.symm
      · rw [update_of_ne hid] at hv
        exact hmeta id v hv
    · funext id
      by_cases hid : id = m
      · rw [hid, update_self, update_self]
        rfl
      · rw [update_of_ne hid, update_of_ne hid]

/-- An update of one tree. -/
theorem HoldsTrees.update (h : HoldsTrees st bags) (hb : bags id = some b) (u : TreeUpdate) :
    Returns Store.OutOfPages (Store.exec (u.prog id) st) fun r st' =>
      HoldsTrees st' (Function.update bags id (some (u.next r b))) ∧
        ∀ key rid, u = .insert key rid → r = .ok () := by
  obtain ⟨trees, hnamed, hmeta, rfl⟩ := h
  obtain ⟨v, hv, rfl⟩ := Option.map_eq_some_iff.mp hb
  obtain rfl := hmeta id v hv
  have hinv := hnamed.inv hv
  rcases Store.exec_of_wp (Prog.wp_forget (u.spec hinv (Nat.le_succ_of_le hinv.length_le))) with
    hrun | ⟨r, st', hrun, v', hu⟩
  · rw [hrun]
    rfl
  · rw [hrun]
    obtain ⟨hmeta', hinv', hpages, hbag⟩ := hu.sound hinv
    refine ⟨⟨Function.update trees v.metaId (some v'), hnamed.step hv hpages hinv', ?_, ?_⟩, ?_⟩
    · intro id w hw
      by_cases hid : id = v.metaId
      · rw [hid, update_self] at hw
        obtain rfl := Option.some.inj hw
        rw [hmeta', hid]
      · rw [update_of_ne hid] at hw
        exact hmeta id w hw
    · funext id
      by_cases hid : id = v.metaId
      · rw [hid, update_self, update_self, Option.map_some, hbag]
      · rw [update_of_ne hid, update_of_ne hid]
    · rintro key rid rfl
      exact hu.1

theorem HoldsTrees.openTree_old (h : HoldsTrees st bags) (hb : bags id = some b) :
    Store.exec (fun _ => openTree id) st = .ok (id, st) := by
  obtain ⟨v, rfl, -, hinv⟩ := h.tree hb
  obtain ⟨p, hp⟩ := hinv.present v.metaId (List.mem_cons_self ..)
  rw [Store.exec, openTree, if_neg (Store.ne_invalid_of_get hp)]
  rfl

/-- A lookup sees some of the entries. -/
theorem mem_bag_of_target {v : TreeView} {key : Key} {b a : List (Item Key RecordId)}
    {es : List (Key × RecordId)} (ht : Target key v.items b es a) {e : Key × RecordId}
    (he : e ∈ es ++ entries a) : e ∈ v.bag := by
  rw [TreeView.bag, Multiset.mem_coe, ht.entries_eq]
  exact List.mem_append_right _ he

theorem HoldsTrees.searchEqual (h : HoldsTrees st bags) (hb : bags id = some b) (key : Key) :
    ∃ rids, Store.exec (searchEqual id key) st = .ok (.ok rids, st) ∧
      ∀ rid ∈ rids, (key, rid) ∈ b := by
  obtain ⟨v, rfl, rfl, hinv⟩ := h.tree hb
  obtain ⟨l, es, a, ht, hrun⟩ := searchEqual_exec hinv key
  refine ⟨_, hrun, fun rid hrid => ?_⟩
  obtain ⟨⟨k, r⟩, he, rfl⟩ := List.mem_map.mp hrid
  obtain ⟨hmem, hk⟩ := List.mem_filter.mp he
  obtain rfl : k = key := of_decide_eq_true hk
  exact mem_bag_of_target ht hmem

theorem HoldsTrees.rangeScan (h : HoldsTrees st bags) (hb : bags id = some b) (low : Option Key)
    (lowInclusive : Bool) (high : Option Key) (highInclusive : Bool) :
    ∃ es, Store.exec (rangeScan id low lowInclusive high highInclusive) st = .ok (.ok es, st) ∧
      ∀ e ∈ es, e ∈ b := by
  obtain ⟨v, rfl, rfl, hinv⟩ := h.tree hb
  cases low with
  | none =>
    refine ⟨_, rangeScan_none_exec hinv lowInclusive high highInclusive, fun e he => ?_⟩
    exact (List.mem_filter.mp he).1
  | some l =>
    obtain ⟨b, es, a, ht, hrun⟩ := rangeScan_some_exec hinv l lowInclusive high highInclusive
    exact ⟨_, hrun, fun e he => mem_bag_of_target ht (List.mem_filter.mp he).1⟩

instance : LawfulIndexPool Store where
  Holds := HoldsTrees
  exact := False
  openTree_new := HoldsTrees.openTree_new
  openTree_old h hb := h.openTree_old hb
  insert key rid h hb := by
    refine Returns.mono ?_ (h.update hb (.insert key rid))
    rintro r st' ⟨hholds, hok⟩
    rw [hok key rid rfl] at hholds
    exact hholds
  delete key rid h hb := by
    refine Returns.mono ?_ (h.update hb (.delete key rid))
    rintro r st' ⟨hholds, -⟩
    refine ⟨_, hholds, ?_⟩
    cases r with
    | ok _ => exact .inl rfl
    | error _ => exact .inr ⟨not_false, rfl⟩
  searchEqual key h hb := by
    obtain ⟨rids, hrun, hmem⟩ := h.searchEqual hb key
    exact ⟨rids, hrun, hmem, False.elim⟩
  rangeScan low lowInclusive high highInclusive h hb := by
    obtain ⟨es, hrun, hmem⟩ := h.rangeScan hb low lowInclusive high highInclusive
    exact ⟨es, hrun, hmem, False.elim⟩
  scanAll h hb := by
    obtain ⟨v, rfl, rfl, hinv⟩ := h.tree hb
    refine ⟨_, rangeScan_none_exec hinv true none true, ?_⟩
    rw [List.filter_eq_self.mpr fun e _ => inRange_iff.mpr ⟨by simp, by simp⟩]
    rfl

end BPlusTree

end MiniDB
