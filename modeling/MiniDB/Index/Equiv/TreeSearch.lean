import MiniDB.Index.Equiv.TreeSystem

/-!
# Lookups and deletes among equal keys

`SearchEqual`, `Delete` and inclusive range scans start at the leaf the descent for their key leads
to, right of every separator equal to it.  They see all entries with the key exactly if none of them is
left of such a separator, that is, if the separation is strict.  It stays so as long as no insert
splits a leaf of equal keys, for which there is no place to cut (`SplitsOneKey`): then some of its
entries are left of the new separator, out of reach (`searchEqual_exact`).

A leaf has room for `kLeafMaxKeys` entries, so this cannot happen while fewer entries than that share
a key (`duplicates_limited`).
-/

namespace MiniDB.BPlusTree

open Paged BPlusNode Separated BTree Tenancy Runs
open List (length_append length_map mem_append mem_append_right mem_cons mem_cons_self)

/-- `SearchEqual` finds for each tree and key what the bag of the tree has. -/
def SearchExact (s : Trees) (bs : List Bag) : Prop :=
  ∀ (f : Nat) m b key, s.metas[f]? = some m → bs[f]? = some b →
    ∃ rids, Store.exec (searchEqual m key) s.store = .ok (.ok rids, s.store) ∧
      (rids : Multiset RecordId) = (b.filter fun e => e.1 = key).map Prod.snd

/-- The separation of every tree is strict. -/
def Strict (rows : List TreeView) : Prop := ∀ v ∈ rows, Ordered (fun a b => a < b) v.items

variable {xs a : List (Item Key RecordId)} {es : List (Key × RecordId)} {s : Trees} {bs : List Bag}
  {rows : List TreeView} {b : List (Item Key RecordId)} {key : Key} {v : TreeView} {st : Store}
  {f n : Nat}

/-- In a strictly separated tree, nothing with the key is left of its gap. -/
theorem not_left_of_strict (ht : Target key xs b es a) (ho : Ordered (fun a b => a < b) xs) :
    ∀ e ∈ entries b, decide (e.1 = key) = false := by
  intro e he
  exact decide_eq_false (ne_of_lt (ht.left_lt ho e he))

theorem TreesInv.searchExact (hs : TreesInv s bs rows) (hstrict : Strict rows) :
    SearchExact s bs := by
  intro f m b key hm hb
  obtain ⟨l, v, rest, rfl, rfl, rfl, hv⟩ := hs.split hm
  obtain rfl : v.bag = b := by simpa [hs.bags_eq] using hb
  obtain ⟨b, es, a, ht, hrun⟩ := searchEqual_exec hv key
  have ho := hstrict v (mem_append_right _ (mem_cons_self ..))
  refine ⟨_, hrun, ?_⟩
  have hseen := ht.filter_seen (p := fun k => decide (k = key)) (not_left_of_strict ht ho)
  rw [TreeView.bag, Multiset.filter_coe, Multiset.map_coe, hseen]

/-- A lookup that finds all entries with its key has none of them left of its gap. -/
theorem not_left_of_exact (ht : Target key xs b es a)
    (hexact : ((((es ++ entries a).filter fun e => e.1 = key).map Prod.snd : List RecordId) :
      Multiset RecordId)
      = ((entries xs : Bag).filter fun e => e.1 = key).map Prod.snd) : ∀ e ∈ entries b, e.1 ≠ key := by
  rw [ht.entries_eq, Multiset.filter_coe, Multiset.map_coe] at hexact
  have hcard := congrArg Multiset.card hexact
  simp only [Multiset.coe_card, length_map, List.filter_append, length_append] at hcard
  have hnil : (entries b).filter (fun e => decide (e.1 = key)) = [] :=
    List.eq_nil_of_length_eq_zero (by omega)
  intro e he heq
  exact absurd (decide_eq_true heq) (List.filter_eq_nil_iff.mp hnil e he)

theorem TreesInv.strict (hs : TreesInv s bs rows) (hexact : SearchExact s bs) : Strict rows := by
  intro v hv
  have hinv : TreeInv s.store v := hs.tenants.row v hv
  refine hinv.ordered.strict_of_seen fun key => ?_
  obtain ⟨f, hf⟩ := List.getElem?_of_mem hv
  have hm : s.metas[f]? = some v.metaId := by rw [hs.metas_eq, List.getElem?_map, hf]; rfl
  have hb : bs[f]? = some v.bag := by rw [hs.bags_eq, List.getElem?_map, hf]; rfl
  obtain ⟨rids, hrun, hrids⟩ := hexact f v.metaId v.bag key hm hb
  obtain ⟨b, es, a, ht, hrun'⟩ := searchEqual_exec hinv key
  rw [hrun'] at hrun
  obtain rfl := Except.ok.inj (congrArg Prod.fst (Except.ok.inj hrun))
  exact ⟨b, es, a, ht, not_left_of_exact ht hrids⟩

/-! ### Leaves of one key -/

/-- The leaf is full, and all its keys are the same. -/
def OneKeyLeaf (p : Page) : Prop :=
  isFull p = true ∧ ∃ k, ∀ i < (keyCount p).toNat, leafKeyAt p i = some k

/-- The call is an insert, and the leaf that `FindLeafForKey` finds for its key is full of entries
with one key. -/
def SplitsOneKey (s : Trees) : TreeOp → Prop
  | .update f (.insert key _) => ∃ m leafId p, s.metas[f]? = some m ∧
    Store.exec (findLeafForKey m key) s.store = .ok (leafId, s.store) ∧
    s.store.get? leafId = some p ∧ OneKeyLeaf p
  | _ => False

theorem oneKeyLeaf_iff {p : Page} {next : PageId} (hv : LeafView p next es) :
    OneKeyLeaf p ↔ kLeafMaxKeys ≤ es.length ∧ ∀ e ∈ es, ∀ e' ∈ es, e.1 = e'.1 := by
  rw [OneKeyLeaf, hv.isFull, decide_eq_true_iff, hv.keyCount]
  refine and_congr_right fun hfull => ⟨?_, fun hall => ?_⟩
  · rintro ⟨k, hk⟩ e he e' he'
    have hkey : ∀ x ∈ es, x.1 = k := by
      intro x hx
      obtain ⟨i, hi⟩ := List.getElem?_of_mem hx
      have hat := hk i (List.getElem?_eq_some_iff.mp hi).1
      rw [(hv.entryAt hi).1] at hat
      exact Option.some.inj hat
    rw [hkey e he, hkey e' he']
  · have hpos : 0 < es.length := lt_of_lt_of_le (by decide) hfull
    refine ⟨es[0].1, fun i hi => ?_⟩
    rw [(hv.entryAt (List.getElem?_eq_getElem hi)).1]
    exact congrArg some (hall _ (List.getElem_mem hi) _ (List.getElem_mem hpos))

theorem findLeafForKey_exec (h : TreeInv st v) (key : Key) :
    ∃ l ls₁ ls₂ b a, Located key v.tree l ls₁ ls₂ b a ∧
      Store.exec (findLeafForKey v.metaId key) st = .ok (l.1, st) := by
  have hwp : (findLeafForKey v.metaId key (st.pages.length + 1)).wp (fun _ => False)
      (fun _ _ => True) (fun r st' => ∃ l ls₁ ls₂ b a, Located key v.tree l ls₁ ls₂ b a ∧
        r = l.1 ∧ st' = st) st :=
    findLeafForKey_wp h.toTreeAt key (Nat.le_succ_of_le h.length_le)
      fun l ls₁ ls₂ b a hl _ => ⟨l, ls₁, ls₂, b, a, hl, rfl, rfl⟩
  obtain ⟨r, st', hrun, l, ls₁, ls₂, b, a, hl, rfl, rfl⟩ := Store.exec_of_wp_false hwp
  exact ⟨l, ls₁, ls₂, b, a, hl, hrun⟩

/-- A full leaf of one key in the pages is a full gap of one key among the items. -/
theorem splitsOneKey_iff (hm : s.metas[f]? = some v.metaId) (hv : TreeInv s.store v) (key : Key)
    (rid : RecordId) :
    SplitsOneKey s (.update f (.insert key rid)) ↔ UniformFull kLeafMaxKeys key v.items := by
  obtain ⟨l, ls₁, ls₂, b, a, hl, hrun⟩ := findLeafForKey_exec hv key
  obtain ⟨p, next, hp, hview⟩ := hv.rep.leaves.get l
    (hl.leaves_eq ▸ mem_append_right _ (mem_cons_self ..))
  constructor
  · rintro ⟨m, leafId, q, hm', hrun', hq, hone⟩
    obtain rfl : v.metaId = m := Option.some.inj (hm.symm.trans hm')
    obtain rfl : l.1 = leafId := congrArg Prod.fst (Except.ok.inj (hrun.symm.trans hrun'))
    obtain rfl : p = q := Option.some.inj (hp.symm.trans hq)
    obtain ⟨hfull, hall⟩ := (oneKeyLeaf_iff hview).mp hone
    exact ⟨b, l.2, a, hl.target, hfull, hall⟩
  · rintro ⟨b', es', a', ht, hfull, hall⟩
    obtain ⟨rfl, -⟩ := ht.unique sepRel_le hv.ordered hl.target
    exact ⟨v.metaId, l.1, p, hm, hrun, hp, (oneKeyLeaf_iff hview).mpr ⟨hfull, hall⟩⟩

/-! ### Lookups -/

/-- An update of one tree keeps the others strict. -/
theorem strict_middle {l rest : List TreeView} {v' : TreeView} (h : Strict (l ++ v :: rest)) :
    Strict (l ++ v' :: rest) ↔ Ordered (fun a b => a < b) v'.items := by
  constructor
  · exact fun h' => h' v' (mem_append_right _ (mem_cons_self ..))
  · intro hv' w hw
    rw [mem_append, mem_cons] at hw
    rcases hw with hw | rfl | hw
    · exact h w (List.mem_append_left _ hw)
    · exact hv'
    · exact h w (mem_append_right _ (List.mem_cons_of_mem _ hw))

/-- A call on strictly separated trees keeps them so, unless it splits a leaf of one key. -/
theorem OpSpec.strict_iff {s' : Trees} {rows' : List TreeView} (hs : TreesInv s bs rows)
    (hstrict : Strict rows) {op : TreeOp} {r : TreeAnswer} (h : OpSpec s rows op r s' rows') :
    Strict rows' ↔ ¬ SplitsOneKey s op := by
  cases op with
  | create =>
    obtain ⟨v, rfl, hv⟩ := h
    refine ⟨fun _ hsplit => hsplit, fun _ w hw => ?_⟩
    rcases mem_append.mp hw with hw | hw
    · exact hstrict w hw
    · rw [List.mem_singleton.mp hw, hv]
      exact List.Pairwise.nil
  | update f u =>
    rcases h with ⟨hnone, -, -, rfl⟩ | ⟨l, v, v', rest, res, rfl, rfl, -, rfl, hu⟩
    · refine ⟨fun _ hsplit => ?_, fun _ => hstrict⟩
      cases u with
      | delete key rid => exact hsplit
      | insert key rid =>
        obtain ⟨m, -, -, hm, -⟩ := hsplit
        rw [hnone] at hm
        cases hm
    · rw [strict_middle hstrict]
      have hmem : v ∈ l ++ v :: rest := mem_append_right _ (mem_cons_self ..)
      have hv : TreeInv s.store v := hs.tenants.row v hmem
      cases u with
      | insert key rid =>
        obtain ⟨-, hstep⟩ := hu
        have hm : s.metas[l.length]? = some v.metaId := by simp [hs.metas_eq]
        rw [splitsOneKey_iff hm hv]
        refine ⟨fun ho hfull => hstep.inserted.not_strict (hstrict v hmem) hfull ho, ?_⟩
        exact hstep.inserted.ordered_lt (hstrict v hmem)
      | delete key rid =>
        refine ⟨fun _ hsplit => hsplit, fun _ => ?_⟩
        rcases hu with ⟨-, hstep⟩ | ⟨-, -, rfl, -⟩
        · exact hstep.removed.ordered (hstrict v hmem)
        · exact hstrict v' hmem

/-- **Lookups are exact until a leaf of one key is split.**  For every history of inserts and deletes,
`SearchEqual` finds in all states on the way exactly the entries inserted and not taken out again, for
all keys, if and only if no insert of the history comes to a full leaf whose keys are all the same. -/
theorem searchEqual_exact (st : Store) {history : List (TreeOp × TreeAnswer)} {s : Trees}
    (hrun : Run Trees.exec ⟨st, []⟩ history s) :
    Throughout Trees.exec ⟨st, []⟩ (fun before t => SearchExact t (contents before)) history ↔
      Guarded (fun before op _ => ∀ t, Run Trees.exec ⟨st, []⟩ before t → ¬ SplitsOneKey t op)
        history := by
  have hall : Guarded (fun _ _ _ => True) history := fun _ _ _ _ _ => trivial
  refine hrun.throughout_iff ?_ ?_ hall
  · intro f m b key hm
    simp at hm
  · intro before t op r t' ht _ hgood _ hexec
    obtain ⟨rows, hs⟩ := treesInv_of_run ht
    rcases hs.exec op with herr | ⟨r', t'', rows', hok, hs', hop⟩
    · simp [hexec] at herr
    · obtain ⟨rfl, rfl⟩ : r = r' ∧ t' = t'' := by simpa [hexec] using hok
      have hiff := hop.strict_iff hs (hs.strict hgood)
      rw [contents_snoc]
      constructor
      · intro h u hu
        rw [hu.unique ht]
        exact hiff.mp (hs'.strict h)
      · exact fun h => hs'.searchExact (hiff.mpr (h t ht))

/-! ### Filling a leaf with one key -/

/-- A first tree, and `n` inserts of the key 7 into it. -/
def sevens (n : Nat) : List (TreeOp × TreeAnswer) := [(.create, .opened)] ++ inserts (fun _ => 7) n

theorem sevens_succ (n : Nat) : sevens (n + 1)
    = sevens n ++ [(.update 0 (.insert 7 ⟨1, UInt16.ofNat n⟩), .status (.ok ()))] := rfl

/-- The only tree is a leaf with `n` entries, all with the key 7. -/
structure SevensAt (s : Trees) (n : Nat) (m id : PageId) (es : List (Key × RecordId)) : Prop where
  metas_eq : s.metas = [m]
  pages_eq : s.store.pages.length = 3
  inv : TreeInv s.store ⟨m, 0, leaf id es⟩
  length_eq : es.length = n
  keys_eq : ∀ e ∈ es, e.1 = 7

theorem run_sevens (hn : n ≤ kLeafMaxKeys) :
    ∃ s m id es, Run Trees.exec ⟨Store.new, []⟩ (sevens n) s ∧ SevensAt s n m id es := by
  have hlen : (Store.exec (fun _ => openTree kInvalidPageId) Store.new).toOption.map
      (fun p => p.2.pages.length) = some 3 := by decide +kernel
  rcases openTree_exec Store.new with hexec | ⟨m, id, st', hexec, -, hinv⟩
  · rw [hexec] at hlen
    cases hlen
  · rw [hexec] at hlen
    have hrun : Run Trees.exec ⟨Store.new, []⟩ [(.create, .opened)] ⟨st', [m]⟩ := by
      refine Run.nil.snoc (o := TreeOp.create) ?_
      rw [Trees.exec, hexec]
      rfl
    obtain ⟨s, es, hrun', hmetas, hpages, hinv', hlength, hkeys⟩ :=
      run_inserts hrun rfl hinv (fun _ => 7) (by simpa using hn)
    refine ⟨s, m, id, es, hrun', hmetas, hpages.trans (Option.some.inj hlen), hinv', ?_, fun e he => ?_⟩
    · rw [hlength, List.length_nil, Nat.zero_add]
    · obtain ⟨i, hi⟩ := (hkeys e he).resolve_left List.not_mem_nil
      exact hi

/-- The leaf has room before each of the inserts. -/
theorem guarded_sevens (hn : n ≤ kLeafMaxKeys) :
    Guarded (fun before op _ => ∀ t, Run Trees.exec ⟨Store.new, []⟩ before t → ¬ SplitsOneKey t op)
      (sevens n) := by
  induction n with
  | zero =>
    rw [show sevens 0 = [] ++ [_] from rfl, guarded_snoc]
    exact ⟨guarded_nil, fun t _ hsplit => hsplit⟩
  | succ n ih =>
    rw [sevens_succ]
    refine guarded_snoc.mpr ⟨ih (Nat.le_of_succ_le hn), fun t ht hsplit => ?_⟩
    obtain ⟨s, m, id, es, hrun, hs⟩ := run_sevens (Nat.le_of_succ_le hn)
    rw [ht.unique hrun, splitsOneKey_iff (by rw [hs.metas_eq]; rfl) hs.inv] at hsplit
    obtain ⟨b, es', a, htarget, hfull, -⟩ := hsplit
    have hlen := congrArg List.length htarget.entries_eq
    have hes : entries (TreeView.items ⟨m, 0, leaf id es⟩) = es := entries_map es
    rw [hes, hs.length_eq, length_append, length_append] at hlen
    omega

/-- A leaf can be filled with one key, and lookups stay exact. -/
theorem searchEqual_exact_sevens :
    ∃ s, Run Trees.exec ⟨Store.new, []⟩ (sevens kLeafMaxKeys) s ∧
      Throughout Trees.exec ⟨Store.new, []⟩ (fun before t => SearchExact t (contents before))
        (sevens kLeafMaxKeys) := by
  obtain ⟨s, m, id, es, hrun, -⟩ := run_sevens le_rfl
  exact ⟨s, hrun, (searchEqual_exact Store.new hrun).mpr (guarded_sevens le_rfl)⟩

theorem contents_sevens (n : Nat) :
    ∃ b : Bag, contents (sevens n) = [b] ∧ b.card = n ∧ ∀ e ∈ b, e.1 = 7 := by
  have hcreated : contents [(.create, .opened)] = [0] := rfl
  obtain ⟨b, hb, hcard, -, hkeys⟩ := contents_inserts hcreated (fun _ => 7) n
  refine ⟨b, hb, by rw [hcard, Multiset.card_zero, Nat.zero_add], fun e he => ?_⟩
  obtain ⟨i, hi⟩ := (hkeys e he).resolve_left (Multiset.notMem_zero e)
  exact hi

/-- A search among entries of one key that finds them all finds them in a strictly separated tree. -/
theorem strict_of_all_seen (h : TreeInv st v) (hkeys : ∀ e ∈ entries v.items, e.1 = key)
    (ht : Target key v.items b es a) (hall : (entries v.items).length ≤ (es ++ entries a).length) :
    Ordered (fun a b => a < b) v.items := by
  refine h.ordered.strict_of_seen fun k => ?_
  obtain ⟨b', es', a', ht', -⟩ := searchEqual_exec h k
  by_cases hk : k = key
  · subst hk
    have hlen := congrArg List.length ht.entries_eq
    rw [length_append] at hlen
    have hnil : entries b = [] := List.eq_nil_of_length_eq_zero (by omega)
    exact ⟨b, es, a, ht, fun e he => by rw [hnil] at he; cases he⟩
  · refine ⟨b', es', a', ht', fun e he heq => hk ?_⟩
    rw [← heq, hkeys e (ht'.entries_eq ▸ List.mem_append_left _ he)]

/-- One insert more than a leaf has room for: all of them answer OK, and a lookup of the key does not
find all of its entries. -/
theorem sevens_hides_entries :
    ∃ s m rids, Run Trees.exec ⟨Store.new, []⟩ (sevens (kLeafMaxKeys + 1)) s ∧ s.metas = [m] ∧
      Store.exec (searchEqual m 7) s.store = .ok (.ok rids, s.store) ∧
      rids.length < kLeafMaxKeys + 1 ∧ ¬ SearchExact s (contents (sevens (kLeafMaxKeys + 1))) := by
  obtain ⟨s, m, id, es, hrun, hs⟩ := run_sevens le_rfl
  have hitems : TreeView.items ⟨m, 0, leaf id es⟩ = es.map .entry := rfl
  have htarget : ∀ k, Target k (TreeView.items ⟨m, 0, leaf id es⟩) [] es [] := fun k =>
    ⟨by simp [hitems], .inl rfl, .inl rfl⟩
  obtain ⟨rid, hrid⟩ : ∃ rid : RecordId, rid = ⟨1, UInt16.ofNat kLeafMaxKeys⟩ := ⟨_, rfl⟩
  -- the insert returns, with the new entry in the tree
  obtain ⟨st', v', hexec, hu⟩ := hs.inv.insert_exec (by rw [hs.pages_eq]; decide) 7 rid
  obtain ⟨hmeta, hinv, -, -⟩ := hu.sound hs.inv
  obtain ⟨-, hstep⟩ := hu
  have hrun' : Run Trees.exec ⟨Store.new, []⟩ (sevens (kLeafMaxKeys + 1)) ⟨st', s.metas⟩ := by
    rw [sevens_succ]
    exact hrun.snoc (Trees.exec_update (by rw [hs.metas_eq]; rfl) (hrid ▸ hexec))
  have hperm : (entries v'.items).Perm ((7, rid) :: es) := by
    have h := hstep.inserted.perm
    rwa [hitems, entries_map] at h
  have hkeys : ∀ e ∈ entries v'.items, e.1 = 7 := by
    intro e he
    rcases List.mem_cons.mp (hperm.mem_iff.mp he) with rfl | he
    · rfl
    · exact hs.keys_eq e he
  -- the leaf was full of one key
  have hnot : ¬ Ordered (fun a b => a < b) v'.items := by
    refine hstep.inserted.not_strict ?_ ⟨[], es, [], htarget 7, hs.length_eq.ge, ?_⟩
    · exact hs.inv.ordered.strict_of_seen fun k => ⟨[], es, [], htarget k, by simp⟩
    · exact fun e he e' he' => (hs.keys_eq e he).trans (hs.keys_eq e' he').symm
  obtain ⟨b, es', a, ht, hsearch⟩ := searchEqual_exec hinv 7
  have hshort : (es' ++ entries a).length < kLeafMaxKeys + 1 := by
    rw [← hs.length_eq, ← List.length_cons, ← hperm.length_eq]
    exact not_le.mp fun hall => hnot (strict_of_all_seen hinv hkeys ht hall)
  have hrids : ((((es' ++ entries a).filter fun e => e.1 = 7).map Prod.snd).length
      < kLeafMaxKeys + 1) := by
    rw [List.length_map]
    exact lt_of_le_of_lt (List.length_filter_le _ _) hshort
  rw [hmeta] at hsearch
  refine ⟨_, m, _, hrun', hs.metas_eq, hsearch, hrids, fun hexact => ?_⟩
  obtain ⟨bag, hbag, hcard, hbagKeys⟩ := contents_sevens (kLeafMaxKeys + 1)
  obtain ⟨rids, hrun₂, heq⟩ := hexact 0 m bag 7 (by rw [hs.metas_eq]; rfl) (by rw [hbag]; rfl)
  rw [hsearch] at hrun₂
  obtain rfl := Except.ok.inj (congrArg Prod.fst (Except.ok.inj hrun₂))
  have hc := congrArg Multiset.card heq
  rw [Multiset.coe_card, Multiset.card_map, Multiset.filter_eq_self.mpr hbagKeys, hcard] at hc
  omega

/-! ### Few entries with one key -/

/-- At no moment do more than `kLeafMaxKeys - 1` entries of a tree share a key. -/
def DuplicatesLimited (history : List (TreeOp × TreeAnswer)) : Prop :=
  ∀ before after, history = before ++ after → ∀ b ∈ contents before, ∀ k,
    (b.filter fun e => e.1 = k).card ≤ kLeafMaxKeys - 1

theorem DuplicatesLimited.append_left {before after : List (TreeOp × TreeAnswer)}
    (h : DuplicatesLimited (before ++ after)) : DuplicatesLimited before := by
  intro b a heq
  refine h b (a ++ after) ?_
  rw [heq, List.append_assoc]

/-- An insert that splits a leaf of one key comes to a tree with `kLeafMaxKeys` entries of one key. -/
theorem TreesInv.not_splitsOneKey (hs : TreesInv s bs rows)
    (hlim : ∀ b ∈ bs, ∀ k, (b.filter fun e => e.1 = k).card ≤ kLeafMaxKeys - 1) (op : TreeOp) :
    ¬ SplitsOneKey s op := by
  rcases op with _ | ⟨f, ⟨key, rid⟩ | ⟨key, rid⟩⟩
  · exact id
  · rintro ⟨m, leafId, p, hm, hleaf⟩
    obtain ⟨l, v, rest, rfl, rfl, rfl, hv⟩ := hs.split hm
    obtain ⟨k, hk⟩ :=
      ((splitsOneKey_iff hm hv key rid).mp ⟨_, leafId, p, hm, hleaf⟩).exists_key
    have hbag : v.bag ∈ bs := by
      rw [hs.bags_eq]
      exact List.mem_map_of_mem (mem_append_right _ (mem_cons_self ..))
    have hle := hlim v.bag hbag k
    rw [TreeView.bag, Multiset.filter_coe, Multiset.coe_card] at hle
    rw [kLeafMaxKeys_eq] at hk hle
    omega
  · exact id

/-- The separation stays strict as long as the duplicates are limited. -/
theorem strict_of_limited {history : List (TreeOp × TreeAnswer)}
    (hrun : Run Trees.exec ⟨st, []⟩ history s) (hlim : DuplicatesLimited history) :
    ∃ rows, TreesInv s (contents history) rows ∧ Strict rows := by
  refine Run.always (fun history s => DuplicatesLimited history →
    ∃ rows, TreesInv s (contents history) rows ∧ Strict rows)
    (fun _ => ⟨[], TreesInv.init st, fun v hv => by cases hv⟩) ?_ hrun hlim
  intro history s op r s' ih hexec hlim
  obtain ⟨rows, hs, hstrict⟩ := ih hlim.append_left
  rcases hs.exec op with herr | ⟨r', t, rows', hok, hs', hop⟩
  · simp [hexec] at herr
  · obtain ⟨rfl, rfl⟩ : r = r' ∧ s' = t := by simpa [hexec] using hok
    refine ⟨rows', by rw [contents_snoc]; exact hs', (hop.strict_iff hs hstrict).mpr ?_⟩
    exact hs.not_splitsOneKey (hlim history [(op, r)] rfl) op

/-- All range scans show the bags of the trees, whatever the bounds are. -/
def AllScansShow (s : Trees) (bs : List Bag) : Prop :=
  s.metas.length = bs.length ∧
  ∀ (f : Nat) m b, s.metas[f]? = some m → bs[f]? = some b →
    ∀ low lowInclusive high highInclusive, ScanShows s.store m b low lowInclusive high highInclusive

theorem TreesInv.allScansShow (hs : TreesInv s bs rows) (hstrict : Strict rows) :
    AllScansShow s bs := by
  refine ⟨by rw [hs.metas_eq, hs.bags_eq, length_map, length_map], ?_⟩
  intro f m b hm hb low lowInclusive high highInclusive
  obtain ⟨l, v, rest, rfl, rfl, rfl, hv⟩ := hs.split hm
  obtain rfl : v.bag = b := by simpa [hs.bags_eq] using hb
  refine hv.scanShows ?_
  cases low with
  | none => exact rangeScan_none_exec hv lowInclusive high highInclusive
  | some key =>
    obtain ⟨b, es, a, ht, hrun⟩ := rangeScan_some_exec hv key lowInclusive high highInclusive
    have ho := hstrict v (mem_append_right _ (mem_cons_self ..))
    -- what is left of the gap of `key` is less than `key`
    have hout : ∀ e ∈ entries b, inRange (some key) lowInclusive high highInclusive e.1 = false := by
      intro e he
      have hlt : e.1 < key := ht.left_lt ho e he
      rw [← Bool.not_eq_true, inRange_iff]
      intro hw
      have hge := hw.1 key rfl
      cases lowInclusive with
      | true => exact not_le.mpr hlt hge
      | false => exact lt_asymm hlt hge
    rw [hrun, ht.filter_seen hout]

/-- `Delete` on strictly separated trees. -/
theorem TreesInv.delete_exact (hs : TreesInv s bs rows) (hstrict : Strict rows) {m : PageId} {b : Bag}
    (hm : s.metas[f]? = some m) (hb : bs[f]? = some b) (key : Key) (rid : RecordId) :
    if (key, rid) ∈ b then
      ∃ s', s.exec (.update f (.delete key rid)) = .ok (.status (.ok ()), s') ∧
        AllScansShow s' (bs.modify f fun b => b.erase (key, rid))
    else s.exec (.update f (.delete key rid)) = .ok (.status (.error entryNotFound), s) := by
  obtain ⟨l, v, rest, rfl, rfl, rfl, hv⟩ := hs.split hm
  obtain rfl : v.bag = b := by simpa [hs.bags_eq] using hb
  have ho := hstrict v (mem_append_right _ (mem_cons_self ..))
  -- the call returns, with or without the entry found
  have hwp : (delete v.metaId key rid (s.store.pages.length + 1)).wp (fun _ => False)
      (fun _ _ => True) (fun r st' => (r = .ok () ∧ (key, rid) ∈ v.bag) ∨
        (r = .error entryNotFound ∧ st' = s.store ∧ (key, rid) ∉ v.bag)) s.store := by
    refine delete_wp hv key rid (Nat.le_succ_of_le hv.length_le) (fun st' v' hstep => ?_) ?_
    · refine .inl ⟨rfl, ?_⟩
      have hperm : (entries v.items).Perm ((key, rid) :: entries v'.items) := hstep.removed.perm
      exact Multiset.mem_coe.mpr (hperm.mem_iff.mpr (mem_cons_self ..))
    · intro b es a ht hnot
      refine .inr ⟨rfl, rfl, fun hmem => ?_⟩
      rw [TreeView.bag, Multiset.mem_coe, ht.entries_eq] at hmem
      rcases mem_append.mp hmem with hmem | hmem
      · exact absurd rfl (ne_of_lt (ht.left_lt ho _ hmem))
      · exact hnot hmem
  obtain ⟨r, st', hrun, hres⟩ := Store.exec_of_wp_false hwp
  have hexec := Trees.exec_update (u := .delete key rid) hm hrun
  rcases hres with ⟨rfl, hmem⟩ | ⟨rfl, rfl, hnot⟩
  · rw [if_pos hmem]
    refine ⟨_, hexec, ?_⟩
    rcases hs.exec (.update l.length (.delete key rid)) with herr | ⟨r', t, rows', hok, hs', hop⟩
    · simp [hexec] at herr
    · obtain ⟨rfl, rfl⟩ : .status (.ok ()) = r' ∧ _ = t := by simpa [hexec] using hok
      exact hs'.allScansShow ((hop.strict_iff hs hstrict).mpr id)
  · rw [if_neg hnot]
    exact hexec

/-- **Strict separation below the duplicate limit.**  If at no moment more than `kLeafMaxKeys - 1`
entries of a tree share a key, then in every tree the keys left of a separator are less than it and
those right of it are not; `Delete` answers OK exactly if the entry is there and then takes out one
occurrence of it, and otherwise answers NotFound and changes no page; and every range scan is
complete. -/
theorem duplicates_limited (st : Store) {history : List (TreeOp × TreeAnswer)} {s : Trees}
    (hrun : Run Trees.exec ⟨st, []⟩ history s) (hlim : DuplicatesLimited history) :
    (∀ m ∈ s.metas, ∃ v : TreeView, v.metaId = m ∧ WellShaped s.store v ∧
      Bounded (fun a b => a < b) v.tree) ∧
    (∀ (f : Nat) m b, s.metas[f]? = some m → (contents history)[f]? = some b → ∀ key rid,
      if (key, rid) ∈ b then
        ∃ s', s.exec (.update f (.delete key rid)) = .ok (.status (.ok ()), s') ∧
          AllScansShow s' ((contents history).modify f fun b => b.erase (key, rid))
      else s.exec (.update f (.delete key rid)) = .ok (.status (.error entryNotFound), s)) ∧
    AllScansShow s (contents history) := by
  obtain ⟨rows, hs, hstrict⟩ := strict_of_limited hrun hlim
  refine ⟨fun m hm => ?_, fun f m b hm hb => hs.delete_exact hstrict hm hb,
    hs.allScansShow hstrict⟩
  rw [hs.metas_eq] at hm
  obtain ⟨v, hv, rfl⟩ := List.mem_map.mp hm
  have hinv : TreeInv s.store v := hs.tenants.row v hv
  exact ⟨v, rfl, hinv.wellShaped, hinv.wf.bounded (hstrict v hv)⟩

/-- The call inserts an entry with the key. -/
def TreeOp.insertsKey (k : Key) : TreeOp → Bool
  | .update _ (.insert key _) => key = k
  | _ => false

theorem TreeUpdate.card_next_le (u : TreeUpdate) (r : Result Unit) (b : Bag) (f : Nat) (k : Key) :
    ((u.next r b).filter fun e => e.1 = k).card ≤
      (b.filter fun e => e.1 = k).card + if (TreeOp.update f u).insertsKey k then 1 else 0 := by
  rcases u with ⟨key, rid⟩ | ⟨key, rid⟩ <;> rcases r with e | ⟨⟩
  · exact Nat.le_add_right _ _
  · by_cases hk : key = k <;> simp [next, TreeOp.insertsKey, hk]
  · exact Nat.le_add_right _ _
  · exact (Multiset.card_le_card (Multiset.filter_le_filter _ (Multiset.erase_le _ b))).trans
      (Nat.le_add_right _ _)

/-- A tree has at most as many entries with a key as were inserted. -/
theorem card_le_of_mem_contents (history : List (TreeOp × TreeAnswer)) (k : Key) :
    ∀ b ∈ contents history,
      (b.filter fun e => e.1 = k).card ≤ history.countP fun c => c.1.insertsKey k := by
  induction history using List.reverseRecOn with
  | nil => exact fun b hb => by cases hb
  | append_singleton history c ih =>
    obtain ⟨op, r⟩ := c
    rw [contents_snoc, List.countP_append, List.countP_singleton]
    have hold : ∀ b ∈ contents history, (b.filter fun e => e.1 = k).card ≤
        history.countP (fun c => c.1.insertsKey k) + if op.insertsKey k then 1 else 0 :=
      fun b hb => (ih b hb).trans (Nat.le_add_right _ _)
    intro b hb
    rcases op with _ | ⟨f, u⟩
    · rcases mem_append.mp hb with hb | hb
      · exact hold b hb
      · rw [List.mem_singleton.mp hb]
        exact Nat.zero_le _
    · cases r with
      | opened => exact hold b hb
      | noTree => exact hold b hb
      | status r =>
        obtain ⟨i, hi⟩ := List.getElem?_of_mem hb
        rw [TreeOp.next, List.getElem?_modify] at hi
        obtain ⟨b', hb', rfl⟩ := Option.map_eq_some_iff.mp hi
        have hle := ih b' (List.mem_of_getElem? hb')
        by_cases hfi : f = i
        · rw [if_pos hfi]
          exact (u.card_next_le r b' f k).trans (Nat.add_le_add_right hle _)
        · rw [if_neg hfi]
          exact hold b' (List.mem_of_getElem? hb')

/-- Two keys in turn share the inserts among them. -/
theorem countP_inserts_le (k : Key) : ∀ n, (inserts (fun i => if i % 2 = 0 then 3 else 4) n).countP
    (fun c => c.1.insertsKey k) ≤ (n + 1) / 2
  | 0 => Nat.zero_le _
  | 1 => List.countP_le_length
  | n + 2 => by
    have ih := countP_inserts_le k n
    have hnot : ¬ ((if n % 2 = 0 then 3 else 4 : Key) = k ∧
        (if (n + 1) % 2 = 0 then 3 else 4 : Key) = k) := by
      have hodd : (n + 1) % 2 = 0 ↔ ¬ n % 2 = 0 := by omega
      rw [if_congr hodd rfl rfl]
      by_cases hn : n % 2 = 0
      · rw [if_pos hn, if_neg (not_not.mpr hn)]
        rintro ⟨rfl, h⟩
        cases h
      · rw [if_neg hn, if_pos hn]
        rintro ⟨rfl, h⟩
        cases h
    have hkey : ∀ key rid, (TreeOp.update 0 (.insert key rid)).insertsKey k = decide (key = k) :=
      fun _ _ => rfl
    simp only [inserts, List.countP_append, List.countP_singleton, hkey, decide_eq_true_iff]
    generalize (if n % 2 = 0 then 3 else 4 : Key) = key at hnot ⊢
    generalize (if (n + 1) % 2 = 0 then 3 else 4 : Key) = key' at hnot ⊢
    split_ifs with h h'
    · exact absurd ⟨h, h'⟩ hnot
    all_goals omega

/-- An entry whose key many others have is taken out of a tree that was split. -/
theorem duplicates_limited_splitTree :
    ∃ s s' b b', Run Trees.exec ⟨Store.new, []⟩ splitTree s ∧ DuplicatesLimited splitTree ∧
      contents splitTree = [b, b'] ∧ b.card = kLeafMaxKeys + 1 ∧
      s.exec (.update 0 (.delete 3 ⟨1, 0⟩)) = .ok (.status (.ok ()), s') ∧
      AllScansShow s' [b.erase (3, ⟨1, 0⟩), b'] := by
  obtain ⟨s, hrun, hlength⟩ := run_splitTree
  obtain ⟨b, b', hcontents, hcard, hmem⟩ := contents_splitTree
  have hlim : DuplicatesLimited splitTree := by
    intro before after heq b hb k
    calc (b.filter fun e => e.1 = k).card ≤ before.countP fun c => c.1.insertsKey k :=
          card_le_of_mem_contents before k b hb
      _ ≤ splitTree.countP fun c => c.1.insertsKey k :=
          (heq ▸ List.sublist_append_left before after).countP_le
      _ ≤ twoTrees.length + (292 + 1) / 2 := by
          rw [splitTree, List.countP_append]
          exact Nat.add_le_add List.countP_le_length (countP_inserts_le k 292)
      _ ≤ kLeafMaxKeys - 1 := by decide
  obtain ⟨m, hm⟩ : ∃ m, s.metas[0]? = some m := ⟨_, List.getElem?_eq_getElem (by omega)⟩
  have hdelete := (duplicates_limited Store.new hrun hlim).2.1 0 m b hm (by rw [hcontents]; rfl) 3 ⟨1, 0⟩
  rw [if_pos hmem, hcontents] at hdelete
  obtain ⟨s', hexec, hshow⟩ := hdelete
  exact ⟨s, s', b, b', hrun, hlim, hcontents, hcard, hexec, hshow⟩

end MiniDB.BPlusTree
