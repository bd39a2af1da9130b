import MiniDB.Catalog.Equiv.CatalogManager
import MiniDB.Executor.Equiv.ExprEval
import MiniDB.Executor.Relational
import MiniDB.Index.Equiv.IndexPool
import MiniDB.Storage.Equiv.Tables

/-!
# What statements do to rows and indexes

A database is seen as its tables and the bags of its index trees (`DbView`, `DbInv`).  INSERT, UPDATE
and DELETE act on one table, row by row: `RowStep` says all that can happen to a row and to the
indexes with it, and `After` that a statement has made a sequence of such steps.  Every later result
about statements is a fact about these steps.
-/

namespace MiniDB.Executor

open Paged Effect BPlusTree TableManager CatalogManager
open Relational (satisfies)
open Effect.Action (Returns post post_ok wp wp_bind wp_check wp_foldlM wp_get wp_mono_ok wp_mono_post
  wp_ofResult wp_onPart)
open Function (update update_eq_self update_of_ne update_self)

/-! ### The state of a database -/

/-- The bags of the trees of an index pool. -/
abbrev Bags := PageId → Option Bag

/-- A database as its tables and the entries of its indexes. -/
structure DbView where
  tables : Str → Option TableView
  bags : Bags

variable {σ : Type} [IndexPool σ] [LawfulIndexPool σ]

/-- Each index of the catalog has a tree of its own in the pool. -/
structure IndexesInv (indexes : UnorderedMap Str IndexMetadata) (pool : σ) (bags : Bags) : Prop where
  holds : LawfulIndexPool.Holds pool bags
  present : ∀ {name idx}, indexes.find? name = some idx → ∃ b, bags idx.metaPageId = some b
  distinct : (indexes.entries.map fun e => e.2.metaPageId).Nodup

/-- The invariant of a database. -/
structure DbInv (db : Database σ) (v : DbView) : Prop where
  catalog : CatalogInv db.catalog db.catalogPool
  tables : TablesInv db.catalog.tables db.openTables db.dataPool v.tables
  indexes : IndexesInv db.catalog.indexes db.indexPool v.bags

variable {bags bags' : Bags} {schema : Schema} {row : Row} {rid rid' : RecordId}
  {Q : Result Unit → Database σ → Prop} {indexes : UnorderedMap Str IndexMetadata} {pool : σ}
  {idx : IndexMetadata} {c : CatalogManager} {R : Bag → Key × RecordId → Bag → Prop}
  {rows : RecordId → Option Row}

/-- Trees that are not the catalog's may come and go. -/
theorem IndexesInv.of_holds {pool' : σ} (h : IndexesInv indexes pool bags)
    (hpool : LawfulIndexPool.Holds pool' bags')
    (hbags : ∀ id b, bags id = some b → ∃ b', bags' id = some b') :
    IndexesInv indexes pool' bags' where
  holds := hpool
  present := by
    intro name idx hidx
    obtain ⟨b, hb⟩ := h.present hidx
    exact hbags _ b hb
  distinct := h.distinct

/-- Indexes do not share a tree. -/
theorem IndexesInv.eq_of_metaPageId (h : IndexesInv indexes pool bags) {name name' : Str}
    {idx' : IndexMetadata} (hidx : indexes.find? name = some idx)
    (hidx' : indexes.find? name' = some idx') (heq : idx.metaPageId = idx'.metaPageId) :
    idx = idx' := by
  have hinj := List.inj_on_of_nodup_map h.distinct
  have hpair := hinj (UnorderedMap.mem_entries_iff.mpr hidx) (UnorderedMap.mem_entries_iff.mpr hidx') heq
  exact congrArg Prod.snd hpair

theorem mem_getIndexesForTable {table : Str} :
    idx ∈ c.getIndexesForTable table ↔
      idx.tableName = table ∧ ∃ name, c.indexes.find? name = some idx := by
  rw [getIndexesForTable, List.mem_filter, decide_eq_true_iff, List.mem_map, and_comm]
  refine and_congr_right fun _ => ⟨?_, ?_⟩
  · rintro ⟨⟨name, idx'⟩, hmem, rfl⟩
    exact ⟨name, UnorderedMap.mem_entries_iff.mp hmem⟩
  · rintro ⟨name, hfind⟩
    exact ⟨(name, idx), UnorderedMap.mem_entries_iff.mpr hfind, rfl⟩

theorem IndexesInv.distinct_table (h : IndexesInv c.indexes pool bags) (table : Str) :
    ((c.getIndexesForTable table).map IndexMetadata.metaPageId).Nodup := by
  have hd := h.distinct
  rw [show (fun e : Str × IndexMetadata => e.2.metaPageId)
    = IndexMetadata.metaPageId ∘ Prod.snd from rfl, ← List.map_map] at hd
  exact hd.sublist (List.filter_sublist.map _)

/-! ### Index maintenance -/

/-- The key of a row in an index on the given column. -/
def keyOf (schema : Schema) (column : Str) (row : Row) : Option Key :=
  (schema.indexOf column).bind fun i => row[i.val]?.bind extractInt64Key

theorem indexKey_eq (h : row.length = schema.columnCount) (column : Str) :
    indexKey schema column row = pure (keyOf schema column row) := by
  unfold indexKey keyOf
  cases hidx : schema.indexOf column with
  | none => rfl
  | some i =>
    have hlt : i.val < row.length := by rw [h]; exact i.isLt
    dsimp only
    rw [Option.bind_some, List.getElem?_eq_getElem hlt]
    rfl

/-- The entry of a row is added. -/
def AddsEntry (b : Bag) (e : Key × RecordId) (b' : Bag) : Prop := b' = e ::ₘ b

/-- The entry of a row is removed, unless the pool is one that may miss it. -/
def RemovesEntry (exact : Prop) (b : Bag) (e : Key × RecordId) (b' : Bag) : Prop :=
  b' = b.erase e ∨ ¬ exact ∧ b' = b

/-- The bags after the maintenance of the indexes for one row: `R` has happened to the entry of the
row in each index where it has one. -/
structure Maintained (R : Bag → Key × RecordId → Bag → Prop) (idxs : List IndexMetadata)
    (schema : Schema) (row : Row) (rid : RecordId) (bags bags' : Bags) : Prop where
  other : ∀ id, (∀ idx ∈ idxs, idx.metaPageId ≠ id) → bags' id = bags id
  index : ∀ idx ∈ idxs, ∃ b b', bags idx.metaPageId = some b ∧ bags' idx.metaPageId = some b' ∧
    match keyOf schema idx.columnName row with
    | none => b' = b
    | some key => R b (key, rid) b'

/-- Maintenance loses no tree. -/
theorem Maintained.present {idxs : List IndexMetadata} (h : Maintained R idxs schema row rid bags bags')
    (id : PageId) (b : Bag) (hb : bags id = some b) : ∃ b', bags' id = some b' := by
  by_cases hid : ∃ idx ∈ idxs, idx.metaPageId = id
  · obtain ⟨idx, hmem, rfl⟩ := hid
    obtain ⟨-, b', -, hb', -⟩ := h.index idx hmem
    exact ⟨b', hb'⟩
  · push Not at hid
    exact ⟨b, by rw [h.other id hid, hb]⟩

theorem maintainIndexes_wp {call : PageId → Key → RecordId → σ → Except Fault (Result Unit × σ)}
    (hcall : ∀ {s bags id b} key rid, LawfulIndexPool.Holds s bags → bags id = some b →
      Returns Store.OutOfPages (call id key rid s) fun _ s' =>
      ∃ b', LawfulIndexPool.Holds s' (update bags id (some b')) ∧ R b (key, rid) b') {db : Database σ}
    (h : IndexesInv db.catalog.indexes db.indexPool bags) (table : Str)
    (hrow : row.length = schema.columnCount) (rid : RecordId)
    (hQ : ∀ pool bags', IndexesInv db.catalog.indexes pool bags' →
      Maintained R (db.catalog.getIndexesForTable table) schema row rid bags bags' →
      Q (.ok ()) { db with indexPool := pool }) :
    wp Store.OutOfPages (maintainIndexes call table schema row rid) Q db := by
  have hdistinct := h.distinct_table table
  have hpresent : ∀ idx ∈ db.catalog.getIndexesForTable table,
      ∃ b, bags idx.metaPageId = some b := by
    intro idx hidx
    obtain ⟨-, name, hname⟩ := mem_getIndexesForTable.mp hidx
    exact h.present hname
  unfold maintainIndexes
  rw [wp_bind, wp_get, post_ok]
  -- the indexes before the current one are maintained, the others are as they were
  refine Action.wp_mono ?_ (Action.wp_forM (E := fun _ _ => False)
    (fun before db' => ∃ pool bags', db' = { db with indexPool := pool } ∧
      LawfulIndexPool.Holds pool bags' ∧ Maintained R before schema row rid bags bags') ?_ ?_)
  · rintro (e | ⟨⟩) db' hpost
    · exact hpost.elim
    · obtain ⟨pool, bags', rfl, hholds, hm⟩ := hpost
      exact hQ pool bags' (h.of_holds hholds hm.present) hm
  · exact ⟨db.indexPool, bags, rfl, h.holds, ⟨fun _ _ => rfl, fun idx hidx => nomatch hidx⟩⟩
  · rintro before idx after _ heq ⟨pool, bags', rfl, hholds, hm⟩
    have hmem : idx ∈ db.catalog.getIndexesForTable table := by simp [heq]
    have hnew : ∀ i ∈ before, i.metaPageId ≠ idx.metaPageId := by
      rw [heq, List.map_append, List.map_cons, List.nodup_append] at hdistinct
      exact fun i hi => hdistinct.2.2 _ (List.mem_map_of_mem hi) _ (List.mem_cons_self ..)
    obtain ⟨b, hb⟩ := hpresent idx hmem
    have hb' : bags' idx.metaPageId = some b := by rw [hm.other _ hnew, hb]
    rw [wp_bind, wp_check (indexKey_eq hrow idx.columnName), post_ok]
    cases hkey : keyOf schema idx.columnName row with
    | none =>
      refine ⟨pool, bags', rfl, hholds, ⟨fun id hid => hm.other id fun i hi => ?_, ?_⟩⟩
      · exact hid i (List.mem_append_left _ hi)
      · intro i hi
        rcases List.mem_append.mp hi with hi | hi
        · exact hm.index i hi
        · rw [List.mem_singleton.mp hi, hkey]
          exact ⟨b, b, hb, hb', rfl⟩
    | some key =>
      dsimp only
      rw [wp_bind]
      refine wp_onPart (P := fun tree pool' => tree = idx.metaPageId ∧ pool' = pool) ?_ ?_
      · rw [LawfulIndexPool.openTree_old hholds hb']
        exact ⟨rfl, rfl⟩
      rintro _ _ ⟨rfl, rfl⟩
      rw [post_ok, wp_bind]
      refine wp_onPart (hcall key rid hholds hb') ?_
      rintro r pool' ⟨b₁, hholds', hR⟩
      refine ⟨pool', _, rfl, hholds', ⟨fun id hid => ?_, fun i hi => ?_⟩⟩
      · have hne : id ≠ idx.metaPageId := fun h =>
          hid idx (List.mem_append_right _ (List.mem_singleton_self _)) h.symm
        rw [update_of_ne hne]
        exact hm.other id fun i hi => hid i (List.mem_append_left _ hi)
      · rcases List.mem_append.mp hi with hi | hi
        · rw [update_of_ne (hnew i hi)]
          exact hm.index i hi
        · rw [List.mem_singleton.mp hi, hkey, update_self]
          exact ⟨b, b₁, hb, rfl, hR⟩

theorem maintainIndexesOnInsert_wp (db : Database σ)
    (h : IndexesInv db.catalog.indexes db.indexPool bags) (table : Str)
    (hrow : row.length = schema.columnCount) (rid : RecordId)
    (hQ : ∀ pool bags', IndexesInv db.catalog.indexes pool bags' →
      Maintained AddsEntry (db.catalog.getIndexesForTable table) schema row rid bags bags' →
      Q (.ok ()) { db with indexPool := pool }) :
    wp Store.OutOfPages (maintainIndexesOnInsert table schema row rid) Q db :=
  maintainIndexes_wp (fun key rid hholds hb => Returns.mono
    (fun _ _ h => ⟨_, h, rfl⟩) (LawfulIndexPool.insert key rid hholds hb)) h table hrow rid hQ

theorem maintainIndexesOnDelete_wp (db : Database σ)
    (h : IndexesInv db.catalog.indexes db.indexPool bags) (table : Str)
    (hrow : row.length = schema.columnCount) (rid : RecordId)
    (hQ : ∀ pool bags', IndexesInv db.catalog.indexes pool bags' →
      Maintained (RemovesEntry (LawfulIndexPool.exact σ)) (db.catalog.getIndexesForTable table)
      schema row rid bags bags' →
      Q (.ok ()) { db with indexPool := pool }) :
    wp Store.OutOfPages (maintainIndexesOnDelete table schema row rid) Q db :=
  maintainIndexes_wp (fun key rid hholds hb => LawfulIndexPool.delete key rid hholds hb)
    h table hrow rid hQ

/-! ### Steps -/

/-- What happens to a row of a table. -/
inductive RowEvent
  | insert (rid : RecordId) (row : Row)
  | replace (rid : RecordId) (old : Row) (rid' : RecordId) (new : Row)
  | delete (rid : RecordId) (old : Row)
  /-- a failed update has deleted the row -/
  | lose (rid : RecordId)
  /-- a failed insert has added a page -/
  | grow

/-- The event is not the loss of a row. -/
def RowEvent.Clean : RowEvent → Prop
  | .lose _ => False
  | _ => True

/-- One event: the table and the bags before and after it. -/
inductive RowStep (exact : Prop) (idxs : List IndexMetadata) :
    RowEvent → TableView × Bags → TableView × Bags → Prop
  | insert {t : TableView} {bags bags' : Bags} {rid : RecordId} {row : Row} {c : List PageId} :
      t.rows rid = none → RowConforms t.schema row → t.chain ⊆ c → rid.pageId ∈ c →
      Maintained AddsEntry idxs t.schema row rid bags bags' →
      RowStep exact idxs (.insert rid row) (t, bags)
        (⟨t.schema, c, update t.rows rid (some row)⟩, bags')
  | replace {t : TableView} {bags bags₁ bags' : Bags} {rid rid' : RecordId} {old new : Row}
      {c : List PageId} :
      t.rows rid = some old → RowConforms t.schema new → t.chain ⊆ c → rid'.pageId ∈ c →
      (rid' = rid ∨ t.rows rid' = none) →
      Maintained (RemovesEntry exact) idxs t.schema old rid bags bags₁ →
      Maintained AddsEntry idxs t.schema new rid' bags₁ bags' →
      RowStep exact idxs (.replace rid old rid' new) (t, bags)
        (⟨t.schema, c, update (update t.rows rid none) rid' (some new)⟩, bags')
  | delete {t : TableView} {bags bags' : Bags} {rid : RecordId} {old : Row} :
      t.rows rid = some old →
      Maintained (RemovesEntry exact) idxs t.schema old rid bags bags' →
      RowStep exact idxs (.delete rid old) (t, bags)
        (⟨t.schema, t.chain, update t.rows rid none⟩, bags')
  | lose {t : TableView} {bags : Bags} {rid : RecordId} {old : Row} {c : List PageId} :
      t.rows rid = some old → t.chain ⊆ c →
      RowStep exact idxs (.lose rid) (t, bags)
        (⟨t.schema, c, update t.rows rid none⟩, bags)
  | grow {t : TableView} {bags : Bags} {c : List PageId} : t.chain ⊆ c →
      RowStep exact idxs .grow (t, bags) (⟨t.schema, c, t.rows⟩, bags)

/-- The id a replaced row moves to is free once the old row is gone. -/
theorem update_none_of_free (h : rid' = rid ∨ rows rid' = none) : update rows rid none rid' = none := by
  by_cases hne : rid' = rid
  · rw [hne, update_self]
  · rw [update_of_ne hne, h.resolve_left hne]

/-- The other rows stay. -/
theorem replaced_other {other : RecordId} {new : Option Row} (hfree : rid' = rid ∨ rows rid' = none)
    (hne : other ≠ rid) (hrow : rows other = some row) :
    update (update rows rid none) rid' new other = some row := by
  have hne' : other ≠ rid' := by
    rintro rfl
    rcases hfree with hfree | hfree
    · exact hne hfree
    · rw [hrow] at hfree
      cases hfree
  rw [update_of_ne hne', update_of_ne hne, hrow]

/-- Events one after the other. -/
inductive RowSteps (exact : Prop) (idxs : List IndexMetadata) :
    List RowEvent → TableView × Bags → TableView × Bags → Prop
  | nil {x : TableView × Bags} : RowSteps exact idxs [] x x
  | snoc {es : List RowEvent} {e : RowEvent} {x y z : TableView × Bags} :
      RowSteps exact idxs es x y → RowStep exact idxs e y z → RowSteps exact idxs (es ++ [e]) x z

section Steps

variable {exact : Prop} {idxs : List IndexMetadata} {es es' : List RowEvent} {e : RowEvent}
  {x y z : TableView × Bags}

theorem RowStep.schema_eq (h : RowStep exact idxs e x y) : y.1.schema = x.1.schema := by
  cases h <;> rfl

/-- A table keeps its pages. -/
theorem RowStep.chain_subset (h : RowStep exact idxs e x y) : x.1.chain ⊆ y.1.chain := by
  cases h with
  | insert _ _ hc => exact hc
  | replace _ _ hc => exact hc
  | delete => exact List.Subset.refl _
  | lose _ hc => exact hc
  | grow hc => exact hc

theorem RowSteps.single (h : RowStep exact idxs e x y) : RowSteps exact idxs [e] x y := .snoc .nil h

/-- The last of the events. -/
theorem RowSteps.of_snoc (h : RowSteps exact idxs (es ++ [e]) x z) :
    ∃ y, RowSteps exact idxs es x y ∧ RowStep exact idxs e y z := by
  generalize hl : es ++ [e] = l at h
  cases h with
  | nil => simp at hl
  | snoc hsteps hstep =>
    obtain ⟨rfl, hlast⟩ := List.append_inj' hl rfl
    obtain rfl := List.singleton_inj.mp hlast
    exact ⟨_, hsteps, hstep⟩

theorem RowSteps.of_nil (h : RowSteps exact idxs [] x y) : y = x := by
  generalize hl : ([] : List RowEvent) = l at h
  cases h with
  | nil => rfl
  | snoc _ _ => simp at hl

theorem RowSteps.of_single (h : RowSteps exact idxs [e] x y) : RowStep exact idxs e x y := by
  have hlast : RowSteps exact idxs ([] ++ [e]) x y := h
  obtain ⟨_, hnil, hstep⟩ := hlast.of_snoc
  rwa [hnil.of_nil] at hstep

theorem RowSteps.trans (h : RowSteps exact idxs es x y) (h' : RowSteps exact idxs es' y z) :
    RowSteps exact idxs (es ++ es') x z := by
  induction h' with
  | nil => rwa [List.append_nil]
  | snoc _ hstep ih =>
    rw [← List.append_assoc]
    exact (ih h).snoc hstep

/-- What every event of a list keeps, the list keeps. -/
theorem RowSteps.invariant {P : TableView × Bags → Prop} {A : RowEvent → Prop}
    (hstep : ∀ e x y, A e → RowStep exact idxs e x y → P x → P y)
    (h : RowSteps exact idxs es x y) (hall : ∀ e ∈ es, A e) (hx : P x) : P y := by
  induction h with
  | nil => exact hx
  | snoc _ hlast ih =>
    refine hstep _ _ _ (hall _ ?_) hlast (ih (fun e he => hall e ?_) hx)
    · exact List.mem_append_right _ (List.mem_singleton_self _)
    · exact List.mem_append_left _ he

theorem RowSteps.schema_eq (h : RowSteps exact idxs es x y) : y.1.schema = x.1.schema :=
  h.invariant (P := fun z => z.1.schema = x.1.schema) (A := fun _ => True)
    (fun _ _ _ _ hs hz => hs.schema_eq.trans hz) (fun _ _ => trivial) rfl

end Steps

/-- The statement so far has made the events `es` on the table `name`, which was `t` and is `t'`. -/
structure After (db : Database σ) (v : DbView) (name : Str) (t : TableView) (es : List RowEvent)
    (t' : TableView) (db' : Database σ) : Prop where
  steps : ∃ bags', RowSteps (LawfulIndexPool.exact σ) (db.catalog.getIndexesForTable name) es
    (t, v.bags) (t', bags') ∧ DbInv db' ⟨update v.tables name (some t'), bags'⟩
  catalog : db'.catalog = db.catalog

variable {db db₁ db₂ : Database σ} {v : DbView} {name : Str} {t t₁ t₂ : TableView} {m : RecordId × Row}
  {allow : Fault → Prop}

theorem After.refl (h : DbInv db v) (ht : v.tables name = some t) : After db v name t [] t db := by
  refine ⟨⟨v.bags, .nil, ?_⟩, rfl⟩
  rw [← ht, update_eq_self]
  exact h

/-- The state in between two parts of a statement. -/
theorem After.view {es : List RowEvent} (h : After db v name t es t₁ db₁) :
    ∃ v₁, DbInv db₁ v₁ ∧ v₁.tables name = some t₁ ∧ t₁.schema = t.schema ∧
      ∀ es' t₂ db₂, After db₁ v₁ name t₁ es' t₂ db₂ → After db v name t (es ++ es') t₂ db₂ := by
  obtain ⟨⟨bags, hsteps, hinv⟩, hcat⟩ := h
  refine ⟨_, hinv, update_self .., hsteps.schema_eq, ?_⟩
  rintro es' t₂ db₂ ⟨⟨bags₂, hsteps₂, hinv₂⟩, hcat₂⟩
  rw [hcat] at hsteps₂
  refine ⟨⟨bags₂, hsteps.trans hsteps₂, ?_⟩, hcat₂.trans hcat⟩
  rwa [Function.update_idem] at hinv₂

/-! ### One row -/

/-- A new row is stored with its index entries, or nothing but pages is added. -/
theorem insertOne_wp (h : DbInv db v) (ht : v.tables name = some t) (hschema : t.schema = schema)
    (targets : List (Fin schema.columnCount)) (row : Row) :
    wp Store.OutOfPages (insertOne name schema targets row)
      (post
        (fun _ db' => ∃ full rid t', fullRow schema targets row = .ok full ∧ Storable schema full ∧
          After db v name t [.insert rid full] t' db')
        fun _ db' => (∀ full, fullRow schema targets row = .ok full → ¬ Storable schema full) ∧
          ∃ es t', (∀ e ∈ es, e = .grow) ∧ After db v name t es t' db') db := by
  subst hschema
  unfold insertOne
  rw [wp_bind]
  cases hfull : fullRow t.schema targets row with
  | error e => exact ⟨(fun _ hok => nomatch hok), [], t, (fun _ he => nomatch he), After.refl h ht⟩
  | ok full =>
    rw [wp_ofResult, post_ok, wp_bind]
    refine insertRow_wp h.tables ht full ?_ ?_
    · intro e st o c hno hc htables
      refine ⟨fun full' hfull' => ?_, [.grow], _, fun e he => List.mem_singleton.mp he,
        ⟨⟨v.bags, .single (.grow hc), h.catalog, htables, h.indexes⟩, rfl⟩⟩
      rwa [← Except.ok.inj hfull']
    · intro rid st o c hstorable hconf hc hmem hfree htables
      refine maintainIndexesOnInsert_wp { db with dataPool := st, openTables := o }
        h.indexes name hconf.length_eq rid ?_
      intro pool bags' hindexes hm
      exact ⟨full, rid, _, rfl, hstorable,
        ⟨⟨bags', .single (.insert hfree hconf hc hmem hm), h.catalog, htables, hindexes⟩, rfl⟩⟩

/-- The row after the assignments of an UPDATE. -/
def assigned {n : Nat} (assignments : List (Fin n × Value)) (row : Row) : Row :=
  assignments.foldl (fun row a => row.set a.1 a.2) row

theorem assign_eq {n : Nat} (assignments : List (Fin n × Value)) (h : row.length = n) :
    assign assignments row = pure (assigned assignments row) := by
  unfold assign assigned
  induction assignments generalizing row with
  | nil => rfl
  | cons a assignments ih =>
    have hlt : a.1.val < row.length := by rw [h]; exact a.1.isLt
    rw [List.foldlM_cons, if_pos hlt, Checked.access_some, pure_bind, List.foldl_cons]
    exact ih (by rw [List.length_set, h])

/-- A row is replaced with its index entries.  If that fails, the new row was rejected, or it is too
long for a page and the old one is lost. -/
theorem updateOne_wp (h : DbInv db v) (ht : v.tables name = some t) (hschema : t.schema = schema)
    (assignments : List (Fin schema.columnCount × Value)) (hm : t.rows m.1 = some m.2) :
    wp Store.OutOfPages (updateOne name schema assignments m)
      (post
        (fun _ db' => ∃ rid' t', Storable schema (assigned assignments m.2) ∧
          (rid' = m.1 ∨ t.rows rid' = none) ∧
          t'.rows = update (update t.rows m.1 none) rid'
            (some (assigned assignments m.2)) ∧
          After db v name t [.replace m.1 m.2 rid' (assigned assignments m.2)] t' db')
        fun _ db' => ∃ es t', (Rejected schema (assigned assignments m.2) ∧ es = [.grow] ∨
            ¬ Rejected schema (assigned assignments m.2) ∧
              ¬ Storable schema (assigned assignments m.2) ∧ es = [.lose m.1]) ∧
          After db v name t es t' db')
      db := by
  subst hschema
  have hconf := (h.tables.at ht).conforms hm
  unfold updateOne
  rw [wp_bind, wp_check (assign_eq assignments hconf.length_eq), post_ok,
    wp_bind]
  refine updateRow_wp h.tables ht hm _ ?_ ?_
  · intro e st o c rows hc hrows htables
    rcases hrows with ⟨hrejected, rfl⟩ | ⟨hnot, hlong, rfl⟩
    · exact ⟨[.grow], _, .inl ⟨hrejected, rfl⟩,
        ⟨⟨v.bags, .single (.grow hc), h.catalog, htables, h.indexes⟩, rfl⟩⟩
    · exact ⟨[.lose m.1], _, .inr ⟨hnot, hlong, rfl⟩,
        ⟨⟨v.bags, .single (.lose hm hc), h.catalog, htables, h.indexes⟩, rfl⟩⟩
  · intro rid' st o c hstorable hnew hc hmem hfree htables
    rw [post_ok, wp_bind]
    refine maintainIndexesOnDelete_wp { db with dataPool := st, openTables := o }
      h.indexes name hconf.length_eq m.1 ?_
    intro pool bags₁ hindexes₁ hm₁
    refine maintainIndexesOnInsert_wp
      { db with dataPool := st, openTables := o, indexPool := pool }
      hindexes₁ name hnew.length_eq rid' ?_
    intro pool' bags' hindexes' hm'
    exact ⟨rid', _, hstorable, hfree, rfl, ⟨⟨bags', .single (.replace hm hnew hc hmem hfree hm₁ hm'),
      h.catalog, htables, hindexes'⟩, rfl⟩⟩

/-- A row is deleted with its index entries. -/
theorem deleteOne_wp (h : DbInv db v) (ht : v.tables name = some t) (hschema : t.schema = schema)
    (hm : t.rows m.1 = some m.2) :
    wp Store.OutOfPages (deleteOne name schema m)
      (post
        (fun _ db' => ∃ t', t'.rows = update t.rows m.1 none ∧
          After db v name t [.delete m.1 m.2] t' db')
        fun _ _ => False) db := by
  subst hschema
  have hconf := (h.tables.at ht).conforms hm
  unfold deleteOne
  rw [wp_bind]
  refine deleteRow_wp h.tables ht hm ?_
  intro st o htables
  refine maintainIndexesOnDelete_wp { db with dataPool := st, openTables := o }
    h.indexes name hconf.length_eq m.1 ?_
  intro pool bags' hindexes hmaint
  exact ⟨_, rfl, ⟨⟨bags', .single (.delete hm hmaint), h.catalog, htables, hindexes⟩, rfl⟩⟩

/-! ### The rows of a statement -/

theorem requireSchema_wp (h : DbInv db v) (name : Str) {Q : Result Schema → Database σ → Prop}
    (hnone : ∀ e, v.tables name = none → Q (.error e) db)
    (hsome : ∀ t, v.tables name = some t → Q (.ok t.schema) db) :
    wp allow (requireSchema name) Q db := by
  unfold requireSchema getSchema
  rw [wp_bind, wp_bind, wp_get, post_ok, getTable]
  cases he : db.catalog.tables.find? name with
  | none => exact hnone _ ((h.tables.none_iff name).mp he)
  | some e =>
    obtain ⟨t, ht, hschema, -⟩ := h.tables.entry he
    show Q (.ok e.schema) db
    rw [hschema]
    exact hsome t ht

theorem matchingRows_eq {where? : Option Expr} {rows : List (RecordId × Row)}
    (h : ∀ r ∈ rows, r.2.length = schema.columnCount) :
    matchingRows where? schema rows = pure (rows.filter fun r => satisfies where? schema r.2) := by
  induction rows with
  | nil => rfl
  | cons r rows ih =>
    obtain ⟨res, hres⟩ := evaluatePredicate_checked (h r (List.mem_cons_self ..)) where?
    rw [matchingRows, hres, Checked.attempt_ofResult, pure_bind,
      ih fun r' hr' => h r' (List.mem_cons_of_mem _ hr'), pure_bind, List.filter_cons, satisfies, hres]
    rcases res with e | b
    · rfl
    · cases b <;> rfl

theorem collectMatches_wp (h : DbInv db v) (ht : v.tables name = some t) (where? : Option Expr)
    {Q : Result (List (RecordId × Row)) → Database σ → Prop}
    (hQ : ∀ rows db', Lists rows t.rows → After db v name t [] t db' →
      Q (.ok (rows.filter fun r => satisfies where? t.schema r.2)) db') :
    wp allow (collectMatches name where? t.schema) Q db := by
  unfold collectMatches
  rw [wp_bind]
  refine scan_wp db h.tables ht ?_
  intro rows o hlists htables
  have hlen : ∀ r ∈ rows, r.2.length = t.schema.columnCount := fun r hr =>
    ((h.tables.at ht).conforms ((hlists.mem_iff r.1 r.2).mp hr)).length_eq
  rw [post_ok, wp_check (matchingRows_eq hlen)]
  refine hQ rows _ hlists ⟨⟨v.bags, .nil, h.catalog, ?_, h.indexes⟩, rfl⟩
  rw [← ht, update_eq_self]
  exact htables

/-! ### INSERT -/

/-- What an INSERT does to a row: it stores one of its own, with the values coerced. -/
def InsertEvent (stmt : InsertStmt) (schema : Schema) (e : RowEvent) : Prop :=
  e = .grow ∨ ∃ targets row full rid, targetIndices schema stmt.columns = .ok targets ∧
    row ∈ stmt.rows ∧ fullRow schema targets row = .ok full ∧ e = .insert rid full

/-- What an INSERT does: its rows are stored in order, all of them if it returns OK. -/
def InsertOutcome (stmt : InsertStmt) (db : Database σ) (v : DbView) (r : Result QueryResult)
    (db' : Database σ) : Prop :=
  (v.tables stmt.tableName = none ∧ (∃ e, r = .error e) ∧ db' = db) ∨
  ∃ t es t', v.tables stmt.tableName = some t ∧ After db v stmt.tableName t es t' db' ∧
    (∀ e ∈ es, InsertEvent stmt t.schema e) ∧
    ∀ res, r = .ok res → ∃ targets fulls, targetIndices t.schema stmt.columns = .ok targets ∧
      List.Forall₂ (fun row full => fullRow t.schema targets row = .ok full) stmt.rows fulls ∧
      List.Forall₂ (fun full e => ∃ rid, e = RowEvent.insert rid full) fulls es ∧
      res.rowsAffected = stmt.rows.length

/-- The loop of an INSERT: the rows are stored in order, up to the first that is refused. -/
theorem insertRows_wp (h : DbInv db v) (ht : v.tables name = some t) (hschema : t.schema = schema)
    (targets : List (Fin schema.columnCount)) (rows : List Row) (n : Nat) :
    wp Store.OutOfPages
      (rows.foldlM (fun n row => do insertOne name schema targets row; return n + 1) n) (post
        (fun n' db' => n' = n + rows.length ∧ ∃ es t' fulls, After db v name t es t' db' ∧
          List.Forall₂ (fun row full => fullRow schema targets row = .ok full) rows fulls ∧
          List.Forall₂ (fun full e => ∃ rid, e = RowEvent.insert rid full) fulls es)
        fun _ db' => ∃ es t', After db v name t es t' db' ∧ ∀ e ∈ es, e = .grow ∨
          ∃ row ∈ rows, ∃ full rid, fullRow schema targets row = .ok full ∧ e = .insert rid full)
      db := by
  -- the rows before the current one are stored
  refine wp_foldlM (fun before n' db' => n' = n + before.length ∧
    ∃ es t' fulls, After db v name t es t' db' ∧
      List.Forall₂ (fun row full => fullRow schema targets row = .ok full) before fulls ∧
      List.Forall₂ (fun full e => ∃ rid, e = RowEvent.insert rid full) fulls es) _ ?_ ?_
  · exact ⟨rfl, [], t, [], .refl h ht, .nil, .nil⟩
  · rintro before row after n' db' heq ⟨hn, es, t', fulls, hafter, hfulls, hevents⟩
    obtain ⟨v', hinv', ht', hschema', hcompose⟩ := hafter.view
    rw [wp_bind]
    refine wp_mono_post ?_ ?_ (insertOne_wp hinv' ht' (hschema'.trans hschema) targets row)
    · rintro _ db₁ ⟨full, rid, t₁, hfull, -, hstep⟩
      exact ⟨by rw [hn, List.length_append]; rfl, es ++ [.insert rid full], t₁, fulls ++ [full],
        hcompose _ _ _ hstep, List.rel_append hfulls (.cons hfull .nil),
        List.rel_append hevents (.cons ⟨rid, rfl⟩ .nil)⟩
    · rintro e db₁ ⟨-, es', t₁, hgrow, hstep⟩
      refine ⟨es ++ es', t₁, hcompose _ _ _ hstep, fun e he => ?_⟩
      rcases List.mem_append.mp he with he | he
      · obtain ⟨full, hfull, rid, rfl⟩ := exists_mem_of_forall₂ hevents he
        obtain ⟨row', hrow', hok⟩ := exists_mem_of_forall₂ hfulls hfull
        exact .inr ⟨row', heq ▸ List.mem_append_left _ hrow', full, rid, hok, rfl⟩
      · exact .inl (hgrow e he)

theorem executeInsert_wp (h : DbInv db v) (stmt : InsertStmt) :
    wp Store.OutOfPages (executeInsert stmt) (InsertOutcome stmt db v) db := by
  unfold executeInsert
  rw [wp_bind]
  refine requireSchema_wp h _ (fun e hnone => .inl ⟨hnone, ⟨e, rfl⟩, rfl⟩) ?_
  intro t ht
  rw [post_ok, wp_bind]
  cases htargets : targetIndices t.schema stmt.columns with
  | error e =>
    exact .inr ⟨t, [], t, ht, .refl h ht, (fun _ he => nomatch he), (fun _ hr => nomatch hr)⟩
  | ok targets =>
    rw [wp_ofResult, post_ok, wp_bind]
    refine wp_mono_post ?_ ?_ (insertRows_wp h ht rfl targets stmt.rows 0)
    · rintro n db' ⟨hn, es, t', fulls, hafter, hfulls, hevents⟩
      refine .inr ⟨t, es, t', ht, hafter, fun e he => ?_, fun res hres => ?_⟩
      · obtain ⟨full, hfull, rid, rfl⟩ := exists_mem_of_forall₂ hevents he
        obtain ⟨row, hrow, hok⟩ := exists_mem_of_forall₂ hfulls hfull
        exact .inr ⟨targets, row, full, rid, htargets, hrow, hok, rfl⟩
      · obtain rfl := Except.ok.inj hres
        exact ⟨targets, fulls, htargets, hfulls, hevents, hn.trans (Nat.zero_add _)⟩
    · rintro e db' ⟨es, t', hafter, hes⟩
      refine .inr ⟨t, es, t', ht, hafter, fun e he => ?_, (fun _ hr => nomatch hr)⟩
      refine (hes e he).imp_right ?_
      rintro ⟨row, hrow, full, rid, hok, rfl⟩
      exact ⟨targets, row, full, rid, htargets, hrow, hok, rfl⟩

/-! ### UPDATE and DELETE -/

/-- The loop over the matches of an UPDATE or DELETE, for what is done to one of them: `hone` says
that a match that is still there is dealt with by one event of the kind `Ev`, which leaves the other
rows alone, or the statement fails there after events of the kind `Fail`. -/
theorem matchLoop_wp {f : RecordId × Row → Db σ Unit} (Ev : RecordId × Row → RowEvent → Prop)
    (Fail : RecordId × Row → List RowEvent → Prop) {ms : List (RecordId × Row)}
    (hone : ∀ {db v t'} m, m ∈ ms → DbInv db v → v.tables name = some t' → t'.schema = t.schema →
      t'.rows m.1 = some m.2 → wp Store.OutOfPages (f m) (post
        (fun _ db' => ∃ e t₁, Ev m e ∧ After db v name t' [e] t₁ db' ∧
          ∀ rid row, rid ≠ m.1 → t'.rows rid = some row → t₁.rows rid = some row)
        fun _ db' => ∃ es t₁, Fail m es ∧ After db v name t' es t₁ db') db)
    (hlive : ∀ m ∈ ms, t.rows m.1 = some m.2) (hnodup : (ms.map Prod.fst).Nodup)
    (h : After db v name t [] t db₁) :
    wp Store.OutOfPages (ms.foldlM (fun n m => do f m; return n + 1) 0) (post
      (fun n db' => n = ms.length ∧ ∃ es t', After db v name t es t' db' ∧ List.Forall₂ Ev ms es)
      fun _ db' => ∃ before m after es es' t', ms = before ++ m :: after ∧
        After db v name t (es ++ es') t' db' ∧ List.Forall₂ Ev before es ∧ Fail m es') db₁ := by
  -- the matches before the current one are dealt with, the others are as they were
  refine wp_mono_ok ?_ (wp_foldlM
    (fun before n db' => n = before.length ∧ ∃ es t', After db v name t es t' db' ∧
      List.Forall₂ Ev before es ∧
      ∀ after, ms = before ++ after → ∀ m ∈ after, t'.rows m.1 = some m.2) _ ?_ ?_)
  · rintro n db' ⟨hn, es, t', hafter, hevents, -⟩
    exact ⟨hn, es, t', hafter, hevents⟩
  · exact ⟨rfl, [], t, h, .nil, fun after heq m hm => hlive m (heq ▸ hm)⟩
  · rintro before m after n db' heq ⟨hn, es, t', hafter, hevents, hrest⟩
    obtain ⟨v', hinv', ht', hschema, hcompose⟩ := hafter.view
    have hm : m ∈ ms := by simp [heq]
    rw [wp_bind]
    refine wp_mono_post ?_ ?_
      (hone m hm hinv' ht' hschema (hrest (m :: after) heq m (List.mem_cons_self ..)))
    · rintro _ db₂ ⟨e, t₁, hev, hstep, hother⟩
      refine ⟨by rw [hn, List.length_append]; rfl, _, t₁, hcompose _ _ _ hstep,
        List.rel_append hevents (.cons hev .nil), ?_⟩
      intro after' heq' m' hm'
      obtain rfl : after = after' := by
        rw [heq, List.append_assoc] at heq'
        simpa using heq'
      refine hother m'.1 m'.2 ?_ (hrest (m :: after) heq m' (List.mem_cons_of_mem _ hm'))
      rw [heq, List.map_append, List.map_cons, List.nodup_append] at hnodup
      have hcons := (List.nodup_cons.mp hnodup.2.1).1
      exact fun h => hcons (h ▸ List.mem_map_of_mem hm')
    · rintro e db₂ ⟨es', t₁, hfail, hstep⟩
      exact ⟨before, m, after, es, es', t₁, heq, hcompose _ _ _ hstep, hevents, hfail⟩

/-- A replaced row is the one that matched, with the assigned values. -/
def Replaces {n : Nat} (assignments : List (Fin n × Value)) (m : RecordId × Row) (e : RowEvent) :
    Prop := ∃ rid', e = .replace m.1 m.2 rid' (assigned assignments m.2)

/-- What an UPDATE does to a row: a row it matches gets the assigned values, or is lost. -/
def UpdateEvent (stmt : UpdateStmt) (t : TableView) (e : RowEvent) : Prop :=
  e = .grow ∨ ∃ assignments m, resolveAssignments t.schema stmt.assignments = .ok assignments ∧
    t.rows m.1 = some m.2 ∧ satisfies stmt.where? t.schema m.2 = true ∧
    (e = .lose m.1 ∨ Replaces assignments m e)

/-- What an UPDATE does: the rows that match when it starts are replaced in order, all of them if it
returns OK. -/
def UpdateOutcome (stmt : UpdateStmt) (db : Database σ) (v : DbView) (r : Result QueryResult)
    (db' : Database σ) : Prop :=
  (v.tables stmt.tableName = none ∧ (∃ e, r = .error e) ∧ db' = db) ∨
  ∃ t es t', v.tables stmt.tableName = some t ∧ After db v stmt.tableName t es t' db' ∧
    (∀ e ∈ es, UpdateEvent stmt t e) ∧
    ∀ res, r = .ok res → ∃ assignments rows, Lists rows t.rows ∧
      resolveAssignments t.schema stmt.assignments = .ok assignments ∧
      List.Forall₂ (Replaces assignments)
        (rows.filter fun r => satisfies stmt.where? t.schema r.2) es ∧
      res.rowsAffected = (rows.filter fun r => satisfies stmt.where? t.schema r.2).length

theorem executeUpdate_wp (h : DbInv db v) (stmt : UpdateStmt) :
    wp Store.OutOfPages (executeUpdate stmt) (UpdateOutcome stmt db v) db := by
  unfold executeUpdate
  rw [wp_bind]
  refine requireSchema_wp h _ (fun e hnone => .inl ⟨hnone, ⟨e, rfl⟩, rfl⟩) ?_
  intro t ht
  rw [post_ok, wp_bind]
  cases hassign : resolveAssignments t.schema stmt.assignments with
  | error e =>
    exact .inr ⟨t, [], t, ht, .refl h ht, (fun _ he => nomatch he), (fun _ hr => nomatch hr)⟩
  | ok assignments =>
    rw [wp_ofResult, post_ok, wp_bind]
    refine collectMatches_wp h ht _ ?_
    intro rows db₀ hlists hscan
    obtain ⟨hmatched, hnodup⟩ := hlists.filter (satisfies stmt.where? t.schema)
    rw [post_ok, wp_bind]
    refine wp_mono_post ?_ ?_ (matchLoop_wp (Replaces assignments)
      (fun m es => ∀ e ∈ es, e = .grow ∨ e = .lose m.1) ?_ (fun m hm => (hmatched m hm).1)
      hnodup hscan)
    · rintro n db' ⟨hn, es, t', hafter, hevents⟩
      refine .inr ⟨t, es, t', ht, hafter, fun e he => ?_, fun res hres => ?_⟩
      · obtain ⟨m, hm, hev⟩ := exists_mem_of_forall₂ hevents he
        exact .inr ⟨assignments, m, hassign, (hmatched m hm).1, (hmatched m hm).2, .inr hev⟩
      · obtain rfl := Except.ok.inj hres
        exact ⟨assignments, rows, hlists, hassign, hevents, hn⟩
    · rintro e db' ⟨before, m, after, es, es', t', heq, hafter, hes, hfail⟩
      refine .inr ⟨t, es ++ es', t', ht, hafter, fun e he => ?_, (fun _ hr => nomatch hr)⟩
      rcases List.mem_append.mp he with he | he
      · obtain ⟨m, hm, hev⟩ := exists_mem_of_forall₂ hes he
        replace hm := heq ▸ List.mem_append_left _ hm
        exact .inr ⟨assignments, m, hassign, (hmatched m hm).1, (hmatched m hm).2, .inr hev⟩
      · have hm := heq ▸ List.mem_append_right before (List.mem_cons_self (a := m) (l := after))
        refine (hfail e he).imp_right fun hlose => ?_
        exact ⟨assignments, m, hassign, (hmatched m hm).1, (hmatched m hm).2, .inl hlose⟩
    · intro db' v' t' m _ hinv' ht' hschema hlive
      refine wp_mono_post ?_ ?_ (updateOne_wp hinv' ht' hschema assignments hlive)
      · rintro _ db₁ ⟨rid', t₁, -, hfree, hrows, hstep⟩
        refine ⟨_, t₁, ⟨rid', rfl⟩, hstep, fun rid row hne hrow => ?_⟩
        rw [hrows]
        exact replaced_other hfree hne hrow
      · rintro e db₁ ⟨es', t₁, ⟨-, rfl⟩ | ⟨-, -, rfl⟩, hstep⟩
        · exact ⟨_, t₁, fun e he => .inl (List.mem_singleton.mp he), hstep⟩
        · exact ⟨_, t₁, fun e he => .inr (List.mem_singleton.mp he), hstep⟩

/-- What a DELETE does: the rows that match are deleted in order. -/
def DeleteOutcome (stmt : DeleteStmt) (db : Database σ) (v : DbView) (r : Result QueryResult)
    (db' : Database σ) : Prop :=
  (v.tables stmt.tableName = none ∧ (∃ e, r = .error e) ∧ db' = db) ∨
  ∃ t t' rows, v.tables stmt.tableName = some t ∧ Lists rows t.rows ∧
    After db v stmt.tableName t ((rows.filter fun r => satisfies stmt.where? t.schema r.2).map
      fun m => .delete m.1 m.2) t' db' ∧
    ∃ res, r = .ok res ∧
      res.rowsAffected = (rows.filter fun r => satisfies stmt.where? t.schema r.2).length

theorem executeDelete_wp (h : DbInv db v) (stmt : DeleteStmt) :
    wp Store.OutOfPages (executeDelete stmt) (DeleteOutcome stmt db v) db := by
  unfold executeDelete
  rw [wp_bind]
  refine requireSchema_wp h _ (fun e hnone => .inl ⟨hnone, ⟨e, rfl⟩, rfl⟩) ?_
  intro t ht
  rw [post_ok, wp_bind]
  refine collectMatches_wp h ht _ ?_
  intro rows db₀ hlists hscan
  obtain ⟨hmatched, hnodup⟩ := hlists.filter (satisfies stmt.where? t.schema)
  rw [post_ok, wp_bind]
  refine wp_mono_post ?_ ?_ (matchLoop_wp (fun m e => .delete m.1 m.2 = e)
    (fun _ _ => False) ?_ (fun m hm => (hmatched m hm).1) hnodup hscan)
  · rintro n db' ⟨hn, es, t', hafter, hevents⟩
    have hmap := List.forall₂_map_left_iff.mpr hevents
    rw [List.forall₂_eq_eq_eq] at hmap
    subst hmap
    exact .inr ⟨t, t', rows, ht, hlists, hafter, _, rfl, hn⟩
  · rintro e db' ⟨-, -, -, -, -, -, -, -, -, hfail⟩
    exact hfail.elim
  · intro db' v' t' m _ hinv' ht' hschema hlive
    refine wp_mono_post ?_ (fun _ _ h => h.elim) (deleteOne_wp hinv' ht' hschema hlive)
    rintro _ db₁ ⟨t₁, hrows, hstep⟩
    refine ⟨_, t₁, rfl, hstep, fun rid row hne hrow => ?_⟩
    rw [hrows, update_of_ne hne, hrow]

end MiniDB.Executor
