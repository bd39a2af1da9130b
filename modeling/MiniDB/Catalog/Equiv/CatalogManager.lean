import MiniDB.Catalog.CatalogManager
import MiniDB.Storage.Equiv.HeapFile

/-!
# Correctness of `CatalogManager`

The entries of the catalog are in two heap files of its pool (`CatalogInv`).  Each call either leaves
its two maps as they are or makes the one change it is for; a call that adds an entry may fail because
the name is taken or the entry is too long, and one that removes an entry because there is none.
-/

namespace MiniDB.CatalogManager

open Paged HeapFile Tenancy

variable {C : Type} {pre : C → Store → Prop} {c : CatalogManager} {st : Store}

/-- The heap files of the catalog are sound, in disjoint pages, and its entries are in them. -/
structure CatalogAt (c : CatalogManager) (st : Store) (tableChain indexChain : List PageId) :
    Prop where
  catalogHeap : HeapInv st c.catalogHeap tableChain
  indexHeap : HeapInv st c.indexHeap indexChain
  disjoint : tableChain.Disjoint indexChain
  tableEntry : ∀ {name e}, c.tables.find? name = some e → e.catalogRecordId.pageId ∈ tableChain
  indexEntry : ∀ {name e}, c.indexes.find? name = some e → e.catalogRecordId.pageId ∈ indexChain

/-- The invariant of a catalog. -/
def CatalogInv (c : CatalogManager) (st : Store) : Prop :=
  ∃ tableChain indexChain, CatalogAt c st tableChain indexChain

/-- A new catalog has no entries. -/
theorem create_wp (order : CatalogOrder) {Q : CatalogManager → Store → Prop}
    (hQ : ∀ c st', CatalogInv c st' → (∀ name, c.tables.find? name = none) →
      c.indexes.entries = [] → Q c st') :
    (create order : Prog PageId Page C _).wp Store.OutOfPages pre Q st := by
  unfold create
  rw [Prog.wp_bind]
  apply openHeap_new_wp
  intro id st₁ _ hinv _ _
  rw [Prog.wp_bind]
  apply openHeap_new_wp
  intro id₂ st₂ hnew hinv₂ hsame _
  have hne : id ≠ id₂ := by
    rintro rfl
    obtain ⟨p, hp⟩ := hinv.present id (List.mem_singleton_self id)
    rw [hnew] at hp
    cases hp
  refine hQ _ _ ⟨[id], [id₂], ⟨?_, hinv₂, ?_, ?_, ?_⟩⟩ (fun _ => rfl) rfl
  · refine hinv.frame fun i hi => hsame i ?_
    rw [List.mem_singleton.mp hi]
    exact hne
  · intro i hi hi'
    exact hne ((List.mem_singleton.mp hi).symm.trans (List.mem_singleton.mp hi'))
  · exact fun h => nomatch h
  · exact fun h => nomatch h

/-! ### Tables -/

/-- The heap file of the tables has made a step, and the maps have changed as given. -/
theorem CatalogAt.tableStep {c' : CatalogManager} {st' : Store} {tc ic tc' : List PageId}
    (h : CatalogAt c st tc ic) (hs : HeapStep st c.catalogHeap tc st' c'.catalogHeap tc')
    (hindex : c'.indexHeap = c.indexHeap) (hindexes : c'.indexes = c.indexes)
    (hentry : ∀ {name e}, c'.tables.find? name = some e → e.catalogRecordId.pageId ∈ tc') :
    CatalogInv c' st' := by
  obtain ⟨hkeep, hd⟩ := heapTenant.keep (b := (c.indexHeap, ic)) hs.pages h.indexHeap h.disjoint
  refine ⟨tc', ic, hs.inv, ?_, hd, hentry, ?_⟩
  · rw [hindex]
    exact hkeep
  · rw [hindexes]
    exact h.indexEntry

/-- What `CreateTable` does. -/
def TableCreated (c : CatalogManager) (name : Str) (schema : Schema) (first : PageId)
    (r : Result TableMetadata × CatalogManager) (st' : Store) : Prop :=
  CatalogInv r.2 st' ∧ r.2.indexes = c.indexes ∧
    ((∃ e, r.1 = .error e ∧ r.2.tables = c.tables) ∨
      ∃ e, r.1 = .ok e ∧ c.tables.find? name = none ∧ e.schema = schema ∧ e.firstPageId = first ∧
        r.2.tables = c.tables.insert name e)

theorem createTable_wp (h : CatalogInv c st) (name : Str) (schema : Schema) (first : PageId)
    {fuel : Nat} (hfuel : st.pages.length < fuel) :
    (c.createTable name schema first fuel : Prog PageId Page C _).wp Store.OutOfPages pre
      (TableCreated c name schema first) st := by
  obtain ⟨tc, ic, hat⟩ := h
  unfold createTable
  by_cases htaken : (c.tables.find? name).isSome
  · rw [if_pos htaken]
    exact ⟨⟨tc, ic, hat⟩, rfl, .inl ⟨_, rfl, rfl⟩⟩
  rw [if_neg htaken]
  dsimp only
  split_ifs with hlong
  · exact ⟨⟨tc, ic, ⟨hat.catalogHeap, hat.indexHeap, hat.disjoint, hat.tableEntry, hat.indexEntry⟩⟩,
      rfl, .inl ⟨_, rfl, rfl⟩⟩
  · rw [Prog.wp_bind]
    refine Prog.wp_mono ?_ (insertRecord_wp hat.catalogHeap _
      (lt_of_le_of_lt hat.catalogHeap.length_le hfuel))
    rintro ⟨r, hf⟩ st' ⟨tc', hs, hins⟩
    rcases hins with ⟨rid, rfl, -, hmem, -, -⟩ | ⟨rfl, -, -⟩
    · refine ⟨hat.tableStep hs rfl rfl ?_, rfl, .inr ⟨_, rfl, ?_, rfl, rfl, rfl⟩⟩
      · intro name' e he
        rw [UnorderedMap.find?_insert] at he
        split_ifs at he
        · obtain rfl := Option.some.inj he
          exact hmem
        · exact hs.pages.subset (hat.tableEntry he)
      · exact Option.not_isSome_iff_eq_none.mp htaken
    · exact ⟨hat.tableStep hs rfl rfl fun he => hs.pages.subset (hat.tableEntry he), rfl,
        .inl ⟨_, rfl, rfl⟩⟩

/-- What `DropTable` does. -/
def TableDropped (c : CatalogManager) (name : Str) (r : Result Unit × CatalogManager) (st' : Store) :
    Prop :=
  CatalogInv r.2 st' ∧ r.2.indexes = c.indexes ∧
    ((∃ e, r.1 = .error e ∧ r.2.tables = c.tables) ∨
      (r.1 = .ok () ∧ r.2.tables = c.tables.erase name))

theorem dropTable_wp (h : CatalogInv c st) (name : Str) :
    (c.dropTable name : Prog PageId Page C _).wp Store.OutOfPages pre (TableDropped c name) st := by
  obtain ⟨tc, ic, hat⟩ := h
  unfold dropTable
  cases he : c.tables.find? name with
  | none => exact ⟨⟨tc, ic, hat⟩, rfl, .inl ⟨_, rfl, rfl⟩⟩
  | some entry =>
    dsimp only
    rw [Prog.wp_bind]
    refine deleteRecord_wp hat.catalogHeap (hat.tableEntry he) ?_ ?_
    · intro _ st' _ hs _
      refine ⟨hat.tableStep hs rfl rfl fun {name'} e' he' => ?_, rfl, .inr ⟨rfl, rfl⟩⟩
      rw [UnorderedMap.find?_erase] at he'
      split_ifs at he'
      exact hat.tableEntry he'
    · exact fun _ => ⟨⟨tc, ic, hat⟩, rfl, .inl ⟨_, rfl, rfl⟩⟩

/-! ### Indexes -/

/-- The heap file of the indexes has made a step, and the maps have changed as given. -/
theorem CatalogAt.indexStep {c' : CatalogManager} {st' : Store} {tc ic ic' : List PageId}
    (h : CatalogAt c st tc ic) (hs : HeapStep st c.indexHeap ic st' c'.indexHeap ic')
    (htable : c'.catalogHeap = c.catalogHeap) (htables : c'.tables = c.tables)
    (hentry : ∀ {name e}, c'.indexes.find? name = some e → e.catalogRecordId.pageId ∈ ic') :
    CatalogInv c' st' := by
  have hsymm : ic.Disjoint tc := fun i hi hi' => h.disjoint hi' hi
  obtain ⟨hkeep, hd⟩ := heapTenant.keep (b := (c.catalogHeap, tc)) hs.pages h.catalogHeap hsymm
  refine ⟨tc, ic', ?_, hs.inv, fun i hi hi' => hd hi' hi, ?_, hentry⟩
  · rw [htable]
    exact hkeep
  · rw [htables]
    exact h.tableEntry

/-- What `CreateIndex` does. -/
def IndexCreated (c : CatalogManager) (indexName tableName columnName : Str) (metaPageId : PageId)
    (r : Result IndexMetadata × CatalogManager) (st' : Store) : Prop :=
  CatalogInv r.2 st' ∧ r.2.tables = c.tables ∧
    ((∃ e, r.1 = .error e ∧ r.2.indexes = c.indexes) ∨
      ∃ e, r.1 = .ok e ∧ c.indexes.find? indexName = none ∧ e.tableName = tableName ∧
        e.columnName = columnName ∧ e.metaPageId = metaPageId ∧
        r.2.indexes = c.indexes.insert indexName e)

theorem createIndex_wp (h : CatalogInv c st) (indexName tableName columnName : Str)
    (metaPageId : PageId) {fuel : Nat} (hfuel : st.pages.length < fuel) :
    (c.createIndex indexName tableName columnName metaPageId fuel : Prog PageId Page C _).wp
      Store.OutOfPages pre (IndexCreated c indexName tableName columnName metaPageId) st := by
  obtain ⟨tc, ic, hat⟩ := h
  unfold createIndex
  by_cases htaken : (c.indexes.find? indexName).isSome
  · rw [if_pos htaken]
    exact ⟨⟨tc, ic, hat⟩, rfl, .inl ⟨_, rfl, rfl⟩⟩
  rw [if_neg htaken]
  dsimp only
  split_ifs with hlong
  · exact ⟨⟨tc, ic, ⟨hat.catalogHeap, hat.indexHeap, hat.disjoint, hat.tableEntry, hat.indexEntry⟩⟩,
      rfl, .inl ⟨_, rfl, rfl⟩⟩
  · rw [Prog.wp_bind]
    refine Prog.wp_mono ?_ (insertRecord_wp hat.indexHeap _
      (lt_of_le_of_lt hat.indexHeap.length_le hfuel))
    rintro ⟨r, hf⟩ st' ⟨ic', hs, hins⟩
    rcases hins with ⟨rid, rfl, -, hmem, -, -⟩ | ⟨rfl, -, -⟩
    · refine ⟨hat.indexStep hs rfl rfl ?_, rfl, .inr ⟨_, rfl, ?_, rfl, rfl, rfl, rfl⟩⟩
      · intro name' e he
        rw [UnorderedMap.find?_insert] at he
        split_ifs at he
        · obtain rfl := Option.some.inj he
          exact hmem
        · exact hs.pages.subset (hat.indexEntry he)
      · exact Option.not_isSome_iff_eq_none.mp htaken
    · exact ⟨hat.indexStep hs rfl rfl fun he => hs.pages.subset (hat.indexEntry he), rfl,
        .inl ⟨_, rfl, rfl⟩⟩

/-- What `DropIndex` does. -/
def IndexDropped (c : CatalogManager) (indexName : Str) (r : Result Unit × CatalogManager)
    (st' : Store) : Prop :=
  CatalogInv r.2 st' ∧ r.2.tables = c.tables ∧
    ((∃ e, r.1 = .error e ∧ r.2.indexes = c.indexes) ∨
      (r.1 = .ok () ∧ r.2.indexes = c.indexes.erase indexName))

theorem dropIndex_wp (h : CatalogInv c st) (indexName : Str) :
    (c.dropIndex indexName : Prog PageId Page C _).wp Store.OutOfPages pre
      (IndexDropped c indexName) st := by
  obtain ⟨tc, ic, hat⟩ := h
  unfold dropIndex
  cases he : c.indexes.find? indexName with
  | none => exact ⟨⟨tc, ic, hat⟩, rfl, .inl ⟨_, rfl, rfl⟩⟩
  | some entry =>
    dsimp only
    rw [Prog.wp_bind]
    refine deleteRecord_wp hat.indexHeap (hat.indexEntry he) ?_ ?_
    · intro _ st' _ hs _
      refine ⟨hat.indexStep hs rfl rfl fun {name'} e' he' => ?_, rfl, .inr ⟨rfl, rfl⟩⟩
      rw [UnorderedMap.find?_erase] at he'
      split_ifs at he'
      exact hat.indexEntry he'
    · exact fun _ => ⟨⟨tc, ic, hat⟩, rfl, .inl ⟨_, rfl, rfl⟩⟩

end MiniDB.CatalogManager
