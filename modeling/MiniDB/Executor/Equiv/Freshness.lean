import MiniDB.Executor.Equiv.Plan

/-!
# Rows of dropped tables

A DROP TABLE takes the table out of the catalog and leaves its indexes there.  A later CREATE TABLE with
the same name finds them again, with entries that lead to pages of the old table, and nothing checks to
which table a page belongs.  So a SELECT that uses such an index may return rows of the old table
(`recreated_reads_old_row`).

This is the only way.  The rows that may have been written to a table since it was created are computed
from the history (`incarnations`).  If no CREATE TABLE meets an index with entries on one of its columns,
then every SELECT is computed from rows that a scan of its table returns, each with its record id, and
these rows were written since (`select_reads_written`).  An index on a column that the new table does not
have does no harm: no row satisfies a WHERE clause that compares an unknown column.
-/

namespace MiniDB.Executor

open Paged Effect BPlusTree TableManager CatalogManager Cursor Runs Relational
open Function (update_apply update_of_ne update_self)
open Effect.Action (of_wp post_ok wp wp_bind)

/-! ### What was written -/

/-- A table since its last CREATE TABLE. -/
structure Incarnation where
  schema : Schema
  /-- the rows that INSERT and UPDATE statements have made -/
  written : Set Row

/-- The rows an INSERT makes, as far as they can be stored.  One that fails has stored those before the row
it fails on. -/
def Incarnation.insert (i : Incarnation) (stmt : InsertStmt) : Incarnation where
  schema := i.schema
  written := i.written ∪ {full | ∃ targets, targetIndices i.schema stmt.columns = .ok targets ∧
    (∃ row ∈ stmt.rows, fullRow i.schema targets row = .ok full) ∧ RowConforms i.schema full}

/-- The rows an UPDATE makes of those that match. -/
def Incarnation.update (i : Incarnation) (stmt : UpdateStmt) : Incarnation where
  schema := i.schema
  written := i.written ∪ {new | ∃ assignments,
    resolveAssignments i.schema stmt.assignments = .ok assignments ∧
    (∃ old ∈ i.written, satisfies stmt.where? i.schema old = true ∧ new = assigned assignments old) ∧
    RowConforms i.schema new}

/-- The tables of a database. -/
abbrev Incarnations := Str → Option Incarnation

/-- The tables after a statement that was answered. -/
def Incarnations.after (w : Incarnations) : Statement × Result QueryResult → Incarnations
  | (.createTable stmt, .ok _) => Function.update w stmt.tableName (some ⟨⟨stmt.columns⟩, ∅⟩)
  | (.dropTable name, .ok _) => Function.update w name none
  | (.insert stmt, _) => Function.update w stmt.tableName ((w stmt.tableName).map (·.insert stmt))
  | (.update stmt, _) => Function.update w stmt.tableName ((w stmt.tableName).map (·.update stmt))
  | _ => w

/-- The tables after a history that starts with a new database. -/
def incarnations (history : List (Statement × Result QueryResult)) : Incarnations :=
  history.foldl Incarnations.after fun _ => none

theorem incarnations_snoc (history : List (Statement × Result QueryResult))
    (c : Statement × Result QueryResult) :
    incarnations (history ++ [c]) = (incarnations history).after c := by
  rw [incarnations, List.foldl_append]
  rfl

variable {σ : Type} [IndexPool σ] [LawfulIndexPool σ] {db db' : Database σ} {v : DbView} {name : Str}
  {t : TableView} {w : Incarnations}

/-! ### Events -/

/-- If the index is on a column of the table, its entries lead to pages of the table. -/
def EntriesIn (t : TableView) (bags : Bags) (idx : IndexMetadata) : Prop :=
  t.schema.indexOf idx.columnName ≠ none → ∀ b, bags idx.metaPageId = some b →
    ∀ e ∈ b, e.2.pageId ∈ t.chain

/-- The event only makes rows of the set, if it makes a row that can be stored. -/
def RowEvent.Makes (schema : Schema) (rows : Set Row) : RowEvent → Prop
  | .insert _ row => RowConforms schema row → row ∈ rows
  | .replace _ _ _ new => RowConforms schema new → new ∈ rows
  | .delete _ _ | .lose _ | .grow => True

section Steps

variable {idxs : List IndexMetadata} {schema : Schema} {row : Row} {rid : RecordId}
  {bags bags' : Bags} {exact : Prop} {e : RowEvent} {es : List RowEvent} {x y : TableView × Bags}
  {P : RecordId → Prop} {idx : IndexMetadata}

/-- What holds for the ids of all entries, and of the entry that `R` is about, holds after `R`. -/
theorem Maintained.entries {R : Bag → Key × RecordId → Bag → Prop}
    (h : Maintained R idxs schema row rid bags bags')
    (hR : ∀ b key b', R b (key, rid) b' → (∀ e ∈ b, P e.2) → ∀ e ∈ b', P e.2) (hidx : idx ∈ idxs)
    (hb : ∀ b, bags idx.metaPageId = some b → ∀ e ∈ b, P e.2) :
    ∀ b', bags' idx.metaPageId = some b' → ∀ e ∈ b', P e.2 := by
  intro b' hb'
  obtain ⟨b, b'', hbefore, hafter, hmatch⟩ := h.index idx hidx
  rw [hb'] at hafter
  obtain rfl := Option.some.inj hafter
  cases hkey : keyOf schema idx.columnName row with
  | none =>
    rw [hkey] at hmatch
    rw [hmatch]
    exact hb b hbefore
  | some key =>
    rw [hkey] at hmatch
    exact hR b key b' hmatch (hb b hbefore)

theorem Maintained.entries_add (h : Maintained AddsEntry idxs schema row rid bags bags') (hrid : P rid)
    (hidx : idx ∈ idxs) (hb : ∀ b, bags idx.metaPageId = some b → ∀ e ∈ b, P e.2) :
    ∀ b', bags' idx.metaPageId = some b' → ∀ e ∈ b', P e.2 := by
  refine h.entries ?_ hidx hb
  rintro b key _ rfl hall e he
  rcases Multiset.mem_cons.mp he with rfl | he
  · exact hrid
  · exact hall e he

theorem Maintained.entries_remove (h : Maintained (RemovesEntry exact) idxs schema row rid bags bags')
    (hidx : idx ∈ idxs) (hb : ∀ b, bags idx.metaPageId = some b → ∀ e ∈ b, P e.2) :
    ∀ b', bags' idx.metaPageId = some b' → ∀ e ∈ b', P e.2 := by
  refine h.entries ?_ hidx hb
  rintro b key b' (rfl | ⟨-, rfl⟩) hall e he
  · exact hall e (Multiset.mem_of_mem_erase he)
  · exact hall e he

/-- The entries of the indexes stay in the table. -/
theorem RowStep.entriesIn (h : RowStep exact idxs e x y) (hx : ∀ idx ∈ idxs, EntriesIn x.1 x.2 idx) :
    ∀ idx ∈ idxs, EntriesIn y.1 y.2 idx := by
  intro idx hidx hcol
  rw [h.schema_eq] at hcol
  have hold : ∀ b, x.2 idx.metaPageId = some b → ∀ e ∈ b, e.2.pageId ∈ y.1.chain :=
    fun b hb e he => h.chain_subset (hx idx hidx hcol b hb e he)
  cases h with
  | insert _ _ _ hrid hadd =>
    exact hadd.entries_add (P := fun rid => rid.pageId ∈ _) hrid hidx hold
  | replace _ _ _ hrid _ hremove hadd =>
    exact hadd.entries_add (P := fun rid => rid.pageId ∈ _) hrid hidx
      (hremove.entries_remove (P := fun rid => rid.pageId ∈ _) hidx hold)
  | delete _ hremove => exact hremove.entries_remove (P := fun rid => rid.pageId ∈ _) hidx hold
  | lose => exact hold
  | grow => exact hold

/-- The rows of the table stay in the set. -/
theorem RowStep.rows_subset {rows : Set Row} (h : RowStep exact idxs e x y)
    (he : e.Makes x.1.schema rows) (hx : ∀ rid row, x.1.rows rid = some row → row ∈ rows) :
    ∀ rid row, y.1.rows rid = some row → row ∈ rows := by
  intro rid row hrow
  cases h with
  | insert _ hconf =>
    dsimp only at hrow
    rw [update_apply] at hrow
    split_ifs at hrow
    · rw [← Option.some.inj hrow]
      exact he hconf
    · exact hx rid row hrow
  | replace _ hconf =>
    dsimp only at hrow
    rw [update_apply, update_apply] at hrow
    split_ifs at hrow
    · rw [← Option.some.inj hrow]
      exact he hconf
    · exact hx rid row hrow
  | delete =>
    dsimp only at hrow
    rw [update_apply] at hrow
    split_ifs at hrow
    exact hx rid row hrow
  | lose =>
    dsimp only at hrow
    rw [update_apply] at hrow
    split_ifs at hrow
    exact hx rid row hrow
  | grow => exact hx rid row hrow

end Steps

/-! ### Statements -/

/-- The rows of the tables were written to them, and the entries of their indexes lead to them. -/
structure Fresh (db : Database σ) (v : DbView) (w : Incarnations) : Prop where
  inv : DbInv db v
  rows : ∀ {name t}, v.tables name = some t → ∃ i, w name = some i ∧ i.schema = t.schema ∧
    ∀ rid row, t.rows rid = some row → row ∈ i.written
  entries : ∀ {name t}, v.tables name = some t → ∀ idx ∈ db.catalog.getIndexesForTable name,
    EntriesIn t v.bags idx

/-- The events of a statement on a table. -/
theorem After.fresh {t' : TableView} {es : List RowEvent} {i i' : Incarnation}
    (h : After db v name t es t' db') (hfresh : Fresh db v w) (ht : v.tables name = some t)
    (hi : w name = some i) (hschema : i'.schema = i.schema) (hwritten : i.written ⊆ i'.written)
    (hes : ∀ e ∈ es, e.Makes i.schema i'.written) :
    ∃ v', Fresh db' v' (Function.update w name (some i')) := by
  obtain ⟨⟨bags', hsteps, hinv⟩, hcat⟩ := h
  refine ⟨_, hinv, ?_, ?_⟩
  · intro name' t₁ ht₁
    dsimp only at ht₁
    by_cases hname : name' = name
    · rw [hname, update_self] at ht₁ ⊢
      obtain rfl := Option.some.inj ht₁
      obtain ⟨i₀, hi₀, hschema₀, hrows₀⟩ := hfresh.rows ht
      rw [hi] at hi₀
      obtain rfl := Option.some.inj hi₀
      refine ⟨i', rfl, ?_, ?_⟩
      · rw [hschema, hschema₀]
        exact hsteps.schema_eq.symm
      · refine (hsteps.invariant (A := fun e => e.Makes i.schema i'.written)
          (P := fun z => z.1.schema = i.schema ∧ ∀ rid row, z.1.rows rid = some row → row ∈ i'.written)
          (fun _ _ _ he hs hz => ⟨hs.schema_eq.trans hz.1, hs.rows_subset (hz.1 ▸ he) hz.2⟩) hes
          ⟨hschema₀.symm, fun rid row hrow => hwritten (hrows₀ rid row hrow)⟩).2
    · rw [update_of_ne hname] at ht₁ ⊢
      exact hfresh.rows ht₁
  · intro name' t₁ ht₁ idx hidx
    dsimp only at ht₁
    rw [hcat] at hidx
    by_cases hname : name' = name
    · rw [hname, update_self] at ht₁
      obtain rfl := Option.some.inj ht₁
      rw [hname] at hidx
      exact hsteps.invariant (A := fun _ => True)
        (P := fun z => ∀ idx ∈ db.catalog.getIndexesForTable name, EntriesIn z.1 z.2 idx)
        (fun _ _ _ _ hs hz => hs.entriesIn hz) (fun _ _ => trivial) (hfresh.entries ht) idx hidx
    · -- an index of another table has another tree
      rw [update_of_ne hname] at ht₁
      obtain ⟨htable, iname, hfind⟩ := mem_getIndexesForTable.mp hidx
      have hother : bags' idx.metaPageId = v.bags idx.metaPageId := by
        refine hsteps.bags_other fun idx' hidx' heq => hname ?_
        obtain ⟨htable', iname', hfind'⟩ := mem_getIndexesForTable.mp hidx'
        rw [← htable, ← htable', hfresh.inv.indexes.eq_of_metaPageId hfind' hfind heq]
      intro hcol b hb
      dsimp only at hb
      rw [hother] at hb
      exact hfresh.entries ht₁ idx hidx hcol b hb

/-- The trees a CREATE TABLE finds on its columns are empty. -/
def EmptyTrees (db : Database σ) (stmt : CreateTableStmt) : Prop :=
  ∀ idx ∈ db.catalog.getIndexesForTable stmt.tableName,
    (⟨stmt.columns⟩ : Schema).indexOf idx.columnName ≠ none →
    ∃ pool, IndexPool.rangeScan idx.metaPageId none true none true db.indexPool = .ok (.ok [], pool)

theorem getIndexesForTable_congr {c c' : CatalogManager} (h : c'.indexes = c.indexes) (name : Str) :
    c'.getIndexesForTable name = c.getIndexesForTable name := by
  rw [getIndexesForTable, getIndexesForTable, h]

variable {r : Result QueryResult} {db₀ : Database σ}

theorem Fresh.createTable (hfresh : Fresh db v w) {stmt : CreateTableStmt}
    (h : CreateTableOutcome stmt db v r db') (hempty : (∃ res, r = .ok res) → EmptyTrees db stmt) :
    ∃ v', Fresh db' v' (w.after (.createTable stmt, r)) := by
  obtain ⟨hindexes, ⟨⟨e, rfl⟩, hinv⟩ | ⟨id, rfl, hnone, hinv⟩⟩ := h
  · refine ⟨v, hinv, hfresh.rows, fun ht idx hidx => ?_⟩
    rw [getIndexesForTable_congr hindexes] at hidx
    exact hfresh.entries ht idx hidx
  · refine ⟨_, hinv, ?_, ?_⟩
    · intro name t ht
      dsimp only [Incarnations.after] at ht ⊢
      by_cases hname : name = stmt.tableName
      · rw [hname, update_self] at ht ⊢
        obtain rfl := Option.some.inj ht
        exact ⟨_, rfl, rfl, fun rid row hrow => nomatch hrow⟩
      · rw [update_of_ne hname] at ht ⊢
        exact hfresh.rows ht
    · intro name t ht idx hidx hcol b hb
      dsimp only at ht hb
      rw [getIndexesForTable_congr hindexes] at hidx
      by_cases hname : name = stmt.tableName
      · rw [hname, update_self] at ht
        obtain rfl := Option.some.inj ht
        rw [hname] at hidx
        -- there is nothing in the tree
        obtain ⟨es, hscan, rfl⟩ := LawfulIndexPool.scanAll hfresh.inv.indexes.holds hb
        obtain ⟨pool, hscan'⟩ := hempty ⟨_, rfl⟩ idx hidx hcol
        obtain rfl : [] = es := by
          rw [hscan] at hscan'
          cases hscan'
          rfl
        exact fun e he => absurd he (Multiset.notMem_zero e)
      · rw [update_of_ne hname] at ht
        exact hfresh.entries ht idx hidx hcol b hb

theorem Fresh.dropTable (hfresh : Fresh db v w) (h : DropTableOutcome name db v r db') :
    ∃ v', Fresh db' v' (w.after (.dropTable name, r)) := by
  obtain ⟨hindexes, ⟨⟨e, rfl⟩, hinv⟩ | ⟨rfl, hinv⟩⟩ := h
  · refine ⟨v, hinv, hfresh.rows, fun ht idx hidx => ?_⟩
    rw [getIndexesForTable_congr hindexes] at hidx
    exact hfresh.entries ht idx hidx
  · have hold : ∀ {name' t}, Function.update v.tables name none name' = some t →
        name' ≠ name ∧ v.tables name' = some t := by
      intro name' t ht
      by_cases hname : name' = name
      · rw [hname, update_self] at ht
        cases ht
      · rw [update_of_ne hname] at ht
        exact ⟨hname, ht⟩
    refine ⟨_, hinv, ?_, ?_⟩
    · intro name' t ht
      obtain ⟨hname, ht⟩ := hold ht
      dsimp only [Incarnations.after]
      rw [update_of_ne hname]
      exact hfresh.rows ht
    · intro name' t ht idx hidx
      rw [getIndexesForTable_congr hindexes] at hidx
      exact hfresh.entries (hold ht).2 idx hidx

theorem Fresh.createIndex (hfresh : Fresh db v w) {stmt : CreateIndexStmt}
    (h : CreateIndexOutcome stmt db v r db') : ∃ v', Fresh db' v' w := by
  obtain ⟨-, ⟨-, hindexes, bags', hkeep, hinv⟩ |
    ⟨t, idx, b, ht, hcolumn, htable, hname, hnew, hinsert, hnone, hmirror, hinv⟩⟩ := h
  · refine ⟨_, hinv, hfresh.rows, fun ht idx hidx hcol b hb => ?_⟩
    rw [getIndexesForTable_congr hindexes] at hidx
    obtain ⟨-, iname, hfind⟩ := mem_getIndexesForTable.mp hidx
    obtain ⟨b', hb'⟩ := hfresh.inv.indexes.present hfind
    dsimp only at hb
    rw [hkeep _ _ hb'] at hb
    obtain rfl := Option.some.inj hb
    exact hfresh.entries ht idx hidx hcol b' hb'
  · refine ⟨_, hinv, hfresh.rows, fun {name' t'} ht' idx' hidx' hcol b' hb' => ?_⟩
    obtain ⟨htable', iname, hfind⟩ := mem_getIndexesForTable.mp hidx'
    rw [hinsert, UnorderedMap.find?_insert] at hfind
    dsimp only at ht' hb'
    split_ifs at hfind
    · -- the entries of the new index are those of rows
      obtain rfl := Option.some.inj hfind
      rw [update_self] at hb'
      obtain rfl := Option.some.inj hb'
      rw [← htable', htable, ht] at ht'
      obtain rfl := Option.some.inj ht'
      intro e he
      obtain ⟨row, hrow, -⟩ := hmirror.exists_of_mem he
      exact ((hfresh.inv.tables.at ht).record hrow).1
    · have hold := mem_getIndexesForTable.mpr ⟨htable', iname, hfind⟩
      obtain ⟨b'', hb''⟩ := hfresh.inv.indexes.present hfind
      rw [update_of_none hnone b _ _ hb''] at hb'
      obtain rfl := Option.some.inj hb'
      exact hfresh.entries ht' idx' hold hcol b'' hb''

theorem Fresh.dropIndex (hfresh : Fresh db v w) (h : DropIndexOutcome name db v r db') :
    Fresh db' v w := by
  obtain ⟨hinv, -, hindexes⟩ := h
  refine ⟨hinv, hfresh.rows, fun ht idx hidx => hfresh.entries ht idx ?_⟩
  obtain ⟨htable, iname, hfind⟩ := mem_getIndexesForTable.mp hidx
  refine mem_getIndexesForTable.mpr ⟨htable, iname, ?_⟩
  rcases hindexes with ⟨-, hindexes⟩ | hindexes
  · rwa [hindexes] at hfind
  · rw [hindexes, UnorderedMap.find?_erase] at hfind
    split_ifs at hfind
    exact hfind

/-- A name without a table may stand for anything. -/
theorem Fresh.update_absent (hfresh : Fresh db v w) (hnone : v.tables name = none)
    (x : Option Incarnation) : Fresh db v (Function.update w name x) := by
  refine ⟨hfresh.inv, fun {name' t} ht => ?_, hfresh.entries⟩
  have hname : name' ≠ name := by
    rintro rfl
    rw [hnone] at ht
    cases ht
  rw [update_of_ne hname]
  exact hfresh.rows ht

theorem Fresh.insert (hfresh : Fresh db v w) {stmt : InsertStmt} (h : InsertOutcome stmt db v r db') :
    ∃ v', Fresh db' v' (w.after (.insert stmt, r)) := by
  dsimp only [Incarnations.after]
  rcases h with ⟨hnone, -, rfl⟩ | ⟨t, es, t', ht, hafter, hes, -⟩
  · exact ⟨v, hfresh.update_absent hnone _⟩
  · obtain ⟨⟨schema, written⟩, hi, hschema, -⟩ := hfresh.rows ht
    obtain rfl : schema = t.schema := hschema
    rw [hi, Option.map_some]
    refine hafter.fresh hfresh ht hi rfl Set.subset_union_left fun e he => ?_
    rcases hes e he with rfl | ⟨targets, row, full, rid, htargets, hrow, hfull, rfl⟩
    · exact trivial
    · exact fun hconf => Or.inr ⟨targets, htargets, ⟨row, hrow, hfull⟩, hconf⟩

theorem Fresh.update (hfresh : Fresh db v w) {stmt : UpdateStmt} (h : UpdateOutcome stmt db v r db') :
    ∃ v', Fresh db' v' (w.after (.update stmt, r)) := by
  dsimp only [Incarnations.after]
  rcases h with ⟨hnone, -, rfl⟩ | ⟨t, es, t', ht, hafter, hes, -⟩
  · exact ⟨v, hfresh.update_absent hnone _⟩
  · obtain ⟨⟨schema, written⟩, hi, hschema, hrows⟩ := hfresh.rows ht
    obtain rfl : schema = t.schema := hschema
    rw [hi, Option.map_some]
    refine hafter.fresh hfresh ht hi rfl Set.subset_union_left fun e he => ?_
    rcases hes e he with rfl | ⟨assignments, m, hassign, hlive, hwhere, rfl | ⟨rid', rfl⟩⟩
    · exact trivial
    · exact trivial
    · exact fun hconf => Or.inr ⟨assignments, hassign, ⟨m.2, hrows m.1 m.2 hlive, hwhere, rfl⟩, hconf⟩

theorem Fresh.delete (hfresh : Fresh db v w) {stmt : DeleteStmt} (h : DeleteOutcome stmt db v r db') :
    ∃ v', Fresh db' v' w := by
  rcases h with ⟨-, -, rfl⟩ | ⟨t, t', rows, ht, -, hafter, -⟩
  · exact ⟨v, hfresh⟩
  · obtain ⟨i, hi, -, -⟩ := hfresh.rows ht
    have hkeep := hafter.fresh hfresh ht hi rfl Set.Subset.rfl fun e he => by
      obtain ⟨m, -, rfl⟩ := List.mem_map.mp he
      exact trivial
    rwa [← hi, Function.update_eq_self] at hkeep

/-! ### SELECT -/

/-- What `GetRow` reads behind an id of any page. -/
def fetched (st : Store) (schema : Schema) (rid : RecordId) : Option Row :=
  match st.get? rid.pageId with
  | none => none
  | some page =>
    match SlottedPage.getRecord page rid.slotId with
    | none | some none => none
    | some (some bytes) =>
      match (RecordCodec.decode schema bytes).run with
      | .ok (.ok row) => some row
      | _ => none

theorem fetched_length {st : Store} {schema : Schema} {rid : RecordId} {row : Row}
    (h : fetched st schema rid = some row) : row.length = schema.columnCount := by
  unfold fetched at h
  split at h
  · cases h
  · split at h
    · cases h
    · cases h
    · rename_i bytes _
      obtain ⟨r, hdec, hlen⟩ := RecordCodec.decode_checked schema bytes
      rw [hdec] at h
      cases r with
      | error e => cases h
      | ok row' =>
        obtain rfl := Option.some.inj h
        exact hlen _ rfl

/-- Reading does not change the pages, and depends on nothing else. -/
theorem getRow_fetched (rm : RecordManager) (st : Store) (rid : RecordId) :
    (rm.getRow rid : Prog PageId Page Empty (Result Row)).wp (fun _ => True) (fun _ _ => True)
      (fun r st' => st' = st ∧ ∀ row, r = .ok row ↔ fetched st rm.schema rid = some row) st := by
  unfold RecordManager.getRow HeapFile.getRecordBytes fetched
  simp only [Prog.wp_bind, Prog.wp_fetch?, Store.fetchPage_eq]
  cases st.get? rid.pageId with
  | none => exact ⟨rfl, fun row => by simp⟩
  | some page =>
    dsimp only
    cases SlottedPage.getRecord page rid.slotId with
    | none => exact trivial
    | some record =>
      rw [Prog.wp_bind, Prog.wp_access rfl]
      cases record with
      | none => exact ⟨rfl, fun row => by simp⟩
      | some bytes =>
        obtain ⟨r, hdec, -⟩ := RecordCodec.decode_checked rm.schema bytes
        simp only [Prog.wp_bind, Prog.wp_unpin, Store.unpinPage_eq, Prog.wp_pure]
        rw [Prog.wp_check hdec, hdec]
        refine ⟨rfl, fun row => ?_⟩
        cases r with
        | error e => exact iff_of_false (by simp) fun h => by cases h
        | ok row' =>
          rw [Except.ok.injEq]
          exact Option.some_inj.symm

/-- `GetRow` on an id of any page. -/
theorem reads_fetched (ht : v.tables name = some t) (rid : RecordId) :
    Reads (fun _ => True) (Reading db₀ v) name (fetched db₀.dataPool t.schema) rid := by
  intro x hx
  have hpool : x.dataPool = db₀.dataPool := by
    obtain ⟨o, rfl⟩ := hx.same
    rfl
  unfold TableManager.getRow
  rw [wp_bind]
  refine requireTable_wp hx.inv.tables _ ht ?_
  intro rm o hschema _ _ ho
  rw [post_ok, wp_bind]
  refine Database.wp_onData (getRow_fetched rm _ rid) ?_
  rintro r _ ⟨rfl, hr⟩
  rw [← hpool, ← hschema]
  exact ⟨hx.open ho, hr⟩

/-- No row satisfies a WHERE clause that compares a column the table does not have. -/
theorem indexOf_of_holds {schema : Schema} {row : Row} {e : Expr} {conj : IndexableConjunct}
    (hconj : extractIndexableConjunct e = some conj) (h : Holds schema row e) :
    schema.indexOf conj.column ≠ none := by
  intro hnone
  have hcol : ∃ status, evaluate schema row (.column conj.column) = throw status := by
    rw [evaluate, hnone]
    exact ⟨_, rfl⟩
  obtain ⟨status, hcol⟩ := hcol
  obtain ⟨hand, hor, rfl | ⟨op, hand', hor', -, rfl⟩⟩ := extract_some hconj
  · rw [holds_iff, evaluate_comparison hand hor, hcol, Checked.throw_bind] at h
    exact Checked.throw_ne_pure _ _ h
  · have hlit : evaluate schema row (.literal (.int64 conj.value)) = pure (.int64 conj.value) := rfl
    rw [holds_iff, evaluate_comparison hand' hor', hlit, pure_bind, hcol, Checked.throw_bind] at h
    exact Checked.throw_ne_pure _ _ h

section Source

variable {allow : Fault → Prop} {I : Database σ → Prop} {stmt : SelectStmt} {schema : Schema}
  {ts : List Tuple}

omit [LawfulIndexPool σ] in
/-- The source of a SELECT hands out tuples of its scan that satisfy the WHERE clause. -/
theorem sourcePlan_subset (stmt : SelectStmt) (path : AccessPath)
    (hscan : Produces allow I (path.scan stmt.tableName) ⟨ts, none, none⟩ db)
    (hfits : ∀ tuple ∈ ts, tuple.Fits schema) :
    ∃ source, Produces allow I (sourcePlan stmt schema path) source db ∧ source.items ⊆ ts ∧
      ∀ w, stmt.where? = some w → ∀ tuple ∈ source.items, Holds schema tuple.values w := by
  cases hw : stmt.where? with
  | none =>
    refine ⟨⟨ts, none, none⟩, ?_, List.Subset.refl _, fun w h => nomatch h⟩
    rw [sourcePlan, hw]
    exact hscan
  | some w =>
    refine ⟨_, sourcePlan_produces hw hscan hfits, (filterItems_sublist w schema ts).subset, ?_⟩
    intro w' hsame tuple htuple
    obtain rfl := Option.some.inj hsame
    have hmem := (filterItems_sublist w schema ts).subset htuple
    exact (passes_iff (hfits tuple hmem)).mp (filterItems_passes htuple)

theorem mem_readTuples {read : RecordId → Option Row} {rids : List RecordId} {tuple : Tuple}
    (h : tuple ∈ readTuples read rids) : read tuple.rid = some tuple.values := by
  obtain ⟨rid, -, hmap⟩ := List.mem_filterMap.mp h
  obtain ⟨row, hrow, rfl⟩ := Option.map_eq_some_iff.mp hmap
  exact hrow

/-- The source of a SELECT.  It hands out rows of the table, if the entries of the indexes lead to them. -/
theorem source_produces (h : DbInv db v) (ht : v.tables stmt.tableName = some t) :
    ∃ source, Produces (fun _ => True) (Reading db v) (sourcePlan stmt t.schema (accessPath
        (chooseIndex (db.catalog.getIndexesForTable stmt.tableName) stmt.where?))) source db ∧
      (∀ tuple ∈ source.items, tuple.Fits t.schema) ∧
      ((∀ idx ∈ db.catalog.getIndexesForTable stmt.tableName, EntriesIn t v.bags idx) →
        ∀ tuple ∈ source.items, t.rows tuple.rid = some tuple.values) := by
  have hfits : ∀ {tuple : Tuple}, t.rows tuple.rid = some tuple.values → tuple.Fits t.schema :=
    fun hrow => ((h.tables.at ht).conforms hrow).length_eq
  cases hchoice : chooseIndex (db.catalog.getIndexesForTable stmt.tableName) stmt.where? with
  | none =>
    obtain ⟨rows, hlists, hscan⟩ := seqScan_produces (fun _ => True) h ht
    have hrows : ∀ tuple ∈ rows.map toTuple, t.rows tuple.rid = some tuple.values := by
      intro tuple htuple
      obtain ⟨r, hr, rfl⟩ := List.mem_map.mp htuple
      exact (hlists.mem_iff r.1 r.2).mp hr
    obtain ⟨source, hsource, hsub, -⟩ := sourcePlan_subset stmt .seqScan hscan
      fun tuple htuple => hfits (hrows tuple htuple)
    exact ⟨source, hsource, fun tuple htuple => hfits (hrows tuple (hsub htuple)),
      fun _ tuple htuple => hrows tuple (hsub htuple)⟩
  | some r =>
    obtain ⟨conj, idx⟩ := r
    obtain ⟨hidx, hname, w', e, hw', he, hconj⟩ := chooseIndex_some hchoice
    obtain ⟨-, iname, hfind⟩ := mem_getIndexesForTable.mp hidx
    obtain ⟨b, hb⟩ := h.indexes.present hfind
    obtain ⟨rids, hcand, hmem, -⟩ := candidates_exec h hb conj.lookup
    by_cases hin : t.schema.indexOf idx.columnName ≠ none ∧ EntriesIn t v.bags idx
    · -- the candidates are ids of the table
      have hread : ∀ rid ∈ rids, Reads (fun _ => True) (Reading db v) stmt.tableName t.rows rid := by
        intro rid hrid
        obtain ⟨key, hkey⟩ := hmem rid hrid
        exact reads_rows ht (hin.2 hin.1 b hb _ hkey)
      obtain ⟨source, hsource, hsub, -⟩ := sourcePlan_subset stmt (accessPath (some (conj, idx)))
        (indexScan_produces hcand hread (.refl h)) fun tuple htuple => hfits (mem_readTuples htuple)
      exact ⟨source, hsource, fun tuple htuple => hfits (mem_readTuples (hsub htuple)),
        fun _ tuple htuple => mem_readTuples (hsub htuple)⟩
    · -- whatever the candidates are, nothing passes a filter on a column that is not there
      obtain ⟨source, hsource, hsub, hholds⟩ := sourcePlan_subset stmt (accessPath (some (conj, idx)))
        (indexScan_produces hcand (fun rid _ => reads_fetched ht rid) (.refl h))
        fun tuple htuple => fetched_length (mem_readTuples htuple)
      refine ⟨source, hsource, fun tuple htuple => fetched_length (mem_readTuples (hsub htuple)), ?_⟩
      intro hentries tuple htuple
      have hcol : t.schema.indexOf conj.column = none := by
        rw [← hname]
        exact not_not.mp fun hne => hin ⟨hne, hentries idx hidx⟩
      have hconjunct := (holds_iff_flattenAnd w').mp (hholds w' hw' tuple htuple) e he
      exact absurd hcol (indexOf_of_holds hconj hconjunct)

end Source

/-- The tuples that the scan and the filter of a SELECT hand out, with the ids they were read at. -/
def SourceOf (stmt : SelectStmt) (db : Database σ) (schema : Schema) (source : TupleStream) : Prop :=
  ∃ path I, (chooseAccessPath stmt).exec db = .ok (.ok path, db) ∧ I db ∧
    Produces (fun _ => True) I (sourcePlan stmt schema path) source db

/-- What a SELECT does: it changes nothing, and answers from rows of its table, if the entries of the
indexes lead to them. -/
def SelectOutcome (stmt : SelectStmt) (db : Database σ) (v : DbView) (r : Result QueryResult)
    (db' : Database σ) : Prop :=
  Reading db v db' ∧ ∀ res, r = .ok res → ∃ t source, v.tables stmt.tableName = some t ∧
    SourceOf stmt db t.schema source ∧
    ((∀ idx ∈ db.catalog.getIndexesForTable stmt.tableName, EntriesIn t v.bags idx) →
      ∀ tuple ∈ source.items, t.rows tuple.rid = some tuple.values) ∧
    selectRows stmt t.schema source = .ok res.rows

theorem executeSelect_wp (h : DbInv db v) (stmt : SelectStmt) :
    wp (fun _ => True) (executeSelect stmt) (SelectOutcome stmt db v) db := by
  have hrefl := Reading.refl h
  unfold executeSelect
  rw [wp_bind]
  refine requireSchema_wp h _ (fun e _ => ⟨hrefl, fun res hres => nomatch hres⟩) ?_
  intro t ht
  rw [post_ok]
  by_cases hmixed : SelectList.aggregates stmt.items ≠ [] ∧ SelectList.anyPlain stmt.items = true
  · rw [if_pos hmixed]
    exact ⟨hrefl, fun res hres => nomatch hres⟩
  · rw [if_neg hmixed, wp_bind]
    have hpath := chooseAccessPath_exec h stmt
    refine Action.wp_of_exec hpath ?_
    obtain ⟨source, hsource, hfits, hrows⟩ := source_produces h ht
    refine Action.wp_mono ?_ (runPlan_wp hsource hrefl hfits)
    rintro r db' ⟨hreading, rfl⟩
    refine ⟨hreading, fun res hres =>
      ⟨t, source, ht, ⟨_, _, hpath, hrefl, hsource⟩, hrows, ?_⟩⟩
    unfold selectResult at hres
    cases hselect : selectRows stmt t.schema source with
    | error e =>
      rw [hselect] at hres
      cases hres
    | ok rows =>
      rw [hselect] at hres
      rw [← Except.ok.inj hres]

/-- A statement keeps the tables fresh, if a CREATE TABLE does not find entries. -/
theorem Fresh.step (hfresh : Fresh db v w) {stmt : Statement}
    (hempty : ∀ create res, stmt = .createTable create → r = .ok res → EmptyTrees db create)
    (h : execStatement db stmt = .ok (r, db')) : ∃ v', Fresh db' v' (w.after (stmt, r)) := by
  have hinv := hfresh.inv
  cases stmt with
  | createTable stmt =>
    exact hfresh.createTable (of_wp (executeCreateTable_wp hinv stmt) h)
      fun ⟨res, hres⟩ => hempty stmt res rfl hres
  | dropTable name => exact hfresh.dropTable (of_wp (executeDropTable_wp hinv name) h)
  | createIndex stmt => exact hfresh.createIndex (of_wp (executeCreateIndex_wp hinv stmt) h)
  | dropIndex name => exact ⟨v, hfresh.dropIndex (of_wp (executeDropIndex_wp hinv name) h)⟩
  | insert stmt => exact hfresh.insert (of_wp (executeInsert_wp hinv stmt) h)
  | update stmt => exact hfresh.update (of_wp (executeUpdate_wp hinv stmt) h)
  | delete stmt => exact hfresh.delete (of_wp (executeDelete_wp hinv stmt) h)
  | select stmt =>
    obtain ⟨hreading, -⟩ := of_wp (executeSelect_wp hinv stmt) h
    obtain ⟨o, rfl⟩ := hreading.same
    exact ⟨v, hreading.inv, hfresh.rows, hfresh.entries⟩

/-! ### Histories -/

/-- A CREATE TABLE of the history finds no entries on its columns. -/
def CreatesFresh (db₀ : Database σ) (before : List (Statement × Result QueryResult))
    (stmt : Statement) (r : Result QueryResult) : Prop :=
  ∀ create res db, stmt = .createTable create → r = .ok res → Run execStatement db₀ before db →
    EmptyTrees db create

theorem Fresh.run (hstart : ∃ v, Fresh db₀ v fun _ => none)
    {history : List (Statement × Result QueryResult)} (hrun : Run execStatement db₀ history db)
    (hguard : Guarded (CreatesFresh db₀) history) : ∃ v, Fresh db v (incarnations history) := by
  refine (hrun.invariant (fun history db => Run execStatement db₀ history db ∧
    ∃ v, Fresh db v (incarnations history)) ⟨.nil, hstart⟩ ?_ hguard).2
  rintro before db₁ stmt r db₂ ⟨hrun₁, v, hfresh⟩ hcreates hexec
  rw [incarnations_snoc]
  exact ⟨hrun₁.snoc hexec, hfresh.step
    (fun create res hstmt hres => hcreates create res db₁ hstmt hres hrun₁) hexec⟩

/-- **No rows of a dropped table.**  Take any history on a new database, with B+trees as indexes, in which
every CREATE TABLE that succeeds finds no entries in the indexes that the catalog has for its name and
its columns.  Then a SELECT that succeeds is computed from the tuples that its own scan hands out.  Each of
them, with the id it was read at, is a row that a scan of the table returns at that time, and INSERT and
UPDATE statements have made these rows in the table since it was last created. -/
theorem select_reads_written {order : CatalogOrder} {openTables : UnorderedMap Str RecordManager}
    (hopen : openTables.entries = []) {db₀ db : Database Store}
    (hcreate : Database.create order openTables Store.new = .ok db₀)
    {history : List (Statement × Result QueryResult)} (hrun : Run execStatement db₀ history db)
    (hguard : Guarded (CreatesFresh db₀) history) {stmt : SelectStmt} {res : QueryResult}
    {db' : Database Store} (hselect : execStatement db (.select stmt) = .ok (.ok res, db')) :
    ∃ i rows db₁ source, incarnations history stmt.tableName = some i ∧
      (TableManager.scan stmt.tableName).exec db = .ok (.ok rows, db₁) ∧
      (∀ r ∈ rows, r.2 ∈ i.written) ∧ SourceOf stmt db i.schema source ∧
      (∀ tuple ∈ source.items, (tuple.rid, tuple.values) ∈ rows) ∧
      selectRows stmt i.schema source = .ok res.rows := by
  have hnew := create_inv hopen (HoldsTrees.init Store.new) hcreate
  have hstart : ∃ v, Fresh db₀ v fun _ => none := by
    refine ⟨_, hnew.1, ?_, ?_⟩
    · intro name t ht
      cases ht
    · intro name t ht
      cases ht
  obtain ⟨v, hfresh⟩ := Fresh.run hstart hrun hguard
  obtain ⟨-, hres⟩ := Action.of_wp (executeSelect_wp hfresh.inv stmt) hselect
  obtain ⟨t, source, ht, hsource, hrows, hselected⟩ := hres res rfl
  obtain ⟨i, hi, hschema, hwritten⟩ := hfresh.rows ht
  obtain ⟨rows, db₁, hscan, hlists⟩ := scan_exec hfresh.inv ht
  refine ⟨i, rows, db₁, source, hi, hscan, fun r hr => ?_, hschema ▸ hsource, fun tuple htuple => ?_, ?_⟩
  · exact hwritten r.1 r.2 ((hlists.mem_iff r.1 r.2).mp hr)
  · exact (hlists.mem_iff _ _).mpr (hrows (hfresh.entries ht) tuple htuple)
  · rw [hschema]
    exact hselected

/-- The first CREATE TABLE of a new database. -/
theorem createsFresh_nil {order : CatalogOrder} {openTables : UnorderedMap Str RecordManager}
    (hopen : openTables.entries = []) {db₀ : Database Store}
    (hcreate : Database.create order openTables Store.new = .ok db₀) (stmt : Statement)
    (r : Result QueryResult) : CreatesFresh db₀ [] stmt r := by
  intro create res db _ _ hrun idx hidx
  have hnew := create_inv hopen (HoldsTrees.init Store.new) hcreate
  obtain ⟨-, name, hfind⟩ := mem_getIndexesForTable.mp hidx
  rw [hrun.unique .nil, ← UnorderedMap.mem_entries_iff, hnew.2] at hfind
  cases hfind

/-- The trees of the indexes that the catalog has for a table are empty. -/
def treesEmpty (name : Str) (db : Database Store) : Bool :=
  (db.catalog.getIndexesForTable name).all fun idx =>
    match IndexPool.rangeScan idx.metaPageId none true none true db.indexPool with
    | .ok (.ok es, _) => es.isEmpty
    | _ => false

theorem emptyTrees_of_treesEmpty {db : Database Store} {stmt : CreateTableStmt}
    (h : treesEmpty stmt.tableName db = true) : EmptyTrees db stmt := by
  intro idx hidx _
  have hall := List.all_eq_true.mp h idx hidx
  split at hall
  · rename_i es pool heq
    obtain rfl := List.isEmpty_iff.mp hall
    exact ⟨pool, heq⟩
  · cases hall

/-- `CREATE TABLE t (a INT)`. -/
def createT : Statement × Result QueryResult :=
  (.createTable ⟨lit "t", intColumn, intColumn_ne⟩,
    .ok { message := lit "CREATE TABLE" })

/-- `CREATE INDEX i ON t (a)`. -/
def createI : Statement × Result QueryResult :=
  (.createIndex ⟨lit "i", lit "t", lit "a"⟩, .ok { message := lit "CREATE INDEX" })

/-- `INSERT INTO t VALUES (7)`. -/
def insertSeven : Statement × Result QueryResult :=
  (.insert ⟨lit "t", [], [[.int64 7]]⟩, .ok { rowsAffected := 1, message := lit "INSERT 0 1" })

/-- `DROP TABLE t`. -/
def dropT : Statement × Result QueryResult :=
  (.dropTable (lit "t"), .ok { message := lit "DROP TABLE" })

/-- A table with an index is emptied and dropped. -/
def emptiedFirst : List (Statement × Result QueryResult) := [createT, createI, insertSeven,
  (.delete ⟨lit "t", none⟩, .ok { rowsAffected := 1, message := lit "DELETE 1" }), dropT]

/-- `SELECT * FROM t WHERE a = 7`. -/
def equalSeven : SelectStmt where
  items := .star
  tableName := lit "t"
  where? := some (.binary (.column (lit "a")) .eq (.literal (.int64 7)))
  orderBy := none
  limit := none

theorem select_reads_written_emptiedFirst : ∃ db₀ db res db' i rows db₁ source,
    Database.create insertionOrder noTables Store.new = .ok db₀ ∧
    Run execStatement db₀ (emptiedFirst ++ [createT] ++ [insertSeven]) db ∧
    execStatement db (.select equalSeven) = .ok (.ok res, db') ∧
    res.rows = [[.int32 7]] ∧ res.scanStrategy = lit "IndexScan(i)" ∧
    incarnations (emptiedFirst ++ [createT] ++ [insertSeven]) (lit "t") = some i ∧
    (TableManager.scan (lit "t")).exec db = .ok (.ok rows, db₁) ∧ (∀ r ∈ rows, r.2 ∈ i.written) ∧
    SourceOf equalSeven db i.schema source ∧ (∀ tuple ∈ source.items, (tuple.rid, tuple.values) ∈ rows) ∧
    selectRows equalSeven i.schema source = .ok res.rows := by
  obtain ⟨db₀, db, hcreate, hrun, hcheck⟩ :=
    exists_session Store.new (emptiedFirst ++ [createT] ++ [insertSeven])
      (fun db => decide ((answer (execStatement db (.select equalSeven))).map
        (fun res => (res.rows, res.scanStrategy)) = some ([[.int32 7]], lit "IndexScan(i)")))
      (by decide +kernel)
  obtain ⟨res, hres, hpair⟩ := Option.map_eq_some_iff.mp (of_decide_eq_true hcheck)
  obtain ⟨hrows, hstrategy⟩ := Prod.mk.inj hpair
  obtain ⟨db', hexec⟩ := answer_eq_some.mp hres
  -- the second CREATE TABLE finds an empty tree
  have hagain : CreatesFresh db₀ emptiedFirst createT.1 createT.2 := by
    obtain ⟨db₁, db₂, hcreate', hrun', hempty⟩ :=
      exists_session Store.new emptiedFirst (treesEmpty (lit "t")) (by decide +kernel)
    rw [hcreate] at hcreate'
    obtain rfl := Except.ok.inj hcreate'
    intro create res db₃ hstmt _ hrun₃
    obtain rfl := hrun'.unique hrun₃
    obtain rfl := Statement.createTable.inj hstmt
    exact emptyTrees_of_treesEmpty hempty
  have hfirst : Guarded (CreatesFresh db₀) emptiedFirst := by
    have hother : ∀ before, ∀ c ∈ emptiedFirst.tail, CreatesFresh db₀ before c.1 c.2 := by
      intro before c hc create res db₁ hstmt
      simp only [emptiedFirst, List.tail_cons, List.mem_cons, List.not_mem_nil, or_false] at hc
      rcases hc with rfl | rfl | rfl | rfl <;> cases hstmt
    intro before o r after heq
    cases before with
    | nil => exact createsFresh_nil rfl hcreate o r
    | cons c before =>
      refine hother _ (o, r) ?_
      rw [heq, List.cons_append, List.tail_cons]
      simp
  have hguard : Guarded (CreatesFresh db₀) (emptiedFirst ++ [createT] ++ [insertSeven]) :=
    guarded_snoc.mpr ⟨guarded_snoc.mpr ⟨hfirst, hagain⟩, fun _ _ _ hstmt => nomatch hstmt⟩
  obtain ⟨i, rows, db₁, source, h⟩ := select_reads_written rfl hcreate hrun hguard hexec
  exact ⟨db₀, db, res, db', i, rows, db₁, source, hcreate, hrun, hexec, hrows, hstrategy, h⟩

/-- A SELECT on a table to which nothing was written returns a row of the table that was dropped. -/
theorem recreated_reads_old_row : ∃ db₀ db res db' i,
    Database.create insertionOrder noTables Store.new = .ok db₀ ∧
    Run execStatement db₀ [createT, createI, insertSeven, dropT, createT] db ∧
    execStatement db (.select equalSeven) = .ok (.ok res, db') ∧ res.rows = [[.int32 7]] ∧
    incarnations [createT, createI, insertSeven, dropT, createT] (lit "t") = some i ∧
    i.written = ∅ := by
  obtain ⟨db₀, db, hcreate, hrun, hcheck⟩ :=
    exists_session Store.new [createT, createI, insertSeven, dropT, createT]
      (fun db => decide ((answer (execStatement db (.select equalSeven))).map QueryResult.rows
        = some [[.int32 7]])) (by decide +kernel)
  obtain ⟨res, hres, hrows⟩ := Option.map_eq_some_iff.mp (of_decide_eq_true hcheck)
  obtain ⟨db', hexec⟩ := answer_eq_some.mp hres
  refine ⟨db₀, db, res, db', ⟨⟨intColumn⟩, ∅⟩, hcreate, hrun, hexec, hrows, ?_, rfl⟩
  show incarnations ([createT, createI, insertSeven, dropT] ++ [createT]) (lit "t") = _
  rw [incarnations_snoc, createT, Incarnations.after, Function.update_self]

end MiniDB.Executor
