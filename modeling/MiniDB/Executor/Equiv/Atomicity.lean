import MiniDB.Executor.Equiv.StoredRows

/-!
# What a failed statement leaves behind

INSERT, UPDATE and DELETE deal with their rows one by one, and none of them takes back what it has done
to earlier rows when a later one fails.  So a failed statement has changed nothing if and only if it was
stopped at its first row: an INSERT by a first row that cannot be stored, an UPDATE by a first match whose
new row is rejected before the old one is touched.  A DELETE only fails if there is no table.

For UPDATE this uses that the new rows of a statement resemble each other.  They differ only in columns
whose old values stay, so they conform all or none, and once one of them fits a page the others are far
from the limit of the codec.  What fails later is then a row that is too long for a page, and it is lost.
-/

namespace MiniDB.Executor

open Paged Effect BPlusTree TableManager CatalogManager RecordCodec HeapFile Runs
open Relational (satisfies)
open Effect.Action (of_wp post post_ok wp wp_bind wp_mono_post wp_ofResult)

/-! ### The new rows of an UPDATE -/

section Assigned

variable {n : Nat} (assignments : List (Fin n × Value)) {row row' : Row} {schema : Schema}

theorem length_assigned (row : Row) : (assigned assignments row).length = row.length := by
  unfold assigned
  induction assignments generalizing row with
  | nil => rfl
  | cons a assignments ih => rw [List.foldl_cons, ih, List.length_set]

/-- The new values of two rows in one column are the same, or they are the old values. -/
theorem assigned_cases (hlen : row.length = row'.length) (i : Nat) :
    (assigned assignments row)[i]? = (assigned assignments row')[i]? ∨
      (assigned assignments row)[i]? = row[i]? ∧ (assigned assignments row')[i]? = row'[i]? := by
  unfold assigned
  induction assignments generalizing row row' with
  | nil => exact .inr ⟨rfl, rfl⟩
  | cons a assignments ih =>
    simp only [List.foldl_cons]
    have hset : (row.set a.1 a.2).length = (row'.set a.1 a.2).length := by simp [hlen]
    rcases ih hset with hsame | ⟨hnew, hnew'⟩
    · exact .inl hsame
    · by_cases hi : a.1.val = i
      · left
        rw [hnew, hnew', List.getElem?_set, List.getElem?_set, if_pos hi, if_pos hi, hlen]
      · right
        rw [hnew, hnew', List.getElem?_set_ne hi, List.getElem?_set_ne hi]
        exact ⟨rfl, rfl⟩

/-- New rows conform all or none. -/
theorem conforms_assigned (h : RowConforms schema row) (h' : RowConforms schema row')
    (hnew : RowConforms schema (assigned assignments row')) :
    RowConforms schema (assigned assignments row) := by
  have hlen : row.length = row'.length := h.length_eq.trans h'.length_eq.symm
  refine List.forall₂_iff_get.mpr ⟨by rw [length_assigned]; exact h.length_eq.symm, ?_⟩
  intro i hi hi'
  have hi₁ : i < row.length := by rwa [length_assigned] at hi'
  have hi₂ : i < (assigned assignments row').length := by rwa [length_assigned, ← hlen]
  rw [List.get_eq_getElem, List.get_eq_getElem]
  rcases assigned_cases assignments hlen i with hsame | ⟨hold, -⟩
  · rw [List.getElem?_eq_getElem hi', List.getElem?_eq_getElem hi₂, Option.some.injEq] at hsame
    rw [hsame]
    exact List.Forall₂.get hnew hi hi₂
  · rw [List.getElem?_eq_getElem hi', List.getElem?_eq_getElem hi₁, Option.some.injEq] at hold
    rw [hold]
    exact List.Forall₂.get h hi hi₁

theorem length_bodyBytes_tail_le (row : Row) :
    (bodyBytes row.tail).length ≤ (bodyBytes row).length := by
  cases row with
  | nil => exact Nat.le_refl _
  | cons v vs => simp [bodyBytes]

/-- A row whose values come from two rows is no longer than both together. -/
theorem length_bodyBytes_le {vs us ws : Row} (h : ∀ i : Nat, vs[i]? = us[i]? ∨ vs[i]? = ws[i]?) :
    (bodyBytes vs).length ≤ (bodyBytes us).length + (bodyBytes ws).length := by
  induction vs generalizing us ws with
  | nil => exact Nat.zero_le _
  | cons v vs ih =>
    have htail : ∀ i : Nat, vs[i]? = us.tail[i]? ∨ vs[i]? = ws.tail[i]? := by
      intro i
      have hi := h (i + 1)
      rwa [List.getElem?_cons_succ, ← List.getElem?_tail, ← List.getElem?_tail] at hi
    have hrest := ih htail
    have hus := length_bodyBytes_tail_le us
    have hws := length_bodyBytes_tail_le ws
    have hv : (bodyBytes (v :: vs)).length = (valueBytes v).length + (bodyBytes vs).length := by
      simp [bodyBytes]
    rcases h 0 with h0 | h0
    · cases us with
      | nil => simp at h0
      | cons u us =>
        obtain rfl : v = u := by simpa using h0
        simp only [bodyBytes, List.flatMap_cons, List.length_append, List.tail_cons] at *
        omega
    · cases ws with
      | nil => simp at h0
      | cons w ws =>
        obtain rfl : v = w := by simpa using h0
        simp only [bodyBytes, List.flatMap_cons, List.length_append, List.tail_cons] at *
        omega

/-- If one of the new rows can be stored, none is rejected. -/
theorem not_rejected_assigned (h : Storable schema row) (h' : Storable schema row')
    (hnew : Storable schema (assigned assignments row')) :
    ¬ Rejected schema (assigned assignments row) := by
  obtain ⟨bs, henc, hle⟩ := h
  obtain ⟨bs', henc', -⟩ := h'
  obtain ⟨cs, hcs, hcs_le⟩ := hnew
  have hconf := encode_ok_iff.mp ⟨bs, henc⟩
  have hconf' := encode_ok_iff.mp ⟨bs', henc'⟩
  obtain ⟨ds, hds⟩ := encode_ok_iff.mpr
    (conforms_assigned assignments hconf hconf' (encode_ok_iff.mp ⟨cs, hcs⟩))
  have hlen : row.length = row'.length := hconf.length_eq.trans hconf'.length_eq.symm
  have hbody : (bodyBytes (assigned assignments row)).length
      ≤ (bodyBytes row).length + (bodyBytes (assigned assignments row')).length :=
    length_bodyBytes_le fun i => (assigned_cases assignments hlen i).symm.imp And.left id
  intro hrejected
  have hlong := hrejected ds hds
  rw [length_of_encode hds] at hlong
  rw [length_of_encode henc] at hle
  rw [length_of_encode hcs] at hcs_le
  have hmax : kMaxRecordSize = 4080 := rfl
  omega

end Assigned

/-! ### Contents -/

variable {σ : Type} [IndexPool σ] [LawfulIndexPool σ] {db db' : Database σ} {v : DbView}
  {name : Str} {t t' : TableView} {es : List RowEvent} {rid : RecordId} {e : Status}

/-- The rows a scan of the table finds, with their ids. -/
def rowsOf (db : Database σ) (name : Str) : Except Fault (Result (Multiset (RecordId × Row))) :=
  ((TableManager.scan name).exec db).map fun p => p.1.map Multiset.ofList

/-- The entries a scan of the tree finds. -/
def entriesOf (db : Database σ) (tree : PageId) : Except Fault (Result Bag) :=
  (IndexPool.rangeScan tree none true none true db.indexPool).map fun p => p.1.map Multiset.ofList

/-- The table has the same rows in both databases, and the same indexes with the same entries. -/
structure SameContents (name : Str) (db db' : Database σ) : Prop where
  rows : rowsOf db' name = rowsOf db name
  indexes : db'.catalog.getIndexesForTable name = db.catalog.getIndexesForTable name
  entries : ∀ idx ∈ db.catalog.getIndexesForTable name,
    entriesOf db' idx.metaPageId = entriesOf db idx.metaPageId

omit [LawfulIndexPool σ] in
theorem SameContents.refl (name : Str) (db : Database σ) : SameContents name db db :=
  ⟨rfl, rfl, fun _ _ => rfl⟩

theorem rowsOf_eq (h : DbInv db v) (ht : v.tables name = some t) :
    ∃ rows, rowsOf db name = .ok (.ok (Multiset.ofList rows)) ∧ Lists rows t.rows := by
  obtain ⟨rows, db', hexec, hlists⟩ := scan_exec h ht
  exact ⟨rows, by rw [rowsOf, hexec]; rfl, hlists⟩

theorem rowsOf_eq_iff {v' : DbView} (h : DbInv db v) (ht : v.tables name = some t)
    (h' : DbInv db' v') (ht' : v'.tables name = some t') :
    rowsOf db' name = rowsOf db name ↔ t'.rows = t.rows := by
  obtain ⟨rows, hrows, hlists⟩ := rowsOf_eq h ht
  obtain ⟨rows', hrows', hlists'⟩ := rowsOf_eq h' ht'
  rw [hrows, hrows', Except.ok.injEq, Except.ok.injEq, Multiset.coe_eq_coe]
  constructor
  · intro hperm
    exact (hlists'.of_perm hperm).unique hlists
  · intro heq
    rw [heq] at hlists'
    exact hlists'.perm hlists

theorem entriesOf_eq (h : DbInv db v) {tree : PageId} {b : Bag} (hb : v.bags tree = some b) :
    entriesOf db tree = .ok (.ok b) := by
  obtain ⟨es, hexec, rfl⟩ := LawfulIndexPool.scanAll h.indexes.holds hb
  rw [entriesOf, hexec]
  rfl

/-- A statement that has only added pages has kept the contents. -/
theorem After.sameContents (h : DbInv db v) (ht : v.tables name = some t)
    (hafter : After db v name t es t' db') (hes : ∀ e ∈ es, e = .grow) : SameContents name db db' := by
  obtain ⟨⟨bags', hsteps, hinv⟩, hcat⟩ := hafter
  have hsame : t'.rows = t.rows ∧ bags' = v.bags := by
    refine hsteps.invariant (P := fun z => z.1.rows = t.rows ∧ z.2 = v.bags) (A := (· = .grow)) ?_ hes
      ⟨rfl, rfl⟩
    rintro _ x y rfl hstep hx
    cases hstep
    exact hx
  obtain ⟨hrows, rfl⟩ := hsame
  refine ⟨(rowsOf_eq_iff h ht hinv (Function.update_self ..)).mpr hrows, by rw [hcat], ?_⟩
  intro idx hidx
  obtain ⟨-, iname, hfind⟩ := mem_getIndexesForTable.mp hidx
  obtain ⟨b, hb⟩ := h.indexes.present hfind
  rw [entriesOf_eq h hb, entriesOf_eq hinv hb]

/-- A statement that has changed the row behind some id has not kept them. -/
theorem After.not_sameContents (h : DbInv db v) (ht : v.tables name = some t)
    (hafter : After db v name t es t' db') (rid : RecordId) (hne : t'.rows rid ≠ t.rows rid) :
    ¬ SameContents name db db' := by
  obtain ⟨⟨bags', -, hinv⟩, -⟩ := hafter
  intro hsame
  have hrows := (rowsOf_eq_iff h ht hinv (Function.update_self ..)).mp hsame.rows
  exact hne (by rw [hrows])

/-- Inserts leave the other rows. -/
theorem After.keeps_row (hafter : After db v name t es t' db')
    (hes : ∀ e ∈ es, e = .grow ∨ ∃ rid row, e = .insert rid row) (hrow : t.rows rid = some row) :
    t'.rows rid = some row := by
  obtain ⟨⟨bags', hsteps, -⟩, -⟩ := hafter
  refine hsteps.invariant (P := fun z => z.1.rows rid = some row)
    (A := fun e => e = .grow ∨ ∃ rid row, e = .insert rid row) ?_ hes hrow
  rintro e x y (rfl | ⟨rid', row', rfl⟩) hstep hx
  · cases hstep
    exact hx
  · cases hstep with
    | insert hfree =>
      have hne : rid ≠ rid' := by
        rintro rfl
        rw [hx] at hfree
        cases hfree
      exact (Function.update_of_ne hne ..).trans hx

/-- A statement that ends with the loss of a row has lost it. -/
theorem After.lost (hafter : After db v name t (es ++ [.lose rid]) t' db') : t'.rows rid = none := by
  obtain ⟨⟨bags', hsteps, -⟩, -⟩ := hafter
  obtain ⟨_, -, hstep⟩ := hsteps.of_snoc
  cases hstep
  exact Function.update_self ..

/-! ### Statements that are stopped at their first row -/

/-- The first row of the INSERT cannot be stored. -/
def InsertStops (stmt : InsertStmt) (db : Database σ) : Prop :=
  ∀ table targets, db.catalog.getTable stmt.tableName = some table →
    targetIndices table.schema stmt.columns = .ok targets →
    ∀ row ∈ stmt.rows.head?, ∀ full, fullRow table.schema targets row = .ok full →
      ¬ Storable table.schema full

/-- The new row of the first match of the UPDATE is rejected. -/
def UpdateStops (stmt : UpdateStmt) (db : Database σ) : Prop :=
  ∀ table assignments matched db₁, db.catalog.getTable stmt.tableName = some table →
    resolveAssignments table.schema stmt.assignments = .ok assignments →
    (collectMatches stmt.tableName stmt.where? table.schema).exec db = .ok (.ok matched, db₁) →
    ∀ m ∈ matched.head?, Rejected table.schema (assigned assignments m.2)

/-- The statement is stopped at its first row.  A DELETE is never stopped at a row. -/
def StopsAtOnce (db : Database σ) : Statement → Prop
  | .insert stmt => InsertStops stmt db
  | .update stmt => UpdateStops stmt db
  | _ => True

/-- The table of an INSERT, UPDATE or DELETE. -/
def changedTable : Statement → Option Str
  | .insert stmt => some stmt.tableName
  | .update stmt => some stmt.tableName
  | .delete stmt => some stmt.tableName
  | _ => none

/-- The rows of an INSERT into a table: if it fails, it was stopped at the first of them or has stored
that one. -/
theorem insertRows_atomic_wp (h : DbInv db v) (ht : v.tables name = some t)
    (targets : List (Fin t.schema.columnCount)) (rows : List Row) :
    wp Store.OutOfPages
      (rows.foldlM (fun n row => do insertOne name t.schema targets row; return n + 1) 0)
      (post (fun _ _ => True) fun _ db' => SameContents name db db' ↔
        ∀ row ∈ rows.head?, ∀ full, fullRow t.schema targets row = .ok full →
          ¬ Storable t.schema full) db := by
  cases rows with
  | nil => exact trivial
  | cons row rows =>
    rw [List.foldlM_cons, wp_bind, wp_bind]
    refine Action.wp_mono ?_ (insertOne_wp h ht rfl targets row)
    rintro (e | ⟨⟩) db₁ hone
    · obtain ⟨hno, es, t₁, hgrow, hafter⟩ := hone
      refine iff_of_true (hafter.sameContents h ht hgrow) fun row' hrow' => ?_
      obtain rfl := Option.some.inj hrow'
      exact hno
    · obtain ⟨full, rid, t₁, hfull, hstorable, hafter⟩ := hone
      obtain ⟨v₁, hinv₁, ht₁, hschema, hcompose⟩ := hafter.view
      -- the row is stored under an id that was free, and stays there
      have hnew : t.rows rid = none ∧ t₁.rows rid = some full := by
        obtain ⟨⟨bags₁, hsteps, -⟩, -⟩ := hafter
        cases hsteps.of_single with
        | insert hfree => exact ⟨hfree, Function.update_self ..⟩
      show wp Store.OutOfPages (rows.foldlM _ 1) _ db₁
      refine wp_mono_post (fun _ _ _ => trivial) ?_
        (insertRows_wp hinv₁ ht₁ hschema targets rows 1)
      rintro e db' ⟨es, t', hafter', hes⟩
      have hkept : t'.rows rid = some full := by
        refine hafter'.keeps_row (fun e he => (hes e he).imp_right ?_) hnew.2
        rintro ⟨_, -, full', rid', -, rfl⟩
        exact ⟨rid', full', rfl⟩
      refine iff_of_false ((hcompose _ _ _ hafter').not_sameContents h ht rid ?_)
        fun hstop => hstop row rfl full hfull hstorable
      rw [hkept, hnew.1]
      exact (nofun)

/-- A table that the catalog does not have stops every statement. -/
theorem getTable_eq_none (h : DbInv db v) (hnone : v.tables name = none) :
    db.catalog.getTable name = none := (h.tables.none_iff name).mpr hnone

theorem getTable_eq (h : DbInv db v) (ht : v.tables name = some t) :
    ∃ table : TableMetadata, db.catalog.getTable name = some { table with schema := t.schema } := by
  obtain ⟨table, htable, hschema, -⟩ := h.tables.entry_of ht
  exact ⟨table, by rw [← hschema]; exact htable⟩

theorem executeInsert_atomic_wp (h : DbInv db v) (stmt : InsertStmt) :
    wp Store.OutOfPages (executeInsert stmt) (post (fun _ _ => True) fun _ db' =>
      SameContents stmt.tableName db db' ↔ InsertStops stmt db) db := by
  unfold executeInsert
  rw [wp_bind]
  refine requireSchema_wp h _ (fun e hnone => ?_) ?_
  · refine iff_of_true (.refl ..) fun table targets htable => ?_
    rw [getTable_eq_none h hnone] at htable
    cases htable
  intro t ht
  obtain ⟨table, htable⟩ := getTable_eq h ht
  rw [post_ok, wp_bind]
  cases htargets : targetIndices t.schema stmt.columns with
  | error e =>
    refine iff_of_true (.refl ..) fun table' targets htable' htargets' => ?_
    rw [htable] at htable'
    obtain rfl := Option.some.inj htable'
    rw [htargets] at htargets'
    cases htargets'
  | ok targets =>
    rw [wp_ofResult, post_ok, wp_bind]
    refine wp_mono_post (fun _ _ _ => trivial) ?_ (insertRows_atomic_wp h ht targets stmt.rows)
    intro e db' hiff
    refine hiff.trans ⟨?_, ?_⟩
    · intro hstop table' targets' htable' htargets'
      rw [htable] at htable'
      obtain rfl := Option.some.inj htable'
      obtain rfl := Except.ok.inj (htargets.symm.trans htargets')
      exact hstop
    · exact fun hstop => hstop _ targets htable htargets

/-- What an UPDATE leaves when it fails at the match `m`. -/
def StopsAt {n : Nat} (schema : Schema) (assignments : List (Fin n × Value)) (m : RecordId × Row)
    (es : List RowEvent) : Prop :=
  Rejected schema (assigned assignments m.2) ∧ es = [.grow] ∨
    ¬ Rejected schema (assigned assignments m.2) ∧ es = [.lose m.1]

/-- The matches of an UPDATE: if it fails, it was stopped at the first of them or has lost the row where
it failed. -/
theorem updateRows_atomic_wp {db₀ : Database σ} (h : DbInv db v) (ht : v.tables name = some t)
    (assignments : List (Fin t.schema.columnCount × Value)) {ms : List (RecordId × Row)}
    (hlive : ∀ m ∈ ms, t.rows m.1 = some m.2) (hnodup : (ms.map Prod.fst).Nodup)
    (hscan : After db v name t [] t db₀) :
    wp Store.OutOfPages
      (ms.foldlM (fun n m => do updateOne name t.schema assignments m; return n + 1) 0)
      (post (fun _ _ => True) fun _ db' => SameContents name db db' ↔
        ∀ m ∈ ms.head?, Rejected t.schema (assigned assignments m.2)) db₀ := by
  have hat := h.tables.at ht
  refine wp_mono_post (fun _ _ _ => trivial) ?_ (matchLoop_wp
    (fun m e => Replaces assignments m e ∧ Storable t.schema (assigned assignments m.2))
    (StopsAt t.schema assignments) ?_ hlive hnodup hscan)
  · rintro e db' ⟨before, m, after, es, es', t', heq, hafter, hbefore, hfail⟩
    have hm : m ∈ ms := by simp [heq]
    have hold := hlive m hm
    -- a row that is lost was there before
    have hlose : es' = [.lose m.1] → ¬ SameContents name db db' := by
      rintro rfl
      refine hafter.not_sameContents h ht m.1 ?_
      rw [hafter.lost, hold]
      exact (nofun)
    cases hbefore with
    | nil =>
      rw [heq]
      rcases hfail with ⟨hrejected, rfl⟩ | ⟨hnot, hes'⟩
      · refine iff_of_true (hafter.sameContents h ht fun e he => List.mem_singleton.mp he) ?_
        intro m' hm'
        obtain rfl := Option.some.inj hm'
        exact hrejected
      · exact iff_of_false (hlose hes') fun hall => hnot (hall m rfl)
    | @cons b _ before es hb _ =>
      have hb_mem : b ∈ ms := by simp [heq]
      have hnot := not_rejected_assigned assignments (hat.storable hold)
        (hat.storable (hlive b hb_mem)) hb.2
      rw [heq]
      refine iff_of_false (hlose (hfail.resolve_left fun hr => hnot hr.1).2) fun hall => ?_
      exact (hall b rfl).not_storable hb.2
  · intro db' v' t' m _ hinv' ht' hschema hm
    refine wp_mono_post ?_ ?_ (updateOne_wp hinv' ht' hschema assignments hm)
    · rintro _ db₁ ⟨rid', t₁, hstorable, hfree, hrows, hstep⟩
      refine ⟨_, t₁, ⟨⟨rid', rfl⟩, hstorable⟩, hstep, fun rid row hne hrow => ?_⟩
      rw [hrows]
      exact replaced_other hfree hne hrow
    · rintro e db₁ ⟨es', t₁, ⟨hrejected, rfl⟩ | ⟨hnot, -, rfl⟩, hstep⟩
      · exact ⟨_, t₁, .inl ⟨hrejected, rfl⟩, hstep⟩
      · exact ⟨_, t₁, .inr ⟨hnot, rfl⟩, hstep⟩

theorem executeUpdate_atomic_wp (h : DbInv db v) (stmt : UpdateStmt) :
    wp Store.OutOfPages (executeUpdate stmt) (post (fun _ _ => True) fun _ db' =>
      SameContents stmt.tableName db db' ↔ UpdateStops stmt db) db := by
  unfold executeUpdate
  rw [wp_bind]
  refine requireSchema_wp h _ (fun e hnone => ?_) ?_
  · refine iff_of_true (.refl ..) fun table assignments matched db₁ htable => ?_
    rw [getTable_eq_none h hnone] at htable
    cases htable
  intro t ht
  obtain ⟨table, htable⟩ := getTable_eq h ht
  rw [post_ok, wp_bind]
  cases hassign : resolveAssignments t.schema stmt.assignments with
  | error e =>
    refine iff_of_true (.refl ..) fun table' assignments matched db₁ htable' hassign' => ?_
    rw [htable] at htable'
    obtain rfl := Option.some.inj htable'
    rw [hassign] at hassign'
    cases hassign'
  | ok assignments =>
    rw [wp_ofResult, post_ok, wp_bind]
    obtain ⟨_, db₀, hcollect, rows, rfl, hlists, hscan⟩ := Action.exec_of_wp
      (collectMatches_wp h ht stmt.where?
        (Q := fun r db' => ∃ rows, r = .ok (rows.filter fun r => satisfies stmt.where? t.schema r.2) ∧
          Lists rows t.rows ∧ After db v stmt.tableName t [] t db')
        fun rows db' hlists hscan => ⟨rows, rfl, hlists, hscan⟩)
    obtain ⟨hmatched, hnodup⟩ := hlists.filter (satisfies stmt.where? t.schema)
    refine Action.wp_of_exec hcollect ?_
    rw [post_ok, wp_bind]
    refine wp_mono_post (fun _ _ _ => trivial) ?_ (updateRows_atomic_wp h ht assignments
      (fun m hm => (hmatched m hm).1) hnodup hscan)
    intro e db' hiff
    refine hiff.trans ⟨?_, ?_⟩
    · intro hstop table' assignments' matched' db₁ htable' hassign' hcollect'
      rw [htable] at htable'
      obtain rfl := Option.some.inj htable'
      obtain rfl := Except.ok.inj (hassign.symm.trans hassign')
      have hsame := hcollect.symm.trans hcollect'
      cases hsame
      exact hstop
    · exact fun hstop => hstop _ assignments _ db₀ htable hassign hcollect

/-- What one INSERT, UPDATE or DELETE leaves if it fails. -/
theorem sameContents_iff_stopsAtOnce (h : DbInv db v) {stmt : Statement}
    (hname : changedTable stmt = some name) (hexec : execStatement db stmt = .ok (.error e, db')) :
    SameContents name db db' ↔ StopsAtOnce db stmt := by
  cases stmt with
  | insert stmt =>
    obtain rfl := Option.some.inj hname
    exact of_wp (executeInsert_atomic_wp h stmt) hexec
  | update stmt =>
    obtain rfl := Option.some.inj hname
    exact of_wp (executeUpdate_atomic_wp h stmt) hexec
  | delete stmt =>
    rcases of_wp (executeDelete_wp h stmt) hexec with
      ⟨-, -, rfl⟩ | ⟨t, t', rows, -, -, -, res, hres, -⟩
    · exact iff_of_true (.refl ..) trivial
    · cases hres
  | createTable stmt => cases hname
  | dropTable stmt => cases hname
  | createIndex stmt => cases hname
  | dropIndex stmt => cases hname
  | select stmt => cases hname

/-! ### Histories -/

/-- **A failed statement changes nothing if and only if it is stopped at its first row.**  After every
history of statements, take an INSERT, UPDATE or DELETE that returns an error.  The rows of its table and
the entries of all indexes of the table are the same before and after it if and only if `StopsAtOnce`: the
first row of the INSERT cannot be stored, or the new row of the first match of the UPDATE is rejected
before the old one is touched (or the table, a column or a literal is wrong, so that there is no such
row). -/
theorem failed_statement_keeps_iff {order : CatalogOrder} {openTables : UnorderedMap Str RecordManager}
    (hopen : openTables.entries = []) {db₀ db db' : Database Store}
    (hcreate : Database.create order openTables Store.new = .ok db₀)
    {history : List (Statement × Result QueryResult)} (hrun : Run execStatement db₀ history db)
    {stmt : Statement} {name : Str} (hname : changedTable stmt = some name) {e : Status}
    (hexec : execStatement db stmt = .ok (.error e, db')) :
    SameContents name db db' ↔ StopsAtOnce db stmt := by
  have hnew := create_inv hopen (HoldsTrees.init Store.new) hcreate
  obtain ⟨v, h⟩ := DbInv.run ⟨_, hnew.1⟩ hrun
  exact sameContents_iff_stopsAtOnce h hname hexec

/-- A table with an index on its only column. -/
def indexedInt : List (Statement × Result QueryResult) := [
  (.createTable ⟨lit "t", intColumn, intColumn_ne⟩,
    .ok { message := lit "CREATE TABLE" }),
  (.createIndex ⟨lit "i", lit "t", lit "a"⟩, .ok { message := lit "CREATE INDEX" })]

/-- INSERT INTO t VALUES .. with the string 'x' in the last row. -/
def insertThenString (rows : List Row) : Statement :=
  .insert ⟨lit "t", [], rows ++ [[.string (lit "x")]]⟩

/-- The answer to that. -/
def notAnInteger : Status := expected "an integer" { name := lit "a", type := .int }

/-- The answer to a statement, if it is an error. -/
def failure (x : Except Fault (Result QueryResult × Database σ)) : Option (Status × Database σ) :=
  match x with
  | .ok (.error e, db) => some (e, db)
  | _ => none

omit [IndexPool σ] [LawfulIndexPool σ] in
theorem of_failure {x : Except Fault (Result QueryResult × Database σ)} (h : failure x = some (e, db)) :
    x = .ok (.error e, db) := by
  rcases x with f | ⟨e' | r, db'⟩
  · cases h
  · cases h
    rfl
  · cases h

theorem failed_statement_keeps_iff_firstRow : ∃ db₀ db db',
    Database.create insertionOrder noTables Store.new = .ok db₀ ∧
    Run execStatement db₀ indexedInt db ∧
    execStatement db (insertThenString []) = .ok (.error notAnInteger, db') ∧
    SameContents (lit "t") db db' := by
  obtain ⟨db₀, db, hcreate, hrun, hcheck⟩ := exists_session Store.new indexedInt
    (fun db => decide ((failure (execStatement db (insertThenString []))).map Prod.fst
        = some notAnInteger ∧ (db.catalog.getTable (lit "t")).map TableMetadata.schema
        = some ⟨[{ name := lit "a", type := .int }]⟩)) (by decide +kernel)
  obtain ⟨hfail, htable⟩ := of_decide_eq_true hcheck
  obtain ⟨⟨e, db'⟩, hfail, rfl⟩ := Option.map_eq_some_iff.mp hfail
  obtain ⟨table, htable, hschema⟩ := Option.map_eq_some_iff.mp htable
  have hexec := of_failure hfail
  refine ⟨db₀, db, db', hcreate, hrun, hexec, ?_⟩
  rw [failed_statement_keeps_iff rfl hcreate hrun rfl hexec]
  intro table' targets htable' htargets row hrow full hfull
  rw [show db.catalog.getTable _ = some table from htable] at htable'
  obtain rfl := Option.some.inj htable'
  obtain rfl := Option.some.inj hrow
  obtain ⟨id, tname, schema, first⟩ := table
  obtain rfl : schema = _ := hschema
  obtain rfl := Except.ok.inj htargets
  cases hfull

/-- What a scan has found. -/
def found {α : Type} : Except Fault (Result α) → Option α
  | .ok (.ok a) => some a
  | _ => none

theorem of_found {α : Type} {x : Except Fault (Result α)} {a : α} (h : found x = some a) :
    x = .ok (.ok a) := by
  rcases x with f | e | a'
  · cases h
  · cases h
  · cases h
    rfl

/-- The second row is refused, and the first one stays in the table and in the index. -/
theorem failed_insert_leaves_row : ∃ db₀ db db',
    Database.create insertionOrder noTables Store.new = .ok db₀ ∧
    Run execStatement db₀ indexedInt db ∧
    execStatement db (insertThenString [[.int64 1]]) = .ok (.error notAnInteger, db') ∧
    rowsOf db (lit "t") = .ok (.ok 0) ∧ rowsOf db' (lit "t") = .ok (.ok {(⟨1, 0⟩, [.int32 1])}) ∧
    entriesOf db 1 = .ok (.ok 0) ∧ entriesOf db' 1 = .ok (.ok {(1, ⟨1, 0⟩)}) ∧
    ¬ SameContents (lit "t") db db' := by
  obtain ⟨db₀, db, hcreate, hrun, hcheck⟩ := exists_session Store.new indexedInt
    (fun db => decide (found (rowsOf db (lit "t")) = some 0 ∧ found (entriesOf db 1) = some 0) &&
      ((failure (execStatement db (insertThenString [[.int64 1]]))).any fun p =>
        decide (p.1 = notAnInteger ∧ found (rowsOf p.2 (lit "t")) = some {(⟨1, 0⟩, [.int32 1])} ∧
          found (entriesOf p.2 1) = some {(1, ⟨1, 0⟩)}))) (by decide +kernel)
  obtain ⟨hbefore, hafter⟩ := Bool.and_eq_true_iff.mp hcheck
  obtain ⟨hrows, hentries⟩ := of_decide_eq_true hbefore
  obtain ⟨⟨e, db'⟩, hfail, hafter⟩ := (Option.any_eq_true _ _).mp hafter
  obtain ⟨rfl, hrows', hentries'⟩ := of_decide_eq_true hafter
  refine ⟨db₀, db, db', hcreate, hrun, of_failure hfail, of_found hrows, of_found hrows',
    of_found hentries, of_found hentries', fun hsame => ?_⟩
  have heq := hsame.rows
  rw [of_found hrows, of_found hrows'] at heq
  simp at heq

end MiniDB.Executor
