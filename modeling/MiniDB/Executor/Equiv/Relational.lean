import MiniDB.Executor.Equiv.Mirror
import Mathlib.Data.List.Zip

/-!
# The executor refines the relational model

A table is the bag of its rows (`Refines`).  Each event that a statement makes on a row changes the bag
by that row (`RowStep.contents`), wherever the row is stored or moved to; so a statement that returns
OK does to the bags what it does in the relational model, and so does a history.
-/

namespace MiniDB.Relational

/-! ### Writing to positions -/

variable {n : Nat}

theorem length_overlay (writes : List (Fin n × Value)) (row : Row) :
    (overlay writes row).length = row.length := by
  rw [overlay, List.length_mapIdx]

theorem overlay_nil (row : Row) : overlay ([] : List (Fin n × Value)) row = row := by
  apply List.ext_getElem?
  intro i
  rw [overlay, List.getElem?_mapIdx]
  cases row[i]? <;> rfl

/-- A later write wins. -/
theorem overlay_concat (writes : List (Fin n × Value)) (w : Fin n × Value) (row : Row) :
    overlay (writes ++ [w]) row = (overlay writes row).set w.1 w.2 := by
  apply List.ext_getElem?
  intro i
  rw [List.getElem?_set, length_overlay, overlay, overlay, List.getElem?_mapIdx,
    List.getElem?_mapIdx, List.reverse_append, List.reverse_singleton, List.singleton_append,
    List.find?_cons]
  by_cases hi : w.1.val = i
  · subst hi
    rw [if_pos rfl]
    simp only [decide_true]
    by_cases hlt : w.1.val < row.length
    · rw [if_pos hlt, List.getElem?_eq_getElem hlt]
      rfl
    · rw [if_neg hlt, List.getElem?_eq_none (Nat.le_of_not_lt hlt)]
      rfl
  · rw [if_neg hi]
    simp only [hi, decide_false]

/-- Setting the positions one after the other. -/
theorem foldl_set_eq_overlay (writes : List (Fin n × Value)) (row : Row) :
    writes.foldl (fun row w => row.set w.1 w.2) row = overlay writes row := by
  induction writes using List.reverseRecOn with
  | nil => rw [List.foldl_nil, overlay_nil]
  | append_singleton writes w ih =>
    rw [List.foldl_append, ih, List.foldl_cons, List.foldl_nil, overlay_concat]

end MiniDB.Relational

namespace MiniDB.Executor

open Paged Effect BPlusTree TableManager CatalogManager Runs Relational

/-! ### The rows of a statement -/

variable {schema : Schema} {ms : List (RecordId × Row)} {b : Multiset Row}
  {ts : List (Fin schema.columnCount)} {columns : List Str} {full : Row} {n : Nat}

theorem coerced_eq_some {w : Fin schema.columnCount × Value} {v : Value}
    (h : coerceLiteralToColumnType w.2 (schema.columnAt w.1) = .ok v) :
    coerced schema w = some (w.1, v) := by
  rw [coerced, h]
  rfl

theorem targets_of_ok (h : targetIndices schema columns = .ok ts) :
    targets schema columns = some ts := by
  unfold targetIndices at h
  unfold targets
  split_ifs at h ⊢
  · rw [Except.ok.inj h]
  · refine mapM_eq_some.mpr ((mapM_eq_ok.mp h).imp fun name i hi => ?_)
    cases hidx : schema.indexOf name with
    | none =>
      rw [hidx] at hi
      cases hi
    | some j =>
      rw [hidx] at hi
      rw [Except.ok.inj hi]

/-- The loop of `ExecuteInsert` over the values of a row. -/
theorem foldlM_coerce {ps : List (Value × Fin schema.columnCount)} {base : Row}
    (h : ps.foldlM (fun full p => do
      let coerced ← coerceLiteralToColumnType p.1 (schema.columnAt p.2)
      return full.set p.2 coerced) base = .ok full) :
    ∃ writes, (ps.map Prod.swap).mapM (coerced schema) = some writes ∧
      full = writes.foldl (fun row w => row.set w.1 w.2) base := by
  induction ps generalizing base with
  | nil =>
    obtain rfl := Except.ok.inj h
    exact ⟨[], rfl, rfl⟩
  | cons p ps ih =>
    rw [List.foldlM_cons] at h
    cases hp : coerceLiteralToColumnType p.1 (schema.columnAt p.2) with
    | error e =>
      rw [hp] at h
      cases h
    | ok v =>
      rw [hp] at h
      obtain ⟨writes, hwrites, rfl⟩ := ih h
      refine ⟨(p.2, v) :: writes, ?_, rfl⟩
      rw [List.map_cons, List.mapM_cons, hwrites, coerced_eq_some (w := p.swap) hp]
      rfl

/-- The row that `ExecuteInsert` stores is the one that the statement adds. -/
theorem inserted_of_ok {row : Row} (hts : targetIndices schema columns = .ok ts)
    (h : fullRow schema ts row = .ok full) : inserted schema columns row = some full := by
  unfold fullRow at h
  split_ifs at h with hlen
  obtain ⟨writes, hwrites, rfl⟩ := foldlM_coerce h
  rw [inserted, targets_of_ok hts, Option.bind_eq_bind, Option.bind_some, if_pos (not_not.mp hlen),
    ← List.zip_swap, hwrites, foldl_set_eq_overlay]
  rfl

theorem assignments_of_ok {assigns : List (Str × Value)}
    {writes : List (Fin schema.columnCount × Value)}
    (h : resolveAssignments schema assigns = .ok writes) :
    assignments schema assigns = some writes := by
  refine mapM_eq_some.mpr ((mapM_eq_ok.mp h).imp fun a w ha => ?_)
  cases hidx : schema.indexOf a.1 with
  | none =>
    rw [hidx] at ha
    cases ha
  | some i =>
    rw [hidx] at ha
    dsimp only at ha
    cases hv : coerceLiteralToColumnType a.2 (schema.columnAt i) with
    | error e =>
      rw [hv] at ha
      cases ha
    | ok v =>
      rw [hv] at ha
      obtain rfl := Except.ok.inj ha
      exact coerced_eq_some (w := (i, a.2)) hv

theorem assigned_eq_overlay (writes : List (Fin n × Value)) (row : Row) :
    assigned writes row = overlay writes row := foldl_set_eq_overlay writes row

/-! ### Events on bags -/

/-- What an event does to the bag of rows. -/
def RowEvent.effect (b : Multiset Row) : RowEvent → Multiset Row
  | .insert _ row => row ::ₘ b
  | .replace _ old _ new => new ::ₘ b.erase old
  | .delete _ old => b.erase old
  | .lose _ => b
  | .grow => b

section Steps

variable {exact : Prop} {idxs : List IndexMetadata} {e : RowEvent} {es : List RowEvent}
  {x y : TableView × Bags} {b : Multiset Row}

theorem RowStep.contents (h : RowStep exact idxs e x y) (he : e.Clean)
    (hb : Contents b x.1.rows) : Contents (e.effect b) y.1.rows := by
  cases h with
  | insert hfree => exact hb.insert hfree _
  | replace hold _ _ _ hfree => exact (hb.erase hold).insert (update_none_of_free hfree) _
  | delete hold => exact hb.erase hold
  | lose => exact he.elim
  | grow => exact hb

theorem RowSteps.contents (h : RowSteps exact idxs es x y) (hes : ∀ e ∈ es, e.Clean)
    (hb : Contents b x.1.rows) : Contents (es.foldl RowEvent.effect b) y.1.rows := by
  induction h with
  | nil => exact hb
  | snoc _ hlast ih =>
    rw [List.foldl_append, List.foldl_cons, List.foldl_nil]
    refine hlast.contents (hes _ ?_) (ih (fun e he => hes e ?_) hb)
    · exact List.mem_append_right _ (List.mem_singleton_self _)
    · exact List.mem_append_left _ he

end Steps

theorem effect_insert {fulls : List Row} {es : List RowEvent}
    (h : List.Forall₂ (fun full e => ∃ rid, e = RowEvent.insert rid full) fulls es)
    (b : Multiset Row) : es.foldl RowEvent.effect b = b + fulls := by
  induction h generalizing b with
  | nil => exact (Multiset.add_zero b).symm
  | @cons full e fulls es he _ ih =>
    obtain ⟨rid, rfl⟩ := he
    rw [List.foldl_cons, ih, RowEvent.effect, Multiset.cons_add, ← Multiset.cons_coe,
      Multiset.add_cons]

/-- Replacing rows of the bag one after the other. -/
theorem effect_replace {writes : List (Fin n × Value)} {es : List RowEvent}
    (h : List.Forall₂ (Replaces writes) ms es) (hb : (ms.map Prod.snd : Multiset Row) ≤ b) :
    es.foldl RowEvent.effect b
      = b - (ms.map Prod.snd : List Row) + (ms.map fun m => overlay writes m.2 : List Row) := by
  induction h generalizing b with
  | nil => simp
  | @cons m e ms es he _ ih =>
    obtain ⟨rid', rfl⟩ := he
    rw [List.map_cons, ← Multiset.cons_coe] at hb
    have hrest : (ms.map Prod.snd : Multiset Row) ≤ b.erase m.2 := by
      have := Multiset.erase_le_erase m.2 hb
      rwa [Multiset.erase_cons_head] at this
    rw [List.foldl_cons, RowEvent.effect, ih (hrest.trans (Multiset.le_cons_self _ _)),
      Multiset.cons_sub_of_le _ hrest, List.map_cons, List.map_cons, ← Multiset.cons_coe,
      ← Multiset.cons_coe, Multiset.sub_cons, Multiset.cons_add, Multiset.add_cons,
      assigned_eq_overlay]

/-- Deleting rows of the bag one after the other. -/
theorem effect_delete (ms : List (RecordId × Row)) (b : Multiset Row) :
    (ms.map fun m => RowEvent.delete m.1 m.2).foldl RowEvent.effect b
      = b - (ms.map Prod.snd : List Row) := by
  induction ms generalizing b with
  | nil => simp
  | cons m ms ih =>
    rw [List.map_cons, List.foldl_cons, ih, RowEvent.effect, List.map_cons, ← Multiset.cons_coe,
      Multiset.sub_cons]

/-! ### Refinement -/

variable {σ : Type} [IndexPool σ] [LawfulIndexPool σ] {db db' : Database σ} {v : DbView}
  {rels : Relations} {name : Str} {t : TableView} {rel : Relation}

/-- A table is a relation with its rows. -/
def TableRefines (t : TableView) (rel : Relation) : Prop :=
  t.schema = rel.schema ∧ Contents rel.rows t.rows

/-- The tables of the database are these relations. -/
def Refines (v : DbView) (rels : Relations) : Prop :=
  ∀ name, Option.Rel TableRefines (v.tables name) (rels name)

theorem Refines.table (h : Refines v rels) (ht : v.tables name = some t) :
    ∃ rel, rels name = some rel ∧ TableRefines t rel := by
  have hrel := h name
  rw [ht] at hrel
  generalize rels name = r at hrel
  cases hrel with
  | some hrel => exact ⟨_, rfl, hrel⟩

theorem Refines.absent (h : Refines v rels) (ht : v.tables name = none) : rels name = none := by
  have hrel := h name
  rw [ht] at hrel
  generalize rels name = r at hrel
  cases hrel with
  | none => rfl

theorem Refines.update (h : Refines v rels) {bags : Bags} (hrel : TableRefines t rel) :
    Refines ⟨Function.update v.tables name (some t), bags⟩
      (Function.update rels name (some rel)) := by
  intro name'
  by_cases hname : name' = name
  · rw [hname, Function.update_self]
    dsimp only
    rw [Function.update_self]
    exact .some hrel
  · rw [Function.update_of_ne hname]
    dsimp only
    rw [Function.update_of_ne hname]
    exact h name'

/-- The database is sound, and its tables are these relations. -/
def RefinesInv (db : Database σ) (rels : Relations) : Prop := ∃ v, DbInv db v ∧ Refines v rels

/-- The events of a statement are those of the relational model. -/
theorem After.refines {t' : TableView} {es : List RowEvent} (h : After db v name t es t' db')
    (hv : Refines v rels) (hrel : TableRefines t rel) (hes : ∀ e ∈ es, e.Clean)
    (hb : es.foldl RowEvent.effect rel.rows = b) :
    RefinesInv db' (Function.update rels name (some ⟨rel.schema, b⟩)) := by
  obtain ⟨⟨bags', hsteps, hinv⟩, -⟩ := h
  refine ⟨_, hinv, hv.update ⟨hsteps.schema_eq.trans hrel.1, ?_⟩⟩
  rw [← hb]
  exact hsteps.contents hes hrel.2

/-- The rows of a listing that satisfy the WHERE clause, as a bag. -/
theorem filter_eq {rows : List (RecordId × Row)} (hb : b = (rows.map Prod.snd : List Row))
    (p : Row → Bool) :
    ((rows.filter fun r => p r.2).map Prod.snd : Multiset Row) = b.filter fun row => p row := by
  rw [hb, Multiset.filter_coe, List.filter_map]
  congr 2
  exact List.filter_congr fun r _ => Bool.decide_eq_true.symm

theorem map_eq (hb : (ms.map Prod.snd : Multiset Row) = b) (f : Row → Row) :
    (ms.map fun m => f m.2 : Multiset Row) = b.map f := by
  rw [← hb, Multiset.map_coe, List.map_map]
  rfl

theorem length_eq (hb : (ms.map Prod.snd : Multiset Row) = b) : ms.length = b.card := by
  rw [← hb, Multiset.coe_card, List.length_map]

/-- The statements of the relational model. -/
def InModel : Statement → Prop
  | .createTable _ | .insert _ | .update _ | .delete _ => True
  | .dropTable _ | .createIndex _ | .dropIndex _ | .select _ => False

/-- A statement that returns OK does what it means. -/
theorem RefinesInv.step (h : RefinesInv db rels) {stmt : Statement} (hstmt : InModel stmt)
    {res : QueryResult} (hexec : execStatement db stmt = .ok (.ok res, db')) :
    ∃ rels', Relational.step rels stmt = some (rels', res.rowsAffected) ∧ RefinesInv db' rels' := by
  obtain ⟨v, hinv, hv⟩ := h
  cases stmt with
  | createTable stmt =>
    obtain ⟨-, ⟨⟨e, he⟩, -⟩ | ⟨id, hres, hnone, hinv'⟩⟩ :=
      Action.of_wp (executeCreateTable_wp hinv stmt) hexec
    · cases he
    · obtain rfl := Except.ok.inj hres
      have hrel : TableRefines (newTable ⟨stmt.columns⟩ id) ⟨⟨stmt.columns⟩, 0⟩ := ⟨rfl, .empty⟩
      refine ⟨_, ?_, _, hinv', hv.update hrel⟩
      rw [Relational.step, hv.absent hnone]
  | insert stmt =>
    rcases Action.of_wp (executeInsert_wp hinv stmt) hexec with
      ⟨-, ⟨e, he⟩, -⟩ | ⟨t, es, t', ht, hafter, hes, hok⟩
    · cases he
    · obtain ⟨targets, fulls, htargets, hfulls, hevents, hcount⟩ := hok res rfl
      obtain ⟨rel, hname, hrel⟩ := hv.table ht
      have hrows : stmt.rows.mapM (inserted rel.schema stmt.columns) = some fulls := by
        rw [← hrel.1]
        exact mapM_eq_some.mpr (hfulls.imp fun _ _ h => inserted_of_ok htargets h)
      refine ⟨_, ?_, hafter.refines hv hrel (fun e he => ?_) (effect_insert hevents _)⟩
      · rw [Relational.step, hname, Option.bind_eq_bind, Option.bind_some, hrows, hcount,
          hfulls.length_eq]
        rfl
      · rcases hes e he with rfl | ⟨_, _, _, _, _, _, _, rfl⟩
        · exact trivial
        · exact trivial
  | update stmt =>
    rcases Action.of_wp (executeUpdate_wp hinv stmt) hexec with
      ⟨-, ⟨e, he⟩, -⟩ | ⟨t, es, t', ht, hafter, -, hok⟩
    · cases he
    · obtain ⟨writes, rows, hlists, hwrites, hevents, hcount⟩ := hok res rfl
      obtain ⟨⟨schema, b⟩, hname, hrel⟩ := hv.table ht
      obtain rfl : t.schema = schema := hrel.1
      have hmatched := filter_eq (hrel.2.eq hlists) (satisfies stmt.where? t.schema)
      have hle : ((rows.filter fun r => satisfies stmt.where? t.schema r.2).map Prod.snd
          : Multiset Row) ≤ b := by
        rw [hmatched]
        exact Multiset.filter_le _ _
      have hbag := effect_replace hevents hle
      rw [hmatched, Multiset.sub_filter_eq_filter_not, map_eq hmatched (overlay writes)] at hbag
      refine ⟨_, ?_, hafter.refines hv hrel (fun e he => ?_) hbag⟩
      · rw [Relational.step, hname, Option.bind_eq_bind, Option.bind_some, assignments_of_ok hwrites,
          hcount, length_eq hmatched]
        rfl
      · obtain ⟨_, -, _, rfl⟩ := exists_mem_of_forall₂ hevents he
        exact trivial
  | delete stmt =>
    rcases Action.of_wp (executeDelete_wp hinv stmt) hexec with
      ⟨-, ⟨e, he⟩, -⟩ | ⟨t, t', rows, ht, hlists, hafter, res', hres, hcount⟩
    · cases he
    · obtain rfl := Except.ok.inj hres
      obtain ⟨rel, hname, hrel⟩ := hv.table ht
      have hmatched := filter_eq (hrel.2.eq hlists) (satisfies stmt.where? t.schema)
      have hbag := effect_delete (rows.filter fun r => satisfies stmt.where? t.schema r.2) rel.rows
      rw [hmatched, Multiset.sub_filter_eq_filter_not] at hbag
      refine ⟨_, ?_, hafter.refines hv hrel (fun e he => ?_) hbag⟩
      · rw [Relational.step, hname, Option.bind_eq_bind, Option.bind_some, hcount,
          length_eq hmatched, hrel.1]
        rfl
      · obtain ⟨_, -, rfl⟩ := List.mem_map.mp he
        exact trivial
  | dropTable name => exact hstmt.elim
  | createIndex stmt => exact hstmt.elim
  | dropIndex name => exact hstmt.elim
  | select stmt => exact hstmt.elim

/-- The rows a statement says it is about. -/
def affected : Result QueryResult → Nat
  | .ok res => res.rowsAffected
  | .error _ => 0

theorem RefinesInv.run {db₀ : Database σ} (h : RefinesInv db₀ fun _ => none)
    {history : List (Statement × Result QueryResult)} (hrun : Run execStatement db₀ history db)
    (hok : ∀ c ∈ history, InModel c.1 ∧ ∃ res, c.2 = .ok res) :
    ∃ rels, Relational.run (history.map Prod.fst)
        = some (rels, history.map fun c => affected c.2) ∧ RefinesInv db rels := by
  refine hrun.invariant (fun history db => ∃ rels, Relational.run (history.map Prod.fst)
    = some (rels, history.map fun c => affected c.2) ∧ RefinesInv db rels) ⟨_, rfl, h⟩ ?_
    (guarded_of_forall (P := fun stmt r => InModel stmt ∧ ∃ res, r = .ok res) hok)
  rintro history db stmt _ db' ⟨rels, hrels, hinv⟩ ⟨hstmt, res, rfl⟩ hexec
  obtain ⟨rels', hstep, hinv'⟩ := hinv.step hstmt hexec
  refine ⟨rels', ?_, hinv'⟩
  unfold Relational.run at hrels ⊢
  rw [List.map_append, List.foldlM_append, hrels, List.map_append]
  rw [Option.bind_eq_bind, Option.bind_some, List.map_cons, List.map_nil, List.foldlM_cons, hstep]
  rfl

/-- **The executor refines the relational model.**  For every history of CREATE TABLE, INSERT, UPDATE
and DELETE statements on a new database that all returned OK, the statements have a meaning in the
relational model, the numbers of rows they answered are those of the model, and so are the tables: the
scan of each table shows, as a bag, the rows of its relation.  A row on which the WHERE clause does not
evaluate does not satisfy it, so that nothing has to be asked of the WHERE clauses. -/
theorem dml_refines_relations {order : CatalogOrder} {openTables : UnorderedMap Str RecordManager}
    (hopen : openTables.entries = []) {db₀ db : Database Store}
    (hcreate : Database.create order openTables Store.new = .ok db₀)
    {history : List (Statement × Result QueryResult)} (hrun : Run execStatement db₀ history db)
    (hok : ∀ c ∈ history, InModel c.1 ∧ ∃ res, c.2 = .ok res) :
    ∃ rels, Relational.run (history.map Prod.fst)
        = some (rels, history.map fun c => affected c.2) ∧
      ∀ name, (rels name = none ∧ db.catalog.getTable name = none) ∨
        ∃ rel table rows db', rels name = some rel ∧ db.catalog.getTable name = some table ∧
          table.schema = rel.schema ∧ (TableManager.scan name).exec db = .ok (.ok rows, db') ∧
          (rows.map Prod.snd : Multiset Row) = rel.rows := by
  have hnew := create_inv hopen (HoldsTrees.init Store.new) hcreate
  have hstart : RefinesInv db₀ fun _ => none := ⟨_, hnew.1, fun _ => .none⟩
  obtain ⟨rels, hrels, v, hinv, hv⟩ := hstart.run hrun hok
  refine ⟨rels, hrels, fun name => ?_⟩
  cases ht : v.tables name with
  | none => exact .inl ⟨hv.absent ht, (hinv.tables.none_iff name).mpr ht⟩
  | some t =>
    obtain ⟨rel, hname, hschema, hrows⟩ := hv.table ht
    obtain ⟨table, htable, htschema, -⟩ := hinv.tables.entry_of ht
    obtain ⟨rows, db', hscan, hlists⟩ := scan_exec hinv ht
    exact .inr ⟨rel, table, rows, db', hname, htable, htschema.trans hschema, hscan,
      (hrows.eq hlists).symm⟩

/-- A session in which an UPDATE makes a row longer than it was. -/
def grownRow : List (Statement × Result QueryResult) := [
  (.createTable ⟨lit "t", [{ name := lit "a", type := .int }, { name := lit "b", type := .varchar }],
    by decide⟩, .ok { message := lit "CREATE TABLE" }),
  (.insert ⟨lit "t", [lit "a"], [[.int64 1], [.int64 2]]⟩,
    .ok { rowsAffected := 2, message := lit "INSERT 0 2" }),
  (.update ⟨lit "t", [(lit "b", .string (lit "x")), (lit "b", .string (lit "longer"))],
      some (.binary (.column (lit "a")) .gt (.literal (.int64 1)))⟩,
    .ok { rowsAffected := 1, message := lit "UPDATE 1" }),
  (.delete ⟨lit "t", some (.binary (.column (lit "a")) .lt (.literal (.int64 2)))⟩,
    .ok { rowsAffected := 1, message := lit "DELETE 1" })]

theorem dml_refines_relations_grownRow : ∃ db₀ db rels,
    Database.create insertionOrder noTables Store.new = .ok db₀ ∧
    Run execStatement db₀ grownRow db ∧
    Relational.run (grownRow.map Prod.fst) = some (rels, [0, 2, 1, 1]) ∧
    ∀ name, (rels name = none ∧ db.catalog.getTable name = none) ∨
      ∃ rel table rows db', rels name = some rel ∧ db.catalog.getTable name = some table ∧
        table.schema = rel.schema ∧ (TableManager.scan name).exec db = .ok (.ok rows, db') ∧
        (rows.map Prod.snd : Multiset Row) = rel.rows := by
  obtain ⟨db₀, db, hcreate, hrun, -⟩ := exists_session Store.new grownRow
    (fun _ => true) (by decide +kernel)
  have hok : ∀ c ∈ grownRow, InModel c.1 ∧ ∃ res, c.2 = .ok res := by
    simp [grownRow, InModel]
  obtain ⟨rels, hrels, htables⟩ := dml_refines_relations rfl hcreate hrun hok
  exact ⟨db₀, db, rels, hcreate, hrun, hrels, htables⟩

end MiniDB.Executor
