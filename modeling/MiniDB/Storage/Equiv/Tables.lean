import MiniDB.Lib.Listing
import MiniDB.Storage.Equiv.HeapSystem
import MiniDB.Storage.Equiv.Record
import MiniDB.Storage.TableManager

/-!
# Tables as maps from record ids to rows

A table is a partial map from record ids to rows that conform to its schema (`TableView.rows`).
`TableAt` says that the pages of its heap file hold exactly the encodings of these rows, and
`TablesInv` that the tables of a database are side by side in its data pool, each known to the
catalog and opened, if it is, with its own heap file and schema.

The functions of `TableManager` then have one specification each, in terms of these maps.
-/

namespace MiniDB.TableManager

open Paged Effect HeapFile RecordCodec SlottedPage Tenancy
open Function (update update_of_ne update_self)
open Effect.Action (post_ok wp wp_bind)

/-! ### One table -/

/-- A table: its schema, its pages and its rows. -/
structure TableView where
  schema : Schema
  chain : List PageId
  rows : RecordId → Option Row

/-- The record behind an id in one of the pages. -/
def recordIn (st : Store) (chain : List PageId) (rid : RecordId) : Option (List UInt8) :=
  if rid.pageId ∈ chain then recordAt st rid else none

/-- The bytes of a row. -/
def encoded (schema : Schema) (row : Row) : Option Str := (encode schema row).toOption

variable {schema : Schema}

theorem encoded_of_conforms {row : Row} (h : RowConforms schema row) :
    ∃ bs, encoded schema row = some bs ∧ encode schema row = .ok bs := by
  obtain ⟨bs, hbs⟩ := encode_ok_iff.mpr h
  exact ⟨bs, by rw [encoded, hbs]; rfl, hbs⟩

/-- The table is in the pages of the store. -/
structure TableAt (st : Store) (t : TableView) : Prop where
  columns_ne : t.schema.columns ≠ []
  heap : ∃ first, HeapInv st ⟨first, first⟩ t.chain
  record_eq : ∀ rid, recordIn st t.chain rid = (t.rows rid).bind (encoded t.schema)
  conforms : ∀ {rid row}, t.rows rid = some row → RowConforms t.schema row

variable {st st' : Store} {t : TableView} {rid : RecordId}

theorem TableAt.record (h : TableAt st t) {row : Row} (hrow : t.rows rid = some row) :
    rid.pageId ∈ t.chain ∧ ∃ bs, recordAt st rid = some bs ∧ encode t.schema row = .ok bs := by
  obtain ⟨bs, hbs, henc⟩ := encoded_of_conforms (h.conforms hrow)
  have hrec := h.record_eq rid
  rw [hrow, Option.bind_some, hbs, recordIn] at hrec
  split_ifs at hrec with hmem
  exact ⟨hmem, bs, hrec, henc⟩

theorem TableAt.rows_eq_none_iff (h : TableAt st t) (hmem : rid.pageId ∈ t.chain) :
    t.rows rid = none ↔ recordAt st rid = none := by
  have hrec := h.record_eq rid
  rw [recordIn, if_pos hmem] at hrec
  cases hrow : t.rows rid with
  | none =>
    rw [hrow] at hrec
    exact iff_of_true rfl hrec
  | some row =>
    obtain ⟨-, bs, hbs, -⟩ := h.record hrow
    rw [hbs]
    simp

theorem TableAt.rows_eq_none (h : TableAt st t) (hmem : rid.pageId ∉ t.chain) : t.rows rid = none := by
  cases hrow : t.rows rid with
  | none => rfl
  | some row => exact absurd (h.record hrow).1 hmem

/-- A record of the heap is a row. -/
theorem TableAt.row (h : TableAt st t) {bs : Str} (hmem : rid.pageId ∈ t.chain)
    (hbs : recordAt st rid = some bs) :
    ∃ row, t.rows rid = some row ∧ encode t.schema row = .ok bs := by
  cases hrow : t.rows rid with
  | none =>
    rw [(h.rows_eq_none_iff hmem).mp hrow] at hbs
    cases hbs
  | some row =>
    obtain ⟨-, bs', hbs', henc⟩ := h.record hrow
    rw [hbs] at hbs'
    obtain rfl := Option.some.inj hbs'
    exact ⟨row, rfl, henc⟩

theorem TableAt.present (h : TableAt st t) : ∀ id ∈ t.chain, ∃ page, st.get? id = some page := by
  obtain ⟨first, hi⟩ := h.heap
  exact hi.present

/-- A page of the table is a sound page. -/
theorem TableAt.page (h : TableAt st t) {id : PageId} (hid : id ∈ t.chain) :
    ∃ page, st.get? id = some page ∧ Layout page := by
  obtain ⟨first, hi⟩ := h.heap
  exact hi.chainTo.get id hid

theorem TableAt.frame (h : TableAt st t) (hsame : ∀ id ∈ t.chain, st'.get? id = st.get? id) :
    TableAt st' t := by
  obtain ⟨first, hi⟩ := h.heap
  refine ⟨h.columns_ne, ⟨first, hi.frame hsame⟩, fun rid => ?_, h.conforms⟩
  rw [← h.record_eq rid, recordIn, recordIn]
  split_ifs with hmem
  · rw [recordAt, recordAt, hsame _ hmem]
  · rfl

/-- Tables as tenants of the store. -/
def tableTenant : Tenant Store.get? TableView where
  own := TableView.chain
  inv := TableAt
  present := TableAt.present
  frame := TableAt.frame

variable {f f' : HeapFile} {c c' : List PageId}

theorem recordIn_eq_of_step (hs : HeapStep st f c st' f' c') {i : RecordId}
    (h : recordAt st' i = recordAt st i) : recordIn st' c' i = recordIn st c i := by
  rw [recordIn, h]
  exact hs.recordAt_mem i

/-! ### The tables of a database -/

/-- The tables of a database, with the entries of the catalog and the open tables. -/
structure TablesInv (catalog : UnorderedMap Str TableMetadata)
    (openTables : UnorderedMap Str RecordManager) (st : Store) (tables : Str → Option TableView) :
    Prop where
  named : Named tableTenant st tables
  entry : ∀ {name e}, catalog.find? name = some e → ∃ t, tables name = some t ∧
    e.schema = t.schema ∧ t.chain.head? = some e.firstPageId
  known : ∀ {name t}, tables name = some t → ∃ e, catalog.find? name = some e
  opened : ∀ {name rm}, openTables.find? name = some rm → ∃ t, tables name = some t ∧
    rm.schema = t.schema ∧ HeapInv st rm.heapFile t.chain

variable {catalog : UnorderedMap Str TableMetadata} {o o' : UnorderedMap Str RecordManager}
  {tables : Str → Option TableView} {name : Str} {rm : RecordManager}

theorem TablesInv.at (h : TablesInv catalog o st tables) (ht : tables name = some t) :
    TableAt st t := h.named.inv ht

theorem TablesInv.none_iff (h : TablesInv catalog o st tables) (name : Str) :
    catalog.find? name = none ↔ tables name = none := by
  constructor
  · intro hnone
    refine Option.eq_none_iff_forall_ne_some.mpr fun t ht => ?_
    obtain ⟨e, he⟩ := h.known ht
    rw [hnone] at he
    cases he
  · intro hnone
    refine Option.eq_none_iff_forall_ne_some.mpr fun e he => ?_
    obtain ⟨t, ht, -⟩ := h.entry he
    rw [hnone] at ht
    cases ht

/-- The catalog entry of a table. -/
theorem TablesInv.entry_of (h : TablesInv catalog o st tables) (ht : tables name = some t) :
    ∃ e, catalog.find? name = some e ∧ e.schema = t.schema ∧
      t.chain.head? = some e.firstPageId := by
  obtain ⟨e, he⟩ := h.known ht
  obtain ⟨t', ht', hschema, hfirst⟩ := h.entry he
  rw [ht] at ht'
  obtain rfl := Option.some.inj ht'
  exact ⟨e, he, hschema, hfirst⟩

/-- A step of the heap file of one table. -/
theorem TablesInv.step (h : TablesInv catalog o st tables) {table : Str} {t' : TableView}
    (rm' : RecordManager) (ht : tables table = some t) (hschema : rm'.schema = t'.schema)
    (hsame : t'.schema = t.schema) (hs : HeapStep st rm.heapFile t.chain st' rm'.heapFile t'.chain)
    (hrm : HeapInv st rm.heapFile t.chain) (hat : TableAt st' t')
    (ho : ∀ name, o'.find? name = if name = table then some rm' else o.find? name) :
    TablesInv catalog o' st' (update tables table (some t')) where
  named := h.named.step ht hs.pages hat
  entry := by
    intro name e he
    by_cases hname : name = table
    · subst hname
      obtain ⟨t₀, ht₀, hsch, hfirst⟩ := h.entry he
      rw [ht] at ht₀
      obtain rfl := Option.some.inj ht₀
      refine ⟨t', update_self .., hsch.trans hsame.symm, ?_⟩
      rw [hs.inv.head_eq, hs.first_eq, ← hrm.head_eq, hfirst]
    · rw [update_of_ne hname]
      exact h.entry he
  known := by
    intro name t₀ ht₀
    by_cases hname : name = table
    · subst hname
      exact h.known ht
    · rw [update_of_ne hname] at ht₀
      exact h.known ht₀
  opened := by
    intro name rm₀ hrm₀
    rw [ho] at hrm₀
    by_cases hname : name = table
    · subst hname
      rw [if_pos rfl] at hrm₀
      obtain rfl := Option.some.inj hrm₀
      exact ⟨t', update_self .., hschema, hs.inv⟩
    · rw [if_neg hname] at hrm₀
      obtain ⟨t₀, ht₀, hsch, hinv⟩ := h.opened hrm₀
      refine ⟨t₀, by rw [update_of_ne hname, ht₀], hsch, ?_⟩
      -- the heap file of another table is not affected
      have hd : t.chain.Disjoint t₀.chain := h.named.disjoint (Ne.symm hname) ht ht₀
      exact (heapTenant.keep (b := (rm₀.heapFile, t₀.chain)) hs.pages hinv hd).1

/-! ### Opening a table -/

variable {σ : Type} {allow : Fault → Prop} {db : Database σ} {table : Str} {values old : Row}
  {caller : String} {d : RecordBytes} {bytes : Str} {rows : List (RecordId × Row)}
  {Q : Result (List (RecordId × Row)) → Database σ → Prop}

/-- A table is open when it has been found, with its own heap file and schema. -/
theorem requireTable_wp (h : TablesInv db.catalog.tables db.openTables db.dataPool tables)
    (caller : String) (ht : tables table = some t) {Q : Result RecordManager → Database σ → Prop}
    (hQ : ∀ rm o, rm.schema = t.schema → HeapInv db.dataPool rm.heapFile t.chain →
      o.find? table = some rm → TablesInv db.catalog.tables o db.dataPool tables →
      Q (.ok rm) { db with openTables := o }) :
    wp allow (requireTable caller table) Q db := by
  unfold requireTable getOrOpen
  rw [wp_bind, wp_bind, Action.wp_get, post_ok]
  cases hfind : db.openTables.find? table with
  | some rm =>
    obtain ⟨t', ht', hschema, hinv⟩ := h.opened hfind
    obtain rfl := Option.some.inj (ht.symm.trans ht')
    exact hQ rm db.openTables hschema hinv hfind h
  | none =>
    obtain ⟨e, he, hschema, hfirst⟩ := h.entry_of ht
    obtain ⟨first, hi⟩ := (h.at ht).heap
    obtain rfl : first = e.firstPageId := Option.some.inj (hi.head_eq.symm.trans hfirst)
    rw [CatalogManager.getTable, he]
    dsimp only
    unfold openAndCache
    rw [wp_bind, wp_bind]
    refine Database.wp_onData (P := fun hf st => hf = ⟨e.firstPageId, e.firstPageId⟩ ∧
      st = db.dataPool) (openHeap_existing_wp hi fun _ => ⟨rfl, rfl⟩) ?_
    rintro _ _ ⟨rfl, rfl⟩
    refine hQ _ _ hschema hi (by rw [UnorderedMap.find?_insert, if_pos rfl])
      ⟨h.named, h.entry, h.known, ?_⟩
    intro name rm hrm
    rw [UnorderedMap.find?_insert] at hrm
    split_ifs at hrm with hname
    · obtain rfl := Option.some.inj hrm
      exact ⟨t, hname ▸ ht, hschema, hi⟩
    · exact h.opened hrm

/-- A call that may change the heap file object. -/
theorem callTable_wp {α : Type} {x : Nat → Prog PageId Page Empty (Result α × RecordManager)}
    {Q : Result α → Database σ → Prop}
    (hx : (x (db.dataPool.pages.length + 1)).wp allow (fun _ _ => True)
      (fun r st => Q r.1 { db with
        dataPool := st, openTables := db.openTables.adjust table fun _ => r.2 }) db.dataPool) :
    wp allow (callTable table x) Q db := by
  unfold callTable
  rw [wp_bind]
  refine Database.wp_onData hx ?_
  rintro ⟨r, rm⟩ st hQ
  exact hQ

theorem find?_adjust_eq (h : o.find? table = some rm) (rm' : RecordManager) (name : Str) :
    (o.adjust table fun _ => rm').find? name = if name = table then some rm' else o.find? name := by
  rw [UnorderedMap.find?_adjust]
  split_ifs with hname
  · rw [hname, h]
    rfl
  · rfl

/-! ### Rows -/

/-- What `RecordManager` hands to the heap file: a record for a row that conforms. -/
theorem encodeRow_ok (h : rm.encodeRow caller values = .ok d) :
    RowConforms rm.schema values ∧ encoded rm.schema values = some d.bytes := by
  unfold RecordManager.encodeRow at h
  cases henc : encode rm.schema values with
  | error e =>
    rw [henc] at h
    cases h
  | ok bytes =>
    refine ⟨encode_ok_iff.mp ⟨bytes, henc⟩, ?_⟩
    rw [henc] at h
    by_cases hlong : bytes.length > 0xFFFF
    · simp [hlong, bind, Except.bind, throw, throwThe, MonadExceptOf.throw] at h
    · simp only [hlong, dite_false, bind, Except.bind, pure, Except.pure] at h
      obtain rfl := Except.ok.inj h
      rw [encoded, henc]
      rfl

theorem stored_of_encoded (hne : schema.columns ≠ []) (h : encoded schema values = some d.bytes) :
    stored d = (some values).bind (encoded schema) := by
  have hbytes : d.bytes ≠ [] := by
    cases henc : encode schema values with
    | error e => simp [encoded, henc, Except.toOption] at h
    | ok bs =>
      have hnil := encode_ne_nil hne henc
      simp only [encoded, henc, Except.toOption, Option.some.injEq] at h
      rwa [← h]
  rw [Option.bind_some, h, stored, if_neg hbytes]

/-- The row fits the schema, and its record fits a page. -/
def Storable (schema : Schema) (row : Row) : Prop :=
  ∃ bytes, encode schema row = .ok bytes ∧ bytes.length ≤ kMaxRecordSize

/-- The row does not fit the schema, or its record is too long for the codec. -/
def Rejected (schema : Schema) (row : Row) : Prop :=
  ∀ bytes, encode schema row = .ok bytes → 0xFFFF < bytes.length

/-- A row that is not rejected has a record, and the length of that decides. -/
theorem encodeRow_error {e : Status} (h : rm.encodeRow caller values = .error e) :
    Rejected rm.schema values := by
  intro bytes hbytes
  by_contra hle
  unfold RecordManager.encodeRow at h
  simp [hbytes, hle, bind, Except.bind, pure, Except.pure] at h

theorem encode_of_encoded {row : Row} (h : encoded schema row = some bytes) :
    encode schema row = .ok bytes := by
  unfold encoded at h
  cases henc : encode schema row with
  | error e =>
    rw [henc] at h
    cases h
  | ok bs =>
    rw [henc] at h
    rw [Option.some.inj h]

theorem Rejected.not_storable {row : Row} (h : Rejected schema row) : ¬ Storable schema row := by
  rintro ⟨bytes, hbytes, hle⟩
  have hlt := h bytes hbytes
  have hmax : kMaxRecordSize = 4080 := rfl
  omega

theorem not_storable_of_lt {row : Row} (h : encode schema row = .ok bytes)
    (hlt : kMaxRecordSize < bytes.length) : ¬ Storable schema row := by
  rintro ⟨bytes', hbytes', hle⟩
  rw [h] at hbytes'
  obtain rfl := Except.ok.inj hbytes'
  omega

/-- The rows of a table could be stored. -/
theorem TableAt.storable (h : TableAt st t) {row : Row} (hrow : t.rows rid = some row) :
    Storable t.schema row := by
  obtain ⟨hmem, bs, hbs, henc⟩ := h.record hrow
  obtain ⟨first, hi⟩ := h.heap
  exact ⟨bs, henc, length_le_of_recordAt hi hmem hbs⟩

/-- The tables after a call on one of them: behind each id is the row that was there, or none, or one
whose record was stored. -/
theorem TablesInv.changed (h : TablesInv catalog o st tables) (ht : tables table = some t)
    (hschema : rm.schema = t.schema) (hinv : HeapInv st rm.heapFile t.chain)
    (hs : HeapStep st rm.heapFile t.chain st' f' c') {rows : RecordId → Option Row}
    (hrows : ∀ i, rows i = t.rows i ∧ recordAt st' i = recordAt st i ∨
      rows i = none ∧ recordAt st' i = none ∨
      ∃ row d, rows i = some row ∧ RowConforms t.schema row ∧
        encoded t.schema row = some d.bytes ∧ i.pageId ∈ c' ∧ recordAt st' i = stored d)
    (ho : ∀ name, o'.find? name = if name = table then some ⟨f', rm.schema⟩ else o.find? name) :
    TablesInv catalog o' st' (update tables table (some ⟨t.schema, c', rows⟩)) := by
  have hat := h.at ht
  refine h.step ⟨f', rm.schema⟩ ht hschema rfl hs hinv
    ⟨hat.columns_ne, ⟨_, hs.inv.restart⟩, fun i => ?_, fun {i row} hrow => ?_⟩ ho
  · dsimp only
    rcases hrows i with ⟨heq, hrec⟩ | ⟨heq, hrec⟩ | ⟨row, d, heq, -, hbytes, hmem, hrec⟩
    · rw [heq, ← hat.record_eq]
      exact recordIn_eq_of_step hs hrec
    · rw [heq, recordIn, hrec, ite_self]
      rfl
    · rw [heq, recordIn, if_pos hmem, hrec]
      exact stored_of_encoded hat.columns_ne hbytes
  · dsimp only at hrow
    rcases hrows i with ⟨heq, -⟩ | ⟨heq, -⟩ | ⟨row', d, heq, hconf, -⟩
    · exact hat.conforms (heq.symm.trans hrow)
    · cases heq.symm.trans hrow
    · rwa [← Option.some.inj (heq.symm.trans hrow)]

/-- The rows when one record is removed. -/
theorem erased_cases (hrec : ∀ i, recordAt st' i = if i = rid then none else recordAt st i)
    (i : RecordId) : update t.rows rid none i = t.rows i ∧ recordAt st' i = recordAt st i ∨
      update t.rows rid none i = none ∧ recordAt st' i = none ∨
      ∃ row d, update t.rows rid none i = some row ∧ RowConforms t.schema row ∧
        encoded t.schema row = some d.bytes ∧ i.pageId ∈ c' ∧ recordAt st' i = stored d := by
  by_cases hi : i = rid
  · exact .inr (.inl ⟨by rw [hi, update_self], by rw [hrec, if_pos hi]⟩)
  · exact .inl ⟨update_of_ne hi .., by rw [hrec, if_neg hi]⟩

/-- An id that was free for a record is one without a row. -/
theorem TableAt.rows_eq_none_of_free (h : TableAt st t) (hfree : recordAt st rid = none) :
    t.rows rid = none := by
  by_cases hmem : rid.pageId ∈ t.chain
  · exact (h.rows_eq_none_iff hmem).mpr hfree
  · exact h.rows_eq_none hmem

/-- `InsertRow` stores a row that can be stored under an id that was free; any other row is refused
and changes no row. -/
theorem insertRow_wp (h : TablesInv db.catalog.tables db.openTables db.dataPool tables)
    (ht : tables table = some t) (values : Row) {Q : Result RecordId → Database σ → Prop}
    (herr : ∀ e st o c, ¬ Storable t.schema values → t.chain ⊆ c → TablesInv db.catalog.tables o st
      (update tables table (some ⟨t.schema, c, t.rows⟩)) →
      Q (.error e) { db with dataPool := st, openTables := o })
    (hok : ∀ rid st o c, Storable t.schema values → RowConforms t.schema values → t.chain ⊆ c →
      rid.pageId ∈ c → t.rows rid = none → TablesInv db.catalog.tables o st (update tables table
        (some ⟨t.schema, c, update t.rows rid (some values)⟩)) →
      Q (.ok rid) { db with dataPool := st, openTables := o }) :
    wp Store.OutOfPages (insertRow table values) Q db := by
  have hat := h.at ht
  unfold insertRow
  rw [wp_bind]
  refine requireTable_wp h _ ht ?_
  intro rm o hschema hinv hopen hinvs
  apply callTable_wp
  unfold RecordManager.insertRow
  cases henc : rm.encodeRow "InsertRow" values with
  | error e =>
    have hrejected := encodeRow_error henc
    rw [hschema] at hrejected
    exact herr e db.dataPool _ t.chain hrejected.not_storable (List.Subset.refl _)
      (hinvs.changed ht hschema hinv (.refl hinv) (fun _ => .inl ⟨rfl, rfl⟩) (find?_adjust_eq hopen rm))
  | ok d =>
    obtain ⟨hconf, hbytes⟩ := encodeRow_ok henc
    rw [hschema] at hconf hbytes
    dsimp only
    rw [Prog.wp_bind]
    refine Prog.wp_mono ?_ (HeapFile.insertRecord_wp hinv d (Nat.lt_succ_of_le hinv.length_le))
    rintro ⟨r, hf⟩ st' ⟨c, hs, hins⟩
    rcases hins with ⟨rid, rfl, hle, hmem, hfree, hrec⟩ | ⟨rfl, hlt, hrec⟩
    · refine hok rid st' _ c ⟨_, encode_of_encoded hbytes, hle⟩ hconf hs.pages.subset hmem
        (hat.rows_eq_none_of_free hfree) ?_
      refine hinvs.changed ht hschema hinv hs (fun i => ?_) (find?_adjust_eq hopen _)
      by_cases hi : i = rid
      · subst hi
        exact .inr (.inr ⟨values, d, update_self .., hconf, hbytes, hmem,
          by rw [hrec, if_pos rfl]⟩)
      · exact .inl ⟨update_of_ne hi .., by rw [hrec, if_neg hi]⟩
    · exact herr _ st' _ c (not_storable_of_lt (encode_of_encoded hbytes) hlt) hs.pages.subset
        (hinvs.changed ht hschema hinv hs (fun i => .inl ⟨rfl, hrec i⟩) (find?_adjust_eq hopen _))

/-- `UpdateRow` on a row of the table replaces it, possibly under another id that was free.  If it
fails, the new row was rejected, or it is too long for a page and the old one is lost. -/
theorem updateRow_wp (h : TablesInv db.catalog.tables db.openTables db.dataPool tables)
    (ht : tables table = some t) (hrow : t.rows rid = some old) (values : Row)
    {Q : Result RecordId → Database σ → Prop}
    (herr : ∀ e st o c rows, t.chain ⊆ c → (Rejected t.schema values ∧ rows = t.rows ∨
        ¬ Rejected t.schema values ∧ ¬ Storable t.schema values ∧
          rows = update t.rows rid none) →
      TablesInv db.catalog.tables o st
        (update tables table (some ⟨t.schema, c, rows⟩)) →
      Q (.error e) { db with dataPool := st, openTables := o })
    (hok : ∀ rid' st o c, Storable t.schema values → RowConforms t.schema values → t.chain ⊆ c →
      rid'.pageId ∈ c →
      (rid' = rid ∨ t.rows rid' = none) → TablesInv db.catalog.tables o st
        (update tables table (some ⟨t.schema, c,
          update (update t.rows rid none) rid' (some values)⟩)) →
      Q (.ok rid') { db with dataPool := st, openTables := o }) :
    wp Store.OutOfPages (updateRow table rid values) Q db := by
  have hat := h.at ht
  obtain ⟨hmem, bs, hbs, -⟩ := hat.record hrow
  unfold updateRow
  rw [wp_bind]
  refine requireTable_wp h _ ht ?_
  intro rm o hschema hinv hopen hinvs
  apply callTable_wp
  unfold RecordManager.updateRow
  cases henc : rm.encodeRow "UpdateRow" values with
  | error e =>
    have hrejected := encodeRow_error henc
    rw [hschema] at hrejected
    exact herr e db.dataPool _ t.chain t.rows (List.Subset.refl _) (.inl ⟨hrejected, rfl⟩)
      (hinvs.changed ht hschema hinv (.refl hinv) (fun _ => .inl ⟨rfl, rfl⟩) (find?_adjust_eq hopen rm))
  | ok d =>
    obtain ⟨hconf, hbytes⟩ := encodeRow_ok henc
    rw [hschema] at hconf hbytes
    dsimp only
    rw [Prog.wp_bind]
    refine Prog.wp_mono ?_
      (HeapFile.updateRecord_wp hinv hmem d (Nat.lt_succ_of_le hinv.length_le))
    rintro ⟨r, hf⟩ st' ⟨c, hs, hupd⟩
    rcases hupd with ⟨hdead, -⟩ | ⟨-, hle, rid', rfl, hmem', hfree, hrec⟩ | ⟨-, hlt, rfl, hrec⟩
    · rw [hbs] at hdead
      cases hdead
    · refine hok rid' st' _ c ⟨_, encode_of_encoded hbytes, hle⟩ hconf hs.pages.subset hmem'
        (hfree.imp_right hat.rows_eq_none_of_free) ?_
      refine hinvs.changed ht hschema hinv hs (fun i => ?_) (find?_adjust_eq hopen _)
      by_cases hi : i = rid'
      · subst hi
        exact .inr (.inr ⟨values, d, update_self .., hconf, hbytes, hmem',
          by rw [hrec, if_pos rfl]⟩)
      · rw [update_of_ne hi, hrec, if_neg hi]
        by_cases hi' : i = rid
        · exact .inr (.inl ⟨by rw [hi', update_self], if_pos hi'⟩)
        · exact .inl ⟨update_of_ne hi' .., if_neg hi'⟩
    · have henc' := encode_of_encoded hbytes
      have hbound := d.length_lt
      refine herr _ st' _ c _ hs.pages.subset (.inr ⟨fun hr => ?_, not_storable_of_lt henc' hlt, rfl⟩) ?_
      · have := hr _ henc'
        omega
      · exact hinvs.changed ht hschema hinv hs (erased_cases hrec) (find?_adjust_eq hopen _)

/-- `DeleteRow` on a row of the table removes it. -/
theorem deleteRow_wp (h : TablesInv db.catalog.tables db.openTables db.dataPool tables)
    (ht : tables table = some t) (hrow : t.rows rid = some old) {Q : Result Unit → Database σ → Prop}
    (hok : ∀ st o, TablesInv db.catalog.tables o st (update tables table
        (some ⟨t.schema, t.chain, update t.rows rid none⟩)) →
      Q (.ok ()) { db with dataPool := st, openTables := o }) :
    wp Store.OutOfPages (deleteRow table rid) Q db := by
  have hat := h.at ht
  obtain ⟨hmem, bs, hbs, -⟩ := hat.record hrow
  unfold deleteRow
  rw [wp_bind]
  refine requireTable_wp h _ ht ?_
  intro rm o hschema hinv hopen hinvs
  rw [post_ok, wp_bind]
  refine Database.wp_onData (P := fun r st => r = .ok () ∧ TablesInv db.catalog.tables o st
    (update tables table (some ⟨t.schema, t.chain, update t.rows rid none⟩))) ?_ ?_
  · refine HeapFile.deleteRecord_wp hinv hmem ?_ fun hnone => by rw [hbs] at hnone; cases hnone
    intro _ st' _ hs hrec
    refine ⟨rfl, hinvs.changed ht hschema hinv hs (erased_cases hrec) fun name => ?_⟩
    split_ifs with hname
    · rw [hname, hopen]
    · rfl
  · rintro _ st' ⟨rfl, hinv'⟩
    exact hok st' o hinv'

/-! ### Reading -/

/-- `GetRow` gives a row of the table, and an error for a free id of its pages.  For an id of any other
sound page it may give anything that looks like a row. -/
theorem getRow_wp (h : TablesInv db.catalog.tables db.openTables db.dataPool tables)
    (ht : tables table = some t) {page : Page} (hget : db.dataPool.get? rid.pageId = some page)
    (hl : Layout page) {Q : Result Row → Database σ → Prop}
    (hQ : ∀ r o, TablesInv db.catalog.tables o db.dataPool tables →
      (rid.pageId ∈ t.chain → ∀ row, r = .ok row ↔ t.rows rid = some row) →
      (∀ row, r = .ok row → row.length = t.schema.columnCount) →
      Q r { db with openTables := o }) : wp allow (getRow table rid) Q db := by
  have hat := h.at ht
  unfold getRow
  rw [wp_bind]
  refine requireTable_wp h _ ht ?_
  intro rm o hschema hinv hopen hinvs
  rw [post_ok, wp_bind]
  refine Database.wp_onData (P := fun r st => st = db.dataPool ∧
    (rid.pageId ∈ t.chain → ∀ row, r = .ok row ↔ t.rows rid = some row) ∧
    ∀ row, r = .ok row → row.length = t.schema.columnCount) ?_ ?_
  · unfold RecordManager.getRow
    rw [Prog.wp_bind]
    refine getRecordBytes_page_wp hget hl ?_ ?_
    · intro bs hbs
      obtain ⟨r, hdec, hlen⟩ := decode_checked rm.schema bs
      dsimp only
      rw [Prog.wp_check hdec]
      refine ⟨rfl, fun hmem row => ?_, fun row hr => by rw [hlen row hr, hschema]⟩
      obtain ⟨row', hrow', henc⟩ := hat.row hmem hbs
      rw [hschema, decode_encode henc, ← Checked.ofResult_ok] at hdec
      obtain rfl : .ok row' = r := by cases hdec; rfl
      rw [hrow', Except.ok.injEq, Option.some.injEq]
    · intro hnone
      refine ⟨rfl, fun hmem row => ?_, fun row hr => nomatch hr⟩
      rw [(hat.rows_eq_none_iff hmem).mpr hnone]
      exact ⟨(fun h => nomatch h), (fun h => nomatch h)⟩
  · rintro r _ ⟨rfl, hrow, hlen⟩
    exact hQ r o hinvs hrow hlen

/-- The records of the heap decode to the rows. -/
theorem decodeRecords_wp {C : Type} {pre : C → Store → Prop} {records : List (RecordId × Str)}
    (h : List.Forall₂ (fun r p => r.1 = p.1 ∧ encode schema p.2 = .ok r.2) records rows)
    {Q : List (RecordId × Row) → Store → Prop} (hQ : Q rows st) :
    (RecordManager.decodeRecords schema records : Prog PageId Page C _).wp allow pre Q st := by
  induction h generalizing Q with
  | nil => exact hQ
  | @cons r p records rows hr _ ih =>
    obtain ⟨rid, bs⟩ := r
    obtain ⟨rid', row⟩ := p
    obtain ⟨rfl, henc⟩ := hr
    unfold RecordManager.decodeRecords
    rw [Prog.wp_bind, Prog.wp_check (decode_encode henc)]
    dsimp only
    rw [Prog.wp_bind]
    exact ih hQ

/-- The listing that `Scan` shows: the rows in the order of the records. -/
theorem TableAt.listing (h : TableAt st t) : ∃ rows, Lists rows t.rows ∧
    List.Forall₂ (fun r p => r.1 = p.1 ∧ encode t.schema p.2 = .ok r.2)
      (heapRecords st t.chain) rows := by
  obtain ⟨first, hi⟩ := h.heap
  refine Lists.of_encoded (R := fun row bs => encode t.schema row = .ok bs)
    (nodup_heapRecords hi.nodup) (fun r hr => ?_) fun rid row hrow => ?_
  · obtain ⟨hpage, hrec⟩ := mem_heapRecords.mp hr
    exact h.row hpage hrec
  · obtain ⟨hpage, bs, hbs, -⟩ := h.record hrow
    exact List.mem_map_of_mem (f := Prod.fst) (mem_heapRecords.mpr ⟨hpage, hbs⟩)

/-- `Scan` returns the rows whose encodings are the records of the heap, in their order. -/
theorem scan_records_wp (db : Database σ)
    (h : TablesInv db.catalog.tables db.openTables db.dataPool tables) (ht : tables table = some t)
    (hall : List.Forall₂ (fun r p => r.1 = p.1 ∧ encode t.schema p.2 = .ok r.2)
      (heapRecords db.dataPool t.chain) rows)
    (hQ : ∀ o, TablesInv db.catalog.tables o db.dataPool tables →
      Q (.ok rows) { db with openTables := o }) : wp allow (scan table) Q db := by
  unfold scan
  rw [wp_bind]
  refine requireTable_wp h _ ht ?_
  intro rm o hschema hinv hopen hinvs
  refine Database.wp_onData (P := fun r st => r = rows ∧ st = db.dataPool) ?_ ?_
  · unfold RecordManager.scan
    rw [Prog.wp_bind]
    refine HeapFile.scan_wp hinv (Nat.lt_succ_of_le hinv.length_le) ?_
    rw [hschema]
    exact decodeRecords_wp hall ⟨rfl, rfl⟩
  · rintro _ _ ⟨rfl, rfl⟩
    exact hQ o hinvs

/-- `Scan` lists the rows of the table. -/
theorem scan_wp (db : Database σ) (h : TablesInv db.catalog.tables db.openTables db.dataPool tables)
    (ht : tables table = some t)
    (hQ : ∀ rows o, Lists rows t.rows → TablesInv db.catalog.tables o db.dataPool tables →
      Q (.ok rows) { db with openTables := o }) : wp allow (scan table) Q db := by
  obtain ⟨rows, hlists, hall⟩ := (h.at ht).listing
  exact scan_records_wp db h ht hall fun o ho => hQ rows o hlists ho

end MiniDB.TableManager
