import MiniDB.Executor.Equiv.Aggregates
import MiniDB.Executor.Equiv.Conjuncts
import MiniDB.Executor.Equiv.Mirror

/-!
# Index plans and sequential plans

A SELECT reads its table through a scan of the table or through an index.  Both hand out rows of the
table; the index only those whose key is in the range that is asked for (`indexScan_produces`).  For a
comparison of an integer column with `=`, `<`, `<=`, `>` or `>=` this range covers every row that
satisfies the WHERE clause, so that the filter on top lets the same rows through.  For `!=` the range is
not bounded, but NULLs satisfy the comparison and are not in the index.
-/

namespace MiniDB.Executor

open Paged Effect BPlusTree TableManager CatalogManager Cursor
open Effect.Action (exec_bind exec_get exec_onPart post wp wp_attempt wp_bind wp_mono_ok wp_of_exec)
open Checked (ofResult_ok pure_inj throw_bind)

variable {σ : Type} [IndexPool σ] [LawfulIndexPool σ] {allow : Fault → Prop} {db : Database σ}
  {v : DbView} {name : Str} {t : TableView} {db₀ : Database σ} {tree : PageId}

/-! ### Scans -/

/-- While a query runs the database is as it was, but for the tables that are open. -/
structure Reading (db₀ : Database σ) (v : DbView) (db : Database σ) : Prop where
  inv : DbInv db v
  same : ∃ o, db = { db₀ with openTables := o }

theorem Reading.refl (h : DbInv db v) : Reading db v db := ⟨h, db.openTables, rfl⟩

/-- Another table is opened. -/
theorem Reading.open (h : Reading db₀ v db) {o : UnorderedMap Str RecordManager}
    (ho : TablesInv db.catalog.tables o db.dataPool v.tables) :
    Reading db₀ v { db with openTables := o } := by
  obtain ⟨o', rfl⟩ := h.same
  exact ⟨⟨h.inv.catalog, ho, h.inv.indexes⟩, o, rfl⟩

/-- A row as a tuple. -/
def toTuple (r : RecordId × Row) : Tuple := ⟨r.1, r.2⟩

omit [IndexPool σ] [LawfulIndexPool σ] in
/-- A sequential scan hands out what it has read when it was opened. -/
theorem seqScan_produces_of_exec {I : Database σ → Prop} {rows : List (RecordId × Row)}
    {db' : Database σ} (hexec : (TableManager.scan name).exec db = .ok (.ok rows, db')) (hdb' : I db') :
    Produces allow I (seqScan name) ⟨rows.map toTuple, none, none⟩ db := by
  refine (wp_bind _ _ _).mpr ((wp_attempt _ _).mpr ?_)
  refine wp_of_exec hexec ⟨?_, hdb'⟩
  exact yields_of_list (c := seqScan name) id rfl (fun _ _ => rfl) (fun _ => rfl) (fun _ => le_rfl) _

/-- A sequential scan hands out the rows of the table. -/
theorem seqScan_produces (allow : Fault → Prop) (h : DbInv db v) (ht : v.tables name = some t) :
    ∃ rows, Lists rows t.rows ∧
      Produces allow (Reading db v) (seqScan name) ⟨rows.map toTuple, none, none⟩ db := by
  have hwp : wp (fun _ => False) (TableManager.scan name)
      (fun r db' => ∃ rows, r = .ok rows ∧ Lists rows t.rows ∧ Reading db v db') db :=
    scan_wp db h.tables ht fun rows o hlists ho => ⟨rows, rfl, hlists, (Reading.refl h).open ho⟩
  obtain ⟨_, db', hexec, rows, rfl, hlists, hreading⟩ := Action.exec_of_wp hwp
  exact ⟨rows, hlists, seqScan_produces_of_exec hexec hreading⟩

/-- The keys a lookup is about. -/
def IndexLookup.Covers : IndexLookup → Key → Prop
  | .equal key, k => k = key
  | .range low lowInclusive high highInclusive, k => Within low lowInclusive high highInclusive k

instance (lookup : IndexLookup) : DecidablePred lookup.Covers :=
  match lookup with
  | .equal key => fun k => inferInstanceAs (Decidable (k = key))
  | .range low lowInclusive high highInclusive => fun k =>
    inferInstanceAs (Decidable (Within low lowInclusive high highInclusive k))

/-- The lookup finds all entries it is about: the trees are exact, or there is no bound. -/
def IndexLookup.Complete (σ : Type) [IndexPool σ] [LawfulIndexPool σ] (lookup : IndexLookup) : Prop :=
  LawfulIndexPool.exact σ ∨ lookup = .range none true none true

/-- The candidates are entries of the tree. -/
theorem candidates_exec (h : DbInv db v) {b : Bag} (hb : v.bags tree = some b) (lookup : IndexLookup) :
    ∃ rids, (lookup.candidates tree).exec db = .ok (.ok (.ok rids), db) ∧
      (∀ rid ∈ rids, ∃ key, (key, rid) ∈ b) ∧
      (lookup.Complete σ →
        (rids : Multiset RecordId) = (b.filter fun e => lookup.Covers e.1).map Prod.snd) := by
  cases lookup with
  | equal key =>
    obtain ⟨rids, hexec, hmem, hall⟩ := LawfulIndexPool.searchEqual key h.indexes.holds hb
    refine ⟨rids, ?_, fun rid hrid => ⟨key, hmem rid hrid⟩, fun h => hall (h.resolve_right nofun)⟩
    rw [IndexLookup.candidates, Database.onIndex, exec_onPart, hexec]
    rfl
  | range low lowInclusive high highInclusive =>
    obtain ⟨es, hexec, hmem, hall⟩ := LawfulIndexPool.rangeScan low lowInclusive high highInclusive
      h.indexes.holds hb
    refine ⟨es.map Prod.snd, ?_, ?_, fun hcomplete => ?_⟩
    · rw [IndexLookup.candidates, exec_bind, Database.onIndex, exec_onPart, hexec]
      rfl
    · intro rid hrid
      obtain ⟨⟨key, r⟩, he, rfl⟩ := List.mem_map.mp hrid
      exact ⟨key, hmem _ he⟩
    · rw [← Multiset.map_coe]
      rcases hcomplete with hexact | hrange
      · rw [hall hexact]
        rfl
      · cases hrange
        obtain ⟨es', hexec', rfl⟩ := LawfulIndexPool.scanAll h.indexes.holds hb
        cases hexec.symm.trans hexec'
        rw [Multiset.filter_eq_self.mpr fun _ _ => ⟨nofun, nofun⟩]

/-- The tuples of the candidates, where `read` says what can be read behind an id. -/
def readTuples (read : RecordId → Option Row) (rids : List RecordId) : List Tuple :=
  rids.filterMap fun rid => (read rid).map fun row => ⟨rid, row⟩

/-- In every world with `I`, a call of `GetRow` gives what `read` says. -/
def Reads (allow : Fault → Prop) (I : Database σ → Prop) (name : Str) (read : RecordId → Option Row)
    (rid : RecordId) : Prop :=
  ∀ x, I x → wp allow (TableManager.getRow name rid)
    (fun r x' => I x' ∧ ∀ row, r = .ok row ↔ read rid = some row) x

variable {I : Database σ → Prop} {read : RecordId → Option Row} {rids : List RecordId} {a b : Value}
  {x y : Int} {op : BinaryOp}

omit [IndexPool σ] [LawfulIndexPool σ] in
/-- `IndexScanOperator::Next` goes on to the next candidate that can be read. -/
theorem nextCandidate_wp (hread : ∀ rid ∈ rids, Reads allow I name read rid) (hdb : I db) :
    wp allow (nextCandidate name rids) (post
      (fun r db' => I db' ∧ r.2 ⊆ rids ∧
        match r.1 with
        | none => readTuples read rids = []
        | some t => readTuples read rids = t :: readTuples read r.2 ∧ r.2.length < rids.length)
      fun _ _ => False) db := by
  induction rids generalizing db with
  | nil => exact ⟨hdb, List.Subset.refl _, rfl⟩
  | cons rid rids ih =>
    rw [nextCandidate, wp_bind, wp_attempt]
    refine Action.wp_mono ?_ (hread rid (List.mem_cons_self ..) db hdb)
    rintro r db₁ ⟨hdb₁, hrow⟩
    rw [Action.post_ok]
    cases r with
    | ok row =>
      have hsome := (hrow row).mp rfl
      refine ⟨hdb₁, List.subset_cons_self .., ?_, Nat.lt_succ_self _⟩
      rw [readTuples, List.filterMap_cons_some (by rw [hsome]; rfl)]
      rfl
    | error e =>
      -- nothing is handed out for it
      have hnone : read rid = none := by
        refine Option.eq_none_iff_forall_ne_some.mpr fun row hsome => ?_
        cases (hrow row).mpr hsome
      have hskip : readTuples read (rid :: rids) = readTuples read rids := by
        rw [readTuples, List.filterMap_cons_none (by rw [hnone]; rfl), readTuples]
      rw [hskip]
      refine wp_mono_ok ?_
        (ih (fun rid' hrid' => hread rid' (List.mem_cons_of_mem _ hrid')) hdb₁)
      rintro ⟨t? | t, rest⟩ db₂ ⟨hdb₂, hsub, hres⟩
      · exact ⟨hdb₂, List.subset_cons_of_subset _ hsub, hres⟩
      · exact ⟨hdb₂, List.subset_cons_of_subset _ hsub, hres.1, Nat.lt_succ_of_lt hres.2⟩

omit [LawfulIndexPool σ] in
theorem indexScan_yields {lookup : IndexLookup} (hread : ∀ rid ∈ rids, Reads allow I name read rid) :
    Yields allow I (indexScan name tree lookup) ⟨readTuples read rids, none, none⟩
      (rids, (none : Option Status)) := by
  -- induction on the tuples that are handed out
  have hall : ∀ items rids, readTuples read rids = items →
      (∀ rid ∈ rids, Reads allow I name read rid) →
      YieldsFrom allow I (indexScan name tree lookup) none none items
        (rids, (none : Option Status)) := by
    intro items
    induction items with
    | nil =>
      intro rids hitems hread
      refine ⟨rfl, fun db hdb => (wp_bind (nextCandidate name rids) _ _).mpr ?_⟩
      refine wp_mono_ok ?_ (nextCandidate_wp hread hdb)
      rintro ⟨t? | t, rest⟩ db' ⟨hdb', -, hres⟩
      · exact ⟨rfl, rfl, hdb'⟩
      · rw [hitems] at hres
        cases hres.1
    | cons t items ih =>
      intro rids hitems hread
      refine ⟨rfl, ?_, fun db hdb => (wp_bind (nextCandidate name rids) _ _).mpr ?_⟩
      · have hle : (readTuples read rids).length ≤ rids.length := List.length_filterMap_le _ _
        rw [hitems] at hle
        exact hle
      · refine wp_mono_ok ?_ (nextCandidate_wp hread hdb)
        rintro ⟨t? | t', rest⟩ db' ⟨hdb', hsub, hres⟩
        · rw [hitems] at hres
          cases hres
        · dsimp only at hres
          rw [hitems, List.cons.injEq] at hres
          obtain ⟨⟨rfl, hrest⟩, -⟩ := hres
          exact ⟨rfl, ih rest hrest.symm fun rid hrid => hread rid (hsub hrid), hdb'⟩
  exact hall _ rids rfl hread

omit [LawfulIndexPool σ] in
/-- An index scan hands out what can be read behind the candidates of its lookup. -/
theorem indexScan_produces {lookup : IndexLookup}
    (hcand : (lookup.candidates tree).exec db = .ok (.ok (.ok rids), db))
    (hread : ∀ rid ∈ rids, Reads allow I name read rid) (hdb : I db) :
    Produces allow I (indexScan name tree lookup) ⟨readTuples read rids, none, none⟩ db :=
  (wp_bind (lookup.candidates tree) _ _).mpr
    (wp_of_exec hcand ⟨indexScan_yields hread, hdb⟩)

/-- What `GetRow` reads of a table in its own pages. -/
theorem reads_rows (ht : v.tables name = some t) {rid : RecordId} (hrid : rid.pageId ∈ t.chain) :
    Reads allow (Reading db₀ v) name t.rows rid := by
  intro x hx
  obtain ⟨page, hget, hl⟩ := (hx.inv.tables.at ht).page hrid
  refine getRow_wp hx.inv.tables ht hget hl ?_
  intro r o ho hrow _
  exact ⟨hx.open ho, hrow hrid⟩

/-! ### Comparisons -/

/-- What a comparison operator says about integers. -/
def Compares (op : BinaryOp) (a b : Int) : Prop :=
  match op with
  | .eq => a = b
  | .neq => a ≠ b
  | .lt => a < b
  | .lte => a ≤ b
  | .gt => a > b
  | .gte => a ≥ b
  | .and | .or => False

instance (op : BinaryOp) (a b : Int) : Decidable (Compares op a b) :=
  match op with
  | .eq => inferInstanceAs (Decidable (a = b))
  | .neq => inferInstanceAs (Decidable (a ≠ b))
  | .lt => inferInstanceAs (Decidable (a < b))
  | .lte => inferInstanceAs (Decidable (a ≤ b))
  | .gt => inferInstanceAs (Decidable (a > b))
  | .gte => inferInstanceAs (Decidable (a ≥ b))
  | .and | .or => inferInstanceAs (Decidable False)

/-- An ordered comparison of two values that are not NULL. -/
theorem evaluateComparison_ordered (ha : isNull a = false) (hb : isNull b = false)
    (h : compare? a b = some (threeWay x y)) :
    evaluateComparison .lt a b = pure (.bool (decide (x < y))) ∧
      evaluateComparison .lte a b = pure (.bool (decide (x ≤ y))) ∧
      evaluateComparison .gt a b = pure (.bool (decide (x > y))) ∧
      evaluateComparison .gte a b = pure (.bool (decide (x ≥ y))) := by
  simp only [evaluateComparison, ha, hb, Bool.or_self, compareOrdered, h, ofResult_ok,
    pure_bind, threeWay_neg, threeWay_nonpos, threeWay_pos, threeWay_nonneg]
  exact ⟨rfl, rfl, rfl, rfl⟩

/-- A comparison of integers that rounding does not make equal. -/
theorem evaluateComparison_separated (hand : op ≠ .and) (hor : op ≠ .or) (ha : IsInteger a x)
    (hb : IsInteger b y) (h : Separated x y) :
    evaluateComparison op a b = pure (.bool (decide (Compares op x y))) := by
  have hcmp : compare? a b = some (threeWay x y) := by
    rw [compare?_integers ha hb, h.threeWay_eq]
  have heq : valuesEqual a b = .ok (decide (x = y)) := by
    rw [valuesEqual_integers ha hb, decide_eq_decide.mpr h.eq_iff]
  obtain ⟨hlt, hle, hgt, hge⟩ := evaluateComparison_ordered ha.isNull_eq hb.isNull_eq hcmp
  cases op with
  | and => exact absurd rfl hand
  | or => exact absurd rfl hor
  | eq =>
    simp only [evaluateComparison, heq]
    rfl
  | neq =>
    simp only [evaluateComparison, heq, ofResult_ok, pure_bind, ← decide_not]
    rfl
  | lt => exact hlt
  | lte => exact hle
  | gt => exact hgt
  | gte => exact hge

/-- A comparison of an integer of the column with the literal. -/
theorem evaluateComparison_int32 (hand : op ≠ .and) (hor : op ≠ .or) (n : Int32) (k : Int64) :
    evaluateComparison op (.int32 n) (.int64 k)
      = pure (.bool (decide (Compares op n.toInt k.toInt))) :=
  evaluateComparison_separated hand hor (.int32 n) (.int64 k) (separated_int32 n k.toInt)

/-- A comparison with NULL. -/
theorem evaluateComparison_null (hand : op ≠ .and) (hor : op ≠ .or) (k : Int64) :
    evaluateComparison op .null (.int64 k) = pure (.bool (decide (op = .neq))) := by
  cases op with
  | and => exact absurd rfl hand
  | or => exact absurd rfl hor
  | eq | neq | lt | lte | gt | gte => rfl

/-! ### The conjunct of the index -/

variable {schema : Schema} {conj : IndexableConjunct} {row : Row} {e : Expr}
  {indexes : List IndexMetadata} {idx : IndexMetadata} {tuple : Tuple} {table : TableMetadata}

/-- The conjunct holds on a row with an integer, or with NULL, in its column. -/
theorem holds_conjunct (h : extractIndexableConjunct e = some conj) {c : Fin schema.columnCount}
    (hc : schema.indexOf conj.column = some c) :
    (∀ n, row[c.val]? = some (.int32 n) →
      (Holds schema row e ↔ Compares conj.op n.toInt conj.value.toInt)) ∧
    (row[c.val]? = some .null → (Holds schema row e ↔ conj.op = .neq)) := by
  obtain ⟨hand, hor, -⟩ := extract_some h
  -- the literal may be on either side; the comparison that was extracted has it on the right
  have hholds : ∀ value, row[c.val]? = some value →
      (Holds schema row e ↔
        evaluateComparison conj.op value (.int64 conj.value) = pure (.bool true)) := by
    intro value hvalue
    have hcol : evaluate schema row (.column conj.column) = pure value := by
      rw [evaluate, hc]
      simp only [hvalue]
      rfl
    rw [holds_iff, evaluate_extracted h, IndexableConjunct.toExpr, evaluate_comparison hand hor, hcol]
    exact Iff.rfl
  constructor
  · intro n hn
    rw [hholds _ hn, evaluateComparison_int32 hand hor, pure_inj, Value.bool.injEq,
      decide_eq_true_iff]
  · intro hnull
    rw [hholds _ hnull, evaluateComparison_null hand hor, pure_inj, Value.bool.injEq,
      decide_eq_true_iff]

/-- The index of the loop over the conjuncts is on the column of one of them. -/
theorem chooseFrom_some {es : List Expr} {chosen : Option (IndexableConjunct × IndexMetadata)}
    {P : IndexableConjunct × IndexMetadata → Prop}
    (hes : ∀ e ∈ es, ∀ conj, extractIndexableConjunct e = some conj →
      ∀ idx ∈ indexes, idx.columnName = conj.column → P (conj, idx))
    (hchosen : ∀ r, chosen = some r → P r) {r : IndexableConjunct × IndexMetadata}
    (h : chooseFrom indexes es chosen = some r) : P r := by
  induction es generalizing chosen with
  | nil => exact hchosen r h
  | cons e es ih =>
    have hes' := fun e' he' => hes e' (List.mem_cons_of_mem _ he')
    rw [chooseFrom] at h
    cases hconj : extractIndexableConjunct e with
    | none =>
      rw [hconj] at h
      exact ih hes' hchosen h
    | some conj =>
      rw [hconj] at h
      dsimp only at h
      cases hfind : indexes.find? fun idx => idx.columnName = conj.column with
      | none =>
        rw [hfind] at h
        exact ih hes' hchosen h
      | some idx =>
        rw [hfind] at h
        dsimp only at h
        have hname := List.find?_some hfind
        have hP : P (conj, idx) := hes e (List.mem_cons_self ..) conj hconj idx
          (List.mem_of_find?_eq_some hfind) (of_decide_eq_true hname)
        split_ifs at h
        · rw [← Option.some.inj h]
          exact hP
        · refine ih hes' (fun r hr => ?_) h
          cases chosen with
          | none =>
            rw [← Option.some.inj hr]
            exact hP
          | some r' => exact hchosen r hr

theorem chooseIndex_some {where? : Option Expr} (h : chooseIndex indexes where? = some (conj, idx)) :
    idx ∈ indexes ∧ idx.columnName = conj.column ∧
      ∃ w e, where? = some w ∧ e ∈ flattenAnd w ∧ extractIndexableConjunct e = some conj := by
  unfold chooseIndex at h
  split at h
  · contradiction
  · contradiction
  · rename_i w _
    obtain ⟨hidx, hname, e, he, hconj⟩ := chooseFrom_some
      (P := fun r => r.2 ∈ indexes ∧ r.2.columnName = r.1.column ∧
        ∃ e ∈ flattenAnd w, extractIndexableConjunct e = some r.1)
      (fun e he conj hconj idx hidx hname => ⟨hidx, hname, e, he, hconj⟩) (by simp) h
    exact ⟨hidx, hname, w, e, rfl, he, hconj⟩

/-- The lookup covers the keys that pass the comparison. -/
theorem lookup_covers {key : Key} (h : Compares conj.op key.toInt conj.value.toInt) :
    conj.lookup.Covers key := by
  unfold IndexableConjunct.lookup
  cases hop : conj.op with
  | eq => exact Int64.toInt.inj (by rwa [hop] at h)
  | neq => exact ⟨by simp, by simp⟩
  | and | or =>
    rw [hop] at h
    exact h.elim
  | lt =>
    rw [hop] at h
    simpa [Compares, IndexLookup.Covers, Within, Int64.lt_iff_toInt_lt] using h
  | lte =>
    rw [hop] at h
    simpa [Compares, IndexLookup.Covers, Within, Int64.le_iff_toInt_le] using h
  | gt =>
    rw [hop] at h
    simpa [Compares, IndexLookup.Covers, Within, Int64.lt_iff_toInt_lt] using h
  | gte =>
    rw [hop] at h
    simpa [Compares, IndexLookup.Covers, Within, Int64.le_iff_toInt_le] using h

/-! ### The two sources -/

/-- The tuples of the index: the rows whose key the lookup is about. -/
theorem readTuples_perm {rows : List (RecordId × Row)} (hlists : Lists rows t.rows) {b : Bag}
    {key : Row → Option Key} (hb : b = indexEntries key rows) {p : Key → Bool}
    (hrids : (rids : Multiset RecordId) = (b.filter fun e => p e.1).map Prod.snd) :
    (readTuples t.rows rids).Perm ((rows.filter fun r => (key r.2).any p).map toTuple) := by
  have hperm : rids.Perm ((rows.filter fun r => (key r.2).any p).map Prod.fst) := by
    rw [← Multiset.coe_eq_coe, hrids, hb, Multiset.filter_coe, Multiset.map_coe]
    congr 1
    rw [← indexEntries_filter]
    simp
  have hread : readTuples t.rows ((rows.filter fun r => (key r.2).any p).map Prod.fst)
      = (rows.filter fun r => (key r.2).any p).map toTuple := by
    rw [readTuples, List.filterMap_map]
    refine List.filterMap_eq_map_iff_forall_eq_some.mpr fun r hr => ?_
    have hrow := (hlists.mem_iff r.1 r.2).mp (List.mem_filter.mp hr).1
    rw [Function.comp_apply, hrow]
    rfl
  rw [← hread]
  exact hperm.filterMap _

/-- The predicate holds on the tuple. -/
def passes (w : Expr) (schema : Schema) (t : Tuple) : Bool :=
  decide (predicateResult w schema t.values = .ok true)

theorem passes_iff {w : Expr} (h : tuple.Fits schema) :
    passes w schema tuple = true ↔ Holds schema tuple.values w := by
  rw [passes, decide_eq_true_iff, Holds, evaluatePredicate_eq h]
  cases predicateResult w schema tuple.values with
  | error e => exact ⟨nofun, nofun⟩
  | ok b =>
    rw [ofResult_ok, pure_inj, Except.ok.injEq]

/-- A filter without an error has evaluated its predicate on every tuple. -/
theorem filterItems_none {w : Expr} {ts : List Tuple} (h : (filterItems w schema ts).2 = none) :
    ∀ tuple ∈ ts, ∃ b, predicateResult w schema tuple.values = .ok b := by
  induction ts with
  | nil => exact fun _ ht => nomatch ht
  | cons tuple ts ih =>
    rw [filterItems] at h
    cases hres : predicateResult w schema tuple.values with
    | error e =>
      rw [hres] at h
      cases h
    | ok b =>
      have hrest : (filterItems w schema ts).2 = none := by
        rw [hres] at h
        cases b <;> exact h
      intro tuple' htuple'
      rcases List.mem_cons.mp htuple' with rfl | htuple'
      · exact ⟨b, hres⟩
      · exact ih hrest tuple' htuple'

/-- A filter only lets tuples through on which its predicate holds. -/
theorem filterItems_passes {w : Expr} {ts : List Tuple} (h : tuple ∈ (filterItems w schema ts).1) :
    passes w schema tuple = true := by
  induction ts with
  | nil => cases h
  | cons tuple' ts ih =>
    rw [filterItems] at h
    cases hres : predicateResult w schema tuple'.values with
    | error e =>
      rw [hres] at h
      cases h
    | ok b =>
      rw [hres] at h
      cases b with
      | false => exact ih h
      | true =>
        rcases List.mem_cons.mp h with rfl | h
        · exact decide_eq_true hres
        · exact ih h

/-- A predicate that evaluates on every tuple lets those through on which it holds. -/
theorem filterItems_eq {w : Expr} {ts : List Tuple}
    (h : ∀ tuple ∈ ts, ∃ b, predicateResult w schema tuple.values = .ok b) :
    filterItems w schema ts = (ts.filter (passes w schema), none) := by
  induction ts with
  | nil => rfl
  | cons tuple ts ih =>
    obtain ⟨b, hb⟩ := h tuple (List.mem_cons_self ..)
    have hrest := ih fun tuple' ht' => h tuple' (List.mem_cons_of_mem _ ht')
    rw [filterItems, hb, hrest, List.filter_cons, passes, hb]
    cases b <;> rfl

/-- The rows of a table and the tuples of an index on it: those that have a key the lookup is about. -/
structure Sources (schema : Schema) (key : Row → Option Key) (lookup : IndexLookup)
    (rows : List (RecordId × Row)) (tuples : List Tuple) : Prop where
  fits : ∀ r ∈ rows, r.2.length = schema.columnCount
  index : tuples.Perm ((rows.filter fun r => (key r.2).any fun k => lookup.Covers k).map toTuple)

section Sources

variable {schema : Schema} {w : Expr} {key : Row → Option Key} {lookup : IndexLookup}
  {rows : List (RecordId × Row)} {tuples : List Tuple}

theorem Sources.subset (h : Sources schema key lookup rows tuples) :
    tuples ⊆ rows.map toTuple := by
  intro tuple ht
  obtain ⟨r, hr, rfl⟩ := List.mem_map.mp (h.index.subset ht)
  exact List.mem_map_of_mem (List.mem_filter.mp hr).1

theorem Sources.fits_seq (h : Sources schema key lookup rows tuples) :
    ∀ tuple ∈ rows.map toTuple, tuple.Fits schema := by
  intro tuple ht
  obtain ⟨r, hr, rfl⟩ := List.mem_map.mp ht
  exact h.fits r hr

/-- The index plan sees a part of what the sequential plan sees. -/
theorem Sources.filterItems_index (h : Sources schema key lookup rows tuples)
    (hok : (filterItems w schema (rows.map toTuple)).2 = none) :
    (filterItems w schema tuples).2 = none ∧ (filterItems w schema tuples).1.Perm
      ((filterItems w schema (rows.map toTuple)).1.filter fun tuple =>
        (key tuple.values).any fun k => lookup.Covers k) := by
  have hall := filterItems_none hok
  have hsub := fun tuple ht => hall tuple (h.subset ht)
  rw [filterItems_eq hall, filterItems_eq hsub]
  refine ⟨rfl, ?_⟩
  have hperm := h.index.filter (passes w schema)
  have hswap : (rows.filter fun r => (key r.2).any fun k => lookup.Covers k).map toTuple
      = (rows.map toTuple).filter fun tuple => (key tuple.values).any fun k => lookup.Covers k := by
    rw [List.filter_map]
    rfl
  rw [hswap, List.filter_filter] at hperm
  rw [List.filter_filter]
  refine hperm.trans (List.Perm.of_eq (List.filter_congr fun tuple _ => ?_))
  rw [Bool.and_comm]

end Sources

/-- The two scans of a table with an index that mirrors it. -/
theorem scans_produce (allow : Fault → Prop) (h : DbInv db v) (hidx : MirroredBy v idx)
    (ht : v.tables idx.tableName = some t) {lookup : IndexLookup} (hcomplete : lookup.Complete σ) :
    ∃ rows tuples, Lists rows t.rows ∧
      Sources t.schema (keyOf t.schema idx.columnName) lookup rows tuples ∧
      Produces allow (Reading db v) (seqScan idx.tableName) ⟨rows.map toTuple, none, none⟩ db ∧
      Produces allow (Reading db v) (indexScan idx.tableName idx.metaPageId lookup)
        ⟨tuples, none, none⟩ db := by
  obtain ⟨t', b, ht', -, hb, hmirror⟩ := hidx
  rw [ht] at ht'
  obtain rfl := Option.some.inj ht'
  obtain ⟨rows, hlists, hseq⟩ := seqScan_produces allow h ht
  obtain ⟨rids, hcand, hmem, hall⟩ := candidates_exec h hb lookup
  have hentries := hmirror.eq hlists
  have hread : ∀ rid ∈ rids, Reads allow (Reading db v) idx.tableName t.rows rid := by
    intro rid hrid
    obtain ⟨key, hkey⟩ := hmem rid hrid
    -- an entry of the index is one of a row, which is in a page of the table
    obtain ⟨row, hrow, -⟩ := hmirror.exists_of_mem hkey
    exact reads_rows ht ((h.tables.at ht).record hrow).1
  refine ⟨rows, readTuples t.rows rids, hlists, ⟨fun r hr => ?_, ?_⟩, hseq,
    indexScan_produces hcand hread (.refl h)⟩
  · exact ((h.tables.at ht).conforms ((hlists.mem_iff r.1 r.2).mp hr)).length_eq
  · refine readTuples_perm hlists hentries (p := fun k => decide (lookup.Covers k)) ?_
    rw [hall hcomplete]
    congr 1
    exact Multiset.filter_congr fun e _ => (decide_eq_true_iff).symm

/-! ### Counting -/

/-- The aggregate is a COUNT. -/
def IsCount : AggregateItem → Prop
  | .countStar _ => True
  | .ofColumn func _ _ => func = .count

/-- The column of the aggregate is one of the table. -/
def Known (schema : Schema) : AggregateItem → Prop
  | .countStar _ => True
  | .ofColumn _ column _ => ∃ idx, schema.indexOf column = some idx

/-- What a row adds to a COUNT. -/
def counted (schema : Schema) (row : Row) : AggregateItem → Int64
  | .countStar _ => 1
  | .ofColumn _ column _ => if (valueIn schema column row).isSome then 1 else 0

section Counting

variable {schema : Schema} {accs : List (AggregateItem × Accumulator)} {ts ts' : List Tuple}
  {item : AggregateItem}

theorem supported_of_known (hcount : IsCount item) (hknown : Known schema item) :
    Supported schema item := by
  cases item with
  | countStar alias? => trivial
  | ofColumn func column alias? => exact ⟨.inl hcount, hknown⟩

/-- COUNT adds to the count. -/
theorem accumulated_count (hcount : IsCount item) (acc : Accumulator) (row : Row) :
    accumulated schema item acc row = { acc with count := acc.count + counted schema row item } := by
  cases item with
  | countStar alias? => rfl
  | ofColumn func column alias? =>
    obtain rfl : func = .count := hcount
    rw [accumulated, counted]
    cases valueIn schema column row with
    | none => simp
    | some v => rfl

/-- The error about an unknown column says nothing about the tuple. -/
theorem accumulate_unknown (hunknown : ¬ Known schema item) :
    ∃ e, ∀ values acc, accumulate schema values item acc = throw e := by
  cases item with
  | countStar alias? => exact absurd trivial hunknown
  | ofColumn func column alias? =>
    have hidx : schema.indexOf column = none :=
      Option.eq_none_iff_forall_ne_some.mpr fun idx h => hunknown ⟨idx, h⟩
    refine ⟨unknownColumn column (if func = .count then "COUNT" else "aggregate"), fun _ _ => ?_⟩
    simp only [accumulate, hidx]

/-- Every tuple is refused with the same error if a column is unknown. -/
theorem accumulateTuple_unknown (h : ∀ p ∈ accs, IsCount p.1)
    (hunknown : ∃ p ∈ accs, ¬ Known schema p.1) :
    ∃ e, ∀ tuple, Tuple.Fits schema tuple → accumulateTuple schema accs tuple = throw e := by
  induction accs with
  | nil =>
    obtain ⟨p, hp, -⟩ := hunknown
    cases hp
  | cons p accs ih =>
    by_cases hknown : Known schema p.1
    · have hrest : ∃ p ∈ accs, ¬ Known schema p.1 := by
        obtain ⟨p', hp', hunknown⟩ := hunknown
        rcases List.mem_cons.mp hp' with rfl | hp'
        · exact absurd hknown hunknown
        · exact ⟨p', hp', hunknown⟩
      obtain ⟨e, he⟩ := ih (fun p' hp' => h p' (List.mem_cons_of_mem _ hp')) hrest
      refine ⟨e, fun tuple hfits => ?_⟩
      have hsupported := supported_of_known (h p (List.mem_cons_self ..)) hknown
      rw [accumulateTuple, List.mapM_cons, accumulate_supported hfits hsupported, pure_bind, pure_bind,
        ← accumulateTuple, he tuple hfits, throw_bind]
    · obtain ⟨e, he⟩ := accumulate_unknown hknown
      refine ⟨e, fun tuple _ => ?_⟩
      rw [accumulateTuple, List.mapM_cons, he, throw_bind, throw_bind]

/-- COUNT does not depend on the order of the tuples. -/
theorem accumulateAll_perm (h : ∀ p ∈ accs, IsCount p.1) (hfits : ∀ tuple ∈ ts, tuple.Fits schema)
    (hperm : ts'.Perm ts) : accumulateAll schema accs ts' = accumulateAll schema accs ts := by
  have hfits' : ∀ tuple ∈ ts', tuple.Fits schema := fun tuple ht => hfits tuple (hperm.subset ht)
  by_cases hunknown : ∃ p ∈ accs, ¬ Known schema p.1
  · -- either there is no tuple, or the first one is refused
    obtain ⟨e, he⟩ := accumulateTuple_unknown h hunknown
    unfold accumulateAll
    cases ts with
    | nil => rw [hperm.eq_nil]
    | cons tuple ts =>
      cases ts' with
      | nil => cases hperm.symm.eq_nil
      | cons tuple' ts' =>
        rw [List.foldlM_cons, List.foldlM_cons, he tuple (hfits tuple (List.mem_cons_self ..)),
          he tuple' (hfits' tuple' (List.mem_cons_self ..)), throw_bind, throw_bind]
  · have hall : ∀ p ∈ accs, Supported schema p.1 := fun p hp =>
      supported_of_known (h p hp) (not_not.mp fun hp' => hunknown ⟨p, hp, hp'⟩)
    rw [accumulateAll_supported hall hfits, accumulateAll_supported hall hfits']
    congr 1
    refine List.map_congr_left fun p hp => ?_
    have hfold : ∀ acc, (ts'.map Tuple.values).foldl (accumulated schema p.1) acc
        = (ts.map Tuple.values).foldl (accumulated schema p.1) acc :=
      (hperm.map Tuple.values).foldl_eq' fun a _ b _ acc => by
        simp only [accumulated_count (h p hp)]
        rw [Int64.add_assoc, Int64.add_assoc, Int64.add_comm (counted ..)]
    rw [hfold]

theorem aggregateRow_perm {items : List AggregateItem} (h : ∀ item ∈ items, IsCount item)
    (hfits : ∀ tuple ∈ ts, tuple.Fits schema) (hperm : ts'.Perm ts) :
    aggregateRow items schema ts' = aggregateRow items schema ts := by
  have haccs : ∀ p ∈ items.map fun i => (i, ({} : Accumulator)), IsCount p.1 := by
    intro p hp
    obtain ⟨item, hitem, rfl⟩ := List.mem_map.mp hp
    exact h item hitem
  rw [aggregateRow, aggregateRow, accumulateAll_perm haccs hfits hperm]

end Counting

/-! ### The rest of a SELECT -/

/-- The select list is `*`, or of plain columns, or of COUNT aggregates. -/
def PlainOrCount : SelectList → Prop
  | .star => True
  | .items items => (∀ item ∈ items, ∃ column alias?, item = .plain column alias?) ∨
      ∀ item ∈ items, ∃ a, item = .aggregate a ∧ IsCount a

theorem PlainOrCount.cases {items : SelectList} (h : PlainOrCount items) :
    SelectList.aggregates items = [] ∨
      SelectList.anyPlain items = false ∧ ∀ a ∈ SelectList.aggregates items, IsCount a := by
  cases items with
  | star => exact .inl rfl
  | items items =>
    rcases h with hplain | hcount
    · refine .inl (List.filterMap_eq_nil_iff.mpr fun item hitem => ?_)
      obtain ⟨column, alias?, rfl⟩ := hplain item hitem
      rfl
    · refine .inr ⟨List.any_eq_false.mpr fun item hitem => ?_, fun a ha => ?_⟩
      · obtain ⟨a, rfl, -⟩ := hcount item hitem
        exact Bool.false_ne_true
      · obtain ⟨item, hitem, hsome⟩ := List.mem_filterMap.mp ha
        obtain ⟨a', rfl, ha'⟩ := hcount item hitem
        obtain rfl := Option.some.inj hsome
        exact ha'

section Select

variable {schema : Schema} {stmt : SelectStmt} {rows : List Row}

variable {source source' : TupleStream}

/-- Without a LIMIT, a SELECT that succeeds has seen its source end without an error. -/
theorem selectRows_atEnd (hlimit : stmt.limit = none) (h : selectRows stmt schema source = .ok rows) :
    source.atEnd = none := by
  unfold selectRows at h
  split_ifs at h
  · unfold aggregateRows at h
    cases hend : source.atEnd with
    | none => rfl
    | some e =>
      rw [hend] at h
      cases hrow : aggregateRow (SelectList.aggregates stmt.items) schema source.items with
      | error e' =>
        rw [hrow] at h
        cases h
      | ok row =>
        rw [hrow] at h
        cases h
  · have horder : (orderStream stmt schema source).atEnd = none := by
      rw [limitedStream, hlimit] at h
      unfold TupleStream.rows projectStream at h
      dsimp only at h
      cases hend : (orderStream stmt schema source).atEnd with
      | none => rfl
      | some e =>
        rw [hend] at h
        cases h
    unfold orderStream at horder
    cases hclause : stmt.orderBy with
    | none => rwa [hclause] at horder
    | some orderBy =>
      rw [hclause] at horder
      dsimp only at horder
      unfold sortStream at horder
      cases hcol : schema.indexOf orderBy.column with
      | none =>
        rw [hcol] at horder
        cases horder
      | some col => rwa [hcol] at horder

/-- ORDER BY of the same tuples in another order. -/
theorem orderStream_perm (stmt : SelectStmt) (schema : Schema)
    (hperm : source'.items.Perm source.items) (hend : source'.atEnd = source.atEnd) :
    (orderStream stmt schema source').items.Perm (orderStream stmt schema source).items ∧
      (orderStream stmt schema source').atEnd = (orderStream stmt schema source).atEnd := by
  unfold orderStream
  cases stmt.orderBy with
  | none => exact ⟨hperm, hend⟩
  | some orderBy =>
    dsimp only
    unfold sortStream
    cases schema.indexOf orderBy.column with
    | none => exact ⟨.refl _, rfl⟩
    | some col =>
      exact ⟨(sorted_perm orderBy col _).trans (hperm.trans (sorted_perm orderBy col _).symm), hend⟩

/-- Without a LIMIT, the same tuples in another order give the same rows in another order. -/
theorem selectRows_perm (hlimit : stmt.limit = none) (hlist : PlainOrCount stmt.items)
    (hfits : ∀ tuple ∈ source.items, tuple.Fits schema) (hperm : source'.items.Perm source.items)
    (hend : source'.atEnd = source.atEnd) (h : selectRows stmt schema source = .ok rows) :
    ∃ rows', selectRows stmt schema source' = .ok rows' ∧ rows'.Perm rows := by
  unfold selectRows at h ⊢
  by_cases hplain : SelectList.aggregates stmt.items = []
  · obtain ⟨hitems, hend'⟩ := orderStream_perm stmt schema hperm hend
    rw [if_neg (not_not.mpr hplain), limitedStream, hlimit] at h ⊢
    unfold TupleStream.rows projectStream at h ⊢
    dsimp only at h ⊢
    rw [hend']
    cases hstop : (orderStream stmt schema source).atEnd with
    | some e =>
      rw [hstop] at h
      cases h
    | none =>
      rw [hstop] at h
      rw [← Except.ok.inj h]
      exact ⟨_, rfl, (hitems.map _).map _⟩
  · obtain ⟨-, hcount⟩ := hlist.cases.resolve_left hplain
    rw [if_pos hplain] at h ⊢
    refine ⟨rows, ?_, .refl _⟩
    rw [← h, aggregateRows, aggregateRows, aggregateRow_perm hcount hfits hperm, hend]

end Select

/-- The access path for what `chooseIndex` says. -/
def accessPath : Option (IndexableConjunct × IndexMetadata) → AccessPath
  | none => .seqScan
  | some (conj, idx) => .indexScan idx.indexName idx.metaPageId conj.lookup

theorem chooseAccessPath_exec (h : DbInv db v) (stmt : SelectStmt) :
    (chooseAccessPath stmt).exec db = .ok (.ok (accessPath
      (chooseIndex (db.catalog.getIndexesForTable stmt.tableName) stmt.where?)), db) := by
  rw [chooseAccessPath, exec_bind, exec_get]
  dsimp only
  cases hchoice : chooseIndex (db.catalog.getIndexesForTable stmt.tableName) stmt.where? with
  | none => rfl
  | some r =>
    obtain ⟨conj, idx⟩ := r
    obtain ⟨-, name, hfind⟩ := mem_getIndexesForTable.mp (chooseIndex_some hchoice).1
    obtain ⟨b, hb⟩ := h.indexes.present hfind
    dsimp only
    rw [exec_bind, Database.onIndex, exec_onPart,
      LawfulIndexPool.openTree_old h.indexes.holds hb]
    rfl

omit [IndexPool σ] [LawfulIndexPool σ] in
theorem requireSchema_exec (htable : db.catalog.getTable name = some table) :
    (requireSchema name).exec db = .ok (.ok table.schema, db) := by
  rw [requireSchema, getSchema, exec_bind, exec_bind, exec_get]
  dsimp only
  rw [htable]
  rfl

/-- A SELECT on a table that exists, with a select list that is not mixed. -/
theorem executeSelect_exec (h : DbInv db v) {stmt : SelectStmt}
    (htable : db.catalog.getTable stmt.tableName = some table)
    (hlist : ¬ (SelectList.aggregates stmt.items ≠ [] ∧ SelectList.anyPlain stmt.items = true)) :
    (executeSelect stmt).exec db = (runPlan stmt table.schema (accessPath
      (chooseIndex (db.catalog.getIndexesForTable stmt.tableName) stmt.where?))).exec db := by
  rw [executeSelect, exec_bind, requireSchema_exec htable]
  dsimp only
  rw [if_neg hlist, exec_bind, chooseAccessPath_exec h]

/-! ### Agreement -/

section Agreement

variable {stmt : SelectStmt} {w : Expr} {ts : List Tuple} {path : AccessPath} {schema : Schema}

theorem filterStream_atEnd (w : Expr) (schema : Schema) (ts : List Tuple) :
    (filterStream w schema ⟨ts, none, none⟩).atEnd = (filterItems w schema ts).2 := by
  unfold filterStream
  cases (filterItems w schema ts).2 <;> rfl

omit [LawfulIndexPool σ] in
/-- The source of a SELECT with a WHERE clause. -/
theorem sourcePlan_produces (hw : stmt.where? = some w)
    (hscan : Produces allow I (path.scan stmt.tableName) ⟨ts, none, none⟩ db)
    (hfits : ∀ tuple ∈ ts, tuple.Fits schema) :
    Produces allow I (sourcePlan stmt schema path) (filterStream w schema ⟨ts, none, none⟩) db := by
  rw [sourcePlan, hw]
  exact filter_produces hscan hfits

variable {conj : IndexableConjunct}

/-- A row that satisfies the WHERE clause has a key the lookup is about, unless it has a NULL there and
the comparison is `!=`. -/
theorem covers_of_passes (he : e ∈ flattenAnd w) (hconj : extractIndexableConjunct e = some conj)
    {c : Fin schema.columnCount} (hc : schema.indexOf conj.column = some c)
    (hint : (schema.columnAt c).type = .int) (hrow : RowConforms schema row) (hw : Holds schema row w) :
    (∃ key, keyOf schema conj.column row = some key ∧ conj.lookup.Covers key) ∨
      row[c.val]? = some .null ∧ conj.op = .neq := by
  have hholds : Holds schema row e := (holds_iff_flattenAnd w).mp hw e he
  obtain ⟨hvalue, hnull⟩ := holds_conjunct hconj hc
  obtain ⟨value, hget, hconf⟩ := hrow.get c
  by_cases hn : isNull value = true
  · obtain rfl : value = .null := by cases value <;> simp_all [isNull]
    exact .inr ⟨hget, (hnull hget).mp hholds⟩
  · obtain ⟨n, rfl⟩ := (hconf.integer (Bool.eq_false_iff.mpr hn)).1 hint
    refine .inl ⟨n.toInt64, ?_, lookup_covers ?_⟩
    · rw [keyOf, hc, Option.bind_some, hget]
      rfl
    · rw [Int32.toInt_toInt64]
      exact (hvalue n hget).mp hholds

/-- Of the rows that satisfy the WHERE clause, the lookup is about those without a NULL. -/
theorem covers_iff (he : e ∈ flattenAnd w) (hconj : extractIndexableConjunct e = some conj)
    {c : Fin schema.columnCount} (hc : schema.indexOf conj.column = some c)
    (hint : (schema.columnAt c).type = .int) (hrow : RowConforms schema row) (hw : Holds schema row w) :
    ((keyOf schema conj.column row).any fun key => conj.lookup.Covers key)
      = decide (row[c.val]? ≠ some .null) := by
  rcases covers_of_passes he hconj hc hint hrow hw with ⟨key, hkey, hcovers⟩ | ⟨hnull, -⟩
  · have hne : row[c.val]? ≠ some .null := by
      intro hnull
      rw [keyOf, hc, Option.bind_some, hnull] at hkey
      cases hkey
    rw [hkey, Option.any_some, decide_eq_true hcovers, decide_eq_true hne]
  · have hkey : keyOf schema conj.column row = none := by
      rw [keyOf, hc, Option.bind_some, hnull]
      rfl
    rw [hkey, Option.any_none, decide_eq_false (not_not.mpr hnull)]

/-- The sources of the two plans of a SELECT with an index: if the sequential one ends without an error,
the other one does so too, and hands out its tuples without a NULL in the column. -/
structure SourcesAgree (schema : Schema) (conj : IndexableConjunct) (c : Nat)
    (seq ind : TupleStream) : Prop where
  fits_seq : ∀ tuple ∈ seq.items, tuple.Fits schema
  fits_index : ∀ tuple ∈ ind.items, tuple.Fits schema
  atEnd : seq.atEnd = none → ind.atEnd = none
  perm : seq.atEnd = none →
    ind.items.Perm (seq.items.filter fun tuple => decide (tuple.values[c]? ≠ some .null))
  null : conj.op ≠ .neq → ∀ tuple ∈ seq.items, tuple.values[c]? ≠ some .null

theorem sources_agree (allow : Fault → Prop) (hcomplete : conj.lookup.Complete σ) (h : DbInv db v)
    (hmirror : ∀ idx ∈ db.catalog.getIndexesForTable stmt.tableName, MirroredBy v idx)
    (ht : v.tables stmt.tableName = some t)
    (hchoice : chooseIndex (db.catalog.getIndexesForTable stmt.tableName) stmt.where?
      = some (conj, idx)) {c : Fin t.schema.columnCount} (hc : t.schema.indexOf conj.column = some c)
    (hint : (t.schema.columnAt c).type = .int) :
    ∃ seq ind, SourcesAgree t.schema conj c seq ind ∧
      Produces allow (Reading db v) (sourcePlan stmt t.schema .seqScan) seq db ∧
      Produces allow (Reading db v)
        (sourcePlan stmt t.schema (accessPath (some (conj, idx)))) ind db := by
  obtain ⟨hidx, hname, w, e, hw, he, hconj⟩ := chooseIndex_some hchoice
  have htable := (mem_getIndexesForTable.mp hidx).1
  rw [← htable] at ht
  obtain ⟨rows, tuples, hlists, hsources, hseq, hind⟩ :=
    scans_produce allow h (hmirror idx hidx) ht hcomplete
  have hfits := hsources.fits_seq
  have hfits' : ∀ tuple ∈ tuples, tuple.Fits t.schema := fun tuple ht =>
    hfits tuple (hsources.subset ht)
  -- what passes the filter are rows of the table that satisfy the WHERE clause
  have hpassed : ∀ tuple ∈ (filterItems w t.schema (rows.map toTuple)).1,
      RowConforms t.schema tuple.values ∧ Holds t.schema tuple.values w := by
    intro tuple htuple
    have hmem := (filterItems_sublist w t.schema (rows.map toTuple)).subset htuple
    refine ⟨?_, (passes_iff (hfits tuple hmem)).mp (filterItems_passes htuple)⟩
    obtain ⟨r, hr, rfl⟩ := List.mem_map.mp hmem
    exact (h.tables.at ht).conforms ((hlists.mem_iff r.1 r.2).mp hr)
  rw [htable] at hseq hind
  refine ⟨_, _, ⟨?_, ?_, ?_, ?_, ?_⟩, sourcePlan_produces hw hseq hfits,
    sourcePlan_produces hw hind hfits'⟩
  · exact fun tuple ht => hfits tuple ((filterItems_sublist w _ _).subset ht)
  · exact fun tuple ht => hfits' tuple ((filterItems_sublist w _ _).subset ht)
  · intro hend
    rw [filterStream_atEnd] at hend ⊢
    exact (hsources.filterItems_index hend).1
  · intro hend
    rw [filterStream_atEnd] at hend
    refine (hsources.filterItems_index hend).2.trans (List.Perm.of_eq ?_)
    refine List.filter_congr fun tuple htuple => ?_
    obtain ⟨hrow, hholds⟩ := hpassed tuple htuple
    rw [hname]
    exact covers_iff he hconj hc hint hrow hholds
  · intro hop tuple htuple hnull
    obtain ⟨hrow, hholds⟩ := hpassed tuple htuple
    rcases covers_of_passes he hconj hc hint hrow hholds with ⟨key, hkey, -⟩ | ⟨-, hneq⟩
    · rw [keyOf, hc, Option.bind_some, hnull] at hkey
      cases hkey
    · exact hop hneq

end Agreement

/-- **The index plan agrees with the sequential plan.**  On a sound database with trees that are sorted
multimaps, take a SELECT without LIMIT, of `*`, of plain columns or of COUNT aggregates, for which the
optimizer chooses an index by a conjunct on an INT column with `=`, `<`, `<=`, `>` or `>=`.  If all
indexes of the table mirror it, and the plan with a sequential scan succeeds, then the SELECT succeeds,
reads the index, and has the same rows in some order. -/
theorem index_plan_agrees {db : Database Multimaps} (h : DbInv db v) {stmt : SelectStmt}
    (hmirror : ∀ idx ∈ db.catalog.getIndexesForTable stmt.tableName, MirroredBy v idx)
    {table : TableMetadata} (htable : db.catalog.getTable stmt.tableName = some table)
    {conj : IndexableConjunct} {idx : IndexMetadata}
    (hchoice : chooseIndex (db.catalog.getIndexesForTable stmt.tableName) stmt.where?
      = some (conj, idx))
    {c : Fin table.schema.columnCount} (hc : table.schema.indexOf conj.column = some c)
    (hint : (table.schema.columnAt c).type = .int)
    (hop : conj.op ∈ [BinaryOp.eq, .lt, .lte, .gt, .gte])
    (hlist : PlainOrCount stmt.items) (hlimit : stmt.limit = none)
    {res : QueryResult} {db' : Database Multimaps}
    (hseq : (runPlan stmt table.schema .seqScan).exec db = .ok (.ok res, db')) :
    ∃ res' db'', execStatement db (.select stmt) = .ok (.ok res', db'') ∧
      res'.scanStrategy = lit "IndexScan(" ++ idx.indexName ++ lit ")" ∧
      res'.rows.Perm res.rows := by
  obtain ⟨⟨schema, chain, rows⟩, ht, hschema, -⟩ := h.tables.entry htable
  subst hschema
  obtain ⟨seq, ind, hagree, hseq', hind⟩ :=
    sources_agree (fun _ => False) (.inl trivial) h hmirror ht hchoice hc hint
  -- what the sequential plan has answered
  have hres : selectRows stmt table.schema seq = .ok res.rows := by
    obtain ⟨-, hres⟩ := Action.of_wp (runPlan_wp hseq' (.refl h) hagree.fits_seq) hseq
    unfold selectResult at hres
    cases hrows : selectRows stmt table.schema seq with
    | error e =>
      rw [hrows] at hres
      cases hres
    | ok rows =>
      rw [hrows] at hres
      rw [Except.ok.inj hres]
  have hend := selectRows_atEnd hlimit hres
  have hneq : conj.op ≠ .neq := by
    intro heq
    rw [heq] at hop
    exact absurd hop (by decide)
  have hperm : ind.items.Perm seq.items := by
    refine (hagree.perm hend).trans (List.Perm.of_eq (List.filter_eq_self.mpr fun tuple htuple => ?_))
    exact decide_eq_true (hagree.null hneq tuple htuple)
  obtain ⟨rows', hrows', hperm'⟩ := selectRows_perm hlimit hlist hagree.fits_seq hperm
    ((hagree.atEnd hend).trans hend.symm) hres
  obtain ⟨r, db'', hexec, -, hr⟩ :=
    Action.exec_of_wp (runPlan_wp hind (.refl h) hagree.fits_index)
  have hmixed : ¬ (SelectList.aggregates stmt.items ≠ [] ∧ SelectList.anyPlain stmt.items = true) := by
    rintro ⟨hne, hany⟩
    rw [(hlist.cases.resolve_left hne).1] at hany
    cases hany
  rw [← hchoice, ← executeSelect_exec h htable hmixed] at hexec
  rw [selectResult, hrows'] at hr
  subst hr
  exact ⟨_, db'', hexec, rfl, hperm'⟩

/-- Two indexed columns, with NULLs. -/
def twoIndexes : List (Statement × Result QueryResult) := [
  (.createTable ⟨lit "t", [{ name := lit "a", type := .int }, { name := lit "b", type := .int }],
    by decide⟩, .ok { message := lit "CREATE TABLE" }),
  (.createIndex ⟨lit "i", lit "t", lit "a"⟩, .ok { message := lit "CREATE INDEX" }),
  (.insert ⟨lit "t", [], [[.int64 7, .int64 1], [.null, .int64 2], [.int64 4, .int64 3],
      [.int64 6, .null]]⟩,
    .ok { rowsAffected := 4, message := lit "INSERT 0 4" }),
  (.createIndex ⟨lit "j", lit "t", lit "b"⟩, .ok { message := lit "CREATE INDEX" })]

/-- `SELECT b FROM t WHERE 5 < a AND b != 2`. -/
def flippedSelect : SelectStmt where
  items := .items [.plain (lit "b") none]
  tableName := lit "t"
  where? := some (.binary
    (.binary (.literal (.int64 5)) .lt (.column (lit "a"))) .and
    (.binary (.column (lit "b")) .neq (.literal (.int64 2))))
  orderBy := none
  limit := none

/-- The indexes of a session mirror their tables. -/
theorem mirrored_of_session {db₀ db : Database Multimaps}
    (hcreate : Database.create insertionOrder noTables ⟨[]⟩ = .ok db₀)
    {history : List (Statement × Result QueryResult)} (hrun : Runs.Run execStatement db₀ history db)
    (hkeeps : ∀ c ∈ history, KeepsIndexes c.1 c.2) :
    ∃ v, DbInv db v ∧ ∀ name, ∀ idx ∈ db.catalog.getIndexesForTable name, MirroredBy v idx := by
  obtain ⟨v, hinv, hmirrored⟩ := MirrorInv.run trivial (MirrorInv.create rfl hcreate) hrun hkeeps
  refine ⟨v, hinv, fun name idx hidx => ?_⟩
  obtain ⟨-, iname, hfind⟩ := mem_getIndexesForTable.mp hidx
  exact hmirrored iname idx hfind

theorem index_plan_agrees_flippedSelect : ∃ db₀ db table conj idx res db' res' db'',
    Database.create insertionOrder noTables (⟨[]⟩ : Multimaps) = .ok db₀ ∧
    Runs.Run execStatement db₀ twoIndexes db ∧
    db.catalog.getTable (lit "t") = some table ∧
    chooseIndex (db.catalog.getIndexesForTable (lit "t")) flippedSelect.where? = some (conj, idx) ∧
    conj = ⟨lit "a", .gt, 5⟩ ∧
    (runPlan flippedSelect table.schema .seqScan).exec db = .ok (.ok res, db') ∧
    res.rows = [[.int32 1], [.null]] ∧
    execStatement db (.select flippedSelect) = .ok (.ok res', db'') ∧
    res'.rows.Perm res.rows := by
  obtain ⟨db₀, db, hcreate, hrun, hcheck⟩ := exists_session (⟨[]⟩ : Multimaps) twoIndexes
    (fun db => decide ((db.catalog.getTable (lit "t")).map (fun table => (table.schema,
        (answer ((runPlan flippedSelect table.schema .seqScan).exec db)).map QueryResult.rows))
          = some (⟨[{ name := lit "a", type := .int }, { name := lit "b", type := .int }]⟩,
            some [[.int32 1], [.null]])) &&
      decide ((chooseIndex (db.catalog.getIndexesForTable (lit "t")) flippedSelect.where?).map Prod.fst
        = some ⟨lit "a", .gt, 5⟩)) (by decide +kernel)
  rw [Bool.and_eq_true, decide_eq_true_iff, decide_eq_true_iff] at hcheck
  obtain ⟨htable, hchoice⟩ := hcheck
  obtain ⟨table, htable, hpair⟩ := Option.map_eq_some_iff.mp htable
  obtain ⟨hschema, hanswer⟩ := Prod.mk.inj hpair
  obtain ⟨⟨_, idx⟩, hchoice, rfl⟩ := Option.map_eq_some_iff.mp hchoice
  obtain ⟨res, hres, hrows⟩ := Option.map_eq_some_iff.mp hanswer
  obtain ⟨db', hseq⟩ := answer_eq_some.mp hres
  obtain ⟨v, hinv, hmirrored⟩ := mirrored_of_session hcreate hrun (by simp [twoIndexes, KeepsIndexes])
  obtain ⟨c, hc, hint⟩ : ∃ c, table.schema.indexOf (lit "a") = some c ∧
      (table.schema.columnAt c).type = .int := by
    rw [hschema]
    exact ⟨⟨0, by decide⟩, by decide, by decide⟩
  have hlist : PlainOrCount flippedSelect.items :=
    Or.inl fun item hitem => ⟨lit "b", none, List.mem_singleton.mp hitem⟩
  obtain ⟨res', db'', hexec, -, hperm⟩ := index_plan_agrees hinv (hmirrored _) htable hchoice
    hc hint (by decide) hlist rfl hseq
  exact ⟨db₀, db, _, _, idx, res, db', res', db'', hcreate, hrun, htable, hchoice, rfl, hseq, hrows,
    hexec, hperm⟩

theorem IndexableConjunct.lookup_neq (conj : IndexableConjunct) (h : conj.op = .neq) :
    conj.lookup = .range none true none true := by
  rw [lookup, h]

/-- **With `!=`, NULLs make the difference.**  On a sound database, whether its trees are B+trees or sorted
multimaps, take a SELECT for which the optimizer chooses an index on an INT column by `!=`, whose indexes
all mirror the table, and whose WHERE clause evaluates on all rows of the table.  The filter over the index
gives the same rows as the filter over the table exactly if none of these has a NULL in the column.  With
sorted multimaps this is so for every comparison. -/
theorem filtered_rows_agree_iff {σ : Type} [IndexPool σ] [LawfulIndexPool σ] {db : Database σ}
    (h : DbInv db v) {stmt : SelectStmt}
    (hmirror : ∀ idx ∈ db.catalog.getIndexesForTable stmt.tableName, MirroredBy v idx)
    {table : TableMetadata} (htable : db.catalog.getTable stmt.tableName = some table)
    {conj : IndexableConjunct} {idx : IndexMetadata}
    (hchoice : chooseIndex (db.catalog.getIndexesForTable stmt.tableName) stmt.where?
      = some (conj, idx)) (hall : LawfulIndexPool.exact σ ∨ conj.op = .neq)
    {c : Fin table.schema.columnCount} (hc : table.schema.indexOf conj.column = some c)
    (hint : (table.schema.columnAt c).type = .int) {rows : List Row} {db' : Database σ}
    (hseq : (runOperator (sourcePlan stmt table.schema .seqScan)).exec db = .ok (.ok rows, db')) :
    (∃ rows' db'', (runOperator (sourcePlan stmt table.schema
        (.indexScan idx.indexName idx.metaPageId conj.lookup))).exec db = .ok (.ok rows', db'') ∧
      rows'.Perm rows) ↔ ∀ row ∈ rows, row[c.val]? ≠ some .null := by
  obtain ⟨⟨schema, chain, _⟩, ht, hschema, -⟩ := h.tables.entry htable
  subst hschema
  obtain ⟨seq, ind, hagree, hseq', hind⟩ :=
    sources_agree (fun _ => False) (hall.imp_right conj.lookup_neq) h hmirror ht hchoice hc hint
  have hres : seq.atEnd = none ∧ rows = seq.items.map Tuple.values := by
    obtain ⟨-, hres⟩ := Action.of_wp (runOperator_wp hseq') hseq
    unfold TupleStream.rows at hres
    cases hend : seq.atEnd with
    | some e =>
      rw [hend] at hres
      cases hres
    | none =>
      rw [hend] at hres
      exact ⟨rfl, Except.ok.inj hres⟩
  obtain ⟨hend, rfl⟩ := hres
  -- the other plan always returns
  obtain ⟨r, db₁, hexec, -, hr⟩ := Action.exec_of_wp (runOperator_wp hind)
  rw [TupleStream.rows, hagree.atEnd hend] at hr
  subst hr
  have hperm := hagree.perm hend
  constructor
  · rintro ⟨rows', db'', hexec', hperm'⟩ row hrow
    obtain ⟨tuple, htuple, rfl⟩ := List.mem_map.mp hrow
    have heq : rows' = ind.items.map Tuple.values := by
      have hsame := hexec.symm.trans hexec'
      cases hsame
      rfl
    -- as many tuples as before are left when those with a NULL are dropped
    have hlength := hperm'.length_eq
    rw [heq, List.length_map, List.length_map, hperm.length_eq, List.length_filter_eq_length_iff]
      at hlength
    exact of_decide_eq_true (hlength tuple htuple)
  · intro hall
    refine ⟨_, db₁, hexec, (hperm.trans (List.Perm.of_eq ?_)).map Tuple.values⟩
    refine List.filter_eq_self.mpr fun tuple htuple => decide_eq_true ?_
    exact hall _ (List.mem_map_of_mem htuple)

/-- A NULL in an indexed column. -/
def indexedNull : List (Statement × Result QueryResult) := [
  (.createTable ⟨lit "t", intColumn, intColumn_ne⟩,
    .ok { message := lit "CREATE TABLE" }),
  (.insert ⟨lit "t", [], [[.null]]⟩, .ok { rowsAffected := 1, message := lit "INSERT 0 1" }),
  (.createIndex ⟨lit "i", lit "t", lit "a"⟩, .ok { message := lit "CREATE INDEX" })]

/-- `SELECT * FROM t WHERE a != 5`. -/
def notFive : SelectStmt where
  items := .star
  tableName := lit "t"
  where? := some (.binary (.column (lit "a")) .neq (.literal (.int64 5)))
  orderBy := none
  limit := none

theorem filtered_rows_agree_iff_indexedNull : ∃ db₀ db table conj idx rows db',
    Database.create insertionOrder noTables (⟨[]⟩ : Multimaps) = .ok db₀ ∧
    Runs.Run execStatement db₀ indexedNull db ∧
    db.catalog.getTable (lit "t") = some table ∧
    chooseIndex (db.catalog.getIndexesForTable (lit "t")) notFive.where? = some (conj, idx) ∧
    (runOperator (sourcePlan notFive table.schema .seqScan)).exec db = .ok (.ok rows, db') ∧
    ¬ ∃ rows' db'', (runOperator (sourcePlan notFive table.schema
        (.indexScan idx.indexName idx.metaPageId conj.lookup))).exec db = .ok (.ok rows', db'') ∧
      rows'.Perm rows := by
  obtain ⟨db₀, db, hcreate, hrun, hcheck⟩ := exists_session (⟨[]⟩ : Multimaps) indexedNull
    (fun db => decide ((db.catalog.getTable (lit "t")).map (fun table => (table.schema,
        answer ((runOperator (sourcePlan notFive table.schema .seqScan)).exec db)))
          = some (⟨[{ name := lit "a", type := .int }]⟩, some [[.null]])) &&
      decide ((chooseIndex (db.catalog.getIndexesForTable (lit "t")) notFive.where?).map Prod.fst
        = some ⟨lit "a", .neq, 5⟩)) (by decide +kernel)
  rw [Bool.and_eq_true, decide_eq_true_iff, decide_eq_true_iff] at hcheck
  obtain ⟨htable, hchoice⟩ := hcheck
  obtain ⟨table, htable, hpair⟩ := Option.map_eq_some_iff.mp htable
  obtain ⟨hschema, hanswer⟩ := Prod.mk.inj hpair
  obtain ⟨⟨conj, idx⟩, hchoice, rfl⟩ := Option.map_eq_some_iff.mp hchoice
  obtain ⟨db', hseq⟩ := answer_eq_some.mp hanswer
  obtain ⟨v, hinv, hmirrored⟩ := mirrored_of_session hcreate hrun (by simp [indexedNull, KeepsIndexes])
  obtain ⟨c, hc, hint, hzero⟩ : ∃ c, table.schema.indexOf (lit "a") = some c ∧
      (table.schema.columnAt c).type = .int ∧ c.val = 0 := by
    rw [hschema]
    exact ⟨⟨0, by decide⟩, by decide, by decide, rfl⟩
  have hiff := filtered_rows_agree_iff hinv (hmirrored _) htable hchoice (.inr rfl) hc hint hseq
  refine ⟨db₀, db, table, _, idx, _, db', hcreate, hrun, htable, hchoice, hseq, fun hagree => ?_⟩
  refine hiff.mp hagree [.null] (List.mem_singleton_self _) ?_
  rw [hzero]
  rfl

/-- `SELECT * FROM t WHERE a != 5` does not see the NULL that a plan without the index sees. -/
theorem notFive_misses_null : ∃ db₀ db v table res db' res' db'',
    Database.create insertionOrder noTables (⟨[]⟩ : Multimaps) = .ok db₀ ∧
    Runs.Run execStatement db₀ indexedNull db ∧
    DbInv db v ∧ (∀ idx ∈ db.catalog.getIndexesForTable (lit "t"), MirroredBy v idx) ∧
    db.catalog.getTable (lit "t") = some table ∧
    (runPlan notFive table.schema .seqScan).exec db = .ok (.ok res, db') ∧
    execStatement db (.select notFive) = .ok (.ok res', db'') ∧
    res.rows = [[.null]] ∧ res'.rows = [] ∧ res'.scanStrategy = lit "IndexScan(i)" := by
  obtain ⟨db₀, db, hcreate, hrun, hcheck⟩ := exists_session (⟨[]⟩ : Multimaps) indexedNull
    (fun db => decide ((db.catalog.getTable (lit "t")).bind (fun table =>
        (answer ((runPlan notFive table.schema .seqScan).exec db)).map QueryResult.rows)
          = some [[.null]]) &&
      decide ((answer (execStatement db (.select notFive))).map (fun res =>
        (res.rows, res.scanStrategy)) = some ([], lit "IndexScan(i)"))) (by decide +kernel)
  rw [Bool.and_eq_true, decide_eq_true_iff, decide_eq_true_iff] at hcheck
  obtain ⟨hseq, hselect⟩ := hcheck
  obtain ⟨table, htable, hseq⟩ := Option.bind_eq_some_iff.mp hseq
  obtain ⟨res, hres, hrows⟩ := Option.map_eq_some_iff.mp hseq
  obtain ⟨db', hexec⟩ := answer_eq_some.mp hres
  obtain ⟨res', hres', hpair⟩ := Option.map_eq_some_iff.mp hselect
  obtain ⟨db'', hexec'⟩ := answer_eq_some.mp hres'
  obtain ⟨hrows', hstrategy⟩ := Prod.mk.inj hpair
  obtain ⟨v, hinv, hmirrored⟩ := mirrored_of_session hcreate hrun (by simp [indexedNull, KeepsIndexes])
  exact ⟨db₀, db, v, table, res, db', res', db'', hcreate, hrun, hinv, hmirrored _, htable, hexec,
    hexec', hrows, hrows', hstrategy⟩

end MiniDB.Executor
