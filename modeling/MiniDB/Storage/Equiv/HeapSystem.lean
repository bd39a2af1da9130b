import MiniDB.Lib.Run
import MiniDB.Storage.Equiv.HeapFile

/-!
# Heap files sharing a pool

Any number of heap files live in one page pool; calls on them are interleaved freely (`HeapOp`,
`Heaps.exec`).  The abstract state is computed from the calls and their answers alone: for each heap
the record ids it has handed out and the map from live ids to bytes, changed only by calls that
return OK (`views`).

`heapFile_refines_map` compares the two.  The pages of the heaps stay disjoint chains whatever the
calls are (`HeapsInv`); the records agree with the abstract map as long as no `UpdateRecord` replaces
a live record by one no page can hold.  Such a call has deleted the old record by the time the insert
fails.
-/

namespace MiniDB.HeapFile

open Paged Runs SlottedPage Tenancy

/-! ### Calls -/

/-- The heap files of a pool, numbered in the order they were created. -/
structure Heaps where
  store : Store
  files : List HeapFile
  deriving DecidableEq

/-- A call on a heap file. -/
inductive HeapCall
  | reopen
  | insertRecord (d : RecordBytes)
  | deleteRecord (rid : RecordId)
  | updateRecord (rid : RecordId) (d : RecordBytes)
  deriving DecidableEq

/-- A new heap file, or a call on the one with the given number. -/
inductive HeapOp
  | create
  | call (f : Nat) (c : HeapCall)
  deriving DecidableEq

/-- What a call answers. -/
inductive HeapAnswer
  | opened
  | recordId (r : Result RecordId)
  | status (r : Result Unit)
  | noHeap
  deriving DecidableEq

/-- The program of a call. -/
def HeapCall.prog (c : HeapCall) (h : HeapFile) (fuel : Nat) :
    Prog PageId Page Empty (HeapAnswer × HeapFile) := do
  match c with
  | .reopen =>
    let h' ← openHeap h.firstPageId
    return (.opened, h')
  | .insertRecord d =>
    let (r, h') ← HeapFile.insertRecord h d fuel
    return (.recordId r, h')
  | .deleteRecord rid =>
    let r ← HeapFile.deleteRecord rid
    return (.status r, h)
  | .updateRecord rid d =>
    let (r, h') ← HeapFile.updateRecord h rid d fuel
    return (.recordId r, h')

/-- Execute a call. -/
def Heaps.exec (s : Heaps) : HeapOp → Except Fault (HeapAnswer × Heaps)
  | .create => do
    let (h, st) ← Store.exec (C := Empty) (fun _ => openHeap kInvalidPageId) s.store
    return (.opened, ⟨st, s.files ++ [h]⟩)
  | .call f c =>
    match s.files[f]? with
    | none => return (.noHeap, s)
    | some h => do
      let ((r, h'), st) ← Store.exec (c.prog h) s.store
      return (r, ⟨st, s.files.set f h'⟩)

/-! ### The abstract state -/

/-- A heap file as its clients know it: the ids it has handed out and the live records. -/
structure HeapView where
  issued : List RecordId
  live : RecordId → Option (List UInt8)

/-- The effect of an answered call on the heap it was made on. -/
def HeapCall.next : HeapCall → HeapAnswer → HeapView → HeapView
  | .insertRecord d, .recordId (.ok rid), v =>
    ⟨rid :: v.issued, Function.update v.live rid (some d.bytes)⟩
  | .deleteRecord rid, .status (.ok _), v => ⟨v.issued, Function.update v.live rid none⟩
  | .updateRecord rid d, .recordId (.ok rid'), v =>
    ⟨rid' :: v.issued,
      Function.update (Function.update v.live rid none) rid' (some d.bytes)⟩
  | _, _, v => v

/-- The effect of an answered call on all heaps. -/
def HeapOp.next (vs : List HeapView) : HeapOp → HeapAnswer → List HeapView
  | .create, _ => vs ++ [⟨[], fun _ => none⟩]
  | .call f c, r => vs.modify f (c.next r)

/-- The heaps after a history of answered calls. -/
def views (history : List (HeapOp × HeapAnswer)) : List HeapView :=
  history.foldl (fun vs c => c.1.next vs c.2) []

/-- The record ids of a call were obtained from the heap it is made on. -/
def HeapCall.OwnIds (v : HeapView) : HeapCall → Prop
  | .deleteRecord rid | .updateRecord rid _ => rid ∈ v.issued
  | .reopen | .insertRecord _ => True

/-- The records of a call have at least one byte. -/
def HeapCall.NonemptyRecord : HeapCall → Prop
  | .insertRecord d | .updateRecord _ d => d.bytes ≠ []
  | .reopen | .deleteRecord _ => True

/-- An update of a live record is to bytes that a page can hold. -/
def HeapCall.FitsOrDead (v : HeapView) : HeapCall → Prop
  | .updateRecord rid d => d.bytes.length ≤ kMaxRecordSize ∨ v.live rid = none
  | _ => True

/-- What the calls on a heap with these live records have to answer: `InsertRecord` returns OK exactly for
the records a page can hold, with an unused id; `DeleteRecord` and `UpdateRecord` return OK exactly for live
records, and new bytes that a page can hold; the record then keeps its id or gets an unused one. -/
def HeapCall.Answered (unused : RecordId → Prop) (v : HeapView) : HeapCall → HeapAnswer → Prop
  | .reopen, _ => True
  | .insertRecord d, r => ∃ res, r = .recordId res ∧ (res.Ok ↔ d.bytes.length ≤ kMaxRecordSize) ∧
      ∀ rid, res = .ok rid → unused rid
  | .deleteRecord rid, r => ∃ res, r = .status res ∧ (res.Ok ↔ v.live rid ≠ none)
  | .updateRecord rid d, r => ∃ res, r = .recordId res ∧
      (res.Ok ↔ v.live rid ≠ none ∧ d.bytes.length ≤ kMaxRecordSize) ∧
      ∀ rid', res = .ok rid' → rid' = rid ∨ unused rid'

variable {r : HeapAnswer} {v : HeapView} {c : HeapCall}

theorem HeapCall.Answered.mono {p q : RecordId → Prop} (h : c.Answered p v r)
    (hpq : ∀ rid, p rid → q rid) : c.Answered q v r := by
  cases c with
  | reopen => trivial
  | insertRecord d =>
    obtain ⟨res, hres, hok, hp⟩ := h
    exact ⟨res, hres, hok, fun rid hrid => hpq rid (hp rid hrid)⟩
  | deleteRecord rid => exact h
  | updateRecord rid d =>
    obtain ⟨res, hres, hok, hp⟩ := h
    exact ⟨res, hres, hok, fun rid' hrid' => (hp rid' hrid').imp_right (hpq rid')⟩

/-- The condition `p` on calls, at the heap the call is made on. -/
def HeapOp.OnHeap (p : HeapView → HeapCall → Prop) (vs : List HeapView) : HeapOp → Prop
  | .create => True
  | .call f c => ∃ v, vs[f]? = some v ∧ p v c

/-! ### The invariant -/

/-- One heap file with its pages and its abstract state. -/
structure Row where
  file : HeapFile
  chain : List PageId
  view : HeapView

/-- A heap file is sound, and has handed out ids of its own pages only. -/
structure RowInv (st : Store) (a : Row) : Prop where
  inv : HeapInv st a.file a.chain
  issued : ∀ rid ∈ a.view.issued, rid.pageId ∈ a.chain

/-- The records in the pages of a heap are its live records. -/
def RowLive (st : Store) (a : Row) : Prop :=
  ∀ rid, a.view.live rid = if rid.pageId ∈ a.chain then recordAt st rid else none

variable {st : Store} {a : Row} {fuel f : Nat} {pre : Empty → Store → Prop} {s : Heaps}
  {vs : List HeapView} {rows : List Row} {st' : Store} {h h' : HeapFile} {c' chain : List PageId}
  {rid : RecordId} {α : Type} {op : HeapOp} {history : List (HeapOp × HeapAnswer)}

theorem RowInv.present (ha : RowInv st a) :
    ∀ id ∈ a.chain, ∃ page, st.get? id = some page := ha.inv.present

theorem RowInv.frame {st : Store} (ha : RowInv st a) (hsame : ∀ id ∈ a.chain, st'.get? id = st.get? id) :
    RowInv st' a :=
  ⟨ha.inv.frame hsame, ha.issued⟩

theorem RowLive.frame {st : Store} (ha : RowLive st a)
    (hsame : ∀ id ∈ a.chain, st'.get? id = st.get? id) : RowLive st' a := by
  intro rid
  rw [ha rid]
  split_ifs with hmem
  · rw [recordAt, recordAt, hsame _ hmem]
  · rfl

/-- Heap files as tenants of the store. -/
def rowTenant : Tenant Store.get? Row where
  own := Row.chain
  inv := RowInv
  present := RowInv.present
  frame := RowInv.frame

/-- Heap files that show their live records, as tenants of the store. -/
def liveTenant : Tenant Store.get? Row where
  own := Row.chain
  inv := fun st a => RowInv st a ∧ RowLive st a
  present := fun h => h.1.present
  frame := fun h hsame => ⟨h.1.frame hsame, h.2.frame hsame⟩

/-- The heaps of a pool: sound, with disjoint pages. -/
structure HeapsInv (s : Heaps) (vs : List HeapView) (rows : List Row) : Prop where
  files_eq : s.files = rows.map Row.file
  views_eq : vs = rows.map Row.view
  tenants : Tenants rowTenant s.store rows

theorem HeapsInv.row (hs : HeapsInv s vs rows) :
    ∀ a ∈ rows, RowInv s.store a := hs.tenants.row

/-- The heaps of a pool that also show their live records. -/
theorem HeapsInv.live (hs : HeapsInv s vs rows) (hlive : ∀ b ∈ rows, RowLive s.store b) :
    Tenants liveTenant s.store rows :=
  ⟨hs.tenants.disjoint, fun a ha => ⟨hs.row a ha, hlive a ha⟩⟩

theorem views_snoc (history : List (HeapOp × HeapAnswer)) (op : HeapOp) (r : HeapAnswer) :
    views (history ++ [(op, r)]) = op.next (views history) r := by
  rw [views, List.foldl_append]
  rfl

/-! ### One call -/

theorem HeapStep.recordAt_mem {c : List PageId} (hs : HeapStep st h c st' h' c') (rid : RecordId) :
    (if rid.pageId ∈ c' then recordAt st rid else none)
      = if rid.pageId ∈ c then recordAt st rid else none := by
  by_cases hc : rid.pageId ∈ c
  · rw [if_pos hc, if_pos (hs.pages.subset hc)]
  · rw [if_neg hc]
    split_ifs with hc'
    · rw [recordAt, hs.pages.fresh _ hc' hc]
      rfl
    · rfl

/-- The live records after a call that left the record `new` under the id `rid`. -/
theorem RowLive.update {issued : List RecordId} {live : RecordId → Option (List UInt8)}
    {new : Option (List UInt8)}
    (hlive : ∀ i, i ≠ rid → (if i.pageId ∈ c' then recordAt st' i else none) = live i)
    (hnew : (if rid.pageId ∈ c' then recordAt st' rid else none) = new) :
    RowLive st' ⟨h', c', ⟨issued, Function.update live rid new⟩⟩ := by
  intro i
  show Function.update live rid new i = if i.pageId ∈ c' then recordAt st' i else none
  by_cases hi : i = rid
  · rw [hi, Function.update_self, hnew]
  · rw [Function.update_of_ne hi, hlive i hi]

/-- What a call does to the heap `a` it is made on. -/
def CallSpec (st : Store) (a : Row) (c : HeapCall) (r : HeapAnswer × HeapFile) (st' : Store) :
    Prop :=
  ∃ chain', HeapStep st a.file a.chain st' r.2 chain' ∧
    (∀ rid ∈ (c.next r.1 a.view).issued, rid.pageId ∈ chain') ∧
    (RowLive st a → c.NonemptyRecord →
      (RowLive st' ⟨r.2, chain', c.next r.1 a.view⟩ ↔ c.FitsOrDead a.view)) ∧
    (RowLive st a → c.Answered (fun rid => recordAt st rid = none) a.view r.1)

theorem ok_ok (x : α) : Result.Ok (.ok x) := ⟨x, rfl⟩

theorem not_ok_error (e : Status) : ¬ Result.Ok (.error e : Result α) :=
  fun ⟨_, h⟩ => by cases h

theorem insertRecord_call (ha : RowInv st a) (d : RecordBytes) (hfuel : a.chain.length < fuel) :
    ((HeapCall.insertRecord d).prog a.file fuel).wp Store.OutOfPages pre
      (CallSpec st a (.insertRecord d)) st := by
  unfold HeapCall.prog
  rw [Prog.wp_bind]
  apply Prog.wp_mono _ (insertRecord_wp ha.inv d hfuel)
  rintro ⟨r, h'⟩ st' ⟨chain', hstep, hins⟩
  rcases hins with ⟨rid, rfl, hle, hmem, hfree, hrec⟩ | ⟨rfl, hlt, hrec⟩
  · refine ⟨chain', hstep, ?_, ?_, ?_⟩
    · intro i hi
      rcases List.mem_cons.mp hi with rfl | hi
      · exact hmem
      · exact hstep.pages.subset (ha.issued i hi)
    · intro hlive hne
      refine ⟨fun _ => trivial, fun _ => RowLive.update ?_ ?_⟩
      · intro i hi
        rw [hlive i, ← hstep.recordAt_mem i, hrec, if_neg hi]
      · rw [if_pos hmem, hrec, if_pos rfl, stored, if_neg hne]
    · exact fun _ => ⟨.ok rid, rfl, iff_of_true (ok_ok _) hle, fun rid' h => Except.ok.inj h ▸ hfree⟩
  · refine ⟨chain', hstep, fun i hi => hstep.pages.subset (ha.issued i hi), ?_, ?_⟩
    · intro hlive _
      refine ⟨fun _ => trivial, fun _ i => ?_⟩
      show a.view.live i = if i.pageId ∈ chain' then recordAt st' i else none
      rw [hlive i, hrec, hstep.recordAt_mem]
    · exact fun _ => ⟨_, rfl, iff_of_false (not_ok_error _) (Nat.not_le.mpr hlt), fun rid' h => by cases h⟩

theorem reopen_call (ha : RowInv st a) :
    (HeapCall.reopen.prog a.file fuel).wp Store.OutOfPages pre (CallSpec st a .reopen) st := by
  unfold HeapCall.prog
  rw [Prog.wp_bind]
  apply openHeap_existing_wp ha.inv
  intro hstep
  exact ⟨a.chain, hstep, ha.issued, fun hlive _ => ⟨fun _ => trivial, fun _ => hlive⟩, fun _ => trivial⟩

/-- The id is on a page of the heap. -/
theorem RowLive.live_eq (hlive : RowLive st a) (hmem : rid.pageId ∈ a.chain) :
    a.view.live rid = recordAt st rid := (hlive rid).trans (if_pos hmem)

theorem deleteRecord_call (ha : RowInv st a) (hrid : rid ∈ a.view.issued) :
    ((HeapCall.deleteRecord rid).prog a.file fuel).wp Store.OutOfPages pre
      (CallSpec st a (.deleteRecord rid)) st := by
  have hmem := ha.issued rid hrid
  unfold HeapCall.prog
  rw [Prog.wp_bind]
  apply deleteRecord_wp ha.inv hmem
  · intro bs st' hbs hstep hrec
    refine ⟨a.chain, hstep, ha.issued, fun hlive _ => ⟨fun _ => trivial, fun _ => ?_⟩, fun hlive => ?_⟩
    · refine RowLive.update ?_ ?_
      · intro i hi
        rw [hlive i, hrec, if_neg hi]
      · rw [hrec, if_pos rfl, ite_self]
    · exact ⟨_, rfl, iff_of_true (ok_ok _) (by rw [hlive.live_eq hmem, hbs]; exact Option.some_ne_none bs)⟩
  · intro hdead
    refine ⟨a.chain, .refl ha.inv, ha.issued, fun hlive _ => ⟨fun _ => trivial, fun _ => hlive⟩,
      fun hlive => ?_⟩
    exact ⟨_, rfl, iff_of_false (not_ok_error _) (not_not.mpr ((hlive.live_eq hmem).trans hdead))⟩

theorem updateRecord_call (ha : RowInv st a) (hrid : rid ∈ a.view.issued) (d : RecordBytes)
    (hfuel : a.chain.length < fuel) :
    ((HeapCall.updateRecord rid d).prog a.file fuel).wp Store.OutOfPages pre
      (CallSpec st a (.updateRecord rid d)) st := by
  have hmem := ha.issued rid hrid
  unfold HeapCall.prog
  rw [Prog.wp_bind]
  apply Prog.wp_mono _ (updateRecord_wp ha.inv hmem d hfuel)
  rintro ⟨r, h'⟩ st' ⟨chain', hstep, hupd⟩
  refine ⟨chain', hstep, ?_⟩
  rcases hupd with ⟨hdead, rfl, rfl⟩ | ⟨hlv, hle, rid', rfl, hmem', hfree, hrec⟩ | ⟨hlv, hlt, rfl, hrec⟩
  · refine ⟨fun i hi => hstep.pages.subset (ha.issued i hi), fun hlive _ => ?_, fun hlive => ?_⟩
    · refine ⟨fun _ => .inr ((hlive.live_eq hmem).trans hdead), fun _ i => ?_⟩
      show a.view.live i = if i.pageId ∈ chain' then recordAt st' i else none
      rw [hlive i, hstep.recordAt_mem]
    · refine ⟨_, rfl, iff_of_false (not_ok_error _) fun h => h.1 ?_, fun rid' h => by cases h⟩
      exact (hlive.live_eq hmem).trans hdead
  · refine ⟨?_, fun hlive hne => ⟨fun _ => .inl hle, fun _ => ?_⟩, fun hlive => ?_⟩
    · intro i hi
      rcases List.mem_cons.mp hi with rfl | hi
      · exact hmem'
      · exact hstep.pages.subset (ha.issued i hi)
    · refine RowLive.update ?_ ?_
      · intro i hi
        by_cases hirid : i = rid
        · have hne' : rid ≠ rid' := hirid ▸ hi
          rw [hirid, Function.update_self, hrec, if_neg hne', if_pos rfl, ite_self]
        · rw [Function.update_of_ne hirid, hlive i, ← hstep.recordAt_mem i, hrec, if_neg hi,
            if_neg hirid]
      · rw [if_pos hmem', hrec, if_pos rfl, stored, if_neg hne]
    · rw [← hlive.live_eq hmem] at hlv
      exact ⟨_, rfl, iff_of_true (ok_ok _) ⟨hlv, hle⟩, fun i h => Except.ok.inj h ▸ hfree⟩
  · refine ⟨fun i hi => hstep.pages.subset (ha.issued i hi), fun hlive _ => ⟨fun h => ?_, fun h => ?_⟩,
      fun _ => ⟨_, rfl, iff_of_false (not_ok_error _) fun h => Nat.not_le.mpr hlt h.2,
        fun rid' h => by cases h⟩⟩
    · -- the record was live and is gone, so the heap no longer shows what it should
      have hgone : a.view.live rid = if rid.pageId ∈ chain' then recordAt st' rid else none := h rid
      rw [hlive rid, if_pos hmem, hrec, if_pos rfl, ite_self] at hgone
      exact absurd hgone hlv
    · rcases h with h | h
      · omega
      · rw [hlive rid, if_pos hmem] at h
        exact absurd h hlv

theorem HeapCall.spec (ha : RowInv st a) (hc : c.OwnIds a.view) (hfuel : a.chain.length < fuel) :
    (c.prog a.file fuel).wp Store.OutOfPages pre (CallSpec st a c) st := by
  cases c with
  | reopen => exact reopen_call ha
  | insertRecord d => exact insertRecord_call ha d hfuel
  | deleteRecord rid => exact deleteRecord_call ha hc
  | updateRecord rid d => exact updateRecord_call ha hc d hfuel

/-! ### All heaps -/

/-- The invariant at the start: no heaps. -/
theorem HeapsInv.init (st : Store) : HeapsInv ⟨st, []⟩ [] [] :=
  ⟨rfl, rfl, .nil _ _⟩

/-- A step of one heap keeps the invariant of all, and the records of the others. -/
theorem HeapsInv.step {l r : List Row} {a' : Row} (hs : HeapsInv s vs (l ++ a :: r))
    (hstep : HeapStep s.store a.file a.chain st' a'.file a'.chain)
    (hissued : ∀ rid ∈ a'.view.issued, rid.pageId ∈ a'.chain) {g : HeapView → HeapView}
    (hg : g a.view = a'.view) :
    HeapsInv ⟨st', s.files.set l.length a'.file⟩ (vs.modify l.length g) (l ++ a' :: r) ∧
      ((∀ b ∈ l ++ a :: r, RowLive s.store b) → RowLive st' a' →
        ∀ b ∈ l ++ a' :: r, RowLive st' b) := by
  have ha' : RowInv st' a' := ⟨hstep.inv, hissued⟩
  refine ⟨⟨?_, ?_, hs.tenants.step hstep.pages ha'⟩, fun hlive hl b hb => ?_⟩
  · rw [hs.files_eq, List.map_append, List.map_append, List.map_cons, List.map_cons]
    simp
  · rw [hs.views_eq, List.map_append, List.map_cons]
    have hmod := modify_length (l.map Row.view) (r.map Row.view) a.view g
    rw [List.length_map, hg] at hmod
    rw [hmod, List.map_append, List.map_cons]
  · exact (((hs.live hlive).step hstep.pages ⟨ha', hl⟩).row b hb).2

/-- A new heap, on a page that was in no heap, keeps the invariant. -/
theorem HeapsInv.create {id : PageId} (hs : HeapsInv s vs rows) (hnone : s.store.get? id = none)
    (hi : HeapInv st' ⟨id, id⟩ [id]) (hsame : ∀ i, i ≠ id → st'.get? i = s.store.get? i)
    (hrec : ∀ rid, recordAt st' rid = recordAt s.store rid) :
    HeapsInv ⟨st', s.files ++ [⟨id, id⟩]⟩ (vs ++ [⟨[], fun _ => none⟩])
        (rows ++ [⟨⟨id, id⟩, [id], ⟨[], fun _ => none⟩⟩]) ∧
      ((∀ b ∈ rows, RowLive s.store b) →
        ∀ b ∈ rows ++ [⟨⟨id, id⟩, [id], ⟨[], fun _ => none⟩⟩], RowLive st' b) := by
  have hstep : OwnStep Store.get? s.store [] st' [id] := by
    refine ⟨List.nil_subset _, fun i p _ hp => ?_, fun i hi _ => ?_⟩
    · rw [hsame i (by rintro rfl; rw [hnone] at hp; cases hp), hp]
    · rw [List.mem_singleton.mp hi, hnone]
  have hnew : RowInv st' ⟨⟨id, id⟩, [id], ⟨[], fun _ => none⟩⟩ := ⟨hi, fun rid h => by cases h⟩
  refine ⟨⟨?_, ?_, hs.tenants.create hstep hnew⟩, fun hlive b hb => ?_⟩
  · rw [hs.files_eq, List.map_append]
    rfl
  · rw [hs.views_eq, List.map_append]
    rfl
  · refine (((hs.live hlive).create hstep ⟨hnew, fun rid => ?_⟩).row b hb).2
    show none = if rid.pageId ∈ [id] then recordAt st' rid else none
    split_ifs with h
    · rw [hrec, recordAt, List.mem_singleton.mp h, hnone]
      rfl
    · rfl

theorem HeapsInv.split (hs : HeapsInv s vs rows) (hv : vs[f]? = some v) :
    ∃ l a r, rows = l ++ a :: r ∧ f = l.length ∧ v = a.view := by
  rw [hs.views_eq, List.getElem?_map] at hv
  obtain ⟨a, ha, rfl⟩ := Option.map_eq_some_iff.mp hv
  obtain ⟨l, r, rfl, rfl⟩ := split_of_getElem? ha
  exact ⟨l, a, r, rfl, rfl, rfl⟩

/-- The rows after a call: those before it, but for the row of the heap it is made on. -/
theorem HeapsInv.exec (hs : HeapsInv s vs rows) (hop : op.OnHeap HeapCall.OwnIds vs) :
    s.exec op = .error .noNewPage ∨
    ∃ r s' rows', s.exec op = .ok (r, s') ∧ HeapsInv s' (op.next vs r) rows' ∧
      ((∀ b ∈ rows, RowLive s.store b) → op.OnHeap (fun _ => HeapCall.NonemptyRecord) vs →
        ((∀ b ∈ rows', RowLive s'.store b) ↔ op.OnHeap HeapCall.FitsOrDead vs)) ∧
      ((∀ b ∈ rows, RowLive s.store b) →
        op.OnHeap (fun v c => c.Answered (fun rid => recordAt s.store rid = none) v r) vs) := by
  cases op with
  | create =>
    have hcreate := Store.exec_of_wp (C := Empty) (s := s.store)
      (x := fun _ => openHeap kInvalidPageId)
      (Q := fun h st' => ∃ id, h = ⟨id, id⟩ ∧ s.store.get? id = none ∧ HeapInv st' h [id] ∧
        (∀ i, i ≠ id → st'.get? i = s.store.get? i) ∧
        ∀ rid, recordAt st' rid = recordAt s.store rid)
      (openHeap_new_wp fun id st' hnone hi hsame hrec => ⟨id, rfl, hnone, hi, hsame, hrec⟩)
    rcases hcreate with hrun | ⟨h, st', hrun, id, rfl, hnone, hi, hsame, hrec⟩
    · left
      rw [Heaps.exec, hrun]
      rfl
    · right
      obtain ⟨hinv, hlive⟩ := hs.create hnone hi hsame hrec
      refine ⟨.opened, ⟨st', s.files ++ [⟨id, id⟩]⟩, _, ?_, hinv, ?_, fun _ => trivial⟩
      · rw [Heaps.exec, hrun]
        rfl
      · exact fun h _ => ⟨fun _ => trivial, fun _ => hlive h⟩
  | call f c =>
    obtain ⟨v, hv, hids⟩ := hop
    obtain ⟨l, a, r, rfl, rfl, rfl⟩ := hs.split hv
    have hfile : s.files[l.length]? = some a.file := by simp [hs.files_eq]
    have ha : RowInv s.store a := hs.row a (List.mem_append_right _ (List.mem_cons_self ..))
    rcases Store.exec_of_wp (HeapCall.spec ha hids (Nat.lt_succ_of_le ha.inv.length_le)) with
      hrun | ⟨⟨res, h'⟩, st', hrun, chain', hstep, hissued, hlive, hanswered⟩
    · left
      simp only [Heaps.exec, hfile, hrun]
      rfl
    · right
      set a' : Row := ⟨h', chain', c.next res a.view⟩ with ha'
      have hstep' : HeapStep s.store a.file a.chain st' a'.file a'.chain := hstep
      obtain ⟨hinv, hothers⟩ := hs.step hstep' hissued (g := c.next res) rfl
      refine ⟨res, ⟨st', s.files.set l.length h'⟩, l ++ a' :: r, ?_, hinv, ?_, ?_⟩
      · simp only [Heaps.exec, hfile, hrun]
        rfl
      · intro hall ⟨w, hw, hne⟩
        have hself := hlive (hall a (by simp)) hne
        constructor
        · intro h
          exact ⟨a.view, hv, hself.mp (h a' (by simp))⟩
        · rintro ⟨w, hw, hfits⟩
          obtain rfl : a.view = w := by simpa [hv] using hw
          exact hothers hall (hself.mpr hfits)
      · exact fun hall => ⟨a.view, hv, hanswered (hall a (by simp))⟩

/-! ### Refinement -/

/-- What a client sees of a heap file through `GetRecordBytes` and `Scan` is the map of its live
records, each visited once. -/
def Shows (st : Store) (h : HeapFile) (v : HeapView) : Prop :=
  ∃ chain visited, HeapInv st h chain ∧
    (∀ rid bs, v.live rid = some bs →
      Store.exec (C := Empty) (fun _ => getRecordBytes rid) st = .ok (.ok bs, st)) ∧
    (∀ rid, rid.pageId ∈ chain → v.live rid = none →
      ∃ e, Store.exec (C := Empty) (fun _ => getRecordBytes rid) st = .ok (.error e, st)) ∧
    Store.exec (C := Empty) (scan h) st = .ok (visited, st) ∧
    (visited.map Prod.fst).Nodup ∧ ∀ rid bs, (rid, bs) ∈ visited ↔ v.live rid = some bs

/-- The heap files of a pool show the maps `vs`, no record belongs to two of them, and every call on
them returns unless the pool has no page left. -/
structure Refines (vs : List HeapView) (s : Heaps) : Prop where
  length_eq : s.files.length = vs.length
  shows : ∀ (f : Nat) h v, s.files[f]? = some h → vs[f]? = some v → Shows s.store h v
  separate : ∀ (f g : Nat) v w rid, vs[f]? = some v → vs[g]? = some w → f ≠ g →
    v.live rid ≠ none → w.live rid = none
  returns : ∀ op : HeapOp, op.OnHeap HeapCall.OwnIds vs →
    s.exec op = .error .noNewPage ∨ ∃ r s', s.exec op = .ok (r, s')

/-- The call is answered as it has to be; an id is unused if it is not that of a live record of any heap. -/
def Answered (before : List (HeapOp × HeapAnswer)) (op : HeapOp) (r : HeapAnswer) : Prop :=
  op.OnHeap (fun v c => c.Answered (fun rid => ∀ w ∈ views before, w.live rid = none) v r) (views before)

/-- The calls a client may make: on existing heaps, with their own record ids, with records of at
least one byte. -/
def ProperCall (before : List (HeapOp × HeapAnswer)) (op : HeapOp) (_ : HeapAnswer) : Prop :=
  op.OnHeap (fun v c => c.OwnIds v ∧ c.NonemptyRecord) (views before)

/-- No live record is updated to bytes no page can hold. -/
def UpdateFits (before : List (HeapOp × HeapAnswer)) (op : HeapOp) (_ : HeapAnswer) : Prop :=
  op.OnHeap HeapCall.FitsOrDead (views before)

theorem scan_exec {st : Store} (hi : HeapInv st h chain) :
    Store.exec (C := Empty) (scan h) st = .ok (heapRecords st chain, st) := by
  obtain ⟨visited, st', hrun, rfl, rfl⟩ := Store.exec_of_wp_false (scan_wp hi
    (Nat.lt_succ_of_le hi.length_le)
    (Q := fun visited st' => visited = heapRecords st chain ∧ st' = st) ⟨rfl, rfl⟩)
  exact hrun

theorem getRecordBytes_exec {st : Store} (hi : HeapInv st h chain) (hrid : rid.pageId ∈ chain) :
    Store.exec (C := Empty) (fun _ => getRecordBytes rid) st
      = .ok (match recordAt st rid with
        | some bs => .ok bs
        | none => .error ⟨.notFound, lit "GetRecordBytes: record deleted or slot invalid"⟩, st) := by
  obtain ⟨r, st', hrun, rfl, rfl⟩ := Store.exec_of_wp_false (x := fun _ => getRecordBytes rid)
    (getRecordBytes_wp hi hrid
    (Q := fun r st' => r = (match recordAt st rid with
        | some bs => .ok bs
        | none => .error ⟨.notFound, lit "GetRecordBytes: record deleted or slot invalid"⟩) ∧
      st' = st)
    (fun bs h => ⟨by rw [h], rfl⟩) (fun h => ⟨by rw [h], rfl⟩))
  exact hrun

theorem Shows.of_live (ha : RowInv st a) (hlive : RowLive st a) :
    Shows st a.file a.view := by
  refine ⟨a.chain, _, ha.inv, ?_, ?_, scan_exec ha.inv, nodup_heapRecords ha.inv.nodup, ?_⟩
  · intro rid bs hrid
    rw [hlive rid] at hrid
    split_ifs at hrid with hmem
    rw [getRecordBytes_exec ha.inv hmem, hrid]
  · intro rid hmem hrid
    rw [hlive rid, if_pos hmem] at hrid
    exact ⟨_, by rw [getRecordBytes_exec ha.inv hmem, hrid]⟩
  · intro rid bs
    rw [mem_heapRecords, hlive rid]
    split_ifs with hmem
    · exact and_iff_right hmem
    · simp [hmem]

theorem Shows.live {st : Store} (ha : RowInv st a) (h : Shows st a.file a.view) : RowLive st a := by
  obtain ⟨_, visited, -, -, -, hscan, -, hmem⟩ := h
  rw [scan_exec ha.inv] at hscan
  obtain rfl : heapRecords st a.chain = visited := by simpa using hscan
  intro rid
  ext bs
  rw [← hmem, mem_heapRecords]
  split_ifs with hc
  · exact and_iff_right hc
  · simp [hc]

theorem HeapsInv.disjoint_of_ne (hs : HeapsInv s vs rows) {g : Nat} {b : Row}
    (ha : rows[f]? = some a) (hb : rows[g]? = some b) (hfg : f ≠ g) : a.chain.Disjoint b.chain := by
  obtain ⟨hf, rfl⟩ := List.getElem?_eq_some_iff.mp ha
  obtain ⟨hg, rfl⟩ := List.getElem?_eq_some_iff.mp hb
  rcases Nat.lt_or_gt_of_ne hfg with hlt | hlt
  · exact List.pairwise_iff_getElem.mp hs.tenants.disjoint f g hf hg hlt
  · exact fun _ hx hy => List.pairwise_iff_getElem.mp hs.tenants.disjoint g f hg hf hlt hy hx

/-- The heaps are refined exactly when their live records are in their pages. -/
theorem HeapsInv.refines_iff (hs : HeapsInv s vs rows) :
    Refines vs s ↔ ∀ b ∈ rows, RowLive s.store b := by
  constructor
  · intro href b hb
    obtain ⟨f, hf⟩ := List.getElem?_of_mem hb
    apply Shows.live (hs.row b hb)
    apply href.shows f
    · rw [hs.files_eq, List.getElem?_map, hf]
      rfl
    · rw [hs.views_eq, List.getElem?_map, hf]
      rfl
  · intro hlive
    refine ⟨by rw [hs.files_eq, hs.views_eq, List.length_map, List.length_map], ?_, ?_, ?_⟩
    · intro f h v hf hv
      obtain ⟨l, a, r, rfl, rfl, rfl⟩ := hs.split hv
      have ha : a ∈ l ++ a :: r := by simp
      obtain rfl : a.file = h := by simpa [hs.files_eq] using hf
      exact Shows.of_live (hs.row a ha) (hlive a ha)
    · intro f g v w rid hv hw hfg hlv
      rw [hs.views_eq, List.getElem?_map] at hv hw
      obtain ⟨a, ha, rfl⟩ := Option.map_eq_some_iff.mp hv
      obtain ⟨b, hb, rfl⟩ := Option.map_eq_some_iff.mp hw
      have hda := hs.disjoint_of_ne ha hb hfg
      rw [hlive a (List.mem_of_getElem? ha)] at hlv
      rw [hlive b (List.mem_of_getElem? hb)]
      split_ifs at hlv with hmem
      · rw [if_neg (fun h => hda hmem h)]
      · exact absurd rfl hlv
    · intro op hop
      rcases hs.exec hop with h | ⟨r, s', -, h, -⟩
      · exact .inl h
      · exact .inr ⟨r, s', h⟩

theorem HeapOp.OnHeap.mono {p q : HeapView → HeapCall → Prop} (h : op.OnHeap p vs)
    (hpq : ∀ v c, p v c → q v c) : op.OnHeap q vs := by
  cases op with
  | create => trivial
  | call f c =>
    obtain ⟨v, hv, hp⟩ := h
    exact ⟨v, hv, hpq v c hp⟩

/-- The pages of the heaps are sound after every history of proper calls; their records are the live
ones if every update fits. -/
theorem heapsInv_of_run (hrun : Run Heaps.exec ⟨st, []⟩ history s)
    (hids : Guarded (fun before op _ => op.OnHeap HeapCall.OwnIds (views before)) history) :
    ∃ rows, HeapsInv s (views history) rows := by
  refine Run.invariant (fun history s => ∃ rows, HeapsInv s (views history) rows)
    ⟨[], HeapsInv.init st⟩ ?_ hids hrun
  rintro history s op r s' ⟨rows, hs⟩ hop hexec
  rcases hs.exec hop with herr | ⟨r', t, rows', hok, hs', -⟩
  · simp [hexec] at herr
  · obtain ⟨rfl, rfl⟩ : r = r' ∧ s' = t := by simpa [hexec] using hok
    exact ⟨rows', by rw [views_snoc]; exact hs'⟩

/-- One proper call from a refined state: refined afterwards exactly when the update fits. -/
theorem refines_step {s' : Heaps} (hs : HeapsInv s (views history) rows)
    (href : Refines (views history) s) (hproper : ProperCall history op r)
    (hexec : s.exec op = .ok (r, s')) :
    (Refines (views (history ++ [(op, r)])) s' ↔ UpdateFits history op r) ∧
      Answered history op r := by
  have hop := hproper.mono fun _ _ h => h.1
  rcases hs.exec hop with herr | ⟨r', t, rows', hok, hs', hlive, hanswered⟩
  · simp [hexec] at herr
  · obtain ⟨rfl, rfl⟩ : r = r' ∧ s' = t := by simpa [hexec] using hok
    rw [views_snoc, hs'.refines_iff]
    have hrows := hs.refines_iff.mp href
    refine ⟨hlive hrows (hproper.mono fun _ _ h => h.2), (hanswered hrows).mono fun v c h => ?_⟩
    refine h.mono fun rid hfree w hw => ?_
    rw [hs.views_eq] at hw
    obtain ⟨b, hb, rfl⟩ := List.mem_map.mp hw
    rw [hrows b hb, hfree, ite_self]

/-- **`HeapFile` refines a map exactly while updates fit.**  For every history of proper calls on
any number of heaps in one pool, all states on the way show the maps of live records, and every
call is answered as it has to be, if and only if no call updates a live record to more than
`kMaxRecordSize` bytes. -/
theorem heapFile_refines_map (st : Store) {history : List (HeapOp × HeapAnswer)} {s : Heaps}
    (hrun : Run Heaps.exec ⟨st, []⟩ history s) (hproper : Guarded ProperCall history) :
    (Throughout Heaps.exec ⟨st, []⟩ (fun before t => Refines (views before) t) history ∧
        Guarded Answered history) ↔
      Guarded UpdateFits history := by
  have hinv : ∀ (before : List (HeapOp × HeapAnswer)) (t : Heaps),
      Run Heaps.exec ⟨st, []⟩ before t → Guarded ProperCall before →
      ∃ rows, HeapsInv t (views before) rows := fun before t ht hp =>
    heapsInv_of_run ht (hp.mono fun _ _ _ h => h.mono fun _ _ h => h.1)
  have hstart : Refines (views []) ⟨st, []⟩ :=
    (HeapsInv.init st).refines_iff.mpr fun b hb => by cases hb
  have hiff : Throughout Heaps.exec ⟨st, []⟩ (fun before t => Refines (views before) t) history ↔
      Guarded UpdateFits history := by
    refine hrun.throughout_iff hstart ?_ hproper
    intro before t op r t' ht hp href hop hexec
    obtain ⟨rows, hs⟩ := hinv before t ht hp
    exact (refines_step hs href hop hexec).1
  rw [← hiff]
  refine and_iff_left_of_imp fun hall => hall.guarded hrun hproper ?_
  intro before t op r t' ht hp href hop hexec
  obtain ⟨rows, hs⟩ := hinv before t ht hp
  exact (refines_step hs href hop hexec).2

/-- A record of one byte, and one that is a byte too long for a page. -/
def shortRecord : RecordBytes := ⟨[65], by decide⟩

def oversizedRecord : RecordBytes := ⟨List.replicate 4081 66, by decide +kernel⟩

/-- A new heap file and one record in it. -/
def shortInsert : List (HeapOp × HeapAnswer) :=
  [(.create, .opened), (.call 0 (.insertRecord shortRecord), .recordId (.ok ⟨1, 0⟩))]

theorem shortInsert_proper : Guarded ProperCall shortInsert := by
  rw [show shortInsert = [] ++ [_] ++ [_] from rfl, guarded_snoc, guarded_snoc]
  exact ⟨⟨guarded_nil, trivial⟩, _, rfl, trivial, List.cons_ne_nil _ _⟩

/-- Two records that do not fit into one page together. -/
def mediumRecord : RecordBytes := ⟨List.replicate 2000 66, by rw [List.length_replicate]; decide⟩

def longRecord : RecordBytes := ⟨List.replicate 2100 67, by rw [List.length_replicate]; decide⟩

/-- Two heaps: a record is deleted in one, and a record of the other is updated in its place and then moved
to a new page. -/
def moved : List (HeapOp × HeapAnswer) := [(.create, .opened), (.create, .opened),
  (.call 0 (.insertRecord shortRecord), .recordId (.ok ⟨1, 0⟩)),
  (.call 1 (.insertRecord shortRecord), .recordId (.ok ⟨2, 0⟩)),
  (.call 0 (.insertRecord mediumRecord), .recordId (.ok ⟨1, 1⟩)),
  (.call 0 (.updateRecord ⟨1, 0⟩ shortRecord), .recordId (.ok ⟨1, 0⟩)),
  (.call 1 (.deleteRecord ⟨2, 0⟩), .status (.ok ())),
  (.call 0 (.updateRecord ⟨1, 0⟩ longRecord), .recordId (.ok ⟨3, 0⟩))]

theorem heapFile_refines_map_moved :
    ∃ s, Run Heaps.exec ⟨Store.new, []⟩ moved s ∧ Guarded ProperCall moved ∧
      Throughout Heaps.exec ⟨Store.new, []⟩ (fun before t => Refines (views before) t) moved ∧
      Guarded Answered moved := by
  obtain ⟨s, hrun, -⟩ := exists_run_of_check Heaps.exec ⟨Store.new, []⟩
    (moved.map Prod.fst) moved (fun _ => true) (by decide +kernel)
  have hsplit : moved = [] ++ [_] ++ [_] ++ [_] ++ [_] ++ [_] ++ [_] ++ [_] ++ [_] := rfl
  have hmedium : mediumRecord.bytes ≠ [] := List.cons_ne_nil _ _
  have hlong : longRecord.bytes ≠ [] := List.cons_ne_nil _ _
  have hlength : longRecord.bytes.length = 2100 := List.length_replicate
  have hproper : Guarded ProperCall moved := by
    rw [hsplit]
    simp only [guarded_snoc]
    refine ⟨⟨⟨⟨⟨⟨⟨⟨guarded_nil, trivial⟩, trivial⟩, _, rfl, trivial, List.cons_ne_nil _ _⟩,
      _, rfl, trivial, List.cons_ne_nil _ _⟩, _, rfl, trivial, hmedium⟩,
      _, rfl, ?_, List.cons_ne_nil _ _⟩, _, rfl, List.mem_cons_self .., trivial⟩,
      _, rfl, List.mem_cons_self .., hlong⟩
    exact List.mem_cons_of_mem _ (List.mem_cons_self ..)
  have hfits : Guarded UpdateFits moved := by
    rw [hsplit]
    simp only [guarded_snoc]
    exact ⟨⟨⟨⟨⟨⟨⟨⟨guarded_nil, trivial⟩, trivial⟩, _, rfl, trivial⟩, _, rfl, trivial⟩, _, rfl, trivial⟩,
      _, rfl, .inl (by decide)⟩, _, rfl, trivial⟩, _, rfl, .inl (by rw [hlength]; decide)⟩
  exact ⟨s, hrun, hproper, (heapFile_refines_map Store.new hrun hproper).mpr hfits⟩

/-- The record is then updated to bytes that no page can hold, which fails. -/
def oversizedUpdate : List (HeapOp × HeapAnswer) :=
  shortInsert ++
    [(.call 0 (.updateRecord ⟨1, 0⟩ oversizedRecord), .recordId (.error recordTooLarge))]

/-- The failed update of a live record loses it: it is in the map and no longer in the heap. -/
theorem oversizedUpdate_loses_record :
    ∃ s, Run Heaps.exec ⟨Store.new, []⟩ oversizedUpdate s ∧ Guarded ProperCall oversizedUpdate ∧
      ¬ Refines (views oversizedUpdate) s := by
  obtain ⟨s, hrun, hcheck⟩ := exists_run_of_check Heaps.exec ⟨Store.new, []⟩
    (oversizedUpdate.map Prod.fst) oversizedUpdate
    (fun s => decide ((Store.exec (C := Empty) (fun _ => getRecordBytes ⟨1, 0⟩) s.store).toOption.map
      (fun p => p.1.toOption) = some none))
    (by decide +kernel)
  refine ⟨s, hrun, guarded_snoc.mpr ⟨shortInsert_proper, _, rfl, ?_, List.cons_ne_nil _ _⟩, ?_⟩
  · exact List.mem_cons_self ..
  · intro href
    have hlive : ∃ v, (views oversizedUpdate)[0]? = some v ∧ v.live ⟨1, 0⟩ = some [65] :=
      ⟨_, rfl, rfl⟩
    obtain ⟨v, hv, hv1⟩ := hlive
    obtain ⟨h, hh⟩ : ∃ h, s.files[0]? = some h := by
      have hlen : s.files.length = 1 := href.length_eq
      exact ⟨s.files[0], List.getElem?_eq_getElem _⟩
    obtain ⟨_, _, -, hget, -⟩ := href.shows 0 h v hh hv
    rw [hget ⟨1, 0⟩ [65] hv1] at hcheck
    simp [Except.toOption] at hcheck

end MiniDB.HeapFile
