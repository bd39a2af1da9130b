import MiniDB.Buffer.Equiv.BufferPool

/-!
# A buffer pool is transparent

A `View` is what the clients of a pool know from the calls they made and the answers they got: the content
of the pages, the pins they hold, the pointers they got and the id of the next page.  Clients that write
only to pages they hold a pin on, and report their changes with the last pin they give back (`Allowed`),
find what they expect as long as no operation on the file fails (`pool_transparent`).
-/

namespace MiniDB.BufferPool

open Paged WriteBack PageManager

variable {n : Nat} {pool pool' : BufferPool n}

/-! ### What clients know -/

/-- What the clients know about a pool. -/
structure View (n : Nat) where
  clients : Clients PageId Page
  /-- the pointer that a page was last fetched with -/
  pointer : PageId → Option (Fin n)
  next : PageId

namespace View

/-- A page was pinned in a frame. -/
def fetched (v : View n) (p : PageId) (f : Fin n) : View n :=
  { v with clients := v.clients.pin p, pointer := Function.update v.pointer p (some f) }

/-- What the clients know after a call. -/
def after (v : View n) : Call n → Answer n → View n
  | .fetchPage p, .fetched (some (f, _)) => v.fetched p f
  | .newPage, .created r =>
    let v := { v with clients := v.clients.create v.next Page.blank, next := v.next + 1 }
    match r with
    | some (p, f, _) => v.fetched p f
    | none => v
  | .unpinPage p isDirty, .unpinned true => { v with clients := v.clients.unpin p isDirty }
  | .write p _ page, _ => { v with clients := v.clients.write p page }
  | _, _ => v

/-- What clients may do: change a page through the pointer to it while they hold a pin, and give back the
last pin of a page they changed with `is_dirty`. -/
def Allowed (v : View n) : Call n → Prop
  | .write p f _ => p ∈ v.clients.pins ∧ v.pointer p = some f
  | .unpinPage p isDirty => v.clients.MayUnpin p isDirty
  | _ => True

end View

/-- The view on a new pool: the pages are those of the file. -/
def viewOf (pm : PageManager) (history : List (Call n × Answer n)) : View n :=
  history.foldl (fun v e => v.after e.1 e.2) ⟨⟨pm.content, [], ∅⟩, fun _ => none, pm.nextPageId⟩

theorem viewOf_snoc (pm : PageManager) (history : List (Call n × Answer n)) (c : Call n)
    (a : Answer n) : viewOf pm (history ++ [(c, a)]) = (viewOf pm history).after c a :=
  List.foldl_concat ..

/-- The pool shows its clients what they expect. -/
structure Shows (v : View n) (pool : BufferPool n) : Prop where
  inv : Inv none pool
  agrees : Agrees dataPages pool.cache v.clients
  pointer : ∀ p ∈ v.clients.pins, pool.pageTable.find? p = v.pointer p
  next : v.next = pool.pageManager.nextPageId

variable {v : View n} {p : PageId} {f : Fin n} {table : UnorderedMap PageId (Fin n)} {pm : PageManager}

/-- A page that a client holds a pin on is in its frame. -/
theorem resident_of_pinned {s : Clients PageId Page} (h : Agrees dataPages pool.cache s)
    (hp : p ∈ s.pins) : ∃ f, pool.pageTable.find? p = some f ∧ 0 < (pool.frames f).pinCount := by
  have hcount := h.pins_eq p
  have hpos : 0 < s.pins.count p := List.count_pos_iff.mpr hp
  cases hfind : pool.pageTable.find? p with
  | none =>
    rw [pins_of_absent hfind] at hcount
    omega
  | some f =>
    rw [pins_of_find hfind] at hcount
    exact ⟨f, rfl, by omega⟩

/-- Pinned pages keep their pointers. -/
theorem Shows.pointer_of_stays (h : Shows v pool) (hstays : Stays pool pool')
    (hp : p ∈ v.clients.pins) : pool'.pageTable.find? p = v.pointer p := by
  obtain ⟨f, hfind, hpos⟩ := resident_of_pinned h.agrees hp
  rw [← h.pointer p hp, hfind]
  exact hstays p f hfind hpos

/-- A new pool shows the pages of the file. -/
theorem Shows.new (hpm : pm.Counted) (htable : ∀ p, table.find? p = none) :
    Shows (viewOf pm []) (BufferPool.new pm table) := by
  refine ⟨.new hpm htable, fun p => ?_, nofun, rfl⟩
  have hline : (BufferPool.new pm table).cache.lines p = none := lines_of_absent (htable p)
  rw [AgreesAt, hline]
  exact ⟨fun _ => rfl, rfl, nofun⟩

/-- An operation as its clients see it. -/
theorem Shows.serve {v' : View n} (h : Shows v pool) (hserved : Served pool v.clients pool' v'.clients)
    (hgood : pool.pageManager.good = true)
    (hpins : ∀ p ∈ v'.clients.pins, pool'.pageTable.find? p = v'.pointer p ∨
      p ∈ v.clients.pins ∧ v'.pointer p = v.pointer p)
    (hnext : v'.next = pool'.pageManager.nextPageId) : Shows v' pool' := by
  refine ⟨hserved.inv, (hserved.steps hgood).agrees h.agrees, fun p hp => ?_, hnext⟩
  rcases hpins p hp with hnew | ⟨hold, hsame⟩
  · exact hnew
  · rw [hsame]
    exact h.pointer_of_stays hserved.stays hold

/-- The pointers after a page was pinned in a frame. -/
theorem pointer_fetched (hfind : pool'.pageTable.find? p = some f) :
    ∀ q ∈ (v.fetched p f).clients.pins, pool'.pageTable.find? q = (v.fetched p f).pointer q ∨
      q ∈ v.clients.pins ∧ (v.fetched p f).pointer q = v.pointer q := by
  intro q hq
  show _ = Function.update v.pointer p (some f) q ∨ _ ∧ Function.update v.pointer p (some f) q = _
  by_cases hqp : q = p
  · rw [hqp, Function.update_self, hfind]
    exact .inl rfl
  · rw [Function.update_of_ne hqp]
    exact .inr ⟨(List.mem_cons.mp hq).resolve_left hqp, rfl⟩

/-- What a call returns, and what it does to the pages that are pinned and to the file. -/
structure Transparent (v : View n) (c : Call n) (a : Answer n) (pool pool' : BufferPool n) : Prop where
  /-- a page is fetched with the content it last had -/
  fetch : ∀ p f page, c = .fetchPage p → a = .fetched (some (f, page)) → p ≠ kHeaderPageId →
    page = v.clients.content p
  /-- a new page is one of zeroes -/
  new : ∀ p f page, c = .newPage → a = .created (some (p, f, page)) → page = Page.blank
  /-- pinned pages stay in their frames -/
  stays : Stays pool pool'
  /-- after `FlushAll` without pins, the file has the content of every page -/
  flush : c = .flushAll → a = .flushed (.ok ()) → v.clients.pins = [] → ∀ p, p ≠ kHeaderPageId →
    pool'.pageManager.content p = v.clients.content p

theorem call_fetchPage (h : Shows v pool) (hgood : pool.pageManager.good = true) (p : PageId) :
    Shows (v.after (.fetchPage p) (pool.call (.fetchPage p)).1) (pool.call (.fetchPage p)).2 ∧
      Transparent v (.fetchPage p) (pool.call (.fetchPage p)).1 pool (pool.call (.fetchPage p)).2 := by
  obtain ⟨-, hnext, -, ⟨f, hf, hfind, hserved⟩ | ⟨hf, hserved, -⟩⟩ :=
    fetchPage_spec (s := v.clients) h.inv p
  · have hcall : pool.call (.fetchPage p) = (.fetched (some (f, ((pool.fetchPage p).2.frames f).page)),
        (pool.fetchPage p).2) := by
      rw [call, hf]
      rfl
    rw [hcall]
    have hshows : Shows (v.fetched p f) (pool.fetchPage p).2 :=
      h.serve hserved hgood (pointer_fetched hfind) (h.next.trans hnext.symm)
    refine ⟨hshows, ⟨?_, by simp, hserved.stays, by simp⟩⟩
    rintro _ _ page ⟨⟩ ⟨⟩ hp
    exact (Cache.read_of_line (lines_of_find hfind)).symm.trans (hshows.agrees.read_eq hp)
  · have hcall : pool.call (.fetchPage p) = (.fetched none, (pool.fetchPage p).2) := by
      rw [call, hf]
      rfl
    rw [hcall]
    exact ⟨h.serve hserved hgood (fun _ hq => .inr ⟨hq, rfl⟩) (h.next.trans hnext.symm),
      ⟨by simp, by simp, hserved.stays, by simp⟩⟩

theorem call_newPage (h : Shows v pool) (hgood : (pool.call .newPage).2.pageManager.good = true) :
    Shows (v.after .newPage (pool.call .newPage).1) (pool.call .newPage).2 ∧
      Transparent v .newPage (pool.call .newPage).1 pool (pool.call .newPage).2 := by
  obtain ⟨-, hnext, ⟨-, -, hbroken⟩ | ⟨-, hgood₀, -, ⟨f, hf, hfind, hblank, hserved⟩ |
    ⟨hf, hserved, -⟩⟩⟩ := newPage_spec (s := v.clients) h.inv
  · exact absurd (hbroken.symm.trans hgood) Bool.false_ne_true
  · rw [← h.next] at hf hfind hserved hnext
    have hcall : pool.call .newPage = (.created (some (v.next, f, (pool.newPage.2.frames f).page)),
        pool.newPage.2) := by
      rw [call, hf]
      rfl
    rw [hcall]
    refine ⟨h.serve hserved hgood₀ (pointer_fetched (v := { v with
      clients := v.clients.create v.next Page.blank, next := v.next + 1 }) hfind) hnext.symm, ?_⟩
    refine ⟨by simp, ?_, hserved.stays, by simp⟩
    rintro _ _ page - ⟨⟩
    exact hblank
  · rw [← h.next] at hserved hnext
    have hcall : pool.call .newPage = (.created none, pool.newPage.2) := by
      rw [call, hf]
      rfl
    rw [hcall]
    exact ⟨h.serve hserved hgood₀ (fun _ hq => .inr ⟨hq, rfl⟩) hnext.symm,
      ⟨by simp, by simp, hserved.stays, by simp⟩⟩

theorem call_unpinPage (h : Shows v pool) (hgood : pool.pageManager.good = true) {dirty : Bool}
    (hmay : v.clients.MayUnpin p dirty) :
    Shows (v.after (.unpinPage p dirty) (pool.call (.unpinPage p dirty)).1)
        (pool.call (.unpinPage p dirty)).2 ∧
      Transparent v (.unpinPage p dirty) (pool.call (.unpinPage p dirty)).1 pool
        (pool.call (.unpinPage p dirty)).2 := by
  rcases unpinPage_cases pool p dirty with heq | ⟨f, hfind, hpins, hok⟩
  · rw [call, heq]
    exact ⟨h, ⟨by simp, by simp, fun _ _ hq _ => hq, by simp⟩⟩
  · have hserved := unpinPage_spec h.inv dirty hfind hpins hmay
    have hnext := congrArg PageManager.nextPageId (pageManager_unpinPage pool p dirty)
    rw [call, hok]
    refine ⟨h.serve hserved hgood (fun q hq => .inr ⟨List.mem_of_mem_erase hq, rfl⟩)
      (h.next.trans hnext.symm), ⟨by simp, by simp, hserved.stays, by simp⟩⟩

/-- One call of a client that does what it may. -/
theorem Shows.call (h : Shows v pool) {c : Call n} (hallowed : v.Allowed c)
    (hgood : (pool.call c).2.pageManager.good = true) :
    Shows (v.after c (pool.call c).1) (pool.call c).2 ∧
      Transparent v c (pool.call c).1 pool (pool.call c).2 := by
  have hgood₀ := good_of_call h.inv c hgood
  cases c with
  | fetchPage p => exact call_fetchPage h hgood₀ p
  | newPage => exact call_newPage h hgood
  | unpinPage p dirty => exact call_unpinPage h hgood₀ hallowed
  | flushPage p =>
    obtain ⟨-, hnext, hserved⟩ := flushPage_spec (s := v.clients) h.inv p
    exact ⟨h.serve hserved hgood₀ (fun _ hq => .inr ⟨hq, rfl⟩) (h.next.trans hnext.symm),
      ⟨by simp, by simp, hserved.stays, by simp⟩⟩
  | flushAll =>
    obtain ⟨-, hnext, hserved, hclean⟩ := flushAll_spec (s := v.clients) h.inv
    have hshows : Shows v pool.flushAll.2 :=
      h.serve hserved hgood₀ (fun _ hq => .inr ⟨hq, rfl⟩) (h.next.trans hnext.symm)
    refine ⟨hshows, ⟨nofun, nofun, hserved.stays, fun _ hok hpins p hp => ?_⟩⟩
    exact hshows.agrees.backing_eq hpins (hclean (Answer.flushed.inj hok)) hp
  | write p f page =>
    obtain ⟨hpinned, hpointer⟩ := hallowed
    obtain ⟨g, hfind, hpins⟩ := resident_of_pinned h.agrees hpinned
    obtain rfl : g = f := Option.some.inj (hfind.symm.trans ((h.pointer p hpinned).trans hpointer))
    have hserved := write_spec (s := v.clients) h.inv hfind hpins page
    exact ⟨h.serve hserved hgood₀ (fun _ hq => .inr ⟨hq, rfl⟩) h.next,
      ⟨by simp, by simp, hserved.stays, by simp⟩⟩

/-! ### Runs -/

open Runs

/-- As long as the stream works, the pool shows what the calls so far say. -/
theorem shows_of_run (hpm : pm.Counted) (htable : ∀ p, table.find? p = none)
    {history : List (Call n × Answer n)}
    (hallowed : Guarded (fun before c _ => (viewOf pm before).Allowed c) history)
    (hrun : Run exec (BufferPool.new pm table) history pool) (hgood : pool.pageManager.good = true) :
    Shows (viewOf pm history) pool := by
  have hnew := Shows.new hpm htable
  have hinv := Run.invariant (fun before s => Inv none s ∧
    (s.pageManager.good = true → Shows (viewOf pm before) s)) ⟨hnew.inv, fun _ => hnew⟩ ?_ hallowed hrun
  · exact hinv.2 hgood
  · rintro before s c a s' ⟨hinv, hshows⟩ hok hexec
    obtain ⟨rfl, rfl⟩ := exec_eq_ok.mp hexec
    refine ⟨hinv.call c, fun hgood' => ?_⟩
    rw [viewOf_snoc]
    exact ((hshows (good_of_call hinv c hgood')).call hok hgood').1

/-- **A buffer pool is transparent.**  As long as no operation on the file fails, clients that change pages
only while they hold a pin on them and report the changes find every page but the header with the content
it last had, a new page with zeroes, and a pinned page in its frame; and after `FlushAll` without pins the
file has the content of every page. -/
theorem pool_transparent {pm : PageManager} (hpm : pm.Counted) {table : UnorderedMap PageId (Fin n)}
    (htable : ∀ p, table.find? p = none) {history : List (Call n × Answer n)}
    (hrun : Run exec (BufferPool.new pm table) history pool) {c : Call n} {a : Answer n}
    (hcall : exec pool c = .ok (a, pool'))
    (hallowed : Guarded (fun before c _ => (viewOf pm before).Allowed c) (history ++ [(c, a)]))
    (hgood : pool'.pageManager.good = true) : Transparent (viewOf pm history) c a pool pool' := by
  obtain ⟨hbefore, hnow⟩ := guarded_snoc.mp hallowed
  obtain ⟨rfl, rfl⟩ := exec_eq_ok.mp hcall
  have hinv := inv_of_run hpm htable hrun
  have hshows := shows_of_run hpm htable hbefore hrun (good_of_call hinv c hgood)
  exact (hshows.call hnow hgood).2

/-- A pool of one frame on a new file. -/
def onePool : BufferPool 1 := .new (openFile 10 none) (noPages 1)

/-- A page with something in it. -/
def marked : Page := Page.blank.put 0 (7 : UInt32)

/-- A page is written, and another one takes its frame. -/
def evicting : List (Call 1 × Answer 1) :=
  [(.newPage, .created (some (1, 0, Page.blank))), (.write 1 0 marked, .written),
    (.unpinPage 1 true, .unpinned true), (.newPage, .created (some (2, 0, Page.blank))),
    (.unpinPage 2 true, .unpinned true)]

theorem evicting_transparent : ∃ pool pool', Run exec onePool evicting pool ∧
    exec pool (.fetchPage 1) = .ok (.fetched (some (0, marked)), pool') ∧
    Transparent (viewOf (openFile 10 none) evicting) (.fetchPage 1) (.fetched (some (0, marked)))
      pool pool' := by
  have hrun : runAll exec onePool (evicting.map Prod.fst) = .ok (evicting, _) := rfl
  have hallowed : Guarded (fun before c _ => (viewOf (openFile 10 none) before).Allowed c)
      (evicting ++ [(.fetchPage 1, .fetched (some (0, marked)))]) := by
    refine guarded_iff_forall_lt.mpr ?_
    rintro ⟨_ | _ | _ | _ | _ | _ | i, hi⟩
    · trivial
    · exact ⟨List.mem_cons_self .., rfl⟩
    · exact .inl rfl
    · trivial
    · exact .inl rfl
    · trivial
    · exact absurd hi (by simp [evicting])
  refine ⟨_, _, run_of_runAll hrun, rfl, ?_⟩
  exact pool_transparent (counted_openFile 10) (fun _ => rfl) (run_of_runAll hrun) rfl hallowed rfl

/-- The header page is fetched, and another page takes its frame. -/
def readingHeader : List (Call 1 × Answer 1) :=
  [(.fetchPage 0, .fetched (some (0, encodeHeaderPage 1 1))), (.unpinPage 0 false, .unpinned true),
    (.newPage, .created (some (1, 0, Page.blank))), (.unpinPage 1 true, .unpinned true)]

/-- The page manager has rewritten the header in the meantime: what is fetched is not what the page last
held for its client. -/
theorem header_changed : ∃ pool pool', Run exec onePool readingHeader pool ∧
    Guarded (fun before c _ => (viewOf (openFile 10 none) before).Allowed c) readingHeader ∧
    exec pool (.fetchPage 0) = .ok (.fetched (some (0, encodeHeaderPage 2 2)), pool') ∧
    pool'.pageManager.good = true ∧
    (viewOf (openFile 10 none) readingHeader).clients.content 0 = encodeHeaderPage 1 1 ∧
    encodeHeaderPage 2 2 ≠ encodeHeaderPage 1 1 := by
  have hrun : runAll exec onePool (readingHeader.map Prod.fst) = .ok (readingHeader, _) := rfl
  refine ⟨_, _, run_of_runAll hrun, ?_, rfl, rfl, rfl, ?_⟩
  · refine guarded_iff_forall_lt.mpr ?_
    rintro ⟨_ | _ | _ | _ | i, hi⟩
    · trivial
    · exact .inr (.inl nofun)
    · trivial
    · exact .inl rfl
    · exact absurd hi (by simp [readingHeader])
  · intro heq
    have hnext := congrArg (fun page => (decodeHeaderPage page).1) heq
    rw [decodeHeaderPage_encodeHeaderPage, decodeHeaderPage_encodeHeaderPage] at hnext
    exact absurd hnext (by decide)

end MiniDB.BufferPool
