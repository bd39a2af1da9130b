import MiniDB.Buffer.Equiv.BufferPool

/-!
# Which page a pool evicts

A `Clock` counts the calls on a pool and notes when the last pin of each page was given back; it is computed
from the calls and their answers alone.  The replacer has the unpinned frames in that order (`Aged`), so
that a call that needs a frame when none is free takes the frame of the page that has been without pins for
the longest time (`eviction_longest_unpinned`).  None of this depends on the file: pages that cannot be read
or written, or a file that cannot be extended, change nothing of it.
-/

namespace MiniDB.BufferPool

open Paged WriteBack PageManager
open Function (update update_apply update_of_ne update_self)

variable {n : Nat} {pool pool' : BufferPool n} {p : PageId} {f : Fin n}

/-! ### The clock -/

/-- The number of calls so far, the pins of each page, and the call at which it lost its last pin. -/
structure Clock where
  now : Nat
  pins : PageId → Nat
  dropped : PageId → Nat

namespace Clock

/-- A page got a pin. -/
def pinned (k : Clock) (p : PageId) : Clock :=
  { k with now := k.now + 1, pins := update k.pins p (k.pins p + 1) }

/-- A page lost a pin. -/
def unpinned (k : Clock) (p : PageId) : Clock where
  now := k.now + 1
  pins := update k.pins p (k.pins p - 1)
  dropped := if k.pins p = 1 then update k.dropped p k.now else k.dropped

theorem dropped_unpinned (k : Clock) (p : PageId) : (k.unpinned p).dropped
    = if k.pins p = 1 then update k.dropped p k.now else k.dropped := rfl

/-- The clock after a call. -/
def after (k : Clock) : Call n → Answer n → Clock
  | .fetchPage p, .fetched (some _) => k.pinned p
  | .newPage, .created (some (p, _)) => k.pinned p
  | .unpinPage p _, .unpinned true => k.unpinned p
  | _, _ => { k with now := k.now + 1 }

end Clock

/-- The clock after the calls of a history. -/
def clockOf (history : List (Call n × Answer n)) : Clock :=
  history.foldl (fun k e => k.after e.1 e.2) ⟨0, fun _ => 0, fun _ => 0⟩

theorem clockOf_snoc (history : List (Call n × Answer n)) (c : Call n) (a : Answer n) :
    clockOf (history ++ [(c, a)]) = (clockOf history).after c a := List.foldl_concat ..

/-! ### The replacer keeps the order -/

/-- The clock has the pins of the pages, and the replacer has the frames without pins, the page that lost
its last pin last in front. -/
structure Aged (k : Clock) (pool : BufferPool n) : Prop where
  pins : ∀ p, k.pins p = pool.cache.pins p
  past : ∀ f ∈ pool.replacer.frames, k.dropped (pool.frames f).pageId < k.now
  sorted : pool.replacer.frames.Pairwise fun f g =>
    k.dropped (pool.frames g).pageId < k.dropped (pool.frames f).pageId

variable {k k' : Clock} {table : UnorderedMap PageId (Fin n)} {pm : PageManager} {g : Fin n}

/-- Frames may leave the replacer. -/
theorem Aged.keep (h : Aged k pool)
    (hsub : pool'.replacer.frames.Sublist pool.replacer.frames)
    (hids : ∀ f ∈ pool'.replacer.frames, (pool'.frames f).pageId = (pool.frames f).pageId)
    (hdropped : k'.dropped = k.dropped) (hnow : k.now ≤ k'.now)
    (hpins : ∀ p, k'.pins p = pool'.cache.pins p) : Aged k' pool' := by
  refine ⟨hpins, fun f hf => ?_, ?_⟩
  · rw [hdropped, hids f hf]
    exact Nat.lt_of_lt_of_le (h.past f (hsub.subset hf)) hnow
  · rw [hdropped]
    refine (h.sorted.sublist hsub).imp_of_mem fun hf hg hlt => ?_
    rwa [hids _ hf, hids _ hg]

theorem Aged.new (htable : ∀ p, table.find? p = none) :
    Aged (clockOf ([] : List (Call n × Answer n))) (BufferPool.new pm table) :=
  ⟨fun p => (pins_of_absent (htable p)).symm, nofun, .nil⟩

/-- The pins after a line was changed. -/
theorem pins_setLine (c : Cache PageId Page) (p q : PageId) (line : Line Page) :
    (c.setLine p (some line)).pins q = update c.pins p line.pins q := by
  by_cases hq : q = p
  · rw [hq, update_self]
    exact Cache.pins_of_line (Cache.lines_setLine_self _)
  · rw [update_of_ne hq, Cache.pins, Cache.pins, Cache.lines_setLine_of_ne _ hq]

/-- A page without pins has left, so that all pages have their pins. -/
theorem Emptied.pins (he : Emptied f pool pool') (q : PageId) :
    pool'.cache.pins q = pool.cache.pins q := by
  cases hq : pool.pageTable.find? q with
  | none => rw [pins_of_absent hq, pins_of_absent (he.absent hq)]
  | some g =>
    rw [pins_of_find hq]
    have hq' := he.find?_of_find hq
    split_ifs at hq' with hg
    · rw [pins_of_absent hq', hg, he.unpinned]
    · rw [pins_of_find hq', he.keeps.frames g hg]

/-- The frame in hand is not in the replacer. -/
theorem Emptied.aged (he : Emptied f pool pool') (h : Aged k pool) : Aged k pool' := by
  refine h.keep he.lru (fun g hg => ?_) rfl (Nat.le_refl _) fun q => (h.pins q).trans (he.pins q).symm
  have hne : g ≠ f := fun heq => ((he.inv.lru_iff g).mp hg).2.2 (heq ▸ rfl)
  rw [he.keeps.frames g hne]

/-- The page that is installed gets its first pin. -/
theorem Emptied.aged_install (he : Emptied f pool pool') (h : Aged k pool)
    (hp : pool.pageTable.find? p = none) (page : Page) (dirty : Bool) :
    Aged (k.pinned p) (pool'.install f p page dirty) := by
  refine (he.aged h).keep (.refl _) (fun g hg => ?_) rfl (Nat.le_succ _) fun q => ?_
  · have hne : g ≠ f := fun heq => ((he.inv.lru_iff g).mp hg).2.2 (heq ▸ rfl)
    exact congrArg Frame.pageId (update_of_ne hne ..)
  · rw [he.inv.cache_install he.empty, pins_setLine]
    show update k.pins p (k.pins p + 1) q = update pool'.cache.pins p 1 q
    rw [h.pins p, pins_of_absent hp, funext h.pins, funext he.pins]

/-- A frame that gets other pins keeps its page. -/
theorem pageId_update {frame : Frame} (hid : frame.pageId = (pool.frames f).pageId) (g : Fin n) :
    (update pool.frames f frame g).pageId = (pool.frames g).pageId := by
  rw [update_apply]
  split_ifs with hg
  · rw [hid, hg]
  · rfl

theorem aged_fetchPage (hinv : Inv none pool) (h : Aged k pool) (p : PageId) :
    Aged (k.after (.fetchPage p) (pool.call (.fetchPage p)).1) (pool.call (.fetchPage p)).2 := by
  cases hp : pool.pageTable.find? p with
  | some f =>
    have s : Clients PageId Page := ⟨fun _ => Page.blank, [], ∅⟩
    obtain ⟨frame, r, heq, hframe, hsub, -⟩ := fetchPage_hit (s := s) hinv hp
    rw [call, heq]
    refine h.keep hsub (fun g _ => pageId_update (hframe ▸ rfl) g) rfl (Nat.le_succ _) fun q => ?_
    · rw [hinv.cache_setFrame hp, pins_setLine, hframe]
      show update k.pins p (k.pins p + 1) q = update pool.cache.pins p _ q
      rw [h.pins p, pins_of_find hp, funext h.pins]
      rfl
  | none =>
    cases hf : pool.findVictimFrame.1 with
    | none =>
      rw [call, fetchPage_of_full hinv hp hf]
      exact h.keep (.refl _) (fun _ _ => rfl) rfl (Nat.le_succ _) h.pins
    | some f =>
      have he := hinv.take hf
      rw [call, fetchPage_miss hinv hp hf]
      split_ifs with hread
      · exact he.aged_install h hp _ _
      · exact (he.aged h).keep (.refl _) (fun _ _ => rfl) rfl (Nat.le_succ _) (he.aged h).pins

/-- The id of a new page is not that of a resident one. -/
theorem Inv.absent_of_allocatePage (h : Inv none pool)
    (halloc : pool.pageManager.allocatePage.1 = .ok p) : pool.pageTable.find? p = none := by
  obtain ⟨-, -, -, ⟨⟨e, herror⟩, -⟩ | ⟨hok, -, -, hint, -⟩⟩ := h.counted.allocatePage
  · rw [herror] at halloc
    cases halloc
  · obtain rfl := Except.ok.inj (hok.symm.trans halloc)
    refine Option.eq_none_iff_forall_ne_some.mpr fun g hg => ?_
    have := (h.inRange _ g hg).2
    omega

/-- The pool after the file was extended, or could not be. -/
theorem Inv.allocated (h : Inv none pool) :
    Inv none { pool with pageManager := pool.pageManager.allocatePage.2 } := by
  obtain ⟨hpm, hcount, -⟩ := h.counted.allocatePage
  exact h.setPageManager hpm (by omega)

theorem aged_newPage (hinv : Inv none pool) (h : Aged k pool) :
    Aged (k.after .newPage (pool.call .newPage).1) (pool.call .newPage).2 := by
  have hinv₁ := hinv.allocated
  have h₁ : Aged k { pool with pageManager := pool.pageManager.allocatePage.2 } := ⟨h.pins, h.past, h.sorted⟩
  cases halloc : pool.pageManager.allocatePage.1 with
  | error e =>
    rw [call, newPage_of_error halloc]
    exact h₁.keep (.refl _) (fun _ _ => rfl) rfl (Nat.le_succ _) h.pins
  | ok p =>
    cases hf : (findVictimFrame { pool with pageManager := pool.pageManager.allocatePage.2 }).1 with
    | none =>
      rw [call, newPage_of_full halloc hf, (findVictimFrame_none hinv₁ hf).1]
      exact h₁.keep (.refl _) (fun _ _ => rfl) rfl (Nat.le_succ _) h.pins
    | some f =>
      rw [call, newPage_of_frame halloc hf]
      exact (hinv₁.take hf).aged_install h₁ (hinv.absent_of_allocatePage halloc) _ _

theorem aged_unpinPage (hinv : Inv none pool) (h : Aged k pool) (p : PageId) (dirty : Bool) :
    Aged (k.after (.unpinPage p dirty) (pool.call (.unpinPage p dirty)).1)
      (pool.call (.unpinPage p dirty)).2 := by
  rcases unpinPage_cases pool p dirty with heq | ⟨f, hp, hpos, -⟩
  · rw [call, heq]
    exact h.keep (.refl _) (fun _ _ => rfl) rfl (Nat.le_succ _) h.pins
  · rw [call, unpinPage_of_pinned dirty hp hpos]
    obtain ⟨hid, -⟩ := (hinv.table_iff p f).mp hp
    have hcount : k.pins p = (pool.frames f).pinCount := (h.pins p).trans (pins_of_find hp)
    generalize hframe : ({ pool.frames f with
      isDirty := (pool.frames f).isDirty || dirty
      pinCount := (pool.frames f).pinCount - 1 } : Frame) = frame
    have hids : ∀ g, (update pool.frames f frame g).pageId = (pool.frames g).pageId :=
      pageId_update (hframe ▸ rfl)
    have hpins : ∀ r : LRUReplacer n, ∀ q,
        (k.unpinned p).pins q = (cache { pool.setFrame f frame with replacer := r }).pins q := by
      intro r q
      rw [hinv.cache_setFrame hp, pins_setLine, ← hframe]
      show update k.pins p (k.pins p - 1) q = _
      rw [hcount, funext h.pins]
      rfl
    by_cases hone : (pool.frames f).pinCount = 1
    · -- the frame goes to the front, and is dropped now
      have hnot : f ∉ pool.replacer.frames := fun hmem => by
        have := ((hinv.lru_iff f).mp hmem).2.1
        omega
      have hself : (k.unpinned p).dropped p = k.now := by
        rw [Clock.dropped_unpinned, hcount, if_pos hone, update_self]
      have hother : ∀ g ∈ pool.replacer.frames,
          (k.unpinned p).dropped (pool.frames g).pageId = k.dropped (pool.frames g).pageId := by
        intro g hg
        have hne : (pool.frames g).pageId ≠ p := by
          rintro rfl
          have hfind := (hinv.table_iff _ g).mpr ⟨rfl, ((hinv.lru_iff g).mp hg).1⟩
          exact hnot (Option.some.inj (hp.symm.trans hfind) ▸ hg)
        rw [Clock.dropped_unpinned, hcount, if_pos hone, update_of_ne hne]
      have hframes := LRUReplacer.frames_unpin hnot
      rw [if_pos hone]
      refine ⟨hpins _, ?_, ?_⟩
      · intro g hg
        show (k.unpinned p).dropped (update pool.frames f frame g).pageId < k.now + 1
        rw [hids]
        dsimp only at hg
        rw [hframes] at hg
        rcases List.mem_cons.mp hg with rfl | hg
        · rw [hid, hself]
          exact Nat.lt_succ_self _
        · rw [hother g hg]
          exact Nat.lt_succ_of_lt (h.past g hg)
      · show (pool.replacer.unpin f).frames.Pairwise fun a b =>
          (k.unpinned p).dropped (update pool.frames f frame b).pageId <
            (k.unpinned p).dropped (update pool.frames f frame a).pageId
        simp only [hids, hframes]
        refine List.pairwise_cons.mpr ⟨fun g hg => ?_, ?_⟩
        · rw [hid, hself, hother g hg]
          exact h.past g hg
        · refine h.sorted.imp_of_mem fun ha hb hlt => ?_
          rwa [hother _ ha, hother _ hb]
    · rw [if_neg hone]
      refine h.keep (.refl _) (fun g _ => hids g) ?_ (Nat.le_succ _) (hpins _)
      show (k.unpinned p).dropped = _
      rw [Clock.dropped_unpinned, hcount, if_neg hone]

/-- The frames hold the pages they held, with their pins. -/
structure Unmoved (pool pool' : BufferPool n) : Prop where
  pageId : ∀ f, (pool'.frames f).pageId = (pool.frames f).pageId
  pinCount : ∀ f, (pool'.frames f).pinCount = (pool.frames f).pinCount
  table : pool'.pageTable = pool.pageTable
  replacer : pool'.replacer = pool.replacer

theorem Unmoved.refl (pool : BufferPool n) : Unmoved pool pool := ⟨fun _ => rfl, fun _ => rfl, rfl, rfl⟩

theorem Unmoved.trans {pool'' : BufferPool n} (h : Unmoved pool pool') (h' : Unmoved pool' pool'') :
    Unmoved pool pool'' :=
  ⟨fun f => (h'.pageId f).trans (h.pageId f), fun f => (h'.pinCount f).trans (h.pinCount f),
    h'.table.trans h.table, h'.replacer.trans h.replacer⟩

/-- A frame gets other bytes, or another dirty flag. -/
theorem Unmoved.setFrame (pool : BufferPool n) (pm : PageManager) (f : Fin n) (page : Page)
    (dirty : Bool) : Unmoved pool (BufferPool.setFrame f
      { pool.frames f with page := page, isDirty := dirty } { pool with pageManager := pm }) := by
  refine ⟨pageId_update rfl, fun g => ?_, rfl, rfl⟩
  show (update pool.frames f _ g).pinCount = _
  rw [update_apply]
  split_ifs with hg
  · rw [hg]
  · rfl

theorem unmoved_flushPage (pool : BufferPool n) (p : PageId) : Unmoved pool (pool.flushPage p).2 := by
  unfold flushPage
  cases pool.pageTable.find? p with
  | none => exact .refl pool
  | some f =>
    dsimp only
    cases (pool.pageManager.writePage p (pool.frames f).page).1 with
    | error e => exact ⟨fun _ => rfl, fun _ => rfl, rfl, rfl⟩
    | ok u => exact .setFrame pool _ f _ false

theorem unmoved_flushFrom (entries : List (PageId × Fin n)) (pool : BufferPool n) :
    Unmoved pool (flushFrom entries pool).2 := by
  induction entries generalizing pool with
  | nil => exact .refl pool
  | cons e entries ih =>
    obtain ⟨p, f⟩ := e
    rw [flushFrom]
    dsimp only
    by_cases hdirty : (pool.frames f).isDirty = true
    · rw [if_pos hdirty]
      cases (pool.pageManager.writePage p (pool.frames f).page).1 with
      | error e => exact ⟨fun _ => rfl, fun _ => rfl, rfl, rfl⟩
      | ok u => exact (Unmoved.setFrame pool _ f _ false).trans (ih _)
    · rw [if_neg hdirty]
      exact ih pool

/-- What neither pins nor unpins a page leaves the order as it is. -/
theorem Unmoved.aged (hsame : Unmoved pool pool') (h : Aged k pool) :
    Aged { k with now := k.now + 1 } pool' := by
  refine h.keep (by rw [hsame.replacer]) (fun f _ => hsame.pageId f) rfl (Nat.le_succ _) fun q => ?_
  show k.pins q = _
  rw [h.pins q]
  cases hq : pool.pageTable.find? q with
  | none => rw [pins_of_absent hq, pins_of_absent (hsame.table ▸ hq)]
  | some f => rw [pins_of_find hq, pins_of_find (hsame.table ▸ hq), hsame.pinCount]

/-- Whatever is called, the replacer stays in order. -/
theorem Aged.call (hinv : Inv none pool) (h : Aged k pool) (c : Call n) :
    Aged (k.after c (pool.call c).1) (pool.call c).2 := by
  cases c with
  | fetchPage p => exact aged_fetchPage hinv h p
  | newPage => exact aged_newPage hinv h
  | unpinPage p dirty => exact aged_unpinPage hinv h p dirty
  | flushPage p => exact (unmoved_flushPage pool p).aged h
  | flushAll => exact (unmoved_flushFrom pool.pageTable.entries pool).aged h
  | write p f page => exact (Unmoved.setFrame pool pool.pageManager f page _).aged h

theorem aged_of_run (hpm : pm.Counted) (htable : ∀ p, table.find? p = none)
    {history : List (Call n × Answer n)} (hrun : Runs.Run exec (BufferPool.new pm table) history pool) :
    Inv none pool ∧ Aged (clockOf history) pool := by
  refine Runs.Run.always (fun before s => Inv none s ∧ Aged (clockOf before) s)
    ⟨.new hpm htable, .new htable⟩ ?_ hrun
  rintro before s c a s' ⟨hinv, haged⟩ hexec
  obtain ⟨rfl, rfl⟩ := exec_eq_ok.mp hexec
  rw [clockOf_snoc]
  exact ⟨hinv.call c, haged.call hinv c⟩

/-! ### Calls that need a frame -/

/-- The call is for a page that is not resident, or for a new one that the file could be extended by. -/
def NeedsFrame (pool : BufferPool n) : Call n → Prop
  | .fetchPage p => pool.pageTable.find? p = none
  | .newPage => ∃ p, pool.pageManager.allocatePage.1 = .ok p
  | _ => False

/-- The call returns a null pointer. -/
def Answer.IsNull : Answer n → Prop
  | .fetched none => True
  | .created none => True
  | _ => False

/-- The page that is fetched cannot be read from the file. -/
def Unreadable (pool : BufferPool n) : Call n → Prop
  | .fetchPage p => ∃ e, pool.pageManager.readPage p = .error e
  | _ => False

theorem findVictimFrame_eq_none_iff (h : Inv none pool) :
    pool.findVictimFrame.1 = none ↔ ∀ f, 0 < (pool.frames f).pinCount := by
  constructor
  · exact fun hnone f => ((findVictimFrame_none h hnone).2 f).1
  · intro hpinned
    have hfree : pool.freeList = [] := by
      refine List.eq_nil_iff_forall_not_mem.mpr fun f hf => ?_
      have := h.free_pins f ((h.free_iff f).mp hf).1
      have := hpinned f
      omega
    have hlru : pool.replacer.frames = [] := by
      refine List.eq_nil_iff_forall_not_mem.mpr fun f hf => ?_
      have := ((h.lru_iff f).mp hf).2.1
      have := hpinned f
      omega
    simp [findVictimFrame, hfree, LRUReplacer.victim_fst, hlru]

/-- The search for a frame does not look at the file. -/
theorem findVictimFrame_setPageManager (pool : BufferPool n) (pm : PageManager) :
    (findVictimFrame { pool with pageManager := pm }).1 = pool.findVictimFrame.1 := by
  unfold findVictimFrame
  dsimp only
  cases pool.freeList.getLast? <;> rfl

/-- The resident pages after the page of a frame made room for another one. -/
theorem Emptied.find?_install {q : PageId} (he : Emptied f pool pool')
    (hp : pool.pageTable.find? p = none) (hq : pool.pageTable.find? q = some g) (page : Page)
    (dirty : Bool) :
    (pool'.install f p page dirty).pageTable.find? q = if g = f then none else some g := by
  have hne : q ≠ p := by
    rintro rfl
    rw [hp] at hq
    cases hq
  show (pool'.pageTable.insert p f).find? q = _
  rw [UnorderedMap.find?_insert, if_neg hne, he.find?_of_find hq]

/-- A call that needs a frame finds none, or takes one. -/
theorem needsFrame_cases (h : Inv none pool) {c : Call n} (hneeds : NeedsFrame pool c) :
    (pool.findVictimFrame.1 = none ∧ (pool.call c).1.IsNull) ∨
      ∃ f, pool.findVictimFrame.1 = some f ∧ ((pool.call c).1.IsNull ↔ Unreadable pool c) ∧
        ∀ q g, pool.pageTable.find? q = some g →
          (pool.call c).2.pageTable.find? q = if g = f then none else some g := by
  cases c with
  | fetchPage p =>
    have hp : pool.pageTable.find? p = none := hneeds
    cases hf : pool.findVictimFrame.1 with
    | none =>
      rw [call, fetchPage_of_full h hp hf]
      exact .inl ⟨rfl, trivial⟩
    | some f =>
      have he := h.take hf
      refine .inr ⟨f, rfl, ?_⟩
      rw [call, fetchPage_miss h hp hf]
      rcases readPage_eq p pool.pageManager with ⟨herror, hnot⟩ | ⟨hok, hread⟩
      · rw [if_neg hnot]
        exact ⟨iff_of_true trivial herror, fun q g hq => he.find?_of_find hq⟩
      · rw [if_pos hread]
        refine ⟨iff_of_false not_false ?_, fun q g hq => he.find?_install hp hq _ _⟩
        rintro ⟨e, herror⟩
        rw [hok] at herror
        cases herror
  | newPage =>
    obtain ⟨p, halloc⟩ := hneeds
    have hp := h.absent_of_allocatePage halloc
    have hsame := findVictimFrame_setPageManager pool pool.pageManager.allocatePage.2
    cases hf : pool.findVictimFrame.1 with
    | none =>
      rw [call, newPage_of_full halloc (hsame.trans hf)]
      exact .inl ⟨rfl, trivial⟩
    | some f =>
      have he := h.allocated.take (hsame.trans hf)
      rw [call, newPage_of_frame halloc (hsame.trans hf)]
      exact .inr ⟨f, rfl, iff_of_false not_false not_false, fun q g hq => he.find?_install hp hq _ _⟩
  | unpinPage p dirty => exact hneeds.elim
  | flushPage p => exact hneeds.elim
  | flushAll => exact hneeds.elim
  | write p f page => exact hneeds.elim

/-- The last frame of the replacer has been without pins for the longest time. -/
theorem Aged.dropped_last (h : Aged k pool) (hlast : pool.replacer.frames.getLast? = some f)
    (hg : g ∈ pool.replacer.frames) (hne : g ≠ f) :
    k.dropped (pool.frames f).pageId < k.dropped (pool.frames g).pageId := by
  obtain ⟨init, heq⟩ := List.getLast?_eq_some_iff.mp hlast
  have hsorted := h.sorted
  rw [heq, List.pairwise_append] at hsorted
  rw [heq, List.mem_append, List.mem_singleton] at hg
  exact hsorted.2.2 g (hg.resolve_right hne) f (List.mem_singleton_self f)

/-- **The pool evicts the page that has been without pins for the longest time.**  After any calls, let a
call need a frame.  It returns null exactly if every frame is pinned, or the page it should fetch cannot be
read; and if no frame is free and not all are pinned, one resident page leaves the pool, which is the one of
those without pins that lost its last pin first. -/
theorem eviction_longest_unpinned {pm : PageManager} (hpm : pm.Counted)
    {table : UnorderedMap PageId (Fin n)} (htable : ∀ p, table.find? p = none)
    {history : List (Call n × Answer n)} (hrun : Runs.Run exec (BufferPool.new pm table) history pool)
    {c : Call n} {a : Answer n} (hcall : exec pool c = .ok (a, pool')) (hneeds : NeedsFrame pool c) :
    (∀ p f, pool.pageTable.find? p = some f → (clockOf history).pins p = (pool.frames f).pinCount) ∧
    (a.IsNull ↔ (∀ f, 0 < (pool.frames f).pinCount) ∨ Unreadable pool c) ∧
    (pool.freeList = [] → (∃ f, (pool.frames f).pinCount = 0) →
      ∃ q f, pool.pageTable.find? q = some f ∧ (pool.frames f).pinCount = 0 ∧
        pool'.pageTable.find? q = none ∧ ∀ q' g, q' ≠ q → pool.pageTable.find? q' = some g →
          pool'.pageTable.find? q' = some g ∧ ((pool.frames g).pinCount = 0 →
            (clockOf history).dropped q < (clockOf history).dropped q')) := by
  obtain ⟨hinv, haged⟩ := aged_of_run hpm htable hrun
  obtain ⟨rfl, rfl⟩ := exec_eq_ok.mp hcall
  have hfull := findVictimFrame_eq_none_iff hinv
  refine ⟨fun p f hp => (haged.pins p).trans (pins_of_find hp), ?_, ?_⟩
  · rcases needsFrame_cases hinv hneeds with ⟨hnone, hnull⟩ | ⟨f, hf, hnull, -⟩
    · exact iff_of_true hnull (.inl (hfull.mp hnone))
    · rw [hnull, or_iff_right]
      intro hpinned
      rw [hfull.mpr hpinned] at hf
      cases hf
  · rintro hfree ⟨g₀, hzero⟩
    rcases needsFrame_cases hinv hneeds with ⟨hnone, -⟩ | ⟨f, hf, -, htable'⟩
    · have := hfull.mp hnone g₀
      omega
    · have hlast : pool.replacer.frames.getLast? = some f := by
        rw [findVictimFrame, hfree] at hf
        exact pool.replacer.victim_fst.symm.trans hf
      obtain ⟨hid, hpins, -⟩ := (hinv.lru_iff f).mp (List.mem_of_getLast? hlast)
      have hfind := (hinv.table_iff _ f).mpr ⟨rfl, hid⟩
      refine ⟨(pool.frames f).pageId, f, hfind, hpins, ?_, fun q g hq hg => ?_⟩
      · rw [htable' _ f hfind, if_pos rfl]
      · have hgf : g ≠ f := by
          rintro rfl
          exact hq (hinv.inj hg hfind)
        rw [htable' q g hg, if_neg hgf]
        refine ⟨rfl, fun hgpins => ?_⟩
        obtain ⟨rfl, hne⟩ := (hinv.table_iff q g).mp hg
        exact haged.dropped_last hlast ((hinv.lru_iff g).mpr ⟨hne, hgpins, nofun⟩) hgf

/-- A pool of two frames on a new file. -/
def twoPool : BufferPool 2 := .new (openFile 10 none) (noPages 2)

/-- Two pages are created, and the second one is unpinned first. -/
def unpinning : List (Call 2 × Answer 2) :=
  [(.newPage, .created (some (1, 1, Page.blank))), (.newPage, .created (some (2, 0, Page.blank))),
    (.unpinPage 2 true, .unpinned true), (.unpinPage 1 true, .unpinned true)]

theorem unpinning_evicts : ∃ pool pool', Runs.Run exec twoPool unpinning pool ∧
    exec pool .newPage = .ok (.created (some (3, 0, Page.blank)), pool') ∧
    ∃ q f, pool.pageTable.find? q = some f ∧ (pool.frames f).pinCount = 0 ∧
      pool'.pageTable.find? q = none ∧ ∀ q' g, q' ≠ q → pool.pageTable.find? q' = some g →
        pool'.pageTable.find? q' = some g ∧ ((pool.frames g).pinCount = 0 →
          (clockOf unpinning).dropped q < (clockOf unpinning).dropped q') := by
  have hrun : Runs.runAll exec twoPool (unpinning.map Prod.fst) = .ok (unpinning, _) := rfl
  refine ⟨_, _, Runs.run_of_runAll hrun, rfl, ?_⟩
  exact (eviction_longest_unpinned (counted_openFile 10) (fun _ => rfl) (Runs.run_of_runAll hrun)
    (c := .newPage) rfl ⟨3, rfl⟩).2.2 rfl ⟨0, rfl⟩

end MiniDB.BufferPool
