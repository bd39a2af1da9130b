import MiniDB.Buffer.BufferPool
import MiniDB.Lib.Run
import MiniDB.Lib.WriteBack
import MiniDB.Storage.Equiv.PageManager

/-!
# A buffer pool is a write-back cache

`Inv` says that frames, page table, free list and replacer of a pool agree with each other.  Every
operation of the pool keeps it and is a sequence of steps of a write-back cache, whose lines are the
resident pages and whose backing store is the file (`fetchPage_spec`, `newPage_spec`, …).  So a pool
shows its clients the contents they wrote, whatever it evicts in between.

Only the header page is left out: the page manager rewrites it on its own whenever the file grows,
so that the file, a frame with that page and what a client wrote to it are three different things.
-/

namespace MiniDB

open Paged WriteBack

open PageManager
open Function (update_of_ne update_self)

namespace LRUReplacer

variable {n : Nat} {r : LRUReplacer n} {f : Fin n}

/-- The frames in the order of their nodes. -/
def frames (r : LRUReplacer n) : List (Fin n) := r.lruList.map Prod.snd

theorem mem_frames : f ∈ r.frames ↔ ∃ node, r.position.find? f = some node := by
  simp only [frames, List.mem_map, Prod.exists, exists_eq_right, r.position_iff]

theorem nodup_frames (r : LRUReplacer n) : r.frames.Nodup := by
  refine r.nodes_nodup.of_map.map_on fun e he e' he' heq => Prod.ext ?_ heq
  rw [← Option.some_inj, ← (r.position_iff e.2 e.1).mpr he, ← (r.position_iff e'.2 e'.1).mpr he', heq]

theorem frames_unpin (h : f ∉ r.frames) : (r.unpin f).frames = f :: r.frames := by
  unfold unpin
  split
  · rename_i node hfind
    exact absurd (mem_frames.mpr ⟨node, hfind⟩) h
  · rfl

theorem frames_pin (r : LRUReplacer n) (f : Fin n) : (r.pin f).frames = r.frames.erase f := by
  unfold pin
  split
  · rename_i hfind
    refine (List.erase_of_not_mem fun hmem => ?_).symm
    simp [mem_frames, hfind] at hmem
  · rename_i it hfind
    rw [r.nodup_frames.erase_eq_filter, frames, frames, List.filter_map]
    congr 1
    refine List.filter_congr fun e he => ?_
    have hnode : e.1 = it ↔ e.2 = f := by
      have he' := (r.position_iff e.2 e.1).mpr he
      constructor
      · intro hit
        exact congrArg Prod.snd
          (List.inj_on_of_nodup_map r.nodes_nodup he ((r.position_iff f it).mp hfind) hit)
      · intro hf
        rw [hf, hfind] at he'
        exact (Option.some.inj he').symm
    by_cases hf : e.2 = f <;> simp [hnode, hf]

/-- The victim is the frame at the back. -/
theorem victim_fst (r : LRUReplacer n) : r.victim.1 = r.frames.getLast? := by
  unfold victim
  rw [frames, List.getLast?_map]
  split <;> simp [*]

theorem frames_victim (r : LRUReplacer n) : r.victim.2.frames = r.frames.dropLast := by
  unfold victim
  split
  · rename_i hlast
    rw [frames, List.getLast?_eq_none_iff.mp hlast]
    rfl
  · exact List.map_dropLast ..

theorem victim_empty (h : r.frames = []) : r.victim.2 = r := by
  unfold victim
  split
  · rfl
  · rename_i hlast
    rw [frames, List.map_eq_nil_iff] at h
    simp [h] at hlast

end LRUReplacer

namespace BufferPool

variable {n : Nat} {pool pool' : BufferPool n} {hand : Option (Fin n)} {p q : PageId}
  {f g : Fin n} {pm : PageManager} {frame : Frame} {r : LRUReplacer n}

/-! ### The pool as a cache -/

/-- A frame as a line of a cache. -/
def line (frame : Frame) : Line Page := ⟨frame.page, frame.pinCount, frame.isDirty⟩

/-- The resident pages, and the file behind them. -/
def cache (pool : BufferPool n) : Cache PageId Page where
  lines p := (pool.pageTable.find? p).map fun f => line (pool.frames f)
  backing := pool.pageManager.content

/-- Frames, page table, free list and replacer agree, except that the frame `hand` has been taken
from the free list or the replacer. -/
structure Inv (hand : Option (Fin n)) (pool : BufferPool n) : Prop where
  counted : pool.pageManager.Counted
  table_iff : ∀ p f, pool.pageTable.find? p = some f ↔
    (pool.frames f).pageId = p ∧ p ≠ kInvalidPageId
  inRange : ∀ p f, pool.pageTable.find? p = some f → pool.pageManager.InRange p
  free_nodup : pool.freeList.Nodup
  free_iff : ∀ f, f ∈ pool.freeList ↔ (pool.frames f).pageId = kInvalidPageId ∧ hand ≠ some f
  free_pins : ∀ f, (pool.frames f).pageId = kInvalidPageId → (pool.frames f).pinCount = 0
  lru_iff : ∀ f, f ∈ pool.replacer.frames ↔
    (pool.frames f).pageId ≠ kInvalidPageId ∧ (pool.frames f).pinCount = 0 ∧ hand ≠ some f

theorem Inv.inj (h : Inv hand pool) (hp : pool.pageTable.find? p = some f)
    (hq : pool.pageTable.find? q = some f) : p = q :=
  ((h.table_iff p f).mp hp).1.symm.trans ((h.table_iff q f).mp hq).1

theorem Inv.pageId_ne (h : Inv hand pool) (hp : pool.pageTable.find? p = some f) :
    (pool.frames f).pageId ≠ kInvalidPageId := by
  obtain ⟨hid, hne⟩ := (h.table_iff p f).mp hp
  rwa [hid]

theorem lines_of_find (hp : pool.pageTable.find? p = some f) :
    pool.cache.lines p = some (line (pool.frames f)) := by
  show (pool.pageTable.find? p).map _ = _
  rw [hp]
  rfl

theorem lines_of_absent (hp : pool.pageTable.find? p = none) : pool.cache.lines p = none := by
  show (pool.pageTable.find? p).map _ = _
  rw [hp]
  rfl

theorem pins_of_find (hp : pool.pageTable.find? p = some f) :
    pool.cache.pins p = (pool.frames f).pinCount := Cache.pins_of_line (lines_of_find hp)

theorem pins_of_absent (hp : pool.pageTable.find? p = none) : pool.cache.pins p = 0 :=
  Cache.pins_of_none (lines_of_absent hp)

/-- A new pool is empty. -/
theorem Inv.new (hpm : pm.Counted) {table : UnorderedMap PageId (Fin n)}
    (htable : ∀ p, table.find? p = none) : Inv none (BufferPool.new pm table) where
  counted := hpm
  table_iff := by
    intro p f
    show table.find? p = some f ↔ kInvalidPageId = p ∧ p ≠ kInvalidPageId
    rw [htable p]
    refine iff_of_false (fun h => by cases h) fun h => h.2 h.1.symm
  inRange := by
    intro p f hp
    rw [show (BufferPool.new pm table).pageTable.find? p = none from htable p] at hp
    cases hp
  free_nodup := List.nodup_finRange n
  free_iff := fun f => iff_of_true (List.mem_finRange f) ⟨rfl, fun h => by cases h⟩
  free_pins := fun _ _ => rfl
  lru_iff := fun f => iff_of_false List.not_mem_nil fun h => h.1 rfl

/-! ### Changing a frame in place -/

/-- One frame has changed, and its place in the page table, the free list and the replacer with it. -/
theorem Inv.change {hand' : Option (Fin n)} (h : Inv hand pool) (f : Fin n)
    (hcounted : pool'.pageManager.Counted) (hnodup : pool'.freeList.Nodup)
    (hrange : ∀ p g, pool'.pageTable.find? p = some g → pool'.pageManager.InRange p)
    (hother : ∀ g ≠ f, pool'.frames g = pool.frames g ∧
      (∀ p, pool'.pageTable.find? p = some g ↔ pool.pageTable.find? p = some g) ∧
      (g ∈ pool'.freeList ↔ g ∈ pool.freeList) ∧
      (g ∈ pool'.replacer.frames ↔ g ∈ pool.replacer.frames) ∧ (hand' = some g ↔ hand = some g))
    (htable : ∀ p, pool'.pageTable.find? p = some f ↔
      (pool'.frames f).pageId = p ∧ p ≠ kInvalidPageId)
    (hfree : f ∈ pool'.freeList ↔ (pool'.frames f).pageId = kInvalidPageId ∧ hand' ≠ some f)
    (hpins : (pool'.frames f).pageId = kInvalidPageId → (pool'.frames f).pinCount = 0)
    (hlru : f ∈ pool'.replacer.frames ↔ (pool'.frames f).pageId ≠ kInvalidPageId ∧
      (pool'.frames f).pinCount = 0 ∧ hand' ≠ some f) : Inv hand' pool' := by
  refine ⟨hcounted, fun p g => ?_, hrange, hnodup, fun g => ?_, fun g => ?_, fun g => ?_⟩
  all_goals obtain rfl | hg := eq_or_ne g f
  · exact htable p
  · rw [(hother g hg).2.1, (hother g hg).1, h.table_iff]
  · exact hfree
  · obtain ⟨hframe, -, hmem, -, hhand⟩ := hother g hg
    rw [hframe, hmem, ne_eq, hhand, h.free_iff]
  · exact hpins
  · rw [(hother g hg).1]
    exact h.free_pins g
  · exact hlru
  · obtain ⟨hframe, -, -, hmem, hhand⟩ := hother g hg
    rw [hframe, hmem, ne_eq hand', hhand, h.lru_iff]

/-- A frame that keeps its page, with a replacer that knows whether it is pinned. -/
theorem Inv.update (h : Inv hand pool) (hid : frame.pageId = (pool.frames f).pageId)
    (hfree : frame.pageId = kInvalidPageId → frame.pinCount = 0)
    (hother : ∀ g ≠ f, (g ∈ r.frames ↔ g ∈ pool.replacer.frames)) (hself : f ∈ r.frames ↔
      frame.pageId ≠ kInvalidPageId ∧ frame.pinCount = 0 ∧ hand ≠ some f) :
    Inv hand { pool.setFrame f frame with replacer := r } := by
  have hframe : (pool.setFrame f frame).frames f = frame := update_self ..
  refine h.change f h.counted h.free_nodup h.inRange (fun g hg =>
    ⟨update_of_ne hg .., fun _ => Iff.rfl, Iff.rfl, hother g hg, Iff.rfl⟩) (fun p => ?_) ?_ ?_ ?_
  all_goals dsimp only
  all_goals rw [hframe]
  · rw [hid]
    exact h.table_iff p f
  · rw [hid]
    exact h.free_iff f
  · exact hfree
  · exact hself

/-- A frame that keeps its page and its pins. -/
theorem Inv.setFrame (h : Inv hand pool) (hid : frame.pageId = (pool.frames f).pageId)
    (hpins : frame.pinCount = (pool.frames f).pinCount) : Inv hand (pool.setFrame f frame) := by
  refine h.update (r := pool.replacer) hid ?_ (fun _ _ => Iff.rfl) ?_
  · rw [hid, hpins]
    exact h.free_pins f
  · rw [h.lru_iff, hid, hpins]

theorem Inv.cache_setFrame (h : Inv hand pool) (hp : pool.pageTable.find? p = some f) :
    { pool.setFrame f frame with replacer := r }.cache
      = pool.cache.setLine p (some (line frame)) := by
  have hlines : ∀ q, (pool.pageTable.find? q).map
      (fun g => line (Function.update pool.frames f frame g))
        = Function.update pool.cache.lines p (some (line frame)) q := by
    intro q
    by_cases hq : q = p
    · subst hq
      rw [hp, update_self, Option.map_some, update_self]
    · rw [update_of_ne hq]
      show _ = (pool.pageTable.find? q).map _
      refine Option.map_congr fun g hg => ?_
      rw [update_of_ne]
      rintro rfl
      exact hq (h.inj hg hp)
  show Cache.mk _ _ = Cache.mk _ _
  rw [Cache.mk.injEq]
  exact ⟨funext hlines, rfl⟩

/-- A page manager with the same pages, or more of them. -/
theorem Inv.setPageManager (h : Inv hand pool) (hpm : pm.Counted)
    (hcount : pool.pageManager.pageCount ≤ pm.pageCount) : Inv hand { pool with pageManager := pm } :=
  ⟨hpm, h.table_iff, fun p f hp => ⟨(h.inRange p f hp).1, by
    have := (h.inRange p f hp).2
    show p.toInt < pm.pageCount
    omega⟩, h.free_nodup, h.free_iff, h.free_pins, h.lru_iff⟩

/-! ### Finding a frame -/

/-- What taking a frame leaves as it was: the other frames, and the pages in them. -/
structure Keeps (f : Fin n) (pool pool' : BufferPool n) : Prop where
  frames : ∀ g ≠ f, pool'.frames g = pool.frames g
  table : ∀ p g, g ≠ f → (pool'.pageTable.find? p = some g ↔ pool.pageTable.find? p = some g)

/-- Pinned pages stay where they are. -/
def Stays (pool pool' : BufferPool n) : Prop :=
  ∀ p f, pool.pageTable.find? p = some f → 0 < (pool.frames f).pinCount →
    pool'.pageTable.find? p = some f

/-- The frames other than the one in hand keep their pages; the one in hand was not pinned. -/
theorem Keeps.stays (hkeeps : Keeps f pool pool')
    (hpins : ∀ p, pool.pageTable.find? p = some f → (pool.frames f).pinCount = 0) :
    Stays pool pool' := by
  intro p g hp hpos
  by_cases hg : g = f
  · subst hg
    rw [hpins p hp] at hpos
    cases hpos
  · exact (hkeeps.table p g hg).mpr hp

/-- Every frame holds a pinned page. -/
def Full (pool : BufferPool n) : Prop :=
  ∀ f, 0 < (pool.frames f).pinCount ∧ pool.pageTable.find? (pool.frames f).pageId = some f

/-- Without a frame to take, all frames are pinned. -/
theorem findVictimFrame_none (h : Inv none pool) (hnone : pool.findVictimFrame.1 = none) :
    pool.findVictimFrame.2 = pool ∧ pool.Full := by
  unfold findVictimFrame at hnone ⊢
  cases hfree : pool.freeList.getLast? with
  | some f =>
    rw [hfree] at hnone
    cases hnone
  | none =>
    rw [hfree] at hnone
    rw [List.getLast?_eq_none_iff] at hfree
    have hlru : pool.replacer.frames = [] :=
      List.getLast?_eq_none_iff.mp (pool.replacer.victim_fst.symm.trans hnone)
    refine ⟨?_, fun f => ?_⟩
    · show { pool with replacer := pool.replacer.victim.2 } = pool
      rw [LRUReplacer.victim_empty hlru]
    · have hresident : (pool.frames f).pageId ≠ kInvalidPageId := by
        intro hid
        have := (h.free_iff f).mpr ⟨hid, fun hf => by cases hf⟩
        rw [hfree] at this
        cases this
      refine ⟨Nat.pos_of_ne_zero fun hzero => ?_, (h.table_iff _ f).mpr ⟨rfl, hresident⟩⟩
      have := (h.lru_iff f).mpr ⟨hresident, hzero, fun hf => by cases hf⟩
      rw [hlru] at this
      cases this

theorem mem_dropLast_iff {α : Type} {l : List α} {a b : α} (hnodup : l.Nodup)
    (hlast : l.getLast? = some a) : b ∈ l.dropLast ↔ b ∈ l ∧ b ≠ a := by
  obtain ⟨init, rfl⟩ := List.getLast?_eq_some_iff.mp hlast
  rw [List.dropLast_concat, List.mem_append, List.mem_singleton]
  rw [List.nodup_append] at hnodup
  constructor
  · intro hb
    exact ⟨.inl hb, fun hba => hnodup.2.2 b hb a (List.mem_singleton_self a) hba⟩
  · rintro ⟨hb | hb, hne⟩
    · exact hb
    · exact absurd hb hne

/-- The frame that is found is free or not pinned. -/
theorem findVictimFrame_some (h : Inv none pool) (hsome : pool.findVictimFrame.1 = some f) :
    ∃ free r, pool.findVictimFrame.2 = { pool with freeList := free, replacer := r } ∧
      Inv (some f) { pool with freeList := free, replacer := r } ∧
      r.frames.Sublist pool.replacer.frames ∧ (pool.frames f).pinCount = 0 := by
  unfold findVictimFrame at hsome ⊢
  cases hfree : pool.freeList.getLast? with
  | some f' =>
    rw [hfree] at hsome
    obtain rfl : f' = f := Option.some.inj hsome
    have hid := ((h.free_iff f').mp (List.mem_of_getLast? hfree)).1
    refine ⟨pool.freeList.dropLast, pool.replacer, rfl, ⟨h.counted, h.table_iff, h.inRange,
      h.free_nodup.sublist (List.dropLast_sublist _), fun g => ?_, h.free_pins, fun g => ?_⟩,
      .refl _, h.free_pins f' hid⟩
    · show g ∈ pool.freeList.dropLast ↔ _
      rw [mem_dropLast_iff h.free_nodup hfree, h.free_iff]
      simp [eq_comm]
    · show g ∈ pool.replacer.frames ↔ _
      rw [h.lru_iff]
      refine and_congr_right fun hg => and_congr_right fun _ => iff_of_true ?_ ?_
      · exact fun hf => by cases hf
      · intro hfg
        obtain rfl := Option.some.inj hfg
        exact hg hid
  | none =>
    rw [hfree] at hsome
    have hlast : pool.replacer.frames.getLast? = some f := pool.replacer.victim_fst.symm.trans hsome
    have hframes := pool.replacer.frames_victim
    have hmem := (h.lru_iff f).mp (List.mem_of_getLast? hlast)
    refine ⟨pool.freeList, pool.replacer.victim.2, rfl, ⟨h.counted, h.table_iff, h.inRange,
      h.free_nodup, fun g => ?_, h.free_pins, fun g => ?_⟩, ?_, hmem.2.1⟩
    · show g ∈ pool.freeList ↔ _
      rw [h.free_iff]
      refine and_congr_right fun hg => iff_of_true (fun hf => by cases hf) ?_
      intro hfg
      obtain rfl := Option.some.inj hfg
      exact hmem.1 hg
    · show g ∈ pool.replacer.victim.2.frames ↔ _
      rw [hframes, mem_dropLast_iff pool.replacer.nodup_frames hlast, h.lru_iff]
      simp [eq_comm, and_assoc]
    · rw [hframes]
      exact List.dropLast_sublist _

/-! ### Emptying a frame -/

variable {table : UnorderedMap PageId (Fin n)}

/-- The frame in hand is emptied after its page has left the table. -/
theorem Inv.clear (h : Inv (some f) pool)
    (htable : ∀ q g, table.find? q = some g ↔ pool.pageTable.find? q = some g ∧ g ≠ f) :
    Inv (some f) ({ pool with pageTable := table }.setFrame f {}) := by
  have hframe : ({ pool with pageTable := table }.setFrame f {}).frames f = {} := update_self ..
  have hlru : f ∉ pool.replacer.frames := fun hf => ((h.lru_iff f).mp hf).2.2 rfl
  have hfree : f ∉ pool.freeList := fun hf => ((h.free_iff f).mp hf).2 rfl
  refine h.change f h.counted h.free_nodup (fun q g hq => h.inRange q g ((htable q g).mp hq).1)
    (fun g hg => ⟨update_of_ne hg .., fun q => (htable q g).trans (and_iff_left hg), Iff.rfl, Iff.rfl,
      Iff.rfl⟩) (fun q => ?_) ?_ ?_ ?_
  all_goals rw [hframe]
  · exact iff_of_false (fun hq => ((htable q f).mp hq).2 rfl) fun hc => hc.2 hc.1.symm
  · exact iff_of_false hfree fun hc => hc.2 rfl
  · exact fun _ => rfl
  · exact iff_of_false hlru fun hc => hc.1 rfl

/-- The lines after the page of the frame in hand has left the table. -/
theorem cache_clear (htable : ∀ q g, table.find? q = some g ↔ pool.pageTable.find? q = some g ∧ g ≠ f) :
    ({ pool with pageTable := table }.setFrame f {}).cache.lines
      = fun q => if pool.pageTable.find? q = some f then none else pool.cache.lines q := by
  funext q
  show (table.find? q).map (fun g => line (Function.update pool.frames f {} g)) = _
  cases hq : table.find? q with
  | some g =>
    obtain ⟨hold, hne⟩ := (htable q g).mp hq
    rw [if_neg (fun hf => hne (Option.some.inj (hold.symm.trans hf))), lines_of_find hold,
      Option.map_some, update_of_ne hne]
  | none =>
    split_ifs with hf
    · rfl
    · refine (lines_of_absent ?_).symm
      refine Option.eq_none_iff_forall_ne_some.mpr fun g hg => ?_
      have := (htable q g).mpr ⟨hg, by rintro rfl; exact hf hg⟩
      rw [hq] at this
      cases this

/-- The page table without the page of the frame in hand. -/
theorem Inv.find?_erase (h : Inv hand pool) (hp : pool.pageTable.find? p = some f) (q : PageId)
    (g : Fin n) : (pool.pageTable.erase p).find? q = some g ↔
      pool.pageTable.find? q = some g ∧ g ≠ f := by
  rw [UnorderedMap.find?_erase]
  by_cases hq : q = p
  · subst hq
    rw [if_pos rfl, hp]
    refine iff_of_false (fun hc => by cases hc) ?_
    rintro ⟨hc, hne⟩
    exact hne (Option.some.inj hc).symm
  · rw [if_neg hq]
    refine (and_iff_left_of_imp ?_).symm
    rintro hg rfl
    exact hq (h.inj hg hp)

/-- `pool'` is `pool` after the frame in hand was emptied. -/
structure Emptied (f : Fin n) (pool pool' : BufferPool n) : Prop where
  inv : Inv (some f) pool'
  keeps : Keeps f pool pool'
  stays : Stays pool pool'
  empty : (pool'.frames f).pageId = kInvalidPageId
  unpinned : (pool.frames f).pinCount = 0
  lru : pool'.replacer.frames.Sublist pool.replacer.frames
  pageCount : pool'.pageManager.pageCount = pool.pageManager.pageCount
  nextPageId : pool'.pageManager.nextPageId = pool.pageManager.nextPageId
  good : pool'.pageManager.good = pool.pageManager.good
  content : ∀ q, pool.pageTable.find? q = none →
    pool'.pageManager.content q = pool.pageManager.content q
  steps : pool.pageManager.good = true → ∀ s, Steps dataPages (pool.cache, s) (pool'.cache, s)

theorem Inv.keeps_clear
    (htable : ∀ q g, table.find? q = some g ↔ pool.pageTable.find? q = some g ∧ g ≠ f)
    (pm : PageManager) :
    Keeps f pool ({ pool with pageManager := pm, pageTable := table }.setFrame f {}) where
  frames := fun _ hg => update_of_ne hg ..
  table := fun q g hg => (htable q g).trans (and_iff_left hg)

/-- The cache without the page of the frame in hand. -/
theorem Inv.cache_clear_page (h : Inv hand pool) (hp : pool.pageTable.find? p = some f)
    (pm : PageManager) :
    ({ pool with pageManager := pm, pageTable := pool.pageTable.erase p }.setFrame f {}).cache
      = { pool.cache with backing := pm.content }.setLine p none := by
  refine Cache.ext ?_ rfl
  have hclear := @cache_clear n { pool with pageManager := pm } f _ (h.find?_erase hp)
  refine hclear.trans ?_
  funext q
  show (if pool.pageTable.find? q = some f then none else pool.cache.lines q)
    = Function.update pool.cache.lines p none q
  by_cases hq : q = p
  · subst hq
    rw [if_pos hp, update_self]
  · rw [if_neg (fun hf => hq (h.inj hf hp)), update_of_ne hq]

/-- A page that is not pinned leaves the pool; the file then has what was in its frame. -/
theorem evict_spec (h : Inv (some f) pool) (hpins : (pool.frames f).pinCount = 0) :
    Emptied f pool (pool.evict f) := by
  have hself : ∀ pool' : BufferPool n, ((pool'.setFrame f {}).frames f).pageId = kInvalidPageId := by
    intro pool'
    show (Function.update pool'.frames f {} f).pageId = kInvalidPageId
    rw [update_self]
  have hstays : ∀ {pool'}, Keeps f pool pool' → Stays pool pool' :=
    fun hkeeps => hkeeps.stays fun _ _ => hpins
  unfold evict
  dsimp only
  by_cases hid : (pool.frames f).pageId ≠ kInvalidPageId
  · rw [if_pos hid]
    -- the frame holds a page without pins
    generalize hp : (pool.frames f).pageId = p at hid ⊢
    have hfind : pool.pageTable.find? p = some f := (h.table_iff p f).mpr ⟨hp, hid⟩
    have hline := lines_of_find hfind
    have herase := h.find?_erase hfind
    by_cases hdirty : (pool.frames f).isDirty = true
    · rw [if_pos hdirty]
      generalize hpm : (pool.pageManager.writePage p (pool.frames f).page).2 = pm
      have h' : Inv (some f) { pool with pageManager := pm } := by
        refine h.setPageManager ?_ ?_
        · rw [← hpm]
          exact h.counted.writePage p _
        · rw [← hpm, pageCount_writePage]
      have hkeeps := Inv.keeps_clear herase pm
      refine ⟨h'.clear herase, hkeeps, hstays hkeeps, hself _, hpins, .refl _, ?_, ?_, ?_,
        fun q hq => ?_, fun hgood s => ?_⟩
      · show pm.pageCount = _
        rw [← hpm, pageCount_writePage]
      · show pm.nextPageId = _
        rw [← hpm, nextPageId_writePage]
      · show pm.good = _
        rw [← hpm, good_writePage]
      · show pm.content q = _
        rw [← hpm, content_writePage_of_ne]
        rintro rfl
        rw [hfind] at hq
        cases hq
      · rw [h.cache_clear_page hfind pm, ← hpm, content_writePage (h.inRange p f hfind) hgood]
        exact Steps.writeBack hline hpins
    · rw [if_neg hdirty]
      have hkeeps := Inv.keeps_clear herase pool.pageManager
      refine ⟨h.clear herase, hkeeps, hstays hkeeps, hself _, hpins, .refl _, rfl, rfl, rfl,
        fun _ _ => rfl, fun _ s => ?_⟩
      rw [h.cache_clear_page hfind pool.pageManager]
      exact .single (.drop hline hpins (Bool.not_eq_true _ ▸ hdirty))
  · rw [if_neg hid]
    -- a free frame is in no entry of the table
    have htable : ∀ q g, pool.pageTable.find? q = some g ↔ pool.pageTable.find? q = some g ∧ g ≠ f := by
      intro q g
      refine (and_iff_left_of_imp ?_).symm
      rintro hg rfl
      exact hid (h.pageId_ne hg)
    have hkeeps := Inv.keeps_clear htable pool.pageManager
    refine ⟨h.clear htable, hkeeps, hstays hkeeps, hself _, hpins, .refl _, rfl, rfl, rfl,
      fun _ _ => rfl, fun _ s => ?_⟩
    have hsame : (pool.setFrame f {}).cache = pool.cache := by
      refine Cache.ext ((cache_clear htable).trans ?_) rfl
      funext q
      exact if_neg fun hf => hid (h.pageId_ne hf)
    rw [hsame]

/-- A frame that was found and emptied. -/
theorem Inv.take (h : Inv none pool) (hsome : pool.findVictimFrame.1 = some f) :
    Emptied f pool (pool.findVictimFrame.2.evict f) := by
  obtain ⟨free, r, heq, hinv, hsub, hpins⟩ := findVictimFrame_some h hsome
  rw [heq]
  have he := evict_spec hinv hpins
  exact ⟨he.inv, ⟨he.keeps.frames, he.keeps.table⟩, he.stays, he.empty, hpins, he.lru.trans hsub,
    he.pageCount, he.nextPageId, he.good, he.content, he.steps⟩

/-- The pages in the other frames are resident as before. -/
theorem Emptied.find?_iff (he : Emptied f pool pool') (q : PageId) (g : Fin n) :
    pool'.pageTable.find? q = some g ↔ pool.pageTable.find? q = some g ∧ g ≠ f := by
  by_cases hg : g = f
  · subst hg
    exact iff_of_false (fun hq => he.inv.pageId_ne hq he.empty) fun hc => hc.2 rfl
  · rw [he.keeps.table q g hg]
    exact (and_iff_left hg).symm

theorem Emptied.find?_of_find (he : Emptied f pool pool') (hq : pool.pageTable.find? q = some g) :
    pool'.pageTable.find? q = if g = f then none else some g := by
  split_ifs with hg
  · refine Option.eq_none_iff_forall_ne_some.mpr fun g' hg' => ?_
    obtain ⟨hold, hne⟩ := (he.find?_iff q g').mp hg'
    exact hne ((Option.some.inj (hold.symm.trans hq)).trans hg)
  · exact (he.find?_iff q g).mpr ⟨hq, hg⟩

theorem Emptied.absent (he : Emptied f pool pool') (hp : pool.pageTable.find? p = none) :
    pool'.pageTable.find? p = none := by
  refine Option.eq_none_iff_forall_ne_some.mpr fun g hg => ?_
  rw [he.find?_iff, hp] at hg
  cases hg.1

/-- The frame in hand goes to the free list. -/
theorem Inv.giveBack (h : Inv (some f) pool) (hempty : (pool.frames f).pageId = kInvalidPageId) :
    Inv none { pool with freeList := pool.freeList ++ [f] } := by
  have hnot : f ∉ pool.freeList := fun hf => ((h.free_iff f).mp hf).2 rfl
  have hlru : f ∉ pool.replacer.frames := fun hf => ((h.lru_iff f).mp hf).2.2 rfl
  refine h.change f h.counted ?_ h.inRange (fun g hg => ⟨rfl, fun _ => Iff.rfl, ?_, Iff.rfl, ?_⟩)
    (h.table_iff · f) ?_ (h.free_pins f) (iff_of_false hlru fun hc => hc.1 hempty)
  · exact List.nodup_append_comm.mp (List.nodup_cons.mpr ⟨hnot, h.free_nodup⟩)
  · simp [hg]
  · simp [Ne.symm hg]
  · simp [hempty]

theorem frames_install (pool : BufferPool n) (f : Fin n) (p : PageId) (page : Page) (dirty : Bool) :
    (pool.install f p page dirty).frames f = ⟨page, p, 1, dirty⟩ := update_self ..

/-- The frame in hand gets a page of the file that is not resident. -/
theorem Inv.install (h : Inv (some f) pool) (hempty : (pool.frames f).pageId = kInvalidPageId)
    (hin : pool.pageManager.InRange p) (hp : pool.pageTable.find? p = none) (page : Page)
    (dirty : Bool) : Inv none (pool.install f p page dirty) := by
  have hne : p ≠ kInvalidPageId := by
    rintro rfl
    exact absurd hin.1 (by decide)
  have hfind : ∀ q g, (pool.pageTable.insert p f).find? q = some g ↔
      q = p ∧ f = g ∨ pool.pageTable.find? q = some g := by
    intro q g
    rw [UnorderedMap.find?_insert]
    split_ifs with hq
    · rw [hq, hp]
      simp
    · simp [hq]
  have hnot : ∀ q, pool.pageTable.find? q ≠ some f := fun q hq => h.pageId_ne hq hempty
  have hfree : f ∉ pool.freeList := fun hf => ((h.free_iff f).mp hf).2 rfl
  have hlru : f ∉ pool.replacer.frames := fun hf => ((h.lru_iff f).mp hf).2.2 rfl
  refine h.change f h.counted h.free_nodup (fun q g hq => ?_) (fun g hg => ⟨update_of_ne hg .., fun q =>
    (hfind q g).trans (or_iff_right fun hc => hg hc.2.symm), Iff.rfl, Iff.rfl, ?_⟩) (fun q => ?_) ?_ ?_ ?_
  · rcases (hfind q g).mp hq with ⟨rfl, -⟩ | hq
    · exact hin
    · exact h.inRange q g hq
  · simp [Ne.symm hg]
  all_goals rw [frames_install]
  · refine (hfind q f).trans ⟨?_, fun hc => .inl ⟨hc.1.symm, rfl⟩⟩
    rintro (⟨rfl, -⟩ | hq)
    · exact ⟨rfl, hne⟩
    · exact absurd hq (hnot q)
  · exact iff_of_false hfree fun hc => hne hc.1
  · exact fun hc => absurd hc hne
  · exact iff_of_false hlru fun hc => Nat.one_ne_zero hc.2.1

theorem Inv.cache_install (h : Inv (some f) pool)
    (hempty : (pool.frames f).pageId = kInvalidPageId) (page : Page) (dirty : Bool) :
    (pool.install f p page dirty).cache = pool.cache.setLine p (some ⟨page, 1, dirty⟩) := by
  refine Cache.ext (funext fun q => ?_) rfl
  show ((pool.pageTable.insert p f).find? q).map
      (fun g => line (Function.update pool.frames f ⟨page, p, 1, dirty⟩ g))
    = Function.update pool.cache.lines p _ q
  rw [UnorderedMap.find?_insert]
  by_cases hq : q = p
  · rw [if_pos hq, hq, update_self, Option.map_some, update_self]
    rfl
  · rw [if_neg hq, update_of_ne hq]
    refine Option.map_congr fun g hg => ?_
    rw [update_of_ne]
    rintro rfl
    exact h.pageId_ne hg hempty

/-! ### The operations -/

/-- An operation as its clients see it: it keeps the pool in order and leaves pinned pages in their
frames, and what it does are steps of a cache. -/
structure Served (pool : BufferPool n) (s : Clients PageId Page) (pool' : BufferPool n)
    (s' : Clients PageId Page) : Prop where
  inv : Inv none pool'
  stays : Stays pool pool'
  steps : pool.pageManager.good = true → Steps dataPages (pool.cache, s) (pool'.cache, s')

variable {s : Clients PageId Page}

/-- `FetchPage` on a resident page. -/
theorem fetchPage_hit (h : Inv none pool) (hp : pool.pageTable.find? p = some f) :
    ∃ frame r, pool.fetchPage p = (some f, { pool.setFrame f frame with replacer := r }) ∧
      frame = { pool.frames f with pinCount := (pool.frames f).pinCount + 1 } ∧
      r.frames.Sublist pool.replacer.frames ∧
      Served pool s { pool.setFrame f frame with replacer := r } (s.pin p) := by
  have hsteps : ∀ r, Steps dataPages (pool.cache, s)
      ({ pool.setFrame f { pool.frames f with pinCount := (pool.frames f).pinCount + 1 } with
        replacer := r }.cache, s.pin p) := by
    intro r
    rw [h.cache_setFrame hp]
    exact .single (.pin (lines_of_find hp))
  have hstays : ∀ frame r, Stays pool { pool.setFrame f frame with replacer := r } :=
    fun _ _ _ _ hq _ => hq
  unfold fetchPage
  rw [hp]
  dsimp only
  by_cases hzero : (pool.frames f).pinCount = 0
  · -- the frame leaves the replacer
    rw [if_pos hzero]
    have hframes := pool.replacer.frames_pin f
    refine ⟨_, pool.replacer.pin f, rfl, rfl, hframes ▸ List.erase_sublist,
      h.update rfl (fun hid => absurd hid (h.pageId_ne hp)) ?_ ?_, hstays _ _, fun _ => hsteps _⟩
    · intro g hg
      rw [hframes, List.mem_erase_of_ne hg]
    · rw [hframes, pool.replacer.nodup_frames.mem_erase_iff]
      exact iff_of_false (fun hmem => hmem.1 rfl) fun hc => absurd hc.2.1 (Nat.succ_ne_zero _)
  · rw [if_neg hzero]
    refine ⟨_, pool.replacer, rfl, rfl, .refl _, h.update rfl (fun hid => absurd hid (h.pageId_ne hp))
      (fun _ _ => Iff.rfl) ?_, hstays _ _, fun _ => hsteps _⟩
    rw [h.lru_iff]
    exact iff_of_false (fun hc => hzero hc.2.1) fun hc => absurd hc.2.1 (Nat.succ_ne_zero _)

/-- The page goes into the frame that was emptied for it. -/
theorem Emptied.install (he : Emptied f pool pool') (hp : pool.pageTable.find? p = none)
    (hin : pool.pageManager.InRange p) (dirty : Bool) :
    (pool'.install f p (pool'.pageManager.content p) dirty).pageTable.find? p = some f ∧
      Served pool s (pool'.install f p (pool'.pageManager.content p) dirty) (s.pin p) := by
  have hin' : pool'.pageManager.InRange p := by
    rw [PageManager.InRange, he.pageCount]
    exact hin
  have habsent := he.absent hp
  refine ⟨?_, he.inv.install he.empty hin' habsent _ _, ?_, ?_⟩
  · show (pool'.pageTable.insert p f).find? p = some f
    rw [UnorderedMap.find?_insert, if_pos rfl]
  · intro q g hq hpos
    show (pool'.pageTable.insert p f).find? q = some g
    rw [UnorderedMap.find?_insert, if_neg, he.stays q g hq hpos]
    rintro rfl
    rw [hp] at hq
    cases hq
  · intro hgood
    rw [he.inv.cache_install he.empty]
    exact (he.steps hgood s).tail (.load dirty (lines_of_absent habsent))

/-- `FetchPage` on a page that is not resident, when all frames are pinned. -/
theorem fetchPage_of_full (h : Inv none pool) (hp : pool.pageTable.find? p = none)
    (hf : pool.findVictimFrame.1 = none) : pool.fetchPage p = (none, pool) := by
  obtain ⟨heq, -⟩ := findVictimFrame_none h hf
  unfold fetchPage
  rw [hp]
  dsimp only
  rw [show pool.findVictimFrame = (none, pool) from Prod.ext hf heq]

/-- `FetchPage` on a page that is not resident. -/
theorem fetchPage_miss (h : Inv none pool) (hp : pool.pageTable.find? p = none)
    (hf : pool.findVictimFrame.1 = some f) :
    pool.fetchPage p
      = if pool.pageManager.InRange p ∧ pool.pageManager.good = true then
          (some f, (pool.findVictimFrame.2.evict f).install f p
            ((pool.findVictimFrame.2.evict f).pageManager.content p) false)
        else
          (none, { pool.findVictimFrame.2.evict f with
            freeList := (pool.findVictimFrame.2.evict f).freeList ++ [f] }) := by
  have he := h.take hf
  have hread : (pool.findVictimFrame.2.evict f).pageManager.InRange p ∧
      (pool.findVictimFrame.2.evict f).pageManager.good = true ↔
        pool.pageManager.InRange p ∧ pool.pageManager.good = true := by
    rw [PageManager.InRange, PageManager.InRange, he.pageCount, he.good]
  unfold fetchPage
  rw [hp]
  dsimp only
  rw [show pool.findVictimFrame = (some f, pool.findVictimFrame.2) from Prod.ext hf rfl]
  dsimp only
  rcases readPage_eq p (pool.findVictimFrame.2.evict f).pageManager with
    ⟨⟨e, herror⟩, hnot⟩ | ⟨hok, hyes⟩
  · rw [herror, if_neg (mt hread.mpr hnot)]
  · rw [hok, if_pos (hread.mp hyes)]

/-- `FetchPage` either pins the page in its frame, or finds no page or no frame. -/
theorem fetchPage_spec (h : Inv none pool) (p : PageId) :
    (pool.fetchPage p).2.pageManager.pageCount = pool.pageManager.pageCount ∧
    (pool.fetchPage p).2.pageManager.nextPageId = pool.pageManager.nextPageId ∧
    (pool.fetchPage p).2.pageManager.good = pool.pageManager.good ∧
    ((∃ f, (pool.fetchPage p).1 = some f ∧ (pool.fetchPage p).2.pageTable.find? p = some f ∧
        Served pool s (pool.fetchPage p).2 (s.pin p)) ∨
      (pool.fetchPage p).1 = none ∧ Served pool s (pool.fetchPage p).2 s ∧
        (¬ (pool.pageManager.InRange p ∧ pool.pageManager.good = true) ∨ pool.Full)) := by
  cases hp : pool.pageTable.find? p with
  | some f =>
    obtain ⟨frame, r, heq, -, -, hserved⟩ := fetchPage_hit (s := s) h hp
    rw [heq]
    exact ⟨rfl, rfl, rfl, .inl ⟨f, rfl, hp, hserved⟩⟩
  | none =>
    cases hf : pool.findVictimFrame.1 with
    | none =>
      obtain ⟨-, hfull⟩ := findVictimFrame_none h hf
      rw [fetchPage_of_full h hp hf]
      exact ⟨rfl, rfl, rfl, .inr ⟨rfl, ⟨h, fun _ _ hq _ => hq, fun _ => .refl⟩, .inr hfull⟩⟩
    | some f =>
      have he := h.take hf
      rw [fetchPage_miss h hp hf]
      by_cases hread : pool.pageManager.InRange p ∧ pool.pageManager.good = true
      · rw [if_pos hread]
        obtain ⟨hfind, hserved⟩ := he.install (s := s) hp hread.1 false
        exact ⟨he.pageCount, he.nextPageId, he.good, .inl ⟨f, rfl, hfind, hserved⟩⟩
      · rw [if_neg hread]
        exact ⟨he.pageCount, he.nextPageId, he.good, .inr ⟨rfl,
          ⟨he.inv.giveBack he.empty, he.stays, fun hgood => he.steps hgood s⟩, .inl hread⟩⟩

/-- `NewPage` when the file cannot be extended. -/
theorem newPage_of_error {e : Status} (halloc : pool.pageManager.allocatePage.1 = .error e) :
    pool.newPage = (none, { pool with pageManager := pool.pageManager.allocatePage.2 }) := by
  unfold newPage
  rw [show pool.pageManager.allocatePage = (.error e, pool.pageManager.allocatePage.2) from
    Prod.ext halloc rfl]

/-- `NewPage` when all frames are pinned. -/
theorem newPage_of_full (halloc : pool.pageManager.allocatePage.1 = .ok p)
    (hf : (findVictimFrame { pool with pageManager := pool.pageManager.allocatePage.2 }).1 = none) :
    pool.newPage
      = (none, (findVictimFrame { pool with pageManager := pool.pageManager.allocatePage.2 }).2) := by
  unfold newPage
  rw [show pool.pageManager.allocatePage = (.ok p, pool.pageManager.allocatePage.2) from
    Prod.ext halloc rfl]
  dsimp only
  rw [show findVictimFrame _ = (none, _) from Prod.ext hf rfl]

/-- `NewPage` when a frame is found. -/
theorem newPage_of_frame (halloc : pool.pageManager.allocatePage.1 = .ok p)
    (hf : (findVictimFrame { pool with pageManager := pool.pageManager.allocatePage.2 }).1 = some f) :
    pool.newPage = (some (p, f),
      (evict f (findVictimFrame { pool with pageManager := pool.pageManager.allocatePage.2 }).2).install
        f p Page.blank true) := by
  unfold newPage
  rw [show pool.pageManager.allocatePage = (.ok p, pool.pageManager.allocatePage.2) from
    Prod.ext halloc rfl]
  dsimp only
  rw [show findVictimFrame _ = (some f, _) from Prod.ext hf rfl]

/-- `NewPage` extends the file by a page of zeroes and pins it in a frame, if there is one; or it breaks
the stream. -/
theorem newPage_spec (h : Inv none pool) :
    pool.newPage.2.pageManager.pageCount = pool.pageManager.pageCount + 1 ∧
    pool.newPage.2.pageManager.nextPageId = pool.pageManager.nextPageId + 1 ∧
    ((pool.newPage.1 = none ∧ Served pool s pool.newPage.2 s ∧
        pool.newPage.2.pageManager.good = false) ∨
      pool.pageManager.nextPageId.toInt = pool.pageManager.pageCount ∧
      pool.pageManager.good = true ∧ pool.newPage.2.pageManager.good = true ∧
      ((∃ f, pool.newPage.1 = some (pool.pageManager.nextPageId, f) ∧
          pool.newPage.2.pageTable.find? pool.pageManager.nextPageId = some f ∧
          (pool.newPage.2.frames f).page = Page.blank ∧
          Served pool s pool.newPage.2
            ((s.create pool.pageManager.nextPageId Page.blank).pin pool.pageManager.nextPageId)) ∨
        pool.newPage.1 = none ∧
          Served pool s pool.newPage.2 (s.create pool.pageManager.nextPageId Page.blank) ∧
          pool.Full)) := by
  obtain ⟨hpm, hcount, hnext, hcases⟩ := h.counted.allocatePage
  have h₁ : Inv none { pool with pageManager := pool.pageManager.allocatePage.2 } :=
    h.setPageManager hpm (by omega)
  rcases hcases with ⟨⟨e, herror⟩, hbroken, hcontent⟩ | ⟨hok, hgood₀, hgood, hint, hcontent⟩
  · -- the counters have moved on, and the pages are as they were
    rw [newPage_of_error herror]
    refine ⟨hcount, hnext, .inl ⟨rfl, ⟨h₁, fun _ _ hq _ => hq, fun _ => ?_⟩, hbroken⟩⟩
    have hsame : cache { pool with pageManager := pool.pageManager.allocatePage.2 } = pool.cache :=
      Cache.ext rfl hcontent
    rw [hsame]
  generalize pool.pageManager.nextPageId = new at hnext hint hcontent hok ⊢
  -- the new page is not resident, and its file content are zeroes
  have habsent : pool.pageTable.find? new = none := by
    refine Option.eq_none_iff_forall_ne_some.mpr fun g hg => ?_
    have := (h.inRange new g hg).2
    omega
  have hdata : new ∈ dataPages := by
    rintro rfl
    have := h.counted.pos
    rw [show Int32.toInt kHeaderPageId = 0 from rfl] at hint
    omega
  have hin : pool.pageManager.allocatePage.2.InRange new := by
    rw [PageManager.InRange, Int32.le_iff_toInt_le, Int32.toInt_zero]
    omega
  have hzero : pool.pageManager.allocatePage.2.content new = Page.blank := by
    rw [hcontent new hdata, update_self]
  have hsteps : Steps dataPages (pool.cache, s)
      (cache { pool with pageManager := pool.pageManager.allocatePage.2 }, s.create new Page.blank) := by
    refine .tail (.single (.create Page.blank (lines_of_absent habsent))) ?_
    exact @Step.outside _ _ _ _ _ _ pool.pageManager.allocatePage.2.content hcontent
  cases hf : (findVictimFrame { pool with pageManager := pool.pageManager.allocatePage.2 }).1 with
  | none =>
    obtain ⟨heq, hfull⟩ := findVictimFrame_none h₁ hf
    rw [newPage_of_full hok hf, heq]
    exact ⟨hcount, hnext, .inr ⟨hint, hgood₀, hgood, .inr ⟨rfl,
      ⟨h₁, fun _ _ hq _ => hq, fun _ => hsteps⟩, hfull⟩⟩⟩
  | some f =>
    have he := h₁.take hf
    rw [newPage_of_frame hok hf]
    have hblank := (he.content new habsent).trans hzero
    obtain ⟨hfind, hserved⟩ := he.install (s := s.create new Page.blank) habsent hin true
    rw [hblank] at hfind hserved
    refine ⟨he.pageCount.trans hcount, he.nextPageId.trans hnext, .inr ⟨hint, hgood₀,
      he.good.trans hgood, .inl ⟨f, rfl, hfind, ?_, hserved.inv, hserved.stays, fun _ => ?_⟩⟩⟩
    · rw [frames_install]
    · exact hsteps.trans (hserved.steps hgood)

/-- `UnpinPage` on a page that has no pins. -/
theorem unpinPage_of_unpinned (dirty : Bool) (hpins : pool.cache.pins p = 0) :
    pool.unpinPage p dirty = (false, pool) := by
  unfold unpinPage
  cases hp : pool.pageTable.find? p with
  | none => rfl
  | some f =>
    rw [pins_of_find hp] at hpins
    dsimp only
    rw [if_pos hpins]

/-- `UnpinPage` on a pinned page. -/
theorem unpinPage_of_pinned (dirty : Bool) (hp : pool.pageTable.find? p = some f)
    (hpos : 0 < (pool.frames f).pinCount) :
    pool.unpinPage p dirty = (true,
      { pool.setFrame f { pool.frames f with
          isDirty := (pool.frames f).isDirty || dirty, pinCount := (pool.frames f).pinCount - 1 } with
        replacer := if (pool.frames f).pinCount = 1 then pool.replacer.unpin f else pool.replacer }) := by
  unfold unpinPage
  rw [hp]
  dsimp only
  rw [if_neg (Nat.ne_of_gt hpos)]
  by_cases hone : (pool.frames f).pinCount = 1
  · rw [if_pos hone, if_pos (by rw [hone])]
    rfl
  · rw [if_neg hone, if_neg (by omega)]
    rfl

/-- `UnpinPage` returns false for a page without pins. -/
theorem unpinPage_cases (pool : BufferPool n) (p : PageId) (dirty : Bool) :
    pool.unpinPage p dirty = (false, pool) ∨ ∃ f, pool.pageTable.find? p = some f ∧
      0 < (pool.frames f).pinCount ∧ (pool.unpinPage p dirty).1 = true := by
  cases hp : pool.pageTable.find? p with
  | none => exact .inl (unpinPage_of_unpinned dirty (pins_of_absent hp))
  | some f =>
    rcases Nat.eq_zero_or_pos (pool.frames f).pinCount with hzero | hpos
    · exact .inl (unpinPage_of_unpinned dirty ((pins_of_find hp).trans hzero))
    · exact .inr ⟨f, rfl, hpos, by rw [unpinPage_of_pinned dirty hp hpos]⟩

theorem pageManager_unpinPage (pool : BufferPool n) (p : PageId) (dirty : Bool) :
    (pool.unpinPage p dirty).2.pageManager = pool.pageManager := by
  unfold unpinPage
  cases pool.pageTable.find? p with
  | none => rfl
  | some f =>
    dsimp only
    split_ifs <;> rfl

/-- A frame whose last pin is given back goes to the replacer. -/
theorem unpinPage_spec (h : Inv none pool) (dirty : Bool) (hp : pool.pageTable.find? p = some f)
    (hpos : 0 < (pool.frames f).pinCount) (hmay : s.MayUnpin p dirty) :
    Served pool s (pool.unpinPage p dirty).2 (s.unpin p dirty) := by
  have hnot : f ∉ pool.replacer.frames := fun hmem => by
    have := ((h.lru_iff f).mp hmem).2.1
    omega
  have hid := h.pageId_ne hp
  rw [unpinPage_of_pinned dirty hp hpos]
  refine ⟨h.update rfl (fun hc => absurd hc hid) ?_ ?_, fun _ _ hq _ => hq, fun _ => ?_⟩
  · intro g hg
    split_ifs with hone
    · rw [LRUReplacer.frames_unpin hnot, List.mem_cons]
      exact or_iff_right hg
    · exact Iff.rfl
  · split_ifs with hone
    · rw [LRUReplacer.frames_unpin hnot]
      refine iff_of_true (List.mem_cons_self ..) ⟨hid, ?_, nofun⟩
      show (pool.frames f).pinCount - 1 = 0
      omega
    · refine iff_of_false hnot fun hc => hone ?_
      have hzero : (pool.frames f).pinCount - 1 = 0 := hc.2.1
      omega
  · rw [h.cache_setFrame hp]
    exact .single (.unpin dirty (lines_of_find hp) hpos hmay)

/-- A client writes to a page that is pinned. -/
theorem write_spec (h : Inv none pool) (hp : pool.pageTable.find? p = some f)
    (hpos : 0 < (pool.frames f).pinCount) (page : Page) :
    Served pool s (pool.write f page) (s.write p page) := by
  refine ⟨h.setFrame rfl rfl, fun _ _ hq _ => hq, fun _ => ?_⟩
  show Steps _ _ (cache { pool.setFrame f _ with replacer := pool.replacer }, _)
  rw [h.cache_setFrame hp]
  exact .single (.write page (lines_of_find hp) hpos)

/-- A resident page is written to the file. -/
theorem writePage_spec (h : Inv none pool) (hp : pool.pageTable.find? p = some f) :
    Served pool s ({ pool with pageManager :=
      (pool.pageManager.writePage p (pool.frames f).page).2 }.setFrame f
        { pool.frames f with isDirty := false }) s := by
  have hpm : Inv none { pool with
      pageManager := (pool.pageManager.writePage p (pool.frames f).page).2 } :=
    h.setPageManager (h.counted.writePage p _) (Nat.le_of_eq (pageCount_writePage ..).symm)
  refine ⟨hpm.setFrame rfl rfl, fun _ _ hq _ => hq, fun hgood => ?_⟩
  show Steps _ _ (cache { setFrame f _ { pool with
    pageManager := (pool.pageManager.writePage p (pool.frames f).page).2 } with
    replacer := pool.replacer }, _)
  rw [hpm.cache_setFrame hp]
  have hcache : cache { pool with
      pageManager := (pool.pageManager.writePage p (pool.frames f).page).2 }
      = pool.cache.setBacking p (pool.frames f).page :=
    Cache.ext rfl (content_writePage (h.inRange p f hp) hgood _)
  rw [hcache]
  exact .single (.flush (lines_of_find hp))

theorem Served.refl (h : Inv none pool) : Served pool s pool s :=
  ⟨h, fun _ _ hq _ => hq, fun _ => .refl⟩

theorem flushPage_spec (h : Inv none pool) (p : PageId) :
    (pool.flushPage p).2.pageManager.good = pool.pageManager.good ∧
    (pool.flushPage p).2.pageManager.nextPageId = pool.pageManager.nextPageId ∧
    Served pool s (pool.flushPage p).2 s := by
  unfold flushPage
  cases hp : pool.pageTable.find? p with
  | none => exact ⟨rfl, rfl, .refl h⟩
  | some f =>
    dsimp only
    rcases writePage_cases p (pool.frames f).page pool.pageManager with ⟨⟨e, herror⟩, -⟩ | ⟨hok, -⟩
    · rw [herror]
      exact ⟨rfl, rfl, .refl h⟩
    · rw [hok]
      exact ⟨good_writePage .., nextPageId_writePage .., writePage_spec h hp⟩

/-- The loop of `FlushAll` cleans the frames it comes by, or stops at a broken stream. -/
theorem flushFrom_spec (h : Inv none pool) {entries : List (PageId × Fin n)}
    (hentries : ∀ e ∈ entries, pool.pageTable.find? e.1 = some e.2) :
    (flushFrom entries pool).2.pageManager.good = pool.pageManager.good ∧
    (flushFrom entries pool).2.pageManager.nextPageId = pool.pageManager.nextPageId ∧
    (flushFrom entries pool).2.pageTable = pool.pageTable ∧
    Served pool s (flushFrom entries pool).2 s ∧
    ((flushFrom entries pool).1 = .ok () → ∀ f, ((flushFrom entries pool).2.frames f).isDirty = true →
      (pool.frames f).isDirty = true ∧ f ∉ entries.map Prod.snd) := by
  induction entries generalizing pool with
  | nil => exact ⟨rfl, rfl, rfl, .refl h, fun _ f hf => ⟨hf, List.not_mem_nil⟩⟩
  | cons e entries ih =>
    obtain ⟨p, f⟩ := e
    obtain ⟨hp, hrest⟩ := List.forall_mem_cons.mp hentries
    rw [flushFrom]
    dsimp only
    by_cases hdirty : (pool.frames f).isDirty = true
    · rw [if_pos hdirty]
      rcases writePage_cases p (pool.frames f).page pool.pageManager with ⟨⟨e, herror⟩, -⟩ | ⟨hok, -⟩
      · rw [herror]
        exact ⟨rfl, rfl, rfl, .refl h, nofun⟩
      · rw [hok]
        have hwrite := writePage_spec (s := s) h hp
        obtain ⟨hsame, hnext, htable, hserved, hclean⟩ := ih hwrite.inv hrest
        refine ⟨hsame.trans (good_writePage ..), hnext.trans (nextPageId_writePage ..), htable,
          ⟨hserved.inv, ?_, fun hgood => ?_⟩, fun hdone g hg => ?_⟩
        · intro q g hq _
          exact (congrArg (UnorderedMap.find? · q) htable).trans hq
        · refine (hwrite.steps hgood).trans (hserved.steps ?_)
          exact (good_writePage ..).trans hgood
        · obtain ⟨hg', hnot⟩ := hclean hdone g hg
          have hne : g ≠ f := by
            rintro rfl
            have hclean' : (Function.update pool.frames g
              { pool.frames g with isDirty := false } g).isDirty = true := hg'
            rw [update_self] at hclean'
            cases hclean'
          rw [List.map_cons, List.mem_cons, not_or]
          refine ⟨?_, hne, hnot⟩
          rw [← hg']
          exact congrArg Frame.isDirty (update_of_ne hne ..).symm
    · rw [if_neg hdirty]
      obtain ⟨hsame, hnext, htable, hserved, hclean⟩ := ih h hrest
      refine ⟨hsame, hnext, htable, hserved, fun hok g hg => ?_⟩
      obtain ⟨hg', hnot⟩ := hclean hok g hg
      refine ⟨hg', ?_⟩
      rw [List.map_cons, List.mem_cons, not_or]
      refine ⟨?_, hnot⟩
      rintro rfl
      exact hdirty hg'

/-- `FlushAll` leaves no dirty page, or has found a broken stream. -/
theorem flushAll_spec (h : Inv none pool) :
    pool.flushAll.2.pageManager.good = pool.pageManager.good ∧
    pool.flushAll.2.pageManager.nextPageId = pool.pageManager.nextPageId ∧
    Served pool s pool.flushAll.2 s ∧ (pool.flushAll.1 = .ok () →
      ∀ p line, pool.flushAll.2.cache.lines p = some line → line.dirty = false) := by
  have hentries : ∀ e ∈ pool.pageTable.entries, pool.pageTable.find? e.1 = some e.2 :=
    fun _ he => UnorderedMap.mem_entries_iff.mp he
  obtain ⟨hsame, hnext, htable, hserved, hclean⟩ := flushFrom_spec (s := s) h hentries
  refine ⟨hsame, hnext, hserved, fun hok p line hline => ?_⟩
  obtain ⟨f, hf, rfl⟩ := Option.map_eq_some_iff.mp hline
  by_contra hdirty
  have hfind : pool.pageTable.find? p = some f :=
    (congrArg (UnorderedMap.find? · p) htable).symm.trans hf
  have hnot := (hclean hok f (Bool.not_eq_false _ ▸ hdirty)).2
  exact hnot (List.mem_map_of_mem (UnorderedMap.mem_entries_iff.mpr hfind))

/-! ### Calls -/

/-- What can be done with a pool. -/
inductive Call (n : Nat)
  | fetchPage (pageId : PageId)
  | newPage
  | unpinPage (pageId : PageId) (isDirty : Bool)
  | flushPage (pageId : PageId)
  | flushAll
  /-- a client changes a page through its pointer -/
  | write (pageId : PageId) (frameId : Fin n) (page : Page)

/-- What the calls return, with the content of the page behind a pointer. -/
inductive Answer (n : Nat)
  | fetched (page : Option (Fin n × Page))
  | created (page : Option (PageId × Fin n × Page))
  | unpinned (ok : Bool)
  | flushed (status : Result Unit)
  | written

/-- A call on a pool. -/
def call (pool : BufferPool n) : Call n → Answer n × BufferPool n
  | .fetchPage p =>
    (.fetched ((pool.fetchPage p).1.map fun f => (f, ((pool.fetchPage p).2.frames f).page)),
      (pool.fetchPage p).2)
  | .newPage =>
    (.created (pool.newPage.1.map fun r => (r.1, r.2, (pool.newPage.2.frames r.2).page)),
      pool.newPage.2)
  | .unpinPage p isDirty => (.unpinned (pool.unpinPage p isDirty).1, (pool.unpinPage p isDirty).2)
  | .flushPage p => (.flushed (pool.flushPage p).1, (pool.flushPage p).2)
  | .flushAll => (.flushed pool.flushAll.1, pool.flushAll.2)
  | .write _ f page => (.written, pool.write f page)

/-- The calls always return. -/
def exec (pool : BufferPool n) (c : Call n) : Except Empty (Answer n × BufferPool n) :=
  .ok (pool.call c)

theorem exec_eq_ok {c : Call n} {a : Answer n} :
    exec pool c = .ok (a, pool') ↔ a = (pool.call c).1 ∧ pool' = (pool.call c).2 := by
  rw [exec, Except.ok.injEq, Prod.ext_iff]
  exact and_congr eq_comm eq_comm

/-- No resident pages. -/
def noPages (n : Nat) : UnorderedMap PageId (Fin n) := .empty id fun _ => .refl _

/-- Whatever is called, and whether the stream works or not, the pool stays in order. -/
theorem Inv.call (h : Inv none pool) (c : Call n) : Inv none (pool.call c).2 := by
  have s : Clients PageId Page := ⟨fun _ => Page.blank, [], ∅⟩
  cases c with
  | fetchPage p =>
    obtain ⟨-, -, -, ⟨f, -, -, hserved⟩ | ⟨-, hserved, -⟩⟩ := fetchPage_spec (s := s) h p
    · exact hserved.inv
    · exact hserved.inv
  | newPage =>
    obtain ⟨-, -, ⟨-, hserved, -⟩ | ⟨-, -, -, ⟨f, -, -, -, hserved⟩ | ⟨-, hserved, -⟩⟩⟩ :=
      newPage_spec (s := s) h
    · exact hserved.inv
    · exact hserved.inv
    · exact hserved.inv
  | unpinPage p dirty =>
    rcases unpinPage_cases pool p dirty with heq | ⟨f, hp, hpos, -⟩
    · rw [BufferPool.call, heq]
      exact h
    · refine (unpinPage_spec (s := ⟨fun _ => Page.blank, [], ∅⟩) h dirty hp hpos ?_).inv
      exact .inr (.inl nofun)
  | flushPage p => exact (flushPage_spec (s := s) h p).2.2.inv
  | flushAll => exact (flushAll_spec (s := s) h).2.2.1.inv
  | write p f page => exact h.setFrame rfl rfl

theorem inv_of_run (hpm : pm.Counted) (htable : ∀ p, table.find? p = none)
    {history : List (Call n × Answer n)} (hrun : Runs.Run exec (BufferPool.new pm table) history pool) :
    Inv none pool := by
  refine Runs.Run.always (fun _ s => Inv none s) (.new hpm htable) ?_ hrun
  intro _ s c _ s' hs hexec
  obtain ⟨-, rfl⟩ := exec_eq_ok.mp hexec
  exact hs.call c

/-- A broken stream stays broken. -/
theorem good_of_call (h : Inv none pool) (c : Call n)
    (hgood : (pool.call c).2.pageManager.good = true) : pool.pageManager.good = true := by
  have s : Clients PageId Page := ⟨fun _ => Page.blank, [], ∅⟩
  cases c with
  | fetchPage p => exact (fetchPage_spec (s := s) h p).2.2.1.symm.trans hgood
  | newPage =>
    obtain ⟨-, -, ⟨-, -, hbroken⟩ | ⟨-, hgood₀, -⟩⟩ := newPage_spec (s := s) h
    · exact absurd (hbroken.symm.trans hgood) Bool.false_ne_true
    · exact hgood₀
  | unpinPage p dirty =>
    exact (congrArg PageManager.good (pageManager_unpinPage pool p dirty)).symm.trans hgood
  | flushPage p => exact (flushPage_spec (s := s) h p).1.symm.trans hgood
  | flushAll => exact (flushAll_spec (s := s) h).1.symm.trans hgood
  | write p f page => exact hgood

end BufferPool

end MiniDB
