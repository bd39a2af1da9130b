import Mathlib.Data.List.Count
import Mathlib.Data.Set.Insert
import Mathlib.Logic.Relation

/-!
# Write-back caches

A cache holds values of a backing store in lines, writes a line back at the latest when it drops it,
and drops no line that is pinned.  Its clients pin the lines they work on, change them in place, and
say so when they give a pin back.

`Step` lists what can happen to a cache and to its clients' knowledge of the contents.  Whatever
happens, a reader finds the value that was written last (`Steps.agrees`), on a set `D` of keys whose
backing values change in no other way.
-/

namespace MiniDB.WriteBack

open Function (update update_of_ne update_self)

variable {K V : Type}

/-- A cached value, the number of its pins, and whether it has to be written back. -/
structure Line (V : Type) where
  value : V
  pins : Nat
  dirty : Bool

/-- The lines of a cache and the store behind it. -/
@[ext] structure Cache (K V : Type) where
  lines : K → Option (Line V)
  backing : K → V

namespace Cache

/-- The value a reader gets. -/
def read (c : Cache K V) (k : K) : V := ((c.lines k).map Line.value).getD (c.backing k)

/-- The number of pins of a key. -/
def pins (c : Cache K V) (k : K) : Nat := ((c.lines k).map Line.pins).getD 0

variable {c : Cache K V} {k k' : K}

variable {line : Line V}

theorem read_of_line (h : c.lines k = some line) : c.read k = line.value := by
  rw [read, h]
  rfl

theorem read_of_none (h : c.lines k = none) : c.read k = c.backing k := by
  rw [read, h]
  rfl

theorem pins_of_line (h : c.lines k = some line) : c.pins k = line.pins := by
  rw [pins, h]
  rfl

theorem pins_of_none (h : c.lines k = none) : c.pins k = 0 := by
  rw [pins, h]
  rfl

section Update

variable [DecidableEq K]

/-- The cache with one line changed. -/
def setLine (c : Cache K V) (k : K) (line : Option (Line V)) : Cache K V :=
  { c with lines := update c.lines k line }

/-- The cache with one value of the store behind it changed. -/
def setBacking (c : Cache K V) (k : K) (v : V) : Cache K V :=
  { c with backing := update c.backing k v }

@[simp] theorem lines_setLine_self (line : Option (Line V)) :
    (c.setLine k line).lines k = line := update_self ..

@[simp] theorem lines_setLine_of_ne (line : Option (Line V)) (h : k' ≠ k) :
    (c.setLine k line).lines k' = c.lines k' := update_of_ne h ..

theorem setLine_setLine (line line' : Option (Line V)) :
    (c.setLine k line).setLine k line' = c.setLine k line' :=
  Cache.ext (Function.update_idem ..) rfl

@[simp] theorem backing_setLine (line : Option (Line V)) :
    (c.setLine k line).backing = c.backing := rfl

@[simp] theorem lines_setBacking (v : V) : (c.setBacking k v).lines = c.lines := rfl

@[simp] theorem backing_setBacking_self (v : V) : (c.setBacking k v).backing k = v :=
  update_self ..

@[simp] theorem backing_setBacking_of_ne (v : V) (h : k' ≠ k) :
    (c.setBacking k v).backing k' = c.backing k' := update_of_ne h ..

end Update

end Cache

/-- What the clients know: the contents, the pins they hold (a key once for each of its pins), and
the keys they have changed without having reported it. -/
structure Clients (K V : Type) where
  content : K → V
  pins : List K
  changed : Set K

variable [DecidableEq K]

namespace Clients

/-- A pin more. -/
def pin (k : K) (s : Clients K V) : Clients K V := { s with pins := k :: s.pins }

/-- A pin less; with `dirty`, the changes are reported. -/
def unpin (k : K) (dirty : Bool) (s : Clients K V) : Clients K V where
  content := s.content
  pins := s.pins.erase k
  changed := { j ∈ s.changed | ¬ (j = k ∧ dirty = true) }

/-- A client writes a value. -/
def write (k : K) (v : V) (s : Clients K V) : Clients K V where
  content := update s.content k v
  pins := s.pins
  changed := { j | j ∈ s.changed ∨ j = k ∧ v ≠ s.content k }

/-- A key gets its first value. -/
def create (k : K) (v : V) (s : Clients K V) : Clients K V :=
  { s with content := update s.content k v }

/-- A pin may be given back: the last one of a changed key only with its changes. -/
def MayUnpin (k : K) (dirty : Bool) (s : Clients K V) : Prop :=
  dirty = true ∨ k ∉ s.changed ∨ 1 < s.pins.count k

end Clients

variable {D : Set K} {c c' : Cache K V} {s s' : Clients K V}

/-- What can happen to a cache and its clients. -/
inductive Step (D : Set K) : Cache K V × Clients K V → Cache K V × Clients K V → Prop
  /-- a cached key is pinned once more -/
  | pin {c s k line} (h : c.lines k = some line) :
      Step D (c, s) (c.setLine k (some { line with pins := line.pins + 1 }), s.pin k)
  /-- a key is loaded and pinned -/
  | load {c s k} (dirty : Bool) (h : c.lines k = none) :
      Step D (c, s) (c.setLine k (some ⟨c.backing k, 1, dirty⟩), s.pin k)
  /-- a line without pins is dropped -/
  | drop {c s k line} (h : c.lines k = some line) (hpins : line.pins = 0)
      (hclean : line.dirty = false) : Step D (c, s) (c.setLine k none, s)
  /-- a pin is given back -/
  | unpin {c s k line} (dirty : Bool) (h : c.lines k = some line) (hpins : 0 < line.pins)
      (hmay : s.MayUnpin k dirty) :
      Step D (c, s)
        (c.setLine k (some ⟨line.value, line.pins - 1, line.dirty || dirty⟩), s.unpin k dirty)
  /-- a client writes to a line that is pinned -/
  | write {c s k line} (v : V) (h : c.lines k = some line) (hpins : 0 < line.pins) :
      Step D (c, s) (c.setLine k (some { line with value := v }), s.write k v)
  /-- a line is written back -/
  | flush {c s k line} (h : c.lines k = some line) :
      Step D (c, s)
        ((c.setBacking k line.value).setLine k (some { line with dirty := false }), s)
  /-- a key that is not cached gets its first value -/
  | create {c s k} (v : V) (h : c.lines k = none) :
      Step D (c, s) (c.setBacking k v, s.create k v)
  /-- the store behind the cache changes outside of `D` -/
  | outside {c s backing} (h : ∀ k ∈ D, backing k = c.backing k) :
      Step D (c, s) ({ c with backing := backing }, s)

/-- Any number of steps. -/
abbrev Steps (D : Set K) : Cache K V × Clients K V → Cache K V × Clients K V → Prop :=
  Relation.ReflTransGen (Step D)

/-- A line without pins is written back and dropped. -/
theorem Steps.writeBack {k : K} (h : c.lines k = some line) (hpins : line.pins = 0) :
    Steps D (c, s) ((c.setBacking k line.value).setLine k none, s) := by
  have hself := Cache.lines_setLine_self (c := c.setBacking k line.value) (k := k)
    (some { line with dirty := false })
  have hdrop := Step.drop (D := D) (s := s) hself hpins rfl
  rw [Cache.setLine_setLine] at hdrop
  exact (Relation.ReflTransGen.single (.flush h)).tail hdrop

/-- The cache holds what its clients expect of a key: in a line, which the store behind it has as well unless
it is dirty or changed, or in the store. -/
def AgreesAt (D : Set K) (c : Cache K V) (s : Clients K V) (k : K) : Prop :=
  match c.lines k with
  | some line => (k ∈ D → line.value = s.content k) ∧
    (k ∈ D → line.dirty = false → k ∉ s.changed → c.backing k = line.value) ∧
    s.pins.count k = line.pins ∧ (k ∈ s.changed → 0 < line.pins)
  | none => (k ∈ D → c.backing k = s.content k) ∧ s.pins.count k = 0 ∧ k ∉ s.changed

/-- The cache holds what its clients expect. -/
def Agrees (D : Set K) (c : Cache K V) (s : Clients K V) : Prop := ∀ k, AgreesAt D c s k

/-- One step keeps the agreement. -/
theorem Step.agrees (hstep : Step D (c, s) (c', s')) (h : Agrees D c s) : Agrees D c' s' := by
  intro j
  have hj := h j
  unfold AgreesAt at hj ⊢
  cases hstep with
  | @pin _ _ k line hline =>
    obtain rfl | hne := eq_or_ne j k
    · rw [hline] at hj
      obtain ⟨hcontent, hclean, hpins, hchanged⟩ := hj
      rw [Cache.lines_setLine_self]
      exact ⟨hcontent, hclean, by rw [Clients.pin, List.count_cons_self, hpins], fun _ => Nat.succ_pos _⟩
    · simpa [Clients.pin, hne, hne.symm] using hj
  | @load _ _ k dirty hnone =>
    obtain rfl | hne := eq_or_ne j k
    · rw [hnone] at hj
      obtain ⟨hcontent, hpins, -⟩ := hj
      rw [Cache.lines_setLine_self]
      exact ⟨hcontent, fun _ _ _ => rfl, by rw [Clients.pin, List.count_cons_self, hpins],
        fun _ => Nat.one_pos⟩
    · simpa [Clients.pin, hne, hne.symm] using hj
  | @drop _ _ k line hline hpins hclean =>
    obtain rfl | hne := eq_or_ne j k
    · rw [hline] at hj
      obtain ⟨hcontent, hbacking, hcount, hchanged⟩ := hj
      -- a key without pins has no unreported changes
      have hnot : j ∉ s.changed := fun hmem => Nat.ne_of_gt (hchanged hmem) hpins
      rw [Cache.lines_setLine_self]
      exact ⟨fun hD => (hbacking hD hclean hnot).trans (hcontent hD), hcount.trans hpins, hnot⟩
    · simpa [hne] using hj
  | @unpin _ _ k line dirty hline hpins hmay =>
    obtain rfl | hne := eq_or_ne j k
    · rw [hline] at hj
      obtain ⟨hcontent, hclean, hcount, -⟩ := hj
      rw [Cache.lines_setLine_self]
      refine ⟨hcontent, fun hD hdirty hnot => ?_, ?_, ?_⟩
      · obtain ⟨hline', rfl⟩ := Bool.or_eq_false_iff.mp hdirty
        exact hclean hD hline' fun hmem => hnot ⟨hmem, by simp⟩
      · rw [Clients.unpin, List.count_erase_self, hcount]
      · -- the last pin of a changed key is given back with its changes
        rintro ⟨hmem, hnot⟩
        rcases hmay with rfl | hmay | hmay
        · exact absurd ⟨rfl, rfl⟩ hnot
        · exact absurd hmem hmay
        · exact Nat.sub_pos_of_lt (hcount ▸ hmay)
    · simpa [Clients.unpin, hne, List.count_erase_of_ne hne] using hj
  | @write _ _ k line v hline hpins =>
    obtain rfl | hne := eq_or_ne j k
    · rw [hline] at hj
      obtain ⟨hcontent, hclean, hcount, -⟩ := hj
      rw [Cache.lines_setLine_self]
      refine ⟨fun _ => by simp [Clients.write], fun hD hdirty hnot => ?_, hcount, fun _ => hpins⟩
      -- nothing to report means that the value was there before
      have hsame : v = s.content j := by
        by_contra hv
        exact hnot (.inr ⟨rfl, hv⟩)
      exact (hclean hD hdirty fun hmem => hnot (.inl hmem)).trans ((hcontent hD).trans hsame.symm)
    · simpa [Clients.write, hne] using hj
  | @flush _ _ k line hline =>
    obtain rfl | hne := eq_or_ne j k
    · rw [hline] at hj
      rw [Cache.lines_setLine_self]
      exact ⟨hj.1, fun _ _ _ => Cache.backing_setBacking_self _, hj.2.2⟩
    · simpa [hne] using hj
  | @create _ _ k v hnone =>
    obtain rfl | hne := eq_or_ne j k
    · rw [hnone] at hj
      rw [Cache.lines_setBacking, hnone]
      exact ⟨fun _ => by simp [Clients.create], hj.2⟩
    · simpa [Clients.create, hne] using hj
  | @outside _ _ backing hsame =>
    show match c.lines j with
      | some line => _
      | none => _
    cases hline : c.lines j with
    | none =>
      rw [hline] at hj
      exact ⟨fun hD => (hsame j hD).trans (hj.1 hD), hj.2⟩
    | some line =>
      rw [hline] at hj
      exact ⟨hj.1, fun hD hdirty hnot => (hsame j hD).trans (hj.2.1 hD hdirty hnot), hj.2.2⟩

/-- **Transparency**: whatever happens, a reader finds what was written last. -/
theorem Steps.agrees {x y : Cache K V × Clients K V} (hsteps : Steps D x y)
    (h : Agrees D x.1 x.2) : Agrees D y.1 y.2 := by
  induction hsteps with
  | refl => exact h
  | tail _ hstep ih => exact Step.agrees hstep ih

section Reading

variable {k : K} (h : Agrees D c s)

include h

theorem Agrees.read_eq (hk : k ∈ D) : c.read k = s.content k := by
  have hat := h k
  unfold AgreesAt at hat
  cases hline : c.lines k with
  | none =>
    rw [hline] at hat
    rw [Cache.read_of_none hline, hat.1 hk]
  | some line =>
    rw [hline] at hat
    rw [Cache.read_of_line hline, hat.1 hk]

theorem Agrees.pins_eq (k : K) : c.pins k = s.pins.count k := by
  have hat := h k
  unfold AgreesAt at hat
  cases hline : c.lines k with
  | none =>
    rw [hline] at hat
    rw [Cache.pins_of_none hline, hat.2.1]
  | some line =>
    rw [hline] at hat
    rw [Cache.pins_of_line hline, hat.2.2.1]

/-- With no pins held and no dirty line, the store behind the cache is up to date. -/
theorem Agrees.backing_eq (hpins : s.pins = [])
    (hclean : ∀ k line, c.lines k = some line → line.dirty = false) (hk : k ∈ D) :
    c.backing k = s.content k := by
  have hat := h k
  unfold AgreesAt at hat
  cases hline : c.lines k with
  | none =>
    rw [hline] at hat
    exact hat.1 hk
  | some line =>
    rw [hline, hpins] at hat
    obtain ⟨hcontent, hbacking, hcount, hchanged⟩ := hat
    have hnot : k ∉ s.changed := fun hmem => Nat.ne_of_lt (hchanged hmem) hcount
    exact (hbacking hk (hclean k line hline) hnot).trans (hcontent hk)

end Reading

end MiniDB.WriteBack
