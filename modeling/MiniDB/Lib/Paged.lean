import Mathlib.Data.Option.Basic
import MiniDB.Lib.Effect

/-!
# Programs over a page pool

Code that works on pages held in a pool, as a value: a `Prog` is the sequence of pool calls it
makes, each depending on the answers to the earlier ones.  What the calls do is not fixed here; a
`Pool` instance says it, so that one program can be run against a plain store of pages and against
a cache with frames and pins.

* `run` executes a program and gives its result and the final pool, or the fault it died of.
* `calls` lists the entry points (`enter`) the execution passes, each with the pool at that moment.
* `wp` is the weakest precondition: `wp allow pre x Q s` holds when running `x` from `s` can only
  fault with an allowed fault, passes every entry point in a state satisfying its precondition, and
  returns only with `Q`.  `wp_bind` makes it compositional, and `run_of_wp`/`calls_of_wp` read off
  what it says about the execution.
-/

namespace MiniDB.Paged

/-- Why an execution stops without returning. -/
inductive Fault
  /-- the null pointer returned by `fetchPage` is dereferenced -/
  | nullPage
  /-- the null pointer returned by `newPage` is dereferenced -/
  | noNewPage
  /-- an access outside the page or buffer -/
  | outOfBounds
  /-- a loop did not stop within the rounds it was given -/
  | noFuel
  /-- there is no memory for a new object -/
  | noMemory
  deriving DecidableEq, Repr

/-- A program over pages of type `P` named by `I`, with entry points labelled by `C`. -/
inductive Prog (I P C : Type) (α : Type) : Type
  | pure (a : α)
  | fault (f : Fault)
  | fetchPage (id : I) (k : Option P → Prog I P C α)
  | newPage (k : Option I → Prog I P C α)
  | setPage (id : I) (page : P) (k : Prog I P C α)
  | unpinPage (id : I) (isDirty : Bool) (k : Prog I P C α)
  | enter (c : C) (k : Prog I P C α)

/-- What the pool calls do.  `setPage` is the client's write through the pointer it holds. -/
class Pool (σ I P : Type) where
  fetchPage : I → σ → Option P × σ
  newPage : σ → Option I × σ
  setPage : I → P → σ → σ
  unpinPage : I → Bool → σ → σ

namespace Prog

variable {I P C α β : Type} {n m : Nat} {f : α → Prog I P C β}

/-! ### Sequencing -/

/-- Run `x`, then `f` on its result. -/
def bind (x : Prog I P C α) (f : α → Prog I P C β) : Prog I P C β :=
  match x with
  | .pure a => f a
  | .fault e => .fault e
  | .fetchPage id k => .fetchPage id fun r => bind (k r) f
  | .newPage k => .newPage fun r => bind (k r) f
  | .setPage id page k => .setPage id page (bind k f)
  | .unpinPage id d k => .unpinPage id d (bind k f)
  | .enter c k => .enter c (bind k f)

instance : Monad (Prog I P C) where
  pure := .pure
  bind := .bind

/-- The page behind a fetched pointer; the program dies when it is null. -/
def fetch (id : I) : Prog I P C P :=
  .fetchPage id fun
    | some page => .pure page
    | none => .fault .nullPage

/-- The id of a freshly allocated page; the program dies when there is none. -/
def alloc : Prog I P C I :=
  .newPage fun
    | some id => .pure id
    | none => .fault .noNewPage

/-- `FetchPage` for a caller that checks the pointer itself. -/
def fetch? (id : I) : Prog I P C (Option P) := .fetchPage id .pure

/-- Write a page through its pointer. -/
def set (id : I) (page : P) : Prog I P C Unit := .setPage id page (.pure ())

/-- Give a pin back. -/
def unpin (id : I) (isDirty : Bool) : Prog I P C Unit := .unpinPage id isDirty (.pure ())

/-- Mark an entry point. -/
def entered (c : C) : Prog I P C Unit := .enter c (.pure ())

/-- The value of a bounds-checked access. -/
def access (r : Option α) : Prog I P C α :=
  match r with
  | some a => .pure a
  | none => .fault .outOfBounds

/-- A checked computation: its result, unless it dies. -/
def check {ε : Type} (x : Effect.Checked Fault ε α) : Prog I P C (Except ε α) :=
  match x.run with
  | .ok r => .pure r
  | .error f => .fault f

/-! ### Counting new pages -/

/-- The program asks for at most `n` new pages if it gets them, and does not die for want of one. -/
def AllocAtMost : Prog I P C α → Nat → Prop
  | .pure _, _ => True
  | .fault e, _ => e ≠ .noNewPage
  | .fetchPage _ k, n => ∀ r, AllocAtMost (k r) n
  | .newPage k, n => ∃ m, n = m + 1 ∧ ∀ id, AllocAtMost (k (some id)) m
  | .setPage _ _ k, n => AllocAtMost k n
  | .unpinPage _ _ k, n => AllocAtMost k n
  | .enter _ k, n => AllocAtMost k n

theorem AllocAtMost.mono {x : Prog I P C α} (h : AllocAtMost x m) (hmn : m ≤ n) : AllocAtMost x n := by
  induction x generalizing m n with
  | pure a => trivial
  | fault e => exact h
  | fetchPage id k ih => exact fun r => ih r (h r) hmn
  | newPage k ih =>
    obtain ⟨m', rfl, h⟩ := h
    obtain ⟨n', rfl⟩ : ∃ n', n = n' + 1 := ⟨n - 1, by omega⟩
    exact ⟨n', rfl, fun id => ih _ (h id) (by omega)⟩
  | setPage id page k ih => exact ih h hmn
  | unpinPage id d k ih => exact ih h hmn
  | enter c k ih => exact ih h hmn

theorem AllocAtMost.bind {x : Prog I P C α} (hx : AllocAtMost x m) (hf : ∀ a, AllocAtMost (f a) n) :
    AllocAtMost (x >>= f) (m + n) := by
  show AllocAtMost (Prog.bind x f) (m + n)
  induction x generalizing m with
  | pure a => exact (hf a).mono (Nat.le_add_left n m)
  | fault e => exact hx
  | fetchPage id k ih => exact fun r => ih r (hx r)
  | newPage k ih =>
    obtain ⟨m', rfl, hx⟩ := hx
    exact ⟨m' + n, by omega, fun id => ih _ (hx id)⟩
  | setPage id page k ih => exact ih hx
  | unpinPage id d k ih => exact ih hx
  | enter c k ih => exact ih hx

/-- A first step that asks for no page. -/
theorem AllocAtMost.after {x : Prog I P C α} (hx : AllocAtMost x 0) (hf : ∀ a, AllocAtMost (f a) n) :
    AllocAtMost (x >>= f) n :=
  (hx.bind hf).mono (Nat.le_of_eq (Nat.zero_add n))

theorem allocAtMost_pure (a : α) (n : Nat) : AllocAtMost (Pure.pure a : Prog I P C α) n := trivial

theorem allocAtMost_fetch (id : I) : AllocAtMost (fetch id : Prog I P C P) 0 := by
  intro r
  cases r with
  | none => exact Fault.noConfusion
  | some page => trivial

theorem allocAtMost_alloc : AllocAtMost (alloc : Prog I P C I) 1 := ⟨0, rfl, fun _ => trivial⟩

theorem allocAtMost_access (r : Option α) : AllocAtMost (access r : Prog I P C α) 0 := by
  cases r with
  | none => exact Fault.noConfusion
  | some a => trivial

theorem allocAtMost_set (id : I) (page : P) : AllocAtMost (set id page : Prog I P C Unit) 0 :=
  trivial

theorem allocAtMost_unpin (id : I) (d : Bool) :
    AllocAtMost (unpin id d : Prog I P C Unit) 0 := trivial

theorem allocAtMost_entered (c : C) : AllocAtMost (entered c : Prog I P C Unit) 0 := trivial

/-! ### Execution -/

section Execution

variable {σ : Type} [Pool σ I P]

/-- The result of an execution with the pool it leaves, or the fault it died of. -/
def run : Prog I P C α → σ → Except Fault (α × σ)
  | .pure a, s => .ok (a, s)
  | .fault e, _ => .error e
  | .fetchPage id k, s => run (k (Pool.fetchPage id s).1) (Pool.fetchPage (P := P) id s).2
  | .newPage k, s => run (k (Pool.newPage P s).1) (Pool.newPage (I := I) P s).2
  | .setPage id page k, s => run k (Pool.setPage id page s)
  | .unpinPage id d k, s => run k (Pool.unpinPage P id d s)
  | .enter _ k, s => run k s

/-- The entry points passed by an execution, each with the pool at that moment. -/
def calls : Prog I P C α → σ → List (C × σ)
  | .pure _, _ => []
  | .fault _, _ => []
  | .fetchPage id k, s => calls (k (Pool.fetchPage id s).1) (Pool.fetchPage (P := P) id s).2
  | .newPage k, s => calls (k (Pool.newPage P s).1) (Pool.newPage (I := I) P s).2
  | .setPage id page k, s => calls k (Pool.setPage id page s)
  | .unpinPage id d k, s => calls k (Pool.unpinPage P id d s)
  | .enter c k, s => (c, s) :: calls k s

/-- The weakest precondition of a program for the postcondition `Q`, the faults `allow` and the
entry conditions `pre`. -/
def wp (allow : Fault → Prop) (pre : C → σ → Prop) :
    Prog I P C α → (α → σ → Prop) → σ → Prop
  | .pure a, Q, s => Q a s
  | .fault e, _, _ => allow e
  | .fetchPage id k, Q, s =>
    wp allow pre (k (Pool.fetchPage id s).1) Q (Pool.fetchPage (P := P) id s).2
  | .newPage k, Q, s => wp allow pre (k (Pool.newPage P s).1) Q (Pool.newPage (I := I) P s).2
  | .setPage id page k, Q, s => wp allow pre k Q (Pool.setPage id page s)
  | .unpinPage id d k, Q, s => wp allow pre k Q (Pool.unpinPage P id d s)
  | .enter c k, Q, s => pre c s ∧ wp allow pre k Q s

/-! ### Rules of the weakest precondition -/

variable {allow : Fault → Prop} {pre : C → σ → Prop}

theorem run_bind (x : Prog I P C α) (f : α → Prog I P C β) (s : σ) :
    run (x >>= f) s
      = match run x s with
        | .ok (a, s') => run (f a) s'
        | .error e => .error e := by
  show run (bind x f) s = _
  induction x generalizing s with
  | pure a => rfl
  | fault e => rfl
  | fetchPage id k ih => exact ih _ _
  | newPage k ih => exact ih _ _
  | setPage id page k ih => exact ih _
  | unpinPage id d k ih => exact ih _
  | enter c k ih => exact ih _

variable {s : σ} {x : Prog I P C α} {id : I} {Q : α → σ → Prop}

@[simp] theorem wp_pure (a : α) (Q : α → σ → Prop) (s : σ) :
    wp allow pre (Pure.pure a : Prog I P C α) Q s ↔ Q a s := Iff.rfl

@[simp] theorem wp_bind (x : Prog I P C α) (f : α → Prog I P C β) (Q : β → σ → Prop) (s : σ) :
    wp allow pre (x >>= f) Q s ↔ wp allow pre x (fun a s' => wp allow pre (f a) Q s') s := by
  show wp allow pre (bind x f) Q s ↔ _
  induction x generalizing s with
  | pure a => exact Iff.rfl
  | fault e => exact Iff.rfl
  | fetchPage id k ih => exact ih _ _
  | newPage k ih => exact ih _ _
  | setPage id page k ih => exact ih _
  | unpinPage id d k ih => exact ih _
  | enter c k ih => exact and_congr_right fun _ => ih _

@[simp] theorem wp_fault (e : Fault) (Q : α → σ → Prop) (s : σ) :
    wp allow pre (.fault e : Prog I P C α) Q s ↔ allow e := Iff.rfl

@[simp] theorem wp_entered (c : C) (Q : Unit → σ → Prop) (s : σ) :
    wp allow pre (entered c : Prog I P C Unit) Q s ↔ pre c s ∧ Q () s := Iff.rfl

@[simp] theorem wp_set (id : I) (page : P) (Q : Unit → σ → Prop) (s : σ) :
    wp allow pre (set id page : Prog I P C Unit) Q s ↔ Q () (Pool.setPage id page s) := Iff.rfl

@[simp] theorem wp_unpin (id : I) (d : Bool) (Q : Unit → σ → Prop) (s : σ) :
    wp allow pre (unpin id d : Prog I P C Unit) Q s ↔ Q () (Pool.unpinPage P id d s) := Iff.rfl

@[simp] theorem wp_fetch? (id : I) (Q : Option P → σ → Prop) (s : σ) :
    wp allow pre (fetch? id : Prog I P C (Option P)) Q s
      ↔ Q (Pool.fetchPage id s).1 (Pool.fetchPage (P := P) id s).2 := Iff.rfl

/-- Fetching a page the pool has. -/
theorem wp_fetch_of_eq {page : P} (h : (Pool.fetchPage id s).1 = some page) (Q : P → σ → Prop) :
    wp allow pre (fetch id : Prog I P C P) Q s ↔ Q page (Pool.fetchPage (P := P) id s).2 := by
  simp only [fetch, wp, h]

/-- Allocating a page while the pool can. -/
theorem wp_alloc_of_eq (h : (Pool.newPage P s).1 = some id) (Q : I → σ → Prop) :
    wp allow pre (alloc : Prog I P C I) Q s ↔ Q id (Pool.newPage (I := I) P s).2 := by
  simp only [alloc, wp, h]

/-- Allocating a page when the pool cannot. -/
theorem wp_alloc_of_none (h : (Pool.newPage (I := I) P s).1 = none) (Q : I → σ → Prop) :
    wp allow pre (alloc : Prog I P C I) Q s ↔ allow .noNewPage := by
  simp only [alloc, wp, h]

theorem wp_access {r : Option α} {a : α} (h : r = some a) (Q : α → σ → Prop) (s : σ) :
    wp allow pre (access r : Prog I P C α) Q s ↔ Q a s := by
  rw [h]
  exact Iff.rfl

theorem wp_check {ε : Type} {x : Effect.Checked Fault ε α} {r : Except ε α}
    (h : x = Effect.Checked.ofResult r) (Q : Except ε α → σ → Prop) (s : σ) :
    wp allow pre (check x : Prog I P C (Except ε α)) Q s ↔ Q r s := by
  subst h
  exact Iff.rfl

/-- A weaker postcondition is easier to reach. -/
theorem wp_mono {Q' : α → σ → Prop} (hQ : ∀ a s, Q a s → Q' a s) (h : wp allow pre x Q s) :
    wp allow pre x Q' s := by
  induction x generalizing s with
  | pure a => exact hQ _ _ h
  | fault e => exact h
  | fetchPage id k ih => exact ih _ h
  | newPage k ih => exact ih _ h
  | setPage id page k ih => exact ih h
  | unpinPage id d k ih => exact ih h
  | enter c k ih => exact ⟨h.1, ih h.2⟩

/-- The entry conditions do not matter for the result. -/
theorem wp_forget (h : wp allow pre x Q s) : wp allow (fun _ _ => True) x Q s := by
  induction x generalizing s with
  | pure a => exact h
  | fault e => exact h
  | fetchPage id k ih => exact ih _ h
  | newPage k ih => exact ih _ h
  | setPage id page k ih => exact ih h
  | unpinPage id d k ih => exact ih h
  | enter c k ih => exact ⟨trivial, ih h.2⟩

/-- What the weakest precondition says about the result. -/
theorem run_of_wp (h : wp allow pre x Q s) :
    (∃ a s', run x s = .ok (a, s') ∧ Q a s') ∨ ∃ e, run x s = .error e ∧ allow e := by
  induction x generalizing s with
  | pure a => exact .inl ⟨a, s, rfl, h⟩
  | fault e => exact .inr ⟨e, rfl, h⟩
  | fetchPage id k ih => exact ih _ h
  | newPage k ih => exact ih _ h
  | setPage id page k ih => exact ih h
  | unpinPage id d k ih => exact ih h
  | enter c k ih => exact ih h.2

/-- What the weakest precondition says about the entry points passed. -/
theorem calls_of_wp (h : wp allow pre x Q s) : ∀ cs ∈ calls x s, pre cs.1 cs.2 := by
  induction x generalizing s with
  | pure a => intro cs hcs; cases hcs
  | fault e => intro cs hcs; cases hcs
  | fetchPage id k ih => exact ih _ h
  | newPage k ih => exact ih _ h
  | setPage id page k ih => exact ih h
  | unpinPage id d k ih => exact ih h
  | enter c k ih =>
    intro cs hcs
    rcases List.mem_cons.mp hcs with rfl | hcs
    · exact h.1
    · exact ih h.2 cs hcs

end Execution

end Prog

end MiniDB.Paged
