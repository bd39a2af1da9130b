import MiniDB.Lib.Effect
import Mathlib.Data.List.Forall2

/-!
# Cursors

A `Cursor` hands out its items one at a time: it is started, asked for the next item until there is
none, and may then report an error.  Cursors are stacked, each asking the one below it.  `left` bounds
the number of items still to come, so that the loops that ask for all of them are total.

What a cursor hands out is a `Stream`: its items, the error it reports while there are items left, and
the error it reports at the end.  `Yields` ties the two together, over every state of the world that
satisfies an invariant `I`; `Yields.drain` is the rule for the loop that asks for everything.
-/

namespace MiniDB.Effect

open Effect.Action (exec_bind_eq_ok post wp wp_bind wp_mono_ok)

/-- A source of items that is asked for one at a time. -/
structure Cursor (φ ε σ τ : Type) where
  State : Type
  start : Action φ ε σ State
  next : State → Action φ ε σ (Option τ × State)
  error : State → Option ε
  left : State → Nat

/-- What a cursor hands out. -/
structure Stream (ε τ : Type) where
  items : List τ
  /-- the error reported while items are coming -/
  during : Option ε
  /-- the error reported at the end -/
  atEnd : Option ε

namespace Cursor

variable {φ ε σ τ : Type} {x x' : σ} {n : Nat} {dry : φ} {c' : Cursor φ ε σ τ}

/-- Ask for all items, at most `n` times; `dry` is the fault when there are more. -/
def drainFrom (c : Cursor φ ε σ τ) (dry : φ) : Nat → c.State → Action φ ε σ (List τ × c.State)
  | 0, _ => Action.die dry
  | n + 1, s => do
    match ← c.next s with
    | (none, s) => return ([], s)
    | (some t, s) =>
      let (ts, s) ← drainFrom c dry n s
      return (t :: ts, s)

/-- Ask for all items. -/
def drain (c : Cursor φ ε σ τ) (dry : φ) (s : c.State) : Action φ ε σ (List τ × c.State) :=
  drainFrom c dry (c.left s + 1) s

/-- Asking for the next item does not make an error disappear. -/
def KeepsError (c : Cursor φ ε σ τ) : Prop :=
  ∀ s x r s' x', (c.next s).exec x = .ok (.ok (r, s'), x') → c.error s' = none → c.error s = none

/-- One round of asking for everything. -/
theorem drainFrom_succ_eq_ok {c : Cursor φ ε σ τ} {s s' : c.State} {ts : List τ} :
    (c.drainFrom dry (n + 1) s).exec x = .ok (.ok (ts, s'), x') ↔
      (ts = [] ∧ (c.next s).exec x = .ok (.ok (none, s'), x')) ∨
        ∃ t ts' s₁ x₁, ts = t :: ts' ∧ (c.next s).exec x = .ok (.ok (some t, s₁), x₁) ∧
          (c.drainFrom dry n s₁).exec x₁ = .ok (.ok (ts', s'), x') := by
  rw [drainFrom, exec_bind_eq_ok]
  constructor
  · rintro ⟨⟨_ | t, s₁⟩, x₁, hnext, hrest⟩
    · cases hrest
      exact .inl ⟨rfl, hnext⟩
    · obtain ⟨⟨ts', s₂⟩, x₂, hdrain, hpure⟩ := exec_bind_eq_ok.mp hrest
      cases hpure
      exact .inr ⟨t, ts', s₁, x₁, rfl, hnext, hdrain⟩
  · rintro (⟨rfl, hnext⟩ | ⟨t, ts', s₁, x₁, rfl, hnext, hdrain⟩)
    · exact ⟨_, _, hnext, rfl⟩
    · exact ⟨_, _, hnext, exec_bind_eq_ok.mpr ⟨_, _, hdrain, rfl⟩⟩

/-- A cursor that reports no error in the end has not reported one before. -/
theorem KeepsError.drainFrom {c : Cursor φ ε σ τ} (h : KeepsError c) {s s' : c.State} {ts : List τ}
    (hdrain : (c.drainFrom dry n s).exec x = .ok (.ok (ts, s'), x')) (herror : c.error s' = none) :
    c.error s = none := by
  induction n generalizing s x ts with
  | zero => cases hdrain
  | succ n ih =>
    rcases drainFrom_succ_eq_ok.mp hdrain with ⟨-, hnext⟩ | ⟨t, ts', s₁, x₁, -, hnext, hrest⟩
    · exact h _ _ _ _ _ hnext herror
    · exact h _ _ _ _ _ hnext (ih hrest)

/-- The cursor `c'` follows `c`: it asks `c` for each item and hands out an item that `R` relates to it.
It may end early, with an error; `S` ties the states together. -/
structure Follows (c c' : Cursor φ ε σ τ) (R : τ → τ → Prop) (S : c.State → c'.State → Prop) : Prop where
  left_eq : ∀ {s s'}, S s s' → c'.left s' = c.left s
  error_none : ∀ {s s'}, S s s' → c'.error s' = none → c.error s = none
  next : ∀ {s s' x r' s₁' x₁}, S s s' → (c'.next s').exec x = .ok (.ok (r', s₁'), x₁) →
    (r' = none ∧ c'.error s₁' ≠ none) ∨
      ∃ r s₁, (c.next s).exec x = .ok (.ok (r, s₁), x₁) ∧ Option.Rel R r r' ∧ S s₁ s₁'

/-- All items of a cursor that ends without an error are those of the one it follows. -/
theorem Follows.drainFrom {c : Cursor φ ε σ τ} {R : τ → τ → Prop} {S : c.State → c'.State → Prop}
    (h : Follows c c' R S) {s : c.State} {s' s₁' : c'.State} {x₁ : σ} {ts' : List τ} (hs : S s s')
    (hdrain : (c'.drainFrom dry n s').exec x = .ok (.ok (ts', s₁'), x₁)) (herror : c'.error s₁' = none) :
    ∃ ts s₁, (c.drainFrom dry n s).exec x = .ok (.ok (ts, s₁), x₁) ∧ List.Forall₂ R ts ts' ∧
      c.error s₁ = none := by
  induction n generalizing s s' x ts' with
  | zero => cases hdrain
  | succ n ih =>
    rcases drainFrom_succ_eq_ok.mp hdrain with ⟨rfl, hnext'⟩ | ⟨t', ts₁', s₂', x₂, rfl, hnext', hrest⟩
    · rcases h.next hs hnext' with ⟨-, hfail⟩ | ⟨r, s₁, hnext, hrel, hs₁⟩
      · exact absurd herror hfail
      · cases hrel
        exact ⟨[], s₁, drainFrom_succ_eq_ok.mpr (.inl ⟨rfl, hnext⟩), .nil, h.error_none hs₁ herror⟩
    · rcases h.next hs hnext' with ⟨hnone, -⟩ | ⟨r, s₂, hnext, hrel, hs₂⟩
      · cases hnone
      · obtain ⟨ts, s₁, hdrain, hts, hnone⟩ := ih hs₂ hrest
        cases hrel with
        | some ht =>
          exact ⟨_, s₁, drainFrom_succ_eq_ok.mpr (.inr ⟨_, ts, s₂, x₂, rfl, hnext, hdrain⟩),
            .cons ht hts, hnone⟩

variable {allow : φ → Prop} {I : σ → Prop}

/-- From state `s` the cursor hands out the items `ts`, with the errors `during` and `atEnd`, in every
world that satisfies `I`. -/
def YieldsFrom (allow : φ → Prop) (I : σ → Prop) (c : Cursor φ ε σ τ) (during atEnd : Option ε) :
    List τ → c.State → Prop
  | [], s => c.error s = during ∧ ∀ x, I x → wp allow (c.next s)
      (post (fun r x => r.1 = none ∧ c.error r.2 = atEnd ∧ I x) fun _ _ => False) x
  | t :: ts, s => c.error s = during ∧ ts.length < c.left s ∧
      ∀ x, I x → wp allow (c.next s) (post
        (fun r x => r.1 = some t ∧ YieldsFrom allow I c during atEnd ts r.2 ∧ I x) fun _ _ => False) x

/-- From state `s` the cursor hands out the stream. -/
def Yields (allow : φ → Prop) (I : σ → Prop) (c : Cursor φ ε σ τ) (stream : Stream ε τ)
    (s : c.State) : Prop := YieldsFrom allow I c stream.during stream.atEnd stream.items s

/-- A cursor that is started in the world `x` hands out the stream. -/
def Produces (allow : φ → Prop) (I : σ → Prop) (c : Cursor φ ε σ τ) (stream : Stream ε τ) (x : σ) :
    Prop :=
  wp allow c.start (post (fun s x => Yields allow I c stream s ∧ I x) fun _ _ => False) x

variable {c : Cursor φ ε σ τ} {during atEnd : Option ε} {ts : List τ} {s : c.State}
  {stream : Stream ε τ}

theorem YieldsFrom.error_eq (h : YieldsFrom allow I c during atEnd ts s) : c.error s = during := by
  cases ts with
  | nil => exact h.1
  | cons t ts => exact h.1

theorem YieldsFrom.length_le (h : YieldsFrom allow I c during atEnd ts s) :
    ts.length ≤ c.left s := by
  cases ts with
  | nil => exact Nat.zero_le _
  | cons t ts => exact h.2.1

theorem YieldsFrom.drainFrom (dry : φ) (h : YieldsFrom allow I c during atEnd ts s) (hn : ts.length < n)
    (hx : I x) :
    wp allow (c.drainFrom dry n s)
      (post (fun r x => r.1 = ts ∧ c.error r.2 = atEnd ∧ I x) fun _ _ => False) x := by
  induction ts generalizing s n x with
  | nil =>
    obtain ⟨n, rfl⟩ : ∃ m, n = m + 1 := ⟨n - 1, by omega⟩
    rw [Cursor.drainFrom, wp_bind]
    refine wp_mono_ok ?_ (h.2 x hx)
    rintro ⟨t?, s'⟩ x' ⟨rfl, herr, hx'⟩
    exact ⟨rfl, herr, hx'⟩
  | cons t ts ih =>
    obtain ⟨n, rfl⟩ : ∃ m, n = m + 1 := ⟨n - 1, by omega⟩
    rw [Cursor.drainFrom, wp_bind]
    refine wp_mono_ok ?_ (h.2.2 x hx)
    rintro ⟨t?, s'⟩ x' ⟨rfl, hrest, hx'⟩
    dsimp only
    rw [wp_bind]
    refine wp_mono_ok ?_ (ih hrest (Nat.lt_of_succ_lt_succ hn) hx')
    rintro ⟨ts', s''⟩ x'' ⟨rfl, herr, hx''⟩
    exact ⟨rfl, herr, hx''⟩

/-- Asking for everything gives the items of the stream, and then its last error. -/
theorem Yields.drain (dry : φ) (h : Yields allow I c stream s) (hx : I x) :
    wp allow (c.drain dry s) (post
      (fun r x => r.1 = stream.items ∧ c.error r.2 = stream.atEnd ∧ I x) fun _ _ => False) x :=
  YieldsFrom.drainFrom dry h (Nat.lt_succ_of_le h.length_le) hx

/-- A cursor that starts the one below it and nothing else. -/
theorem Produces.lift {stream' : Stream ε τ} (h : Produces allow I c stream x) (f : c.State → c'.State)
    (hstart : c'.start = do
      let s ← c.start
      return f s) (hyields : ∀ s, Yields allow I c stream s → Yields allow I c' stream' (f s)) :
    Produces allow I c' stream' x := by
  unfold Produces
  rw [hstart, wp_bind]
  refine wp_mono_ok ?_ h
  rintro s x' ⟨hs, hx'⟩
  exact ⟨hyields s hs, hx'⟩

/-- A cursor over a list it holds. -/
theorem yields_of_list (view : List τ → c.State)
    (hnil : c.next (view []) = pure (none, view []))
    (hcons : ∀ t ts, c.next (view (t :: ts)) = pure (some t, view ts)) {e : Option ε}
    (herror : ∀ ts, c.error (view ts) = e) (hleft : ∀ ts, ts.length ≤ c.left (view ts))
    (ts : List τ) : Yields allow I c ⟨ts, e, e⟩ (view ts) := by
  show YieldsFrom allow I c e e ts (view ts)
  induction ts with
  | nil =>
    refine ⟨herror _, fun x hx => ?_⟩
    rw [hnil]
    exact ⟨rfl, herror _, hx⟩
  | cons t ts ih =>
    refine ⟨herror _, hleft (t :: ts), fun x hx => ?_⟩
    rw [hcons]
    exact ⟨rfl, ih, hx⟩

/-- The cursor over a given list. -/
def ofList (ts : List τ) : Cursor φ ε σ τ where
  State := List τ
  start := pure ts
  next
    | [] => pure (none, [])
    | t :: ts => pure (some t, ts)
  error _ := none
  left := List.length

theorem ofList_produces (ts : List τ) (hx : I x) :
    Produces allow I (ofList ts : Cursor φ ε σ τ) ⟨ts, none, none⟩ x :=
  ⟨yields_of_list (c := ofList ts) id rfl (fun _ _ => rfl) (fun _ => rfl)
    (fun _ => Nat.le_refl _) ts, hx⟩

end Cursor

end MiniDB.Effect
