import Mathlib.Logic.Basic

/-!
# Computations that fail or die

Code that reports errors in its result, as a value of the standard monads.  A `Checked` computation
returns a value or an error, or dies of a fault (an access its code does not guard); an `Action` does
so with a state, which an error leaves as it is at that moment.  Sequencing stops at the first error,
as code that returns every error to its caller does.

`Action.wp allow x Q s` is the weakest precondition: running `x` from `s` dies only of an allowed
fault and otherwise returns with `Q`.  `wp_bind` makes it compositional, and `wp_foldlM` is the
invariant rule for loops over a list.
-/

namespace MiniDB.Effect

variable {φ ε σ α β : Type} {b : β}

/-! ### Checked computations -/

/-- A computation that returns a value or an error, or dies. -/
abbrev Checked (φ ε : Type) : Type → Type := ExceptT ε (Except φ)

namespace Checked

/-- Return a result. -/
def ofResult (r : Except ε α) : Checked φ ε α := ExceptT.mk (.ok r)

/-- Die. -/
def die (f : φ) : Checked φ ε α := ExceptT.mk (.error f)

/-- The value of an access, or the fault if it is not there. -/
def access (f : φ) (r : Option α) : Checked φ ε α :=
  match r with
  | some a => pure a
  | none => die f

/-- The result of a computation as a value. -/
def attempt (x : Checked φ ε α) : Checked φ ε (Except ε α) := ExceptT.mk (x.run.map .ok)

@[simp] theorem attempt_ofResult (r : Except ε α) :
    attempt (ofResult r : Checked φ ε α) = pure r := rfl

theorem ofResult_ok (a : α) : (ofResult (.ok a) : Checked φ ε α) = pure a := rfl

theorem ofResult_error (e : ε) : (ofResult (.error e) : Checked φ ε α) = throw e := rfl

@[simp] theorem access_some (f : φ) (a : α) : (access f (some a) : Checked φ ε α) = pure a := rfl

@[simp] theorem throw_bind (e : ε) (g : α → Checked φ ε β) :
    ((throw e : Checked φ ε α) >>= g) = throw e := rfl

@[simp] theorem throw_ne_pure (e : ε) (a : α) : (throw e : Checked φ ε α) ≠ pure a := nofun

@[simp] theorem pure_inj {a b : α} : (pure a : Checked φ ε α) = pure b ↔ a = b :=
  ⟨fun h => by cases h; rfl, fun h => by rw [h]⟩

variable {g : α → Checked φ ε β}

/-- A sequence returns a value if both parts do. -/
theorem bind_eq_pure {x : Checked φ ε α} : x >>= g = pure b ↔ ∃ a, x = pure a ∧ g a = pure b := by
  rcases x with f | e | a
  · exact ⟨(fun h => nomatch h), (fun ⟨_, h, _⟩ => nomatch h)⟩
  · exact ⟨(fun h => nomatch h), (fun ⟨_, h, _⟩ => nomatch h)⟩
  · exact ⟨fun h => ⟨a, rfl, h⟩, fun ⟨a', h, hg⟩ => by cases h; exact hg⟩

/-- A sequence whose parts do not die does not die. -/
theorem bind_eq_ofResult {x : Checked φ ε α} (hx : ∃ r, x = ofResult r)
    (hg : ∀ a, x = pure a → ∃ r, g a = ofResult r) : ∃ r, x >>= g = ofResult r := by
  obtain ⟨e | a, rfl⟩ := hx
  · exact ⟨.error e, rfl⟩
  · exact hg a rfl

/-- A sequence that does not die: its first part ends it with an error, or goes on to the second. -/
theorem bind_eq_ofResult_iff {x : Checked φ ε α} {r : Except ε β} :
    x >>= g = ofResult r ↔
      (∃ e, x = throw e ∧ r = .error e) ∨ ∃ a, x = pure a ∧ g a = ofResult r := by
  rcases x with f | e | a
  · exact ⟨(fun h => nomatch h), (fun h => h.elim (fun ⟨_, h, _⟩ => nomatch h)
      fun ⟨_, h, _⟩ => nomatch h)⟩
  · constructor
    · intro h
      cases h
      exact .inl ⟨e, rfl, rfl⟩
    · rintro (⟨e', h, rfl⟩ | ⟨a, h, -⟩)
      · cases h
        rfl
      · cases h
  · constructor
    · exact fun h => .inr ⟨a, rfl, h⟩
    · rintro (⟨e', h, -⟩ | ⟨a', h, hg⟩)
      · cases h
      · cases h
        exact hg

end Checked

/-! ### Actions -/

/-- A computation with a state that returns a value or an error, or dies. -/
abbrev Action (φ ε σ : Type) : Type → Type := ExceptT ε (StateT σ (Except φ))

namespace Action

/-- Execute an action: what it returns with the state it leaves, or the fault it died of. -/
def exec (x : Action φ ε σ α) (s : σ) : Except φ (Except ε α × σ) := x.run.run s

/-- Return a result. -/
def ofResult (r : Except ε α) : Action φ ε σ α := ExceptT.mk (pure r)

/-- A checked computation. -/
def check (x : Checked φ ε α) : Action φ ε σ α :=
  ExceptT.mk fun s => (x.run).map fun r => (r, s)

/-- Die. -/
def die (f : φ) : Action φ ε σ α := ExceptT.mk fun _ => .error f

/-- The result of an action as a value. -/
def attempt (x : Action φ ε σ α) : Action φ ε σ (Except ε α) :=
  ExceptT.mk fun s => (x.exec s).map fun p => (.ok p.1, p.2)

/-- A computation on a part of the state. -/
def onPart {τ : Type} (read : σ → τ) (write : τ → σ → σ) (x : τ → Except φ (α × τ)) :
    Action φ ε σ α :=
  ExceptT.mk fun s => (x (read s)).map fun p => (.ok p.1, write p.2 s)

@[simp] theorem exec_pure (a : α) (s : σ) : (pure a : Action φ ε σ α).exec s = .ok (.ok a, s) := rfl

@[simp] theorem exec_throw (e : ε) (s : σ) :
    (throw e : Action φ ε σ α).exec s = .ok (.error e, s) := rfl

@[simp] theorem exec_ofResult (r : Except ε α) (s : σ) :
    (ofResult r : Action φ ε σ α).exec s = .ok (r, s) := rfl

@[simp] theorem exec_get (s : σ) : (get : Action φ ε σ σ).exec s = .ok (.ok s, s) := rfl

@[simp] theorem exec_modify (g : σ → σ) (s : σ) :
    (modify g : Action φ ε σ PUnit).exec s = .ok (.ok (), g s) := rfl

variable {τ : Type} {x : Action φ ε σ α} {s' : σ}

theorem exec_onPart (read : σ → τ) (write : τ → σ → σ) (x : τ → Except φ (α × τ)) (s : σ) :
    (onPart read write x : Action φ ε σ α).exec s
      = (x (read s)).map fun p => (.ok p.1, write p.2 s) := rfl

theorem exec_attempt (x : Action φ ε σ α) (s : σ) :
    (attempt x).exec s = (x.exec s).map fun p => (.ok p.1, p.2) := rfl

/-- The first part of a sequence ends it with an error or a fault. -/
theorem exec_bind (x : Action φ ε σ α) (g : α → Action φ ε σ β) (s : σ) :
    (x >>= g).exec s = match x.exec s with
      | .error f => .error f
      | .ok (.error e, s) => .ok (.error e, s)
      | .ok (.ok a, s) => (g a).exec s := by
  show (x.exec s >>= fun p => ExceptT.bindCont g p.1 p.2) = _
  rcases x.exec s with f | ⟨e | a, s'⟩ <;> rfl

/-- A sequence returns a value if both parts do. -/
theorem exec_bind_eq_ok {g : α → Action φ ε σ β} {s : σ} :
    (x >>= g).exec s = .ok (.ok b, s') ↔
      ∃ a s₁, x.exec s = .ok (.ok a, s₁) ∧ (g a).exec s₁ = .ok (.ok b, s') := by
  rw [exec_bind]
  rcases x.exec s with f | ⟨e | a, s₁⟩
  · exact ⟨nofun, nofun⟩
  · exact ⟨nofun, nofun⟩
  · constructor
    · exact fun h => ⟨a, s₁, rfl, h⟩
    · rintro ⟨a', s₁', h, hg⟩
      cases h
      exact hg

/-! ### Weakest preconditions -/

/-- The outcome is an allowed fault, or a value and a state with `P`. -/
def Returns (allow : φ → Prop) (r : Except φ (α × σ)) (P : α → σ → Prop) : Prop :=
  match r with
  | .error f => allow f
  | .ok (a, s) => P a s

theorem Returns.mono {allow : φ → Prop} {r : Except φ (α × σ)} {P P' : α → σ → Prop}
    (h : ∀ a s, P a s → P' a s) (hr : Returns allow r P) : Returns allow r P' := by
  rcases r with f | ⟨a, s⟩
  · exact hr
  · exact h a s hr

/-- `x` dies only of an allowed fault, and returns with `Q`. -/
def wp (allow : φ → Prop) (x : Action φ ε σ α) (Q : Except ε α → σ → Prop) (s : σ) : Prop :=
  Returns allow (x.exec s) Q

/-- A postcondition for the value, and one for the error. -/
def post (V : α → σ → Prop) (E : ε → σ → Prop) : Except ε α → σ → Prop
  | .ok a => V a
  | .error e => E e

@[simp] theorem post_ok (V : α → σ → Prop) (E : ε → σ → Prop) (a : α) :
    post V E (.ok a) = V a := rfl

@[simp] theorem post_error (V : α → σ → Prop) (E : ε → σ → Prop) (e : ε) :
    post V E (.error e) = E e := rfl

variable {allow : φ → Prop} {s : σ} {r : Except ε α} {Q : Except ε α → σ → Prop} {V V' : α → σ → Prop}
  {E : ε → σ → Prop} {as : List α}

@[simp] theorem wp_pure (a : α) (Q : Except ε α → σ → Prop) :
    wp allow (pure a) Q s ↔ Q (.ok a) s := Iff.rfl

@[simp] theorem wp_throw (e : ε) (Q : Except ε α → σ → Prop) :
    wp allow (throw e) Q s ↔ Q (.error e) s := Iff.rfl

@[simp] theorem wp_ofResult (r : Except ε α) (Q : Except ε α → σ → Prop) :
    wp allow (ofResult r) Q s ↔ Q r s := Iff.rfl

@[simp] theorem wp_get (Q : Except ε σ → σ → Prop) :
    wp allow (get : Action φ ε σ σ) Q s ↔ Q (.ok s) s := Iff.rfl

@[simp] theorem wp_modify (g : σ → σ) (Q : Except ε PUnit → σ → Prop) :
    wp allow (modify g : Action φ ε σ PUnit) Q s ↔ Q (.ok ()) (g s) := Iff.rfl

theorem wp_check {x : Checked φ ε α} (h : x = .ofResult r) (Q : Except ε α → σ → Prop) :
    wp allow (check x) Q s ↔ Q r s := by
  subst h
  exact Iff.rfl

@[simp] theorem wp_die (f : φ) (Q : Except ε α → σ → Prop) :
    wp allow (die f) Q s ↔ allow f := Iff.rfl

@[simp] theorem wp_attempt (x : Action φ ε σ α) (Q : Except ε (Except ε α) → σ → Prop) :
    wp allow (attempt x) Q s ↔ wp allow x (fun r => Q (.ok r)) s := by
  unfold wp
  rw [exec_attempt]
  rcases x.exec s with f | ⟨r, s'⟩ <;> rfl

/-- What a sequence guarantees: an error of the first part ends it. -/
theorem wp_bind (x : Action φ ε σ α) (g : α → Action φ ε σ β) (Q : Except ε β → σ → Prop) :
    wp allow (x >>= g) Q s ↔ wp allow x (post (fun a => wp allow (g a) Q) fun e => Q (.error e)) s := by
  unfold wp
  rw [exec_bind]
  rcases x.exec s with f | ⟨e | a, s'⟩ <;> rfl

theorem wp_onPart {read : σ → τ} {write : τ → σ → σ} {x : τ → Except φ (α × τ)} {P : α → τ → Prop}
    (hx : Returns allow (x (read s)) P) (hQ : ∀ a t, P a t → Q (.ok a) (write t s)) :
    wp allow (onPart read write x) Q s := by
  unfold wp
  rw [exec_onPart]
  cases h : x (read s) with
  | error f =>
    rw [h] at hx
    exact hx
  | ok p =>
    rw [h] at hx
    exact hQ p.1 p.2 hx

theorem wp_mono {Q' : Except ε α → σ → Prop} (h : ∀ r s, Q r s → Q' r s) (hx : wp allow x Q s) :
    wp allow x Q' s := Returns.mono h hx

/-- A weaker postcondition, for values and errors apart. -/
theorem wp_mono_post {E' : ε → σ → Prop} (hV : ∀ a s, V a s → V' a s) (hE : ∀ e s, E e s → E' e s)
    (hx : wp allow x (post V E) s) : wp allow x (post V' E') s :=
  wp_mono (fun r s h => match r with
    | .ok a => hV a s h
    | .error e => hE e s h) hx

theorem wp_mono_ok (hV : ∀ a s, V a s → V' a s) (hx : wp allow x (post V E) s) :
    wp allow x (post V' E) s :=
  wp_mono_post hV (fun _ _ h => h) hx

/-- The invariant rule for a loop: `inv` speaks about the elements that are done and the value
accumulated over them. -/
theorem wp_foldlM {f : β → α → Action φ ε σ β} (inv : List α → β → σ → Prop) (E : ε → σ → Prop)
    (h0 : inv [] b s) (hstep : ∀ before a after b s, as = before ++ a :: after → inv before b s →
      wp allow (f b a) (post (fun b => inv (before ++ [a]) b) E) s) :
    wp allow (as.foldlM f b) (post (fun b => inv as b) E) s := by
  suffices h : ∀ rest before b s, as = before ++ rest → inv before b s →
      wp allow (rest.foldlM f b) (post (fun b => inv as b) E) s from h as [] b s rfl h0
  intro rest
  induction rest with
  | nil =>
    intro before b s heq hinv
    rw [List.append_nil] at heq
    subst heq
    exact hinv
  | cons a rest ih =>
    intro before b s heq hinv
    rw [List.foldlM_cons, wp_bind]
    refine wp_mono_ok (fun b s' hb => ?_) (hstep before a rest b s heq hinv)
    exact ih (before ++ [a]) b s' (by rw [heq, List.append_assoc]; rfl) hb

/-- The invariant rule for a loop that only acts on the state. -/
theorem wp_forM {f : α → Action φ ε σ PUnit} (inv : List α → σ → Prop) (E : ε → σ → Prop)
    (h0 : inv [] s) (hstep : ∀ before a after s, as = before ++ a :: after → inv before s →
      wp allow (f a) (post (fun _ => inv (before ++ [a])) E) s) :
    wp allow (as.forM f) (post (fun _ => inv as) E) s := by
  suffices h : ∀ rest before s, as = before ++ rest → inv before s →
      wp allow (rest.forM f) (post (fun _ => inv as) E) s from h as [] s rfl h0
  intro rest
  induction rest with
  | nil =>
    intro before s heq hinv
    rw [List.append_nil] at heq
    subst heq
    exact hinv
  | cons a rest ih =>
    intro before s heq hinv
    rw [List.forM, wp_bind]
    refine wp_mono_ok (fun _ s' hb => ?_) (hstep before a rest s heq hinv)
    exact ih (before ++ [a]) s' (by rw [heq, List.append_assoc]; rfl) hb

/-- What the weakest precondition says about an execution that returns. -/
theorem of_wp (h : wp allow x Q s) (hx : x.exec s = .ok (r, s')) : Q r s' := by
  unfold wp at h
  rwa [hx] at h

/-- The weakest precondition of an execution that is known. -/
theorem wp_of_exec (hx : x.exec s = .ok (r, s')) (h : Q r s') : wp allow x Q s := by
  unfold wp
  rw [hx]
  exact h

/-- An action that may not die returns. -/
theorem exec_of_wp (h : wp (fun _ => False) x Q s) : ∃ r s', x.exec s = .ok (r, s') ∧ Q r s' := by
  unfold wp at h
  cases hx : x.exec s with
  | error f =>
    rw [hx] at h
    exact h.elim
  | ok p =>
    rw [hx] at h
    exact ⟨p.1, p.2, rfl, h⟩

end Action

end MiniDB.Effect
