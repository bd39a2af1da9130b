import Mathlib.Data.List.Induction

/-!
# Runs of calls

A component is given by what one call does: `exec s o` is the answer to the call `o` in state `s`
with the state it leaves, or the reason why the call does not return.  A `Run` is a finite history
of calls with their answers and the state after them; `Guarded` restricts the calls of a history by
what happened before them.

An invariant may speak about the history as well as the state, which is how a specification that is
computed from the history is related to the state of the component (`Run.invariant`).
-/

namespace MiniDB.Runs

variable {σ ο ρ ε : Type} {exec : σ → ο → Except ε (ρ × σ)} {init : σ}

/-- `Run exec init history s`: the calls of `history` were answered as it says, one after the other
from the state `init`, and left the state `s`. -/
inductive Run (exec : σ → ο → Except ε (ρ × σ)) (init : σ) : List (ο × ρ) → σ → Prop
  | nil : Run exec init [] init
  | snoc {history : List (ο × ρ)} {s s' : σ} {o : ο} {r : ρ} :
      Run exec init history s → exec s o = .ok (r, s') → Run exec init (history ++ [(o, r)]) s'

/-- The calls one after the other, with their answers. -/
def runAll (exec : σ → ο → Except ε (ρ × σ)) (s : σ) : List ο → Except ε (List (ο × ρ) × σ)
  | [] => .ok ([], s)
  | o :: os => do
    let (r, s) ← exec s o
    let (history, s) ← runAll exec s os
    return ((o, r) :: history, s)

/-- Every call of the history is allowed by `ok`, which sees the history before the call, the call
and its answer. -/
def Guarded (ok : List (ο × ρ) → ο → ρ → Prop) (history : List (ο × ρ)) : Prop :=
  ∀ before o r after, history = before ++ (o, r) :: after → ok before o r

variable {ok : List (ο × ρ) → ο → ρ → Prop}

theorem guarded_nil : Guarded ok ([] : List (ο × ρ)) := by
  intro before o r after h
  simp at h

variable {history before : List (ο × ρ)} {s s' : σ} {good : List (ο × ρ) → σ → Prop} {o : ο} {r : ρ}
  {os : List ο} {α : Type}

theorem guarded_snoc : Guarded ok (history ++ [(o, r)]) ↔ Guarded ok history ∧ ok history o r := by
  constructor
  · intro h
    refine ⟨fun before o' r' after heq => h before o' r' (after ++ [(o, r)]) ?_,
      h history o r [] rfl⟩
    rw [heq, List.append_assoc, List.cons_append]
  · rintro ⟨hbefore, hlast⟩ before o' r' after heq
    rcases List.eq_nil_or_concat after with rfl | ⟨after', x, rfl⟩
    · obtain ⟨rfl, hx⟩ := List.append_inj' heq rfl
      obtain ⟨rfl, rfl⟩ : o = o' ∧ r = r' := by simpa using hx
      exact hlast
    · rw [List.concat_eq_append, ← List.cons_append, ← List.append_assoc] at heq
      exact hbefore before o' r' after' (List.append_inj' heq rfl).1

theorem guarded_iff_forall_lt : Guarded ok history ↔
    ∀ i : Fin history.length, ok (history.take i) (history.get i).1 (history.get i).2 := by
  constructor
  · intro h i
    refine h _ _ _ (history.drop (i + 1)) ?_
    show history = history.take i ++ history[i.val] :: history.drop (i.val + 1)
    rw [List.getElem_cons_drop, List.take_append_drop]
  · rintro h before o r after rfl
    have hi : before.length < (before ++ (o, r) :: after).length := by simp
    simpa using h ⟨before.length, hi⟩

instance {history : List (ο × ρ)} [∀ before o r, Decidable (ok before o r)] :
    Decidable (Guarded ok history) := decidable_of_iff _ guarded_iff_forall_lt.symm

/-- A condition on single calls and their answers. -/
theorem guarded_of_forall {P : ο → ρ → Prop} (h : ∀ c ∈ history, P c.1 c.2) :
    Guarded (fun _ o r => P o r) history := by
  intro before o r after heq
  exact h (o, r) (by simp [heq])

theorem Guarded.mono {ok' : List (ο × ρ) → ο → ρ → Prop} (h : Guarded ok history)
    (himp : ∀ before o r, ok before o r → ok' before o r) :
    Guarded ok' history :=
  fun before o r after heq => himp before o r (h before o r after heq)

theorem run_snoc_iff :
    Run exec init (history ++ [(o, r)]) s' ↔
      ∃ s, Run exec init history s ∧ exec s o = .ok (r, s') := by
  constructor
  · intro h
    generalize hh : history ++ [(o, r)] = full at h
    cases h with
    | nil => simp at hh
    | snoc hrun hexec =>
      obtain ⟨rfl, hx⟩ := List.append_inj' hh rfl
      obtain ⟨rfl, rfl⟩ : o = _ ∧ r = _ := by simpa using hx
      exact ⟨_, hrun, hexec⟩
  · rintro ⟨s, hrun, hexec⟩
    exact hrun.snoc hexec

theorem runAll_cons_eq_ok :
    runAll exec s (o :: os) = .ok (history, s') ↔
      ∃ r s₁ rest, exec s o = .ok (r, s₁) ∧ runAll exec s₁ os = .ok (rest, s') ∧
        history = (o, r) :: rest := by
  rw [runAll]
  cases hexec : exec s o with
  | error e => exact ⟨nofun, nofun⟩
  | ok p =>
    obtain ⟨r, s₁⟩ := p
    show (runAll exec s₁ os >>= fun p => pure ((o, r) :: p.1, p.2)) = _ ↔ _
    cases hrest : runAll exec s₁ os with
    | error e =>
      refine ⟨nofun, ?_⟩
      rintro ⟨r', t, rest, heq, h, -⟩
      cases heq
      rw [hrest] at h
      cases h
    | ok q =>
      obtain ⟨rest, s₂⟩ := q
      constructor
      · intro h
        cases h
        exact ⟨r, s₁, rest, rfl, hrest, rfl⟩
      · rintro ⟨r', t, rest', heq, h, rfl⟩
        cases heq
        rw [hrest] at h
        cases h
        rfl

theorem Run.append_runAll (hrun : Run exec init before s) (h : runAll exec s os = .ok (history, s')) :
    Run exec init (before ++ history) s' := by
  induction os generalizing before history s with
  | nil =>
    obtain ⟨rfl, rfl⟩ : [] = history ∧ s = s' := by simpa [runAll] using h
    simpa using hrun
  | cons o os ih =>
    obtain ⟨r, s₁, rest, hexec, hrest, rfl⟩ := runAll_cons_eq_ok.mp h
    have := ih (hrun.snoc hexec) hrest
    rwa [List.append_assoc] at this

/-- An execution is a run. -/
theorem run_of_runAll (h : runAll exec init os = .ok (history, s)) : Run exec init history s :=
  Run.nil.append_runAll h

/-- A computed execution whose final state passes a check. -/
theorem exists_run_of_check (exec : σ → ο → Except ε (ρ × σ)) (init : σ) (os : List ο)
    (history : List (ο × ρ)) (check : σ → Bool)
    (h : (runAll exec init os).toOption.map (fun p => (p.1, check p.2)) = some (history, true)) :
    ∃ s, Run exec init history s ∧ check s = true := by
  cases hrun : runAll exec init os with
  | error e => simp [hrun, Except.toOption] at h
  | ok p =>
    obtain ⟨rfl, hcheck⟩ : p.1 = history ∧ check p.2 = true := by
      simpa [hrun, Except.toOption] using h
    exact ⟨p.2, run_of_runAll hrun, hcheck⟩

/-- The calls one after the other, after a history, as long as each of them passes a check. -/
def runChecked (exec : σ → ο → Except ε (ρ × σ)) (check : List (ο × ρ) → σ → ο → Bool)
    (history : List (ο × ρ)) (s : σ) : List ο → Option (List (ο × ρ) × σ)
  | [] => some (history, s)
  | o :: os =>
    if check history s o then
      match exec s o with
      | .ok (r, s) => runChecked exec check (history ++ [(o, r)]) s os
      | .error _ => none
    else none

/-- A checked execution is a run of allowed calls. -/
theorem run_of_runChecked {check : List (ο × ρ) → σ → ο → Bool}
    (hcheck : ∀ history s o r, Run exec init history s → check history s o = true → ok history o r)
    (hrun : Run exec init before s) (hok : Guarded ok before)
    (h : runChecked exec check before s os = some (history, s')) :
    Run exec init history s' ∧ Guarded ok history := by
  induction os generalizing before s with
  | nil =>
    obtain ⟨rfl, rfl⟩ := Prod.mk.inj (Option.some.inj h)
    exact ⟨hrun, hok⟩
  | cons o os ih =>
    rw [runChecked] at h
    split_ifs at h with hpass
    cases hexec : exec s o with
    | error e => simp [hexec] at h
    | ok p =>
      rw [hexec] at h
      exact ih (hrun.snoc hexec) (guarded_snoc.mpr ⟨hok, hcheck _ _ _ _ hrun hpass⟩) h

/-- The history determines the state. -/
theorem Run.unique (h : Run exec init history s) (h' : Run exec init history s') : s = s' := by
  induction h generalizing s' with
  | nil =>
    generalize hh : ([] : List (ο × ρ)) = full at h'
    cases h' with
    | nil => rfl
    | snoc => simp at hh
  | snoc hrun hexec ih =>
    obtain ⟨t, hrun', hexec'⟩ := run_snoc_iff.mp h'
    rw [← ih hrun'] at hexec'
    simp_all

/-- What holds at the start and is kept by every allowed call holds after every run of allowed
calls. -/
theorem Run.invariant (inv : List (ο × ρ) → σ → Prop) (h0 : inv [] init)
    (hstep : ∀ history s o r s', inv history s → ok history o r → exec s o = .ok (r, s') →
      inv (history ++ [(o, r)]) s') (hok : Guarded ok history) (h : Run exec init history s) :
    inv history s := by
  induction h with
  | nil => exact h0
  | snoc hrun hexec ih =>
    obtain ⟨hbefore, hlast⟩ := guarded_snoc.mp hok
    exact hstep _ _ _ _ _ (ih hbefore) hlast hexec

/-- What holds at the start and is kept by every call holds after every run. -/
theorem Run.always (inv : List (ο × ρ) → σ → Prop) (h0 : inv [] init)
    (hstep : ∀ history s o r s', inv history s → exec s o = .ok (r, s') →
      inv (history ++ [(o, r)]) s') (h : Run exec init history s) : inv history s := by
  have hall : Guarded (fun _ _ _ => True) history := fun _ _ _ _ _ => trivial
  exact h.invariant inv h0 (fun history s o r s' hi _ => hstep history s o r s' hi) hall

/-- `good` holds in every state a run passes. -/
def Throughout (exec : σ → ο → Except ε (ρ × σ)) (init : σ) (good : List (ο × ρ) → σ → Prop)
    (history : List (ο × ρ)) : Prop :=
  ∀ before after s, history = before ++ after → Run exec init before s → good before s

theorem throughout_snoc (hrun : Run exec init (history ++ [(o, r)]) s') :
    Throughout exec init good (history ++ [(o, r)]) ↔
      Throughout exec init good history ∧ good (history ++ [(o, r)]) s' := by
  constructor
  · intro h
    refine ⟨fun before after s heq => h before (after ++ [(o, r)]) s ?_, h _ [] s' ?_ hrun⟩
    · rw [heq, List.append_assoc]
    · rw [List.append_nil]
  · rintro ⟨hbefore, hlast⟩ before after s heq hs
    rcases List.eq_nil_or_concat after with rfl | ⟨after', x, rfl⟩
    · rw [List.append_nil] at heq
      subst heq
      rwa [hs.unique hrun]
    · rw [List.concat_eq_append, ← List.append_assoc] at heq
      exact hbefore before after' s (List.append_inj' heq rfl).1 hs

/-- If each allowed call from a good state leaves a good one exactly when it meets `cond`, then a
run of allowed calls is good throughout exactly when every call meets `cond`. -/
theorem Run.throughout_iff {cond : List (ο × ρ) → ο → ρ → Prop} (h0 : good [] init)
    (hstep : ∀ history s o r s', Run exec init history s → Guarded ok history → good history s →
      ok history o r → exec s o = .ok (r, s') →
      (good (history ++ [(o, r)]) s' ↔ cond history o r)) (h : Run exec init history s)
    (hok : Guarded ok history) :
    Throughout exec init good history ↔ Guarded cond history := by
  induction h with
  | nil =>
    refine ⟨fun _ => guarded_nil, fun _ before after s heq hs => ?_⟩
    obtain ⟨rfl, -⟩ : before = [] ∧ after = [] := by simpa using heq.symm
    rwa [hs.unique Run.nil]
  | snoc hrun hexec ih =>
    obtain ⟨hbefore, hlast⟩ := guarded_snoc.mp hok
    rw [throughout_snoc (hrun.snoc hexec), guarded_snoc, ih hbefore]
    refine and_congr_right fun hcond => ?_
    have hgood := (ih hbefore).mpr hcond _ [] _ (List.append_nil _).symm hrun
    exact hstep _ _ _ _ _ hrun hbefore hgood hlast hexec

/-- A property of the answers that follows from the state before each call. -/
theorem Throughout.guarded {answered : List (ο × ρ) → ο → ρ → Prop}
    (hgood : Throughout exec init good history) (h : Run exec init history s)
    (hok : Guarded ok history)
    (hstep : ∀ before t o r t', Run exec init before t → Guarded ok before → good before t →
      ok before o r → exec t o = .ok (r, t') → answered before o r) :
    Guarded answered history := by
  induction h with
  | nil => exact guarded_nil
  | snoc hrun hexec ih =>
    obtain ⟨hbefore, hlast⟩ := guarded_snoc.mp hok
    obtain ⟨hgood', -⟩ := (throughout_snoc (hrun.snoc hexec)).mp hgood
    refine guarded_snoc.mpr ⟨ih hgood' hbefore, ?_⟩
    exact hstep _ _ _ _ _ hrun hbefore (hgood' _ [] _ (List.append_nil _).symm hrun) hlast hexec

/-! ### Order in a history -/

/-- `a` happens in the history, and `b` later. -/
def Precedes {α : Type} (a b : α) (history : List α) : Prop :=
  ∃ before after, history = before ++ b :: after ∧ a ∈ before

theorem precedes_snoc {a b c : α} {history : List α} :
    Precedes a b (history ++ [c]) ↔ Precedes a b history ∨ c = b ∧ a ∈ history := by
  constructor
  · rintro ⟨before, after, heq, ha⟩
    rcases List.eq_nil_or_concat after with rfl | ⟨after', x, rfl⟩
    · obtain ⟨rfl, hx⟩ := List.append_inj' heq rfl
      exact .inr ⟨List.singleton_inj.mp hx, ha⟩
    · rw [List.concat_eq_append, ← List.cons_append, ← List.append_assoc] at heq
      exact .inl ⟨before, after', (List.append_inj' heq rfl).1, ha⟩
  · rintro (⟨before, after, rfl, ha⟩ | ⟨rfl, ha⟩)
    · exact ⟨before, after ++ [c], by rw [List.append_assoc, List.cons_append], ha⟩
    · exact ⟨history, [], rfl, ha⟩

theorem Precedes.append {a b : α} {history : List α} (h : Precedes a b history) (later : List α) :
    Precedes a b (history ++ later) := by
  obtain ⟨before, after, rfl, ha⟩ := h
  exact ⟨before, after ++ later, by rw [List.append_assoc, List.cons_append], ha⟩

theorem Precedes.left_mem {a b : α} {history : List α} (h : Precedes a b history) : a ∈ history := by
  obtain ⟨before, after, rfl, ha⟩ := h
  exact List.mem_append_left _ ha

theorem Precedes.right_mem {a b : α} {history : List α} (h : Precedes a b history) : b ∈ history := by
  obtain ⟨before, after, rfl, -⟩ := h
  exact List.mem_append_right _ (List.mem_cons_self ..)

end MiniDB.Runs
