import Mathlib.Data.List.Basic
import MiniDB.Lib.Effect
import MiniDB.Lib.Paged

/-!
# Grammars and recursive descent

A language with values (`Lang`) is a relation between token lists and what they mean.  Languages are
composed like programs: `pure` is the empty text, `>>=` is concatenation, and there are single tokens,
alternatives and lists with separators.  They form a lawful monad, so two ways to write a grammar down
are compared by rewriting.

A parser is an action on the tokens that are left.  It reads no token before it has looked at its kind,
and every input ends with a token of a kind of its own (`Ended`), so that it should never run off the
end.  `Recognises C n K L p` says that it does not, and that it accepts exactly the texts of `L`: on an
input of at most `n` tokens whose first one has a kind in `C`, the parser `p` returns an error or takes
a text of `L` off the input, and it takes such a text whenever the token behind it has no kind in `K`.
There is one rule for each way to compose a parser.  What a language's texts start with (`Starts`,
`Opens`) decides what may stand behind another one.
-/

namespace MiniDB.Grammar

open Effect Paged
open Effect.Action (exec_bind post post_ok wp wp_bind wp_mono_post wp_of_exec)

/-- Tokens have kinds; tokens of one kind end the input. -/
class Tokens (τ : Type) (κ : outParam Type) where
  kind : τ → κ
  stop : κ

open Tokens

/-! ### Languages -/

/-- A language whose texts have values. -/
def Lang (τ α : Type) : Type := List τ → α → Prop

variable {τ κ ε α β : Type} {t : τ} {f : α → Lang τ β} {m : Nat}

instance : Monad (Lang τ) where
  pure a ts b := ts = [] ∧ b = a
  bind L f ts b := ∃ ts₁ a ts₂, ts = ts₁ ++ ts₂ ∧ L ts₁ a ∧ f a ts₂ b

namespace Lang

variable {L : Lang τ α} {S : List κ}

theorem ext {L' : Lang τ α} (h : ∀ ts a, L ts a ↔ L' ts a) : L = L' :=
  funext fun ts => funext fun a => propext (h ts a)

instance : LawfulMonad (Lang τ) := LawfulMonad.mk' (Lang τ)
  (by
    intro α L
    refine ext fun ts a => ⟨?_, fun h => ⟨ts, a, [], (List.append_nil ts).symm, h, rfl, rfl⟩⟩
    rintro ⟨ts₁, a', ts₂, rfl, h, rfl, rfl⟩
    rwa [List.append_nil])
  (by
    intro α β a f
    refine ext fun ts b => ⟨?_, fun h => ⟨[], a, ts, rfl, ⟨rfl, rfl⟩, h⟩⟩
    rintro ⟨ts₁, a', ts₂, rfl, ⟨rfl, rfl⟩, h⟩
    exact h)
  (by
    intro α β γ L f g
    refine ext fun ts c => ⟨?_, ?_⟩
    · rintro ⟨_, b, ts₃, rfl, ⟨ts₁, a, ts₂, rfl, ha, hb⟩, hc⟩
      exact ⟨ts₁, a, ts₂ ++ ts₃, List.append_assoc .., ha, ts₂, b, ts₃, rfl, hb, hc⟩
    · rintro ⟨ts₁, a, _, rfl, ha, ts₂, b, ts₃, rfl, hb, hc⟩
      exact ⟨ts₁ ++ ts₂, b, ts₃, (List.append_assoc ..).symm, ⟨ts₁, a, ts₂, rfl, ha, hb⟩, hc⟩)

/-- No text. -/
def never : Lang τ α := fun _ _ => False

/-- Alternatives. -/
def either (L L' : Lang τ α) : Lang τ α := fun ts a => L ts a ∨ L' ts a

/-- A text or nothing. -/
def opt (L : Lang τ α) : Lang τ (Option α) := either (some <$> L) (pure none)

@[simp] theorem never_either (L : Lang τ α) : either never L = L := ext fun _ _ => by simp [either, never]

@[simp] theorem either_never (L : Lang τ α) : either L never = L := ext fun _ _ => by simp [either, never]

theorem either_bind (L L' : Lang τ α) (f : α → Lang τ β) :
    either L L' >>= f = either (L >>= f) (L' >>= f) := by
  refine ext fun ts b => ⟨?_, ?_⟩
  · rintro ⟨ts₁, a, ts₂, rfl, h | h, hf⟩
    · exact .inl ⟨ts₁, a, ts₂, rfl, h, hf⟩
    · exact .inr ⟨ts₁, a, ts₂, rfl, h, hf⟩
  · rintro (⟨ts₁, a, ts₂, rfl, h, hf⟩ | ⟨ts₁, a, ts₂, rfl, h, hf⟩)
    · exact ⟨ts₁, a, ts₂, rfl, .inl h, hf⟩
    · exact ⟨ts₁, a, ts₂, rfl, .inr h, hf⟩

theorem opt_bind (L : Lang τ α) (f : Option α → Lang τ β) :
    opt L >>= f = either (L >>= fun a => f (some a)) (f none) := by
  rw [opt, either_bind, pure_bind, map_eq_pure_bind, bind_assoc]
  simp only [pure_bind]

variable [Tokens τ κ] {a a' : α} {ts : List τ} {S' : List κ}

/-- A token of the given kind, with the value it stands for. -/
def tokenOf (k : κ) (f : τ → Option α) : Lang τ α := fun ts a => ∃ t, ts = [t] ∧ kind t = k ∧ f t = some a

/-- A token of the given kind. -/
def token (k : κ) : Lang τ Unit := tokenOf k fun _ => some ()

/-- A token whose kind has a value. -/
def kindAs (f : κ → Option α) : Lang τ α := fun ts a => ∃ t, ts = [t] ∧ f (kind t) = some a

theorem tokenOf_bind_pure (k : κ) (f : τ → Option α) (g : α → β) :
    (tokenOf k f >>= fun a => pure (g a)) = tokenOf k fun t => (f t).map g := by
  refine ext fun ts b => ⟨?_, ?_⟩
  · rintro ⟨_, a, _, rfl, ⟨t, rfl, hk, ha⟩, rfl, rfl⟩
    exact ⟨t, rfl, hk, congrArg (Option.map g) ha⟩
  · rintro ⟨t, rfl, hk, hb⟩
    obtain ⟨a, ha, rfl⟩ := Option.map_eq_some_iff.mp hb
    exact ⟨[t], a, [], rfl, ⟨t, rfl, hk, ha⟩, rfl, rfl⟩

/-- One or more texts with a token between them. -/
inductive SepBy1 (L : Lang τ α) (k : κ) : List τ → List α → Prop
  | one {ts : List τ} {a : α} : L ts a → SepBy1 L k ts [a]
  | cons {ts ts' : List τ} {t : τ} {a : α} {as : List α} :
      L ts a → kind t = k → SepBy1 L k ts' as → SepBy1 L k (ts ++ t :: ts') (a :: as)

/-- The language of such lists. -/
def sepBy1 (L : Lang τ α) (k : κ) : Lang τ (List α) := SepBy1 L k

/-- Texts that are read from the left, each behind a token, with what they make of the value so far. -/
inductive Chain (L : Lang τ β) (k : κ) (f : α → β → α) : α → List τ → α → Prop
  | nil {a : α} : Chain L k f a [] a
  | cons {a a' : α} {b : β} {t : τ} {ts ts' : List τ} : kind t = k → L ts b →
      Chain L k f (f a b) ts' a' → Chain L k f a (t :: (ts ++ ts')) a'

/-- The language of what follows the first value. -/
def chain (L : Lang τ β) (k : κ) (f : α → β → α) (a : α) : Lang τ α := Chain L k f a

theorem Chain.snoc {L : Lang τ β} {k : κ} {f : α → β → α} (h : Chain L k f a ts a') {ts' : List τ}
    {b : β} (ht : kind t = k) (hb : L ts' b) : Chain L k f a (ts ++ t :: ts') (f a' b) := by
  induction h with
  | @nil a =>
    have hone : Chain L k f a (t :: (ts' ++ [])) (f a b) := .cons ht hb .nil
    rwa [List.append_nil] at hone
  | cons ht' hb' _ ih =>
    rw [List.cons_append, List.append_assoc]
    exact .cons ht' hb' ih

/-- What holds of the first value and is kept by each step holds of the whole. -/
theorem Chain.induct {L : Lang τ β} {k : κ} {f : α → β → α} {P : List τ → α → Prop}
    (hstep : ∀ ts a t ts' b, P ts a → kind t = k → L ts' b → P (ts ++ t :: ts') (f a b)) {ts₀ : List τ}
    (h : Chain L k f a ts a') (h₀ : P ts₀ a) : P (ts₀ ++ ts) a' := by
  induction h generalizing ts₀ with
  | nil => rwa [List.append_nil]
  | @cons a a' b t ts ts' ht hb _ ih =>
    have hone := ih (hstep ts₀ a t ts b h₀ ht hb)
    rwa [List.append_assoc, List.cons_append] at hone

/-! ### How texts start -/

/-- Every text starts with a token of one of these kinds. -/
def Starts (L : Lang τ α) (S : List κ) : Prop :=
  ∀ ts a, L ts a → ∃ t rest, ts = t :: rest ∧ kind t ∈ S

/-- Every text that is not empty starts with a token of one of these kinds. -/
def Opens (L : Lang τ α) (S : List κ) : Prop := ∀ ts a, L ts a → ∀ t ∈ ts.head?, kind t ∈ S

theorem starts_tokenOf (k : κ) (f : τ → Option α) : Starts (tokenOf k f) [k] := by
  rintro _ _ ⟨t, rfl, hk, -⟩
  exact ⟨t, [], rfl, List.mem_singleton.mpr hk⟩

theorem starts_token (k : κ) : Starts (token k : Lang τ Unit) [k] := starts_tokenOf k _

theorem starts_never (S : List κ) : Starts (never : Lang τ α) S := fun _ _ h => h.elim

theorem Starts.bind (h : Starts L S) (f : α → Lang τ β) :
    Starts (L >>= f) S := by
  rintro _ _ ⟨ts₁, a, ts₂, rfl, ha, -⟩
  obtain ⟨t, rest, rfl, ht⟩ := h _ _ ha
  exact ⟨t, rest ++ ts₂, rfl, ht⟩

theorem Starts.either {L' : Lang τ α} (h : Starts L S) (h' : Starts L' S') :
    Starts (either L L') (S ++ S') := by
  rintro ts a (ha | ha)
  · obtain ⟨t, rest, rfl, ht⟩ := h _ _ ha
    exact ⟨t, rest, rfl, List.mem_append_left _ ht⟩
  · obtain ⟨t, rest, rfl, ht⟩ := h' _ _ ha
    exact ⟨t, rest, rfl, List.mem_append_right _ ht⟩

theorem Starts.sepBy1 (h : Starts L S) (k : κ) : Starts (sepBy1 L k) S := by
  intro ts as hts
  cases hts with
  | one ha => exact h _ _ ha
  | cons ha =>
    obtain ⟨t, rest, rfl, ht⟩ := h _ _ ha
    exact ⟨t, _, rfl, ht⟩

theorem Starts.opens (h : Starts L S) : Opens L S := by
  intro ts a ha t ht
  obtain ⟨t', rest, rfl, hS⟩ := h _ _ ha
  cases ht
  exact hS

theorem opens_pure (a : α) : Opens (pure a : Lang τ α) ([] : List κ) := by
  rintro _ _ ⟨rfl, -⟩ t ht
  cases ht

theorem Opens.either {L' : Lang τ α} (h : Opens L S) (h' : Opens L' S') :
    Opens (either L L') (S ++ S') := by
  rintro ts a (ha | ha) t ht
  · exact List.mem_append_left _ (h _ _ ha t ht)
  · exact List.mem_append_right _ (h' _ _ ha t ht)

/-- What may be empty, and then the next text. -/
theorem Opens.bind (h : Opens L S) (hf : ∀ a, Opens (f a) S') : Opens (L >>= f) (S ++ S') := by
  rintro _ _ ⟨ts₁, a, ts₂, rfl, ha, hb⟩ t ht
  cases ts₁ with
  | nil => exact List.mem_append_right _ (hf a _ _ hb t ht)
  | cons => exact List.mem_append_left _ (h _ _ ha t ht)

/-! ### What texts are made of -/

/-- What the tokens of a text are marked with, one after the other, is in the relation `Q` to its
value. -/
def Marks {ν : Type} (mark : τ → List ν) (L : Lang τ α) (Q : List ν → α → Prop) : Prop :=
  ∀ ts a, L ts a → Q (ts.flatMap mark) a

section Marks

variable {ν : Type} {mark : τ → List ν} {L L' : Lang τ α} {P Q : List ν → α → Prop}
  {R : List ν → β → Prop}

theorem marks_pure (h : Q [] a) : Marks mark (pure a) Q := by
  rintro _ _ ⟨rfl, rfl⟩
  exact h

theorem Marks.bind (h : Marks mark L P)
    (hf : ∀ ns a, P ns a → Marks mark (f a) fun ns' b => R (ns ++ ns') b) : Marks mark (L >>= f) R := by
  rintro _ b ⟨ts₁, a, ts₂, rfl, ha, hb⟩
  rw [List.flatMap_append]
  exact hf _ a (h ts₁ a ha) ts₂ b hb

/-- A part without marks, and then another one. -/
theorem Marks.andThen (h : Marks mark L fun ns _ => ns = []) (hf : ∀ a, Marks mark (f a) R) :
    Marks mark (L >>= f) R := by
  refine h.bind fun ns a hns => ?_
  rw [hns]
  exact hf a

theorem Marks.map (h : Marks mark L P) (g : α → β) (hg : ∀ ns a, P ns a → R ns (g a)) :
    Marks mark (g <$> L) R := by
  rw [map_eq_pure_bind]
  refine h.bind fun ns a hns => marks_pure ?_
  rw [List.append_nil]
  exact hg ns a hns

theorem Marks.either (h : Marks mark L Q) (h' : Marks mark L' Q) : Marks mark (either L L') Q :=
  fun ts a ha => ha.elim (h ts a) (h' ts a)

theorem Marks.opt {Q : List ν → Option α → Prop} (h : Marks mark L P)
    (hsome : ∀ ns a, P ns a → Q ns (some a)) (hnone : Q [] none) : Marks mark (opt L) Q :=
  (h.map some hsome).either (marks_pure hnone)

theorem marks_tokenOf {k : κ} {f : τ → Option α} (h : ∀ t a, kind t = k → f t = some a → Q (mark t) a) :
    Marks mark (tokenOf k f) Q := by
  rintro _ a ⟨t, rfl, hk, ha⟩
  rw [List.flatMap_cons, List.flatMap_nil, List.append_nil]
  exact h t a hk ha

/-- Lists of texts, with separators that have no marks. -/
theorem Marks.sepBy1 {k : κ} {g : α → List ν} (h : Marks mark L fun ns a => ns = g a)
    (hk : ∀ t, kind t = k → mark t = []) :
    Marks mark (sepBy1 L k) fun ns as => ns = as.flatMap g := by
  intro ts as hts
  induction hts with
  | one ha =>
    rw [h _ _ ha]
    exact (List.flatMap_singleton ..).symm
  | cons ha ht _ ih => rw [List.flatMap_append, List.flatMap_cons, h _ _ ha, hk _ ht, ih]; rfl

end Marks

/-! ### The texts that start with a given kind -/

/-- The texts of a language that start with a token of that kind. -/
def headed (k : κ) (L : Lang τ α) : Lang τ α :=
  fun ts a => L ts a ∧ ∃ t rest, ts = t :: rest ∧ kind t = k

@[simp] theorem headed_either (k : κ) (L L' : Lang τ α) :
    headed k (either L L') = either (headed k L) (headed k L') :=
  ext fun _ _ => or_and_right

theorem headed_tokenOf_bind [DecidableEq κ] (k k' : κ) (f : τ → Option α) (g : α → Lang τ β) :
    headed k (tokenOf k' f >>= g) = if k = k' then tokenOf k' f >>= g else never := by
  refine ext fun ts b => ?_
  by_cases hk : k = k'
  · rw [if_pos hk]
    refine ⟨fun h => h.1, fun h => ⟨h, ?_⟩⟩
    obtain ⟨_, _, ts₂, rfl, ⟨t, rfl, ht, -⟩, -⟩ := h
    exact ⟨t, ts₂, rfl, ht.trans hk.symm⟩
  · rw [if_neg hk]
    refine ⟨?_, False.elim⟩
    rintro ⟨⟨_, _, ts₂, rfl, ⟨t, rfl, ht, -⟩, -⟩, t', rest, heq, ht'⟩
    cases heq
    exact hk (ht'.symm.trans ht)

@[simp] theorem headed_token_bind [DecidableEq κ] (k k' : κ) (g : Unit → Lang τ β) :
    headed k (token k' >>= g) = if k = k' then token k' >>= g else never :=
  headed_tokenOf_bind k k' _ g

end Lang

/-! ### Parsers -/

/-- A parser acts on the tokens that are left. -/
abbrev Parser (ε τ : Type) : Type → Type := Action Fault ε (List τ)

namespace Parser

/-- The next token, which stays. -/
def peek : Parser ε τ τ := do
  match ← get with
  | [] => Action.die .outOfBounds
  | t :: _ => return t

/-- The next token, which is taken. -/
def advance : Parser ε τ τ := do
  match ← get with
  | [] => Action.die .outOfBounds
  | t :: rest =>
    set rest
    return t

@[simp] theorem exec_peek (t : τ) (rest : List τ) :
    (peek : Parser ε τ τ).exec (t :: rest) = .ok (.ok t, t :: rest) := rfl

@[simp] theorem exec_advance (t : τ) (rest : List τ) :
    (advance : Parser ε τ τ).exec (t :: rest) = .ok (.ok t, rest) := rfl

variable [Tokens τ κ] [DecidableEq κ]

/-- Is the next token of that kind? -/
def check (k : κ) : Parser ε τ Bool := do
  let t ← peek
  return decide (kind t = k)

/-- Take the next token if it is of that kind. -/
def matchToken (k : κ) : Parser ε τ Bool := do
  if ← check k then
    let _ ← advance
    return true
  else
    return false

/-- Take the next token, which must be of that kind. -/
def require (k : κ) (err : τ → ε) : Parser ε τ τ := do
  if ← check k then
    advance
  else
    let t ← peek
    throw (err t)

/-- The loop `do .. while (Match(k))`. -/
def sepLoop (k : κ) (item : Parser ε τ α) : Nat → Parser ε τ (List α)
  | 0 => Action.die .noFuel
  | fuel + 1 => do
    let a ← item
    if ← matchToken k then
      let as ← sepLoop k item fuel
      return a :: as
    else
      return [a]

/-- The loop `while (Match(k))` with an accumulator. -/
def chainLoop (k : κ) (f : α → β → α) (operand : Parser ε τ β) : Nat → α → Parser ε τ α
  | 0, _ => Action.die .noFuel
  | fuel + 1, a => do
    if ← matchToken k then
      let b ← operand
      chainLoop k f operand fuel (f a b)
    else
      return a

/-- The number of rounds a loop can make on what is left. -/
def rounds : Parser ε τ Nat := do
  let toks ← get
  return toks.length + 1

@[simp] theorem exec_check (k : κ) (t : τ) (rest : List τ) :
    (check k : Parser ε τ Bool).exec (t :: rest) = .ok (.ok (decide (kind t = k)), t :: rest) := rfl

theorem exec_matchToken_pos {k : κ} (ht : kind t = k) (rest : List τ) :
    (matchToken k : Parser ε τ Bool).exec (t :: rest) = .ok (.ok true, rest) := by
  rw [matchToken, exec_bind, exec_check, decide_eq_true ht]
  rfl

theorem exec_matchToken_neg {k : κ} (ht : kind t ≠ k) (rest : List τ) :
    (matchToken k : Parser ε τ Bool).exec (t :: rest) = .ok (.ok false, t :: rest) := by
  rw [matchToken, exec_bind, exec_check, decide_eq_false ht]
  rfl

end Parser

/-! ### What parsers recognise -/

section Recognises

variable [Tokens τ κ]

/-- The input ends with the only token of its kind. -/
def Ended (toks : List τ) : Prop :=
  ∃ body e, toks = body ++ [e] ∧ kind e = stop τ ∧ ∀ t ∈ body, kind t ≠ stop τ

theorem Ended.exists_cons {toks : List τ} (h : Ended toks) : ∃ t rest, toks = t :: rest := by
  obtain ⟨body, e, rfl, -⟩ := h
  exact List.exists_cons_of_ne_nil (by simp)

variable {rest : List τ}

/-- There is more behind a token that does not end the input. -/
theorem Ended.tail (h : Ended (t :: rest)) (ht : kind t ≠ stop τ) : Ended rest := by
  obtain ⟨body, e, heq, he, hbody⟩ := h
  cases body with
  | nil =>
    cases heq
    exact absurd he ht
  | cons b body =>
    cases heq
    exact ⟨body, e, rfl, he, fun t ht => hbody t (List.mem_cons_of_mem _ ht)⟩

/-- Nothing is behind the token that ends the input. -/
theorem Ended.eq_nil (h : Ended (t :: rest)) (ht : kind t = stop τ) : rest = [] := by
  obtain ⟨body, e, heq, he, hbody⟩ := h
  cases body with
  | nil =>
    cases heq
    rfl
  | cons b body =>
    cases heq
    exact absurd ht (hbody t (List.mem_cons_self ..))

/-- A token follows, of none of these kinds. -/
def Follow (K : List κ) (rest : List τ) : Prop := ∃ t rest', rest = t :: rest' ∧ kind t ∉ K

theorem Follow.mono {K K' : List κ} (h : Follow K' rest) (hsub : K ⊆ K') :
    Follow K rest := by
  obtain ⟨t, rest', rfl, ht⟩ := h
  exact ⟨t, rest', rfl, fun hmem => ht (hsub hmem)⟩

/-- There is a token at the start of what a text and its follower make up. -/
theorem Follow.exists_cons {K : List κ} (h : Follow K rest) (ts : List τ) :
    ∃ t rest', ts ++ rest = t :: rest' := by
  obtain ⟨t, rest', rfl, -⟩ := h
  exact List.exists_cons_of_ne_nil (by simp)

/-- The first token has a kind in `C`. -/
def Head (C : κ → Prop) (toks : List τ) : Prop := ∀ t ∈ toks.head?, C (kind t)

theorem Head.cons {C : κ → Prop} (h : C (kind t)) (rest : List τ) : Head C (t :: rest) := by
  intro t' ht'
  cases ht'
  exact h

theorem Head.at (t : τ) (rest : List τ) : Head (fun k => k = kind t) (t :: rest) :=
  Head.cons (C := fun k => k = kind t) rfl rest

/-- What a parser does: see the introduction. -/
structure Recognises (C : κ → Prop) (n : Nat) (K : List κ) (L : Lang τ α) (p : Parser ε τ α) :
    Prop where
  sound : ∀ toks, Ended toks → toks.length ≤ n → Head C toks → wp (fun _ => False) p
    (post (fun a rest => Ended rest ∧ ∃ ts, toks = ts ++ rest ∧ L ts a) fun _ _ => True) toks
  complete : ∀ ts rest a, (ts ++ rest).length ≤ n → Head C (ts ++ rest) → L ts a → Follow K rest →
    p.exec (ts ++ rest) = .ok (.ok a, rest)

namespace Recognises

open Lang Grammar.Parser

variable {C C' : κ → Prop} {n : Nat} {K K' : List κ} {L L' : Lang τ α} {p q : Parser ε τ α}
  {g : α → Parser ε τ β} {K₁ : List κ}

/-- There is no input without tokens. -/
theorem zero : Recognises C 0 K L p where
  sound toks hend hlen := by
    obtain ⟨t, rest, rfl⟩ := hend.exists_cons
    simp at hlen
  complete ts rest a hlen _ _ hrest := by
    obtain ⟨t, rest', rfl, -⟩ := hrest
    simp at hlen

/-- The texts of a larger language that can stand here are those of the smaller one. -/
theorem widen (h : Recognises C n K L p) (hsub : ∀ ts a, L ts a → L' ts a)
    (hof : ∀ ts rest a, Head C (ts ++ rest) → Follow K rest → L' ts a → L ts a) :
    Recognises C n K L' p where
  sound toks hend hlen hhead := by
    refine wp_mono_post ?_ (fun _ _ _ => trivial) (h.sound toks hend hlen hhead)
    rintro a rest ⟨hrest, ts, rfl, ha⟩
    exact ⟨hrest, ts, rfl, hsub ts a ha⟩
  complete ts rest a hlen hhead ha hrest :=
    h.complete ts rest a hlen hhead (hof ts rest a hhead hrest ha) hrest

/-- Stronger conditions. -/
theorem mono (h : Recognises C n K L p) (hm : m ≤ n) (hC : ∀ k, C' k → C k) (hK : K ⊆ K') :
    Recognises C' m K' L p where
  sound toks hend hlen hhead :=
    h.sound toks hend (Nat.le_trans hlen hm) fun t ht => hC _ (hhead t ht)
  complete ts rest a hlen hhead ha hrest :=
    h.complete ts rest a (Nat.le_trans hlen hm) (fun t ht => hC _ (hhead t ht)) ha (hrest.mono hK)

theorem le (h : Recognises C n K L p) (hm : m ≤ n) : Recognises C m K L p :=
  h.mono hm (fun _ h => h) (List.Subset.refl K)

theorem follow (h : Recognises C n K L p) (hK : K ⊆ K') : Recognises C n K' L p :=
  h.mono (Nat.le_refl n) (fun _ h => h) hK

theorem when (h : Recognises C n K L p) (hC : ∀ k, C' k → C k) : Recognises C' n K L p :=
  h.mono (Nat.le_refl n) hC (List.Subset.refl K)

theorem pure (a : α) : Recognises (ε := ε) C n K (Pure.pure a : Lang τ α) (Pure.pure a) where
  sound toks hend _ _ := ⟨hend, [], rfl, rfl, rfl⟩
  complete := by
    rintro _ rest _ - - ⟨rfl, rfl⟩ -
    rfl

/-- An error. -/
theorem throw (e : ε) : Recognises C n K never (MonadExcept.throw e : Parser ε τ α) where
  sound _ _ _ _ := trivial
  complete _ _ _ _ _ ha _ := ha.elim

/-- One parser after the other. -/
theorem bind (hp : Recognises C n K₁ L p) (hg : ∀ a, Recognises (fun _ => True) n K (f a) (g a))
    (hlink : ∀ a ts b rest, f a ts b → Follow K rest → Follow K₁ (ts ++ rest)) :
    Recognises C n K (L >>= f) (p >>= g) where
  sound toks hend hlen hhead := by
    rw [wp_bind]
    refine wp_mono_post ?_ (fun _ _ _ => trivial) (hp.sound toks hend hlen hhead)
    rintro a rest ⟨hrest, ts, rfl, ha⟩
    rw [List.length_append] at hlen
    refine wp_mono_post ?_ (fun _ _ _ => trivial)
      ((hg a).sound rest hrest (by omega) fun _ _ => trivial)
    rintro b rest' ⟨hrest', ts', rfl, hb⟩
    exact ⟨hrest', ts ++ ts', (List.append_assoc ..).symm, ts, a, ts', rfl, ha, hb⟩
  complete := by
    rintro _ rest b hlen hhead ⟨ts₁, a, ts₂, rfl, ha, hb⟩ hrest
    rw [List.append_assoc] at hlen hhead ⊢
    rw [exec_bind, hp.complete ts₁ (ts₂ ++ rest) a hlen hhead ha (hlink a ts₂ b rest hb hrest)]
    rw [List.length_append] at hlen
    exact (hg a).complete ts₂ rest b (by omega) (fun _ _ => trivial) hb hrest

/-- One parser after another that does not care what follows. -/
theorem andThen (hp : Recognises C n [] L p) (hg : ∀ a, Recognises (fun _ => True) n K (f a) (g a)) :
    Recognises C n K (L >>= f) (p >>= g) := by
  refine hp.bind hg fun a ts b rest _ hrest => ?_
  obtain ⟨t, rest', heq⟩ := hrest.exists_cons ts
  exact ⟨t, rest', heq, List.not_mem_nil⟩

/-- One parser after another that stops where the next text starts. -/
theorem before {S : List κ} (hp : Recognises C n K₁ L p)
    (hg : ∀ a, Recognises (fun _ => True) n K (f a) (g a)) (hstarts : ∀ a, (f a).Starts S)
    (hdisjoint : ∀ k ∈ S, k ∉ K₁) : Recognises C n K (L >>= f) (p >>= g) := by
  refine hp.bind hg fun a ts b rest hb _ => ?_
  obtain ⟨t, ts', rfl, ht⟩ := hstarts a ts b hb
  exact ⟨t, ts' ++ rest, rfl, hdisjoint _ ht⟩

/-- The same when the next text may be empty. -/
theorem beforeOpt {S : List κ} (hp : Recognises C n K₁ L p)
    (hg : ∀ a, Recognises (fun _ => True) n K (f a) (g a)) (hopens : ∀ a, (f a).Opens S)
    (hdisjoint : ∀ k ∈ S, k ∉ K₁) (hsub : K₁ ⊆ K) : Recognises C n K (L >>= f) (p >>= g) := by
  refine hp.bind hg fun a ts b rest hb hrest => ?_
  cases ts with
  | nil => exact hrest.mono hsub
  | cons t ts => exact ⟨t, _, rfl, hdisjoint _ (hopens a _ _ hb t rfl)⟩

/-- What has been read is made into a value. -/
theorem map (hp : Recognises C n K L p) (f : α → β) :
    Recognises C n K (L >>= fun a => Pure.pure (f a)) (p >>= fun a => Pure.pure (f a)) := by
  refine hp.bind (fun a => .pure (f a)) ?_
  rintro a _ b rest ⟨rfl, -⟩ hrest
  exact hrest

end Recognises

end Recognises

/-! ### Tokens and branches -/

namespace Recognises

open Lang Grammar.Parser

variable [Tokens τ κ] [DecidableEq κ] {C : κ → Prop} {n : Nat} {k : κ} {K S : List κ}
  {L L' : Lang τ α} {p q : Parser ε τ α} {fuel : Nat}

/-- `if (Check(k))`. -/
theorem check (hp : Recognises (fun k' => k' = k ∧ C k') n K L p)
    (hq : Recognises (fun k' => k' ≠ k ∧ C k') n K L q) :
    Recognises C n K L (do if ← Parser.check k then p else q) where
  sound toks hend hlen hhead := by
    obtain ⟨t, rest, rfl⟩ := hend.exists_cons
    rw [wp_bind]
    refine wp_of_exec (exec_check k t rest) ?_
    by_cases hk : kind t = k
    · simp only [hk, decide_true, post_ok, if_true]
      exact hp.sound _ hend hlen (.cons ⟨hk, hhead t rfl⟩ rest)
    · simp only [hk, decide_false, post_ok, Bool.false_eq_true, if_false]
      exact hq.sound _ hend hlen (.cons ⟨hk, hhead t rfl⟩ rest)
  complete ts rest a hlen hhead ha hrest := by
    obtain ⟨t, rest', heq⟩ := hrest.exists_cons ts
    have hC : C (kind t) := hhead t (by rw [heq]; rfl)
    rw [exec_bind, heq, exec_check]
    by_cases hk : kind t = k
    · simp only [hk, decide_true, if_true]
      rw [← heq]
      exact hp.complete ts rest a hlen (heq ▸ .cons ⟨hk, hC⟩ rest') ha hrest
    · simp only [hk, decide_false, Bool.false_eq_true, if_false]
      rw [← heq]
      exact hq.complete ts rest a hlen (heq ▸ .cons ⟨hk, hC⟩ rest') ha hrest

/-- `if (Check(k))` between texts that start with such a token and texts that do not. -/
theorem checkOr (hp : Recognises (fun k' => k' = k) n K L p)
    (hq : Recognises (fun k' => k' ≠ k) n K L' q) (hL : L.Starts [k]) (hL' : L'.Starts S)
    (hS : k ∉ S) : Recognises C n K (either L L') (do if ← Parser.check k then p else q) := by
  refine check ((hp.when fun _ h => h.1).widen (fun _ _ h => .inl h) ?_)
    ((hq.when fun _ h => h.1).widen (fun _ _ h => .inr h) ?_)
  · rintro ts rest a hhead - (ha | ha)
    · exact ha
    · obtain ⟨t, ts', rfl, ht⟩ := hL' _ _ ha
      exact absurd ((hhead t rfl).1 ▸ ht) hS
  · rintro ts rest a hhead - (ha | ha)
    · obtain ⟨t, ts', rfl, ht⟩ := hL _ _ ha
      exact absurd (List.mem_singleton.mp ht) (hhead t rfl).1
    · exact ha

/-- `if (Check(k))` before a part that may be left out. -/
theorem checkOpt (hp : Recognises (fun k' => k' = k) n K L p) (hL : L.Starts [k]) (a : α) (hK : k ∈ K) :
    Recognises C n K (either L (Pure.pure a)) (do if ← Parser.check k then p else Pure.pure a) := by
  refine check ((hp.when fun _ h => h.1).widen (fun _ _ h => .inl h) ?_)
    ((pure a).widen (fun _ _ h => .inr h) ?_)
  · rintro ts rest b hhead hrest (hb | ⟨rfl, -⟩)
    · exact hb
    · obtain ⟨t, rest', rfl, ht⟩ := hrest
      exact absurd ((hhead t rfl).1 ▸ hK) ht
  · rintro ts rest b hhead - (hb | hb)
    · obtain ⟨t, ts', rfl, ht⟩ := hL _ _ hb
      exact absurd (List.mem_singleton.mp ht) (hhead t rfl).1
    · exact hb

omit [DecidableEq κ] in
/-- A branch on the kind of the next token. -/
theorem peek {f : τ → Parser ε τ α}
    (h : ∀ t, C (kind t) → Recognises (fun k => k = kind t) n K L (f t)) :
    Recognises C n K L (Parser.peek >>= f) where
  sound toks hend hlen hhead := by
    obtain ⟨t, rest, rfl⟩ := hend.exists_cons
    rw [wp_bind]
    refine wp_of_exec (exec_peek t rest) ?_
    exact (h t (hhead t rfl)).sound _ hend hlen (Head.at t rest)
  complete ts rest a hlen hhead ha hrest := by
    obtain ⟨t, rest', heq⟩ := hrest.exists_cons ts
    have hC : C (kind t) := hhead t (by rw [heq]; rfl)
    rw [exec_bind, heq, exec_peek]
    rw [← heq]
    exact (h t hC).complete ts rest a hlen (heq ▸ Head.at t rest') ha hrest

omit [DecidableEq κ] in
/-- A `switch` on the kind of the next token: each case has the texts that start with it. -/
theorem switch {f : τ → Parser ε τ α} (hstarts : L.Starts S)
    (h : ∀ t, Recognises (fun k => k = kind t) n K (headed (kind t) L) (f t)) :
    Recognises C n K L (Parser.peek >>= f) := by
  refine peek fun t _ => (h t).widen (fun _ _ ha => ha.1) fun ts rest a hhead _ ha => ⟨ha, ?_⟩
  obtain ⟨t', ts', rfl, -⟩ := hstarts _ _ ha
  exact ⟨t', ts', rfl, hhead t' rfl⟩

omit [DecidableEq κ] in
/-- A token that is known to be there, taken as the value it stands for. -/
theorem advanceAs {f : τ → Option α} {g : τ → Except ε α} (hk : k ≠ stop τ)
    (hg : ∀ t a, g t = .ok a ↔ f t = some a) :
    Recognises (fun k' => k' = k) n K (tokenOf k f)
      (do let t ← Parser.advance; Action.ofResult (g t)) where
  sound toks hend hlen hhead := by
    obtain ⟨t, rest, rfl⟩ := hend.exists_cons
    have ht : kind t = k := hhead t rfl
    rw [wp_bind]
    refine wp_of_exec (exec_advance t rest) ?_
    rw [post_ok, Action.wp_ofResult]
    cases hgt : g t with
    | error e => trivial
    | ok a => exact ⟨hend.tail (ht ▸ hk), [t], rfl, t, rfl, ht, (hg t a).mp hgt⟩
  complete := by
    rintro _ rest a - - ⟨t, rfl, -, hf⟩ -
    rw [exec_bind, List.singleton_append, exec_advance]
    dsimp only
    rw [Action.exec_ofResult, (hg t a).mpr hf]

omit [DecidableEq κ] in
/-- A token that is known to be there, passed over. -/
theorem advance (hk : k ≠ stop τ) (hp : Recognises (fun _ => True) n K L p) :
    Recognises (fun k' => k' = k) n K (token k >>= fun _ => L) (do let _ ← Parser.advance; p) := by
  have hskip : Recognises (fun k' => k' = k) n [] (token k)
      (do let _ ← Parser.advance; Action.ofResult (.ok ()) : Parser ε τ Unit) :=
    advanceAs hk fun _ _ => by simp
  have hboth := hskip.andThen fun _ => hp
  rwa [bind_assoc] at hboth

omit [DecidableEq κ] in
/-- A token whose kind has a value, or a text that starts otherwise. -/
theorem peekAs {h : κ → Option β} {F : β → Lang τ α} {g : β → Parser ε τ α} {f : τ → Parser ε τ α}
    (hsome : ∀ t b, h (kind t) = some b → f t = do let _ ← Parser.advance; g b)
    (hnone : ∀ t, h (kind t) = none → f t = q) (hstop : h (stop τ) = none)
    (hg : ∀ b, Recognises (fun _ => True) n K (F b) (g b))
    (hq : Recognises (fun k => h k = none) n K L' q) (hopens : L'.Opens S) (hS : ∀ k ∈ S, h k = none)
    (hK : (∃ a, L' [] a) → ∀ k b, h k = some b → k ∈ K) :
    Recognises C n K (either (kindAs h >>= F) L') (Parser.peek >>= f) := by
  refine peek fun t _ => ?_
  cases hkind : h (kind t) with
  | some b =>
    rw [hsome t b hkind]
    have hadvance : Recognises (fun k => k = kind t) n K (token (kind t) >>= fun _ => F b)
        (do let _ ← Parser.advance; g b) :=
      advance (fun heq => by rw [heq, hstop] at hkind; cases hkind) (hg b)
    refine hadvance.widen ?_ ?_
    · rintro _ a ⟨_, _, ts, rfl, ⟨t', rfl, ht', -⟩, ha⟩
      exact .inl ⟨[t'], b, ts, rfl, ⟨t', rfl, ht' ▸ hkind⟩, ha⟩
    · rintro ts rest a hhead hrest (⟨_, b', ts, rfl, ⟨t', rfl, hb'⟩, ha⟩ | ha)
      · have ht' : kind t' = kind t := hhead t' rfl
        have hb : b = b' := Option.some.inj (hkind.symm.trans (ht' ▸ hb'))
        exact ⟨[t'], (), ts, rfl, ⟨t', rfl, ht', rfl⟩, hb ▸ ha⟩
      · cases ts with
        | nil =>
          obtain ⟨t', rest', rfl, ht'⟩ := hrest
          have heq : kind t' = kind t := hhead t' rfl
          exact absurd (hK ⟨a, ha⟩ _ b (heq ▸ hkind)) ht'
        | cons t' ts =>
          have heq : kind t' = kind t := hhead t' rfl
          have hnone := hS _ (hopens _ _ ha t' rfl)
          rw [heq, hkind] at hnone
          cases hnone
  | none =>
    rw [hnone t hkind]
    have hq' : Recognises (fun k => k = kind t) n K L' q := hq.when fun k hk => hk ▸ hkind
    refine hq'.widen (fun _ _ ha => .inr ha) ?_
    rintro ts rest a hhead - (⟨_, b', ts, rfl, ⟨t', rfl, hb'⟩, -⟩ | ha)
    · rw [show kind t' = kind t from hhead t' rfl, hkind] at hb'
      cases hb'
    · exact ha

/-- A token that has to be there. -/
theorem require (hk : k ≠ stop τ) (err : τ → ε) :
    Recognises C n K (tokenOf k some) (Parser.require k err) := by
  have hadvance : Recognises (fun k' => k' = k) n K (tokenOf k some)
      (do let t ← Parser.advance; Action.ofResult (.ok t) : Parser ε τ τ) :=
    advanceAs hk fun _ _ => by simp
  have hsame : (do let t ← Parser.advance; Action.ofResult (.ok t) : Parser ε τ τ) = Parser.advance :=
    bind_pure _
  rw [hsame] at hadvance
  refine check ?_ (peek fun t ht => (throw (err t)).widen (fun _ _ h => h.elim) ?_)
  · exact hadvance.when fun _ h => h.1
  · rintro _ rest t' hhead - ⟨_, rfl, rfl, -⟩
    exact ht.1 (hhead _ rfl).symm

/-- `if (Match(k))`: behind the token, or without it. -/
theorem matchToken (hk : k ≠ stop τ) (hp : Recognises (fun _ => True) n K L p)
    (hq : Recognises (fun k' => k' ≠ k ∧ C k') (n + 1) K L' q)
    (hopens : L'.Opens S) (hS : k ∉ S) (hK : (∃ a, L' [] a) → k ∈ K) :
    Recognises C (n + 1) K (either (token k >>= fun _ => L) L')
      (do if ← Parser.matchToken k then p else q) where
  sound toks hend hlen hhead := by
    obtain ⟨t, rest, rfl⟩ := hend.exists_cons
    rw [wp_bind]
    by_cases ht : kind t = k
    · refine wp_of_exec (exec_matchToken_pos ht rest) ?_
      rw [post_ok, if_pos rfl]
      rw [List.length_cons] at hlen
      refine wp_mono_post ?_ (fun _ _ _ => trivial)
        (hp.sound rest (hend.tail (ht ▸ hk)) (by omega) fun _ _ => trivial)
      rintro a rest' ⟨hrest', ts, rfl, ha⟩
      exact ⟨hrest', t :: ts, rfl, .inl ⟨[t], (), ts, rfl, ⟨t, rfl, ht, rfl⟩, ha⟩⟩
    · refine wp_of_exec (exec_matchToken_neg ht rest) ?_
      rw [post_ok, if_neg Bool.false_ne_true]
      refine wp_mono_post ?_ (fun _ _ _ => trivial)
        (hq.sound (t :: rest) hend hlen (.cons ⟨ht, hhead t rfl⟩ rest))
      rintro a rest' ⟨hrest', ts, hts, ha⟩
      exact ⟨hrest', ts, hts, .inr ha⟩
  complete := by
    rintro ts rest a hlen hhead (⟨_, _, ts, rfl, ⟨t, rfl, ht, -⟩, ha⟩ | ha) hrest
    · rw [List.singleton_append, List.cons_append] at hlen ⊢
      rw [exec_bind, exec_matchToken_pos ht]
      rw [List.length_cons] at hlen
      exact hp.complete ts rest a (by omega) (fun _ _ => trivial) ha hrest
    · obtain ⟨t, rest', heq, ht⟩ : ∃ t rest', ts ++ rest = t :: rest' ∧ kind t ≠ k := by
        cases ts with
        | nil =>
          obtain ⟨t, rest', rfl, ht⟩ := hrest
          exact ⟨t, rest', rfl, fun heq => ht (heq ▸ hK ⟨a, ha⟩)⟩
        | cons t ts => exact ⟨t, _, rfl, fun heq => hS (heq ▸ hopens _ _ ha t rfl)⟩
      have hC : C (kind t) := hhead t (by rw [heq]; rfl)
      rw [exec_bind, heq, exec_matchToken_neg ht, ← heq]
      exact hq.complete ts rest a hlen (heq ▸ .cons ⟨ht, hC⟩ rest') ha hrest

/-- `if (Match(k))` between texts that start with such a token and texts that do not. -/
theorem matchOr (hk : k ≠ stop τ) (hp : Recognises (fun _ => True) n K L p)
    (hq : Recognises (fun k' => k' ≠ k) n K L' q) (hL' : L'.Starts S) (hS : k ∉ S) :
    Recognises C n K (either (token k >>= fun _ => L) L')
      (do if ← Parser.matchToken k then p else q) := by
  cases n with
  | zero => exact zero
  | succ n =>
    refine matchToken hk (hp.le (Nat.le_succ n)) (hq.when fun _ h => h.1) hL'.opens hS ?_
    rintro ⟨a, ha⟩
    obtain ⟨t, rest, heq, -⟩ := hL' _ _ ha
    cases heq

/-- `if (Match(k))` before a part that may be left out. -/
theorem matchOpt (hk : k ≠ stop τ) (hp : Recognises (fun _ => True) n K L p) (a : α) (hK : k ∈ K) :
    Recognises C n K (either (token k >>= fun _ => L) (Pure.pure a))
      (do if ← Parser.matchToken k then p else Pure.pure a) := by
  cases n with
  | zero => exact zero
  | succ n =>
    exact matchToken hk (hp.le (Nat.le_succ n)) (.pure a) (opens_pure a) List.not_mem_nil fun _ => hK

/-! ### Loops -/

/-- `do .. while (Match(k))`. -/
theorem sepLoop (hk : k ≠ stop τ) (hitem : Recognises (fun _ => True) n K L p) (hK : k ∉ K) (hm : m ≤ n)
    (hfuel : m < fuel) :
    Recognises (fun _ => True) m (k :: K) (sepBy1 L k) (Parser.sepLoop k p fuel) := by
  induction fuel generalizing m with
  | zero => omega
  | succ fuel ih =>
    cases m with
    | zero => exact zero
    | succ m =>
      have hrest : ∀ a, Recognises (fun _ => True) (m + 1) (k :: K)
          (either (token k >>= fun _ => sepBy1 L k >>= fun as => Pure.pure (a :: as)) (Pure.pure [a]))
          (do if ← Parser.matchToken k then do
                let as ← Parser.sepLoop k p fuel
                return a :: as
              else return [a] : Parser ε τ (List α)) := fun a =>
        matchToken hk ((ih (by omega) (by omega)).map _) (.pure _) (opens_pure _) List.not_mem_nil
          fun _ => List.mem_cons_self ..
      have hround := (hitem.le hm).bind hrest ?_
      · refine hround.widen ?_ fun ts _ as _ _ h => ?_
        · rintro _ as ⟨ts₁, a, _, rfl, ha, ⟨_, _, _, rfl, ⟨t, rfl, ht, -⟩, ts₂, as', _, rfl, has, rfl, rfl⟩ |
            ⟨rfl, rfl⟩⟩
          · rw [List.append_nil]
            exact .cons ha ht has
          · rw [List.append_nil]
            exact .one ha
        · cases h with
          | one ha => exact ⟨_, _, [], (List.append_nil _).symm, ha, .inr ⟨rfl, rfl⟩⟩
          | @cons ts ts' t a as ha ht has =>
            exact ⟨ts, a, t :: ts', rfl, ha, .inl ⟨[t], (), ts', rfl, ⟨t, rfl, ht, rfl⟩, ts', as, [],
              (List.append_nil _).symm, has, rfl, rfl⟩⟩
      · rintro a ts _ rest (⟨_, _, _, rfl, ⟨t, rfl, ht, -⟩, -⟩ | ⟨rfl, -⟩) hfollow
        · exact ⟨t, _, rfl, ht ▸ hK⟩
        · exact hfollow.mono (List.subset_cons_self k K)

/-- `while (Match(k))`. -/
theorem chainLoop {P : Lang τ β} {r : Parser ε τ β} {f : α → β → α} (hk : k ≠ stop τ)
    (hoperand : Recognises (fun _ => True) n K P r) (hK : k ∉ K) (hm : m ≤ n) (hfuel : m < fuel) (a : α) :
    Recognises (fun _ => True) m (k :: K) (chain P k f a) (Parser.chainLoop k f r fuel a) := by
  induction fuel generalizing m a with
  | zero => omega
  | succ fuel ih =>
    cases m with
    | zero => exact zero
    | succ m =>
      have hround : Recognises (fun _ => True) m (k :: K) (P >>= fun b => chain P k f (f a b))
          (r >>= fun b => Parser.chainLoop k f r fuel (f a b)) := by
        refine (hoperand.le (by omega)).bind (fun b => ih (by omega) (by omega) (f a b)) ?_
        rintro b ts _ rest (_ | ⟨ht, -, -⟩) hfollow
        · exact hfollow.mono (List.subset_cons_self k K)
        · exact ⟨_, _, rfl, ht ▸ hK⟩
      refine (matchToken hk hround (.pure a) (opens_pure a) List.not_mem_nil
        fun _ => List.mem_cons_self ..).widen ?_ fun ts _ a' _ _ h => ?_
      · rintro _ a' (⟨_, _, _, rfl, ⟨t, rfl, ht, -⟩, ts₁, b, ts₂, rfl, hb, hchain⟩ | ⟨rfl, rfl⟩)
        · show Chain P k f a (t :: (ts₁ ++ ts₂)) a'
          exact .cons ht hb hchain
        · exact .nil
      · cases h with
        | nil => exact .inr ⟨rfl, rfl⟩
        | @cons _ _ b t ts ts' ht hb hchain =>
          exact .inl ⟨[t], (), ts ++ ts', rfl, ⟨t, rfl, ht, rfl⟩, ts, b, ts', rfl, hb, hchain⟩

omit [DecidableEq κ] in
/-- A loop that is given as many rounds as there are tokens. -/
theorem rounds {f : Nat → Parser ε τ α}
    (h : ∀ m, m ≤ n → Recognises (fun _ => True) m K L (f (m + 1))) :
    Recognises C n K L (Parser.rounds >>= f) where
  sound toks hend hlen _ :=
    (h toks.length hlen).sound toks hend (Nat.le_refl _) fun _ _ => trivial
  complete ts rest a hlen _ ha hrest :=
    (h (ts ++ rest).length hlen).complete ts rest a (Nat.le_refl _) (fun _ _ => trivial) ha hrest

/-- A list with separators. -/
theorem list (hk : k ≠ stop τ) (hitem : Recognises (fun _ => True) n K L p) (hK : k ∉ K) :
    Recognises C n (k :: K) (sepBy1 L k) (Parser.rounds >>= Parser.sepLoop k p) :=
  rounds fun m hm => sepLoop hk hitem hK hm (Nat.lt_succ_self m)

/-- Operands with a left-associative operator between them. -/
theorem leftAssoc {f : α → α → α} (hk : k ≠ stop τ) (hp : ∀ C, Recognises C n K L p) (hK : k ∉ K) :
    Recognises C n (k :: K) (L >>= chain L k f)
      (do
        let left ← p
        let rounds ← Parser.rounds
        Parser.chainLoop k f p rounds left) := by
  refine (hp C).bind
    (fun a => rounds fun m hm => chainLoop hk (hp _) hK hm (Nat.lt_succ_self m) a) ?_
  rintro a _ _ rest (_ | ⟨ht, -, -⟩) hrest
  · exact hrest.mono (List.subset_cons_self k K)
  · exact ⟨_, _, rfl, ht ▸ hK⟩

end Recognises

end MiniDB.Grammar
