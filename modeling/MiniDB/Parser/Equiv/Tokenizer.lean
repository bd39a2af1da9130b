import Mathlib.Data.List.Basic
import Mathlib.Data.List.TakeWhile
import Mathlib.Tactic.SplitIfs
import MiniDB.Parser.Tokenizer

/-!
# The tokenizer undoes rendering

A list of tokens is written out by writing each of them (`Written`: a string literal in quotes with each
quote doubled, everything else as its lexeme) with gaps of blanks and comments between them (`Gap`).
`tokenizeAll_renders` says that `TokenizeAll` reads any such text back.  The scan loops take as much as they
can, so what has to be shown is that the first byte of a gap ends every token.

On any source at all, each token is read from bytes of its own (`scanToken_spec`), so that the loop over
tokens ends and the positions increase.
-/

namespace MiniDB

open Paged Effect
open List (append_assoc cons_append exists_cons_of_ne_nil headD_cons isEmpty_cons length_append
  length_cons mem_cons mem_cons_self)

namespace Lexer

/-! ### Reading -/

/-- `l'` is `l` after some of the source is read. -/
structure Reads (l l' : Lexer) : Prop where
  length_eq : l'.pos + l'.rest.length = l.pos + l.rest.length
  pos_le : l.pos ≤ l'.pos

theorem Reads.refl (l : Lexer) : Reads l l := ⟨rfl, Nat.le_refl _⟩

theorem Reads.trans {l₁ l₂ l₃ : Lexer} (h : Reads l₁ l₂) (h' : Reads l₂ l₃) : Reads l₁ l₃ :=
  ⟨h'.length_eq.trans h.length_eq, Nat.le_trans h.pos_le h'.pos_le⟩

variable {l : Lexer} {p : UInt8 → Bool}

theorem Reads.length_le {l' : Lexer} (h : Reads l l') : l'.rest.length ≤ l.rest.length := by
  have hlen := h.length_eq
  have hpos := h.pos_le
  omega

/-- Behind the bytes that are read. -/
theorem Reads.append (read rest : Str) (pos : Nat) :
    Reads ⟨read ++ rest, pos⟩ ⟨rest, pos + read.length⟩ := by
  refine ⟨?_, Nat.le_add_right _ _⟩
  simp only [length_append]
  omega

theorem advance_cons (c : UInt8) (rest : Str) (pos : Nat) :
    advance ⟨c :: rest, pos⟩ = pure (c, ⟨rest, pos + 1⟩) := rfl

theorem advanceWhile_eq (p : UInt8 → Bool) (rest : Str) (pos : Nat) :
    advanceWhile p rest pos
      = (rest.takeWhile p, ⟨rest.dropWhile p, pos + (rest.takeWhile p).length⟩) := by
  induction rest generalizing pos with
  | nil => rfl
  | cons c rest ih =>
    rw [advanceWhile, List.takeWhile_cons, List.dropWhile_cons]
    split_ifs with hc
    · rw [ih, length_cons]
      simp only [Prod.mk.injEq, Lexer.mk.injEq, true_and]
      omega
    · rfl

theorem reads_advanceWhile (p : UInt8 → Bool) (rest : Str) (pos : Nat) :
    Reads ⟨rest, pos⟩ (advanceWhile p rest pos).2 := by
  have hlen := congrArg List.length (List.takeWhile_append_dropWhile (p := p) (l := rest))
  rw [length_append] at hlen
  rw [advanceWhile_eq]
  constructor
  · show pos + (rest.takeWhile p).length + (rest.dropWhile p).length = pos + rest.length
    omega
  · exact Nat.le_add_right _ _

/-- A loop that may read the first byte does so. -/
theorem pos_lt_advanceWhile {c : UInt8} (hc : p c = true) (rest : Str) (pos : Nat) :
    pos < (advanceWhile p (c :: rest) pos).2.pos := by
  rw [advanceWhile_eq, List.takeWhile_cons, if_pos hc, length_cons]
  show pos < pos + ((rest.takeWhile p).length + 1)
  omega

/-- The loop stops in front of these bytes. -/
def StopsAt (p : UInt8 → Bool) (rest : Str) : Prop := ∀ c ∈ rest.head?, p c = false

theorem advanceWhile_append {word rest : Str} (hword : ∀ c ∈ word, p c = true) (hrest : StopsAt p rest)
    (pos : Nat) : advanceWhile p (word ++ rest) pos = (word, ⟨rest, pos + word.length⟩) := by
  induction word generalizing pos with
  | nil =>
    cases rest with
    | nil => rfl
    | cons c rest =>
      rw [List.nil_append, advanceWhile, if_neg (by rw [hrest c rfl]; exact Bool.false_ne_true)]
      rfl
  | cons c word ih =>
    rw [cons_append, advanceWhile, if_pos (hword c (mem_cons_self ..)),
      ih fun d hd => hword d (List.mem_cons_of_mem _ hd)]
    simp only [length_cons, Prod.mk.injEq, Lexer.mk.injEq, true_and]
    omega

end Lexer

namespace Tokenizer

open Lexer

/-! ### Every source -/

variable {fuel : Nat}

/-- The gap ends within as many rounds as there are bytes. -/
theorem skip_spec (hfuel : l.rest.length < fuel) :
    ∃ l', skipWhitespaceAndComments fuel l = pure l' ∧ Reads l l' := by
  induction fuel generalizing l with
  | zero => omega
  | succ fuel ih =>
    obtain ⟨rest, pos⟩ := l
    cases rest with
    | nil => exact ⟨_, rfl, .refl _⟩
    | cons c rest =>
      rw [skipWhitespaceAndComments, atEnd, isEmpty_cons, if_neg Bool.false_ne_true]
      have hread : Reads ⟨c :: rest, pos⟩ ⟨rest, pos + 1⟩ := .append [c] rest pos
      simp only [length_cons] at hfuel
      split_ifs with hspace hdashes
      · rw [advance_cons, pure_bind]
        obtain ⟨l', hskip, hreads⟩ := ih (l := ⟨rest, pos + 1⟩) (by simp only; omega)
        exact ⟨l', hskip, hread.trans hreads⟩
      · -- a comment starts with a dash, which is not the newline where it ends
        have hne : (c != newline) = true := by
          obtain rfl : c = byte '-' := hdashes.1
          rfl
        have hcomment := reads_advanceWhile (· != newline) (c :: rest) pos
        have hlt := pos_lt_advanceWhile (p := (· != newline)) hne rest pos
        have hlen := hcomment.length_eq
        simp only [length_cons] at hlen
        obtain ⟨l', hskip, hreads⟩ := ih
          (l := (advanceWhile (· != newline) (c :: rest) pos).2) (by omega)
        exact ⟨l', hskip, hcomment.trans hreads⟩
      · exact ⟨_, rfl, .refl _⟩

/-- The token is read from bytes of its own. -/
structure ScanOf (l : Lexer) (tok : Token) (l' : Lexer) : Prop where
  type_ne : tok.type ≠ .endOfInput
  position_eq : tok.position = l.pos
  reads : Reads l l'
  pos_lt : l.pos < l'.pos
  /-- an integer is made of digits -/
  digits : tok.type = .intLiteral → tok.lexeme ≠ [] ∧ ∀ c ∈ tok.lexeme, isDigit c = true

variable {c : UInt8} {rest g s lexeme text body : Str} {type : TokenType} {pos : Nat}
  {toks : List (TokenType × Str)}

theorem scanNumber_spec (hc : isDigit c = true) (rest : Str) (pos : Nat) :
    ∃ tok l', scanNumber ⟨c :: rest, pos⟩ = pure (tok, l') ∧ ScanOf ⟨c :: rest, pos⟩ tok l' := by
  have hreads := reads_advanceWhile isDigit (c :: rest) pos
  have hlt := pos_lt_advanceWhile hc rest pos
  have hdigits : (advanceWhile isDigit (c :: rest) pos).1 ≠ [] ∧
      ∀ d ∈ (advanceWhile isDigit (c :: rest) pos).1, isDigit d = true := by
    rw [advanceWhile_eq]
    constructor
    · simp [hc]
    · exact fun d hd => List.mem_takeWhile_imp hd
  unfold scanNumber
  generalize advanceWhile isDigit (c :: rest) pos = x at hreads hlt hdigits
  obtain ⟨whole, rest₁, pos₁⟩ := x
  dsimp only at hreads hlt hdigits ⊢
  split_ifs with hdot
  · cases rest₁ with
    | nil => cases hdot.1
    | cons d rest₁ =>
      rw [advance_cons, pure_bind]
      have hstep : Reads ⟨d :: rest₁, pos₁⟩ ⟨rest₁, pos₁ + 1⟩ := .append [d] rest₁ pos₁
      have hfraction := reads_advanceWhile isDigit rest₁ (pos₁ + 1)
      exact ⟨_, _, rfl, nofun, rfl, (hreads.trans hstep).trans hfraction,
        Nat.lt_of_lt_of_le (Nat.lt_succ_of_lt hlt) hfraction.pos_le, nofun⟩
  · exact ⟨_, _, rfl, nofun, rfl, hreads, hlt, fun _ => hdigits⟩

/-- No keyword is the end of the input, or an integer. -/
theorem wordType_ne (lexeme : Str) : wordType lexeme ≠ .endOfInput ∧ wordType lexeme ≠ .intLiteral := by
  have hall : ∀ e ∈ keywordTable, e.2 ≠ .endOfInput ∧ e.2 ≠ .intLiteral := by decide
  unfold wordType
  cases h : keywordTable.lookup (toUpper lexeme) with
  | none => exact ⟨nofun, nofun⟩
  | some type =>
    obtain ⟨before, after, heq, -⟩ := List.lookup_eq_some_iff.mp h
    exact hall (toUpper lexeme, type) (heq ▸ List.mem_append_right _ (mem_cons_self ..))

theorem scanStringLoop_spec {start : Nat} {value : Str}
    (h : scanStringLoop start rest pos = .ok (value, l)) : Reads ⟨rest, pos⟩ l := by
  fun_induction scanStringLoop start rest pos generalizing value l with
  | case1 => cases h
  | case2 pos =>
    cases h
    exact .append [quote] [] pos
  | case3 => cases h
  | case4 rest pos ih =>
    cases hrest : scanStringLoop start rest (pos + 2) with
    | error e =>
      rw [hrest] at h
      cases h
    | ok r =>
      rw [hrest] at h
      cases h
      exact (Reads.append [quote, quote] rest pos).trans (ih hrest)
  | case5 d rest pos =>
    cases h
    exact .append [quote] (d :: rest) pos
  | case6 c d rest pos _ ih =>
    cases hrest : scanStringLoop start (d :: rest) (pos + 1) with
    | error e =>
      rw [hrest] at h
      cases h
    | ok r =>
      rw [hrest] at h
      cases h
      exact (Reads.append [c] (d :: rest) pos).trans (ih hrest)

theorem scanString_spec (c : UInt8) (rest : Str) (pos : Nat) :
    ∃ r, scanString ⟨c :: rest, pos⟩ = Checked.ofResult r ∧
      ∀ tok l', r = .ok (tok, l') → ScanOf ⟨c :: rest, pos⟩ tok l' := by
  unfold scanString
  rw [advance_cons, pure_bind]
  cases hloop : scanStringLoop pos rest (pos + 1) with
  | error e =>
    simp only [hloop]
    exact ⟨.error e, rfl, fun _ _ h => nomatch h⟩
  | ok r =>
    obtain ⟨value, l₂⟩ := r
    have hreads := scanStringLoop_spec hloop
    simp only [hloop]
    refine ⟨.ok (⟨.stringLiteral, value, pos⟩, l₂), rfl, fun tok l' h => ?_⟩
    cases h
    exact ⟨nofun, rfl, (Reads.append [c] rest pos).trans hreads, hreads.pos_le, nofun⟩

/-- An operator is neither the end of the input nor an integer, and only one with a byte behind it has
two bytes. -/
structure OperatorOf (next : Option UInt8) (x : TokenType × Bool) : Prop where
  type_ne : x.1 ≠ .endOfInput
  type_ne_int : x.1 ≠ .intLiteral
  next_ne : x.2 = true → next ≠ none

theorem operatorType_spec (c : UInt8) (next : Option UInt8) :
    OperatorOf next (operatorType c next) := by
  unfold operatorType
  -- each branch of the switch in turn
  repeat' refine iteInduction (fun hc => ?_) (fun hc => ?_)
  all_goals refine ⟨nofun, nofun, fun htwo => ?_⟩
  all_goals first | exact hc ▸ Option.some_ne_none _ | cases htwo

theorem scanOperatorOrPunctuation_spec (c : UInt8) (rest : Str) (pos : Nat) :
    ∃ tok l', scanOperatorOrPunctuation ⟨c :: rest, pos⟩ = pure (tok, l') ∧
      ScanOf ⟨c :: rest, pos⟩ tok l' := by
  have hspec := operatorType_spec c rest.head?
  unfold scanOperatorOrPunctuation
  rw [advance_cons, pure_bind]
  cases hop : operatorType c rest.head? with
  | mk type two =>
  rw [hop] at hspec
  simp only [hop]
  cases two with
  | false =>
    exact ⟨_, _, rfl, hspec.type_ne, rfl, .append [c] rest pos, Nat.lt_succ_self pos,
      fun h => absurd h hspec.type_ne_int⟩
  | true =>
    cases rest with
    | nil => exact absurd rfl (hspec.next_ne rfl)
    | cons d rest =>
      exact ⟨_, _, rfl, hspec.type_ne, rfl, .append [c, d] rest pos,
        Nat.lt_succ_of_lt (Nat.lt_succ_self pos), fun h => absurd h hspec.type_ne_int⟩

/-- `NextToken` behind the gap returns the end of the input, or a token of the source, or an error. -/
theorem scanToken_spec (c : UInt8) (rest : Str) (pos : Nat) :
    ∃ r, scanToken ⟨c :: rest, pos⟩ = Checked.ofResult r ∧
      ∀ tok l', r = .ok (tok, l') → ScanOf ⟨c :: rest, pos⟩ tok l' := by
  -- a scan that always returns a token
  have hpure : ∀ {x : Fallible (Token × Lexer)}, (∃ tok l', x = pure (tok, l') ∧
      ScanOf ⟨c :: rest, pos⟩ tok l') → ∃ r, x = Checked.ofResult r ∧
        ∀ tok l', r = .ok (tok, l') → ScanOf ⟨c :: rest, pos⟩ tok l' := by
    rintro _ ⟨tok, l', rfl, hscan⟩
    refine ⟨.ok (tok, l'), rfl, fun _ _ h => ?_⟩
    cases h
    exact hscan
  unfold scanToken
  rw [atEnd, isEmpty_cons, if_neg Bool.false_ne_true, peek, headD_cons]
  split_ifs with hdigit halpha hquote
  · exact hpure (scanNumber_spec hdigit rest pos)
  · have hword : isAlphaNumeric c = true := by rw [isAlphaNumeric, halpha]; rfl
    exact hpure ⟨_, _, rfl, (wordType_ne _).1, rfl,
      reads_advanceWhile isAlphaNumeric (c :: rest) pos, pos_lt_advanceWhile hword rest pos,
      fun h => absurd h (wordType_ne _).2⟩
  · exact scanString_spec c rest pos
  · obtain ⟨tok, l', hscan, hof⟩ := scanOperatorOrPunctuation_spec c rest pos
    rw [hscan, pure_bind]
    by_cases hinvalid : tok.type = .invalid
    · exact ⟨.error (unexpected tok), by simp only [if_pos hinvalid]; rfl, fun _ _ h => nomatch h⟩
    · exact hpure ⟨tok, l', by simp only [if_neg hinvalid], hof⟩

/-- The tokens of a source, from a position on. -/
structure TokensOf (pos : Nat) (toks : List Token) : Prop where
  position_ge : ∀ tok ∈ toks, pos ≤ tok.position
  increasing : toks.Pairwise fun t t' => t.position < t'.position
  /-- the end of the input comes last and only there -/
  ended : ∃ body e, toks = body ++ [e] ∧ e.type = .endOfInput ∧ ∀ t ∈ body, t.type ≠ .endOfInput
  digits : ∀ t ∈ toks, t.type = .intLiteral → t.lexeme ≠ [] ∧ ∀ c ∈ t.lexeme, isDigit c = true

/-- The loop over tokens, from anywhere in the source. -/
theorem tokenizeLoop_spec (hfuel : l.rest.length < fuel) :
    ∃ r, tokenizeLoop fuel l = Checked.ofResult r ∧ ∀ toks, r = .ok toks → TokensOf l.pos toks := by
  induction fuel generalizing l with
  | zero => omega
  | succ fuel ih =>
    obtain ⟨⟨rest, pos⟩, hskip, hgap⟩ := skip_spec (Nat.lt_succ_self l.rest.length)
    unfold tokenizeLoop nextToken
    rw [hskip, pure_bind]
    cases rest with
    | nil =>
      refine ⟨.ok [⟨.endOfInput, [], pos⟩], rfl, fun toks h => ?_⟩
      cases h
      refine ⟨fun tok htok => List.mem_singleton.mp htok ▸ hgap.pos_le, List.pairwise_singleton ..,
        ⟨[], _, rfl, rfl, nofun⟩, fun t ht hint => ?_⟩
      rw [List.mem_singleton.mp ht] at hint
      cases hint
    | cons c rest =>
      obtain ⟨r, hscan, hof⟩ := scanToken_spec c rest pos
      rw [hscan]
      rcases r with e | ⟨tok, l'⟩
      · exact ⟨.error e, rfl, fun _ h => nomatch h⟩
      · obtain ⟨htype, hposition, hreads, hlt, hdigits⟩ := hof tok l' rfl
        have hlen := hreads.length_eq
        have hlen' := hgap.length_le
        dsimp only at hlen hlen' hlt hposition
        obtain ⟨r, hloop, hr⟩ := ih (l := l') (by omega)
        rw [Checked.ofResult_ok, pure_bind]
        simp only [if_neg htype, hloop]
        rcases r with e | toks
        · exact ⟨.error e, rfl, fun _ h => nomatch h⟩
        · obtain ⟨hge, hsorted, ⟨body, e, rfl, he, hbody⟩, hints⟩ := hr toks rfl
          refine ⟨.ok (tok :: (body ++ [e])), rfl, fun _ h => ?_⟩
          cases h
          have hstart := hgap.pos_le
          dsimp only at hstart
          refine ⟨fun t ht => ?_, List.pairwise_cons.mpr ⟨fun t ht => ?_, hsorted⟩,
            ⟨tok :: body, e, rfl, he, ?_⟩, ?_⟩
          · rcases mem_cons.mp ht with rfl | ht
            · omega
            · have := hge t ht
              omega
          · have := hge t ht
            omega
          · exact List.forall_mem_cons.mpr ⟨htype, hbody⟩
          · exact List.forall_mem_cons.mpr ⟨hdigits, hints⟩

/-! ### Rendering -/

/-- Blanks and comments, in any order. -/
inductive Gap : Str → Prop
  | nil : Gap []
  | space {c : UInt8} {g : Str} : isWhitespace c = true → Gap g → Gap (c :: g)
  | comment {text g : Str} : newline ∉ text → Gap g →
      Gap (byte '-' :: byte '-' :: text ++ newline :: g)

/-- The operators and the punctuation. -/
def operators : List (TokenType × Str) := [
  (.star, lit "*"), (.comma, lit ","), (.lParen, lit "("), (.rParen, lit ")"), (.semicolon, lit ";"),
  (.dot, lit "."), (.eq, lit "="), (.neq, lit "!="), (.neq, lit "<>"), (.lt, lit "<"), (.lte, lit "<="),
  (.gt, lit ">"), (.gte, lit ">=")]

/-- The contents of a string literal with each quote doubled. -/
def doubled (s : Str) : Str := s.flatMap fun c => if c = quote then [quote, quote] else [c]

/-- A token of the given type and lexeme is written as the text. -/
inductive Written : TokenType → Str → Str → Prop
  /-- a name that is not a keyword -/
  | identifier {c : UInt8} {s : Str} : isAlpha c = true → (∀ d ∈ s, isAlphaNumeric d = true) →
      keywordTable.lookup (toUpper (c :: s)) = none → Written .identifier (c :: s) (c :: s)
  /-- a keyword, in any case -/
  | keyword {type : TokenType} {s : Str} : keywordTable.lookup (toUpper s) = some type →
      Written type s s
  | int {digits : Str} : digits ≠ [] → (∀ d ∈ digits, isDigit d = true) →
      Written .intLiteral digits digits
  | decimal {whole fraction : Str} : whole ≠ [] → fraction ≠ [] → (∀ d ∈ whole, isDigit d = true) →
      (∀ d ∈ fraction, isDigit d = true) →
      Written .floatLiteral (whole ++ byte '.' :: fraction) (whole ++ byte '.' :: fraction)
  | string (s : Str) : Written .stringLiteral s (quote :: doubled s ++ [quote])
  | operator {type : TokenType} {s : Str} : (type, s) ∈ operators → Written type s s

/-- The tokens written out, each with the gap behind it, which may only be empty behind the last one. -/
inductive RendersFrom : List (TokenType × Str) → Str → Prop
  | nil : RendersFrom [] []
  | cons {type : TokenType} {lexeme text g body : Str} {toks : List (TokenType × Str)} :
      Written type lexeme text → Gap g → (toks ≠ [] → g ≠ []) → RendersFrom toks body →
      RendersFrom ((type, lexeme) :: toks) (text ++ (g ++ body))

/-- The source is the tokens written out, possibly behind a gap. -/
def Renders (toks : List (TokenType × Str)) (source : Str) : Prop :=
  ∃ g body, Gap g ∧ RendersFrom toks body ∧ source = g ++ body

/-! ### Gaps -/

/-- The first byte of a gap, or the end of the source. -/
def GapHead (rest : Str) : Prop := ∀ c ∈ rest.head?, isWhitespace c = true ∨ c = byte '-'

/-- No gap starts here. -/
def NoGap (rest : Str) : Prop := ∀ c ∈ rest.head?, isWhitespace c = false ∧ c ≠ byte '-'

theorem Gap.head (h : Gap g) : GapHead g := by
  intro c hc
  cases h with
  | nil => cases hc
  | space hspace =>
    cases hc
    exact .inl hspace
  | comment =>
    cases hc
    exact .inr rfl

theorem skip_space (hc : isWhitespace c = true) (fuel : Nat) (rest : Str) (pos : Nat) :
    skipWhitespaceAndComments (fuel + 1) ⟨c :: rest, pos⟩
      = skipWhitespaceAndComments fuel ⟨rest, pos + 1⟩ := by
  rw [skipWhitespaceAndComments, atEnd, isEmpty_cons, if_neg Bool.false_ne_true, peek,
    headD_cons, if_pos hc, advance_cons, pure_bind]

theorem skip_comment (fuel : Nat) (rest : Str) (pos : Nat) :
    skipWhitespaceAndComments (fuel + 1) ⟨byte '-' :: byte '-' :: rest, pos⟩
      = skipWhitespaceAndComments fuel
          (advanceWhile (· != newline) (byte '-' :: byte '-' :: rest) pos).2 := by
  rw [skipWhitespaceAndComments, atEnd, isEmpty_cons, if_neg Bool.false_ne_true, peek,
    headD_cons, if_neg (by decide), if_pos ⟨rfl, rfl⟩]

/-- A gap is skipped, up to the first byte that cannot be one. -/
theorem skip_gap (h : Gap g) (hrest : NoGap rest) (fuel pos : Nat) (hfuel : g.length < fuel) :
    skipWhitespaceAndComments fuel ⟨g ++ rest, pos⟩ = pure ⟨rest, pos + g.length⟩ := by
  induction h generalizing fuel pos with
  | nil =>
    obtain ⟨fuel, rfl⟩ : ∃ n, fuel = n + 1 := ⟨fuel - 1, by omega⟩
    cases rest with
    | nil => rfl
    | cons c rest =>
      obtain ⟨hspace, hdash⟩ := hrest c rfl
      rw [skipWhitespaceAndComments]
      simp [atEnd, peek, hspace, hdash]
  | @space c g hspace _ ih =>
    rw [length_cons] at hfuel
    obtain ⟨fuel, rfl⟩ : ∃ n, fuel = n + 1 := ⟨fuel - 1, by omega⟩
    rw [cons_append, skip_space hspace, ih _ _ (by omega), length_cons, Nat.add_assoc,
      Nat.add_comm 1]
  | @comment text g htext _ ih =>
    simp only [length_append, length_cons] at hfuel
    obtain ⟨fuel, rfl⟩ : ∃ n, fuel = n + 1 + 1 := ⟨fuel - 2, by omega⟩
    -- one round for the line, one for the newline behind it
    have hline : ∀ c ∈ byte '-' :: byte '-' :: text, (c != newline) = true := by
      intro c hc
      rcases mem_cons.mp hc with rfl | hc
      · rfl
      rcases mem_cons.mp hc with rfl | hc
      · rfl
      · exact bne_iff_ne.mpr fun heq => htext (heq ▸ hc)
    have hstop : StopsAt (· != newline) (newline :: (g ++ rest)) := by
      intro c hc
      cases hc
      rfl
    have hloop := advanceWhile_append hline hstop pos
    have hsource : byte '-' :: byte '-' :: text ++ newline :: g ++ rest
        = byte '-' :: byte '-' :: (text ++ newline :: (g ++ rest)) := by simp
    rw [hsource, skip_comment]
    simp only [cons_append] at hloop
    rw [hloop, skip_space rfl, ih _ _ (by omega)]
    simp only [cons_append, length_cons, length_append]
    congr 2
    omega

/-! ### Tokens -/

/-- The bytes a gap starts with. -/
def gapBytes : List UInt8 := [byte ' ', 9, 13, newline, byte '-']

theorem mem_gapBytes_of_isWhitespace (h : isWhitespace c = true) : c ∈ gapBytes := by
  simp only [isWhitespace, Bool.or_eq_true, beq_iff_eq] at h
  rcases h with ((rfl | rfl) | rfl) | rfl <;> decide

theorem mem_gapBytes (h : GapHead rest) (hc : c ∈ rest.head?) :
    c ∈ gapBytes := by
  rcases h c hc with hspace | rfl
  · exact mem_gapBytes_of_isWhitespace hspace
  · decide

/-- A gap ends numbers and words. -/
theorem stopsAt_of_gapHead (hp : gapBytes.any p = false) (h : GapHead rest) : StopsAt p rest := by
  intro c hc
  rw [List.any_eq_false] at hp
  exact Bool.eq_false_iff.mpr (hp c (mem_gapBytes h hc))

/-- A gap ends operators, numbers and strings. -/
theorem head?_ne_of_gapHead (h : GapHead rest) (hc : c ∉ gapBytes) :
    rest.head? ≠ some c := fun hhead => hc (mem_gapBytes h hhead)

theorem isDigit_iff : isDigit c = true ↔ 48 ≤ c.toNat ∧ c.toNat ≤ 57 := by
  simp [isDigit, byte, UInt8.le_iff_toNat_le]

theorem isAlpha_iff : isAlpha c = true ↔
    97 ≤ c.toNat ∧ c.toNat ≤ 122 ∨ 65 ≤ c.toNat ∧ c.toNat ≤ 90 ∨ c.toNat = 95 := by
  simp [isAlpha, byte, UInt8.le_iff_toNat_le, ← UInt8.toNat_inj, or_assoc]

theorem isDigit_of_isAlpha (h : isAlpha c = true) : isDigit c = false := by
  rw [isAlpha_iff] at h
  rw [Bool.eq_false_iff, ne_eq, isDigit_iff]
  omega

/-- Only a letter is a letter in upper case. -/
theorem isAlpha_of_toUpperByte (h : isAlpha (toUpperByte c) = true) : isAlpha c = true := by
  unfold toUpperByte at h
  split_ifs at h with hlower
  · rw [isAlpha, hlower]
    rfl
  · exact h

/-- A keyword is a word. -/
theorem isAlpha_of_keyword (h : keywordTable.lookup (toUpper s) = some type) :
    s ≠ [] ∧ ∀ c ∈ s, isAlpha c = true := by
  have hall : ∀ e ∈ keywordTable, e.1 ≠ [] ∧ e.1.all isAlpha = true := by decide
  obtain ⟨before, after, heq, -⟩ := List.lookup_eq_some_iff.mp h
  obtain ⟨hne, hkey⟩ := hall (toUpper s, type)
    (heq ▸ List.mem_append_right _ (mem_cons_self ..))
  rw [List.all_eq_true] at hkey
  refine ⟨fun hnil => hne (by rw [hnil]; rfl), fun c hc => isAlpha_of_toUpperByte (hkey _ ?_)⟩
  exact List.mem_map_of_mem hc

theorem scanToken_word (hc : isAlpha c = true) (hs : ∀ d ∈ s, isAlphaNumeric d = true)
    (hrest : GapHead rest) (pos : Nat) :
    scanToken ⟨c :: s ++ rest, pos⟩
      = pure (⟨wordType (c :: s), c :: s, pos⟩, ⟨rest, pos + (c :: s).length⟩) := by
  have hword : ∀ d ∈ c :: s, isAlphaNumeric d = true := by
    intro d hd
    rcases mem_cons.mp hd with rfl | hd
    · rw [isAlphaNumeric, hc]
      rfl
    · exact hs d hd
  have hloop := advanceWhile_append hword (stopsAt_of_gapHead (by decide) hrest) pos
  simp only [scanToken, atEnd, peek, cons_append, isEmpty_cons, headD_cons,
    isDigit_of_isAlpha hc, hc, Bool.false_eq_true, if_false, if_true, scanIdentifierOrKeyword]
  rw [← cons_append, hloop]

theorem scanToken_number (hc : isDigit c = true) (pos : Nat) :
    scanToken ⟨c :: rest, pos⟩ = scanNumber ⟨c :: rest, pos⟩ := by
  simp [scanToken, atEnd, peek, hc]

theorem scanNumber_int {digits : Str} (h : ∀ d ∈ digits, isDigit d = true) (hrest : GapHead rest)
    (pos : Nat) :
    scanNumber ⟨digits ++ rest, pos⟩
      = pure (⟨.intLiteral, digits, pos⟩, ⟨rest, pos + digits.length⟩) := by
  have hloop := advanceWhile_append h (stopsAt_of_gapHead (by decide) hrest) pos
  unfold scanNumber
  simp only [hloop]
  rw [if_neg]
  rintro ⟨hend, hdot, -⟩
  cases rest with
  | nil => cases hend
  | cons d rest =>
    refine head?_ne_of_gapHead hrest (c := byte '.') (by decide) ?_
    rw [← hdot]
    rfl

theorem scanNumber_decimal {whole fraction : Str} (hwhole : ∀ d ∈ whole, isDigit d = true)
    (hfraction : ∀ d ∈ fraction, isDigit d = true) (hne : fraction ≠ []) (hrest : GapHead rest)
    (pos : Nat) :
    scanNumber ⟨whole ++ byte '.' :: fraction ++ rest, pos⟩
      = pure (⟨.floatLiteral, whole ++ byte '.' :: fraction, pos⟩,
          ⟨rest, pos + (whole ++ byte '.' :: fraction).length⟩) := by
  obtain ⟨d, ds, rfl⟩ := exists_cons_of_ne_nil hne
  have hdot : StopsAt isDigit (byte '.' :: (d :: ds ++ rest)) := by
    intro c hc
    cases hc
    rfl
  have hloop := advanceWhile_append hwhole hdot pos
  have hloop' := advanceWhile_append hfraction (stopsAt_of_gapHead (by decide) hrest)
    (pos + whole.length + 1)
  rw [append_assoc, cons_append]
  unfold scanNumber
  simp only [hloop]
  rw [if_pos ⟨rfl, rfl, hfraction d (mem_cons_self ..)⟩, advance_cons, pure_bind]
  simp only [hloop']
  simp only [length_append, length_cons]
  congr 3
  omega

/-- The contents of a string literal are read up to the quote behind them. -/
theorem scanStringLoop_doubled (start : Nat) (s : Str) (hrest : rest.head? ≠ some quote) (pos : Nat)
    :
    scanStringLoop start (doubled s ++ quote :: rest) pos
      = .ok (s, ⟨rest, pos + (doubled s).length + 1⟩) := by
  induction s generalizing pos with
  | nil =>
    cases rest with
    | nil => rfl
    | cons d rest =>
      have hd : d ≠ quote := fun heq => hrest (by rw [heq]; rfl)
      show scanStringLoop start (quote :: d :: rest) pos = _
      rw [scanStringLoop, if_pos rfl, if_neg hd]
      rfl
  | cons c s ih =>
    by_cases hc : c = quote
    · have hdoubled : doubled (c :: s) = quote :: quote :: doubled s := by
        rw [doubled, List.flatMap_cons, if_pos hc]
        rfl
      rw [hdoubled, cons_append, cons_append, scanStringLoop, if_pos rfl, if_pos rfl, ih, hc]
      show Except.ok _ = _
      simp only [length_cons]
      congr 4
      omega
    · have hdoubled : doubled (c :: s) = c :: doubled s := by
        rw [doubled, List.flatMap_cons, if_neg hc]
        rfl
      obtain ⟨d, ds, hds⟩ : ∃ d ds, doubled s ++ quote :: rest = d :: ds :=
        exists_cons_of_ne_nil (by simp)
      rw [hdoubled, cons_append, hds, scanStringLoop, if_neg hc, ← hds, ih]
      show Except.ok _ = _
      simp only [length_cons]
      congr 4
      omega

theorem scanToken_string (s : Str) (hrest : GapHead rest) (pos : Nat) :
    scanToken ⟨quote :: doubled s ++ [quote] ++ rest, pos⟩ = pure (⟨.stringLiteral, s, pos⟩,
      ⟨rest, pos + (quote :: doubled s ++ [quote]).length⟩) := by
  have hloop := scanStringLoop_doubled pos s (head?_ne_of_gapHead hrest (by decide)) (pos + 1)
  have hscan : scanToken ⟨quote :: (doubled s ++ quote :: rest), pos⟩
      = scanString ⟨quote :: (doubled s ++ quote :: rest), pos⟩ := rfl
  have hsource : quote :: doubled s ++ [quote] ++ rest = quote :: (doubled s ++ quote :: rest) := by simp
  rw [hsource, hscan, scanString, advance_cons, pure_bind]
  simp only [hloop]
  rw [Checked.ofResult_ok, pure_bind]
  simp only [cons_append, length_cons, length_append, List.length_nil]
  congr 3
  omega

/-- No other token starts like an operator. -/
theorem scanToken_operator (hdigit : isDigit c = false) (halpha : isAlpha c = false)
    (hquote : c ≠ quote) {tok : Token} (htype : tok.type ≠ .invalid)
    (hscan : scanOperatorOrPunctuation ⟨c :: rest, pos⟩ = pure (tok, l)) :
    scanToken ⟨c :: rest, pos⟩ = pure (tok, l) := by
  simp only [scanToken, atEnd, peek, isEmpty_cons, headD_cons, hdigit, halpha, hquote,
    Bool.false_eq_true, if_false, hscan, pure_bind, htype]

theorem scanOperator_one (h : operatorType c rest.head? = (type, false)) (pos : Nat) :
    scanOperatorOrPunctuation ⟨c :: rest, pos⟩ = pure (⟨type, [c], pos⟩, ⟨rest, pos + 1⟩) := by
  rw [scanOperatorOrPunctuation, advance_cons, pure_bind]
  simp only [h]
  rfl

theorem scanOperator_two {d : UInt8} (h : operatorType c (some d) = (type, true)) (pos : Nat) :
    scanOperatorOrPunctuation ⟨c :: d :: rest, pos⟩
      = pure (⟨type, [c, d], pos⟩, ⟨rest, pos + 2⟩) := by
  rw [scanOperatorOrPunctuation, advance_cons, pure_bind]
  simp only [List.head?_cons, h]
  rfl

theorem scanToken_written (h : Written type lexeme text) (hrest : GapHead rest) (pos : Nat) :
    scanToken ⟨text ++ rest, pos⟩ = pure (⟨type, lexeme, pos⟩, ⟨rest, pos + text.length⟩) := by
  cases h with
  | @identifier c s hc hs hnone =>
    rw [scanToken_word hc hs hrest, wordType, hnone]
    rfl
  | keyword hsome =>
    obtain ⟨hne, hs⟩ := isAlpha_of_keyword hsome
    obtain ⟨c, s, rfl⟩ := exists_cons_of_ne_nil hne
    have hword : ∀ d ∈ s, isAlphaNumeric d = true := by
      intro d hd
      rw [isAlphaNumeric, hs d (List.mem_cons_of_mem _ hd)]
      rfl
    rw [scanToken_word (hs c (mem_cons_self ..)) hword hrest, wordType, hsome]
    rfl
  | int hne hdigits =>
    obtain ⟨c, s, rfl⟩ := exists_cons_of_ne_nil hne
    rw [cons_append, scanToken_number (hdigits c (mem_cons_self ..)), ← cons_append,
      scanNumber_int hdigits hrest]
  | @decimal whole fraction hne hne' hwhole hfraction =>
    obtain ⟨c, s, rfl⟩ := exists_cons_of_ne_nil hne
    rw [append_assoc, cons_append, scanToken_number (hwhole c (mem_cons_self ..)),
      ← cons_append, ← append_assoc, scanNumber_decimal hwhole hfraction hne' hrest]
  | string s => exact scanToken_string _ hrest pos
  | operator hmem =>
    have heq := head?_ne_of_gapHead hrest (c := byte '=') (by decide)
    have hgt := head?_ne_of_gapHead hrest (c := byte '>') (by decide)
    have hlt : operatorType (byte '<') rest.head? = (.lt, false) := by
      show (if rest.head? = some (byte '=') then _ else if rest.head? = some (byte '>') then _ else _) = _
      rw [if_neg heq, if_neg hgt]
    have hgreater : operatorType (byte '>') rest.head? = (.gt, false) := by
      show (if rest.head? = some (byte '=') then _ else _) = _
      rw [if_neg heq]
    simp only [operators, mem_cons, Prod.mk.injEq, List.not_mem_nil, or_false] at hmem
    rcases hmem with ⟨rfl, rfl⟩ | ⟨rfl, rfl⟩ | ⟨rfl, rfl⟩ | ⟨rfl, rfl⟩ | ⟨rfl, rfl⟩ | ⟨rfl, rfl⟩ |
      ⟨rfl, rfl⟩ | ⟨rfl, rfl⟩ | ⟨rfl, rfl⟩ | ⟨rfl, rfl⟩ | ⟨rfl, rfl⟩ | ⟨rfl, rfl⟩ | ⟨rfl, rfl⟩
    -- the operators of one byte that start no longer one, then the others
    iterate 7 exact scanToken_operator rfl rfl (by decide) nofun (scanOperator_one rfl pos)
    iterate 2 exact scanToken_operator rfl rfl (by decide) nofun (scanOperator_two rfl pos)
    · exact scanToken_operator rfl rfl (by decide) nofun (scanOperator_one hlt pos)
    · exact scanToken_operator rfl rfl (by decide) nofun (scanOperator_two rfl pos)
    · exact scanToken_operator rfl rfl (by decide) nofun (scanOperator_one hgreater pos)
    · exact scanToken_operator rfl rfl (by decide) nofun (scanOperator_two rfl pos)

/-- A letter or digit is no gap. -/
theorem noGap_of_isAlphaNumeric (h : isAlphaNumeric c = true) :
    isWhitespace c = false ∧ c ≠ byte '-' := by
  have hgap : gapBytes.any isAlphaNumeric = false := by decide
  have hnot : c ∉ gapBytes := fun hmem => List.any_eq_false.mp hgap c hmem h
  constructor
  · cases hspace : isWhitespace c with
    | false => rfl
    | true => exact absurd (mem_gapBytes_of_isWhitespace hspace) hnot
  · rintro rfl
    exact hnot (by decide)

/-- No token starts like a gap. -/
theorem Written.noGap (h : Written type lexeme text) :
    ∃ c s, text = c :: s ∧ isWhitespace c = false ∧ c ≠ byte '-' := by
  have hdigit : ∀ {c : UInt8}, isDigit c = true → isAlphaNumeric c = true := by
    intro c hc
    rw [isAlphaNumeric, hc, Bool.or_true]
  have halpha : ∀ {c : UInt8}, isAlpha c = true → isAlphaNumeric c = true := by
    intro c hc
    rw [isAlphaNumeric, hc, Bool.true_or]
  cases h with
  | @identifier c s hc => exact ⟨c, s, rfl, noGap_of_isAlphaNumeric (halpha hc)⟩
  | keyword hsome =>
    obtain ⟨hne, hs⟩ := isAlpha_of_keyword hsome
    obtain ⟨c, s, rfl⟩ := exists_cons_of_ne_nil hne
    exact ⟨c, s, rfl, noGap_of_isAlphaNumeric (halpha (hs c (mem_cons_self ..)))⟩
  | int hne hdigits =>
    obtain ⟨c, s, rfl⟩ := exists_cons_of_ne_nil hne
    exact ⟨c, s, rfl, noGap_of_isAlphaNumeric (hdigit (hdigits c (mem_cons_self ..)))⟩
  | decimal hne _ hwhole =>
    obtain ⟨c, s, rfl⟩ := exists_cons_of_ne_nil hne
    exact ⟨c, _, rfl, noGap_of_isAlphaNumeric (hdigit (hwhole c (mem_cons_self ..)))⟩
  | string s => exact ⟨quote, _, rfl, rfl, by decide⟩
  | operator hmem =>
    have hall : ∀ e ∈ operators, ∃ c s, e.2 = c :: s ∧ isWhitespace c = false ∧ c ≠ byte '-' := by
      simp only [operators, List.forall_mem_cons, List.not_mem_nil, false_imp_iff, implies_true, and_true]
      repeat' constructor
      all_goals decide
    exact hall _ hmem

/-! ### The source -/

/-- What is written behind a token is a gap, or nothing. -/
theorem gapHead_append (hg : Gap g) (hne : toks ≠ [] → g ≠ []) (hbody : RendersFrom toks body) :
    GapHead (g ++ body) := by
  cases g with
  | nil =>
    obtain rfl : toks = [] := by
      by_contra htoks
      exact hne htoks rfl
    cases hbody
    exact fun c hc => nomatch hc
  | cons c g => exact hg.head

/-- The tokens are read back, with the gap before the first of them. -/
theorem tokenizeLoop_renders (h : RendersFrom toks body) (hg : Gap g) (fuel pos : Nat)
    (hfuel : body.length < fuel) :
    ∃ out, tokenizeLoop fuel ⟨g ++ body, pos⟩ = pure out ∧
      out.map (fun t => (t.type, t.lexeme)) = toks ++ [(.endOfInput, [])] := by
  induction h generalizing g fuel pos with
  | nil =>
    obtain ⟨fuel, rfl⟩ : ∃ n, fuel = n + 1 := ⟨fuel - 1, by omega⟩
    have hnoGap : NoGap [] := fun c hc => nomatch hc
    have hskip := skip_gap hg hnoGap ((g ++ []).length + 1) pos (by simp)
    refine ⟨[⟨.endOfInput, [], pos + g.length⟩], ?_, rfl⟩
    rw [tokenizeLoop, nextToken, hskip, pure_bind]
    rfl
  | @cons type lexeme text g' body toks hwritten hg' hne hbody ih =>
    obtain ⟨c, s, rfl, hspace, hdash⟩ := hwritten.noGap
    obtain ⟨fuel, rfl⟩ : ∃ n, fuel = n + 1 := ⟨fuel - 1, by omega⟩
    have hnoGap : NoGap (c :: s ++ (g' ++ body)) := by
      intro d hd
      cases hd
      exact ⟨hspace, hdash⟩
    have hskip := skip_gap hg hnoGap ((g ++ (c :: s ++ (g' ++ body))).length + 1) pos
      (by rw [length_append]; omega)
    have hscan := scanToken_written hwritten (gapHead_append hg' hne hbody) (pos + g.length)
    -- the token is not the end of the input, since it was read from the source
    have htype : type ≠ .endOfInput := by
      obtain ⟨r, hr, hof⟩ := scanToken_spec c (s ++ (g' ++ body)) (pos + g.length)
      rw [← cons_append, hscan] at hr
      cases hr
      exact (hof _ _ rfl).type_ne
    simp only [length_append, length_cons] at hfuel
    obtain ⟨out, hout, hmap⟩ := ih hg' fuel (pos + g.length + (c :: s).length) (by omega)
    refine ⟨⟨type, lexeme, pos + g.length⟩ :: out, ?_, by rw [List.map_cons, hmap]; rfl⟩
    rw [tokenizeLoop, nextToken, hskip, pure_bind, hscan, pure_bind]
    simp only [if_neg htype, hout]
    rfl

/-- **The tokenizer undoes rendering, and always ends.**  If the source is a list of tokens written out with
nonempty gaps between them, `TokenizeAll` returns these tokens, with their types and lexemes, and then the
end of the input.  On any source it returns, without leaving the source, an error or tokens at strictly
increasing positions. -/
theorem tokenizeAll_renders :
    (∀ toks source, Renders toks source → ∃ out, tokenizeAll source = pure out ∧
      out.map (fun t => (t.type, t.lexeme)) = toks ++ [(.endOfInput, [])]) ∧
    ∀ source, ∃ r, tokenizeAll source = Checked.ofResult r ∧ ∀ toks, r = .ok toks →
      (toks.map Token.position).Pairwise (· < ·) := by
  constructor
  · rintro toks _ ⟨g, body, hg, hbody, rfl⟩
    exact tokenizeLoop_renders hbody hg _ 0 (by rw [List.length_append]; omega)
  · intro source
    obtain ⟨r, hr, hspec⟩ := tokenizeLoop_spec (l := ⟨source, 0⟩) (Nat.lt_succ_self source.length)
    exact ⟨r, hr, fun toks htoks => List.pairwise_map.mpr (hspec toks htoks).increasing⟩

/-- A keyword in lower case, a string with a quote in it, and an operator right behind a comment. -/
theorem tokenizeAll_renders_select : ∃ out,
    tokenizeAll (lit "select 'a''b'--x\n<=") = pure out ∧
    out.map (fun t => (t.type, t.lexeme)) = [(.select, lit "select"), (.stringLiteral, lit "a'b"),
      (.lte, lit "<="), (.endOfInput, [])] ∧
    (out.map Token.position).Pairwise (· < ·) := by
  have hrenders : Renders [(.select, lit "select"), (.stringLiteral, lit "a'b"), (.lte, lit "<=")]
      (lit "select 'a''b'--x\n<=") := by
    have hlast : RendersFrom [(.lte, lit "<=")] (lit "<=" ++ ([] ++ [])) :=
      .cons (.operator (by decide)) .nil (fun h => absurd rfl h) .nil
    have hcomment : Gap (lit "--x\n") := .comment (show newline ∉ lit "x" by decide) .nil
    have hstring : RendersFrom [(.stringLiteral, lit "a'b"), (.lte, lit "<=")]
        (lit "'a''b'" ++ (lit "--x\n" ++ lit "<=")) := .cons (.string (lit "a'b")) hcomment nofun hlast
    have hspace : Gap (lit " ") := .space rfl .nil
    exact ⟨[], _, .nil, .cons (.keyword rfl) hspace nofun hstring, rfl⟩
  obtain ⟨out, hout, hmap⟩ := tokenizeAll_renders.1 _ _ hrenders
  obtain ⟨r, hr, hpos⟩ := tokenizeAll_renders.2 (lit "select 'a''b'--x\n<=")
  rw [hout] at hr
  cases hr
  exact ⟨out, hout, hmap, hpos out rfl⟩

end Tokenizer

end MiniDB
