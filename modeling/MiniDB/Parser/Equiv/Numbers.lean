import MiniDB.Parser.Equiv.Parser
import MiniDB.Parser.Equiv.Tokenizer

/-!
# The numbers of a statement

An integer token is a row of digits, and `std::stoll` and `std::stoul` read all of them or throw.  The
literals of a statement and its LIMIT have the type that is read, so that they are the numbers of the
text.  The length of a VARCHAR is cut to 16 bits behind that.
-/

namespace MiniDB

open Bytes Effect Grammar Lang
open List (append_nil flatMap_append flatMap_cons flatMap_nil flatMap_singleton map_append
  map_cons map_flatMap mem_cons_self nil_append)

/-! ### What a statement says about numbers -/

/-- The integers in a value. -/
def Value.integers : Value → List Int64
  | .int64 v => [v]
  | _ => []

/-- The integers in an expression, from left to right. -/
def Expr.integers : Expr → List Int64
  | .column _ => []
  | .literal v => v.integers
  | .binary left _ right => left.integers ++ right.integers

/-- The integers in a statement, in the order of its text. -/
def Statement.integers : Statement → List Int64
  | .insert s => s.rows.flatMap fun row => row.flatMap Value.integers
  | .update s => (s.assignments.flatMap fun a => a.2.integers) ++ s.where?.elim [] Expr.integers
  | .delete s => s.where?.elim [] Expr.integers
  | .select s => s.where?.elim [] Expr.integers ++ s.limit.toList
  | _ => []

namespace Parser

/-- The integer tokens stand in the statement for the numbers their digits denote.  In CREATE TABLE an
integer token behind `k` commas is the length of the column with number `k`. -/
def NumbersStored (tokens : List Token) : Statement → Prop
  | .createTable s => ∀ before t after, tokens = before ++ t :: after → t.type = .intLiteral →
      ∃ col, s.columns[before.countP (·.type = .comma)]? = some col ∧
        col.maxLength.toNat = digitsValue t.lexeme
  | stmt => (stmt.integers.map fun v => v.toInt)
      = (tokens.filter (·.type = .intLiteral)).map fun t => (digitsValue t.lexeme : Int)

/-- The numbers of a CREATE statement fit into 16 bits.  There are no others than lengths in it. -/
def LengthsFit (tokens : List Token) : Prop :=
  (∀ t ∈ tokens.head?, t.type = .create) →
    ∀ t ∈ tokens, t.type = .intLiteral → digitsValue t.lexeme < 2 ^ 16

/-! ### Conversions of digits -/

theorem digit_byte {c : UInt8} (h : Lexer.isDigit c = true) :
    isSpace c = false ∧ c ≠ byte '-' ∧ c ≠ byte '+' := by
  rw [Tokenizer.isDigit_iff] at h
  have hspace : isSpace c = false := by
    refine Bool.eq_false_iff.mpr fun hspace => ?_
    rw [isSpace, Bool.or_eq_true, beq_iff_eq, Bool.and_eq_true, decide_eq_true_eq,
      decide_eq_true_eq] at hspace
    rcases hspace with rfl | ⟨-, hle⟩
    · exact absurd h.1 (by decide)
    · have hle : c.toNat ≤ 13 := UInt8.le_iff_toNat_le.mp hle
      omega
  refine ⟨hspace, ?_, ?_⟩
  · rintro rfl
    exact absurd h.1 (by decide)
  · rintro rfl
    exact absurd h.1 (by decide)

variable {s : Str}

/-- All digits are read. -/
theorem readInteger_digits (hne : s ≠ []) (hs : ∀ c ∈ s, Lexer.isDigit c = true) :
    readInteger s = some (false, digitsValue s) := by
  obtain ⟨c, rest, rfl⟩ := List.exists_cons_of_ne_nil hne
  obtain ⟨hspace, hminus, hplus⟩ := digit_byte (hs c mem_cons_self)
  have hdrop : (c :: rest).dropWhile isSpace = c :: rest := List.dropWhile_cons_of_neg (by simp [hspace])
  have htake : (c :: rest).takeWhile Lexer.isDigit = c :: rest := List.takeWhile_eq_self_iff.mpr hs
  simp [readInteger, hdrop, htake, hminus, hplus]

theorem stoll_digits (hne : s ≠ []) (hs : ∀ c ∈ s, Lexer.isDigit c = true) {v : Int64}
    (h : stoll s = some v) : v.toInt = digitsValue s := by
  rw [stoll, readInteger_digits hne hs, Option.bind_some] at h
  simp only [Bool.false_eq_true, if_false] at h
  generalize digitsValue s = n at h ⊢
  split_ifs at h with hfits
  obtain rfl := Option.some.inj h
  rw [Int64.toInt_minValue, Int64.toInt_maxValue] at hfits
  exact Int64.toInt_ofInt_of_le hfits.1 (by omega)

theorem stoul_digits (hne : s ≠ []) (hs : ∀ c ∈ s, Lexer.isDigit c = true) {v : UInt64}
    (h : stoul s = some v) : v.toNat = digitsValue s := by
  rw [stoul, readInteger_digits hne hs, Option.bind_some] at h
  simp only [Bool.false_eq_true, if_false] at h
  generalize digitsValue s = n at h ⊢
  split_ifs at h with hfits
  obtain rfl := Option.some.inj h
  exact UInt64.toNat_ofNat_of_lt' hfits

end Parser

namespace Sql

/-! ### Words -/

/-- An integer token is marked with what it is converted to. -/
def intMark (t : Token) : List (Option Int64) :=
  if t.type = .intLiteral then [stoll t.lexeme] else []

variable {k : TokenType} {t : Token} {α : Type}

theorem intMark_of_kind (ht : Tokens.kind t = k) (hk : k ≠ .intLiteral) :
    intMark t = [] := if_neg fun h => hk (ht.symm.trans h)

/-- Tokens of another kind have no mark. -/
theorem silent (hk : k ≠ .intLiteral) (f : Token → Option α) :
    Marks intMark (tokenOf k f) fun ns _ => ns = [] :=
  marks_tokenOf fun _ _ ht _ => intMark_of_kind ht hk

theorem silent_token (hk : k ≠ .intLiteral) :
    Marks intMark (token k) fun ns _ => ns = [] := silent hk _

theorem marks_token {f : Unit → Lang Token α} {Q : List (Option Int64) → α → Prop}
    (hk : k ≠ .intLiteral) (h : Marks intMark (f ()) Q) : Marks intMark (token k >>= f) Q :=
  (silent_token hk).andThen fun _ => h

theorem silent_word (hk : k ≠ .intLiteral) (a : α) : Marks intMark (word k a) fun ns _ => ns = [] :=
  marks_token hk (marks_pure rfl)

theorem silent_ident : Marks intMark ident fun ns _ => ns = [] := silent (by decide) _

theorem comma_silent (t : Token) (ht : Tokens.kind t = TokenType.comma) : intMark t = [] :=
  intMark_of_kind ht (by decide)

/-- The statement is none of CREATE TABLE, and has the integers of its text. -/
def StoresIntegers (ns : List (Option Int64)) (stmt : Statement) : Prop :=
  (∀ s, stmt ≠ .createTable s) ∧ ns = stmt.integers.map some

theorem dropTable_marks : Marks intMark dropTable StoresIntegers :=
  marks_token (by decide) <| silent_ident.andThen fun _ => marks_pure ⟨nofun, rfl⟩

theorem dropIndex_marks : Marks intMark dropIndex StoresIntegers :=
  marks_token (by decide) <| silent_ident.andThen fun _ => marks_pure ⟨nofun, rfl⟩

theorem createIndex_marks :
    Marks intMark createIndex fun ns stmt => StoresIntegers ns stmt ∧ stmt.integers = [] := by
  refine marks_token (by decide) <| silent_ident.andThen fun _ => ?_
  refine marks_token (by decide) <| silent_ident.andThen fun _ => ?_
  refine marks_token (by decide) <| silent_ident.andThen fun _ => ?_
  exact marks_token (by decide) <| marks_pure ⟨⟨nofun, rfl⟩, rfl⟩

theorem comparisonOperator_marks : Marks intMark comparisonOperator fun ns _ => ns = [] :=
  .either (silent_word (by decide) _) <| .either (silent_word (by decide) _) <|
    .either (silent_word (by decide) _) <| .either (silent_word (by decide) _) <|
    .either (silent_word (by decide) _) (silent_word (by decide) _)

theorem insertColumns_marks : Marks intMark insertColumns fun ns _ => ns = [] := by
  refine Marks.andThen (Marks.opt (P := fun ns _ => ns = []) ?_ (fun _ _ h => h) rfl)
    fun _ => marks_pure rfl
  refine marks_token (by decide) <| ?_
  refine (silent_ident.sepBy1 comma_silent).bind fun ns columns hns => ?_
  refine marks_token (by decide) <| marks_pure ?_
  rw [hns, append_nil]
  simp

/-! ### Queries -/

theorem itemAlias_marks : Marks intMark itemAlias fun ns _ => ns = [] :=
  (marks_token (by decide) <| silent_ident).opt (fun _ _ h => h) rfl

theorem aggregateColumn_marks (agg : AggregateFunc) :
    Marks intMark (aggregateColumn agg) fun ns _ => ns = [] := by
  refine .either (marks_token (by decide) <| ?_)
    (silent_ident.map some fun _ _ h => h)
  split_ifs
  · exact marks_pure rfl
  · exact fun _ _ h => h.elim

theorem aggregateFunc_marks : Marks intMark aggregateFunc fun ns _ => ns = [] :=
  .either (silent_word (by decide) _) <| .either (silent_word (by decide) _) <|
    .either (silent_word (by decide) _) <| .either (silent_word (by decide) _) (silent_word (by decide) _)

theorem selectItem_marks : Marks intMark selectItem fun ns _ => ns = [] := by
  refine .either (aggregateFunc_marks.andThen fun agg => ?_) ?_
  · refine marks_token (by decide) <| (aggregateColumn_marks agg).andThen fun _ => ?_
    exact marks_token (by decide) <| itemAlias_marks.andThen fun _ => marks_pure rfl
  · exact silent_ident.andThen fun _ => itemAlias_marks.andThen fun _ => marks_pure rfl

theorem selectList_marks : Marks intMark selectList fun ns _ => ns = [] := by
  refine .either (marks_token (by decide) <| marks_pure rfl) ?_
  refine Marks.map (selectItem_marks.sepBy1 comma_silent) _ fun ns items hns => ?_
  rw [hns]
  simp

theorem orderBy_marks : Marks intMark orderBy fun ns _ => ns = [] := by
  refine Marks.opt (P := fun ns _ => ns = []) ?_ (fun _ _ h => h) rfl
  refine marks_token (by decide) <| marks_token (by decide) <| ?_
  refine silent_ident.andThen fun _ => Marks.andThen ?_ fun _ => marks_pure rfl
  refine .either (marks_token (by decide) <| marks_pure rfl) ?_
  exact .either (marks_token (by decide) <| marks_pure rfl) (marks_pure rfl)

theorem limit_marks : Marks intMark limit fun ns n => ns = n.toList.map some := by
  refine Marks.opt (P := fun ns n => ns = [some n]) ?_ (fun _ _ h => h) rfl
  refine marks_token (by decide) <| marks_tokenOf fun t n ht hn => ?_
  have hmark : intMark t = [stoll t.lexeme] := if_pos ht
  rw [hmark, hn]

/-! ### Literals and expressions -/

section Literals

variable [FloatConversion]

theorem literal_marks : Marks intMark literal fun ns v => ns = v.integers.map some := by
  refine .either (marks_token (by decide) <| marks_pure rfl) ?_
  refine .either (marks_token (by decide) <| marks_pure rfl) ?_
  refine .either (marks_token (by decide) <| marks_pure rfl) ?_
  refine .either (marks_tokenOf fun t v ht hv => ?_) ?_
  · obtain ⟨n, hn, rfl⟩ := Option.map_eq_some_iff.mp hv
    have hmark : intMark t = [stoll t.lexeme] := if_pos ht
    rw [hmark, hn]
    rfl
  refine .either (marks_tokenOf fun t v ht hv => ?_) (marks_tokenOf fun t v ht hv => ?_)
  · obtain ⟨x, -, rfl⟩ := Option.map_eq_some_iff.mp hv
    exact intMark_of_kind ht (by decide)
  · obtain rfl := Option.some.inj hv
    exact intMark_of_kind ht (by decide)

/-- The integers of an expression stand in it from left to right. -/
theorem derives_marks {level : Level} {ts : List Token} {e : Expr} (h : Derives level ts e) :
    ts.flatMap intMark = e.integers.map some := by
  -- an operator between two expressions has no mark
  have hbinary : ∀ {ts ts' : List Token} {t : Token} {l r : Expr} (op : BinaryOp),
      intMark t = [] → ts.flatMap intMark = l.integers.map some →
      ts'.flatMap intMark = r.integers.map some →
      (ts ++ t :: ts').flatMap intMark = (Expr.binary l op r).integers.map some := by
    intro ts ts' t l r op hmark hl hr
    rw [flatMap_append, flatMap_cons, hl, hr, hmark, Expr.integers, map_append]
    rfl
  induction h with
  | @paren l r ts e hl _ hr ih =>
    have hleft : intMark l = [] := if_neg (by rw [hl]; decide)
    have hright : intMark r = [] := if_neg (by rw [hr]; decide)
    rw [flatMap_cons, flatMap_append, flatMap_singleton, hleft, hright, ih,
      append_nil, nil_append]
  | column hname => exact silent_ident _ _ hname
  | literal hv => exact literal_marks _ _ hv
  | ofPrimary _ ih => exact ih
  | compare _ hop _ ihl ihr =>
    exact hbinary _ ((flatMap_singleton ..).symm.trans (comparisonOperator_marks _ _ hop)) ihl ihr
  | ofComparison _ ih => exact ih
  | and _ ht _ ihl ihr => exact hbinary _ (intMark_of_kind ht (by decide)) ihl ihr
  | ofAnd _ ih => exact ih
  | or _ ht _ ihl ihr => exact hbinary _ (intMark_of_kind ht (by decide)) ihl ihr

theorem whereClause_marks :
    Marks intMark whereClause fun ns w => ns = (w.elim [] Expr.integers).map some :=
  ((silent_token (by decide)).andThen fun _ ts e he => derives_marks he).opt
    (fun _ _ h => h) rfl

/-! ### Rows -/

theorem tuple_marks :
    Marks intMark tuple fun ns row => ns = (row.flatMap Value.integers).map some := by
  refine marks_token (by decide) <| ?_
  refine (literal_marks.sepBy1 comma_silent).bind fun ns row hns => ?_
  refine marks_token (by decide) <| marks_pure ?_
  rw [hns, append_nil, map_flatMap]

theorem insert_marks : Marks intMark insert StoresIntegers := by
  refine marks_token (by decide) <| silent_ident.andThen fun _ => ?_
  refine insertColumns_marks.andThen fun _ => marks_token (by decide) <| ?_
  refine (tuple_marks.sepBy1 comma_silent).bind fun ns rows hns => marks_pure ⟨nofun, ?_⟩
  rw [hns, append_nil, Statement.integers, map_flatMap]

theorem assignment_marks : Marks intMark assignment fun ns a => ns = a.2.integers.map some := by
  refine silent_ident.andThen fun _ => marks_token (by decide) <| ?_
  refine literal_marks.bind fun ns v hns => marks_pure ?_
  rw [hns, append_nil]

theorem update_marks : Marks intMark update StoresIntegers := by
  refine silent_ident.andThen fun _ => marks_token (by decide) <| ?_
  refine (assignment_marks.sepBy1 comma_silent).bind fun ns assignments hns => ?_
  refine whereClause_marks.bind fun ns' w hns' => marks_pure ⟨nofun, ?_⟩
  rw [hns, hns', append_nil, Statement.integers, map_append, map_flatMap]

theorem delete_marks : Marks intMark delete StoresIntegers := by
  refine marks_token (by decide) <| silent_ident.andThen fun _ => ?_
  refine whereClause_marks.bind fun ns w hns => marks_pure ⟨nofun, ?_⟩
  rw [hns, append_nil, Statement.integers]

theorem select_marks : Marks intMark select StoresIntegers := by
  refine selectList_marks.andThen fun _ => marks_token (by decide) <| ?_
  refine silent_ident.andThen fun _ => whereClause_marks.bind fun ns w hns => ?_
  refine orderBy_marks.andThen fun _ => limit_marks.bind fun ns' n hns' => marks_pure ⟨nofun, ?_⟩
  rw [hns, hns', append_nil, Statement.integers, map_append]

end Literals

/-! ### Lengths -/

/-- Integers are marked with their digits, and commas are marked too. -/
def defMark (t : Token) : List (Option Str) :=
  if t.type = .intLiteral then [some t.lexeme] else if t.type = .comma then [none] else []

theorem defMark_of_kind (ht : Tokens.kind t = k) (hk : k ≠ .intLiteral ∧ k ≠ .comma) :
    defMark t = [] := by
  obtain rfl : t.type = k := ht
  rw [defMark, if_neg hk.1, if_neg hk.2]

theorem unmarked (hk : k ≠ .intLiteral ∧ k ≠ .comma) (f : Token → Option α) :
    Marks defMark (tokenOf k f) fun ns _ => ns = [] :=
  marks_tokenOf fun _ _ ht _ => defMark_of_kind ht hk

theorem unmarked_token (hk : k ≠ .intLiteral ∧ k ≠ .comma) :
    Marks defMark (token k) fun ns _ => ns = [] := unmarked hk _

/-- The definition of a column has a length or none. -/
def LengthOf (ns : List (Option Str)) (maxLength : UInt16) : Prop :=
  ns = [] ∨ ∃ s, ns = [some s] ∧ (stoul s).map UInt64.toUInt16 = some maxLength

theorem columnType_marks : Marks defMark columnType fun ns p => LengthOf ns p.2 := by
  refine .either ((unmarked_token (by decide)).andThen fun _ => marks_pure (.inl rfl)) ?_
  refine .either ((unmarked_token (by decide)).andThen fun _ => marks_pure (.inl rfl)) ?_
  refine .either ((unmarked_token (by decide)).andThen fun _ => marks_pure (.inl rfl)) ?_
  refine .either ((unmarked_token (by decide)).andThen fun _ => marks_pure (.inl rfl)) ?_
  refine (unmarked_token (by decide)).andThen fun _ => ?_
  -- the length in parentheses
  refine Marks.bind (Marks.opt (P := LengthOf)
    (Q := fun ns length => LengthOf ns (length.getD 255)) ?_ (fun _ _ h => h)
    (.inl rfl)) fun ns length hns => marks_pure ?_
  · refine (unmarked_token (by decide)).andThen fun _ => ?_
    refine Marks.bind (P := LengthOf) (marks_tokenOf fun t n ht hn => ?_) fun ns n hns => ?_
    · have hmark : defMark t = [some t.lexeme] := if_pos ht
      exact .inr ⟨t.lexeme, hmark, hn⟩
    · refine (unmarked_token (by decide)).andThen fun _ => marks_pure ?_
      rwa [append_nil]
  · rwa [append_nil]

theorem columnDef_marks : Marks defMark columnDef fun ns col => LengthOf ns col.maxLength := by
  refine Marks.andThen (unmarked (by decide) _) fun _ => columnType_marks.bind fun ns p hns => ?_
  refine Marks.andThen (Marks.opt (P := fun ns _ => ns = []) ?_ (fun _ _ h => h) rfl) fun _ =>
    marks_pure ?_
  · exact (unmarked_token (by decide)).andThen fun _ => unmarked_token (by decide)
  · rwa [append_nil]

/-- An integer behind `k` commas is the length of the column with number `k`, as far as it fits. -/
def LengthsOf (ns : List (Option Str)) (columns : List Column) : Prop :=
  ∀ before s after, ns = before ++ some s :: after →
    ∃ col, columns[before.count none]? = some col ∧
      (stoul s).map UInt64.toUInt16 = some col.maxLength

theorem columns_marks : Marks defMark (sepBy1 columnDef .comma) LengthsOf := by
  intro ts columns h
  induction h with
  | @one ts col hcol =>
    intro before s after hns
    rcases columnDef_marks _ _ hcol with hnil | ⟨s', hone, hs'⟩
    · rw [hnil] at hns
      simp at hns
    · rw [hone] at hns
      rcases before with _ | ⟨b, before⟩
      · obtain ⟨rfl, -⟩ : s' = s ∧ [] = after := by simpa using hns
        exact ⟨col, rfl, hs'⟩
      · simp at hns
  | @cons ts ts' t col columns hcol ht _ ih =>
    intro before s after hns
    have hcomma : defMark t = [none] := by
      have ht : t.type = .comma := ht
      rw [defMark, if_neg (by rw [ht]; decide), if_pos ht]
    rw [flatMap_append, flatMap_cons, hcomma] at hns
    -- behind the comma the columns are counted from the next one on
    have hbehind : ∀ before', ts'.flatMap defMark = before' ++ some s :: after →
        ∃ col', (col :: columns)[before'.count none + 1]? = some col' ∧
          (stoul s).map UInt64.toUInt16 = some col'.maxLength := by
      intro before' hns'
      exact ih before' s after hns'
    rcases columnDef_marks _ _ hcol with hnil | ⟨s', hone, hs'⟩
    · rw [hnil] at hns
      rcases before with _ | ⟨b, before⟩
      · simp at hns
      · obtain ⟨rfl, hrest⟩ : none = b ∧ ts'.flatMap defMark = before ++ some s :: after := by
          simpa using hns
        rw [List.count_cons_self]
        exact hbehind before hrest
    · rw [hone] at hns
      rcases before with _ | ⟨b, _ | ⟨b', before⟩⟩
      · obtain ⟨rfl, -⟩ : s' = s ∧ none :: ts'.flatMap defMark = after := by simpa using hns
        exact ⟨col, rfl, hs'⟩
      · simp at hns
      · obtain ⟨rfl, rfl, hrest⟩ : some s' = b ∧ none = b' ∧
            ts'.flatMap defMark = before ++ some s :: after := by simpa using hns
        rw [List.count_cons_of_ne (by simp), List.count_cons_self]
        exact hbehind before hrest

theorem createTable_marks :
    Marks defMark createTable fun ns stmt => ∃ s, stmt = .createTable s ∧ LengthsOf ns s.columns := by
  refine (unmarked_token (by decide)).andThen fun _ => Marks.andThen (unmarked (by decide) _) fun _ => ?_
  refine (unmarked_token (by decide)).andThen fun _ => columns_marks.bind fun ns columns hns => ?_
  refine (unmarked_token (by decide)).andThen fun _ => ?_
  rintro _ _ ⟨rfl, hne, rfl⟩
  refine ⟨_, rfl, ?_⟩
  rwa [flatMap_nil, append_nil]

/-! ### Statements -/

variable [FloatConversion]

variable {stmt : Statement}

/-- What the marks of a text say about its statement. -/
theorem input_marks {body : List Token} (h : input body stmt) :
    ∃ t rest, body = t :: rest ∧
      ((t.type = .create ∧ ∃ s, stmt = .createTable s ∧ LengthsOf (body.flatMap defMark) s.columns) ∨
        StoresIntegers (body.flatMap intMark) stmt ∧ (t.type = .create → stmt.integers = [])) := by
  obtain ⟨ts, stmt, _, rfl, hstmt, ts', o, _, rfl, ho, rfl, rfl⟩ := h
  -- a semicolon at the end has no marks
  have hints : ts'.flatMap intMark = [] :=
    ((silent_token (by decide)).opt (Q := fun ns _ => ns = []) (fun _ _ h => h) rfl) _ _ ho
  have hdefs : ts'.flatMap defMark = [] :=
    ((unmarked_token (by decide)).opt (Q := fun ns _ => ns = []) (fun _ _ h => h) rfl) _ _ ho
  have hother : ∀ {t : Token} {k : TokenType} {rest : List Token}, Tokens.kind t = k →
      k ≠ .intLiteral → (k = .create → stmt.integers = []) →
      StoresIntegers (rest.flatMap intMark) stmt →
      StoresIntegers (([t] ++ rest ++ (ts' ++ [])).flatMap intMark) stmt ∧
        (t.type = .create → stmt.integers = []) := by
    intro t k rest ht hk hcreate hrest
    obtain rfl : t.type = k := ht
    refine ⟨?_, hcreate⟩
    rw [flatMap_append, flatMap_append, flatMap_append, hints, flatMap_singleton,
      intMark_of_kind rfl hk, flatMap_nil, append_nil, append_nil, nil_append]
    exact hrest
  rcases hstmt with h | h | h | h | h | h
  all_goals
    obtain ⟨_, _, rest, rfl, ⟨t, rfl, ht, -⟩, h⟩ := h
    refine ⟨t, rest ++ (ts' ++ []), by simp, ?_⟩
  · exact .inr (hother ht (by decide) nofun (select_marks _ _ h))
  · exact .inr (hother ht (by decide) nofun (insert_marks _ _ h))
  · exact .inr (hother ht (by decide) nofun (update_marks _ _ h))
  · exact .inr (hother ht (by decide) nofun (delete_marks _ _ h))
  · rcases h with h | h
    · refine .inl ⟨ht, ?_⟩
      have hmarks := createTable_marks _ _ h
      rw [flatMap_append, flatMap_append, flatMap_append, hdefs,
        flatMap_singleton, defMark_of_kind ht (by decide), flatMap_nil, append_nil,
        append_nil, nil_append]
      exact hmarks
    · obtain ⟨hstores, hnone⟩ := createIndex_marks _ _ h
      exact .inr (hother ht (by decide) (fun _ => hnone) hstores)
  · rcases h with h | h
    · exact .inr (hother ht (by decide) nofun (dropTable_marks _ _ h))
    · exact .inr (hother ht (by decide) nofun (dropIndex_marks _ _ h))

end Sql

namespace Parser

open Sql

variable {tokens : List Token}

/-- The integer tokens are made of digits. -/
def Numeric (tokens : List Token) : Prop :=
  ∀ t ∈ tokens, t.type = .intLiteral → t.lexeme ≠ [] ∧ ∀ c ∈ t.lexeme, Lexer.isDigit c = true

theorem integers_eq (hnum : Numeric tokens) {vs : List Int64}
    (h : tokens.flatMap intMark = vs.map some) :
    (vs.map fun v => v.toInt)
      = (tokens.filter (·.type = .intLiteral)).map fun t => (digitsValue t.lexeme : Int) := by
  induction tokens generalizing vs with
  | nil =>
    obtain rfl : vs = [] := by simpa using h.symm
    rfl
  | cons t tokens ih =>
    have hnum' : Numeric tokens := fun t' ht' => hnum t' (List.mem_cons_of_mem _ ht')
    rw [flatMap_cons] at h
    by_cases ht : t.type = .intLiteral
    · have hmark : intMark t = [stoll t.lexeme] := if_pos ht
      rw [hmark] at h
      obtain ⟨v, vs, rfl, hv, hvs⟩ : ∃ v vs', vs = v :: vs' ∧ some v = stoll t.lexeme ∧
          vs'.map some = tokens.flatMap intMark := by
        simpa [List.map_eq_cons_iff] using h.symm
      obtain ⟨hne, hdigits⟩ := hnum t mem_cons_self ht
      rw [List.filter_cons_of_pos (by simpa using ht), map_cons, map_cons,
        ih hnum' hvs.symm, stoll_digits hne hdigits hv.symm]
    · have hmark : intMark t = [] := if_neg ht
      rw [hmark, nil_append] at h
      rw [List.filter_cons_of_neg (by simpa using ht)]
      exact ih hnum' h

theorem count_defMark (tokens : List Token) :
    (tokens.flatMap defMark).count none = tokens.countP (·.type = .comma) := by
  induction tokens with
  | nil => rfl
  | cons t tokens ih =>
    rw [flatMap_cons, List.count_append, ih, List.countP_cons, Nat.add_comm]
    congr 1
    unfold defMark
    split_ifs <;> simp_all

/-- The lengths are right if and only if they fit. -/
theorem lengths_stored_iff (hnum : Numeric tokens) {columns : List Column}
    (h : LengthsOf (tokens.flatMap defMark) columns) :
    (∀ before t after, tokens = before ++ t :: after → t.type = .intLiteral →
      ∃ col, columns[before.countP (·.type = .comma)]? = some col ∧
        col.maxLength.toNat = digitsValue t.lexeme) ↔
      ∀ t ∈ tokens, t.type = .intLiteral → digitsValue t.lexeme < 2 ^ 16 := by
  constructor
  · intro hstored t ht hint
    obtain ⟨before, after, hsplit⟩ := List.append_of_mem ht
    obtain ⟨col, -, hcol⟩ := hstored before t after hsplit hint
    rw [← hcol]
    exact col.maxLength.toNat_lt
  · rintro hfits before t after rfl hint
    have ht : t ∈ before ++ t :: after := List.mem_append_right _ mem_cons_self
    have hmark : defMark t = [some t.lexeme] := if_pos hint
    obtain ⟨col, hcol, hlength⟩ := h (before.flatMap defMark) t.lexeme (after.flatMap defMark) (by
      rw [flatMap_append, flatMap_cons, hmark]
      rfl)
    obtain ⟨n, hn, hcut⟩ := Option.map_eq_some_iff.mp hlength
    obtain ⟨hne, hdigits⟩ := hnum t ht hint
    refine ⟨col, by rwa [count_defMark] at hcol, ?_⟩
    rw [← hcut, UInt64.toNat_toUInt16, stoul_digits hne hdigits hn, Nat.mod_eq_of_lt (hfits t ht hint)]

theorem numbersStored_of_ne (h : ∀ s, stmt ≠ .createTable s)
    (hints : (stmt.integers.map fun v => v.toInt)
      = (tokens.filter (·.type = .intLiteral)).map fun t => (digitsValue t.lexeme : Int)) :
    NumbersStored tokens stmt := by
  cases stmt with
  | createTable s => exact (h s rfl).elim
  | _ => exact hints

/-- There is no integer token without a mark. -/
theorem type_ne_of_intMark (h : tokens.flatMap intMark = []) : ∀ t ∈ tokens, t.type ≠ .intLiteral := by
  intro t ht hint
  have hmark : intMark t = [stoll t.lexeme] := if_pos hint
  rw [List.flatMap_eq_nil_iff.mp h t ht] at hmark
  cases hmark

/-- **The numbers of a statement.**  `ParseSQL` returns a statement or an error.  In a statement all
numbers are those of the text, if and only if no length of a VARCHAR is cut to 16 bits. -/
theorem numbers_stored_iff [FloatConversion] (sql : Str) :
    ∃ r, parseSQL sql = Checked.ofResult r ∧ ∀ stmt, r = .ok stmt →
      ∃ tokens, Tokenizer.tokenizeAll sql = pure tokens ∧
        (NumbersStored tokens stmt ↔ LengthsFit tokens) := by
  obtain ⟨r, htokens, hspec⟩ :=
    Tokenizer.tokenizeLoop_spec (l := ⟨sql, 0⟩) (Nat.lt_succ_self sql.length)
  have htokens : Tokenizer.tokenizeAll sql = Checked.ofResult r := htokens
  rw [parseSQL, htokens]
  cases r with
  | error e => exact ⟨.error e, rfl, nofun⟩
  | ok tokens =>
    obtain ⟨-, -, ⟨body, e, rfl, he, hbody⟩, hnum⟩ := hspec tokens rfl
    obtain ⟨r, rest, hexec, hpost⟩ := Action.exec_of_wp (parseStatement_sound he hbody)
    refine ⟨r, by rw [Checked.ofResult_ok, pure_bind, hexec], ?_⟩
    rintro stmt rfl
    refine ⟨body ++ [e], rfl, ?_⟩
    obtain ⟨t, rest, rfl, hmarks⟩ := input_marks hpost
    -- the end of the input has no marks
    have hints : (t :: rest ++ [e]).flatMap intMark = (t :: rest).flatMap intMark := by
      rw [List.flatMap_append, List.flatMap_singleton, intMark_of_kind he (by decide), List.append_nil]
    have hdefs : (t :: rest ++ [e]).flatMap defMark = (t :: rest).flatMap defMark := by
      rw [List.flatMap_append, List.flatMap_singleton, defMark_of_kind he (by decide), List.append_nil]
    rcases hmarks with ⟨hcreate, s, rfl, hlengths⟩ | ⟨⟨hne, hstores⟩, hcreate⟩
    · rw [← hdefs] at hlengths
      refine (lengths_stored_iff hnum hlengths).trans ⟨fun h _ => h, fun h => h fun t' ht' => ?_⟩
      obtain rfl : t = t' := Option.some.inj ht'
      exact hcreate
    · rw [← hints] at hstores
      refine iff_of_true (numbersStored_of_ne hne (integers_eq hnum hstores)) fun hhead t' ht' hint => ?_
      rw [hcreate (hhead t rfl)] at hstores
      exact absurd hint (type_ne_of_intMark hstores t' ht')

/-- The tokens of `CREATE TABLE t (a VARCHAR(65536))`. -/
def createTokens : List Token :=
  [⟨.create, lit "CREATE", 0⟩, ⟨.table, lit "TABLE", 7⟩, ⟨.identifier, lit "t", 13⟩,
    ⟨.lParen, lit "(", 15⟩, ⟨.identifier, lit "a", 16⟩, ⟨.varchar, lit "VARCHAR", 18⟩,
    ⟨.lParen, lit "(", 25⟩, ⟨.intLiteral, lit "65536", 26⟩, ⟨.rParen, lit ")", 31⟩,
    ⟨.rParen, lit ")", 32⟩, ⟨.endOfInput, [], 33⟩]

/-- A length that does not fit into 16 bits: the column gets the length 0. -/
theorem varchar_length_cut :
    Tokenizer.tokenizeAll (lit "CREATE TABLE t (a VARCHAR(65536))") = pure createTokens ∧
      ∃ stmt, @parseSQL ⟨fun _ => none⟩ (lit "CREATE TABLE t (a VARCHAR(65536))") = pure stmt ∧
        stmt = .createTable ⟨lit "t", [⟨lit "a", .varchar, true, 0⟩], nofun⟩ ∧
        ¬ NumbersStored createTokens stmt := by
  have htokens : Tokenizer.tokenizeAll (lit "CREATE TABLE t (a VARCHAR(65536))") = pure createTokens := by
    have hrun : (Tokenizer.tokenizeAll (lit "CREATE TABLE t (a VARCHAR(65536))")).run
        = .ok (.ok createTokens) := by decide +kernel
    exact hrun
  have hexec : (@parseStatement ⟨fun _ => none⟩).exec createTokens
      = .ok (.ok (.createTable ⟨lit "t", [⟨lit "a", .varchar, true, 0⟩], nofun⟩),
        [⟨.endOfInput, [], 33⟩]) := by decide +kernel
  refine ⟨htokens, _, ?_, rfl, fun hstored => ?_⟩
  · unfold parseSQL
    rw [htokens, pure_bind, hexec]
    rfl
  · obtain ⟨col, hcol, hlength⟩ := hstored (createTokens.take 7) ⟨.intLiteral, lit "65536", 26⟩
      (createTokens.drop 8) rfl rfl
    cases hcol
    exact absurd hlength (by decide)

end Parser

end MiniDB
