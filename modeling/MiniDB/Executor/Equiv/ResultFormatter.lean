import MiniDB.Executor.ResultFormatter

/-!
# The size of a result table

Every line of a table is as long as its columns are wide together, with three characters between two of
them and the line break (`length_formatQueryResult`).  Behind this is that no text is longer than its
column is wide, so that `pad` never pads by a negative number (`fits_widths`).
-/

namespace MiniDB.Executor

/-! ### Widths -/

/-- The texts are no longer than the columns they stand in are wide. -/
def Fits : List Nat → List Str → Prop
  | _, [] => True
  | [], _ :: _ => False
  | width :: widths, text :: texts => text.length ≤ width ∧ Fits widths texts

theorem fits_nil (widths : List Nat) : Fits widths [] := by
  cases widths <;> trivial

theorem fits_lengths (texts : List Str) : Fits (texts.map List.length) texts := by
  induction texts with
  | nil => trivial
  | cons text texts ih => exact ⟨Nat.le_refl _, ih⟩

theorem length_widen (widths : List Nat) (texts : List Str) :
    (widen widths texts).length = widths.length := by
  induction widths generalizing texts with
  | nil => cases texts <;> rfl
  | cons width widths ih =>
    cases texts with
    | nil => rfl
    | cons text texts => exact congrArg (· + 1) (ih texts)

variable {texts : List Str}

theorem fits_widen {widths : List Nat} (h : texts.length ≤ widths.length) :
    Fits (widen widths texts) texts := by
  induction widths generalizing texts with
  | nil =>
    obtain rfl := List.eq_nil_of_length_eq_zero (Nat.le_zero.mp h)
    trivial
  | cons width widths ih =>
    cases texts with
    | nil => exact fits_nil _
    | cons text texts => exact ⟨Nat.le_max_right .., ih (Nat.le_of_succ_le_succ h)⟩

/-- Columns only get wider. -/
theorem Fits.widen {widths : List Nat} (h : Fits widths texts) (row : List Str) :
    Fits (widen widths row) texts := by
  induction widths generalizing texts row with
  | nil => cases row <;> exact h
  | cons width widths ih =>
    cases texts with
    | nil => exact fits_nil _
    | cons text texts =>
      cases row with
      | nil => exact h
      | cons cell row => exact ⟨Nat.le_trans h.1 (Nat.le_max_left ..), ih h.2 row⟩

theorem Fits.foldl_widen {widths : List Nat} (h : Fits widths texts) (rows : List (List Str)) :
    Fits (rows.foldl Executor.widen widths) texts := by
  induction rows generalizing widths with
  | nil => exact h
  | cons row rows ih => exact ih (h.widen row)

theorem fits_foldl_widen {widths : List Nat} {rows : List (List Str)}
    (h : ∀ row ∈ rows, row.length ≤ widths.length) :
    ∀ row ∈ rows, Fits (rows.foldl widen widths) row := by
  induction rows generalizing widths with
  | nil => exact nofun
  | cons row rows ih =>
    obtain ⟨hrow, hrows⟩ := List.forall_mem_cons.mp h
    rintro r (_ | ⟨_, hr⟩)
    · exact (fits_widen hrow).foldl_widen rows
    · exact ih (by rwa [length_widen]) r hr

/-- The names and the cells fit into their columns. -/
theorem fits_widths (result : QueryResult) :
    Fits (widths result) result.columnNames ∧ ∀ row ∈ cells result, Fits (widths result) row := by
  refine ⟨(fits_lengths result.columnNames).foldl_widen (cells result), fits_foldl_widen ?_⟩
  intro row hrow
  obtain ⟨values, -, rfl⟩ := List.mem_map.mp hrow
  simp only [List.length_map, List.length_take]
  exact Nat.min_le_left ..

/-! ### Lines -/

theorem length_pad {text : Str} {width : Nat} (h : text.length ≤ width) :
    (pad text width).length = width := by
  rw [pad, List.length_append, List.length_replicate, Nat.add_sub_cancel' h]

theorem lengths_padRow {widths : List Nat} (h : Fits widths texts) :
    (padRow widths texts).map List.length = widths := by
  induction widths generalizing texts with
  | nil => rfl
  | cons width widths ih =>
    cases texts with
    | nil =>
      rw [padRow, List.map_cons, List.headD_nil, length_pad (Nat.zero_le _), List.tail_nil,
        ih (fits_nil widths)]
    | cons text texts =>
      rw [padRow, List.map_cons, List.headD_cons, length_pad h.1, List.tail_cons, ih h.2]

theorem length_intercalate {separator : Str} (columns : List Str) :
    (separator.intercalate columns).length
      = (columns.map List.length).sum + separator.length * (columns.length - 1) := by
  induction columns with
  | nil => rfl
  | cons column columns ih =>
    cases columns with
    | nil => simp
    | cons next columns =>
      rw [List.intercalate_cons_cons, List.length_append, List.length_append, ih]
      simp only [List.map_cons, List.sum_cons, List.length_cons, Nat.add_sub_cancel, Nat.mul_succ]
      omega

/-- The length of a line of columns with the given widths. -/
def lineSize (widths : List Nat) : Nat := widths.sum + 3 * (widths.length - 1) + 1

theorem length_formatLine {separator : String} (hseparator : (lit separator).length = 3)
    {columns : List Str} {widths : List Nat} (h : columns.map List.length = widths) :
    (formatLine separator columns).length = lineSize widths := by
  rw [formatLine, List.length_append, length_intercalate, hseparator, lineSize, ← h, List.length_map]
  rfl

/-! ### Tables -/

/-- The size of what is printed for a result. -/
def resultSize (result : QueryResult) : Nat :=
  if result.columnNames = [] then result.message.length
  else (result.rows.length + 2) * lineSize (widths result) + (formatFooter result).length

/-- The names, the ruler and the rows are lines of one length. -/
theorem length_formatQueryResult (result : QueryResult) :
    (formatQueryResult result).length = resultSize result := by
  obtain ⟨hnames, hcells⟩ := fits_widths result
  unfold formatQueryResult resultSize
  simp only [List.isEmpty_iff]
  split_ifs with hcolumns
  · rfl
  · have hruler : ((widths result).map fun width => List.replicate width (byte '-')).map List.length
        = widths result := by
      simp only [List.map_map, Function.comp_def, List.length_replicate, List.map_id']
    have hrows : ((cells result).flatMap
        fun row => formatLine " | " (padRow (widths result) row)).length
        = result.rows.length * lineSize (widths result) := by
      rw [List.length_flatMap, List.map_congr_left fun row hrow =>
        length_formatLine rfl (lengths_padRow (hcells row hrow)), List.map_const', List.sum_replicate_nat,
        cells, List.length_map]
    rw [List.length_append, List.length_append, List.length_append,
      length_formatLine rfl (lengths_padRow hnames), length_formatLine rfl hruler, hrows]
    ring

end MiniDB.Executor
