import ApexTidy.Indent.Layout
import ApexTidy.Proofs.Source.Lines

/-!
Laying out row by row. A row is what stands between two line feeds of a text, with the carriage return
that may end it. Laying a row out changes the blanks around its content and nothing else, so the machine
reads the new rows as it read the old ones: laying them out once more, be it with another unit, gives
what it would have given at first.
-/

namespace ApexTidy

open Text

namespace Line

theorem returnOf_append_returnOf {t : Text} (full : EndsFull t) (row : Text) :
    returnOf (t ++ returnOf row) = returnOf row := by
  rcases returnOf_cases row with none | some
  · rw [none, List.append_nil, returnOf_eq_nil_iff]
    intro last
    rw [EndsFull, last] at full
    exact absurd full (by decide)
  · rw [some]
    rcases returnOf_cases (t ++ ['\r']) with none | same
    · rw [returnOf_eq_nil_iff, List.getLast?_concat] at none
      exact absurd rfl none
    · exact same

theorem withoutReturn_append_returnOf_of_endsFull {t : Text} (full : EndsFull t) (row : Text) :
    withoutReturn (t ++ returnOf row) = t := by
  have whole := withoutReturn_append_returnOf (t ++ returnOf row)
  rw [returnOf_append_returnOf full] at whole
  exact List.append_cancel_right whole

theorem isBlank_returnOf (row : Text) : Text.isBlank (returnOf row) = true := by
  rcases returnOf_cases row with same | same
  · rw [same]
    rfl
  · rw [same]
    decide

theorem lineFeed_not_mem_returnOf (row : Text) : '\n' ∉ returnOf row := by
  rcases returnOf_cases row with same | same
  · simp [same]
  · simp [same]

end Line

namespace IndentUnit

theorem mem_level {unit : IndentUnit} {c : Char} (member : c ∈ unit.level) : c = ' ' ∨ c = '\t' := by
  cases unit with
  | spaces width => exact Or.inl (List.mem_replicate.1 member).2
  | tab => exact Or.inr (List.mem_singleton.1 member)

theorem mem_render {unit : IndentUnit} {depth : Int} {c : Char} (member : c ∈ unit.render depth) :
    c = ' ' ∨ c = '\t' := by
  obtain ⟨level, listed, inside⟩ := List.mem_flatten.1 member
  rw [(List.mem_replicate.1 listed).2] at inside
  exact mem_level inside

theorem isBlank_render (unit : IndentUnit) (depth : Int) : isBlank (unit.render depth) = true := by
  rw [isBlank_iff]
  intro c member
  rcases mem_render member with rfl | rfl
  · decide
  · decide

theorem lineFeed_not_mem_render (unit : IndentUnit) (depth : Int) : '\n' ∉ unit.render depth := by
  intro member
  have other := mem_render member
  simp at other

end IndentUnit

namespace IndentState

theorem content_step (s : IndentState) (line : Text) :
    (s.step line).content =
      if s.inComment && startsWith ['*'] line then ' ' :: line else line := by
  obtain ⟨depth, inComment⟩ := s
  cases inComment with
  | true => simp [step]
  | false =>
    by_cases opens : opensComment line = true
    · simp [step, opens]
    · simp [step, opens]

theorem exists_content_step (s : IndentState) (line : Text) :
    ∃ blanks, (s.step line).content = blanks ++ line ∧ isBlank blanks = true ∧ '\n' ∉ blanks := by
  rw [content_step]
  split
  · exact ⟨[' '], rfl, by decide, by decide⟩
  · exact ⟨[], rfl, rfl, List.not_mem_nil⟩

/-- The state past a row. A blank row means nothing. -/
def past (s : IndentState) (row : Text) : IndentState :=
  if isBlank row then s else (s.step (trim row)).next

def after (s : IndentState) (rows : List Text) : IndentState := rows.foldl past s

/-- What a row that is not blank is set to, without what ends it. -/
def form (s : IndentState) (unit : IndentUnit) (row : Text) : Text :=
  unit.render (s.step (trim row)).depth ++ (s.step (trim row)).content

def laid (s : IndentState) (unit : IndentUnit) (row : Text) : Text :=
  if isBlank row then row else s.form unit row ++ Line.returnOf row

def relaid (unit : IndentUnit) : IndentState → List Text → List Text
  | _, [] => []
  | s, row :: rest => s.laid unit row :: relaid unit (s.past row) rest

@[simp] theorem after_nil (s : IndentState) : s.after [] = s := rfl

@[simp] theorem after_cons (s : IndentState) (row : Text) (rest : List Text) :
    s.after (row :: rest) = (s.past row).after rest := rfl

theorem past_congr (s : IndentState) {a b : Text} (same : trim a = trim b) : s.past a = s.past b := by
  rw [past, past, isBlank_eq_of_trim_eq same, same]

theorem form_congr (s : IndentState) (unit : IndentUnit) {a b : Text} (same : trim a = trim b) :
    s.form unit a = s.form unit b := by
  rw [form, form, same]

theorem exists_form (s : IndentState) (unit : IndentUnit) (row : Text) :
    ∃ blanks, s.form unit row = blanks ++ trim row ∧ isBlank blanks = true ∧ '\n' ∉ blanks := by
  obtain ⟨space, content, blank, single⟩ := s.exists_content_step (trim row)
  refine ⟨unit.render (s.step (trim row)).depth ++ space, ?_, ?_, ?_⟩
  · rw [form, content, List.append_assoc]
  · rw [isBlank_append, unit.isBlank_render, blank]
    rfl
  · rw [List.mem_append, not_or]
    exact ⟨unit.lineFeed_not_mem_render _, single⟩

theorem endsFull_form (s : IndentState) (unit : IndentUnit) {row : Text} (full : isBlank row = false) :
    EndsFull (s.form unit row) := by
  obtain ⟨blanks, same, -⟩ := s.exists_form unit row
  rw [same]
  exact (trimmed_trim row).stop.append (trim_ne_nil full) blanks

section

variable (s : IndentState) (unit : IndentUnit) (row : Text)

theorem trim_laid : trim (s.laid unit row) = trim row := by
  rw [laid]
  split
  · rfl
  · obtain ⟨blanks, same, blank, -⟩ := s.exists_form unit row
    rw [trim_append_of_isBlank_right _ (Line.isBlank_returnOf row), same,
      trim_append_of_isBlank_left blank, (trimmed_trim row).trim_eq]

theorem isBlank_laid : isBlank (s.laid unit row) = isBlank row :=
  isBlank_eq_of_trim_eq (s.trim_laid unit row)

theorem returnOf_laid : Line.returnOf (s.laid unit row) = Line.returnOf row := by
  rw [laid]
  split
  · rfl
  · rename_i full
    exact Line.returnOf_append_returnOf (s.endsFull_form unit (by simpa using full)) row

theorem withoutReturn_laid :
    withoutReturn (s.laid unit row) =
      if isBlank row then withoutReturn row else s.form unit row := by
  rw [laid]
  split
  · rfl
  · rename_i full
    exact Line.withoutReturn_append_returnOf_of_endsFull (s.endsFull_form unit (by simpa using full)) row

theorem lineFeed_not_mem_laid {row : Text} (single : '\n' ∉ row) : '\n' ∉ s.laid unit row := by
  rw [laid]
  split
  · exact single
  · obtain ⟨blanks, same, -, absent⟩ := s.exists_form unit row
    rw [same, List.mem_append, List.mem_append, not_or, not_or]
    exact ⟨⟨absent, fun member => single ((trim_infix_self row).subset member)⟩,
      Line.lineFeed_not_mem_returnOf row⟩

theorem laid_eq_self_iff :
    s.laid unit row = row ↔ isBlank row = true ∨ s.form unit row = withoutReturn row := by
  have whole := Line.withoutReturn_append_returnOf row
  by_cases blank : isBlank row = true
  · simp [laid, blank]
  · rw [laid, if_neg blank, or_iff_right blank]
    constructor
    · intro same
      exact List.append_cancel_right (same.trans whole.symm)
    · intro same
      rw [same, whole]

/-- Laying a row out forgets how it was laid out before. -/
theorem laid_laid (other : IndentState) (first : IndentUnit) :
    s.laid unit (other.laid first row) = s.laid unit row := by
  have shape := other.trim_laid first row
  by_cases blank : isBlank row = true
  · rw [show other.laid first row = row from if_pos blank]
  · rw [laid, other.isBlank_laid, if_neg blank, s.form_congr unit shape, other.returnOf_laid, laid,
      if_neg blank]

theorem past_laid (other : IndentState) : s.past (other.laid unit row) = s.past row :=
  s.past_congr (other.trim_laid unit row)

end

theorem step_outside {s : IndentState} {line : Text} (outside : (s.step line).inComment = false)
    (stays : closesBlock line = false) :
    s.inComment = false ∧ (s.step line).depth = s.depth ∧ (s.step line).content = line := by
  obtain ⟨depth, inComment⟩ := s
  cases inComment with
  | true => simp [step] at outside
  | false =>
    by_cases opens : opensComment line = true
    · simp [step, opens] at outside
    · simp [step, opens, stays]

/-- The blanks in front of such a line, once it is laid out. -/
theorem render_eq_of_laid {s : IndentState} {unit : IndentUnit} {blanks rest : Text} {c : Char}
    (blank : isBlank blanks = true) (full : isSpace c = false) (other : c ≠ '}')
    (outside : (s.step (trim (blanks ++ c :: rest))).inComment = false)
    (laidOut : s.laid unit (blanks ++ c :: rest) = blanks ++ c :: rest) :
    s.inComment = false ∧ unit.render s.depth = blanks := by
  have content : trim (blanks ++ c :: rest) = c :: trimEnd rest := by
    rw [trim_append_of_isBlank_left blank, trim_cons full]
  have stays : closesBlock (c :: trimEnd rest) = false := by
    rw [closesBlock, ← Bool.not_eq_true, startsWith_iff]
    intro start
    exact other (List.cons_prefix_cons.1 start).1.symm
  have solid : isBlank (blanks ++ c :: rest) = false := by
    rw [← Bool.not_eq_true, ← trim_eq_nil_iff, content]
    exact List.cons_ne_nil _ _
  rw [content] at outside
  obtain ⟨free, depth, same⟩ := step_outside outside stays
  rw [laid, if_neg (by simp [solid]), form, content, depth, same, List.append_assoc] at laidOut
  have start : ∀ t, StartsFull (c :: t) := fun _ => full
  refine ⟨free, ?_⟩
  calc
    unit.render s.depth
      = leadingSpace (unit.render s.depth ++ c :: (trimEnd rest ++ Line.returnOf (blanks ++ c :: rest))) :=
        (leadingSpace_append (unit.isBlank_render _) (start _)).symm
    _ = leadingSpace (blanks ++ c :: rest) := congrArg leadingSpace laidOut
    _ = blanks := leadingSpace_append blank (start rest)

theorem relaid_append (unit : IndentUnit) (s : IndentState) (a b : List Text) :
    s.relaid unit (a ++ b) = s.relaid unit a ++ (s.after a).relaid unit b := by
  induction a generalizing s with
  | nil => rfl
  | cons row a ih => rw [List.cons_append, relaid, ih, relaid, List.cons_append, after_cons]

theorem length_relaid (unit : IndentUnit) (s : IndentState) (rows : List Text) :
    (s.relaid unit rows).length = rows.length := by
  induction rows generalizing s with
  | nil => rfl
  | cons row rest ih => rw [relaid, List.length_cons, ih, List.length_cons]

theorem relaid_relaid (first second : IndentUnit) (s : IndentState) (rows : List Text) :
    s.relaid second (s.relaid first rows) = s.relaid second rows := by
  induction rows generalizing s with
  | nil => rfl
  | cons row rest ih => rw [relaid, relaid, s.laid_laid, s.past_laid, ih, relaid]

theorem lineFeed_not_mem_relaid {unit : IndentUnit} {s : IndentState} {rows : List Text}
    (single : ∀ row ∈ rows, '\n' ∉ row) : ∀ row ∈ s.relaid unit rows, '\n' ∉ row := by
  induction rows generalizing s with
  | nil => exact single
  | cons row rest ih =>
    have later := @ih (s.past row) fun other member => single other (List.mem_cons_of_mem _ member)
    intro new member
    rcases List.mem_cons.1 member with rfl | listed
    · exact s.lineFeed_not_mem_laid unit (single row List.mem_cons_self)
    · exact later new listed

theorem after_map_withoutReturn (s : IndentState) (rows : List Text) :
    s.after (rows.map withoutReturn) = s.after rows := by
  induction rows generalizing s with
  | nil => rfl
  | cons row rest ih =>
    rw [List.map_cons, after_cons, after_cons, s.past_congr (trim_withoutReturn row), ih]

theorem relaid_append_eq_self_iff {unit : IndentUnit} {s : IndentState} {a b : List Text} :
    s.relaid unit (a ++ b) = a ++ b ↔ s.relaid unit a = a ∧ (s.after a).relaid unit b = b := by
  rw [relaid_append]
  constructor
  · intro same
    exact List.append_inj same (length_relaid unit s a)
  · intro halves
    rw [halves.1, halves.2]

end IndentState

end ApexTidy
