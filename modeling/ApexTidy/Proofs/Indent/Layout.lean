import ApexTidy.Proofs.Edit.Parts
import ApexTidy.Proofs.Indent.Rows

/-!
The layout of a document. The edits that lay a document out are always accepted, and the document they
lead to is the old one laid out row by row: its lines end as they did, blank lines are what they were,
and every other line is set to the form that the machine gives it. So nothing is left to do to a
document that has been laid out, and one that is laid out with another unit does not remember the first.
-/

namespace ApexTidy

open Text Edit

namespace IndentState

def annotated (s : IndentState) (l : Line) : AnnotatedLine :=
  let first := s.step l.trimmed
  ⟨l, first.depth, first.inComment, first.content⟩

theorem annotate_cons (s : IndentState) (l : Line) (rest : List Line) :
    s.annotate (l :: rest) =
      (if l.isBlank then [] else [s.annotated l]) ++ (s.past l.raw).annotate rest := by
  rw [annotate, past, show Text.isBlank l.raw = l.isBlank from rfl]
  split
  · rfl
  · rfl

theorem map_line_annotate (s : IndentState) (lines : List Line) :
    (s.annotate lines).map (·.line) = lines.filter (!·.isBlank) := by
  induction lines generalizing s with
  | nil => rfl
  | cons l rest ih =>
    rw [annotate_cons, List.map_append, ih, List.filter_cons]
    cases l.isBlank with
    | true => rfl
    | false => rfl

theorem annotated_mem_annotate {s : IndentState} {lines : List Line} {i : Nat} {l : Line}
    (found : lines[i]? = some l) (full : l.isBlank = false) :
    (s.after ((lines.take i).map (·.raw))).annotated l ∈ s.annotate lines := by
  induction lines generalizing s i with
  | nil => simp at found
  | cons first rest ih =>
    rw [annotate_cons, List.mem_append]
    cases i with
    | zero =>
      obtain rfl : first = l := by simpa using found
      left
      simp [full]
    | succ i => exact Or.inr (ih (by simpa using found))

/-- A line in two parts. What it holds gives way to its form, and what ends it stays. -/
def partsOf (s : IndentState) (unit : IndentUnit) (l : Line) : List Part :=
  [⟨l.raw, if l.isBlank ∨ s.form unit l.raw = l.raw then none else some (s.form unit l.raw)⟩,
    ⟨l.ending, none⟩]

def parts (unit : IndentUnit) : IndentState → List Line → List Part
  | _, [] => []
  | s, l :: rest => s.partsOf unit l ++ parts unit (s.past l.raw) rest

theorem old_partsOf (s : IndentState) (unit : IndentUnit) (l : Line) :
    (s.partsOf unit l).flatMap (·.old) = l.whole := by
  simp [partsOf, Line.whole]

theorem shown_partsOf (s : IndentState) (unit : IndentUnit) (l : Line) :
    (s.partsOf unit l).flatMap (·.shown) =
      (if l.isBlank then l.raw else s.form unit l.raw) ++ l.ending := by
  by_cases blank : l.isBlank = true
  · simp [partsOf, Part.shown, blank]
  · by_cases same : s.form unit l.raw = l.raw
    · simp [partsOf, Part.shown, blank, same]
    · simp [partsOf, Part.shown, blank, same]

theorem edit?_annotated (s : IndentState) (unit : IndentUnit) (l : Line) :
    (s.annotated l).edit? unit =
      if s.form unit l.raw = l.raw then none else some ⟨l.start, l.stop, s.form unit l.raw⟩ := rfl

theorem filterMap_edit?_eq_nil_iff {s : IndentState} {unit : IndentUnit} {l : Line} :
    (if l.isBlank then [] else [s.annotated l]).filterMap (·.edit? unit) = [] ↔
      l.isBlank = true ∨ s.form unit l.raw = l.raw := by
  by_cases blank : l.isBlank = true
  · simp [blank]
  · by_cases same : s.form unit l.raw = l.raw
    · simp [blank, edit?_annotated, same]
    · simp [blank, edit?_annotated, same]

theorem ofParts_partsOf (s : IndentState) (unit : IndentUnit) (l : Line) :
    ofParts l.start (s.partsOf unit l) =
      (if l.isBlank then [] else [s.annotated l]).filterMap (·.edit? unit) := by
  by_cases blank : l.isBlank = true
  · simp [partsOf, blank, ofParts]
  · by_cases same : s.form unit l.raw = l.raw
    · simp [partsOf, blank, same, ofParts, edit?_annotated]
    · simp [partsOf, blank, same, ofParts, edit?_annotated, Line.stop]

theorem old_parts (unit : IndentUnit) (s : IndentState) (lines : List Line) :
    (s.parts unit lines).flatMap (·.old) = lines.flatMap Line.whole := by
  induction lines generalizing s with
  | nil => rfl
  | cons l rest ih => rw [parts, List.flatMap_append, old_partsOf, ih, List.flatMap_cons]

theorem feedBefore_relaid (unit : IndentUnit) (s : IndentState) (rows : List Text) :
    Line.feedBefore (s.relaid unit rows) = Line.feedBefore rows := by
  cases rows with
  | nil => rfl
  | cons row rest => rfl

theorem form_append_returnOf (s : IndentState) (unit : IndentUnit) (row : Text) :
    (if isBlank (withoutReturn row) then withoutReturn row else s.form unit (withoutReturn row))
      ++ Line.returnOf row = s.laid unit row := by
  rw [isBlank_withoutReturn, s.form_congr unit (trim_withoutReturn row), laid]
  split
  · exact Line.withoutReturn_append_returnOf row
  · rfl

theorem shown_parts (unit : IndentUnit) (s : IndentState) (index start : Nat) (rows : List Text) :
    (s.parts unit (Line.ofPieces index start rows)).flatMap (·.shown) =
      ['\n'].intercalate (s.relaid unit rows) := by
  induction rows generalizing s index start with
  | nil => rfl
  | cons row rest ih =>
    rw [Line.ofPieces_cons, parts, List.flatMap_append, shown_partsOf, ih, ← List.append_assoc, relaid,
      Line.intercalate_cons, feedBefore_relaid, ← s.form_append_returnOf unit row,
      s.past_congr (trim_withoutReturn row)]
    rfl

theorem filterMap_edit?_annotate (unit : IndentUnit) (s : IndentState) (index start : Nat)
    (rows : List Text) :
    (s.annotate (Line.ofPieces index start rows)).filterMap (·.edit? unit) =
      ofParts start (s.parts unit (Line.ofPieces index start rows)) := by
  induction rows generalizing s index start with
  | nil => rfl
  | cons row rest ih =>
    rw [Line.ofPieces_cons, annotate_cons, List.filterMap_append, ih, parts, ofParts_append, old_partsOf]
    have first := s.ofParts_partsOf unit
      ⟨index, start, withoutReturn row, Line.returnOf row ++ Line.feedBefore rest⟩
    rw [← first]
    cases rest with
    | nil => rfl
    | cons next rest =>
      have sizes := congrArg size (Line.withoutReturn_append_returnOf row)
      rw [size_append] at sizes
      have stop : start + size row + 1 = start + size (Line.whole
          ⟨index, start, withoutReturn row, Line.returnOf row ++ Line.feedBefore (next :: rest)⟩) := by
        have feed : size (Line.feedBefore (next :: rest)) = 1 := rfl
        simp only [Line.whole, size_append, feed]
        omega
      rw [stop]

theorem filterMap_edit?_annotate_eq_nil_iff {unit : IndentUnit} {s : IndentState} {index start : Nat}
    {rows : List Text} :
    (s.annotate (Line.ofPieces index start rows)).filterMap (·.edit? unit) = [] ↔
      s.relaid unit rows = rows := by
  induction rows generalizing s index start with
  | nil => exact iff_of_true rfl rfl
  | cons row rest ih =>
    rw [Line.ofPieces_cons, annotate_cons, List.filterMap_append, List.append_eq_nil_iff,
      filterMap_edit?_eq_nil_iff, ih, Line.isBlank, isBlank_withoutReturn,
      s.form_congr unit (trim_withoutReturn row), s.past_congr (trim_withoutReturn row), relaid,
      List.cons.injEq, laid_eq_self_iff]

theorem exists_getElem?_relaid {unit : IndentUnit} {s : IndentState} {index start i : Nat}
    {rows : List Text} {old : Line} (found : (Line.ofPieces index start rows)[i]? = some old)
    (newIndex newStart : Nat) :
    ∃ new, (Line.ofPieces newIndex newStart (s.relaid unit rows))[i]? = some new ∧
      new.ending = old.ending ∧
      new.raw = if old.isBlank then old.raw
        else (s.after (((Line.ofPieces index start rows).take i).map (·.raw))).form unit old.raw := by
  induction rows generalizing s index start newIndex newStart i with
  | nil => simp [Line.ofPieces] at found
  | cons row rest ih =>
    rw [Line.ofPieces_cons] at found
    rw [relaid, Line.ofPieces_cons, Line.ofPieces_cons, feedBefore_relaid]
    cases i with
    | zero =>
      obtain rfl := Option.some.inj found
      refine ⟨_, rfl, ?_, ?_⟩
      · rw [s.returnOf_laid]
      · rw [s.withoutReturn_laid, Line.isBlank, isBlank_withoutReturn, List.take_zero, List.map_nil,
          after_nil, s.form_congr unit (trim_withoutReturn row)]
    | succ i =>
      obtain ⟨new, listed, ending, raw⟩ := @ih (s.past row) _ _ i found (newIndex + 1)
        (newStart + size (s.laid unit row) + 1)
      refine ⟨new, listed, ending, ?_⟩
      rw [raw, List.take_succ_cons, List.map_cons, after_cons, s.past_congr (trim_withoutReturn row)]

end IndentState

namespace Text

open IndentState

theorem applyEdits_layoutEdits (t : Text) (unit : IndentUnit) :
    t.applyEdits (t.layoutEdits unit) =
      .ok (['\n'].intercalate (initial.relaid unit (t.splitOn '\n'))) := by
  have edits : t.layoutEdits unit = ofParts 0 (initial.parts unit t.lines) :=
    filterMap_edit?_annotate unit initial 0 0 (t.splitOn '\n')
  have whole : (initial.parts unit t.lines).flatMap (·.old) = t := by
    rw [old_parts, flatMap_whole_lines]
  have applied := applyEdits_ofParts (initial.parts unit t.lines)
  rw [whole, ← edits, lines, shown_parts] at applied
  exact applied

theorem layout_eq (t : Text) (unit : IndentUnit) :
    t.layout unit = ['\n'].intercalate (initial.relaid unit (t.splitOn '\n')) := by
  rw [layout, applyEdits_layoutEdits]

theorem splitOn_layout (t : Text) (unit : IndentUnit) :
    (t.layout unit).splitOn '\n' = initial.relaid unit (t.splitOn '\n') := by
  rw [layout_eq, List.splitOn_intercalate]
  · exact lineFeed_not_mem_relaid fun row => lineFeed_not_mem_of_mem_splitOn
  · intro none
    have count := length_relaid unit initial (t.splitOn '\n')
    rw [none] at count
    exact List.splitOn_ne_nil '\n' t (List.length_eq_zero_iff.1 count.symm)

theorem layoutEdits_eq_nil_iff {t : Text} {unit : IndentUnit} :
    t.layoutEdits unit = [] ↔ initial.relaid unit (t.splitOn '\n') = t.splitOn '\n' :=
  filterMap_edit?_annotate_eq_nil_iff

theorem annotated_lineAt_mem_annotate {above below : List Text} {row t : Text} {offset : Nat}
    (rows : t.splitOn '\n' = above ++ row :: below)
    (reached : size (above.flatMap (· ++ ['\n'])) ≤ offset)
    (held : offset ≤ size (above.flatMap (· ++ ['\n'])) + size row) (full : isBlank row = false) :
    (initial.after above).annotated (t.lineAt offset) ∈ t.annotate ∧
      (t.lineAt offset).trimmed = trim row := by
  obtain ⟨found, raw, raws⟩ := exists_lineAt rows reached held
  have solid : (t.lineAt offset).isBlank = false := by
    rw [Line.isBlank, raw, isBlank_withoutReturn, full]
  refine ⟨?_, ?_⟩
  · have member := @annotated_mem_annotate initial t.lines above.length _ found solid
    rwa [raws, after_map_withoutReturn] at member
  · rw [Line.trimmed, raw, trim_withoutReturn]

/-- The edits of a layout are accepted, and they set each line that is not blank to the depth and the
content that the machine gives it. -/
theorem layout_lines (t : Text) (unit : IndentUnit) :
    t.applyEdits (t.layoutEdits unit) = .ok (t.layout unit) ∧
    (t.layout unit).lines.length = t.lines.length ∧
    t.annotate.map (·.line) = t.lines.filter (!·.isBlank) ∧
    ∀ i old, t.lines[i]? = some old →
      ∃ new, (t.layout unit).lines[i]? = some new ∧ new.ending = old.ending ∧
        (old.isBlank = true → new.raw = old.raw) ∧
        (old.isBlank = false → ∃ a ∈ t.annotate, a.line = old ∧
          new.raw = unit.render a.depth ++ a.content ∧
          a.content =
            if (initial.after ((t.lines.take i).map (·.raw))).inComment
              && startsWith ['*'] old.trimmed then ' ' :: old.trimmed else old.trimmed) := by
  have laidOut : (t.layout unit).lines = Line.ofPieces 0 0 (initial.relaid unit (t.splitOn '\n')) := by
    rw [lines, splitOn_layout]
  refine ⟨?_, ?_, map_line_annotate initial t.lines, ?_⟩
  · rw [applyEdits_layoutEdits, layout_eq]
  · rw [laidOut, Line.length_ofPieces, length_relaid, lines, Line.length_ofPieces]
  · intro i old found
    obtain ⟨new, listed, ending, raw⟩ := exists_getElem?_relaid found 0 0
    refine ⟨new, by rw [laidOut]; exact listed, ending, ?_, ?_⟩
    · intro blank
      rw [raw, if_pos blank]
    · intro full
      refine ⟨_, annotated_mem_annotate found full, rfl, ?_, content_step _ _⟩
      rw [raw, if_neg (by simp [full])]
      rfl

theorem layout_lines_of_comment :
    let t : Text := "a \x7b\r\n/*\n*  é \r\n \n".toList
    ∃ old new, t.lines[2]? = some old ∧ old.isBlank = false ∧
      (t.layout .standard).lines[2]? = some new ∧ new.ending = "\r\n".toList ∧
      new.raw = "     *  é".toList := by
  intro t
  let old : Line := ⟨2, 8, "*  é ".toList, "\r\n".toList⟩
  have found : t.lines[2]? = some old := by decide
  have full : old.isBlank = false := by decide
  obtain ⟨new, listed, ending, -, set⟩ := (layout_lines t .standard).2.2.2 2 old found
  obtain ⟨a, member, same, raw, content⟩ := set full
  have depth : ∀ b ∈ t.annotate, b.line = old → b.depth = 1 := by decide
  rw [depth a member same, content] at raw
  exact ⟨old, new, found, full, listed, ending, raw.trans (by decide)⟩

/-- What a text was laid out with before does not matter, and nothing is left to do when it is laid out
with the same unit. -/
theorem layout_absorbs (t : Text) (first second : IndentUnit) :
    (t.layout first).layout second = t.layout second ∧ (t.layout first).layoutEdits first = [] := by
  constructor
  · rw [layout_eq, splitOn_layout, relaid_relaid, ← layout_eq]
  · rw [layoutEdits_eq_nil_iff, splitOn_layout, relaid_relaid]

end Text

end ApexTidy
