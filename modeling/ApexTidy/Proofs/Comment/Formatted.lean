import ApexTidy.Proofs.Comment.Closing
import ApexTidy.Proofs.Comment.Landing
import ApexTidy.Proofs.Declaration.Edges
import ApexTidy.Proofs.Indent.Comments
import ApexTidy.Proofs.Indent.Layout

/-!
Documenting a laid out document. The lines of a block have the form that the machine gives to the lines of
a comment, and a method starts with no closing brace, so its block stands as deep as it does. If the
document had nothing left to lay out before, it has nothing after.
-/

namespace ApexTidy

open Text Tags

structure Text.EndsRow (t : Text) : Prop where
  nonempty : t ≠ []
  full : EndsFull t
  single : '\n' ∉ t

instance (t : Text) : Decidable (EndsRow t) :=
  decidable_of_iff (t ≠ [] ∧ EndsFull t ∧ '\n' ∉ t)
    ⟨fun ends => ⟨ends.1, ends.2.1, ends.2.2⟩, fun ends => ⟨ends.nonempty, ends.full, ends.single⟩⟩

namespace Style

theorem getLast?_escape (style : Style) (t : Text) : (style.escape t).getLast? = t.getLast? := by
  cases style with
  | text => rfl
  | snippet =>
    show (escapeSnippet t).getLast? = t.getLast?
    induction t with
    | nil => rfl
    | cons c t ih =>
      rw [escapeSnippet]
      split
      · rw [List.getLast?_cons_cons, List.getLast?_cons, ih, List.getLast?_cons]
      · rw [List.getLast?_cons, ih, List.getLast?_cons]

theorem endsRow_escape (style : Style) {t : Text} (ends : EndsRow t) : EndsRow (style.escape t) := by
  have last := style.getLast?_escape t
  refine ⟨?_, ?_, ?_⟩
  · intro none
    rw [none] at last
    exact ends.nonempty (List.getLast?_eq_none_iff.1 last.symm)
  · rw [EndsFull, last]
    exact ends.full
  · intro member
    exact ends.single (mem_of_mem_escape (by decide) member)

end Style

namespace DocComment

structure IsRow (line : Text) : Prop where
  start : [' ', '*'] <+: line
  ends : EndsRow line

theorem isRow_append {label t : Text} (start : [' ', '*'] <+: label) (single : '\n' ∉ label)
    (ends : EndsRow t) : IsRow (label ++ t) := by
  refine ⟨start.trans (List.prefix_append ..), ?_, ends.full.append ends.nonempty label, ?_⟩
  · intro none
    exact ends.nonempty (List.append_eq_nil_iff.1 none).2
  · rw [List.mem_append, not_or]
    exact ⟨single, ends.single⟩

theorem isRow_of_mem_tagged {lines : List Text} (ends : ∀ line ∈ lines, EndsRow line) :
    ∀ line ∈ tagged lines, IsRow line := by
  intro line member
  obtain ⟨t, listed, rfl | rfl⟩ := tagged_cases member
  · exact isRow_append (by decide) (by decide) (ends t listed)
  · exact isRow_append (by decide) (by decide) (ends t listed)

theorem IsFrom.endsRow_descriptionLines {source : Text} {c : DocComment} (sound : c.IsFrom source)
    (style : Style) : ∀ line ∈ c.descriptionLines style, EndsRow line := by
  intro line member
  rcases sound.descriptionLines_cases member with rfl | ⟨said, rfl, nonempty, part⟩
  · cases style with
    | text => decide
    | snippet => decide
  · exact style.endsRow_escape ⟨nonempty, part.trimmed.stop, part.single⟩

theorem isRow_of_mem_methodLines {s : Signature} (canonical : s.Canonical) {date : Text}
    (dated : EndsRow date) (style : Style) :
    ∀ line ∈ methodLines ⟨s.parameters, date, s.returnType⟩ style.escape, IsRow line := by
  have shape := canonical.onOneLine
  have typed := canonical.hasTypes
  intro line member
  rcases methodLines_cases member with ⟨p, inside, rfl⟩ | rfl | rfl
  · have name : '\n' ∉ style.escape p.name := by
      intro feed
      have solid := shape.words p inside '\n' (Style.mem_of_mem_escape (by decide) feed)
      exact absurd solid (by decide)
    have type : EndsRow p.type :=
      ⟨(typed.types p inside).1, (typed.types p inside).2.stop,
        (shape.types p inside).not_mem (by decide) (by decide)⟩
    have label : '\n' ∉ " * @param ".toList ++ style.escape p.name ++ [' '] := by
      simp [name]
    rw [← List.append_assoc]
    apply isRow_append _ label (style.endsRow_escape type)
    rw [List.append_assoc]
    exact List.IsPrefix.trans (by decide) (List.prefix_append ..)
  · exact isRow_append (by decide) (by decide) (style.endsRow_escape dated)
  · have returned : EndsRow s.returnType :=
      ⟨typed.returned.1, typed.returned.2.stop, shape.returned.not_mem (by decide) (by decide)⟩
    exact isRow_append (by decide) (by decide) (style.endsRow_escape returned)

end DocComment

theorem MethodTags.IsFrom.endsRow_date {source : Text} {m : MethodTags} (sound : m.IsFrom source) :
    EndsRow m.date :=
  ⟨sound.dated, sound.trimmed_date.stop, sound.lineFeed_not_mem_date⟩

namespace CommentPlan

open DocComment IndentState

section

variable {options : CommentOptions} {r : Region} {plan : CommentPlan} {s : Signature}

theorem Follows.exists_tags (follows : Follows options r plan) (declares : plan.declaration = .method s) :
    ∃ date, plan.comment.method = some ⟨s.parameters, date, s.returnType⟩ := by
  obtain ⟨-, -, told⟩ := merge_eq_some_iff.1 follows.comment
  rw [declares] at told
  generalize plan.comment.method = tags at told
  cases told
  exact ⟨_, rfl⟩

theorem Follows.isRow_of_mem_middle (follows : Follows options r plan)
    (declares : plan.declaration = .method s) :
    ∀ line ∈ plan.comment.middle options.style, IsRow line := by
  have classified := follows.declaration.symm.trans declares
  have canonical := Modifiers.canonical_of_classify classified
  obtain ⟨source, -, -, sound⟩ := follows.exists_source
  obtain ⟨date, tells⟩ := follows.exists_tags declares
  have dated := (sound.method _ tells).endsRow_date
  intro line member
  rw [middle, tells, List.mem_append, List.mem_append] at member
  rcases member with (tag | star) | method
  · exact isRow_of_mem_tagged (sound.endsRow_descriptionLines options.style) line tag
  · rw [List.mem_singleton.1 star]
    exact ⟨by decide, by decide⟩
  · exact isRow_of_mem_methodLines canonical dated options.style line method

theorem exists_ending_returnOf (t : Text) : ∃ ends, ending t = Line.returnOf ends ++ ['\n'] := by
  rcases ending_cases t with same | same
  · exact ⟨[], same⟩
  · exact ⟨['\r'], same⟩

/-- A block that nothing closes early is passed by the machine as it stands, at the depth it is at. -/
theorem Follows.exists_leads (follows : Follows options r plan) (declares : plan.declaration = .method s)
    (late : ¬ plan.comment.ClosesEarly) {unit : IndentUnit} {state : IndentState}
    (outside : state.inComment = false) (indent : plan.comment.indent = unit.render state.depth) :
    ∃ rows : List Text, (∀ row ∈ rows, '\n' ∉ row) ∧
      blockText r plan = rows.flatMap (· ++ ['\n']) ∧ Leads unit state rows state := by
  have lines := follows.isRow_of_mem_middle declares
  have clean : ¬ HeldIn blockClose (plan.comment.middle options.style) := by
    rwa [← infix_inner_iff_heldIn isMark_blockClose follows.isBlank_indent (isBlank_ending r.whole)
      (ending_ne_nil _), follows.blockClose_infix_inner_iff]
  have starred : ∀ line ∈ plan.comment.middle options.style, IsStarred line := by
    intro line member
    have row := lines line member
    exact ⟨row.start, row.ends.full, fun closes => clean ⟨line, member, closes.isInfix⟩⟩
  obtain ⟨ends, ending⟩ := exists_ending_returnOf r.whole
  refine ⟨_, ?_, ?_, leads_comment unit outside ends starred⟩
  · intro row member
    obtain ⟨line, listed, rfl⟩ := List.mem_map.1 member
    have single : '\n' ∉ line := by
      simp only [List.cons_append, List.mem_cons, List.mem_append, List.not_mem_nil, or_false] at listed
      rcases listed with rfl | inner | rfl
      · decide
      · exact (lines line inner).ends.single
      · decide
    simp only [List.mem_append, not_or]
    exact ⟨⟨unit.lineFeed_not_mem_render _, single⟩, Line.lineFeed_not_mem_returnOf ends⟩
  · rw [blockText, toText, follows.rendered, lines_eq, ending, indent, List.flatMap_map, List.flatMap_map]
    apply congrArg (List.flatMap · _)
    funext line
    simp only [List.append_assoc]

theorem isSpace_of_heading {previous : Option ExistingComment} {c : Char} {tail : Text}
    (starts : (heading r previous).inside = c :: tail) : isSpace c = false := by
  have full := startsFull_heading r previous
  rwa [starts] at full

/-- The rows of a document around a declaration: those above it, its own, and those below. -/
structure RowsAround (r : Region) (above : List Text) (own : Text) (below : List Text) : Prop where
  single : ∀ row ∈ above, '\n' ∉ row
  upper : aboveLastRow (heading r none).before = above.flatMap (· ++ ['\n'])
  lower : (lastRow (heading r none).before ++ (heading r none).inside ++ r.after).splitOn '\n' =
    own :: below

theorem exists_rowsAround {c : Char} {tail : Text} (starts : (heading r none).inside = c :: tail) :
    ∃ above rest below, RowsAround r above (lastRow (heading r none).before ++ c :: rest) below := by
  obtain ⟨above, single, whole⟩ := exists_rows (aboveLastRow (heading r none).before)
  rw [lastRow_aboveLastRow, List.append_nil] at whole
  have start : '\n' ∉ lastRow (heading r none).before ++ [c] := by
    rw [List.mem_append, List.mem_singleton, not_or]
    refine ⟨lineFeed_not_mem_lastRow _, ?_⟩
    rintro rfl
    exact absurd (isSpace_of_heading starts) (by decide)
  obtain ⟨rest, below, -, rows⟩ := exists_splitOn_append start (tail ++ r.after)
  refine ⟨above, rest, below, single, whole, ?_⟩
  rw [starts]
  simpa using rows

theorem RowsAround.splitOn_whole {above below : List Text} {own : Text}
    (around : RowsAround r above own below) : r.whole.splitOn '\n' = above ++ own :: below := by
  rw [← whole_heading r none, Region.whole, ← aboveLastRow_append_lastRow (heading r none).before,
    after_heading, around.upper, List.append_assoc, List.append_assoc, splitOn_flatMap around.single,
    ← List.append_assoc, around.lower]

theorem RowsAround.inComment_step {above below : List Text} {c : Char} {rest : Text}
    (around : RowsAround r above (lastRow (heading r none).before ++ c :: rest) below)
    (full : isSpace c = false)
    (code : ∀ a ∈ r.whole.annotate, a.line = r.whole.lineAt (heading r none).start →
      a.inComment = false) :
    ((initial.after above).step (trim (lastRow (heading r none).before ++ c :: rest))).inComment =
      false := by
  have start : (heading r none).start =
      size (above.flatMap (· ++ ['\n'])) + size (lastRow (heading r none).before) := by
    rw [Region.start, ← around.upper, ← size_append, aboveLastRow_append_lastRow]
  have solid : isBlank (lastRow (heading r none).before ++ c :: rest) = false := by
    simp [isBlank, full]
  have reached : size (above.flatMap (· ++ ['\n'])) ≤ (heading r none).start := by omega
  have held : (heading r none).start ≤ size (above.flatMap (· ++ ['\n']))
      + size (lastRow (heading r none).before ++ c :: rest) := by
    rw [size_append]
    omega
  obtain ⟨member, content⟩ := annotated_lineAt_mem_annotate around.splitOn_whole reached held solid
  rw [← content]
  exact code _ member rfl

theorem Follows.ne_brace (follows : Follows options r plan) (declares : plan.declaration = .method s)
    (builtIn : options.modifiers = .standard) {c : Char} {tail : Text}
    (starts : (heading r plan.previous).inside = c :: tail) : c ≠ '}' := by
  have classified := follows.declaration.symm.trans declares
  rw [builtIn] at classified
  rintro rfl
  exact Modifiers.standard_classify_brace classified ⟨tail, starts.symm⟩

theorem Follows.keeps_layout (follows : Follows options r plan) (declares : plan.declaration = .method s)
    (absent : plan.previous = none) (builtIn : options.modifiers = .standard)
    (first : isBlank (lastRow (heading r none).before) = true) (late : ¬ plan.comment.ClosesEarly)
    {unit : IndentUnit} (formatted : r.whole.layoutEdits unit = [])
    (code : ∀ a ∈ r.whole.annotate, a.line = r.whole.lineAt (heading r none).start →
      a.inComment = false) :
    ∃ changed, r.whole.applyEdits plan.edits = .ok changed ∧ changed.layoutEdits unit = [] := by
  obtain ⟨c, tail, starts⟩ := List.exists_cons_of_ne_nil follows.heading_ne_nil
  have other := follows.ne_brace declares builtIn starts
  rw [absent] at starts
  have solid := isSpace_of_heading starts
  obtain ⟨above, rest, below, around⟩ := exists_rowsAround starts
  rw [layoutEdits_eq_nil_iff, around.splitOn_whole, relaid_append_eq_self_iff] at formatted
  obtain ⟨laidAbove, laidBelow⟩ := formatted
  -- the machine comes to the declaration outside of comments, at the depth of its indentation
  obtain ⟨outside, depth⟩ := render_eq_of_laid first solid other (around.inComment_step solid code)
    (List.cons.inj laidBelow).1
  have indent : plan.comment.indent = unit.render (initial.after above).depth := by
    rw [follows.indent_eq, absent, indentation, leadingSpace_of_isBlank first, depth]
  obtain ⟨block, single, text, leads⟩ := follows.exists_leads declares late outside indent
  refine ⟨_, follows.applyEdits_above absent first, ?_⟩
  rw [layoutEdits_eq_nil_iff, around.upper, text, List.append_assoc, splitOn_flatMap around.single,
    splitOn_flatMap single, around.lower, relaid_append_eq_self_iff, relaid_append_eq_self_iff,
    leads.after]
  exact ⟨laidAbove, leads.laid, laidBelow⟩

end

end CommentPlan

open CommentPlan

/-- A document with nothing left to lay out has nothing left either once a method in it has got its first
block, provided that the method starts a line outside of comments and that no type of it holds the
closing mark. -/
theorem Text.planComment_keeps_layout {t : Text} {unit : IndentUnit} {selection : Selection}
    {options : CommentOptions} {plan : CommentPlan} {s : Signature} {r : Region}
    (formatted : t.layoutEdits unit = []) (builtIn : options.modifiers = .standard)
    (planned : t.planComment selection options = .ok (some plan))
    (declares : plan.declaration = .method s) (absent : plan.previous = none)
    (covered : selection.region t = .ok r) (first : isBlank (lastRow (heading r none).before) = true)
    (code : ∀ a ∈ t.annotate, a.line = t.lineAt (heading r none).start → a.inComment = false)
    (clean : ¬ blockClose <:+: s.returnType ∧ ∀ p ∈ s.parameters.toList, ¬ blockClose <:+: p.type) :
    ∃ changed, t.applyEdits plan.edits = .ok changed ∧ changed.layoutEdits unit = [] := by
  obtain ⟨region, same, follows⟩ := planComment_eq_ok_some_iff.1 planned
  obtain rfl : r = region := by
    rw [covered] at same
    exact Except.ok.inj same
  obtain rfl := Selection.whole_of_region covered
  have late : ¬ plan.comment.ClosesEarly := by
    intro early
    obtain ⟨m, tells, held⟩ := early
    obtain ⟨date, known⟩ := follows.exists_tags declares
    rw [known, Option.some.injEq] at tells
    subst tells
    rcases held with returned | ⟨p, member, typed⟩
    · exact clean.1 returned
    · exact clean.2 p member typed
  exact follows.keeps_layout declares absent builtIn first late formatted code

theorem Text.planComment_keeps_layout_of_member :
    let t : Text := "class A \x7b\r\n\tpublic Id f(List<Id> a) \x7b\r\n\t\x7d\r\n\x7d".toList
    t.layoutEdits .tab = [] ∧
      ∃ plan, t.planComment (.ofLines 1 2) ⟨.standard, .snippet, ⟨2024, 3, 5, by decide⟩⟩ =
          .ok (some plan) ∧
        ∃ changed, t.applyEdits plan.edits = .ok changed ∧ changed.layoutEdits .tab = [] := by
  intro t
  let s : Signature := ⟨"f".toList, "Id".toList, .ofList [⟨"a".toList, "List<Id>".toList⟩]⟩
  let comment : DocComment := ⟨['\t'], none, some ⟨s.parameters, "5 March 2024".toList, s.returnType⟩⟩
  let plan : CommentPlan :=
    ⟨.method s, none, comment, comment.lines .snippet,
      [.insertion 11 (DocComment.toText "\r\n".toList (comment.lines .snippet))]⟩
  let r : Region :=
    ⟨"class A \x7b\r\n".toList, "\tpublic Id f(List<Id> a) \x7b\r\n\t\x7d\r\n".toList, "\x7d".toList⟩
  have formatted : t.layoutEdits .tab = [] := by decide +kernel
  have planned : t.planComment (.ofLines 1 2) ⟨.standard, .snippet, ⟨2024, 3, 5, by decide⟩⟩ =
    .ok (some plan) := planComment_of_toOption (by decide +kernel)
  obtain ⟨region, covered, -⟩ := planComment_eq_ok_some_iff.1 planned
  have known : (Selection.region (.ofLines 1 2) t).toOption = some r := by decide +kernel
  rw [covered] at known
  cases known
  refine ⟨formatted, plan, planned, ?_⟩
  exact planComment_keeps_layout formatted rfl planned rfl rfl covered (by decide +kernel)
    (by decide +kernel) (by decide +kernel)

end ApexTidy
