import ApexTidy.Proofs.Comment.Endings

/-!
The line of a documented declaration. Once the edits of a plan are made, the declaration stands on a line
of its own. What precedes it there is the indentation of its block, unless the block takes the place of
an old one and no line feed parts the old block from the declaration: then it is the blanks between the
two, with the indentation in front of them only where code precedes the block.
-/

namespace ApexTidy

open Text Declaration

namespace CommentPlan

def between (r : Region) (old : ExistingComment) : Text :=
  (heading r (some old)).before.drop (old.region.before ++ old.region.inside).length

/-- The blanks behind the old block, if there is one, lead to the indentation of the new one: the
declaration has a line of its own, or it brings along what the new block does not put before it. -/
def KeepsIndent (r : Region) (plan : CommentPlan) : Prop :=
  ∀ old, plan.previous = some old → '\n' ∈ between r old ∨
    between r old = if isBlank (lastRow old.region.before) then plan.comment.indent else []

/-- After the edits the declaration follows `front`, and all of them were made before it. -/
structure Moves (r : Region) (plan : CommentPlan) (front : Text) : Prop where
  applied : r.whole.applyEdits plan.edits =
    .ok (front ++ (heading r plan.previous).inside ++ (heading r plan.previous).after)
  earlier : ∀ e ∈ plan.edits, e.stop ≤ (heading r plan.previous).start

section

variable {options : CommentOptions} {r : Region} {plan : CommentPlan}

theorem Follows.before_heading (follows : Follows options r plan) {old : ExistingComment}
    (found : plan.previous = some old) :
    (heading r (some old)).before = old.region.before ++ old.region.inside ++ between r old ∧
      old.region.after = between r old ++ (heading r (some old)).inside ++ r.after ∧
      isBlank (lastRow (between r old)) = true := by
  have located := follows.previous.symm.trans found
  have declares := follows.heading_ne_nil
  rw [found] at declares
  obtain ⟨rest, after, skipped⟩ := ExistingComment.exists_rest located declares
  obtain ⟨passed, cut⟩ := skipLineComments_suffix rest
  have row := isBlank_lastRow_of_skipLineComments cut (by rw [skipped]; exact declares)
  rw [skipped] at cut
  have before : (heading r (some old)).before = old.region.before ++ old.region.inside ++ passed := by
    have whole := ExistingComment.whole_of_of? located
    rw [Region.whole, Region.whole, after, ← cut, ← before_append_inside_heading r (some old)] at whole
    simp only [← List.append_assoc] at whole
    exact (List.append_cancel_right (List.append_cancel_right whole)).symm
  have kept : between r old = passed := by rw [between, before, List.drop_left]
  rw [kept]
  exact ⟨before, by rw [after, cut], row⟩

theorem Follows.moves_above (follows : Follows options r plan) (absent : plan.previous = none)
    (blank : isBlank (lastRow (heading r none).before) = true) :
    Moves r plan (aboveLastRow (heading r none).before ++ blockText r plan
      ++ lastRow (heading r none).before) := by
  constructor
  · rw [follows.applyEdits_above absent blank, absent, after_heading]
    simp only [List.append_assoc]
  · intro e member
    rw [follows.edits_above absent blank, List.mem_singleton] at member
    have sizes := congrArg size (aboveLastRow_append_lastRow (heading r none).before)
    rw [size_append] at sizes
    rw [member, absent, Region.start]
    show size (aboveLastRow (heading r none).before) ≤ _
    omega

theorem Follows.moves_between (follows : Follows options r plan) (absent : plan.previous = none)
    (shared : isBlank (lastRow (heading r none).before) = false) :
    Moves r plan ((heading r none).before ++ (ending r.whole ++ blockText r plan)
      ++ plan.comment.indent) := by
  constructor
  · rw [follows.applyEdits_between absent shared, absent, after_heading]
    simp only [List.append_assoc]
  · intro e member
    rw [follows.edits_between absent shared, List.mem_singleton] at member
    rw [member, absent]
    exact Nat.le_refl _

def lead (plan : CommentPlan) (old : ExistingComment) : Text :=
  if isBlank (lastRow old.region.before) then [] else plan.comment.indent

theorem Follows.moves_instead (follows : Follows options r plan) {old : ExistingComment}
    (found : plan.previous = some old) :
    ∃ above, Moves r plan (above ++ blockText r plan ++ (plan.lead old ++ between r old)) := by
  obtain ⟨before, after, -⟩ := follows.before_heading found
  refine ⟨old.region.before ++ if isBlank (lastRow old.region.before) then [] else ending r.whole,
    ?_, ?_⟩
  · rw [follows.applyEdits_instead found, after, found, after_heading, lead]
    split
    · simp only [List.append_assoc, List.append_nil, List.nil_append]
    · simp only [List.append_assoc]
  · intro e member
    have start : (heading r (some old)).start =
        size old.region.before + size old.region.inside + size (between r old) := by
      rw [Region.start, before, size_append, size_append]
    rw [follows.edits_instead found] at member
    rw [found, start]
    simp only [List.mem_cons, List.not_mem_nil, or_false] at member
    rcases member with rfl | rfl
    · show old.region.stop ≤ _
      rw [Region.stop]
      omega
    · show old.region.start ≤ _
      rw [Region.start]
      omega

theorem Follows.lastRow_lead_iff (follows : Follows options r plan) {old : ExistingComment}
    (found : plan.previous = some old) :
    lastRow (plan.lead old ++ between r old) = plan.comment.indent ↔
      '\n' ∈ between r old ∨
        between r old = if isBlank (lastRow old.region.before) then plan.comment.indent else [] := by
  obtain ⟨before, -, row⟩ := follows.before_heading found
  by_cases feed : '\n' ∈ between r old
  · -- the declaration kept a row of its own, and its blanks are the indentation
    refine iff_of_true ?_ (Or.inl feed)
    rw [follows.indent_eq, found, indentation, before, lastRow_append_of_mem _ feed,
      lastRow_append_of_mem _ feed, leadingSpace_of_isBlank row]
  · have absent : '\n' ∉ plan.lead old := by
      rw [lead]
      split
      · exact List.not_mem_nil
      · exact follows.lineFeed_not_mem_indent
    rw [lastRow_append_of_not_mem _ feed, lastRow_of_not_mem absent, or_iff_right feed, lead]
    split
    · rw [List.nil_append]
    · exact List.append_right_eq_self

theorem Follows.exists_moves (follows : Follows options r plan) :
    ∃ front, Moves r plan front ∧ (lastRow front = plan.comment.indent ↔ plan.KeepsIndent r) := by
  cases previous : plan.previous with
  | none =>
    have free : plan.KeepsIndent r := by
      intro old found
      rw [previous] at found
      cases found
    have indent : plan.comment.indent = leadingSpace (lastRow (heading r none).before) := by
      rw [follows.indent_eq, previous]
      rfl
    by_cases blank : isBlank (lastRow (heading r none).before) = true
    · refine ⟨_, follows.moves_above previous blank, iff_of_true ?_ free⟩
      rw [lastRow_append_of_lastRow_nil (follows.lastRow_blockText _),
        lastRow_of_not_mem (lineFeed_not_mem_lastRow _), indent, leadingSpace_of_isBlank blank]
    · refine ⟨_, follows.moves_between previous (by simpa using blank), iff_of_true ?_ free⟩
      rw [← List.append_assoc, lastRow_append_of_lastRow_nil (follows.lastRow_blockText _),
        lastRow_of_not_mem follows.lineFeed_not_mem_indent]
  | some old =>
    obtain ⟨above, moves⟩ := follows.moves_instead previous
    refine ⟨_, moves, ?_⟩
    rw [lastRow_append_of_lastRow_nil (follows.lastRow_blockText _), follows.lastRow_lead_iff previous]
    constructor
    · intro leads other found
      rw [previous, Option.some.injEq] at found
      exact found ▸ leads
    · intro keeps
      exact keeps old previous

end

end CommentPlan

open CommentPlan

/-- After the edits of a plan the declaration stands on a line of its own, and what precedes it there is
the indentation of its block exactly if the blanks behind an old block lead to it. -/
theorem Text.planComment_keeps_indent_iff {t : Text} {selection : Selection} {options : CommentOptions}
    {plan : CommentPlan} (planned : t.planComment selection options = .ok (some plan)) :
    ∃ r front, selection.region t = .ok r ∧
      t.applyEdits plan.edits =
        .ok (front ++ (heading r plan.previous).inside ++ (heading r plan.previous).after) ∧
      (∀ e ∈ plan.edits, e.stop ≤ (heading r plan.previous).start) ∧
      (lastRow front = plan.comment.indent ↔ plan.KeepsIndent r) := by
  obtain ⟨r, covered, follows⟩ := planComment_eq_ok_some_iff.1 planned
  obtain rfl := Selection.whole_of_region covered
  obtain ⟨front, moves, row⟩ := follows.exists_moves
  exact ⟨r, front, covered, moves.applied, moves.earlier, row⟩

theorem Text.planComment_keeps_indent_behind_code :
    let t : Text := "  x(); /** d */ void f() \x7b\n\x7d".toList
    let selection : Selection := .between ⟨0, 7⟩ ⟨1, 1⟩
    ∃ plan r front, t.planComment selection ⟨.standard, .text, ⟨2024, 3, 5, by decide⟩⟩ = .ok (some plan) ∧
      selection.region t = .ok r ∧ plan.KeepsIndent r ∧
      t.applyEdits plan.edits = .ok (front ++ "void f() \x7b\n\x7d".toList) ∧
      lastRow front = "  ".toList := by
  intro t selection
  let old : ExistingComment :=
    ⟨⟨[], []⟩, ⟨"  x(); ".toList, "/** d */ ".toList, "void f() \x7b\n\x7d".toList⟩, .leading⟩
  let tags : MethodTags := ⟨.ofList [], "5 March 2024".toList, "void".toList⟩
  let comment : DocComment := ⟨"  ".toList, none, some tags⟩
  let new : Text := '\n' :: DocComment.toText ['\n'] (comment.lines .text) ++ "  ".toList
  let plan : CommentPlan :=
    ⟨.method ⟨"f".toList, "void".toList, tags.parameters⟩, some old, comment, comment.lines .text,
      [.deletion 7 16, .insertion 7 new]⟩
  have planned : t.planComment selection ⟨.standard, .text, ⟨2024, 3, 5, by decide⟩⟩ =
    .ok (some plan) := planComment_of_toOption (by decide +kernel)
  obtain ⟨r, front, covered, applied, -, row⟩ := planComment_keeps_indent_iff planned
  have known : (selection.region t).toOption =
      some ⟨"  x(); ".toList, "/** d */ void f() \x7b\n\x7d".toList, []⟩ := by decide +kernel
  rw [covered] at known
  cases known
  have keeps : plan.KeepsIndent ⟨"  x(); ".toList, "/** d */ void f() \x7b\n\x7d".toList, []⟩ := by
    intro other found
    cases found
    right
    decide +kernel
  refine ⟨plan, _, front, planned, covered, keeps, ?_, row.2 keeps⟩
  rw [applied, List.append_assoc]
  rfl

/-- An indented block that shares its line with the declaration takes the indentation along. -/
theorem Text.planComment_drops_indent :
    let t : Text := "    /** d */ void f() \x7b\n    \x7d\n".toList
    let selection : Selection := .ofLines 0 1
    ∃ plan r front, t.planComment selection ⟨.standard, .text, ⟨2024, 3, 5, by decide⟩⟩ = .ok (some plan) ∧
      selection.region t = .ok r ∧
      t.applyEdits plan.edits =
        .ok (front ++ (heading r plan.previous).inside ++ (heading r plan.previous).after) ∧
      (∀ e ∈ plan.edits, e.stop ≤ (heading r plan.previous).start) ∧
      plan.comment.indent = "    ".toList ∧ lastRow front ≠ plan.comment.indent := by
  intro t selection
  let old : ExistingComment :=
    ⟨⟨[], []⟩, ⟨[], "    /** d */ ".toList, "void f() \x7b\n    \x7d\n".toList⟩, .leading⟩
  let tags : MethodTags := ⟨.ofList [], "5 March 2024".toList, "void".toList⟩
  let comment : DocComment := ⟨"    ".toList, none, some tags⟩
  let plan : CommentPlan :=
    ⟨.method ⟨"f".toList, "void".toList, tags.parameters⟩, some old, comment, comment.lines .text,
      [.deletion 0 13, .insertion 0 (DocComment.toText ['\n'] (comment.lines .text))]⟩
  have planned : t.planComment selection ⟨.standard, .text, ⟨2024, 3, 5, by decide⟩⟩ =
    .ok (some plan) := planComment_of_toOption (by decide +kernel)
  obtain ⟨r, covered, follows⟩ := planComment_eq_ok_some_iff.1 planned
  have known : (selection.region t).toOption = some ⟨[], t, []⟩ := by decide +kernel
  rw [covered] at known
  cases known
  obtain ⟨front, moves, row⟩ := follows.exists_moves
  refine ⟨plan, _, front, planned, covered, moves.applied, moves.earlier, rfl, ?_⟩
  rw [Ne, row]
  intro keeps
  have leads := keeps old rfl
  exact absurd leads (by decide +kernel)

end ApexTidy
