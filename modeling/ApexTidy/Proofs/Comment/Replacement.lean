import ApexTidy.Proofs.Comment.Planning
import ApexTidy.Proofs.Edit.Splice

/-!
What the edits of a plan do to a document. They are always accepted, and they put the new block in the
place of one region: the old block with the blanks that go with it, or an empty region at the
declaration. All else stays.
-/

namespace ApexTidy

open Text

/-- Blanks, one block in full, and blanks. -/
def Block.IsSurrounded (t : Text) : Prop :=
  ∃ lead body trail, t = lead ++ written body ++ trail ∧ isBlank lead = true ∧
    isBlank trail = true ∧ ¬ Tags.blockClose <:+: body

theorem ExistingComment.isSurrounded_of_of? {r : Region} {old : ExistingComment}
    (found : of? r = some old) : Block.IsSurrounded old.region.inside := by
  obtain ⟨block, located, rfl⟩ := exists_of_of? found
  obtain ⟨body, holds, clean⟩ := Block.exists_body_of_locate located
  obtain ⟨lead, trail, inside, -, -, blank, -, blanks⟩ := block.region.widen_spec
  exact ⟨lead, body, trail, by rw [inside, holds], blank, blanks, clean⟩

theorem ExistingComment.whole_of_of? {r : Region} {old : ExistingComment} (found : of? r = some old) :
    old.region.whole = r.whole := by
  obtain ⟨block, located, rfl⟩ := exists_of_of? found
  rw [Region.whole_widen, Block.whole_of_locate located]

theorem Block.IsSurrounded.ne_nil {t : Text} (surrounded : IsSurrounded t) : t ≠ [] := by
  obtain ⟨lead, body, trail, rfl, -⟩ := surrounded
  simp [written, Tags.blockOpen]

namespace CommentPlan

/-- At the start of a row and behind code alike, the block goes to the place itself. -/
theorem insertion_eq {before : Text} (fresh : isBlank (lastRow before) = true → lastRow before = [])
    (indent ending : Text) (lines : List Text) :
    insertion before indent ending lines = .insertion (size before)
      (if isBlank (lastRow before) then DocComment.toText ending lines
        else ending ++ DocComment.toText ending lines ++ indent) := by
  rw [insertion]
  split
  · rename_i blank
    rw [aboveLastRow_of_lastRow_nil (fresh blank)]
  · rfl

section

variable {options : CommentOptions} {r : Region} {plan : CommentPlan}

def blockText (r : Region) (plan : CommentPlan) : Text :=
  DocComment.toText (ending r.whole) plan.rendered

theorem Follows.edits_above (follows : Follows options r plan) (absent : plan.previous = none)
    (blank : isBlank (lastRow (heading r none).before) = true) :
    plan.edits = [.insertion (size (aboveLastRow (heading r none).before)) (blockText r plan)] := by
  rw [follows.edits, absent, insertion, if_pos (by exact blank)]
  rfl

theorem Follows.edits_between (follows : Follows options r plan) (absent : plan.previous = none)
    (shared : isBlank (lastRow (heading r none).before) = false) :
    plan.edits = [.insertion (size (heading r none).before)
      (ending r.whole ++ blockText r plan ++ plan.comment.indent)] := by
  rw [follows.edits, follows.indent_eq, absent, insertion, if_neg (by simp [anchor, shared])]
  rfl

theorem Follows.edits_instead (follows : Follows options r plan) {old : ExistingComment}
    (found : plan.previous = some old) :
    plan.edits = [.deletion old.region.start old.region.stop,
      .insertion old.region.start (if isBlank (lastRow old.region.before) then blockText r plan
        else ending r.whole ++ blockText r plan ++ plan.comment.indent)] := by
  have fresh : isBlank (lastRow old.region.before) = true → lastRow old.region.before = [] := by
    obtain ⟨block, -, rfl⟩ := ExistingComment.exists_of_of? (follows.previous.symm.trans found)
    exact lastRow_beforeBlanks
  rw [follows.edits, follows.indent_eq, found]
  exact congrArg ([Edit.deletion old.region.start old.region.stop, ·]) (insertion_eq fresh ..)

theorem Follows.applyEdits_above (follows : Follows options r plan) (absent : plan.previous = none)
    (blank : isBlank (lastRow (heading r none).before) = true) :
    r.whole.applyEdits plan.edits = .ok (aboveLastRow (heading r none).before ++ blockText r plan
      ++ (lastRow (heading r none).before ++ (heading r none).inside ++ r.after)) := by
  have whole : r.whole = aboveLastRow (heading r none).before
      ++ (lastRow (heading r none).before ++ (heading r none).inside ++ r.after) := by
    rw [← List.append_assoc, ← List.append_assoc, aboveLastRow_append_lastRow]
    exact (whole_heading r none).symm
  rw [follows.edits_above absent blank]
  conv => lhs; arg 1; rw [whole]
  exact applyEdits_insertion ..

theorem Follows.applyEdits_between (follows : Follows options r plan) (absent : plan.previous = none)
    (shared : isBlank (lastRow (heading r none).before) = false) :
    r.whole.applyEdits plan.edits = .ok ((heading r none).before
      ++ (ending r.whole ++ blockText r plan ++ plan.comment.indent)
      ++ ((heading r none).inside ++ r.after)) := by
  have whole : r.whole = (heading r none).before ++ ((heading r none).inside ++ r.after) := by
    rw [← List.append_assoc]
    exact (whole_heading r none).symm
  rw [follows.edits_between absent shared]
  conv => lhs; arg 1; rw [whole]
  exact applyEdits_insertion ..

theorem Follows.applyEdits_instead (follows : Follows options r plan) {old : ExistingComment}
    (found : plan.previous = some old) :
    r.whole.applyEdits plan.edits = .ok (old.region.before
      ++ (if isBlank (lastRow old.region.before) then blockText r plan
        else ending r.whole ++ blockText r plan ++ plan.comment.indent) ++ old.region.after) := by
  have located := follows.previous.symm.trans found
  rw [follows.edits_instead found, ← ExistingComment.whole_of_of? located]
  exact Region.applyEdits_replacement (ExistingComment.isSurrounded_of_of? located).ne_nil _

/-- In each case one region gives its place to the block, which may have a line of its own to end and
one to begin. -/
theorem Follows.exists_replacement (follows : Follows options r plan) :
    ∃ (region : Region) (new : Text), region.whole = r.whole ∧
      (plan.previous.map (·.region) = some region ∧ Block.IsSurrounded region.inside
        ∨ plan.previous = none ∧ region.inside = []) ∧
      (new = blockText r plan ∨ new = ending r.whole ++ blockText r plan ++ plan.comment.indent) ∧
      r.whole.applyEdits plan.edits = .ok (region.before ++ new ++ region.after) := by
  cases previous : plan.previous with
  | none =>
    have whole := whole_heading r none
    cases shared : isBlank (lastRow (heading r none).before) with
    | true =>
      refine ⟨⟨aboveLastRow (heading r none).before, [],
        lastRow (heading r none).before ++ (heading r none).inside ++ r.after⟩, _, ?_,
        Or.inr ⟨rfl, rfl⟩, Or.inl rfl, follows.applyEdits_above previous shared⟩
      rw [← whole, Region.whole, List.append_nil, ← List.append_assoc, ← List.append_assoc,
        aboveLastRow_append_lastRow]
      rfl
    | false =>
      refine ⟨⟨(heading r none).before, [], (heading r none).inside ++ r.after⟩, _, ?_,
        Or.inr ⟨rfl, rfl⟩, Or.inr rfl, follows.applyEdits_between previous shared⟩
      rw [← whole, Region.whole, List.append_nil, ← List.append_assoc]
      rfl
  | some old =>
    have located := follows.previous.symm.trans previous
    refine ⟨old.region, _, ExistingComment.whole_of_of? located,
      Or.inl ⟨rfl, ExistingComment.isSurrounded_of_of? located⟩, ?_,
      follows.applyEdits_instead previous⟩
    split
    · exact Or.inl rfl
    · exact Or.inr rfl

end

end CommentPlan

/-- The edits of every plan are accepted and replace one region, which is empty or an old block. -/
theorem Text.applyEdits_planComment {t : Text} {selection : Selection} {options : CommentOptions}
    {plan : CommentPlan} (planned : t.planComment selection options = .ok (some plan)) :
    plan.edits.length = (if plan.previous.isSome then 2 else 1) ∧
    ∃ (r : Region) (ending new : Text),
      r.whole = t ∧
      (plan.previous.map (·.region) = some r ∧ Block.IsSurrounded r.inside
        ∨ plan.previous = none ∧ r.inside = []) ∧
      (ending = ['\n'] ∨ ending = ['\r', '\n']) ∧
      plan.rendered = plan.comment.lines options.style ∧
      (new = DocComment.toText ending plan.rendered
        ∨ new = ending ++ DocComment.toText ending plan.rendered ++ plan.comment.indent) ∧
      t.applyEdits plan.edits = .ok (r.before ++ new ++ r.after) := by
  obtain ⟨r, covered, follows⟩ := planComment_eq_ok_some_iff.1 planned
  obtain rfl := Selection.whole_of_region covered
  refine ⟨?_, ?_⟩
  · rw [follows.edits]
    cases plan.previous with
    | none => rfl
    | some old => rfl
  · obtain ⟨region, new, whole, replaces, text, applied⟩ := follows.exists_replacement
    exact ⟨region, _, new, whole, replaces, CommentPlan.ending_cases _, follows.rendered, text,
      applied⟩

theorem Text.applyEdits_planComment_shared_line :
    let t : Text := "x(); /** @description é */ void f(Id a) \x7b\r\n\x7d".toList
    ∃ plan, t.planComment (.between ⟨0, 5⟩ ⟨1, 1⟩) ⟨.standard, .text, ⟨2024, 3, 5, by decide⟩⟩ =
        .ok (some plan) ∧ plan.edits.length = 2 ∧
      ∃ (r : Region) (new : Text), Block.IsSurrounded r.inside ∧
        t.applyEdits plan.edits = .ok (r.before ++ new ++ r.after) := by
  intro t
  let old : ExistingComment :=
    ⟨⟨"é".toList, []⟩, ⟨"x(); ".toList, "/** @description é */ ".toList, "void f(Id a) \x7b\r\n\x7d".toList⟩,
      .leading⟩
  let comment : DocComment :=
    ⟨[], some "é".toList, some ⟨.ofList [⟨"a".toList, "Id".toList⟩], "5 March 2024".toList,
      "void".toList⟩⟩
  let new : Text := "\r\n".toList ++ DocComment.toText "\r\n".toList (comment.lines .text)
  let plan : CommentPlan :=
    ⟨.method ⟨"f".toList, "void".toList, .ofList [⟨"a".toList, "Id".toList⟩]⟩, some old, comment,
      comment.lines .text, [.deletion 5 28, .insertion 5 new]⟩
  have planned : t.planComment (.between ⟨0, 5⟩ ⟨1, 1⟩)
      ⟨.standard, .text, ⟨2024, 3, 5, by decide⟩⟩ = .ok (some plan) :=
    planComment_of_toOption (by decide +kernel)
  obtain ⟨count, r, -, new, -, replaces, -, -, -, applied⟩ := applyEdits_planComment planned
  refine ⟨plan, planned, count, r, new, ?_, applied⟩
  rcases replaces with ⟨-, surrounded⟩ | ⟨none, -⟩
  · exact surrounded
  · simp [plan] at none

end ApexTidy
