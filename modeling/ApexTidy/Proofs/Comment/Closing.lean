import ApexTidy.Proofs.Comment.Keeping
import ApexTidy.Proofs.Comment.Layout

/-!
Where a new block closes. Nothing that it takes over from an old block can close it, nor can names and
dates; a type is shown as the signature has it, and only one that holds the closing mark closes the
block too early.
-/

namespace ApexTidy

open Text Tags

/-- A type that a block shows holds the closing mark. -/
def DocComment.ClosesEarly (c : DocComment) : Prop :=
  ∃ m, c.method = some m ∧
    (blockClose <:+: m.returnType ∨ ∃ p ∈ m.parameters.toList, blockClose <:+: p.type)

theorem DocComment.IsFrom.not_heldIn_description {source d : Text} {c : DocComment}
    (sound : c.IsFrom source) (clean : ¬ blockClose <:+: source) (described : c.description = some d) :
    ¬ HeldIn blockClose (paragraph d) := by
  obtain ⟨lines, description⟩ := sound.description d described
  rw [description.paragraph_eq]
  intro held
  obtain ⟨line, member, inside⟩ := held
  exact clean (inside.trans (description.full line member).2.part)

theorem MethodTags.IsFrom.holds_blockClose_iff {source : Text} {m : MethodTags} (sound : m.IsFrom source)
    (clean : ¬ blockClose <:+: source) :
    m.Holds blockClose ↔
      blockClose <:+: m.returnType ∨ ∃ p ∈ m.parameters.toList, blockClose <:+: p.type := by
  have date : ¬ blockClose <:+: m.date := by
    rcases sound.date with line | ⟨today, written⟩
    · exact fun inside => clean (inside.trans line.part)
    · rw [written]
      exact isMark_blockClose.not_infix_of_not_mem (today.not_mem_format (by decide))
  obtain ⟨s, shape, parameters, -⟩ := sound.signature
  have name : ∀ p ∈ m.parameters.toList, ¬ blockClose <:+: p.name := by
    intro p member
    rw [parameters] at member
    exact isMark_blockClose.not_infix_of_not_mem
      (not_mem_of_isIdentifier (shape.names p member) (by decide))
  rw [Holds, or_iff_right date]
  constructor
  · intro held
    rcases held with ⟨p, member, named | typed⟩ | returned
    · exact absurd named (name p member)
    · exact Or.inr ⟨p, member, typed⟩
    · exact Or.inl returned
  · intro held
    rcases held with returned | ⟨p, member, typed⟩
    · exact Or.inr returned
    · exact Or.inl ⟨p, member, Or.inr typed⟩

theorem CommentPlan.Follows.blockClose_infix_inner_iff {options : CommentOptions} {r : Region}
    {plan : CommentPlan} (follows : Follows options r plan) :
    blockClose <:+: plan.comment.inner options.style (ending r.whole) ↔ plan.comment.ClosesEarly := by
  obtain ⟨source, -, clean, sound⟩ := follows.exists_source
  have indent := follows.isBlank_indent
  have described : ¬ ∃ d, plan.comment.description = some d ∧ HeldIn blockClose (paragraph d) := by
    intro held
    obtain ⟨d, some, inside⟩ := held
    exact sound.not_heldIn_description clean some inside
  rw [DocComment.infix_inner_iff isMark_blockClose indent (isBlank_ending _) (ending_ne_nil _),
    or_iff_right described, DocComment.ClosesEarly]
  constructor
  · intro held
    obtain ⟨m, tells, inside⟩ := held
    exact ⟨m, tells, ((sound.method m tells).holds_blockClose_iff clean).1 inside⟩
  · intro early
    obtain ⟨m, tells, inside⟩ := early
    exact ⟨m, tells, ((sound.method m tells).holds_blockClose_iff clean).2 inside⟩

/-- A planned block opens once, after its indentation, and is closed by the end of its last line unless
a type in it closes it before. -/
theorem Text.planComment_closes_iff {t : Text} {selection : Selection} {options : CommentOptions}
    {plan : CommentPlan} (planned : t.planComment selection options = .ok (some plan)) :
    let ending := CommentPlan.ending t
    let block := DocComment.toText ending plan.rendered
    isBlank plan.comment.indent = true ∧ plan.comment.indent ++ blockOpen <+: block ∧
      blockClose ++ ending <:+ block ∧
      (IsFirstFrom blockClose block (size (plan.comment.indent ++ blockOpen))
        (size block - size (blockClose ++ ending)) ↔ ¬ plan.comment.ClosesEarly) := by
  obtain ⟨r, covered, follows⟩ := planComment_eq_ok_some_iff.1 planned
  obtain rfl := Selection.whole_of_region covered
  intro ending block
  let inner := plan.comment.inner options.style ending
  have shape : block = plan.comment.indent ++ blockOpen ++ (inner ++ blockClose ++ ending) := by
    show DocComment.toText ending plan.rendered = _
    rw [follows.rendered, DocComment.toText_lines, Block.written]
    simp [inner]
  have place : size block - size (blockClose ++ ending) =
      size (plan.comment.indent ++ blockOpen) + size inner := by
    rw [shape]
    simp only [size_append]
    omega
  refine ⟨?_, ?_, ?_, ?_⟩
  · exact follows.isBlank_indent
  · rw [shape]
    exact List.prefix_append ..
  · rw [shape, List.append_assoc inner, ← List.append_assoc]
    exact List.suffix_append ..
  · rw [place, shape, isFirstFrom_iff (by decide)]
    show ¬ blockClose <:+: inner ++ ['*'] ↔ _
    rw [blockClose_infix_append_star, follows.blockClose_infix_inner_iff]

theorem Text.planComment_closes_once :
    let t : Text := "/** @description *a* */ void f(Map<Id, Id> m) \x7b\n\x7d".toList
    ∃ plan, t.planComment (.ofLines 0 1) ⟨.standard, .text, ⟨2024, 3, 5, by decide⟩⟩ = .ok (some plan) ∧
      ¬ plan.comment.ClosesEarly ∧
      let block := DocComment.toText (CommentPlan.ending t) plan.rendered
      IsFirstFrom blockClose block (size (plan.comment.indent ++ blockOpen))
        (size block - size (blockClose ++ CommentPlan.ending t)) := by
  intro t
  let old : ExistingComment :=
    ⟨⟨"*a*".toList, []⟩, ⟨[], "/** @description *a* */ ".toList,
      "void f(Map<Id, Id> m) \x7b\n\x7d".toList⟩, .leading⟩
  let tags : MethodTags :=
    ⟨.ofList [⟨"m".toList, "Map<Id, Id>".toList⟩], "5 March 2024".toList, "void".toList⟩
  let comment : DocComment := ⟨[], some "*a*".toList, some tags⟩
  let plan : CommentPlan :=
    ⟨.method ⟨"f".toList, "void".toList, tags.parameters⟩, some old, comment, comment.lines .text,
      [.deletion 0 24, .insertion 0 (DocComment.toText ['\n'] (comment.lines .text))]⟩
  have planned : t.planComment (.ofLines 0 1) ⟨.standard, .text, ⟨2024, 3, 5, by decide⟩⟩ =
    .ok (some plan) := planComment_of_toOption (by decide +kernel)
  have late : ¬ plan.comment.ClosesEarly := by
    intro early
    obtain ⟨m, tells, inside⟩ := early
    cases tells
    exact absurd inside (by decide +kernel)
  exact ⟨plan, planned, late, (planComment_closes_iff planned).2.2.2.2 late⟩

/-- A comment inside a type argument closes the block on the line of the parameter. -/
theorem Text.planComment_closes_early :
    let t : Text := "void f(List</* k */Id> a) \x7b\n\x7d\n".toList
    ∃ plan, t.planComment (.ofLines 0 1) ⟨.standard, .text, ⟨2024, 3, 5, by decide⟩⟩ = .ok (some plan) ∧
      ¬ IsFirstFrom blockClose (DocComment.toText ['\n'] plan.rendered) 3
        (size (DocComment.toText ['\n'] plan.rendered) - 3) := by
  intro t
  let tags : MethodTags :=
    ⟨.ofList [⟨"a".toList, "List</* k */Id>".toList⟩], "5 March 2024".toList, "void".toList⟩
  let comment : DocComment := ⟨[], none, some tags⟩
  let plan : CommentPlan :=
    ⟨.method ⟨"f".toList, "void".toList, tags.parameters⟩, none, comment, comment.lines .text,
      [.insertion 0 (DocComment.toText ['\n'] (comment.lines .text))]⟩
  have planned : t.planComment (.ofLines 0 1) ⟨.standard, .text, ⟨2024, 3, 5, by decide⟩⟩ =
    .ok (some plan) := planComment_of_toOption (by decide +kernel)
  exact ⟨plan, planned, by decide +kernel⟩

end ApexTidy
