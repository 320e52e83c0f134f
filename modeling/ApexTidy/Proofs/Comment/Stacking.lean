import ApexTidy.Proofs.Comment.Declared
import ApexTidy.Proofs.Declaration.Edges

/-!
What stands below a new block. One block gives its place to the new one: the first thing in the selection,
or else the block directly above it. What followed that place before follows it afterwards, blanks apart. So
the new block stands on another one exactly if the source has one there: a second block behind the first, or
one behind line comments, where no block is looked for.
-/

namespace ApexTidy

open Text Tags Declaration

namespace Block

/-- Whether a text starts, blanks apart, with a block in full. -/
def opens (t : Text) : Bool :=
  match afterStart? blockOpen (trimStart t) with
  | none => false
  | some rest => occursIn blockClose rest

theorem opens_congr {a b : Text} (same : trimStart a = trimStart b) : opens a = opens b := by
  rw [opens, opens, same]

theorem prefix_of_opens {t : Text} (opened : opens t = true) : blockOpen <+: trimStart t := by
  unfold opens at opened
  split at opened
  · cases opened
  · rename_i rest found
    exact ⟨rest, (afterStart?_eq_some_iff.1 found).symm⟩

theorem isSome_leading? (r : Region) : (leading? r).isSome = opens r.inside := by
  unfold leading? opens
  cases afterStart? blockOpen (trimStart r.inside) with
  | none => rfl
  | some rest =>
    dsimp only
    rw [occursIn]
    cases breakAt? blockClose rest with
    | none => rfl
    | some parts => rfl

theorem isSome_locate (r : Region) : (locate r).isSome = (opens r.inside || (preceding? r).isSome) := by
  rw [← isSome_leading?, locate]
  cases leading? r with
  | some region => rfl
  | none => simp

end Block

theorem Block.slash_prefix_of_opens {t after : Text} (declares : skipLineComments t ≠ [])
    (opened : opens (t ++ after) = true) : ['/'] <+: skipLineComments t := by
  have full :=
    isBlank_eq_false_of_suffix (skipLineComments_suffix t) (startsFull_skipLineComments t) declares
  have begins := prefix_of_opens opened
  rw [trimStart_append full] at begins
  cases code : trimStart t with
  | nil =>
    have none := skipLineComments_eq_trimStart (t := t) (by rw [code]; decide)
    exact absurd (none.trans code) declares
  | cons c tail =>
    rw [code, List.cons_append, blockOpen, List.cons_prefix_cons] at begins
    obtain ⟨rfl, star⟩ := begins
    have comment : ¬ ['/', '/'] <+: trimStart t := by
      rw [code, List.cons_prefix_cons]
      rintro ⟨-, rest, rfl⟩
      rw [List.append_assoc, List.singleton_append, List.cons_prefix_cons] at star
      exact absurd star.1 (by decide)
    rw [skipLineComments_eq_trimStart comment, code]
    exact ⟨tail, rfl⟩

namespace CommentPlan

/-- The text that the new block replaces: the old block with the blanks that go with it, if there is one. -/
def replaced (plan : CommentPlan) : Text := (plan.previous.map (·.region.inside)).getD []

/-- What follows the place of the new block in the source: what is behind the old block or, without one,
behind the line comments that the selection starts with. -/
def beneath (r : Region) (plan : CommentPlan) : Text :=
  match plan.previous with
  | some old => old.region.after
  | none => skipLineComments r.inside ++ r.after

section

variable {options : CommentOptions} {r : Region} {plan : CommentPlan}

theorem Follows.exists_place (follows : Follows options r plan) :
    ∃ above front rest, r.whole = above ++ plan.replaced ++ plan.beneath r ∧
      r.whole.applyEdits plan.edits = .ok (front ++ blockText r plan ++ rest) ∧
      trimEnd front = trimEnd above ∧ trimStart rest = trimStart (plan.beneath r) := by
  cases previous : plan.previous with
  | none =>
    have whole : r.whole = (heading r none).before ++ [] ++ (skipLineComments r.inside ++ r.after) := by
      rw [← whole_heading r none, Region.whole, List.append_nil, ← List.append_assoc]
      rfl
    rw [replaced, beneath, previous]
    cases shared : isBlank (lastRow (heading r none).before) with
    | true =>
      refine ⟨(heading r none).before, aboveLastRow (heading r none).before,
        lastRow (heading r none).before ++ (heading r none).inside ++ r.after, whole, ?_, ?_, ?_⟩
      · rw [follows.applyEdits_above previous shared]
      · conv => rhs; rw [← aboveLastRow_append_lastRow (heading r none).before]
        rw [trimEnd_append_of_isBlank _ shared]
      · rw [List.append_assoc, trimStart_append_of_isBlank shared]
        rfl
    | false =>
      refine ⟨(heading r none).before, (heading r none).before ++ ending r.whole,
        plan.comment.indent ++ ((heading r none).inside ++ r.after), whole, ?_, ?_, ?_⟩
      · rw [follows.applyEdits_between previous shared]
        simp only [List.append_assoc]
      · rw [trimEnd_append_of_isBlank _ (isBlank_ending r.whole)]
      · rw [trimStart_append_of_isBlank follows.isBlank_indent]
        rfl
  | some old =>
    have whole := ExistingComment.whole_of_of? (follows.previous.symm.trans previous)
    have applied := follows.applyEdits_instead previous
    rw [replaced, beneath, previous]
    cases shared : isBlank (lastRow old.region.before) with
    | true =>
      rw [shared, if_pos rfl] at applied
      exact ⟨old.region.before, _, _, whole.symm, applied, rfl, rfl⟩
    | false =>
      rw [shared, if_neg Bool.false_ne_true] at applied
      refine ⟨old.region.before, old.region.before ++ ending r.whole,
        plan.comment.indent ++ old.region.after, whole.symm, ?_, ?_, ?_⟩
      · rw [applied]
        simp only [List.append_assoc]
      · rw [trimEnd_append_of_isBlank _ (isBlank_ending r.whole)]
      · rw [trimStart_append_of_isBlank follows.isBlank_indent]

theorem Follows.isSome_previous (follows : Follows options r plan) :
    plan.previous.isSome = (Block.opens r.inside || (Block.preceding? r).isSome) := by
  rw [follows.previous, ExistingComment.of?, Option.isSome_map, Block.isSome_locate]

theorem Follows.exists_beneath (follows : Follows options r plan) :
    ∃ rest, plan.beneath r = rest ++ r.after ∧
      skipLineComments rest = skipLineComments (declared r plan.previous).inside := by
  have declares := follows.heading_ne_nil
  rw [beneath]
  cases previous : plan.previous with
  | none => exact ⟨skipLineComments r.inside, rfl, skipLineComments_idem r.inside⟩
  | some old =>
    rw [previous] at declares
    exact ExistingComment.exists_rest (follows.previous.symm.trans previous) declares

theorem Follows.opens_beneath_of_method (follows : Follows options r plan) {s : Signature}
    (method : plan.declaration = .method s) (plain : options.modifiers.StartsNone '/') :
    Block.opens (plan.beneath r) = false := by
  obtain ⟨rest, whole, skipped⟩ := follows.exists_beneath
  rw [← Bool.not_eq_true, whole]
  intro opened
  have declares : skipLineComments rest ≠ [] := by
    rw [skipped]
    exact follows.heading_ne_nil
  have slash := Block.slash_prefix_of_opens declares opened
  rw [skipped] at slash
  exact plain.not_prefix_of_classify (by decide) (by decide) (by decide) (by decide)
    (follows.declaration.symm.trans method) slash

example : Modifiers.standard.StartsNone '/' := by
  show ∀ keyword ∈ Modifiers.builtIn, _
  decide

end

end CommentPlan

open CommentPlan

/-- The block that a selection starts with, or else the one directly above it, gives its place to the new
block. Below the new block stands another one exactly if the source has one there, and never for a method
as long as no modifier starts with a slash. -/
theorem Text.planComment_stacks_iff {t : Text} {selection : Selection} {options : CommentOptions}
    {plan : CommentPlan} (planned : t.planComment selection options = .ok (some plan)) :
    ∃ r above front rest, selection.region t = .ok r ∧
      plan.previous.isSome = (Block.opens r.inside || (Block.preceding? r).isSome) ∧
      (plan.previous.isSome = true → Block.IsSurrounded plan.replaced) ∧
      t = above ++ plan.replaced ++ plan.beneath r ∧
      t.applyEdits plan.edits = .ok (front ++ DocComment.toText (ending t) plan.rendered ++ rest) ∧
      trimEnd front = trimEnd above ∧ trimStart rest = trimStart (plan.beneath r) ∧
      (Block.opens rest = true ↔ Block.opens (plan.beneath r) = true) ∧
      (∀ s, plan.declaration = .method s → options.modifiers.StartsNone '/' → Block.opens rest = false) := by
  obtain ⟨r, covered, follows⟩ := planComment_eq_ok_some_iff.1 planned
  obtain rfl := Selection.whole_of_region covered
  obtain ⟨above, front, rest, whole, applied, ends, starts⟩ := follows.exists_place
  have same := Block.opens_congr starts
  refine ⟨r, above, front, rest, covered, follows.isSome_previous, ?_, whole, applied, ends, starts,
    by rw [same], ?_⟩
  · intro present
    obtain ⟨old, found⟩ := Option.isSome_iff_exists.1 present
    rw [replaced, found]
    exact ExistingComment.isSurrounded_of_of? (follows.previous.symm.trans found)
  · intro s method plain
    rw [same]
    exact follows.opens_beneath_of_method method plain

theorem Text.planComment_stacks_behind_line_comment :
    let t : Text := "// note\n/** b */\nclass A \x7b\n\x7d\n".toList
    ∃ plan front rest, t.planComment (.ofLines 0 3) ⟨.standard, .text, ⟨2024, 3, 5, by decide⟩⟩ =
        .ok (some plan) ∧ plan.previous = none ∧
      t.applyEdits plan.edits = .ok (front ++ DocComment.toText (ending t) plan.rendered ++ rest) ∧
      Block.opens rest = true := by
  intro t
  let comment : DocComment := ⟨[], none, none⟩
  let plan : CommentPlan :=
    ⟨.ofClass, none, comment, comment.lines .text,
      [.insertion 8 (DocComment.toText ['\n'] (comment.lines .text))]⟩
  have planned : t.planComment (.ofLines 0 3) ⟨.standard, .text, ⟨2024, 3, 5, by decide⟩⟩ =
    .ok (some plan) := planComment_of_toOption (by decide +kernel)
  obtain ⟨r, above, front, rest, covered, -, -, whole, applied, -, -, below, -⟩ :=
    planComment_stacks_iff planned
  have known : (Selection.region (.ofLines 0 3) t).toOption = some ⟨[], t, []⟩ := by decide +kernel
  rw [covered] at known
  cases known
  exact ⟨plan, front, rest, planned, rfl, applied, below.2 (by decide +kernel)⟩

/-- Of two blocks in a row the second is kept. -/
theorem Text.planComment_stacks_on_second_block :
    let t : Text := "/** a */\n/** b */\nclass A \x7b\n\x7d\n".toList
    let below : Text := "/** b */\nclass A \x7b\n\x7d\n".toList
    ∃ plan, t.planComment (.ofLines 0 3) ⟨.standard, .text, ⟨2024, 3, 5, by decide⟩⟩ = .ok (some plan) ∧
      t.applyEdits plan.edits = .ok (DocComment.toText ['\n'] plan.rendered ++ below) ∧
      Block.opens below = true := by
  intro t below
  let old : ExistingComment := ⟨⟨[], []⟩, ⟨[], "/** a */\n".toList, below⟩, .leading⟩
  let comment : DocComment := ⟨[], none, none⟩
  let plan : CommentPlan :=
    ⟨.ofClass, some old, comment, comment.lines .text,
      [.deletion 0 9, .insertion 0 (DocComment.toText ['\n'] (comment.lines .text))]⟩
  have planned : t.planComment (.ofLines 0 3) ⟨.standard, .text, ⟨2024, 3, 5, by decide⟩⟩ =
    .ok (some plan) := planComment_of_toOption (by decide +kernel)
  obtain ⟨r, covered, follows⟩ := planComment_eq_ok_some_iff.1 planned
  have known : (Selection.region (.ofLines 0 3) t).toOption = some ⟨[], t, []⟩ := by decide +kernel
  rw [covered] at known
  cases known
  have found : plan.previous = some old := rfl
  have applied := follows.applyEdits_instead found
  have fed : ending t = ['\n'] := by decide +kernel
  rw [if_pos (by decide)] at applied
  refine ⟨plan, planned, ?_, by decide +kernel⟩
  rw [← fed]
  exact applied

end ApexTidy
