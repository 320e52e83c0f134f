import ApexTidy.Proofs.Comment.Replacement

/-!
Where a new block stands once the edits of a plan are made. In each of the three ways of placing it, it
starts on a fresh row, and the declaration follows with the line comments and blanks it had before it.
-/

namespace ApexTidy

open Text

theorem Text.exists_of_blank_append {blanks rest a b : Text} (same : blanks ++ rest = a ++ b)
    (blank : isBlank blanks = true) (full : isBlank a = false) :
    ∃ between, a = blanks ++ between ∧ rest = between ++ b := by
  rcases List.append_eq_append_iff.1 same with ⟨between, longer, tail⟩ | ⟨between, shorter, -⟩
  · exact ⟨between, longer, tail⟩
  · rw [shorter, isBlank_append, Bool.and_eq_true] at blank
    rw [blank.1] at full
    cases full

theorem Text.isBlank_eq_false_of_suffix {t rest : Text} (ends : rest <:+ t) (start : StartsFull rest)
    (nonempty : rest ≠ []) : isBlank t = false := by
  obtain ⟨before, rfl⟩ := ends
  obtain ⟨c, tail, rfl⟩ := List.exists_cons_of_ne_nil nonempty
  have solid : isSpace c = false := start
  simp [isBlank, solid]

namespace CommentPlan

theorem after_heading (r : Region) (previous : Option ExistingComment) :
    (heading r previous).after = r.after := by
  unfold heading pastLineComments declared
  split
  · rfl
  · rfl

theorem before_append_inside_heading (r : Region) (previous : Option ExistingComment) :
    (heading r previous).before ++ (heading r previous).inside = r.before ++ r.inside := by
  have whole := whole_heading r previous
  rw [Region.whole, Region.whole, after_heading] at whole
  exact List.append_cancel_right whole

theorem mem_whole_of_mem_heading {r : Region} {previous : Option ExistingComment} {c : Char}
    (member : c ∈ (heading r previous).before ++ (heading r previous).inside) : c ∈ r.whole := by
  rw [before_append_inside_heading] at member
  exact List.mem_append_left _ member

theorem mem_whole_of_mem_indentation {r : Region} {previous : Option ExistingComment} {c : Char}
    (member : c ∈ indentation r previous) : c ∈ r.whole := by
  have row : c ∈ lastRow (heading r previous).before := (List.takeWhile_prefix _).subset member
  apply @mem_whole_of_mem_heading r previous
  rw [← aboveLastRow_append_lastRow (heading r previous).before]
  exact List.mem_append_left _ (List.mem_append_right _ row)

theorem startsFull_heading (r : Region) (previous : Option ExistingComment) :
    StartsFull (heading r previous).inside := Declaration.startsFull_skipLineComments _

end CommentPlan

open CommentPlan Declaration

/-- What an old block leaves of the selection behind it has the declaration at the same place. -/
theorem ExistingComment.exists_rest {r : Region} {old : ExistingComment} (found : of? r = some old)
    (declares : (heading r (some old)).inside ≠ []) :
    ∃ rest, old.region.after = rest ++ r.after ∧
      skipLineComments rest = (heading r (some old)).inside := by
  have whole := whole_of_of? found
  obtain ⟨block, located, rfl⟩ := exists_of_of? found
  obtain ⟨lead, trail, inside, before, after, -, -, blanks⟩ := block.region.widen_spec
  rcases Block.locate_cases located with ⟨leading, leads⟩ | ⟨preceding, -, above⟩
  · obtain ⟨region, placement⟩ := block
    subst leading
    obtain ⟨body, tail, rfl, -, -⟩ := Block.of_leading? leads
    let block : Region := ⟨r.before ++ leadingSpace r.inside, Block.written body, tail ++ r.after⟩
    -- as `declared` counts it, the part of the selection that the block takes
    let taken := block.widen.before.length + block.widen.inside.length - r.before.length
    have covers : r.before.length ≤ block.widen.before.length + block.widen.inside.length := by
      have starts := congrArg List.length before
      have holds := congrArg List.length inside
      simp only [List.length_append] at starts holds
      simp only [block]
      omega
    have fits : taken ≤ r.inside.length := by
      rcases Nat.lt_or_ge taken r.inside.length with less | past
      · exact Nat.le_of_lt less
      · exfalso
        apply declares
        show skipLineComments (r.inside.drop taken) = []
        rw [List.drop_of_length_le past]
        rfl
    refine ⟨r.inside.drop taken, ?_, rfl⟩
    calc
      block.widen.after = block.widen.whole.drop (block.widen.before ++ block.widen.inside).length := by
        rw [Region.whole, List.drop_left]
      _ = (r.before ++ (r.inside ++ r.after)).drop (r.before.length + taken) := by
        rw [show block.widen.whole = r.whole from whole, Region.whole, List.append_assoc,
          List.length_append]
        congr 1
        omega
      _ = r.inside.drop taken ++ r.after := by
        rw [List.drop_length_add_append, List.drop_append_of_le_length fits]
  · obtain ⟨region, placement⟩ := block
    subst preceding
    obtain ⟨start, body, rfl, -, -⟩ := Block.of_preceding? above
    simp only at inside before after
    have full : isBlank (trailingSpace r.before ++ r.inside) = false := by
      rw [isBlank_append, isBlank_trailingSpace, Bool.true_and]
      exact isBlank_eq_false_of_suffix (skipLineComments_suffix r.inside)
        (startsFull_skipLineComments r.inside) declares
    obtain ⟨rest, cut, left⟩ := exists_of_blank_append after.symm blanks full
    refine ⟨rest, left, ?_⟩
    calc
      skipLineComments rest = skipLineComments (trail ++ rest) := (skipLineComments_append blanks rest).symm
      _ = skipLineComments (trailingSpace r.before ++ r.inside) := by rw [cut]
      _ = skipLineComments r.inside := skipLineComments_append (isBlank_trailingSpace r.before) r.inside

/-- The region takes whole lines: it starts where a line starts and stops just after a line feed. -/
structure Region.IsWholeLines (r : Region) : Prop where
  start : lastRow r.before = []
  stop : r.inside.getLast? = some '\n'

namespace CommentPlan

/-- The new block stands between `head` and `gap`, on rows of its own, and `rest` is what the selection
has kept behind it. -/
structure Lands (r : Region) (plan : CommentPlan) (head gap rest : Text) : Prop where
  applied : r.whole.applyEdits plan.edits =
    .ok (head ++ blockText r plan ++ gap ++ rest ++ r.after)
  inserted : ∃ e, plan.edits.getLast? = some e ∧
    e.start + size e.text = size (head ++ blockText r plan ++ gap)
  fresh : lastRow head = []
  blank : isBlank gap = true
  skipped : skipLineComments rest = (heading r plan.previous).inside
  row : ∀ passed, rest = passed ++ (heading r plan.previous).inside →
    leadingSpace (lastRow (gap ++ passed)) = indentation r plan.previous
  start : gap = [] ∨ StartsFull rest
  own : ∀ c ∈ head ++ gap ++ rest, c ∈ r.whole ∨ c ∈ ending r.whole

section

variable {options : CommentOptions} {r : Region} {plan : CommentPlan}

theorem Follows.lands_above (follows : Follows options r plan) (absent : plan.previous = none)
    (blank : isBlank (lastRow (heading r none).before) = true) :
    Lands r plan (aboveLastRow (heading r none).before) []
      (lastRow (heading r none).before ++ (heading r none).inside) := by
  have applied := follows.applyEdits_above absent blank
  constructor
  · rw [applied]
    simp
  · rw [follows.edits_above absent blank]
    refine ⟨_, List.getLast?_singleton, ?_⟩
    simp [Edit.insertion]
  · exact lastRow_aboveLastRow _
  · rfl
  · rw [absent, skipLineComments_append blank]
    exact skipLineComments_idem _
  · intro passed cut
    rw [absent] at cut ⊢
    rw [← List.append_cancel_right cut, List.nil_append,
      lastRow_of_not_mem (lineFeed_not_mem_lastRow _)]
    rfl
  · exact Or.inl rfl
  · intro c member
    left
    apply @mem_whole_of_mem_heading r none
    rwa [List.append_nil, ← List.append_assoc, aboveLastRow_append_lastRow] at member

theorem Follows.lands_between (follows : Follows options r plan) (absent : plan.previous = none)
    (shared : isBlank (lastRow (heading r none).before) = false) :
    Lands r plan ((heading r none).before ++ ending r.whole) plan.comment.indent
      (heading r none).inside := by
  have applied := follows.applyEdits_between absent shared
  have indent : plan.comment.indent = indentation r none := by rw [follows.indent_eq, absent]
  constructor
  · rw [applied]
    simp
  · rw [follows.edits_between absent shared]
    refine ⟨_, List.getLast?_singleton, ?_⟩
    simp only [Edit.insertion, size_append]
    omega
  · obtain ⟨returned, ends, -⟩ := exists_ending r.whole
    rw [ends, ← List.append_assoc]
    exact lastRow_append_lineFeed _
  · exact follows.isBlank_indent
  · rw [absent]
    exact skipLineComments_idem _
  · intro passed cut
    rw [absent] at cut ⊢
    have none : passed = [] := List.append_left_eq_self.1 cut.symm
    rw [none, List.append_nil, lastRow_of_not_mem follows.lineFeed_not_mem_indent,
      leadingSpace_of_isBlank follows.isBlank_indent, indent]
  · exact Or.inr (startsFull_heading r none)
  · intro c member
    simp only [List.mem_append] at member
    rcases member with ((before | ends) | blank) | inside
    · exact Or.inl (mem_whole_of_mem_heading (List.mem_append_left _ before))
    · exact Or.inr ends
    · exact Or.inl (mem_whole_of_mem_indentation (indent ▸ blank))
    · exact Or.inl (mem_whole_of_mem_heading (List.mem_append_right _ inside))

theorem Follows.lands_instead (follows : Follows options r plan) {old : ExistingComment}
    (found : plan.previous = some old) (lines : old.region.IsWholeLines)
    (declares : (heading r (some old)).inside ≠ []) :
    ∃ rest, Lands r plan old.region.before [] rest := by
  have located := follows.previous.symm.trans found
  obtain ⟨rest, after, skipped⟩ := ExistingComment.exists_rest located declares
  have applied := follows.applyEdits_instead found
  rw [lines.start, if_pos isBlank_nil] at applied
  have whole : old.region.before ++ old.region.inside ++ rest =
      (heading r (some old)).before ++ (heading r (some old)).inside := by
    have same := ExistingComment.whole_of_of? located
    rw [Region.whole, Region.whole, after, ← List.append_assoc] at same
    rw [before_append_inside_heading]
    exact List.append_cancel_right same
  refine ⟨rest, ?_⟩
  constructor
  · rw [applied, after]
    simp
  · rw [follows.edits_instead found, lines.start, if_pos isBlank_nil]
    refine ⟨_, rfl, ?_⟩
    simp [Edit.insertion, Region.start]
  · exact lines.start
  · rfl
  · rw [found, skipped]
  · intro passed cut
    rw [found] at cut ⊢
    obtain ⟨above, ends⟩ := List.getLast?_eq_some_iff.1 lines.stop
    have before : (heading r (some old)).before = old.region.before ++ above ++ ['\n'] ++ passed := by
      rw [cut, ends, ← List.append_assoc] at whole
      rw [← List.append_cancel_right whole]
      simp
    rw [indentation, before, lastRow_append_of_lastRow_nil (lastRow_append_lineFeed _), List.nil_append]
  · exact Or.inl rfl
  · intro c member
    left
    rw [← ExistingComment.whole_of_of? located, Region.whole, after]
    simp only [List.append_nil, List.mem_append] at member ⊢
    rcases member with before | inside
    · exact Or.inl (Or.inl before)
    · exact Or.inr (Or.inl inside)

theorem Follows.heading_ne_nil (follows : Follows options r plan) :
    (heading r plan.previous).inside ≠ [] := by
  obtain ⟨-, -, told⟩ := DocComment.merge_eq_some_iff.1 follows.comment
  apply Modifiers.skipLineComments_ne_nil (m := options.modifiers)
  rw [← follows.declaration]
  intro none
  rw [none] at told
  cases told

theorem Follows.exists_lands (follows : Follows options r plan)
    (lines : ∀ old, plan.previous = some old → old.region.IsWholeLines) :
    ∃ head gap rest, Lands r plan head gap rest := by
  cases previous : plan.previous with
  | none =>
    cases shared : isBlank (lastRow (heading r none).before) with
    | true => exact ⟨_, _, _, follows.lands_above previous shared⟩
    | false => exact ⟨_, _, _, follows.lands_between previous shared⟩
  | some old =>
    have declares := follows.heading_ne_nil
    rw [previous] at declares
    obtain ⟨rest, lands⟩ := follows.lands_instead previous (lines old previous) declares
    exact ⟨_, _, rest, lands⟩

end

end CommentPlan

end ApexTidy
