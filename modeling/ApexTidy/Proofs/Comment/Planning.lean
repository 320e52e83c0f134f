import ApexTidy.Comment.Plan
import ApexTidy.Proofs.Comment.Extent
import ApexTidy.Proofs.Declaration.Skipping
import ApexTidy.Proofs.Source.Addressing

/-!
What a plan is made of. Each part of a plan is told by an equation of its own, and each region that
planning moves along is the same text cut at another place.
-/

namespace ApexTidy

open Text

namespace Text

theorem exists_beforeBlanks (before : Text) :
    ∃ lead, before = beforeBlanks before ++ lead ∧ isBlank lead = true ∧ '\n' ∉ lead := by
  unfold beforeBlanks
  split
  · rename_i blank
    exact ⟨lastRow before, (aboveLastRow_append_lastRow before).symm, blank,
      lineFeed_not_mem_lastRow before⟩
  · exact ⟨[], (List.append_nil before).symm, rfl, by simp⟩

theorem blanksAfter_append_drop (after : Text) :
    blanksAfter after ++ after.drop (blanksAfter after).length = after := by
  rw [← List.prefix_iff_eq_append, blanksAfter]
  split
  · exact ⟨belowFirstRow after, firstRow_append_belowFirstRow after⟩
  · exact List.takeWhile_prefix _

theorem isBlank_blanksAfter (after : Text) : isBlank (blanksAfter after) = true := by
  rw [blanksAfter]
  split
  · assumption
  · rw [isBlank_iff]
    intro c member
    have kept := List.all_eq_true.1 List.all_takeWhile c member
    simp only [Bool.or_eq_true, beq_iff_eq] at kept
    rcases kept with rfl | rfl <;> decide

/-- Where blanks in front were taken in, nothing but a fresh row is left. -/
theorem lastRow_beforeBlanks {before : Text} (blank : isBlank (lastRow (beforeBlanks before)) = true) :
    lastRow (beforeBlanks before) = [] := by
  unfold beforeBlanks at blank ⊢
  split at blank
  · rename_i taken
    rw [if_pos taken]
    exact lastRow_aboveLastRow before
  · rename_i kept
    exact absurd blank kept

end Text

namespace Region

theorem widen_spec (r : Region) :
    ∃ lead trail, r.widen.inside = lead ++ r.inside ++ trail ∧ r.before = r.widen.before ++ lead ∧
      r.after = trail ++ r.widen.after ∧ isBlank lead = true ∧ '\n' ∉ lead ∧ isBlank trail = true := by
  obtain ⟨lead, front, blank, clean⟩ := exists_beforeBlanks r.before
  refine ⟨lead, blanksAfter r.after, ?_, front, (blanksAfter_append_drop r.after).symm, blank, clean,
    isBlank_blanksAfter r.after⟩
  have taken : r.before.drop (beforeBlanks r.before).length = lead := by
    conv => lhs; rhs; rw [front]
    rw [List.drop_left]
  rw [widen, taken]

theorem whole_widen (r : Region) : r.widen.whole = r.whole := by
  obtain ⟨lead, trail, inside, before, after, -⟩ := r.widen_spec
  rw [whole, whole, inside, before, after]
  simp

end Region

theorem ExistingComment.exists_of_of? {r : Region} {old : ExistingComment} (found : of? r = some old) :
    ∃ block, Block.locate r = some block ∧
      old = ⟨Tags.read block.region.inside, block.region.widen, block.placement⟩ := by
  obtain ⟨block, located, same⟩ := Option.map_eq_some_iff.1 found
  exact ⟨block, located, same.symm⟩

namespace DocComment

def keptDescription (previous : Option Tags) : Option Text :=
  (previous.map (trim ·.description)).filter fun d => !d.isEmpty && d != Style.placeholder

def keptDate (previous : Option Tags) (today : Text) : Text :=
  ((previous.map (trim ·.date)).filter (!·.isEmpty)).getD today

inductive Tells (date : Text) : Declaration → Option MethodTags → Prop where
  | ofClass : Tells date .ofClass none
  | method (s : Signature) : Tells date (.method s) (some ⟨s.parameters, date, s.returnType⟩)

theorem merge_eq_some_iff {declaration : Declaration} {previous : Option Tags} {indent today : Text}
    {c : DocComment} :
    merge declaration previous indent today = some c ↔
      c.indent = indent ∧ c.description = keptDescription previous ∧
        Tells (keptDate previous today) declaration c.method := by
  obtain ⟨space, description, method⟩ := c
  unfold merge
  constructor
  · intro merged
    split at merged
    · cases merged
    · cases merged
      exact ⟨rfl, rfl, .ofClass⟩
    · rename_i s
      cases merged
      exact ⟨rfl, rfl, .method s⟩
  · intro parts
    obtain ⟨rfl, rfl, told⟩ := parts
    cases told with
    | ofClass => rfl
    | method s => rfl

end DocComment

namespace CommentPlan

theorem whole_declared (r : Region) (previous : Option ExistingComment) :
    (declared r previous).whole = r.whole := by
  unfold declared
  split
  · simp [Region.whole]
  · rfl

theorem before_append_inside_pastLineComments (r : Region) :
    (pastLineComments r).before ++ (pastLineComments r).inside = r.before ++ r.inside := by
  obtain ⟨passed, whole⟩ := Declaration.skipLineComments_suffix r.inside
  have length := congrArg List.length whole
  rw [List.length_append] at length
  have taken : r.inside.take (r.inside.length - (Declaration.skipLineComments r.inside).length) =
      passed := by
    rw [show r.inside.length - (Declaration.skipLineComments r.inside).length = passed.length by
      omega]
    conv => lhs; rhs; rw [← whole]
    rw [List.take_left]
  simp only [pastLineComments]
  rw [taken, List.append_assoc, whole]

def heading (r : Region) (previous : Option ExistingComment) : Region :=
  pastLineComments (declared r previous)

theorem whole_heading (r : Region) (previous : Option ExistingComment) :
    (heading r previous).whole = r.whole := by
  rw [← whole_declared r previous, Region.whole, heading, before_append_inside_pastLineComments]
  rfl

def indentation (r : Region) (previous : Option ExistingComment) : Text :=
  leadingSpace (lastRow (heading r previous).before)

/-- Where the new block goes: in the place of the old one, or before the declaration. -/
def anchor (r : Region) (previous : Option ExistingComment) : Text :=
  (previous.map (·.region.before)).getD (heading r previous).before

theorem ending_cases (t : Text) : ending t = ['\n'] ∨ ending t = ['\r', '\n'] := by
  unfold ending
  split
  · exact Or.inr rfl
  · exact Or.inl rfl

theorem exists_ending (t : Text) :
    ∃ returned, ending t = returned ++ ['\n'] ∧ isBlank returned = true ∧ '\n' ∉ returned := by
  rcases ending_cases t with same | same
  · exact ⟨[], same, by decide, by decide⟩
  · exact ⟨['\r'], same, by decide, by decide⟩

theorem isBlank_ending (t : Text) : isBlank (ending t) = true := by
  rcases ending_cases t with same | same
  · rw [same]
    decide
  · rw [same]
    decide

theorem ending_ne_nil (t : Text) : ending t ≠ [] := by
  rcases ending_cases t with same | same
  · simp [same]
  · simp [same]

theorem isBlank_indentation (r : Region) (previous : Option ExistingComment) :
    isBlank (indentation r previous) = true := isBlank_leadingSpace _

theorem lineFeed_not_mem_indentation (r : Region) (previous : Option ExistingComment) :
    '\n' ∉ indentation r previous := by
  intro member
  exact lineFeed_not_mem_lastRow _ ((List.takeWhile_prefix _).subset member)

/-- How a plan for a region follows from the options. -/
structure Follows (options : CommentOptions) (r : Region) (plan : CommentPlan) : Prop where
  full : isBlank r.inside = false
  previous : plan.previous = ExistingComment.of? r
  declaration : plan.declaration = options.modifiers.classify (declared r plan.previous).inside
  comment : DocComment.merge plan.declaration (plan.previous.map (·.tags))
    (indentation r plan.previous) options.today.format = some plan.comment
  rendered : plan.rendered = plan.comment.lines options.style
  edits : plan.edits = (plan.previous.toList.map fun old => .deletion old.region.start old.region.stop)
    ++ [insertion (anchor r plan.previous) (indentation r plan.previous) (ending r.whole) plan.rendered]

theorem ofRegion?_eq_some_iff {options : CommentOptions} {r : Region} {plan : CommentPlan} :
    ofRegion? options r = some plan ↔ Follows options r plan := by
  unfold ofRegion?
  constructor
  · intro found
    split at found
    · simp at found
    · rename_i full
      dsimp only at found
      split at found
      · simp at found
      · rename_i comment merged
        simp only [Option.some.injEq] at found
        subst found
        -- the parts of the plan are taken out by `dsimp`, for `rfl` would open them
        refine ⟨by simpa using full, ?_, ?_, ?_, ?_, ?_⟩ <;> dsimp only
        · simpa only [indentation, heading] using merged
        · simp only [anchor, indentation, heading]
  · intro follows
    obtain ⟨declaration, previous, comment, rendered, edits⟩ := plan
    obtain ⟨full, found, declares, merged, lines, batch⟩ := follows
    simp only at found declares merged lines batch
    subst found declares lines batch
    simp only [indentation, heading] at merged
    rw [if_neg (by simp [full])]
    simp only [merged]
    rfl

section

variable {options : CommentOptions} {r : Region} {plan : CommentPlan}

theorem Follows.indent_eq (follows : Follows options r plan) :
    plan.comment.indent = indentation r plan.previous :=
  (DocComment.merge_eq_some_iff.1 follows.comment).1

theorem Follows.isBlank_indent (follows : Follows options r plan) : isBlank plan.comment.indent = true := by
  rw [follows.indent_eq]
  exact isBlank_indentation ..

theorem Follows.lineFeed_not_mem_indent (follows : Follows options r plan) :
    '\n' ∉ plan.comment.indent := by
  rw [follows.indent_eq]
  exact lineFeed_not_mem_indentation r plan.previous

end

end CommentPlan

theorem Text.planComment_eq_ok_some_iff {t : Text} {selection : Selection} {options : CommentOptions}
    {plan : CommentPlan} :
    t.planComment selection options = .ok (some plan) ↔
      ∃ r, selection.region t = .ok r ∧ CommentPlan.Follows options r plan := by
  unfold planComment
  constructor
  · intro planned
    split at planned
    · simp at planned
    · cases covered : selection.region t with
      | error fault =>
        rw [covered] at planned
        simp [Except.map] at planned
      | ok r =>
        rw [covered] at planned
        simp only [Except.map, Except.ok.injEq] at planned
        exact ⟨r, rfl, CommentPlan.ofRegion?_eq_some_iff.1 planned⟩
  · intro planned
    obtain ⟨r, covered, follows⟩ := planned
    have nonempty : r.inside ≠ [] := by
      intro none
      have full := follows.full
      rw [none] at full
      simp at full
    rw [if_neg (by simp [Selection.isEmpty_eq_false_of_region covered nonempty]), covered, Except.map,
      CommentPlan.ofRegion?_eq_some_iff.2 follows]

/-- The form in which a plan for a fixed text is evaluated. -/
theorem Text.planComment_of_toOption {t : Text} {selection : Selection} {options : CommentOptions}
    {plan : CommentPlan} (planned : (t.planComment selection options).toOption = some (some plan)) :
    t.planComment selection options = .ok (some plan) := by
  cases found : t.planComment selection options with
  | error fault => simp [found, Except.toOption] at planned
  | ok result => simpa [found, Except.toOption] using planned

end ApexTidy
