import ApexTidy.Proofs.Comment.Endings

/-!
Documenting a declaration again. The block that a plan has put above a declaration is found, read and
classified as it was made, so a second plan replaces it with itself.
-/

namespace ApexTidy

open Text Tags

namespace Text

theorem beforeBlanks_append {head lead : Text} (fresh : lastRow head = []) (blank : isBlank lead = true)
    (row : '\n' ∉ lead) : beforeBlanks (head ++ lead) = head := by
  have last : lastRow (head ++ lead) = lead := by
    rw [lastRow_append_of_lastRow_nil fresh, lastRow_of_not_mem row]
  have whole := aboveLastRow_append_lastRow (head ++ lead)
  rw [last] at whole
  rw [beforeBlanks, last, if_pos blank, List.append_cancel_right whole]

theorem blanksAfter_lineFeed {returned : Text} (blank : isBlank returned = true) (row : '\n' ∉ returned)
    (t : Text) : blanksAfter (returned ++ ['\n'] ++ t) = returned ++ ['\n'] := by
  have first : firstRow (returned ++ ['\n'] ++ t) = returned ++ ['\n'] := by
    rw [List.append_assoc, List.singleton_append, firstRow_append_lineFeed row]
  have blanks : isBlank (returned ++ ['\n']) = true := by
    rw [isBlank_append, blank]
    decide
  rw [blanksAfter, first, if_pos blanks]

end Text

section

variable {head indent inner returned gap rest after : Text}

theorem Region.widen_rows (fresh : lastRow head = []) (blank : isBlank indent = true)
    (row : '\n' ∉ indent) (blanks : isBlank returned = true) (line : '\n' ∉ returned) :
    widen ⟨head ++ indent, inner, returned ++ ['\n'] ++ after⟩ =
      ⟨head, indent ++ inner ++ (returned ++ ['\n']), after⟩ := by
  rw [widen, beforeBlanks_append fresh blank row, blanksAfter_lineFeed blanks line]
  simp only [List.drop_left]

theorem Block.preceding?_below (blank : isBlank returned = true) (gaps : isBlank gap = true)
    (opens : ¬ blockOpen <:+: inner) (closes : ¬ blockClose <:+: inner) :
    preceding? ⟨head ++ (indent ++ written inner ++ (returned ++ ['\n'])) ++ gap, rest, after⟩ =
      some ⟨head ++ indent, written inner, returned ++ ['\n'] ++ (gap ++ rest ++ after)⟩ := by
  have spaces : isBlank (returned ++ ['\n'] ++ gap) = true := by
    rw [isBlank_append, isBlank_append, blank, gaps]
    decide
  have shape : head ++ (indent ++ written inner ++ (returned ++ ['\n'])) ++ gap =
      head ++ indent ++ written inner ++ (returned ++ ['\n'] ++ gap) := by
    simp
  rw [shape, preceding?_written spaces opens closes]
  simp

theorem ExistingComment.of?_below (fresh : lastRow head = []) (blank : isBlank indent = true)
    (row : '\n' ∉ indent) (blanks : isBlank returned = true) (line : '\n' ∉ returned)
    (gaps : isBlank gap = true) (opens : ¬ blockOpen <:+: inner)
    (closes : ¬ blockClose <:+: inner) (unopened : ¬ blockOpen <+: Declaration.skipLineComments rest) :
    of? ⟨head ++ (indent ++ Block.written inner ++ (returned ++ ['\n'])) ++ gap, rest, after⟩ =
      some ⟨Tags.read (Block.written inner),
        ⟨head, indent ++ Block.written inner ++ (returned ++ ['\n']), gap ++ rest ++ after⟩,
        .preceding⟩ := by
  have leads : afterStart? blockOpen (trimStart rest) = none := by
    rw [afterStart?_eq_none_iff]
    exact fun opened => unopened (Declaration.prefix_skipLineComments opened)
  rw [of?, Block.locate, Block.leading?, leads, Block.preceding?_below blanks gaps opens closes]
  dsimp only
  rw [Option.map_some, Option.map_some, Region.widen_rows fresh blank row blanks line]

end

/-- Nothing that the block takes from elsewhere, names apart, holds the mark. -/
structure DocComment.IsFree (c : DocComment) (mark : Text) : Prop where
  description : ∀ d, c.description = some d → ¬ mark <:+: d
  date : ∀ m, c.method = some m → ¬ mark <:+: m.date
  types : ∀ m, c.method = some m → ∀ p ∈ m.parameters.toList, ¬ mark <:+: p.type
  returned : ∀ m, c.method = some m → ¬ mark <:+: m.returnType

theorem DocComment.IsFree.not_infix_inner {source mark : Text} {c : DocComment} (free : c.IsFree mark)
    (isMark : IsMark mark) (sound : c.IsFrom source) (indent : isBlank c.indent = true) {ending : Text}
    (blank : isBlank ending = true) (nonempty : ending ≠ []) (style : Style) :
    ¬ mark <:+: c.inner style ending := by
  rw [infix_inner_iff isMark indent blank nonempty]
  intro held
  rcases held with ⟨d, described, line, member, inside⟩
    | ⟨m, tells, (⟨p, member, named | typed⟩ | dated | returned)⟩
  · exact free.description d described (inside.trans (infix_of_mem_paragraph member))
  · obtain ⟨s, shape, parameters, -⟩ := (sound.method m tells).signature
    rw [parameters] at member
    have name : '/' ∉ p.name := not_mem_of_isIdentifier (shape.names p member) (by decide)
    exact isMark.not_infix_of_not_mem name named
  · exact free.types m tells p member typed
  · exact free.date m tells dated
  · exact free.returned m tells returned

namespace CommentPlan

section

variable {options : CommentOptions} {r : Region} {plan : CommentPlan} {head gap rest : Text}

def below (r : Region) (plan : CommentPlan) (head gap rest : Text) : Region :=
  ⟨head ++ blockText r plan ++ gap, rest, r.after⟩

theorem Lands.of?_below (lands : Lands r plan head gap rest) (follows : Follows options r plan)
    (style : options.style = .text) (opens : plan.comment.IsFree blockOpen)
    (closes : plan.comment.IsFree blockClose)
    (unopened : ¬ blockOpen <+: (heading r plan.previous).inside) :
    ExistingComment.of? (below r plan head gap rest) =
      some ⟨Tags.read (Block.written (plan.comment.inner .text (ending r.whole))),
        ⟨head, blockText r plan, gap ++ rest ++ r.after⟩, .preceding⟩ := by
  obtain ⟨source, -, -, sound⟩ := follows.exists_source
  obtain ⟨returned, ends, blank, line⟩ := exists_ending r.whole
  have indent := follows.isBlank_indent
  have opening := opens.not_infix_inner isMark_blockOpen sound indent (isBlank_ending r.whole)
    (ending_ne_nil r.whole) .text
  have closing := closes.not_infix_inner isMark_blockClose sound indent (isBlank_ending r.whole)
    (ending_ne_nil r.whole) .text
  have block := follows.blockText_eq
  rw [style] at block
  rw [below, block]
  rw [ends] at opening closing ⊢
  exact ExistingComment.of?_below lands.fresh indent follows.lineFeed_not_mem_indent blank line
    lands.blank opening closing (lands.skipped ▸ unopened)

theorem Lands.indentation_below (lands : Lands r plan head gap rest) (follows : Follows options r plan)
    {old : ExistingComment} (above : old.placement = .preceding) :
    indentation (below r plan head gap rest) (some old) = plan.comment.indent := by
  obtain ⟨passed, cut⟩ := Declaration.skipLineComments_suffix rest
  rw [lands.skipped] at cut
  have whole := before_append_inside_heading (below r plan head gap rest) (some old)
  have inside : (heading (below r plan head gap rest) (some old)).inside =
      (heading r plan.previous).inside := by
    obtain ⟨tags, region, placement⟩ := old
    subst above
    exact lands.skipped
  have before : (heading (below r plan head gap rest) (some old)).before =
      head ++ blockText r plan ++ (gap ++ passed) := by
    rw [inside] at whole
    apply List.append_cancel_right
    rw [whole, below]
    simp [cut]
  rw [indentation, before, lastRow_append_of_lastRow_nil (follows.lastRow_blockText head),
    lands.row passed cut.symm, follows.indent_eq]

/-- A second plan for the declaration replaces the block with itself. -/
theorem Lands.exists_again (lands : Lands r plan head gap rest) (follows : Follows options r plan)
    (style : options.style = .text) (paired : ReturnsPaired r.whole)
    (opens : plan.comment.IsFree blockOpen) (closes : plan.comment.IsFree blockClose)
    (unopened : ¬ blockOpen <+: (heading r plan.previous).inside) (today : Date) :
    ∃ again, Follows { options with today := today } (below r plan head gap rest) again ∧
      (below r plan head gap rest).whole.applyEdits again.edits =
        .ok (below r plan head gap rest).whole := by
  obtain ⟨source, -, -, sound⟩ := follows.exists_source
  let old : ExistingComment := ⟨Tags.read (Block.written (plan.comment.inner .text (ending r.whole))),
    ⟨head, blockText r plan, gap ++ rest ++ r.after⟩, .preceding⟩
  let indent := indentation (below r plan head gap rest) (some old)
  let again : CommentPlan :=
    { plan with
      previous := some old
      edits := [.deletion old.region.start old.region.stop,
        insertion head indent (ending (below r plan head gap rest).whole) plan.rendered] }
  have indented : indent = plan.comment.indent := lands.indentation_below follows rfl
  have found := lands.of?_below follows style opens closes unopened
  have refollows : Follows { options with today := today } (below r plan head gap rest) again := by
    constructor
    · have ends := Declaration.skipLineComments_suffix rest
      rw [lands.skipped] at ends
      exact isBlank_eq_false_of_suffix ends (startsFull_heading r plan.previous) follows.heading_ne_nil
    · exact found.symm
    · show plan.declaration = options.modifiers.classify rest
      rw [follows.declaration]
      exact options.modifiers.classify_congr lands.skipped.symm
    · show DocComment.merge plan.declaration (some old.tags) indent today.format = some plan.comment
      rw [indented]
      apply sound.merge_read follows.isBlank_indent follows.lineFeed_not_mem_indent
      rw [follows.indent_eq]
      exact follows.comment
    · exact follows.rendered
    · rfl
  refine ⟨again, refollows, ?_⟩
  have same : blockText (below r plan head gap rest) again = blockText r plan := by
    have ends : ending (below r plan head gap rest).whole = ending r.whole :=
      lands.ending_eq follows paired
    rw [blockText, ends]
    rfl
  have applied := refollows.applyEdits_instead (show again.previous = some old from rfl)
  rw [show old.region.before = head from rfl, lands.fresh, if_pos isBlank_nil, same] at applied
  rw [applied]
  simp [old, below, Region.whole]

end

end CommentPlan

/-- A selection of the changed text that runs from the end of the inserted text to where the end of the
first selection has come to stand. -/
structure CommentPlan.Reselects (plan : CommentPlan) (t changed : Text) (selection again : Selection) :
    Prop where
  start : ∃ e, plan.edits.getLast? = some e ∧ changed.offset again.start = .ok (e.start + size e.text)
  stop : ∃ n m, t.offset selection.stop = .ok n ∧ changed.offset again.stop = .ok m ∧
    m + size t = n + size changed

open CommentPlan

theorem CommentPlan.Lands.region_of_reselects {r : Region} {plan : CommentPlan} {head gap rest : Text}
    (lands : Lands r plan head gap rest) {selection again : Selection}
    (covered : selection.region r.whole = .ok r)
    (reselects : plan.Reselects r.whole (below r plan head gap rest).whole selection again) :
    again.region (below r plan head gap rest).whole = .ok (below r plan head gap rest) := by
  have whole : (below r plan head gap rest).whole = head ++ blockText r plan ++ gap ++ (rest ++ r.after) := by
    simp [below, Region.whole]
  rw [Selection.region_eq_ok_iff]
  refine ⟨?_, ?_, rfl⟩
  · obtain ⟨e, last, start⟩ := reselects.start
    obtain ⟨inserted, same, size⟩ := lands.inserted
    rw [last, Option.some.injEq] at same
    rw [same, size, whole] at start
    rw [whole]
    exact before_of_offset start
  · obtain ⟨n, m, stop, moved, shift⟩ := reselects.stop
    have stops : n = size (r.before ++ r.inside) := by
      obtain ⟨-, named, -⟩ := Selection.region_eq_ok_iff.1 covered
      obtain ⟨other, found, size⟩ := offset_eq_ok_iff.1 stop
      rw [named, Except.ok.injEq] at found
      rw [← size, found]
    have place : m = size (head ++ blockText r plan ++ gap ++ rest) := by
      rw [stops] at shift
      simp only [below, Region.whole, size_append] at shift ⊢
      omega
    rw [place] at moved
    exact before_of_offset moved

theorem CommentPlan.Lands.exists_reselects {options : CommentOptions} {r : Region} {plan : CommentPlan}
    {head gap rest : Text} (lands : Lands r plan head gap rest) (follows : Follows options r plan)
    {selection : Selection} (covered : selection.region r.whole = .ok r) :
    ∃ again, plan.Reselects r.whole (below r plan head gap rest).whole selection again := by
  obtain ⟨passed, cut⟩ := Declaration.skipLineComments_suffix rest
  rw [lands.skipped] at cut
  have declares := follows.heading_ne_nil
  have nonempty : rest ≠ [] := by
    intro none
    rw [none, List.append_eq_nil_iff] at cut
    exact declares cut.2
  obtain ⟨first, second, -⟩ := Selection.region_eq_ok_iff.1 covered
  have start : ¬ PartsEnding (head ++ blockText r plan ++ gap) (rest ++ r.after) := by
    intro parts
    rcases lands.start with none | full
    · obtain ⟨returned, ends, -⟩ := exists_ending r.whole
      have last := parts.1
      rw [none, List.append_nil, follows.blockText_eq, ends, ← List.append_assoc, ← List.append_assoc,
        List.getLast?_concat] at last
      simp at last
    · obtain ⟨c, tail, rfl⟩ := List.exists_cons_of_ne_nil nonempty
      have feed : c = '\n' := Option.some.inj parts.2
      rw [feed] at full
      exact absurd full (show ¬ isSpace '\n' = false by decide)
  have stop : ¬ PartsEnding (head ++ blockText r plan ++ gap ++ rest) r.after := by
    -- the declaration ends both selections
    have last : ∀ a b : Text, (a ++ (b ++ (heading r plan.previous).inside)).getLast? =
        (heading r plan.previous).inside.getLast? := by
      intro a b
      rw [← List.append_assoc, List.getLast?_append, List.getLast?_eq_some_getLast declares,
        Option.some_or]
    have fits := exists_before_iff.1 ⟨selection.stop, second⟩
    rw [← before_append_inside_heading r plan.previous] at fits
    intro parts
    apply fits
    refine ⟨?_, parts.2⟩
    have before := last [] (heading r plan.previous).before
    rw [List.nil_append] at before
    rw [before, ← last (head ++ blockText r plan ++ gap) passed, cut]
    exact parts.1
  obtain ⟨again, found⟩ := @Selection.exists_region (below r plan head gap rest) nonempty start stop
  obtain ⟨begins, finishes, -⟩ := Selection.region_eq_ok_iff.1 found
  obtain ⟨inserted, same, sizes⟩ := lands.inserted
  refine ⟨again, ⟨inserted, same, ?_⟩, size (r.before ++ r.inside),
    size (head ++ blockText r plan ++ gap ++ rest), ?_, ?_, ?_⟩
  · exact offset_eq_ok_iff.2 ⟨_, begins, sizes.symm⟩
  · exact offset_eq_ok_iff.2 ⟨_, second, rfl⟩
  · exact offset_eq_ok_iff.2 ⟨_, finishes, rfl⟩
  · simp only [below, Region.whole, size_append]
    omega

/-- Documenting a declaration that has just been documented leaves the document as it is. -/
theorem Document.comment_refreshed {t : Text} {selection : Selection} {options : CommentOptions}
    {plan : CommentPlan} (planned : t.planComment selection options = .ok (some plan))
    (style : options.style = .text) (paired : ReturnsPaired t)
    (lines : ∀ old, plan.previous = some old → old.region.IsWholeLines)
    (unopened : ∀ r, selection.region t = .ok r →
      ¬ blockOpen <+: Declaration.skipLineComments (declared r plan.previous).inside)
    (opens : plan.comment.IsFree blockOpen) (closes : plan.comment.IsFree blockClose) :
    ∃ changed, t.applyEdits plan.edits = .ok changed ∧
      (∃ again, plan.Reselects t changed selection again) ∧
      ∀ again, plan.Reselects t changed selection again → ∀ today,
        (Document.mk changed).comment again { options with today := today } =
          ⟨.ok true, ⟨changed⟩⟩ := by
  obtain ⟨r, covered, follows⟩ := planComment_eq_ok_some_iff.1 planned
  obtain rfl := Selection.whole_of_region covered
  obtain ⟨head, gap, rest, lands⟩ := follows.exists_lands lines
  refine ⟨(below r plan head gap rest).whole, lands.applied, lands.exists_reselects follows covered, ?_⟩
  intro again reselects today
  obtain ⟨second, refollows, applied⟩ :=
    lands.exists_again follows style paired opens closes (unopened r covered) today
  have replanned := planComment_eq_ok_some_iff.2
    ⟨_, lands.region_of_reselects covered reselects, refollows⟩
  rw [comment, replanned]
  simp only [apply, applied]
  rfl

theorem Document.comment_refreshed_above :
    let t : Text := "/** @description é */\r\nvoid f(Id a) \x7b\r\n\x7d".toList
    let selection : Selection := .between ⟨1, 0⟩ ⟨2, 1⟩
    let options : CommentOptions := ⟨.standard, .text, ⟨2024, 3, 5, by decide⟩⟩
    ∃ plan changed again, t.planComment selection options = .ok (some plan) ∧
      t.applyEdits plan.edits = .ok changed ∧ plan.Reselects t changed selection again ∧
      ∀ today, (Document.mk changed).comment again { options with today := today } =
        ⟨.ok true, ⟨changed⟩⟩ := by
  intro t selection options
  let old : ExistingComment :=
    ⟨⟨"é".toList, []⟩, ⟨[], "/** @description é */\r\n".toList, "void f(Id a) \x7b\r\n\x7d".toList⟩,
      .preceding⟩
  let tags : MethodTags :=
    ⟨.ofList [⟨"a".toList, "Id".toList⟩], "5 March 2024".toList, "void".toList⟩
  let comment : DocComment := ⟨[], some "é".toList, some tags⟩
  let plan : CommentPlan :=
    ⟨.method ⟨"f".toList, "void".toList, tags.parameters⟩, some old, comment, comment.lines .text,
      [.deletion 0 24, .insertion 0 (DocComment.toText "\r\n".toList (comment.lines .text))]⟩
  have planned : t.planComment selection options = .ok (some plan) :=
    planComment_of_toOption (by decide +kernel)
  have lines : ∀ other, plan.previous = some other → other.region.IsWholeLines := by
    intro other same
    cases same
    exact ⟨by decide, by decide +kernel⟩
  have unopened : ∀ r, selection.region t = .ok r →
      ¬ blockOpen <+: Declaration.skipLineComments (declared r plan.previous).inside := by
    intro r covered
    have known : (selection.region t).toOption =
        some ⟨old.region.inside, old.region.after, []⟩ := by decide +kernel
    rw [covered] at known
    cases known
    decide +kernel
  have free : ∀ mark, IsMark mark → plan.comment.IsFree mark := by
    intro mark isMark
    constructor
    · intro d same
      cases same
      exact isMark.not_infix_of_not_mem (by decide)
    · intro m same
      cases same
      exact isMark.not_infix_of_not_mem (by decide)
    · intro m same p member
      cases same
      rw [List.mem_singleton.1 (Parameters.mem_of_mem_ofList member)]
      exact isMark.not_infix_of_not_mem (by decide)
    · intro m same
      cases same
      exact isMark.not_infix_of_not_mem (by decide)
  obtain ⟨changed, applied, ⟨again, reselects⟩, refreshed⟩ :=
    comment_refreshed planned rfl (by decide +kernel) lines unopened (free _ isMark_blockOpen)
      (free _ isMark_blockClose)
  exact ⟨plan, changed, again, planned, applied, reselects, refreshed again reselects⟩

end ApexTidy
