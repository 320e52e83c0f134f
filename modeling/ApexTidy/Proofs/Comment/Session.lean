import ApexTidy.Comment.Session
import ApexTidy.Proofs.Comment.Endings
import ApexTidy.Proofs.Comment.Outcome
import ApexTidy.Proofs.Indent.Layout
import ApexTidy.Proofs.Source.Returns

/-!
The line endings of a document that is worked on request by request. Laying out keeps what ends a row, a
new block is written with the ending that the document uses, and what is cut out for it never parts a
carriage return from its line feed. So a document that ends all lines with both, or that has no carriage
returns, stays one.
-/

namespace ApexTidy

open Text IndentState CommentPlan

namespace IndentState

theorem getLast?_laid_iff (s : IndentState) (unit : IndentUnit) (row : Text) :
    (s.laid unit row).getLast? = some '\r' ↔ row.getLast? = some '\r' := by
  have kept := @Line.returnOf_eq_nil_iff (s.laid unit row)
  rw [s.returnOf_laid, Line.returnOf_eq_nil_iff] at kept
  exact (not_iff_not.1 kept).symm

theorem getLast?_of_mem_relaid {unit : IndentUnit} {s : IndentState} {rows : List Text}
    (returned : ∀ row ∈ rows.dropLast, row.getLast? = some '\r') :
    ∀ row ∈ (s.relaid unit rows).dropLast, row.getLast? = some '\r' := by
  induction rows generalizing s with
  | nil => exact returned
  | cons row rest ih =>
    cases rest with
    | nil => simp [relaid]
    | cons next rest =>
      rw [List.dropLast_cons_cons, List.forall_mem_cons] at returned
      rw [relaid, relaid, List.dropLast_cons_cons, List.forall_mem_cons, getLast?_laid_iff, ← relaid]
      exact ⟨returned.1, ih returned.2⟩

theorem mem_of_mem_laid {s : IndentState} {unit : IndentUnit} {row : Text} {c : Char}
    (member : c ∈ s.laid unit row) : c ∈ row ∨ c = ' ' ∨ c = '\t' := by
  rw [laid] at member
  split at member
  · exact Or.inl member
  · rw [form, content_step, List.mem_append, List.mem_append] at member
    rcases member with (space | content) | returned
    · exact Or.inr (IndentUnit.mem_render space)
    · split at content
      · rcases List.mem_cons.1 content with same | inside
        · exact Or.inr (Or.inl same)
        · exact Or.inl ((trim_infix_self row).subset inside)
      · exact Or.inl ((trim_infix_self row).subset content)
    · left
      rw [← Line.withoutReturn_append_returnOf row]
      exact List.mem_append_right _ returned

theorem not_mem_of_mem_relaid {unit : IndentUnit} {s : IndentState} {rows : List Text}
    (absent : ∀ row ∈ rows, '\r' ∉ row) : ∀ row ∈ s.relaid unit rows, '\r' ∉ row := by
  induction rows generalizing s with
  | nil => exact absent
  | cons row rest ih =>
    rw [List.forall_mem_cons] at absent
    rw [relaid, List.forall_mem_cons]
    refine ⟨?_, ih absent.2⟩
    intro member
    rcases mem_of_mem_laid member with inside | space | tab
    · exact absent.1 inside
    · cases space
    · cases tab

end IndentState

namespace Text

theorem FeedsPaired.layout {t : Text} (paired : FeedsPaired t) (unit : IndentUnit) :
    FeedsPaired (t.layout unit) := by
  rw [feedsPaired_iff] at paired ⊢
  rw [splitOn_layout]
  exact getLast?_of_mem_relaid paired

theorem lineFeed_mem_layout {t : Text} (member : '\n' ∈ t) (unit : IndentUnit) :
    '\n' ∈ t.layout unit := by
  by_cases absent : '\n' ∈ t.layout unit
  · exact absent
  · exfalso
    have one := congrArg List.length (List.splitOn_eq_singleton absent)
    rw [splitOn_layout, length_relaid] at one
    obtain ⟨row, single⟩ := List.length_eq_one_iff.1 one
    have whole : ['\n'].intercalate (t.splitOn '\n') = t := List.intercalate_splitOn '\n'
    rw [single, List.intercalate_singleton] at whole
    have clean : '\n' ∉ row := lineFeed_not_mem_of_mem_splitOn (single ▸ List.mem_singleton_self row)
    exact clean (whole ▸ member)

theorem return_not_mem_layout {t : Text} (absent : '\r' ∉ t) (unit : IndentUnit) :
    '\r' ∉ t.layout unit := by
  have rows : ∀ row ∈ t.splitOn '\n', '\r' ∉ row :=
    fun row listed member => absent ((infix_of_mem_splitOnP listed).subset member)
  intro member
  rw [layout_eq] at member
  rcases mem_of_mem_intercalate member with feed | ⟨row, listed, inside⟩
  · exact absurd feed (by decide)
  · exact not_mem_of_mem_relaid rows row listed inside

end Text

theorem Text.getLast?_blanksAfter {t below : Text} (whole : t = blanksAfter t ++ '\n' :: below) :
    (blanksAfter t).getLast? = some '\n' := by
  have fed : '\n' ∈ t := by
    rw [whole]
    simp
  by_cases blank : isBlank (firstRow t) = true
  · have taken : blanksAfter t = firstRow t := if_pos blank
    obtain ⟨row, rest, same, single⟩ := List.eq_append_cons_of_mem fed
    rw [taken, same, firstRow_append_lineFeed single, List.getLast?_concat]
  · exfalso
    have taken : blanksAfter t = t.takeWhile fun c => c == ' ' || c == '\t' := if_neg blank
    have absent : '\n' ∉ blanksAfter t := by
      rw [taken]
      intro member
      have kept := List.all_eq_true.1 List.all_takeWhile _ member
      exact absurd kept (by decide)
    have row := firstRow_append_lineFeed absent below
    rw [← whole] at row
    apply blank
    rw [row, isBlank_append, isBlank_blanksAfter]
    decide

theorem Region.head?_after_widen {r : Region} (paired : FeedsPaired r.whole) :
    r.widen.after.head? ≠ some '\n' := by
  intro start
  obtain ⟨below, same⟩ := List.head?_eq_some_iff.1 start
  have back : blanksAfter r.after ++ r.widen.after = r.after := blanksAfter_append_drop r.after
  rw [same] at back
  have whole : r.whole = r.before ++ r.inside ++ blanksAfter r.after ++ '\n' :: below := by
    rw [List.append_assoc _ (blanksAfter r.after), back, Region.whole]
  have returned := paired _ _ whole
  rw [List.getLast?_append, getLast?_blanksAfter back.symm] at returned
  simp at returned

namespace CommentPlan

section

variable {options : CommentOptions} {r : Region} {plan : CommentPlan}

theorem Follows.head?_heading (follows : Follows options r plan) {above : Text} (row : '\n' ∉ above)
    (after : Text) : (above ++ (heading r plan.previous).inside ++ after).head? ≠ some '\n' := by
  obtain ⟨c, tail, starts⟩ := List.exists_cons_of_ne_nil follows.heading_ne_nil
  have full := startsFull_heading r plan.previous
  rw [starts] at full ⊢
  have solid : isSpace c = false := full
  cases above with
  | nil =>
    rintro same
    cases same
    exact absurd solid (by decide)
  | cons d above =>
    rintro same
    cases same
    simp at row

/-- The text that a plan puts in is not put inside a line ending. -/
theorem Follows.exists_seam (follows : Follows options r plan) (paired : FeedsPaired r.whole) :
    ∃ before gone after new, r.whole = before ++ gone ++ after ∧ after.head? ≠ some '\n' ∧
      (new = blockText r plan ∨ new = ending r.whole ++ blockText r plan ++ plan.comment.indent) ∧
      r.whole.applyEdits plan.edits = .ok (before ++ new ++ after) := by
  cases previous : plan.previous with
  | none =>
    have whole := whole_heading r none
    rw [Region.whole, after_heading] at whole
    have start := @Follows.head?_heading _ _ _ follows
    rw [previous] at start
    cases shared : isBlank (lastRow (heading r none).before) with
    | true =>
      refine ⟨_, [], _, _, ?_, ?_, Or.inl rfl, follows.applyEdits_above previous shared⟩
      · rw [List.append_nil, ← List.append_assoc, ← List.append_assoc, aboveLastRow_append_lastRow]
        exact whole.symm
      · exact start (lineFeed_not_mem_lastRow _) r.after
    | false =>
      refine ⟨_, [], _, _, ?_, ?_, Or.inr rfl, follows.applyEdits_between previous shared⟩
      · rw [List.append_nil, ← List.append_assoc]
        exact whole.symm
      · exact start List.not_mem_nil r.after
  | some old =>
    have located := follows.previous.symm.trans previous
    have whole := ExistingComment.whole_of_of? located
    refine ⟨_, old.region.inside, _, _, whole.symm, ?_, ?_, follows.applyEdits_instead previous⟩
    · obtain ⟨block, found, rfl⟩ := ExistingComment.exists_of_of? located
      apply Region.head?_after_widen
      rwa [Block.whole_of_locate found]
    · split
      · exact Or.inl rfl
      · exact Or.inr rfl

theorem Follows.feedsPaired_blockText (follows : Follows options r plan)
    (both : ending r.whole = ['\r', '\n']) : FeedsPaired (blockText r plan) := by
  rw [blockText, both]
  exact FeedsPaired.toText follows.lineFeed_not_mem_rendered

theorem Follows.keeps_returns (follows : Follows options r plan) {changed : Text}
    (applied : r.whole.applyEdits plan.edits = .ok changed) (used : ['\r', '\n'] <:+: r.whole)
    (paired : FeedsPaired r.whole) : ['\r', '\n'] <:+: changed ∧ FeedsPaired changed := by
  have both := ending_eq_of_infix_crlf used
  have block := follows.feedsPaired_blockText both
  have indent := FeedsPaired.of_not_mem follows.lineFeed_not_mem_indent
  obtain ⟨before, gone, after, new, whole, start, text, result⟩ := follows.exists_seam paired
  obtain rfl := Except.ok.inj (applied.symm.trans result)
  rw [whole] at paired
  have pairedNew : FeedsPaired new := by
    rcases text with rfl | rfl
    · exact block
    · rw [both]
      exact (FeedsPaired.append (by decide) block).append indent
  have kept := (paired.of_append_left.of_append_left.append pairedNew).append
    (paired.of_append_right start)
  refine ⟨kept.infix_of_mem ?_, kept⟩
  have feed : '\n' ∈ blockText r plan := by
    rw [follows.blockText_eq, both]
    simp
  apply List.mem_append_left _ (List.mem_append_right _ _)
  rcases text with rfl | rfl
  · exact feed
  · exact List.mem_append_left _ (List.mem_append_right _ feed)

theorem Follows.return_not_mem (follows : Follows options r plan) {changed : Text}
    (applied : r.whole.applyEdits plan.edits = .ok changed) (absent : '\r' ∉ r.whole) :
    '\r' ∉ changed := by
  have block := follows.return_not_mem_blockText absent
  have indent : '\r' ∉ plan.comment.indent := by
    rw [follows.indent_eq]
    exact fun member => absent (mem_whole_of_mem_indentation member)
  obtain ⟨region, new, whole, -, text, result⟩ := follows.exists_replacement
  obtain rfl := Except.ok.inj (applied.symm.trans result)
  have added : '\r' ∉ new := by
    rcases text with rfl | rfl
    · exact block
    · rw [ending_eq_of_not_mem absent]
      simp only [List.mem_append, not_or]
      exact ⟨⟨by decide, block⟩, indent⟩
  rw [← whole, Region.whole] at absent
  simp only [List.mem_append, not_or] at absent ⊢
  exact ⟨⟨absent.1.1, added⟩, absent.2⟩

end

end CommentPlan

namespace Document

/-- A batch is edited as the caller says; every other request the document works out itself. -/
def Request.isBatch : Request → Bool
  | .apply _ => true
  | .format _ => false
  | .comment _ _ => false

theorem text_format (d : Document) (unit : IndentUnit) :
    (d.format unit).document.text = d.text.layout unit := by
  rw [format, Text.layout, apply]
  cases d.text.applyEdits (d.text.layoutEdits unit) with
  | ok laidOut => rfl
  | error fault => rfl

/-- What is true of a text after layout, and after the edits of a plan, if it was before. -/
structure IsKept (P : Text → Prop) : Prop where
  layout : ∀ {t : Text} (unit : IndentUnit), P t → P (t.layout unit)
  comment : ∀ {options : CommentOptions} {r : Region} {plan : CommentPlan} {changed : Text},
    Follows options r plan → r.whole.applyEdits plan.edits = .ok changed → P r.whole → P changed

section

variable {P : Text → Prop}

theorem IsKept.perform (kept : IsKept P) {d : Document} (holds : P d.text) {request : Request}
    (worked : request.isBatch = false) : P (d.perform request).document.text := by
  cases request with
  | apply batch => cases worked
  | format unit =>
    show P (d.format unit).document.text
    rw [text_format]
    exact kept.layout unit holds
  | comment selection options =>
    show P (d.comment selection options).document.text
    rcases comment_cases d.text selection options with ⟨fault, -, reply⟩ | ⟨-, reply⟩ |
      ⟨plan, changed, planned, applied, reply⟩
    · exact reply ▸ holds
    · exact reply ▸ holds
    · obtain ⟨r, covered, follows⟩ := planComment_eq_ok_some_iff.1 planned
      have whole := Selection.whole_of_region covered
      rw [← whole] at applied holds
      exact reply ▸ kept.comment follows applied holds

theorem IsKept.performAll (kept : IsKept P) {d : Document} (holds : P d.text) {requests : List Request}
    (worked : ∀ request ∈ requests, request.isBatch = false) :
    ∀ reply ∈ d.performAll requests, P reply.document.text := by
  induction requests generalizing d with
  | nil => simp [Document.performAll]
  | cons request rest ih =>
    rw [List.forall_mem_cons] at worked
    have first := kept.perform holds worked.1
    rw [Document.performAll, List.forall_mem_cons]
    exact ⟨first, ih first worked.2⟩

end

theorem isKept_returns : IsKept fun t => ['\r', '\n'] <:+: t ∧ FeedsPaired t where
  layout unit holds :=
    have paired := holds.2.layout unit
    ⟨paired.infix_of_mem (lineFeed_mem_layout (holds.1.subset (by decide)) unit), paired⟩
  comment follows applied holds := follows.keeps_returns applied holds.1 holds.2

theorem isKept_noReturn : IsKept fun t => '\r' ∉ t where
  layout unit absent := return_not_mem_layout absent unit
  comment follows applied absent := follows.return_not_mem applied absent

/-- The way a document ends its lines outlasts every run of layouts and new blocks. -/
theorem performAll_keeps_endings (d : Document) {requests : List Request}
    (worked : ∀ request ∈ requests, request.isBatch = false) :
    (['\r', '\n'] <:+: d.text ∧ FeedsPaired d.text → ∀ reply ∈ d.performAll requests,
        ['\r', '\n'] <:+: reply.document.text ∧ FeedsPaired reply.document.text) ∧
      ('\r' ∉ d.text → ∀ reply ∈ d.performAll requests, '\r' ∉ reply.document.text) := by
  refine ⟨?_, ?_⟩
  · intro holds
    exact isKept_returns.performAll holds worked
  · intro absent
    exact isKept_noReturn.performAll absent worked

theorem performAll_keeps_endings_of_method :
    let returned : Document :=
      ⟨"class A \x7b\r\nint a; /** @description\r\n* sum */ void f() \x7b\r\n\x7d\r\n\x7d".toList⟩
    let fed : Document :=
      ⟨"class A \x7b\nint a; /** @description\n* sum */ void f() \x7b\n\x7d\n\x7d".toList⟩
    let requests : List Request :=
      [.comment (.between ⟨1, 7⟩ ⟨3, 1⟩) ⟨.standard, .snippet, ⟨2024, 3, 5, by decide⟩⟩, .format .tab,
        .comment (.ofLines 2 10) ⟨.standard, .text, ⟨2024, 3, 5, by decide⟩⟩]
    (∀ request ∈ requests, request.isBatch = false) ∧
      ['\r', '\n'] <:+: returned.text ∧ FeedsPaired returned.text ∧ '\r' ∉ fed.text ∧
      (∀ reply ∈ returned.performAll requests,
        ['\r', '\n'] <:+: reply.document.text ∧ FeedsPaired reply.document.text) ∧
      ∀ reply ∈ fed.performAll requests, '\r' ∉ reply.document.text := by
  intro returned fed requests
  have worked : ∀ request ∈ requests, request.isBatch = false := by simp [requests, Request.isBatch]
  have used : ['\r', '\n'] <:+: returned.text := by decide +kernel
  have paired : FeedsPaired returned.text := by decide +kernel
  have absent : '\r' ∉ fed.text := by decide +kernel
  refine ⟨worked, used, paired, absent, ?_, ?_⟩
  · exact (performAll_keeps_endings returned worked).1 ⟨used, paired⟩
  · exact (performAll_keeps_endings fed worked).2 absent

end Document

end ApexTidy
