import ApexTidy.Proofs.Comment.Landing
import ApexTidy.Proofs.Comment.ReadBack

/-!
The line endings of a document with a new block. What a header says over several lines is put into one, so
each line of the block takes one row. The block is written with the ending that the document uses and
brings no carriage return from elsewhere, so the document uses the same ending afterwards.
-/

namespace ApexTidy

open Text Tags

/-- Each carriage return is followed by a line feed. -/
def Text.ReturnsPaired : Text → Prop
  | [] => True
  | c :: t => (c = '\r' → t.head? = some '\n') ∧ ReturnsPaired t

instance Text.decidableReturnsPaired : (t : Text) → Decidable (ReturnsPaired t)
  | [] => isTrue trivial
  | _ :: t =>
    have := decidableReturnsPaired t
    inferInstanceAs (Decidable (_ ∧ _))

theorem Text.ReturnsPaired.infix_of_mem {t : Text} (paired : ReturnsPaired t) (member : '\r' ∈ t) :
    ['\r', '\n'] <:+: t := by
  induction t with
  | nil => cases member
  | cons c t ih =>
    rcases List.mem_cons.1 member with rfl | later
    · obtain ⟨rest, rfl⟩ := List.head?_eq_some_iff.1 (paired.1 rfl)
      exact ⟨[], rest, rfl⟩
    · exact List.infix_cons (ih paired.2 later)

namespace CommentPlan

theorem ending_eq_of_not_mem {t : Text} (absent : '\r' ∉ t) : ending t = ['\n'] := by
  rw [ending, if_neg]
  rw [occursIn_iff]
  intro inside
  exact absent (inside.subset (by decide))

theorem ending_eq_of_infix_crlf {t : Text} (inside : ['\r', '\n'] <:+: t) : ending t = ['\r', '\n'] := by
  rw [ending, if_pos (occursIn_iff.2 inside)]

theorem return_not_mem_of_ending {t : Text} (paired : ReturnsPaired t) (feed : ending t = ['\n']) :
    '\r' ∉ t := by
  intro member
  rw [ending_eq_of_infix_crlf (paired.infix_of_mem member)] at feed
  simp at feed

section

variable {options : CommentOptions} {r : Region} {plan : CommentPlan} {head gap rest : Text}

theorem Follows.blockText_eq (follows : Follows options r plan) :
    blockText r plan = plan.comment.indent
      ++ Block.written (plan.comment.inner options.style (ending r.whole)) ++ ending r.whole := by
  rw [blockText, follows.rendered, DocComment.toText_lines]

theorem Follows.lineFeed_not_mem_rendered (follows : Follows options r plan) :
    ∀ line ∈ plan.rendered, '\n' ∉ line := by
  obtain ⟨source, -, -, sound⟩ := follows.exists_source
  rw [follows.rendered]
  exact sound.not_mem_lines (by decide) (by decide) (fun _ part => part.single)
    follows.lineFeed_not_mem_indent options.style

theorem Follows.return_not_mem_blockText (follows : Follows options r plan) (absent : '\r' ∉ r.whole) :
    '\r' ∉ blockText r plan := by
  obtain ⟨source, inside, -, sound⟩ := follows.exists_source
  have outside : ∀ line, IsLineOf source line → '\r' ∉ line :=
    fun _ part member => absent (inside.subset (part.part.subset member))
  have indent : '\r' ∉ plan.comment.indent := by
    rw [follows.indent_eq]
    exact fun member => absent (mem_whole_of_mem_indentation member)
  have feed : '\r' ∉ ending r.whole := by
    rw [ending_eq_of_not_mem absent]
    decide
  intro member
  obtain ⟨line, listed, within⟩ := List.mem_flatMap.1 member
  rw [follows.rendered] at listed
  rcases List.mem_append.1 within with text | ends
  · exact sound.not_mem_lines (by decide) (by decide) outside indent options.style line listed text
  · exact feed ends

theorem Lands.ending_eq (lands : Lands r plan head gap rest) (follows : Follows options r plan)
    (paired : ReturnsPaired r.whole) :
    ending (head ++ blockText r plan ++ gap ++ rest ++ r.after) = ending r.whole := by
  rcases ending_cases r.whole with feed | both
  · have absent := return_not_mem_of_ending paired feed
    rw [feed]
    apply ending_eq_of_not_mem
    have own : '\r' ∉ head ++ gap ++ rest := by
      intro member
      rcases lands.own _ member with before | ends
      · exact absent before
      · rw [feed] at ends
        exact absurd ends (by decide)
    have block := follows.return_not_mem_blockText absent
    have after : '\r' ∉ r.after := fun member => absent (List.mem_append_right _ member)
    simp only [List.mem_append, not_or] at own ⊢
    exact ⟨⟨⟨⟨own.1.1, block⟩, own.1.2⟩, own.2⟩, after⟩
  · rw [both]
    apply ending_eq_of_infix_crlf
    rw [follows.blockText_eq, both]
    exact ⟨head ++ plan.comment.indent ++ Block.written (plan.comment.inner options.style (ending r.whole)),
      gap ++ rest ++ r.after, by simp [both]⟩

theorem Follows.lastRow_blockText (follows : Follows options r plan) (a : Text) :
    lastRow (a ++ blockText r plan) = [] := by
  obtain ⟨returned, ends, -⟩ := exists_ending r.whole
  rw [follows.blockText_eq, ends, ← List.append_assoc, ← List.append_assoc]
  exact lastRow_append_lineFeed _

end

end CommentPlan

/-- However a header is laid out, what is read from it is canonical, so no line of a planned block runs
over. -/
theorem Text.planComment_keeps_to_rows :
    (∀ (m : Modifiers) t s, m.classify t = .method s → s.Canonical) ∧
      ∀ (t : Text) selection options plan, t.planComment selection options = .ok (some plan) →
        ∀ line ∈ plan.rendered, '\n' ∉ line := by
  constructor
  · intro m t s declares
    exact Modifiers.canonical_of_classify declares
  · intro t selection options plan planned
    obtain ⟨r, -, follows⟩ := planComment_eq_ok_some_iff.1 planned
    exact follows.lineFeed_not_mem_rendered

theorem Text.planComment_keeps_to_rows_of_header :
    let t : Text := "Map<Id,\r\n\tList<Id>>\n f(Set<\u00a0Id\n > a,\r\n\tb) \x7b\n\x7d\n".toList
    let s : Signature :=
      ⟨['f'], "Map<Id, List<Id>>".toList, .ofList [⟨['a'], "Set< Id >".toList⟩]⟩
    (Modifiers.standard.classify t = .method s ∧ s.Canonical) ∧
      ∃ plan, t.planComment (.ofLines 0 4) ⟨.standard, .text, ⟨2024, 3, 5, by decide⟩⟩ = .ok (some plan) ∧
        " * @param a Set< Id >".toList ∈ plan.rendered ∧ ∀ line ∈ plan.rendered, '\n' ∉ line := by
  intro t s
  have declares : Modifiers.standard.classify t = .method s := by decide +kernel
  let comment : DocComment := ⟨[], none, some ⟨s.parameters, "5 March 2024".toList, s.returnType⟩⟩
  let plan : CommentPlan := ⟨.method s, none, comment, comment.lines .text,
    [.insertion 0 (DocComment.toText ['\r', '\n'] (comment.lines .text))]⟩
  have planned : t.planComment (.ofLines 0 4) ⟨.standard, .text, ⟨2024, 3, 5, by decide⟩⟩ =
    .ok (some plan) := planComment_of_toOption (by decide +kernel)
  obtain ⟨canonical, rows⟩ := planComment_keeps_to_rows
  have listed : " * @param a Set< Id >".toList ∈ plan.rendered := by decide +kernel
  exact ⟨⟨declares, canonical _ t s declares⟩, plan, planned, listed, rows t _ _ plan planned⟩

example : Modifiers.standard.classify "else if (x) \x7b\n\x7d".toList = .unrecognized := by
  decide +kernel

end ApexTidy
