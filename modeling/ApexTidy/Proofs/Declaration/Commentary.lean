import ApexTidy.Proofs.Declaration.Headers

/-!
What is passed over in front of a declaration. Behind its blanks a text is code, or a comment that runs to the
end of the text, or a comment with a text below its line feed. So passing over comments goes from row to row:
it drops blanks and comments and nothing else, and takes one round for each of the comments, of which all but
the last take a line feed along.
-/

namespace ApexTidy.Declaration

open Text

theorem commentary_induction {motive : Text → Prop}
    (blanks : ∀ blanks t, isBlank blanks = true → motive t → motive (blanks ++ t))
    (code : ∀ t, StartsFull t → ¬ ['/', '/'] <+: t → motive t)
    (unended : ∀ comment, '\n' ∉ comment → motive (['/', '/'] ++ comment))
    (line : ∀ comment t, '\n' ∉ comment → motive t → motive (['/', '/'] ++ (comment ++ '\n' :: t)))
    (t : Text) : motive t := by
  have parts := leadingSpace_append_trimStart t
  rw [← parts]
  apply blanks _ _ (isBlank_leadingSpace t)
  by_cases opened : ['/', '/'] <+: trimStart t
  · obtain ⟨rest, whole⟩ := opened
    rw [← whole] at parts ⊢
    by_cases feed : '\n' ∈ rest
    · obtain ⟨comment, below, rfl, single⟩ := List.eq_append_cons_of_mem feed
      exact line comment below single (commentary_induction blanks code unended line below)
    · exact unended rest feed
  · exact code _ (startsFull_trimStart t) opened
termination_by t.length
decreasing_by
  rw [← parts]
  simp only [List.length_append, List.length_cons]
  omega

/-- Commentary in front of the rest of a text; if nothing is left, its last comment may lack a line feed. -/
inductive IsPassed (rest : Text) : Text → Prop where
  | lines {passed} (commentary : IsCommentary passed) : IsPassed rest passed
  | unended {front comment} (commentary : IsCommentary front) (single : '\n' ∉ comment) (last : rest = []) :
    IsPassed rest (front ++ (['/', '/'] ++ comment))

theorem IsCommentary.blanks_append {blanks front : Text} (blank : isBlank blanks = true)
    (commentary : IsCommentary front) : IsCommentary (blanks ++ front) := by
  rw [isBlank_iff] at blank
  induction blanks with
  | nil => exact commentary
  | cons c blanks ih =>
    obtain ⟨first, others⟩ := List.forall_mem_cons.1 blank
    exact .blank first (ih others)

section

variable {rest passed : Text} (later : IsPassed rest passed)

include later

theorem IsPassed.blanks_append {blanks : Text} (blank : isBlank blanks = true) :
    IsPassed rest (blanks ++ passed) := by
  cases later with
  | lines commentary => exact .lines (commentary.blanks_append blank)
  | unended commentary single last =>
    rw [← List.append_assoc]
    exact .unended (commentary.blanks_append blank) single last

theorem IsPassed.line_append {comment : Text} (single : '\n' ∉ comment) :
    IsPassed rest (['/', '/'] ++ (comment ++ '\n' :: passed)) := by
  cases later with
  | lines commentary => exact .lines (.line single commentary)
  | @unended front unended commentary row last =>
    have whole : ['/', '/'] ++ (comment ++ '\n' :: (front ++ (['/', '/'] ++ unended))) =
        ['/', '/'] ++ (comment ++ '\n' :: front) ++ (['/', '/'] ++ unended) := by simp
    rw [whole]
    exact .unended (.line single commentary) row last

end

theorem skipLineComments_unended {comment : Text} (single : '\n' ∉ comment) :
    skipLineComments (['/', '/'] ++ comment) = [] := by
  rw [skipLineComments_slashes, skipFrom_true_of_not_mem (lineFeed_not_mem_slashes single)]

theorem exists_passed (t : Text) :
    ∃ passed, t = passed ++ skipLineComments t ∧ IsPassed (skipLineComments t) passed := by
  induction t using commentary_induction with
  | blanks blanks t blank ih =>
    obtain ⟨passed, whole, later⟩ := ih
    rw [skipLineComments_append blank]
    refine ⟨blanks ++ passed, ?_, later.blanks_append blank⟩
    rw [List.append_assoc, ← whole]
  | code t full plain =>
    rw [skipLineComments_eq_self full plain]
    exact ⟨[], rfl, .lines .nil⟩
  | unended comment single =>
    rw [skipLineComments_unended single]
    exact ⟨_, (List.append_nil _).symm, @IsPassed.unended [] [] comment .nil single rfl⟩
  | line comment t single ih =>
    obtain ⟨passed, whole, later⟩ := ih
    rw [skipLineComments_line single]
    refine ⟨_, ?_, later.line_append single⟩
    conv => lhs; rw [whole]
    simp

/-! ### Rounds -/

/-- Takes one comment after the other off a text, with the blanks behind it, in so many rounds at most. -/
def skipWithin? : Nat → Text → Option Text
  | 0, t => if startsWith ['/', '/'] t then none else some t
  | rounds + 1, t =>
    if startsWith ['/', '/'] t then
      match find? ['\n'] t with
      | none => skipWithin? rounds []
      | some feed => do
        let below ← t.slice? (feed + 1) (size t)
        skipWithin? rounds (trimStart below)
    else some t

theorem skipWithin?_of_code {t : Text} (plain : ¬ ['/', '/'] <+: t) (rounds : Nat) :
    skipWithin? rounds t = some t := by
  rw [← startsWith_iff] at plain
  cases rounds with
  | zero => exact if_neg plain
  | succ rounds => exact if_neg plain

theorem skipWithin?_unended {comment : Text} (single : '\n' ∉ comment) (rounds : Nat) :
    skipWithin? (rounds + 1) (['/', '/'] ++ comment) = some [] := by
  rw [skipWithin?, if_pos (startsWith_iff.2 (List.prefix_append ..)),
    find?_singleton_eq_none_iff.2 (lineFeed_not_mem_slashes single)]
  exact skipWithin?_of_code (by simp) rounds

theorem skipWithin?_line {comment : Text} (single : '\n' ∉ comment) (t : Text) (rounds : Nat) :
    skipWithin? (rounds + 1) (['/', '/'] ++ (comment ++ '\n' :: t)) = skipWithin? rounds (trimStart t) := by
  have row := lineFeed_not_mem_slashes single
  have shape : ['/', '/'] ++ (comment ++ '\n' :: t) = ['/', '/'] ++ comment ++ ['\n'] ++ t := by simp
  have feed : find? ['\n'] (['/', '/'] ++ comment ++ ['\n'] ++ t) = some (size (['/', '/'] ++ comment)) := by
    rw [find?, breakAt?_append (by decide)]
    · rfl
    · rwa [List.dropLast_singleton, List.append_nil, List.singleton_infix_iff]
  rw [skipWithin?, if_pos (startsWith_iff.2 (List.prefix_append ..)), shape, feed]
  simp only [Option.bind_eq_bind, slice?_belowRow, Option.bind_some]

theorem skipWithin?_eq_some {t : Text} {rounds : Nat} (enough : t.count '\n' ≤ rounds) :
    skipWithin? (rounds + 1) (trimStart t) = some (skipLineComments t) := by
  induction t using commentary_induction generalizing rounds with
  | blanks blanks t blank ih =>
    rw [List.count_append] at enough
    rw [trimStart_append_of_isBlank blank, skipLineComments_append blank]
    apply ih
    omega
  | code t full plain =>
    rw [trimStart_eq_self full, skipWithin?_of_code plain, skipLineComments_eq_self full plain]
  | unended comment single =>
    rw [trimStart_eq_self (startsFull_slashes _), skipWithin?_unended single,
      skipLineComments_unended single]
  | line comment t single ih =>
    rw [List.count_append, List.count_append, List.count_cons_self] at enough
    obtain ⟨fewer, rfl⟩ : ∃ fewer, rounds = fewer + 1 := ⟨rounds - 1, by omega⟩
    rw [trimStart_eq_self (startsFull_slashes _), skipWithin?_line single, skipLineComments_line single]
    apply ih
    omega

/-- What is left of a text is its end from the first code on, what is dropped is blanks and comments, and a
round for each line feed and one more are enough to come there. -/
theorem skipLineComments_passes (t : Text) :
    (∃ passed, t = passed ++ skipLineComments t ∧ IsPassed (skipLineComments t) passed) ∧
      (StartsFull (skipLineComments t) ∧ ¬ ['/', '/'] <+: skipLineComments t) ∧
      skipLineComments (skipLineComments t) = skipLineComments t ∧
      skipWithin? (t.count '\n' + 1) (trimStart t) = some (skipLineComments t) :=
  ⟨exists_passed t, skipFrom_start false t, skipLineComments_idem t, skipWithin?_eq_some (Nat.le_refl _)⟩

end ApexTidy.Declaration
