import ApexTidy.Declaration.Basic
import ApexTidy.Proofs.Text.Blanks
import ApexTidy.Proofs.Text.Search

/-!
Passing over line comments. What is left is an end of the text that starts neither with a blank nor with
a line comment, and what a text declares depends on that end alone.
-/

namespace ApexTidy

open Text

namespace Declaration

theorem skipFrom_suffix (inComment : Bool) (t : Text) : skipFrom inComment t <:+ t := by
  fun_induction skipFrom inComment t with
  | case1 => exact List.suffix_rfl
  | case2 c t ih => exact ih.trans (List.suffix_cons c t)
  | case3 c t _ ih => exact ih.trans (List.suffix_cons c t)
  | case4 c t _ _ ih => exact ih.trans (List.suffix_cons c t)
  | case5 => exact List.suffix_rfl

theorem skipLineComments_suffix (t : Text) : skipLineComments t <:+ t := skipFrom_suffix false t

theorem skipFrom_start (inComment : Bool) (t : Text) :
    StartsFull (skipFrom inComment t) ∧ ¬ ['/', '/'] <+: skipFrom inComment t := by
  fun_induction skipFrom inComment t with
  | case1 => exact ⟨rfl, by simp⟩
  | case2 c t ih => exact ih
  | case3 c t _ ih => exact ih
  | case4 c t _ _ ih => exact ih
  | case5 c t full code =>
    rw [startsWith_iff] at code
    exact ⟨by simpa [StartsFull] using full, code⟩

theorem startsFull_skipLineComments (t : Text) : StartsFull (skipLineComments t) :=
  (skipFrom_start false t).1

theorem skipLineComments_eq_self {t : Text} (full : StartsFull t) (code : ¬ ['/', '/'] <+: t) :
    skipLineComments t = t := by
  cases t with
  | nil => rfl
  | cons c t =>
    have solid : isSpace c = false := full
    rw [← startsWith_iff] at code
    rw [skipLineComments, skipFrom, if_neg (by simp [solid]), if_neg code]

theorem skipLineComments_idem (t : Text) :
    skipLineComments (skipLineComments t) = skipLineComments t :=
  skipLineComments_eq_self (skipFrom_start false t).1 (skipFrom_start false t).2

theorem skipLineComments_append {a : Text} (blank : isBlank a = true) (t : Text) :
    skipLineComments (a ++ t) = skipLineComments t := by
  rw [isBlank_iff] at blank
  induction a with
  | nil => rfl
  | cons c a ih =>
    have others := ih fun other member => blank other (List.mem_cons_of_mem _ member)
    rw [skipLineComments, List.cons_append, skipFrom, if_pos (blank c List.mem_cons_self)]
    exact others

theorem skipLineComments_eq_trimStart {t : Text} (code : ¬ ['/', '/'] <+: trimStart t) :
    skipLineComments t = trimStart t := by
  conv => lhs; rw [← leadingSpace_append_trimStart t]
  rw [skipLineComments_append (isBlank_leadingSpace t),
    skipLineComments_eq_self (startsFull_trimStart t) code]

theorem isBlank_lastRow_cons {c : Char} {t : Text} (blank : isSpace c = true)
    (row : isBlank (lastRow t) = true) : isBlank (lastRow (c :: t)) = true := by
  rw [← List.singleton_append]
  by_cases member : '\n' ∈ t
  · rw [lastRow_append_of_mem _ member]
    exact row
  · rw [lastRow_of_not_mem member] at row
    rw [lastRow_append_of_not_mem _ member, isBlank_append, row, Bool.and_true, isBlank_iff]
    intro other inside
    have part : other ∈ [c] := by
      rw [← aboveLastRow_append_lastRow [c]]
      exact List.mem_append_right _ inside
    rw [List.mem_singleton.1 part]
    exact blank

theorem exists_passed_cons {c : Char} {t passed rest : Text} (suffix : rest <:+ t)
    (whole : c :: t = passed ++ rest) : ∃ later, passed = c :: later ∧ t = later ++ rest := by
  cases passed with
  | nil =>
    have fits := suffix.length_le
    have lengths := congrArg List.length whole
    simp only [List.length_cons, List.nil_append] at lengths
    omega
  | cons other later =>
    obtain ⟨rfl, same⟩ := List.cons.inj whole
    exact ⟨later, rfl, same⟩

/-- What is passed over ends with a row of blanks, and a comment with its line feed. -/
theorem isBlank_lastRow_of_skipFrom {inComment : Bool} {t passed : Text}
    (cut : t = passed ++ skipFrom inComment t) (nonempty : skipFrom inComment t ≠ []) :
    isBlank (lastRow passed) = true ∧ (inComment = true → '\n' ∈ passed) := by
  -- one character after the other; in a comment its line feed is still to come
  fun_induction skipFrom inComment t generalizing passed with
  | case1 => exact absurd rfl nonempty
  | case2 c t ih =>
    obtain ⟨later, rfl, rest⟩ := exists_passed_cons (skipFrom_suffix _ t) cut
    obtain ⟨row, feed⟩ := ih rest nonempty
    by_cases ends : c = '\n'
    · subst ends
      refine ⟨isBlank_lastRow_cons (by decide) row, fun _ => List.mem_cons_self⟩
    · have member := feed (by simpa using ends)
      refine ⟨?_, fun _ => List.mem_cons_of_mem _ member⟩
      rw [← List.singleton_append, lastRow_append_of_mem _ member]
      exact row
  | case3 c t blank ih =>
    obtain ⟨later, rfl, rest⟩ := exists_passed_cons (skipFrom_suffix _ t) cut
    exact ⟨isBlank_lastRow_cons blank (ih rest nonempty).1, by simp⟩
  | case4 c t _ _ ih =>
    obtain ⟨later, rfl, rest⟩ := exists_passed_cons (skipFrom_suffix _ t) cut
    obtain ⟨row, feed⟩ := ih rest nonempty
    refine ⟨?_, by simp⟩
    rw [← List.singleton_append, lastRow_append_of_mem _ (feed rfl)]
    exact row
  | case5 c t _ _ =>
    have none : passed = [] := List.append_left_eq_self.1 cut.symm
    exact ⟨by rw [none]; rfl, by simp⟩

theorem isBlank_lastRow_of_skipLineComments {t passed : Text} (cut : passed ++ skipLineComments t = t)
    (nonempty : skipLineComments t ≠ []) : isBlank (lastRow passed) = true :=
  (isBlank_lastRow_of_skipFrom cut.symm nonempty).1

theorem prefix_skipLineComments {t : Text} (opened : ['/', '*', '*'] <+: trimStart t) :
    ['/', '*', '*'] <+: skipLineComments t := by
  have code : ¬ ['/', '/'] <+: trimStart t := by
    obtain ⟨rest, whole⟩ := opened
    rw [← whole]
    simp [List.cons_prefix_cons]
  rw [skipLineComments_eq_trimStart code]
  exact opened

end Declaration

namespace Modifiers

open Declaration

theorem classify_congr (m : Modifiers) {a b : Text} (same : skipLineComments a = skipLineComments b) :
    m.classify a = m.classify b := by
  rw [classify, classify, same]

theorem skipLineComments_ne_nil {m : Modifiers} {t : Text} (declares : m.classify t ≠ .unrecognized) :
    skipLineComments t ≠ [] := by
  intro none
  apply declares
  rw [classify, none]
  rfl

end Modifiers

end ApexTidy
