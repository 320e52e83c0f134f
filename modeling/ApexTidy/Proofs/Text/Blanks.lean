import ApexTidy.Text.Row
import ApexTidy.Text.Space

/-!
Blanks at the two ends of a text, and the rows on either side of a place in it. Trimming is told by
what it leaves: a text is trimmed if it neither starts nor ends with a blank, and blanks around a
trimmed text are all that trimming takes away.
-/

namespace ApexTidy.Text

section

variable {p : Char → Bool} {run rest : Text} (inside : ∀ c ∈ run, p c = true)
  (stop : rest.head?.any p = false)

include inside stop

/-- A run of characters of one kind goes up to where another kind follows. -/
theorem takeWhile_append_of_stop : (run ++ rest).takeWhile p = run := by
  rw [List.takeWhile_append_of_pos inside]
  cases rest with
  | nil => simp
  | cons c rest => rw [List.takeWhile_cons_of_neg (by simpa using stop), List.append_nil]

theorem dropWhile_append_of_stop : (run ++ rest).dropWhile p = rest := by
  have whole := List.takeWhile_append_dropWhile (p := p) (l := run ++ rest)
  rw [takeWhile_append_of_stop inside stop] at whole
  exact List.append_cancel_left whole

end

theorem isBlank_iff {t : Text} : isBlank t = true ↔ ∀ c ∈ t, isSpace c = true := List.all_eq_true

@[simp] theorem isBlank_nil : isBlank [] = true := rfl

@[simp] theorem isBlank_append (a b : Text) : isBlank (a ++ b) = (isBlank a && isBlank b) :=
  List.all_append

theorem isBlank_leadingSpace (t : Text) : isBlank (leadingSpace t) = true := List.all_takeWhile

theorem isBlank_trailingSpace (t : Text) : isBlank (trailingSpace t) = true := by
  rw [isBlank, trailingSpace, List.all_reverse]
  exact List.all_takeWhile

/-- The text does not start with a blank. -/
def StartsFull (t : Text) : Prop := t.head?.any isSpace = false

def EndsFull (t : Text) : Prop := t.getLast?.any isSpace = false

instance (t : Text) : Decidable (StartsFull t) := inferInstanceAs (Decidable (_ = _))

instance (t : Text) : Decidable (EndsFull t) := inferInstanceAs (Decidable (_ = _))

theorem startsFull_reverse {t : Text} : StartsFull t.reverse ↔ EndsFull t := by
  rw [StartsFull, EndsFull, List.head?_reverse]

theorem StartsFull.append {a : Text} (full : StartsFull a) (nonempty : a ≠ []) (b : Text) :
    StartsFull (a ++ b) := by
  obtain ⟨c, a, rfl⟩ := List.exists_cons_of_ne_nil nonempty
  exact full

theorem EndsFull.append {b : Text} (full : EndsFull b) (nonempty : b ≠ []) (a : Text) :
    EndsFull (a ++ b) := by
  rw [← startsFull_reverse, List.reverse_append]
  exact (startsFull_reverse.2 full).append (by simpa using nonempty) _

theorem trimStart_append_of_isBlank {a : Text} (blank : isBlank a = true) (t : Text) :
    trimStart (a ++ t) = trimStart t :=
  List.dropWhile_append_of_pos (isBlank_iff.1 blank)

theorem trimStart_eq_self {t : Text} (full : StartsFull t) : trimStart t = t :=
  @dropWhile_append_of_stop isSpace [] t (by simp) full

theorem startsFull_trimStart (t : Text) : StartsFull (trimStart t) := by
  induction t with
  | nil => rfl
  | cons c t ih =>
    rw [trimStart, List.dropWhile_cons]
    split
    · exact ih
    · rename_i solid
      simpa [StartsFull] using solid

theorem leadingSpace_append {a t : Text} (blank : isBlank a = true) (full : StartsFull t) :
    leadingSpace (a ++ t) = a :=
  takeWhile_append_of_stop (isBlank_iff.1 blank) full

theorem leadingSpace_of_isBlank {t : Text} (blank : isBlank t = true) : leadingSpace t = t := by
  have whole := leadingSpace_append blank (t := []) rfl
  rwa [List.append_nil] at whole

theorem trimEnd_eq (t : Text) : trimEnd t = (trimStart t.reverse).reverse := rfl

theorem trimEnd_append_of_isBlank (t : Text) {b : Text} (blank : isBlank b = true) :
    trimEnd (t ++ b) = trimEnd t := by
  rw [trimEnd_eq, List.reverse_append, trimStart_append_of_isBlank, trimEnd_eq]
  rw [isBlank, List.all_reverse]
  exact blank

theorem trimEnd_eq_self {t : Text} (full : EndsFull t) : trimEnd t = t := by
  rw [trimEnd_eq, trimStart_eq_self (startsFull_reverse.2 full), List.reverse_reverse]

theorem endsFull_trimEnd (t : Text) : EndsFull (trimEnd t) := by
  rw [← startsFull_reverse, trimEnd_eq, List.reverse_reverse]
  exact startsFull_trimStart t.reverse

theorem trailingSpace_append {t b : Text} (full : EndsFull t) (blank : isBlank b = true) :
    trailingSpace (t ++ b) = b := by
  have whole := trimEnd_append_trailingSpace (t ++ b)
  rw [trimEnd_append_of_isBlank t blank, trimEnd_eq_self full] at whole
  exact List.append_cancel_left whole

theorem trimEnd_append {a : Text} (full : EndsFull a) (b : Text) :
    trimEnd (a ++ b) = a ++ trimEnd b := by
  have kept : EndsFull (a ++ trimEnd b) := by
    by_cases none : trimEnd b = []
    · rw [none, List.append_nil]
      exact full
    · exact (endsFull_trimEnd b).append none a
  conv => lhs; rw [← trimEnd_append_trailingSpace b, ← List.append_assoc]
  rw [trimEnd_append_of_isBlank _ (isBlank_trailingSpace b), trimEnd_eq_self kept]

theorem trimEnd_prefix_self (t : Text) : trimEnd t <+: t := ⟨_, trimEnd_append_trailingSpace t⟩

theorem trim_infix_self (t : Text) : trim t <:+: t :=
  (trimEnd_prefix_self _).isInfix.trans (List.dropWhile_suffix _).isInfix

structure Trimmed (t : Text) : Prop where
  start : StartsFull t
  stop : EndsFull t

instance (t : Text) : Decidable (Trimmed t) :=
  decidable_of_iff (StartsFull t ∧ EndsFull t)
    ⟨fun full => ⟨full.1, full.2⟩, fun full => ⟨full.start, full.stop⟩⟩

theorem trimmed_nil : Trimmed [] := ⟨rfl, rfl⟩

theorem trimmed_of_solid {t : Text} (solid : ∀ c ∈ t, isSpace c = false) : Trimmed t := by
  by_cases empty : t = []
  · rw [empty]
    exact trimmed_nil
  · refine ⟨?_, ?_⟩
    · rw [StartsFull, List.head?_eq_some_head empty]
      exact solid _ (List.head_mem empty)
    · rw [EndsFull, List.getLast?_eq_some_getLast empty]
      exact solid _ (List.getLast_mem empty)

theorem trimmed_trim (t : Text) : Trimmed (trim t) := by
  refine ⟨?_, endsFull_trimEnd _⟩
  have start := startsFull_trimStart t
  obtain ⟨rest, whole⟩ := trimEnd_prefix_self (trimStart t)
  rw [trim]
  by_cases none : trimEnd (trimStart t) = []
  · rw [none]
    rfl
  · rw [← whole] at start
    obtain ⟨c, tail, same⟩ := List.exists_cons_of_ne_nil none
    rw [same] at start ⊢
    exact start

theorem Trimmed.trim_eq {t : Text} (trimmed : Trimmed t) : trim t = t := by
  rw [trim, trimStart_eq_self trimmed.start, trimEnd_eq_self trimmed.stop]

theorem Trimmed.append {a b : Text} (first : Trimmed a) (last : Trimmed b) (left : a ≠ [])
    (right : b ≠ []) (between : Text) : Trimmed (a ++ between ++ b) := by
  rw [List.append_assoc]
  refine ⟨first.start.append left _, ?_⟩
  rw [← List.append_assoc]
  exact last.stop.append right _

theorem trim_append_of_isBlank_left {a : Text} (blank : isBlank a = true) (t : Text) :
    trim (a ++ t) = trim t := by
  rw [trim, trimStart_append_of_isBlank blank, trim]

theorem trimStart_append {t : Text} (full : isBlank t = false) (b : Text) :
    trimStart (t ++ b) = trimStart t ++ b := by
  have nonempty : trimStart t ≠ [] := by
    intro none
    have whole := leadingSpace_append_trimStart t
    rw [none, List.append_nil] at whole
    rw [← whole, isBlank_leadingSpace] at full
    cases full
  conv => lhs; rw [← leadingSpace_append_trimStart t, List.append_assoc]
  rw [trimStart_append_of_isBlank (isBlank_leadingSpace t),
    trimStart_eq_self ((startsFull_trimStart t).append nonempty b)]

theorem trim_append_of_isBlank_right (t : Text) {b : Text} (blank : isBlank b = true) :
    trim (t ++ b) = trim t := by
  cases left : isBlank t with
  | true =>
    have both : isBlank (t ++ b) = true := by rw [isBlank_append, left, blank, Bool.true_and]
    have whole := trimStart_append_of_isBlank both []
    have start := trimStart_append_of_isBlank left []
    rw [List.append_nil] at whole start
    rw [trim, trim, whole, start]
  | false => rw [trim, trim, trimStart_append left, trimEnd_append_of_isBlank _ blank]

theorem trim_trimEnd (t : Text) : trim (trimEnd t) = trim t := by
  conv => rhs; rw [← trimEnd_append_trailingSpace t]
  rw [trim_append_of_isBlank_right _ (isBlank_trailingSpace t)]

theorem trim_of_isBlank {t : Text} (blank : isBlank t = true) : trim t = [] := by
  have whole := trim_append_of_isBlank_left blank []
  rwa [List.append_nil] at whole

theorem trim_eq_nil_iff {t : Text} : trim t = [] ↔ isBlank t = true := by
  constructor
  · intro none
    have inner := trimEnd_append_trailingSpace (trimStart t)
    rw [show trimEnd (trimStart t) = [] from none, List.nil_append] at inner
    rw [← leadingSpace_append_trimStart t, isBlank_append, isBlank_leadingSpace, ← inner,
      isBlank_trailingSpace]
    rfl
  · exact trim_of_isBlank

theorem isBlank_eq_of_trim_eq {a b : Text} (same : trim a = trim b) : isBlank a = isBlank b := by
  rw [Bool.eq_iff_iff, ← trim_eq_nil_iff, ← trim_eq_nil_iff, same]

theorem trim_ne_nil {t : Text} (full : isBlank t = false) : trim t ≠ [] := by
  rw [Ne, trim_eq_nil_iff, full]
  simp

theorem trim_cons {c : Char} (full : isSpace c = false) (t : Text) : trim (c :: t) = c :: trimEnd t := by
  have start : StartsFull (c :: t) := full
  have ends : EndsFull [c] := full
  rw [trim, trimStart_eq_self start, ← List.singleton_append, trimEnd_append ends, List.singleton_append]

theorem lastRow_append_of_lastRow_nil {a : Text} (fresh : lastRow a = []) (b : Text) :
    lastRow (a ++ b) = lastRow b := by
  have none : a.reverse.takeWhile (· != '\n') = [] := by
    simpa [lastRow] using fresh
  rw [lastRow, List.reverse_append, List.takeWhile_append, none, List.append_nil]
  split
  · rename_i whole
    rw [lastRow, (List.takeWhile_prefix _).eq_of_length whole]
  · rfl

theorem lastRow_append_of_not_mem (a : Text) {b : Text} (absent : '\n' ∉ b) :
    lastRow (a ++ b) = lastRow a ++ b := by
  rw [lastRow, List.reverse_append, List.takeWhile_append_of_pos, List.reverse_append,
    List.reverse_reverse, lastRow]
  intro c member
  have other : c ≠ '\n' := fun same => absent (same ▸ List.mem_reverse.1 member)
  simpa using other

theorem lastRow_append_of_mem (a : Text) {b : Text} (member : '\n' ∈ b) :
    lastRow (a ++ b) = lastRow b := by
  rw [lastRow, List.reverse_append, List.takeWhile_append, if_neg, lastRow]
  intro whole
  have same := (List.takeWhile_prefix (· != '\n')).eq_of_length whole
  apply lineFeed_not_mem_lastRow b
  rw [lastRow, same, List.reverse_reverse]
  exact member

theorem lastRow_of_not_mem {t : Text} (absent : '\n' ∉ t) : lastRow t = t := by
  have whole := lastRow_append_of_not_mem [] absent
  rwa [List.nil_append, show lastRow [] = [] from rfl, List.nil_append] at whole

theorem lastRow_append_lineFeed (t : Text) : lastRow (t ++ ['\n']) = [] := by
  simp [lastRow]

theorem aboveLastRow_of_lastRow_nil {t : Text} (fresh : lastRow t = []) : aboveLastRow t = t := by
  have whole := aboveLastRow_append_lastRow t
  rwa [fresh, List.append_nil] at whole

theorem lastRow_aboveLastRow (t : Text) : lastRow (aboveLastRow t) = [] := by
  rw [lastRow, aboveLastRow, List.reverse_reverse, List.reverse_eq_nil_iff]
  induction t.reverse with
  | nil => rfl
  | cons c rest ih =>
    rw [List.dropWhile_cons]
    split
    · exact ih
    · rename_i feed
      exact List.takeWhile_cons_of_neg feed

theorem firstRow_append_lineFeed {row : Text} (absent : '\n' ∉ row) (t : Text) :
    firstRow (row ++ '\n' :: t) = row ++ ['\n'] := by
  induction row with
  | nil => rfl
  | cons c row ih =>
    rw [List.mem_cons, not_or] at absent
    rw [List.cons_append, firstRow, if_neg (Ne.symm absent.1), ih absent.2, List.cons_append]

theorem firstRow_of_not_mem {t : Text} (absent : '\n' ∉ t) : firstRow t = t := by
  induction t with
  | nil => rfl
  | cons c t ih =>
    rw [List.mem_cons, not_or] at absent
    rw [firstRow, if_neg (Ne.symm absent.1), ih absent.2]

end ApexTidy.Text
