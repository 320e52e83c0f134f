import ApexTidy.Text.Basic

/-!
The line around a place in a text: what stands on it before the place, and what follows up to and with
the line feed that ends it.
-/

namespace ApexTidy.Text

def lastRow (t : Text) : Text := (t.reverse.takeWhile (· != '\n')).reverse

def aboveLastRow (t : Text) : Text := (t.reverse.dropWhile (· != '\n')).reverse

theorem aboveLastRow_append_lastRow (t : Text) : aboveLastRow t ++ lastRow t = t := by
  unfold aboveLastRow lastRow
  rw [← List.reverse_append, List.takeWhile_append_dropWhile, List.reverse_reverse]

theorem lineFeed_not_mem_lastRow (t : Text) : '\n' ∉ lastRow t := by
  intro member
  have kept := List.all_takeWhile (p := (· != '\n')) (l := t.reverse)
  have same := List.all_eq_true.1 kept _ (List.mem_reverse.1 member)
  simp at same

/-- What stands before the first line feed, and the line feed. -/
def firstRow : Text → Text
  | [] => []
  | c :: t => if c = '\n' then [c] else c :: firstRow t

def belowFirstRow : Text → Text
  | [] => []
  | c :: t => if c = '\n' then t else belowFirstRow t

theorem firstRow_append_belowFirstRow (t : Text) : firstRow t ++ belowFirstRow t = t := by
  induction t with
  | nil => rfl
  | cons c t ih =>
    rw [firstRow, belowFirstRow]
    split
    · rfl
    · rw [List.cons_append, ih]

end ApexTidy.Text
