import ApexTidy.Proofs.Source.Lines

/-!
Texts in which each line feed follows a carriage return. Two such texts put together are one, and so are
the rows that a text is cut into if all but the last of them end with a carriage return.
-/

namespace ApexTidy.Text

def FeedsPaired (t : Text) : Prop := ∀ a b, t = a ++ '\n' :: b → a.getLast? = some '\r'

theorem FeedsPaired.of_not_mem {t : Text} (absent : '\n' ∉ t) : FeedsPaired t := by
  rintro a b rfl
  simp at absent

theorem FeedsPaired.append {a b : Text} (left : FeedsPaired a) (right : FeedsPaired b) :
    FeedsPaired (a ++ b) := by
  intro x y same
  rcases List.append_eq_append_iff.1 same with ⟨more, rfl, shape⟩ | ⟨more, rfl, shape⟩
  · have last := right more y shape
    rw [List.getLast?_append, last]
    rfl
  · cases more with
    | nil => simpa using right [] y shape.symm
    | cons c more =>
      obtain ⟨rfl, -⟩ := List.cons_eq_cons.1 shape
      exact left x more rfl

theorem FeedsPaired.of_append_left {a b : Text} (paired : FeedsPaired (a ++ b)) : FeedsPaired a := by
  rintro x y rfl
  exact paired x (y ++ b) (by simp)

theorem FeedsPaired.of_append_right {a b : Text} (paired : FeedsPaired (a ++ b))
    (start : b.head? ≠ some '\n') : FeedsPaired b := by
  rintro x y rfl
  have last := paired (a ++ x) y (List.append_assoc ..).symm
  cases x with
  | nil => exact absurd rfl start
  | cons c x => simpa using last

theorem FeedsPaired.infix_of_mem {t : Text} (paired : FeedsPaired t) (member : '\n' ∈ t) :
    ['\r', '\n'] <:+: t := by
  obtain ⟨a, b, rfl⟩ := List.append_of_mem member
  obtain ⟨before, rfl⟩ := List.getLast?_eq_some_iff.1 (paired a b rfl)
  exact ⟨before, b, by simp⟩

theorem feedsPaired_row_iff {row : Text} (single : '\n' ∉ row) :
    FeedsPaired (row ++ ['\n']) ↔ row.getLast? = some '\r' := by
  constructor
  · intro paired
    exact paired row [] rfl
  · intro returned x y same
    have only : row = x := by
      rcases List.append_eq_append_iff.1 same with ⟨more, rfl, shape⟩ | ⟨more, rfl, shape⟩
      · cases more with
        | nil => exact (List.append_nil row).symm
        | cons c more => simp at shape
      · cases more with
        | nil => exact List.append_nil x
        | cons c more =>
          obtain ⟨rfl, -⟩ := List.cons_eq_cons.1 shape
          simp at single
    rw [← only]
    exact returned

/-- The rows of a text, but for the last one, end with a carriage return. -/
theorem feedsPaired_intercalate_iff {rows : List Text} (single : ∀ row ∈ rows, '\n' ∉ row) :
    FeedsPaired (['\n'].intercalate rows) ↔ ∀ row ∈ rows.dropLast, row.getLast? = some '\r' := by
  induction rows with
  | nil => exact iff_of_true (.of_not_mem (by simp)) (by simp)
  | cons row rest ih =>
    have first := single row List.mem_cons_self
    have later := ih fun other member => single other (List.mem_cons_of_mem _ member)
    cases rest with
    | nil => exact iff_of_true (.of_not_mem (by simpa using first)) (by simp)
    | cons next rest =>
      rw [List.intercalate_cons_cons, List.dropLast_cons_cons, List.forall_mem_cons, ← later,
        ← feedsPaired_row_iff first]
      constructor
      · intro paired
        refine ⟨paired.of_append_left, paired.of_append_right ?_⟩
        intro start
        obtain ⟨below, same⟩ := List.head?_eq_some_iff.1 start
        have last := paired (row ++ ['\n']) below (by rw [same])
        simp at last
      · intro parts
        exact parts.1.append parts.2

theorem feedsPaired_iff {t : Text} :
    FeedsPaired t ↔ ∀ row ∈ (t.splitOn '\n').dropLast, row.getLast? = some '\r' := by
  rw [← feedsPaired_intercalate_iff fun _ => lineFeed_not_mem_of_mem_splitOn, List.intercalate_splitOn]

instance (t : Text) : Decidable (FeedsPaired t) := decidable_of_iff _ feedsPaired_iff.symm

theorem FeedsPaired.toText {lines : List Text} (single : ∀ line ∈ lines, '\n' ∉ line) :
    FeedsPaired (lines.flatMap (· ++ ['\r', '\n'])) := by
  induction lines with
  | nil => exact .of_not_mem List.not_mem_nil
  | cons line lines ih =>
    have returned : '\n' ∉ line ++ ['\r'] := by
      rw [List.mem_append, not_or]
      exact ⟨single line List.mem_cons_self, by decide⟩
    have row := (feedsPaired_row_iff returned).2 List.getLast?_concat
    rw [List.append_assoc] at row
    exact row.append (ih fun other member => single other (List.mem_cons_of_mem _ member))

end ApexTidy.Text
