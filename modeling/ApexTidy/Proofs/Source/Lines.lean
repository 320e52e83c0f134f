import ApexTidy.Proofs.Text.Pieces
import ApexTidy.Source.Line

/-!
The rows of a text and the lines they are numbered as. The lines with their endings are the text. A text is
rows that line feeds end and a last row, so a place in it has rows above it, the line that holds the place
is the row it stands in, and a position is a beginning of its line, below the rows above.
-/

namespace ApexTidy

open Text

namespace Line

theorem flatMap_whole_ofPieces (index start : Nat) (pieces : List Text) :
    (ofPieces index start pieces).flatMap whole = ['\n'].intercalate pieces := by
  fun_induction ofPieces index start pieces with
  | case1 => rfl
  | case2 index start piece => simp [whole, withoutReturn_append_returnOf]
  | case3 index start piece next rest ih =>
    rw [List.flatMap_cons, ih, whole, List.intercalate_cons_cons]
    simp only [← List.append_assoc, withoutReturn_append_returnOf]

theorem returnOf_eq_nil_iff {piece : Text} : returnOf piece = [] ↔ piece.getLast? ≠ some '\r' := by
  unfold returnOf endsWith
  cases found : beforeEnd? ['\r'] piece with
  | none =>
    simp only [Option.isSome_none, Bool.false_eq_true, ↓reduceIte, true_iff]
    intro last
    obtain ⟨rest, same⟩ := List.getLast?_eq_some_iff.1 last
    rw [beforeEnd?_eq_some_iff.2 same] at found
    cases found
  | some rest => simp [beforeEnd?_eq_some_iff.1 found]

theorem returnOf_cases (piece : Text) : returnOf piece = [] ∨ returnOf piece = ['\r'] := by
  unfold returnOf
  split
  · exact Or.inr rfl
  · exact Or.inl rfl

/-- What stands between a piece and the pieces after it. -/
def feedBefore (rest : List Text) : Text := if rest.isEmpty then [] else ['\n']

theorem intercalate_cons (piece : Text) (rest : List Text) :
    ['\n'].intercalate (piece :: rest) = piece ++ feedBefore rest ++ ['\n'].intercalate rest := by
  cases rest with
  | nil => simp [feedBefore]
  | cons next rest => simp [feedBefore, List.intercalate_cons_cons]

theorem ofPieces_cons (index start : Nat) (piece : Text) (rest : List Text) :
    ofPieces index start (piece :: rest) =
      ⟨index, start, withoutReturn piece, returnOf piece ++ feedBefore rest⟩
        :: ofPieces (index + 1) (start + size piece + 1) rest := by
  cases rest with
  | nil => simp [ofPieces, feedBefore]
  | cons next rest => simp [ofPieces, feedBefore]

end Line

namespace Text

theorem flatMap_whole_lines (t : Text) : (lines t).flatMap Line.whole = t := by
  rw [lines, Line.flatMap_whole_ofPieces, List.intercalate_splitOn]

theorem exists_rows (t : Text) :
    ∃ rows : List Text, (∀ row ∈ rows, '\n' ∉ row) ∧ t = rows.flatMap (· ++ ['\n']) ++ lastRow t := by
  induction t with
  | nil => exact ⟨[], by simp, rfl⟩
  | cons c t ih =>
    obtain ⟨rows, single, whole⟩ := ih
    by_cases feed : c = '\n'
    · subst feed
      have same : lastRow ('\n' :: t) = lastRow t := @lastRow_append_of_lastRow_nil ['\n'] rfl t
      refine ⟨[] :: rows, ?_, ?_⟩
      · intro row member
        rcases List.mem_cons.1 member with rfl | listed
        · exact List.not_mem_nil
        · exact single row listed
      · rw [same]
        conv => lhs; rw [whole]
        rfl
    · cases rows with
      | nil =>
        have absent : '\n' ∉ c :: t := by
          rw [List.mem_cons, not_or, whole]
          exact ⟨Ne.symm feed, lineFeed_not_mem_lastRow t⟩
        exact ⟨[], by simp, (lastRow_of_not_mem absent).symm⟩
      | cons row rows =>
        have member : '\n' ∈ t := by
          rw [whole]
          simp
        have same : lastRow (c :: t) = lastRow t := @lastRow_append_of_mem [c] t member
        refine ⟨(c :: row) :: rows, ?_, ?_⟩
        · intro other listed
          rcases List.mem_cons.1 listed with rfl | later
          · rw [List.mem_cons, not_or]
            exact ⟨Ne.symm feed, single row List.mem_cons_self⟩
          · exact single other (List.mem_cons_of_mem _ later)
        · rw [same]
          conv => lhs; rw [whole]
          rfl

theorem exists_splitOn_append {start : Text} (single : '\n' ∉ start) (t : Text) :
    ∃ rest below, t.splitOn '\n' = rest :: below ∧ (start ++ t).splitOn '\n' = (start ++ rest) :: below := by
  obtain ⟨rest, below, first⟩ := List.exists_cons_of_ne_nil (List.splitOn_ne_nil '\n' t)
  refine ⟨rest, below, first, ?_⟩
  induction start with
  | nil => exact first
  | cons c start ih =>
    rw [List.mem_cons, not_or] at single
    rw [List.cons_append, List.splitOn_cons_eq_if_modifyHead, ih single.2,
      if_neg (by simpa using Ne.symm single.1)]
    rfl

theorem exists_rows_append (a b : Text) :
    ∃ above rest below, b.splitOn '\n' = rest :: below ∧
      (a ++ b).splitOn '\n' = above ++ (lastRow a ++ rest) :: below ∧
      aboveLastRow a = above.flatMap (· ++ ['\n']) := by
  obtain ⟨above, single, whole⟩ := exists_rows a
  obtain ⟨rest, below, first, split⟩ := exists_splitOn_append (lineFeed_not_mem_lastRow a) b
  refine ⟨above, rest, below, first, ?_, ?_⟩
  · conv => lhs; rw [whole, List.append_assoc]
    rw [splitOn_flatMap single, split]
  · conv at whole => lhs; rw [← aboveLastRow_append_lastRow a]
    exact List.append_cancel_right whole

/-- A place is a beginning of its line unless it stands behind a carriage return at the end of its row. -/
theorem prefix_withoutReturn_iff {head rest : Text} :
    head <+: withoutReturn (head ++ rest) ↔ ¬ (head.getLast? = some '\r' ∧ rest = []) := by
  constructor
  · rintro start ⟨last, rfl⟩
    obtain ⟨before, rfl⟩ := List.getLast?_eq_some_iff.1 last
    have fits := start.length_le
    simp only [List.append_nil, withoutReturn, beforeEnd?_append, Option.getD_some, List.length_append,
      List.length_singleton] at fits
    omega
  · intro goesOn
    have whole := Line.withoutReturn_append_returnOf (head ++ rest)
    rcases Line.returnOf_cases (head ++ rest) with none | returned
    · rw [none, List.append_nil] at whole
      rw [whole]
      exact List.prefix_append head rest
    · rw [returned] at whole
      rcases rest.eq_nil_or_concat with rfl | ⟨others, last, rfl⟩
      · rw [List.append_nil] at whole
        refine absurd ⟨?_, rfl⟩ goesOn
        rw [← whole, List.getLast?_concat]
      · rw [List.concat_eq_append, ← List.append_assoc] at whole ⊢
        rw [(List.append_inj' whole rfl).1]
        exact List.prefix_append head others

theorem getLast?_lastRow {t : Text} {c : Char} (other : c ≠ '\n') :
    (lastRow t).getLast? = some c ↔ t.getLast? = some c := by
  constructor
  · intro last
    rw [← aboveLastRow_append_lastRow t, List.getLast?_append, last, Option.some_or]
  · intro last
    obtain ⟨before, rfl⟩ := List.getLast?_eq_some_iff.1 last
    have single : '\n' ∉ [c] := by simpa using other.symm
    rw [lastRow_append_of_not_mem before single, List.getLast?_concat]

theorem eq_nil_iff_of_splitOn {t first : Text} {below : List Text}
    (rows : t.splitOn '\n' = first :: below) : first = [] ↔ t = [] ∨ t.head? = some '\n' := by
  cases t with
  | nil =>
    obtain ⟨rfl, -⟩ := List.cons_eq_cons.1 rows
    exact iff_of_true rfl (Or.inl rfl)
  | cons c t =>
    obtain ⟨next, more, later⟩ := List.exists_cons_of_ne_nil (List.splitOn_ne_nil '\n' t)
    rw [List.splitOn_cons_eq_if_modifyHead, later] at rows
    split at rows
    · rename_i feed
      obtain ⟨rfl, -⟩ := List.cons_eq_cons.1 rows
      refine iff_of_true rfl (Or.inr ?_)
      rw [List.head?_cons, eq_of_beq feed]
    · rename_i other
      obtain ⟨rfl, -⟩ := List.cons_eq_cons.1 rows
      refine iff_of_false (List.cons_ne_nil c next) ?_
      simpa using other

end Text

namespace Line

theorem length_ofPieces (index start : Nat) (rows : List Text) :
    (ofPieces index start rows).length = rows.length := by
  induction rows generalizing index start with
  | nil => rfl
  | cons row rest ih => rw [ofPieces_cons, List.length_cons, ih, List.length_cons]

theorem map_raw_ofPieces (index start : Nat) (rows : List Text) :
    (ofPieces index start rows).map (·.raw) = rows.map withoutReturn := by
  induction rows generalizing index start with
  | nil => rfl
  | cons row rest ih => rw [ofPieces_cons, List.map_cons, ih, List.map_cons]

theorem getElem?_ofPieces (above below : List Text) (row : Text) (index start : Nat) :
    (ofPieces index start (above ++ row :: below))[above.length]? =
      some ⟨index + above.length, start + size (above.flatMap (· ++ ['\n'])), withoutReturn row,
        returnOf row ++ feedBefore below⟩ := by
  induction above generalizing index start with
  | nil =>
    rw [List.nil_append, ofPieces_cons]
    rfl
  | cons other above ih =>
    have feed : size ['\n'] = 1 := rfl
    rw [List.cons_append, ofPieces_cons, List.length_cons, List.getElem?_cons_succ, ih,
      List.flatMap_cons, size_append, size_append, feed]
    simp only [Option.some.injEq, Line.mk.injEq, and_self, and_true]
    omega

/-- The last line that starts before a place inside a row, or at its ends, is that row. -/
theorem exists_lastStarting_ofPieces {above below : List Text} {row : Text} {index start offset : Nat}
    (first : Line) (reached : start + size (above.flatMap (· ++ ['\n'])) ≤ offset)
    (held : offset ≤ start + size (above.flatMap (· ++ ['\n'])) + size row) :
    ∃ l, (ofPieces index start (above ++ row :: below))[above.length]? = some l ∧
      first.lastStarting (ofPieces index start (above ++ row :: below)) offset = l := by
  induction above generalizing index start first with
  | nil =>
    rw [List.nil_append, ofPieces_cons]
    refine ⟨_, rfl, ?_⟩
    simp only [List.flatMap_nil, size_nil, Nat.add_zero] at reached held
    rw [lastStarting, if_pos reached]
    cases below with
    | nil => rfl
    | cons next rest =>
      -- the next row starts behind the line feed that ends this one
      rw [ofPieces_cons, lastStarting, if_neg]
      show ¬ start + size row + 1 ≤ offset
      omega
  | cons other above ih =>
    have feed : size ['\n'] = 1 := rfl
    simp only [List.flatMap_cons, size_append, feed] at reached held
    rw [List.cons_append, ofPieces_cons, lastStarting, if_pos (by show start ≤ offset; omega),
      List.length_cons, List.getElem?_cons_succ]
    apply ih
    · omega
    · omega

theorem before?_ofPieces (above below : List Text) (row : Text) (index start column : Nat) :
    before? (ofPieces index start (above ++ row :: below)) ⟨above.length, column⟩ =
      if column ≤ (withoutReturn row).length then
        some (above.flatMap (· ++ ['\n']) ++ (withoutReturn row).take column)
      else none := by
  induction above generalizing index start with
  | nil =>
    rw [List.nil_append, ofPieces_cons]
    rfl
  | cons other above ih =>
    have feed : feedBefore (above ++ row :: below) = ['\n'] := by simp [feedBefore]
    have line : withoutReturn other ++ (returnOf other ++ ['\n']) = other ++ ['\n'] := by
      rw [← List.append_assoc, withoutReturn_append_returnOf]
    rw [List.cons_append, ofPieces_cons, List.length_cons, before?, ih, feed, whole, line]
    split
    · rw [Option.map_some, List.flatMap_cons, List.append_assoc _ _ (List.take _ _)]
    · rfl

theorem before?_of_length_le {lines : List Line} {line : Nat} (past : lines.length ≤ line) (column : Nat) :
    before? lines ⟨line, column⟩ =
      if line = lines.length ∧ column = 0 then some (lines.flatMap whole) else none := by
  induction lines generalizing line with
  | nil => rfl
  | cons l rest ih =>
    rw [List.length_cons] at past
    obtain ⟨n, rfl⟩ : ∃ n, line = n + 1 := ⟨line - 1, by omega⟩
    rw [before?, ih (by omega), List.length_cons, List.flatMap_cons]
    simp only [Nat.add_right_cancel_iff]
    split
    · rfl
    · rfl

theorem intercalate_rows (above below : List Text) (row : Text) :
    ['\n'].intercalate (above ++ row :: below) =
      above.flatMap (· ++ ['\n']) ++ row ++ (feedBefore below ++ ['\n'].intercalate below) := by
  induction above with
  | nil => rw [List.nil_append, intercalate_cons, List.append_assoc]; rfl
  | cons other above ih =>
    have feed : feedBefore (above ++ row :: below) = ['\n'] := by simp [feedBefore]
    rw [List.cons_append, intercalate_cons, feed, ih, List.flatMap_cons]
    simp

end Line

namespace Text

theorem eq_append_of_rows {t row : Text} {above below : List Text}
    (rows : t.splitOn '\n' = above ++ row :: below) :
    t = (above.flatMap (· ++ ['\n']) : Text) ++ row ++
      (Line.feedBefore below ++ ['\n'].intercalate below) := by
  rw [← Line.intercalate_rows, ← rows, List.intercalate_splitOn]

theorem line_of_rows {t row : Text} {above below : List Text} (rows : t.splitOn '\n' = above ++ row :: below) :
    t.lines[above.length]? = some ⟨above.length, size (above.flatMap (· ++ ['\n'])), withoutReturn row,
      Line.returnOf row ++ Line.feedBefore below⟩ := by
  rw [lines, rows, Line.getElem?_ofPieces, Nat.zero_add, Nat.zero_add]

theorem exists_rows_of_lt {t : Text} {line : Nat} (inside : line < t.lines.length) :
    ∃ above row below, t.splitOn '\n' = above ++ row :: below ∧ above.length = line := by
  rw [lines, Line.length_ofPieces] at inside
  have rows := List.take_append_drop line (t.splitOn '\n')
  rw [List.drop_eq_getElem_cons inside] at rows
  exact ⟨_, _, _, rows.symm, List.length_take_of_le (Nat.le_of_lt inside)⟩

theorem lastRow_flatMap_append (above : List Text) {head : Text} (single : '\n' ∉ head) :
    lastRow ((above.flatMap (· ++ ['\n']) : Text) ++ head) = head := by
  have fresh : lastRow (above.flatMap (· ++ ['\n'])) = [] := by
    rcases above.eq_nil_or_concat with rfl | ⟨others, row, rfl⟩
    · rfl
    · rw [List.concat_eq_append, List.flatMap_append, List.flatMap_singleton, ← List.append_assoc]
      exact lastRow_append_lineFeed _
  rw [lastRow_append_of_lastRow_nil fresh, lastRow_of_not_mem single]

end Text

theorem Text.exists_lineAt {above below : List Text} {row t : Text} {offset : Nat}
    (rows : t.splitOn '\n' = above ++ row :: below)
    (reached : size (above.flatMap (· ++ ['\n'])) ≤ offset)
    (held : offset ≤ size (above.flatMap (· ++ ['\n'])) + size row) :
    t.lines[above.length]? = some (t.lineAt offset) ∧ (t.lineAt offset).raw = withoutReturn row ∧
      (t.lines.take above.length).map (·.raw) = above.map withoutReturn := by
  have raws : t.lines.map (·.raw) =
      above.map withoutReturn ++ withoutReturn row :: below.map withoutReturn := by
    rw [lines, Line.map_raw_ofPieces, rows, List.map_append, List.map_cons]
  have found : t.lines[above.length]? = some (t.lineAt offset) := by
    obtain ⟨l, listed, last⟩ := @Line.exists_lastStarting_ofPieces above below row 0 0 offset
      ⟨0, 0, [], []⟩ (by omega) (by omega)
    rw [← rows] at listed last
    have starts : t.lineAt offset = Line.lastStarting ⟨0, 0, [], []⟩ t.lines offset := by
      obtain ⟨first, rest, pieces⟩ := List.exists_cons_of_ne_nil (List.splitOn_ne_nil '\n' t)
      rw [lineAt, lines, pieces, Line.ofPieces_cons, Line.lastStarting, if_pos (Nat.zero_le offset)]
    rw [starts, lines, last]
    exact listed
  refine ⟨found, ?_, ?_⟩
  · have raw := congrArg (·[above.length]?) raws
    simpa [found] using raw
  · rw [List.map_take, raws, List.take_left' (by simp)]

end ApexTidy
