import ApexTidy.Proofs.Source.Addressing

/-!
Positions and offsets. The position of an offset is found on the row that the offset stands in, and the
offset of a position by the rows above it, so each undoes the other: there is one position for each place
of a text, but for the place between a carriage return and the end of its line, which has the position in
front of the carriage return. Later positions have larger offsets.
-/

namespace ApexTidy

open Text

namespace Text

section

variable {t row : Text} {above below : List Text} (rows : t.splitOn '\n' = above ++ row :: below)

include rows

theorem offset_of_rows {column : Nat} (fits : column ≤ (withoutReturn row).length) :
    t.offset ⟨above.length, column⟩ =
      .ok (size (above.flatMap (· ++ ['\n'])) + size ((withoutReturn row).take column)) := by
  rw [offset_eq_ok_iff]
  refine ⟨_, ?_, size_append ..⟩
  rw [before_eq_ok_iff, lines, rows, Line.before?_ofPieces, if_pos fits]

theorem position?_of_rows {n : Nat} (held : n ≤ size row) :
    t.position? (size (above.flatMap (· ++ ['\n'])) + n) =
      (splitAt? (withoutReturn row) (min n (size (withoutReturn row)))).map fun (head, _) =>
        ⟨above.length, head.length⟩ := by
  have inside : size (above.flatMap (· ++ ['\n'])) + n ≤ size t := by
    rw [eq_append_of_rows rows, size_append, size_append]
    omega
  obtain ⟨found, -, -⟩ := @exists_lineAt above below row t (size (above.flatMap (· ++ ['\n'])) + n) rows
    (by omega) (by omega)
  rw [line_of_rows rows, Option.some.injEq] at found
  rw [position?]
  dsimp only
  rw [Nat.min_eq_left inside, ← found]
  simp

theorem position?_of_beginning {head : Text} (start : head <+: withoutReturn row) :
    t.position? (size (above.flatMap (· ++ ['\n'])) + size head) = some ⟨above.length, head.length⟩ ∧
      t.offset ⟨above.length, head.length⟩ =
        .ok (size (above.flatMap (· ++ ['\n'])) + size head) := by
  obtain ⟨rest, whole⟩ := start
  have sizes := congrArg size (Line.withoutReturn_append_returnOf row)
  rw [← whole, size_append, size_append] at sizes
  have fits : head.length ≤ (withoutReturn row).length := by
    rw [← whole, List.length_append]
    omega
  refine ⟨?_, ?_⟩
  · rw [position?_of_rows rows (by omega), ← whole, size_append, Nat.min_eq_left (by omega),
      splitAt?_size_append]
    rfl
  · rw [offset_of_rows rows fits, ← whole, List.take_left]

end

/-- A carriage return that belongs to the ending of a line stands directly before the place. -/
def AfterReturn (t : Text) (place : Nat) : Prop :=
  ∃ a b, t = a ++ '\r' :: b ∧ place = size (a ++ ['\r']) ∧ (b = [] ∨ b.head? = some '\n')

theorem afterReturn_iff {a b : Text} :
    (a ++ b).AfterReturn (size a) ↔ a.getLast? = some '\r' ∧ (b = [] ∨ b.head? = some '\n') := by
  constructor
  · rintro ⟨x, y, whole, place, ends⟩
    rw [List.append_cons] at whole
    obtain rfl := eq_of_size_eq whole place
    obtain rfl := List.append_cancel_left whole
    exact ⟨List.getLast?_concat, ends⟩
  · rintro ⟨last, ends⟩
    obtain ⟨x, rfl⟩ := List.getLast?_eq_some_iff.1 last
    exact ⟨x, b, by simp, rfl, ends⟩

/-- Behind the carriage return of an ending the position is the one in front of it. -/
theorem position?_of_returned {t line : Text} {above below : List Text}
    (rows : t.splitOn '\n' = above ++ (line ++ ['\r']) :: below) :
    t.position? (size (above.flatMap (· ++ ['\n'])) + size (line ++ ['\r'])) =
        some ⟨above.length, line.length⟩ ∧
      t.offset ⟨above.length, line.length⟩ = .ok (size (above.flatMap (· ++ ['\n'])) + size line) := by
  have raw : withoutReturn (line ++ ['\r']) = line := by simp [withoutReturn]
  have start : line <+: withoutReturn (line ++ ['\r']) := ⟨[], by rw [raw, List.append_nil]⟩
  refine ⟨?_, (position?_of_beginning rows start).2⟩
  have shorter : size line ≤ size (line ++ ['\r']) := by
    rw [size_append]
    omega
  have cut := splitAt?_size_append line []
  rw [List.append_nil] at cut
  rw [position?_of_rows rows (Nat.le_refl _), raw, Nat.min_eq_right shorter, cut]
  rfl

theorem exists_position_offset (a b : Text) :
    ∃ p, (a ++ b).position? (size a) = some p ∧
      (¬ (a ++ b).AfterReturn (size a) → (a ++ b).offset p = .ok (size a)) ∧
      ((a ++ b).AfterReturn (size a) → (a ++ b).offset p = .ok (size a - 1)) := by
  obtain ⟨above, rest, below, first, rows, upper⟩ := exists_rows_append a b
  have place : size a = size (above.flatMap (· ++ ['\n'])) + size (lastRow a) := by
    rw [← upper, ← size_append, aboveLastRow_append_lastRow]
  rw [afterReturn_iff, ← eq_nil_iff_of_splitOn first, ← getLast?_lastRow (by decide), place]
  by_cases returned : (lastRow a).getLast? = some '\r' ∧ rest = []
  · obtain ⟨last, rfl⟩ := returned
    obtain ⟨line, shape⟩ := List.getLast?_eq_some_iff.1 last
    rw [List.append_nil, shape] at rows
    obtain ⟨found, back⟩ := position?_of_returned rows
    have less : size (line ++ ['\r']) = size line + 1 := size_append line ['\r']
    rw [shape]
    refine ⟨_, found, fun before => absurd ⟨List.getLast?_concat, rfl⟩ before, fun _ => ?_⟩
    rw [back, less]
    rfl
  · obtain ⟨found, back⟩ := position?_of_beginning rows (prefix_withoutReturn_iff.2 returned)
    exact ⟨_, found, fun _ => back, fun after => absurd after returned⟩

theorem position?_of_offset {t : Text} {p : Position} {place : Nat} (inside : p.line < t.lines.length)
    (named : t.offset p = .ok place) : t.position? place = some p := by
  obtain ⟨line, column⟩ := p
  obtain ⟨above, row, below, rows, rfl⟩ := exists_rows_of_lt inside
  obtain ⟨head, before, rfl⟩ := offset_eq_ok_iff.1 named
  rw [before_eq_ok_iff, lines, rows, Line.before?_ofPieces, Option.ite_none_right_eq_some] at before
  obtain ⟨fits, same⟩ := before
  rw [← Option.some.inj same, size_append,
    (position?_of_beginning rows (List.take_prefix column _)).1, List.length_take_of_le fits]

theorem offset_le_offset {t : Text} {p q : Position} {m n : Nat} (ordered : ¬ q.precedes p)
    (first : t.offset p = .ok m) (second : t.offset q = .ok n) : m ≤ n := by
  obtain ⟨head, start, rfl⟩ := offset_eq_ok_iff.1 first
  obtain ⟨upTo, stop, rfl⟩ := offset_eq_ok_iff.1 second
  obtain ⟨rest, rfl⟩ := Line.before?_mono ordered (before_eq_ok_iff.1 start) (before_eq_ok_iff.1 stop)
  rw [size_append]
  omega

/-- Positions and offsets name the same places in the same order. -/
theorem offset_position (t : Text) :
    (∀ p place, p.line < t.lines.length → t.offset p = .ok place →
        t.isBoundary place = true ∧ place ≤ size t ∧ t.position? place = some p) ∧
      (∀ place, t.isBoundary place = true →
        ∃ p, t.position? place = some p ∧ (¬ t.AfterReturn place → t.offset p = .ok place) ∧
          (t.AfterReturn place → t.offset p = .ok (place - 1))) ∧
      ∀ p q m n, p.precedes q → t.offset p = .ok m → t.offset q = .ok n →
        m ≤ n ∧ (q.line < t.lines.length → m < n) := by
  refine ⟨?_, ?_, ?_⟩
  · intro p place inside named
    have back := position?_of_offset inside named
    obtain ⟨head, before, rfl⟩ := offset_eq_ok_iff.1 named
    obtain ⟨rest, rfl⟩ := before_prefix_whole before
    refine ⟨isBoundary_iff.2 ⟨head, rest, rfl, rfl⟩, ?_, back⟩
    rw [size_append]
    omega
  · intro place boundary
    obtain ⟨a, b, rfl, rfl⟩ := isBoundary_iff.1 boundary
    exact exists_position_offset a b
  · intro p q m n earlier first second
    have ordered := offset_le_offset (Position.precedes_asymm earlier) first second
    refine ⟨ordered, fun inside => Nat.lt_of_le_of_ne ordered ?_⟩
    -- two positions of one place would be the same
    rintro rfl
    have above : p.line < t.lines.length := by
      unfold Position.precedes at earlier
      omega
    have same := position?_of_offset above first
    rw [position?_of_offset inside second, Option.some.injEq] at same
    subst same
    exact Position.precedes_asymm earlier earlier

theorem offset_position_of_returns :
    let t : Text := "é\r\nb\r".toList
    (t.offset ⟨0, 1⟩ = .ok 2 ∧ t.isBoundary 2 = true ∧ 2 ≤ size t ∧ t.position? 2 = some ⟨0, 1⟩) ∧
      (t.isBoundary 6 = true ∧ t.AfterReturn 6 ∧ ∃ p, t.position? 6 = some p ∧ t.offset p = .ok 5) ∧
      (t.isBoundary 4 = true ∧ ¬ t.AfterReturn 4 ∧ ∃ p, t.position? 4 = some p ∧ t.offset p = .ok 4) ∧
      (Position.precedes ⟨0, 1⟩ ⟨1, 1⟩ ∧ t.offset ⟨1, 1⟩ = .ok 5 ∧ 2 ≤ 5 ∧ 2 < 5) := by
  intro t
  obtain ⟨places, positions, order⟩ := t.offset_position
  have first : t.offset ⟨0, 1⟩ = .ok 2 := rfl
  have second : t.offset ⟨1, 1⟩ = .ok 5 := rfl
  have after : t.AfterReturn 6 := ⟨"é\r\nb".toList, [], rfl, rfl, Or.inl rfl⟩
  have before : ¬ t.AfterReturn 4 := by
    rw [show (4 : Nat) = size "é\r\n".toList from rfl, show t = "é\r\n".toList ++ "b\r".toList from rfl,
      afterReturn_iff]
    decide
  have earlier : Position.precedes ⟨0, 1⟩ ⟨1, 1⟩ := by decide
  obtain ⟨least, less⟩ := order _ _ 2 5 earlier first second
  obtain ⟨p, found, -, back⟩ := positions 6 (by decide)
  obtain ⟨q, named, forth, -⟩ := positions 4 (by decide)
  exact ⟨⟨first, places _ 2 (by decide) first⟩, ⟨by decide, after, p, found, back after⟩,
    ⟨by decide, before, q, named, forth before⟩, earlier, second, least, less (by decide)⟩

end Text

end ApexTidy
