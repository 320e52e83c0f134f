import ApexTidy.Proofs.Source.Addressing
import Mathlib.Data.List.Infix

/-!
Pieces of a text cut out by their offsets. Such a cut can fail, but not where the offsets are the sizes of
what precedes the piece and of what the piece ends. The searches that give an offset find the ends of a
row, and the line of a place starts where the row of the place does.
-/

namespace ApexTidy

open Text

theorem Region.ofOffsets?_whole (r : Region) : ofOffsets? r.whole r.start r.stop = some r := by
  have first : splitAt? r.whole r.start = some (r.before, r.inside ++ r.after) := by
    rw [whole, start, List.append_assoc, splitAt?_size_append]
  have length : r.stop - r.start = size r.inside := Nat.add_sub_cancel_left ..
  have ordered : r.start ≤ r.stop := Nat.le_add_right ..
  rw [ofOffsets?, if_pos ordered, first]
  simp only [Option.bind_eq_bind, Option.bind_some]
  rw [length, splitAt?_size_append]
  rfl

namespace Text

/-- The piece between two offsets. There is none if they are not in order, if one lies past the end, or
if one lies inside a character. -/
def slice? (t : Text) (start stop : Nat) : Option Text :=
  (Region.ofOffsets? t start stop).map (·.inside)

theorem slice?_eq_some {t before inside after : Text} {start stop : Nat}
    (whole : t = before ++ inside ++ after) (first : start = size before)
    (last : stop = size (before ++ inside)) : t.slice? start stop = some inside := by
  have found := Region.ofOffsets?_whole ⟨before, inside, after⟩
  rw [Region.whole, Region.start, Region.stop, ← size_append, ← whole, ← first, ← last] at found
  rw [slice?, found]
  rfl

theorem slice?_whole (r : Region) : r.whole.slice? r.start r.stop = some r.inside :=
  slice?_eq_some rfl rfl (size_append ..).symm

theorem slice?_beginning (a b : Text) : (a ++ b).slice? 0 (size a) = some a :=
  @slice?_eq_some _ [] a b _ _ rfl rfl rfl

theorem slice?_before (r : Region) : r.whole.slice? 0 r.start = some r.before := by
  rw [Region.whole, List.append_assoc]
  exact slice?_beginning ..

theorem slice?_after (r : Region) : r.whole.slice? r.stop (size r.whole) = some r.after :=
  slice?_eq_some (List.append_nil r.whole).symm (size_append ..).symm rfl

theorem slice?_belowRow (row below : Text) :
    (row ++ ['\n'] ++ below).slice? (size row + 1) (size (row ++ ['\n'] ++ below)) = some below := by
  apply slice?_eq_some (List.append_nil (row ++ ['\n'] ++ below)).symm _ rfl
  rw [size_append]
  rfl

def find? (mark t : Text) : Option Nat := (breakAt? mark t).map (size ·.1)

def findLast? (mark t : Text) : Option Nat := (breakAtLast? mark t).map (size ·.1)

theorem find?_singleton_eq_none_iff {c : Char} {t : Text} : find? [c] t = none ↔ c ∉ t := by
  rw [find?, Option.map_eq_none_iff, breakAt?_eq_none_iff, List.singleton_infix_iff]

theorem exists_of_find?_singleton {c : Char} {t : Text} {place : Nat} (found : find? [c] t = some place) :
    ∃ a b, t = a ++ [c] ++ b ∧ c ∉ a ∧ place = size a := by
  obtain ⟨⟨a, b⟩, parts, rfl⟩ := Option.map_eq_some_iff.1 found
  have first := not_infix_of_breakAt? (List.cons_ne_nil c []) parts
  rw [List.dropLast_singleton, List.append_nil, List.singleton_infix_iff] at first
  exact ⟨a, b, eq_append_of_breakAt? parts, first, rfl⟩

def lastRowStart (t : Text) : Nat := ((findLast? ['\n'] t).map (· + 1)).getD 0

def firstRowStop (t : Text) : Nat := ((find? ['\n'] t).map (· + 1)).getD (size t)

theorem lastRowStart_eq (t : Text) : lastRowStart t = size (aboveLastRow t) := by
  obtain ⟨rows, -, whole⟩ := exists_rows t
  have above : aboveLastRow t = rows.flatMap (· ++ ['\n']) := by
    conv at whole => lhs; rw [← aboveLastRow_append_lastRow t]
    exact List.append_cancel_right whole
  have single : ¬ ['\n'] <:+: lastRow t := by
    rw [List.singleton_infix_iff]
    exact lineFeed_not_mem_lastRow t
  rw [lastRowStart, findLast?, above]
  rcases rows.eq_nil_or_concat with rfl | ⟨others, last, rfl⟩
  · have absent : breakAtLast? ['\n'] t = none := by
      rw [whole]
      exact breakAtLast?_eq_none_iff.2 single
    rw [absent]
    rfl
  · rw [List.concat_eq_append, List.flatMap_append, List.flatMap_singleton, ← List.append_assoc] at whole ⊢
    have found := @breakAtLast?_append ['\n'] (lastRow t) (by decide) single (others.flatMap (· ++ ['\n']) ++ last)
    rw [← whole] at found
    rw [found, size_append]
    rfl

theorem firstRowStop_eq (t : Text) : firstRowStop t = size (firstRow t) := by
  rw [firstRowStop, find?]
  induction t with
  | nil => rfl
  | cons c t ih =>
    rw [firstRow, breakAt?]
    split
    · rename_i rest start
      obtain ⟨rfl, -⟩ := List.cons_eq_cons.1 (afterStart?_eq_some_iff.1 start)
      rw [if_pos rfl]
      rfl
    · rename_i absent
      have other : c ≠ '\n' := by
        rintro rfl
        exact afterStart?_eq_none_iff.1 absent (List.prefix_append ['\n'] t)
      rw [if_neg other, size_cons, size_cons, ← ih]
      cases breakAt? ['\n'] t with
      | none => rfl
      | some parts => exact Nat.add_assoc ..

theorem exists_lineAt_append (a b : Text) :
    ((a ++ b).lineAt (size a)).start = size (aboveLastRow a) ∧
      ∃ rest, ((a ++ b).lineAt (size a)).raw = withoutReturn (lastRow a ++ rest) := by
  obtain ⟨above, rest, below, -, rows, upper⟩ := exists_rows_append a b
  have sizes : size a = size (above.flatMap (· ++ ['\n'])) + size (lastRow a) := by
    rw [← upper, ← size_append, aboveLastRow_append_lastRow]
  obtain ⟨found, raw, -⟩ := @exists_lineAt above below (lastRow a ++ rest) (a ++ b) (size a) rows (by omega)
    (by rw [size_append]; omega)
  refine ⟨?_, rest, raw⟩
  rw [line_of_rows rows, Option.some.injEq] at found
  rw [← found, upper]

theorem slice?_lineAt (a b : Text) :
    (a ++ b).slice? ((a ++ b).lineAt (size a)).start (size a) = some (lastRow a) := by
  refine @slice?_eq_some _ (aboveLastRow a) (lastRow a) b _ _ ?_ (exists_lineAt_append a b).1 ?_
  · rw [aboveLastRow_append_lastRow]
  · rw [aboveLastRow_append_lastRow]

theorem leadingSpace_append_of_full {a : Text} (full : isBlank a = false) (b : Text) :
    leadingSpace (a ++ b) = leadingSpace a := by
  have nonempty : trimStart a ≠ [] := by
    intro none
    have blanks := leadingSpace_append_trimStart a
    rw [none, List.append_nil] at blanks
    rw [← blanks, isBlank_leadingSpace] at full
    cases full
  conv => lhs; rw [← leadingSpace_append_trimStart a, List.append_assoc]
  exact leadingSpace_append (isBlank_leadingSpace a) ((startsFull_trimStart a).append nonempty b)

/-- The carriage return that a line leaves to its ending is not part of its indentation. -/
theorem indentation_lineAt_append {a : Text} (full : isBlank (lastRow a) = false) (b : Text) :
    ((a ++ b).lineAt (size a)).indentation = leadingSpace (lastRow a) := by
  obtain ⟨-, rest, raw⟩ := exists_lineAt_append a b
  have solid : isBlank (withoutReturn (lastRow a ++ rest)) = false := by
    rw [isBlank_withoutReturn, isBlank_append, full, Bool.false_and]
  rw [Line.indentation, raw, ← leadingSpace_append_of_full solid (Line.returnOf (lastRow a ++ rest)),
    Line.withoutReturn_append_returnOf, leadingSpace_append_of_full full]

theorem slice?_leadingSpace (t : Text) :
    t.slice? 0 (size t - size (trimStart t)) = some (leadingSpace t) := by
  have parts := leadingSpace_append_trimStart t
  have sizes := congrArg size parts
  rw [size_append] at sizes
  have cut := slice?_beginning (leadingSpace t) (trimStart t)
  rw [parts] at cut
  rwa [show size t - size (trimStart t) = size (leadingSpace t) by omega]

/-- A place between two characters has a position, also inside a line ending. -/
theorem exists_position (a b : Text) : ∃ p, (a ++ b).position? (size a) = some p := by
  obtain ⟨start, rest, raw⟩ := exists_lineAt_append a b
  have place : min (size a) (size (a ++ b)) = size a := by
    rw [size_append]
    omega
  have within : size a - size (aboveLastRow a) = size (lastRow a) := by
    have parts := congrArg size (aboveLastRow_append_lastRow a)
    rw [size_append] at parts
    omega
  have cut : ∃ parts, splitAt? ((a ++ b).lineAt (size a)).raw
      (min (size (lastRow a)) (size ((a ++ b).lineAt (size a)).raw)) = some parts := by
    rcases Nat.le_total (size (lastRow a)) (size ((a ++ b).lineAt (size a)).raw) with inside | past
    · have ended := Line.withoutReturn_append_returnOf (lastRow a ++ rest)
      rw [← raw] at ended
      obtain ⟨more, longer⟩ := exists_append_of_size_le ended.symm inside
      rw [Nat.min_eq_left inside, longer]
      exact ⟨_, splitAt?_size_append _ _⟩
    · have all := splitAt?_size_append ((a ++ b).lineAt (size a)).raw []
      rw [List.append_nil] at all
      rw [Nat.min_eq_right past]
      exact ⟨_, all⟩
  obtain ⟨parts, found⟩ := cut
  unfold position?
  dsimp only
  rw [place, start, within, found]
  exact ⟨_, rfl⟩

end Text

end ApexTidy
