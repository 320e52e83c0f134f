import ApexTidy.Proofs.Comment.Planning
import ApexTidy.Proofs.Source.Slices

/-!
How far a piece of a document widens. In front of it the start of its line is taken in if nothing but blanks
stands there; behind it the rest of its line is taken in with the line feed if nothing but blanks follows, and
otherwise the spaces and tabs that follow. Each end widens by itself, over blanks only, and stays on its line.
-/

namespace ApexTidy.Text

/-- Where the row of a place stops: behind the next line feed, or where the text does. -/
inductive RowStops (t : Text) (place : Nat) : Nat → Prop where
  | feed {feed} (next : IsFirstFrom ['\n'] t place feed) : RowStops t place (feed + 1)
  | last (none : ∀ other, place ≤ other → ¬ StandsAt ['\n'] t other) : RowStops t place (size t)

structure GapStops (t : Text) (place stop : Nat) : Prop where
  gap : ∃ gap, t.slice? place stop = some gap ∧ ∀ c ∈ gap, c = ' ' ∨ c = '\t'
  full : ∃ rest, t.slice? stop (size t) = some rest ∧ rest.head? ≠ some ' ' ∧ rest.head? ≠ some '\t'

/-- A place is moved back over blanks, to the start of its line if nothing else stands there. -/
structure WidensBack (t : Text) (place first : Nat) : Prop where
  order : first ≤ place
  boundary : t.isBoundary first = true
  blanks : ∃ lead, t.slice? first place = some lead ∧ isBlank lead = true ∧ '\n' ∉ lead
  line : ∃ row, t.slice? (t.lineAt place).start place = some row ∧
    first = if isBlank row then (t.lineAt place).start else place

/-- A place is moved on over blanks, up to and with the next line feed if nothing else stands there, and over
spaces and tabs otherwise. -/
structure WidensForth (t : Text) (place last : Nat) : Prop where
  order : place ≤ last
  boundary : t.isBoundary last = true
  blanks : ∃ trail, t.slice? place last = some trail ∧ isBlank trail = true ∧ '\n' ∉ trail.dropLast
  line : ∃ stop row, RowStops t place stop ∧ t.slice? place stop = some row ∧
    if isBlank row then last = stop else GapStops t place last

theorem widensBack_beforeBlanks (a b : Text) : WidensBack (a ++ b) (size a) (size (beforeBlanks a)) := by
  obtain ⟨lead, whole, blank, single⟩ := exists_beforeBlanks a
  have sizes := congrArg size whole
  rw [size_append] at sizes
  refine ⟨by omega, ?_, ⟨lead, ?_, blank, single⟩, ⟨lastRow a, slice?_lineAt a b, ?_⟩⟩
  · rw [isBoundary_iff]
    refine ⟨beforeBlanks a, lead ++ b, ?_, rfl⟩
    rw [← List.append_assoc, ← whole]
  · refine @slice?_eq_some _ (beforeBlanks a) lead b _ _ ?_ rfl ?_
    · rw [← whole]
    · rw [← whole]
  · rw [(exists_lineAt_append a b).1, beforeBlanks]
    split
    · rfl
    · rfl

theorem rowStops_firstRow (a b : Text) : RowStops (a ++ b) (size a) (size a + size (firstRow b)) := by
  by_cases feed : '\n' ∈ b
  · obtain ⟨row, below, rfl, single⟩ := List.eq_append_cons_of_mem feed
    have next : IsFirstFrom ['\n'] (a ++ (row ++ ['\n'] ++ below)) (size a) (size a + size row) := by
      rw [isFirstFrom_iff (by decide), List.dropLast_singleton, List.append_nil, List.singleton_infix_iff]
      exact single
    have stop : size a + size (firstRow (row ++ '\n' :: below)) = size a + size row + 1 := by
      rw [firstRow_append_lineFeed single, size_append]
      rfl
    rw [List.append_assoc] at next
    rw [stop]
    exact .feed next
  · rw [firstRow_of_not_mem feed, ← size_append]
    refine .last fun other behind stands => ?_
    obtain ⟨before, after, whole, rfl⟩ := stands
    rw [List.append_assoc] at whole
    obtain ⟨rest, rfl⟩ := exists_append_of_size_le whole behind
    rw [List.append_assoc, List.append_cancel_left_eq] at whole
    rw [whole] at feed
    simp at feed

theorem lineFeed_not_mem_dropLast_firstRow (t : Text) : '\n' ∉ (firstRow t).dropLast := by
  by_cases feed : '\n' ∈ t
  · obtain ⟨row, below, rfl, single⟩ := List.eq_append_cons_of_mem feed
    rw [firstRow_append_lineFeed single, List.dropLast_concat]
    exact single
  · rw [firstRow_of_not_mem feed]
    exact fun member => feed (List.dropLast_subset t member)

theorem gapStops_takeWhile (a b : Text) :
    GapStops (a ++ b) (size a) (size a + size (b.takeWhile fun c => c == ' ' || c == '\t')) := by
  have parts := List.takeWhile_append_dropWhile (p := fun c => c == ' ' || c == '\t') (l := b)
  generalize gaps : b.takeWhile (fun c => c == ' ' || c == '\t') = gap at parts
  generalize rests : b.dropWhile (fun c => c == ' ' || c == '\t') = rest at parts
  have whole : a ++ b = a ++ gap ++ rest := by rw [List.append_assoc, parts]
  refine ⟨⟨gap, slice?_eq_some whole rfl (size_append ..).symm, ?_⟩, ⟨rest, ?_, ?_⟩⟩
  · intro c member
    rw [← gaps] at member
    have kept := List.all_eq_true.1 List.all_takeWhile c member
    simpa using kept
  · refine @slice?_eq_some _ (a ++ gap) rest [] _ _ ?_ (size_append ..).symm ?_
    · rw [whole, List.append_nil]
    · rw [whole]
  · have stop := List.head?_dropWhile_not (fun c => c == ' ' || c == '\t') b
    rw [rests] at stop
    cases rest with
    | nil => simp
    | cons c rest =>
      simpa using stop

theorem widensForth_blanksAfter (a b : Text) :
    WidensForth (a ++ b) (size a) (size a + size (blanksAfter b)) := by
  have parts := blanksAfter_append_drop b
  have whole : a ++ b = a ++ blanksAfter b ++ b.drop (blanksAfter b).length := by
    rw [List.append_assoc, parts]
  refine ⟨Nat.le_add_right .., ?_, ⟨blanksAfter b, ?_, isBlank_blanksAfter b, ?_⟩,
    ⟨_, firstRow b, rowStops_firstRow a b, ?_, ?_⟩⟩
  · rw [isBoundary_iff]
    exact ⟨_, _, whole, size_append ..⟩
  · exact slice?_eq_some whole rfl (size_append ..).symm
  · rw [blanksAfter]
    split
    · exact lineFeed_not_mem_dropLast_firstRow b
    · intro member
      have kept := List.all_eq_true.1 List.all_takeWhile _ (List.dropLast_subset _ member)
      exact absurd kept (by decide)
  · refine @slice?_eq_some _ a (firstRow b) (belowFirstRow b) _ _ ?_ rfl (size_append ..).symm
    rw [List.append_assoc, firstRow_append_belowFirstRow]
  · rw [blanksAfter]
    split
    · rfl
    · exact gapStops_takeWhile a b

/-- Two places where a text can be cut widen to places where it can be cut, whichever of them comes first. -/
theorem widenOffsets?_widens {t : Text} {start stop : Nat} (first : t.isBoundary start = true)
    (last : t.isBoundary stop = true) :
    ∃ s e, t.widenOffsets? start stop = some (s, e) ∧ t.WidensBack start s ∧ t.WidensForth stop e := by
  obtain ⟨before, rest, whole, rfl⟩ := isBoundary_iff.1 first
  obtain ⟨upTo, after, same, rfl⟩ := isBoundary_iff.1 last
  refine ⟨size (beforeBlanks before), size upTo + size (blanksAfter after), ?_, ?_, ?_⟩
  · have cut := splitAt?_size_append before rest
    have other := splitAt?_size_append upTo after
    rw [← whole] at cut
    rw [← same] at other
    rw [widenOffsets?, cut, other]
    rfl
  · rw [whole]
    exact widensBack_beforeBlanks before rest
  · rw [same]
    exact widensForth_blanksAfter upTo after

theorem widenOffsets?_widens_of_blocks :
    let t : Text := "é\n\t/** d */ \u00a0\r\nx; /** e */ \tvoid f() \x7b".toList
    (t.isBoundary 4 = true ∧ t.isBoundary 12 = true ∧ t.widenOffsets? 4 12 = some (3, 17) ∧
        t.WidensBack 4 3 ∧ t.WidensForth 12 17) ∧
      (t.isBoundary 20 = true ∧ t.isBoundary 28 = true ∧ t.widenOffsets? 20 28 = some (20, 30) ∧
        t.WidensBack 20 20 ∧ t.WidensForth 28 30) := by
  intro t
  have own : t.isBoundary 4 = true ∧ t.isBoundary 12 = true := by decide
  have shared : t.isBoundary 20 = true ∧ t.isBoundary 28 = true := by decide
  have wide : t.widenOffsets? 4 12 = some (3, 17) := by decide
  have narrow : t.widenOffsets? 20 28 = some (20, 30) := by decide
  have lines : t.WidensBack 4 3 ∧ t.WidensForth 12 17 := by
    obtain ⟨s, e, found, back, forth⟩ := widenOffsets?_widens own.1 own.2
    rw [wide] at found
    cases found
    exact ⟨back, forth⟩
  have gaps : t.WidensBack 20 20 ∧ t.WidensForth 28 30 := by
    obtain ⟨s, e, found, back, forth⟩ := widenOffsets?_widens shared.1 shared.2
    rw [narrow] at found
    cases found
    exact ⟨back, forth⟩
  exact ⟨⟨own.1, own.2, wide, lines⟩, ⟨shared.1, shared.2, narrow, gaps⟩⟩

end ApexTidy.Text
