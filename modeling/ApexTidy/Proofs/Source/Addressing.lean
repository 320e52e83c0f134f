import ApexTidy.Proofs.Source.Lines
import ApexTidy.Source.Region

/-!
The places that positions name. Later positions name later places, and the places named are all those that
do not part a carriage return from the line feed it belongs to. So a selection always covers a region of its
text, and a region whose two ends part no line ending is covered by a selection.
-/

namespace ApexTidy

open Text

namespace Line

theorem before?_prefix_whole {lines : List Line} {p : Position} {head : Text}
    (found : before? lines p = some head) : head <+: lines.flatMap whole := by
  fun_induction before? lines p generalizing head with
  | case1 => simp_all
  | case2 => simp at found
  | case3 l rest column fits =>
    simp only [Option.some.injEq] at found
    rw [← found, List.flatMap_cons, whole, List.append_assoc]
    exact (List.take_prefix _ _).trans (List.prefix_append ..)
  | case4 => simp at found
  | case5 l rest line column ih =>
    obtain ⟨inner, later, rfl⟩ := Option.map_eq_some_iff.1 found
    rw [List.flatMap_cons]
    exact (List.prefix_append_right_inj _).2 (ih later)

theorem before?_mono {lines : List Line} {p q : Position} {first second : Text}
    (ordered : ¬ q.precedes p) (start : before? lines p = some first)
    (stop : before? lines q = some second) : first <+: second := by
  induction lines generalizing p q first second with
  | nil =>
    have none := before?_prefix_whole start
    rw [List.flatMap_nil, List.prefix_nil] at none
    rw [none]
    exact List.nil_prefix
  | cons l rest ih =>
    obtain ⟨i, column⟩ := p
    obtain ⟨j, other⟩ := q
    unfold Position.precedes at ordered
    cases i with
    | zero =>
      rw [before?] at start
      split at start
      · cases start
        cases j with
        | zero =>
          rw [before?] at stop
          split at stop
          · cases stop
            exact List.take_prefix_take_left
              (Nat.le_of_not_lt fun less => ordered (Or.inr ⟨rfl, less⟩))
          · simp at stop
        | succ j =>
          obtain ⟨inner, -, rfl⟩ := Option.map_eq_some_iff.1 stop
          rw [whole, List.append_assoc]
          exact (List.take_prefix _ _).trans (List.prefix_append ..)
      · simp at start
    | succ i =>
      cases j with
      | zero => exact absurd (Or.inl (Nat.zero_lt_succ i)) ordered
      | succ j =>
        obtain ⟨a, earlier, rfl⟩ := Option.map_eq_some_iff.1 start
        obtain ⟨b, later, rfl⟩ := Option.map_eq_some_iff.1 stop
        apply (List.prefix_append_right_inj _).2
        apply ih _ earlier later
        unfold Position.precedes
        simp only at ordered ⊢
        omega

end Line

namespace Text

theorem before_eq_ok_iff {t head : Text} {p : Position} :
    t.before p = .ok head ↔ Line.before? (lines t) p = some head := by
  unfold before
  cases Line.before? (lines t) p with
  | none => simp
  | some found => simp

theorem before_prefix_whole {t head : Text} {p : Position} (found : t.before p = .ok head) : head <+: t := by
  have start := Line.before?_prefix_whole (before_eq_ok_iff.1 found)
  rwa [flatMap_whole_lines] at start

theorem offset_eq_ok_iff {t : Text} {p : Position} {n : Nat} :
    t.offset p = .ok n ↔ ∃ head, t.before p = .ok head ∧ size head = n := by
  unfold offset
  cases t.before p with
  | error fault => simp [Except.map]
  | ok head => simp [Except.map]

theorem before_of_offset {a b : Text} {p : Position} (found : (a ++ b).offset p = .ok (size a)) :
    (a ++ b).before p = .ok a := by
  obtain ⟨head, named, sizes⟩ := offset_eq_ok_iff.1 found
  obtain ⟨rest, whole⟩ := before_prefix_whole named
  rw [named, eq_of_size_eq whole sizes]

/-- The cut between two texts parts a carriage return from its line feed. -/
def PartsEnding (a b : Text) : Prop := a.getLast? = some '\r' ∧ b.head? = some '\n'

section

variable {a b : Text}

theorem before_end (t : Text) : t.before ⟨t.lines.length, 0⟩ = .ok t := by
  rw [before_eq_ok_iff, Line.before?_of_length_le (Nat.le_refl _), if_pos ⟨rfl, rfl⟩, flatMap_whole_lines]

theorem not_partsEnding_of_rows {above below : List Text} {row head : Text}
    (rows : (a ++ b).splitOn '\n' = above ++ row :: below) (start : head <+: withoutReturn row)
    (named : a = (above.flatMap (· ++ ['\n']) : Text) ++ head) : ¬ PartsEnding a b := by
  rintro ⟨last, first⟩
  obtain ⟨rest, rfl⟩ := start.trans (withoutReturn_prefix_self row)
  have single : '\n' ∉ head ++ rest :=
    lineFeed_not_mem_of_mem_splitOn (rows ▸ List.mem_append_right above List.mem_cons_self)
  rw [List.mem_append, not_or] at single
  have returned : head.getLast? = some '\r' := by
    rwa [named, ← getLast?_lastRow (by decide), lastRow_flatMap_append above single.1] at last
  have behind : b = rest ++ (Line.feedBefore below ++ ['\n'].intercalate below) := by
    refine @List.append_cancel_left _ (above.flatMap (· ++ ['\n']) ++ head) _ _ ?_
    calc
      _ = a ++ b := by rw [named]
      _ = _ := by
        rw [eq_append_of_rows rows]
        simp only [List.append_assoc]
  apply prefix_withoutReturn_iff.1 start
  refine ⟨returned, ?_⟩
  cases rest with
  | nil => rfl
  | cons c rest =>
    rw [behind, List.cons_append, List.head?_cons] at first
    rw [Option.some.inj first] at single
    exact absurd List.mem_cons_self single.2

/-- The places that positions name are those that part no line ending. -/
theorem exists_before_iff : (∃ p, (a ++ b).before p = .ok a) ↔ ¬ PartsEnding a b := by
  constructor
  · rintro ⟨⟨line, column⟩, named⟩
    rw [before_eq_ok_iff] at named
    rcases Nat.lt_or_ge line (a ++ b).lines.length with inside | past
    · obtain ⟨above, row, below, rows, rfl⟩ := exists_rows_of_lt inside
      rw [lines, rows, Line.before?_ofPieces, Option.ite_none_right_eq_some] at named
      exact not_partsEnding_of_rows rows (List.take_prefix column _) (Option.some.inj named.2).symm
    · rw [Line.before?_of_length_le past, Option.ite_none_right_eq_some, flatMap_whole_lines,
        Option.some.injEq, List.append_right_eq_self] at named
      rw [named.2]
      rintro ⟨-, first⟩
      cases first
  · intro fits
    obtain ⟨above, rest, below, first, rows, upper⟩ := exists_rows_append a b
    by_cases returned : (lastRow a).getLast? = some '\r' ∧ rest = []
    · obtain ⟨last, none⟩ := returned
      rw [getLast?_lastRow (by decide)] at last
      rcases (eq_nil_iff_of_splitOn first).1 none with rfl | feed
      · rw [List.append_nil]
        exact ⟨_, before_end a⟩
      · exact absurd ⟨last, feed⟩ fits
    · have start := prefix_withoutReturn_iff.2 returned
      refine ⟨⟨above.length, (lastRow a).length⟩, ?_⟩
      rw [before_eq_ok_iff, lines, rows, Line.before?_ofPieces, if_pos start.length_le,
        ← List.prefix_iff_eq_take.1 start, ← upper, aboveLastRow_append_lastRow]

end

end Text

namespace Selection

theorem region_eq_ok_iff {s : Selection} {t : Text} {r : Region} :
    s.region t = .ok r ↔
      t.before s.start = .ok r.before ∧ t.before s.stop = .ok (r.before ++ r.inside) ∧ r.whole = t := by
  constructor
  · intro found
    unfold region at found
    simp only [bind, Except.bind] at found
    split at found
    · cases found
    · rename_i before start
      split at found
      · cases found
      · rename_i upToStop stop
        cases found
        obtain ⟨inside, rfl⟩ := Line.before?_mono s.ordered (before_eq_ok_iff.1 start)
          (before_eq_ok_iff.1 stop)
        obtain ⟨after, rfl⟩ := before_prefix_whole stop
        simp only [List.drop_left]
        exact ⟨start, stop, rfl⟩
  · intro parts
    obtain ⟨start, stop, rfl⟩ := parts
    unfold region
    rw [start, stop]
    simp [bind, Except.bind, pure, Except.pure, Region.whole]

theorem whole_of_region {s : Selection} {t : Text} {r : Region} (found : s.region t = .ok r) :
    r.whole = t := (region_eq_ok_iff.1 found).2.2

theorem region_of_offsets {s : Selection} {r : Region} (start : r.whole.offset s.start = .ok r.start)
    (stop : r.whole.offset s.stop = .ok r.stop) : s.region r.whole = .ok r := by
  have first : r.whole = r.before ++ (r.inside ++ r.after) := List.append_assoc ..
  rw [region_eq_ok_iff]
  refine ⟨?_, ?_, rfl⟩
  · rw [first] at start ⊢
    exact before_of_offset start
  · rw [Region.stop, ← size_append] at stop
    exact before_of_offset stop

theorem isEmpty_eq_false_of_region {s : Selection} {t : Text} {r : Region}
    (found : s.region t = .ok r) (nonempty : r.inside ≠ []) : s.isEmpty = false := by
  obtain ⟨start, stop, -⟩ := region_eq_ok_iff.1 found
  rw [isEmpty, beq_eq_false_iff_ne]
  intro same
  rw [same, stop] at start
  simp only [Except.ok.injEq, List.append_right_eq_self] at start
  exact nonempty start

theorem exists_region {r : Region} (nonempty : r.inside ≠ [])
    (start : ¬ PartsEnding r.before (r.inside ++ r.after))
    (stop : ¬ PartsEnding (r.before ++ r.inside) r.after) :
    ∃ s : Selection, s.region r.whole = .ok r := by
  obtain ⟨p, first⟩ := exists_before_iff.2 start
  obtain ⟨q, second⟩ := exists_before_iff.2 stop
  rw [← List.append_assoc] at first
  have ordered : ¬ q.precedes p := by
    intro swapped
    have backward := Line.before?_mono (Position.precedes_asymm swapped)
      (before_eq_ok_iff.1 second) (before_eq_ok_iff.1 first)
    have fits := backward.length_le
    have positive := List.length_pos_iff.2 nonempty
    rw [List.length_append] at fits
    omega
  exact ⟨⟨p, q, ordered⟩, region_eq_ok_iff.2 ⟨first, second, rfl⟩⟩

end Selection

end ApexTidy
