import ApexTidy.Proofs.Source.Slices

/-!
Lines as a tiling of their text. Each line starts where the one before it and its ending stop, so the
starts grow from zero on and the pieces between them are the lines and their endings. As the starts grow,
the line at an offset can be looked for by halving: among the lines that are left there is always the last
one that starts at the offset or before it.
-/

namespace ApexTidy

open Text

namespace Line

theorem start_le_of_mem_ofPieces {index start : Nat} {rows : List Text} {l : Line}
    (member : l ∈ ofPieces index start rows) : start ≤ l.start := by
  induction rows generalizing index start with
  | nil => cases member
  | cons row rest ih =>
    rw [ofPieces_cons, List.mem_cons] at member
    rcases member with rfl | later
    · exact Nat.le_refl _
    · have after := ih later
      omega

theorem pairwise_start_ofPieces (index start : Nat) (rows : List Text) :
    (ofPieces index start rows).Pairwise fun a b => a.start < b.start := by
  induction rows generalizing index start with
  | nil => exact .nil
  | cons row rest ih =>
    rw [ofPieces_cons, List.pairwise_cons]
    refine ⟨fun l member => ?_, ih _ _⟩
    have after := start_le_of_mem_ofPieces member
    show start < l.start
    omega

theorem getLast?_filter_eq_lastStarting {line : Line} {rest : List Line} {offset : Nat}
    (sorted : (line :: rest).Pairwise fun a b => a.start < b.start) (reached : line.start ≤ offset) :
    ((line :: rest).filter (·.start ≤ offset)).getLast? = some (line.lastStarting rest offset) := by
  induction rest generalizing line with
  | nil => simp [lastStarting, reached]
  | cons next rest ih =>
    have later := (List.pairwise_cons.1 sorted).2
    rw [List.filter_cons_of_pos (by simpa using reached), lastStarting]
    by_cases further : next.start ≤ offset
    · rw [if_pos further, List.getLast?_cons, ih later further]
      rfl
    · have behind : ∀ l ∈ next :: rest, offset < l.start := by
        rw [List.forall_mem_cons]
        refine ⟨Nat.lt_of_not_le further, fun l member => ?_⟩
        exact Nat.lt_trans (Nat.lt_of_not_le further) ((List.pairwise_cons.1 later).1 l member)
      have none : (next :: rest).filter (·.start ≤ offset) = [] := by
        refine List.filter_eq_nil_iff.2 fun l member => ?_
        have after := behind l member
        simpa using after
      rw [if_neg further, none]
      rfl

/-! ### Looking for a line -/

/-- Halves the `size` lines from `base` on until one is left. The half that starts behind the offset is
given up. -/
def halve (lines : List Line) (offset base size : Nat) : Nat :=
  if 1 < size then
    let middle := base + size / 2
    halve lines offset (if lines[middle]?.any (offset < ·.start) then base else middle) (size - size / 2)
  else base
termination_by size
decreasing_by omega

/-- Ends with the index of the line that starts at the offset, or with the index that such a line would
have. -/
def search (lines : List Line) (offset : Nat) : Except Nat Nat :=
  let place := halve lines offset 0 lines.length
  match lines[place]? with
  | some l =>
    if l.start = offset then .ok place else .error (if l.start < offset then place + 1 else place)
  | none => .error 0

/-- The line that holds an offset stands in front of where a line that starts there would stand. -/
def indexAt (lines : List Line) (offset : Nat) : Nat :=
  match search lines offset with
  | .ok place => place
  | .error place => place - 1

/-- The `size` lines from `base` on hold the last line that does not start behind the offset. -/
structure Holds (lines : List Line) (offset base size : Nat) : Prop where
  nonempty : 0 < size
  fits : base + size ≤ lines.length
  reached : ∀ l, lines[base]? = some l → l.start ≤ offset
  behind : ∀ place l, base + size ≤ place → lines[place]? = some l → offset < l.start

section

variable {lines : List Line} {offset base size : Nat}
  (sorted : lines.Pairwise fun a b => a.start < b.start)

include sorted

theorem Holds.halved (holds : Holds lines offset base size) (several : 1 < size) :
    Holds lines offset (if lines[base + size / 2]?.any (offset < ·.start) then base else base + size / 2)
      (size - size / 2) := by
  obtain ⟨-, fits, reached, behind⟩ := holds
  have inside : base + size / 2 < lines.length := by omega
  have middle := List.getElem?_eq_getElem inside
  by_cases past : offset < lines[base + size / 2].start
  · rw [middle, if_pos (by simpa using past)]
    refine ⟨by omega, by omega, reached, fun place l after found => ?_⟩
    obtain ⟨listed, rfl⟩ := List.getElem?_eq_some_iff.1 found
    rcases Nat.eq_or_lt_of_le (show base + size / 2 ≤ place by omega) with rfl | further
    · exact past
    · exact Nat.lt_trans past (List.pairwise_iff_getElem.1 sorted _ _ inside listed further)
  · rw [middle, if_neg (by simpa using past)]
    refine ⟨by omega, by omega, fun l found => ?_, fun place l after => behind place l (by omega)⟩
    rw [middle] at found
    rw [← Option.some.inj found]
    exact Nat.le_of_not_lt past

theorem Holds.narrowed (holds : Holds lines offset base size) :
    Holds lines offset (halve lines offset base size) 1 := by
  fun_induction halve lines offset base size with
  | case1 base size several middle ih => exact ih (holds.halved sorted several)
  | case2 base size single =>
    have one : size = 1 := by
      have nonempty := holds.nonempty
      omega
    rwa [one] at holds

end

theorem Holds.getLast?_filter {lines : List Line} {offset place : Nat} (holds : Holds lines offset place 1) :
    (lines.filter (·.start ≤ offset)).getLast? = lines[place]? := by
  have inside : place < lines.length := holds.fits
  have here := List.getElem?_eq_getElem inside
  have none : (lines.drop (place + 1)).filter (·.start ≤ offset) = [] := by
    refine List.filter_eq_nil_iff.2 fun l member => ?_
    obtain ⟨after, found⟩ := List.mem_iff_getElem?.1 member
    rw [List.getElem?_drop] at found
    have behind := holds.behind _ l (Nat.le_add_right _ _) found
    simpa using behind
  have reached := holds.reached _ here
  rw [here]
  conv => lhs; rw [← List.take_append_drop place lines, List.drop_eq_getElem_cons inside]
  rw [List.filter_append, List.filter_cons_of_pos (by simpa using reached), none, List.getLast?_concat]

theorem getElem?_indexAt {line : Line} {rest : List Line} {offset : Nat}
    (sorted : (line :: rest).Pairwise fun a b => a.start < b.start) (reached : line.start ≤ offset) :
    (line :: rest)[indexAt (line :: rest) offset]? = some (line.lastStarting rest offset) := by
  have all : Holds (line :: rest) offset 0 (line :: rest).length := by
    refine ⟨Nat.succ_pos _, by omega, fun l found => ?_, fun place l past found => ?_⟩
    · cases found
      exact reached
    · rw [Nat.zero_add] at past
      rw [List.getElem?_eq_none past] at found
      cases found
  have holds := all.narrowed sorted
  obtain ⟨l, here⟩ : ∃ l, (line :: rest)[halve (line :: rest) offset 0 (line :: rest).length]? = some l :=
    ⟨_, List.getElem?_eq_getElem (show _ < (line :: rest).length from holds.fits)⟩
  have before := holds.reached l here
  have index : indexAt (line :: rest) offset = halve (line :: rest) offset 0 (line :: rest).length := by
    rw [indexAt, search, here]
    dsimp only
    by_cases same : l.start = offset
    · rw [if_pos same]
    · rw [if_neg same, if_pos (Nat.lt_of_le_of_ne before same)]
      rfl
  rw [index, ← holds.getLast?_filter, getLast?_filter_eq_lastStarting sorted reached]

end Line

namespace Text

theorem pairwise_start_lines (t : Text) : t.lines.Pairwise fun a b => a.start < b.start :=
  Line.pairwise_start_ofPieces 0 0 _

theorem exists_lines_cons (t : Text) : ∃ first rest, t.lines = first :: rest ∧ first.start = 0 := by
  obtain ⟨row, below, rows⟩ := List.exists_cons_of_ne_nil (List.splitOn_ne_nil '\n' t)
  exact ⟨_, _, by rw [lines, rows, Line.ofPieces_cons], rfl⟩

def startAfter (t : Text) (index : Nat) : Nat := (t.lines[index + 1]?.map (·.start)).getD (size t)

theorem startAfter_of_rows {t row : Text} {above below : List Text}
    (rows : t.splitOn '\n' = above ++ row :: below) :
    t.startAfter above.length =
      size ((above.flatMap (· ++ ['\n']) : Text) ++ row ++ Line.feedBefore below) := by
  cases below with
  | nil =>
    have last : t.lines.length ≤ above.length + 1 := by
      rw [lines, Line.length_ofPieces, rows]
      simp
    have whole := eq_append_of_rows rows
    rw [startAfter, List.getElem?_eq_none last, Option.map_none, Option.getD_none]
    conv => lhs; rw [whole]
    simp [Line.feedBefore]
  | cons next below =>
    have longer : t.splitOn '\n' = (above ++ [row]) ++ next :: below := by rw [rows]; simp
    have after := line_of_rows longer
    rw [List.length_append, List.length_singleton] at after
    rw [startAfter, after, Option.map_some, Option.getD_some, List.flatMap_append, List.flatMap_singleton,
      ← List.append_assoc]
    rfl

theorem ending_of_rows {t row : Text} {above below : List Text} (rows : t.splitOn '\n' = above ++ row :: below) :
    if above.length + 1 < t.lines.length then
      Line.returnOf row ++ Line.feedBefore below = ['\n'] ∨
        Line.returnOf row ++ Line.feedBefore below = ['\r', '\n']
    else
      Line.returnOf row ++ Line.feedBefore below = [] ∨
        Line.returnOf row ++ Line.feedBefore below = ['\r'] := by
  have count : t.lines.length = above.length + 1 + below.length := by
    rw [lines, Line.length_ofPieces, rows, List.length_append, List.length_cons]
    omega
  rcases Line.returnOf_cases row with none | returned
  · rw [none]
    cases below with
    | nil => simp [count, Line.feedBefore]
    | cons next below => simp [count, Line.feedBefore]
  · rw [returned]
    cases below with
    | nil => simp [count, Line.feedBefore]
    | cons next below => simp [count, Line.feedBefore]

theorem slices_of_rows {t row : Text} {above below : List Text} {l : Line}
    (rows : t.splitOn '\n' = above ++ row :: below) (found : t.lines[above.length]? = some l) :
    t.slice? l.start l.stop = some l.raw ∧ t.slice? l.stop (t.startAfter above.length) = some l.ending := by
  rw [line_of_rows rows, Option.some.injEq] at found
  have line := Line.withoutReturn_append_returnOf row
  have whole : t = (above.flatMap (· ++ ['\n']) : Text) ++ withoutReturn row ++
      (Line.returnOf row ++ Line.feedBefore below) ++ ['\n'].intercalate below := by
    conv => lhs; rw [eq_append_of_rows rows, ← line]
    simp only [List.append_assoc]
  rw [startAfter_of_rows rows, ← found]
  constructor
  · exact @slice?_eq_some _ _ _ ((Line.returnOf row ++ Line.feedBefore below) ++ ['\n'].intercalate below) _ _
      (by rw [whole]; simp only [List.append_assoc]) rfl (size_append ..).symm
  · refine slice?_eq_some whole (size_append ..).symm ?_
    conv => lhs; rw [← line]
    simp only [List.append_assoc]

/-- Lines and their endings, laid end to end, are the text, and the line at an offset is the last one that
does not start behind it. Looking for it by halving finds it. -/
theorem lines_tile (t : Text) :
    t.lines.head?.map (·.start) = some 0 ∧ t.lines.Pairwise (fun a b => a.start < b.start) ∧
      t.lines.flatMap (fun l => l.raw ++ l.ending) = t ∧
      (∀ index l, t.lines[index]? = some l →
        '\n' ∉ l.raw ∧ t.slice? l.start l.stop = some l.raw ∧
          t.slice? l.stop (t.startAfter index) = some l.ending ∧
          (if index + 1 < t.lines.length then l.ending = ['\n'] ∨ l.ending = ['\r', '\n']
            else l.ending = [] ∨ l.ending = ['\r'])) ∧
      ∀ offset,
        (t.lines.filter (·.start ≤ offset)).getLast? = some (t.lineAt offset) ∧
          t.lines[Line.indexAt t.lines offset]? = some (t.lineAt offset) := by
  obtain ⟨first, rest, all, start⟩ := exists_lines_cons t
  refine ⟨?_, pairwise_start_lines t, flatMap_whole_lines t, ?_, ?_⟩
  · rw [all, List.head?_cons, Option.map_some, start]
  · intro index l found
    obtain ⟨inside, -⟩ := List.getElem?_eq_some_iff.1 found
    obtain ⟨above, row, below, rows, rfl⟩ := exists_rows_of_lt inside
    obtain ⟨raw, ending⟩ := slices_of_rows rows found
    rw [line_of_rows rows, Option.some.injEq] at found
    have lineFeed := lineFeed_not_mem_of_mem_splitOn (rows ▸ List.mem_append_right above List.mem_cons_self)
    refine ⟨?_, raw, ending, ?_⟩
    · rw [← found]
      exact fun member => lineFeed ((withoutReturn_prefix_self row).subset member)
    · rw [← found]
      exact ending_of_rows rows
  · intro offset
    have sorted := pairwise_start_lines t
    have reached : first.start ≤ offset := start ▸ Nat.zero_le offset
    rw [lineAt, all]
    rw [all] at sorted
    exact ⟨Line.getLast?_filter_eq_lastStarting sorted reached, Line.getElem?_indexAt sorted reached⟩

theorem lines_tile_of_returns :
    let t : Text := "é\r\nb\r".toList
    (t.lines[0]? = some ⟨0, 0, ['é'], ['\r', '\n']⟩ ∧ '\n' ∉ ['é'] ∧ t.slice? 0 2 = some ['é'] ∧
        t.slice? 2 4 = some ['\r', '\n']) ∧
      (t.lines[1]? = some ⟨1, 4, ['b'], ['\r']⟩ ∧ '\n' ∉ ['b'] ∧ t.slice? 4 5 = some ['b'] ∧
        t.slice? 5 6 = some ['\r']) ∧
      t.lines[Line.indexAt t.lines 5]? = some (t.lineAt 5) := by
  intro t
  obtain ⟨-, -, -, pieces, places⟩ := t.lines_tile
  have first : t.lines[0]? = some ⟨0, 0, ['é'], ['\r', '\n']⟩ := rfl
  have second : t.lines[1]? = some ⟨1, 4, ['b'], ['\r']⟩ := rfl
  obtain ⟨single, raw, ending, -⟩ := pieces 0 _ first
  obtain ⟨other, line, last, -⟩ := pieces 1 _ second
  exact ⟨⟨first, single, raw, ending⟩, ⟨second, other, line, last⟩, (places 5).2⟩

end Text

end ApexTidy
