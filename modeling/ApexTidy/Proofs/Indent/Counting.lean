import ApexTidy.Proofs.Indent.Layout
import Mathlib.Algebra.Group.Int.Defs
import Mathlib.Algebra.Group.Nat.Defs

/-!
What the machine says of a line, told without running it. A line stands in a comment of several lines if
one opens there or further up and no line between ends it, and its depth counts the blocks opened above it
less those closed down to it, on the lines outside of such comments. So a depth is never further from zero
than there are lines, and numbers of 64 bits hold all depths that are computed.
-/

namespace ApexTidy

open Text

def Line.contents (lines : List Line) : List Text := (lines.filter (!·.isBlank)).map (·.trimmed)

theorem Line.contents_cons (l : Line) (rest : List Line) :
    contents (l :: rest) = if l.isBlank then contents rest else l.trimmed :: contents rest := by
  unfold contents
  cases blank : l.isBlank with
  | true => simp [blank]
  | false => simp [blank]

/-- Outside of comments of several lines, the code of the line opens a block. -/
def AnnotatedLine.opens (a : AnnotatedLine) : Bool :=
  !a.inComment && IndentState.opensBlock a.line.trimmed

def AnnotatedLine.closes (a : AnnotatedLine) : Bool :=
  !a.inComment && IndentState.closesBlock a.line.trimmed

namespace IndentState

def StartsComment (row : Text) : Prop :=
  ∃ rest, row = commentOpen ++ rest ∧ ¬ commentClose <:+: rest

/-- A comment starts at the row or above it, and no row strictly between ends it. -/
def IsCommentAt (rows : List Text) (i : Nat) : Prop :=
  ∃ j ≤ i, (∃ opener, rows[j]? = some opener ∧ StartsComment opener) ∧
    ∀ row ∈ (rows.take i).drop (j + 1), ¬ commentClose <:+ row

theorem opensComment_iff {row : Text} : opensComment row = true ↔ StartsComment row := by
  unfold opensComment StartsComment
  constructor
  · intro opens
    split at opens
    · rename_i rest start
      refine ⟨rest, afterStart?_eq_some_iff.1 start, ?_⟩
      rw [← occursIn_iff]
      simpa using opens
    · cases opens
  · rintro ⟨rest, rfl, absent⟩
    rw [← occursIn_iff] at absent
    simpa using absent

/-- No row but `/*/` both starts a comment and ends one. -/
theorem StartsComment.not_suffix {row : Text} (starts : StartsComment row)
    (proper : row ≠ ['/', '*', '/']) : ¬ commentClose <:+ row := by
  obtain ⟨rest, rfl, absent⟩ := starts
  rintro ⟨before, whole⟩
  match before with
  | [] => simp [commentOpen, commentClose] at whole
  | [c] => exact proper (by simp_all [commentOpen, commentClose])
  | c :: d :: before =>
    apply absent
    refine ⟨before, [], ?_⟩
    simp_all [commentOpen]

theorem isCommentAt_cons_zero {row : Text} {rows : List Text} :
    IsCommentAt (row :: rows) 0 ↔ StartsComment row := by
  simp [IsCommentAt]

theorem isCommentAt_cons_succ {row : Text} {rows : List Text} {i : Nat} :
    IsCommentAt (row :: rows) (i + 1) ↔
      IsCommentAt rows i ∨ StartsComment row ∧ ∀ other ∈ rows.take i, ¬ commentClose <:+ other := by
  constructor
  · rintro ⟨j, above, ⟨opener, listed, starts⟩, stays⟩
    cases j with
    | zero =>
      obtain rfl : row = opener := by simpa using listed
      exact Or.inr ⟨starts, stays⟩
    | succ j => exact Or.inl ⟨j, Nat.le_of_succ_le_succ above, ⟨opener, listed, starts⟩, stays⟩
  · rintro (⟨j, above, ⟨opener, listed, starts⟩, stays⟩ | ⟨starts, stays⟩)
    · exact ⟨j + 1, Nat.succ_le_succ above, ⟨opener, listed, starts⟩, stays⟩
    · exact ⟨0, Nat.zero_le _, ⟨row, rfl, starts⟩, stays⟩

section

variable (s : IndentState) (row : Text)

theorem inComment_step : (s.step row).inComment = (s.inComment || opensComment row) := by
  unfold step
  cases s.inComment with
  | true => rfl
  | false => cases opensComment row <;> rfl

theorem inComment_next_step : (s.step row).next.inComment =
    if s.inComment then !endsWith commentClose row else opensComment row := by
  unfold step
  cases s.inComment with
  | true => rfl
  | false => cases opensComment row <;> rfl

theorem depth_step : (s.step row).depth =
    s.depth - (if !(s.step row).inComment && closesBlock row then 1 else 0 : Nat) := by
  rw [inComment_step]
  unfold step
  cases s.inComment with
  | true => simp
  | false =>
    cases opensComment row with
    | true => simp
    | false => cases closesBlock row <;> simp

theorem depth_next_step : (s.step row).next.depth =
    (s.step row).depth + (if !(s.step row).inComment && opensBlock row then 1 else 0 : Nat) := by
  rw [inComment_step]
  unfold step
  cases s.inComment with
  | true => simp
  | false =>
    cases opensComment row with
    | true => simp
    | false => cases opensBlock row <;> simp

end

/-- Past a row other than `/*/`, a comment is open if it starts there or goes on there. -/
theorem inComment_next_step_iff {s : IndentState} {row : Text} (proper : row ≠ ['/', '*', '/']) :
    (s.step row).next.inComment = true ↔
      StartsComment row ∨ s.inComment = true ∧ ¬ commentClose <:+ row := by
  rw [inComment_next_step, ← endsWith_iff]
  cases inside : s.inComment with
  | false => simp [opensComment_iff]
  | true =>
    have apart : StartsComment row → ¬ commentClose <:+ row := fun starts => starts.not_suffix proper
    rw [← endsWith_iff] at apart
    simpa using apart

theorem map_trimmed_annotate (s : IndentState) (lines : List Line) :
    (s.annotate lines).map (·.line.trimmed) = Line.contents lines := by
  rw [Line.contents, ← map_line_annotate s, List.map_map]
  rfl

theorem annotate_of_blank (s : IndentState) {l : Line} (blank : l.isBlank = true) (rest : List Line) :
    s.annotate (l :: rest) = s.annotate rest := by
  rw [annotate, if_pos blank]

theorem annotate_of_full (s : IndentState) {l : Line} (full : ¬ l.isBlank = true) (rest : List Line) :
    s.annotate (l :: rest) = s.annotated l :: (s.step l.trimmed).next.annotate rest := by
  rw [annotate, if_neg full]
  rfl

theorem inComment_annotate_iff {s : IndentState} {lines : List Line}
    (proper : ∀ row ∈ Line.contents lines, row ≠ ['/', '*', '/']) {i : Nat} {a : AnnotatedLine}
    (found : (s.annotate lines)[i]? = some a) :
    a.inComment = true ↔ IsCommentAt (Line.contents lines) i ∨
      s.inComment = true ∧ ∀ row ∈ (Line.contents lines).take i, ¬ commentClose <:+ row := by
  induction lines generalizing s i with
  | nil => simp [annotate] at found
  | cons l rest ih =>
    rw [Line.contents_cons] at proper ⊢
    by_cases blank : l.isBlank = true
    · rw [if_pos blank] at proper ⊢
      rw [s.annotate_of_blank blank] at found
      exact ih proper found
    · rw [if_neg blank] at proper ⊢
      rw [s.annotate_of_full blank] at found
      obtain ⟨here, below⟩ := List.forall_mem_cons.1 proper
      cases i with
      | zero =>
        obtain rfl := Option.some.inj found
        have flag : (s.annotated l).inComment = (s.inComment || opensComment l.trimmed) :=
          s.inComment_step l.trimmed
        rw [flag, isCommentAt_cons_zero, ← opensComment_iff, Bool.or_eq_true, or_comm]
        simp
      | succ i =>
        rw [ih below found, inComment_next_step_iff here, isCommentAt_cons_succ, List.take_succ_cons,
          List.forall_mem_cons, or_and_right, and_assoc, or_assoc]

theorem depth_annotate {s : IndentState} {lines : List Line} {i : Nat} {a : AnnotatedLine}
    (found : (s.annotate lines)[i]? = some a) :
    a.depth = s.depth + ((s.annotate lines).take i).countP (·.opens) -
      ((s.annotate lines).take (i + 1)).countP (·.closes) := by
  induction lines generalizing s i with
  | nil => simp [annotate] at found
  | cons l rest ih =>
    by_cases blank : l.isBlank = true
    · rw [s.annotate_of_blank blank] at found ⊢
      exact ih found
    · rw [s.annotate_of_full blank] at found ⊢
      have depth : (s.annotated l).depth = s.depth - (if (s.annotated l).closes then 1 else 0 : Nat) :=
        s.depth_step l.trimmed
      have next : (s.step l.trimmed).next.depth =
          (s.annotated l).depth + (if (s.annotated l).opens then 1 else 0 : Nat) :=
        s.depth_next_step l.trimmed
      rw [List.take_succ_cons, List.countP_cons]
      cases i with
      | zero =>
        obtain rfl := Option.some.inj found
        rw [depth]
        simp
      | succ i =>
        rw [ih found, next, depth, List.take_succ_cons, List.countP_cons]
        omega

theorem natAbs_depth_annotate_le {s : IndentState} {lines : List Line} {i : Nat} {a : AnnotatedLine}
    (found : (s.annotate lines)[i]? = some a) :
    a.depth.natAbs ≤ s.depth.natAbs + (Line.contents lines).length := by
  have depth := depth_annotate found
  obtain ⟨listed, -⟩ := List.getElem?_eq_some_iff.1 found
  have opened := ((s.annotate lines).take i).countP_le_length (p := (·.opens))
  have closed := ((s.annotate lines).take (i + 1)).countP_le_length (p := (·.closes))
  rw [List.length_take] at opened closed
  rw [← map_trimmed_annotate s lines, List.length_map]
  omega

def word? (n : Int) : Option Int := if -2 ^ 63 ≤ n ∧ n < 2 ^ 63 then some n else none

def step? (s : IndentState) (row : Text) : Option Step :=
  if s.inComment || opensComment row then some (s.step row)
  else do
    let depth ← if closesBlock row then word? (s.depth - 1) else some s.depth
    let next ← if opensBlock row then word? (depth + 1) else some depth
    return ⟨depth, false, row, ⟨next, false⟩⟩

def annotate? : IndentState → List Line → Option (List AnnotatedLine)
  | _, [] => some []
  | s, l :: rest =>
    if l.isBlank then annotate? s rest
    else do
      let first ← s.step? l.trimmed
      let others ← annotate? first.next rest
      return ⟨l, first.depth, first.inComment, first.content⟩ :: others

theorem word?_eq_some {n : Int} (small : n.natAbs < 2 ^ 63) : word? n = some n := by
  apply if_pos
  omega

theorem natAbs_depth_next_step (s : IndentState) (row : Text) :
    (s.step row).next.depth.natAbs ≤ s.depth.natAbs + 1 := by
  rw [depth_next_step, depth_step]
  split <;> split <;> omega

theorem step?_eq_some {s : IndentState} (small : s.depth.natAbs + 1 < 2 ^ 63) (row : Text) :
    s.step? row = some (s.step row) := by
  have up : word? (s.depth + 1) = some (s.depth + 1) := word?_eq_some (by omega)
  have down : word? (s.depth - 1) = some (s.depth - 1) := word?_eq_some (by omega)
  have back : word? s.depth = some s.depth := word?_eq_some (by omega)
  unfold step? step
  cases s.inComment with
  | true => rfl
  | false =>
    cases opensComment row with
    | true => rfl
    | false => cases closesBlock row <;> cases opensBlock row <;> simp [up, down, back]

theorem annotate?_eq_some {s : IndentState} {lines : List Line}
    (small : s.depth.natAbs + (Line.contents lines).length < 2 ^ 63) :
    s.annotate? lines = some (s.annotate lines) := by
  induction lines generalizing s with
  | nil => rfl
  | cons l rest ih =>
    rw [Line.contents_cons] at small
    by_cases blank : l.isBlank = true
    · rw [if_pos blank] at small
      rw [annotate?, if_pos blank, s.annotate_of_blank blank, ih small]
    · rw [if_neg blank, List.length_cons] at small
      have near := s.natAbs_depth_next_step l.trimmed
      rw [annotate?, if_neg blank, s.annotate_of_full blank, step?_eq_some (by omega), Option.bind_eq_bind,
        Option.bind_some, ih (by omega)]
      rfl

end IndentState

theorem Line.length_contents_le (lines : List Line) :
    (contents lines).length ≤ size (lines.flatMap whole) := by
  induction lines with
  | nil => exact Nat.le_refl 0
  | cons l rest ih =>
    rw [contents_cons, List.flatMap_cons, size_append]
    by_cases blank : l.isBlank = true
    · rw [if_pos blank]
      omega
    · have byte : size l.raw ≠ 0 := by
        rw [Ne, size_eq_zero_iff]
        intro none
        exact blank (by rw [isBlank, none, isBlank_nil])
      rw [if_neg blank, List.length_cons, whole, size_append]
      omega

namespace Text

open IndentState

/-- The flag and the depth of each line that is not blank in closed form, which bounds the depth by the
number of these lines; and no depth on the way leaves a signed word of 64 bits, since no text in memory
has that many bytes. -/
theorem annotate_counted (t : Text) (proper : ∀ l ∈ t.lines, l.trimmed ≠ ['/', '*', '/']) :
    t.annotate.map (·.line) = t.lines.filter (!·.isBlank) ∧
    (∀ i a, t.annotate[i]? = some a →
      (a.inComment = true ↔ IsCommentAt (Line.contents t.lines) i) ∧
      a.depth = ((t.annotate.take i).countP (·.opens) : Int) -
        (t.annotate.take (i + 1)).countP (·.closes) ∧
      a.depth.natAbs ≤ (Line.contents t.lines).length) ∧
    (size t < 2 ^ 63 → initial.annotate? t.lines = some t.annotate) := by
  refine ⟨map_line_annotate initial t.lines, ?_, ?_⟩
  · intro i a found
    have rows : ∀ row ∈ Line.contents t.lines, row ≠ ['/', '*', '/'] := by
      intro row member
      obtain ⟨l, listed, rfl⟩ := List.mem_map.1 member
      exact proper l (List.mem_filter.1 listed).1
    have depth : a.depth = 0 + _ - _ := depth_annotate found
    rw [Int.zero_add] at depth
    refine ⟨?_, depth, ?_⟩
    · rw [inComment_annotate_iff rows found]
      simp [initial]
    · have bound := natAbs_depth_annotate_le found
      rwa [initial, Int.natAbs_zero, Nat.zero_add] at bound
  · intro small
    have bytes := Line.length_contents_le t.lines
    rw [flatMap_whole_lines] at bytes
    apply annotate?_eq_some
    show 0 + _ < _
    omega

theorem annotate_counted_around_comment :
    let t : Text := "a \x7b\n/* x\n\n  /* y \x7b\n\x7d\n*/\n\x7d else \x7b\n*/\nb;\n\x7d".toList
    (∀ l ∈ t.lines, l.trimmed ≠ ['/', '*', '/']) ∧
      (∃ a, t.annotate[3]? = some a ∧ a.depth = 1 - 0 ∧ IsCommentAt (Line.contents t.lines) 3) ∧
      (∃ a, t.annotate[7]? = some a ∧ a.depth = 2 - 1 ∧ ¬ IsCommentAt (Line.contents t.lines) 7) ∧
      initial.annotate? t.lines = some t.annotate := by
  intro t
  have proper : ∀ l ∈ t.lines, l.trimmed ≠ ['/', '*', '/'] := by decide
  obtain ⟨-, counted, small⟩ := annotate_counted t proper
  let inside : AnnotatedLine := ⟨⟨4, 19, ['\x7d'], ['\n']⟩, 1, true, ['\x7d']⟩
  let behind : AnnotatedLine := ⟨⟨8, 36, ['b', ';'], ['\n']⟩, 1, false, ['b', ';']⟩
  have first : t.annotate[3]? = some inside := by decide
  have second : t.annotate[7]? = some behind := by decide
  obtain ⟨flagged, depth, -⟩ := counted 3 inside first
  obtain ⟨plain, deeper, -⟩ := counted 7 behind second
  refine ⟨proper, ⟨inside, first, depth.trans (by decide), flagged.1 rfl⟩, ?_, small (by decide)⟩
  refine ⟨behind, second, deeper.trans (by decide), ?_⟩
  rw [← plain]
  decide

end Text

end ApexTidy
