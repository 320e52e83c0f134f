import ApexTidy.Proofs.Indent.Counting

/-!
Well-nested sources. A forest is made of code lines that leave the blocks around them alone, comments of
several lines, and blocks, whose middle lines end one branch and start the next. The machine sets every
line of a forest as deep as there are blocks around it, and leaves the forest as it entered.
-/

namespace ApexTidy

open Text

namespace IndentState

/-- A line read outside of comments that starts none of several lines: whether it closes a block and
whether it opens one. -/
structure IsCode (closes opens : Bool) (row : Text) : Prop where
  code : opensComment row = false
  closing : closesBlock row = closes
  opening : opensBlock row = opens

structure CommentLines where
  opener : Text
  inner : List Text
  closer : Text
  starts : opensComment opener = true
  goesOn : ∀ row ∈ inner, endsWith commentClose row = false
  ends : endsWith commentClose closer = true

def CommentLines.rows (c : CommentLines) : List Text := c.opener :: (c.inner ++ [c.closer])

mutual

inductive Forest where
  | nil
  | neutral (row : Text) (is : IsCode false false row) (rest : Forest)
  | comment (lines : CommentLines) (rest : Forest)
  | block (opening : Text) (is : IsCode false true opening) (body : Branches) (rest : Forest)

/-- What follows the opening line of a block, up to its closing line. -/
inductive Branches where
  | last (branch : Forest) (closing : Text) (is : IsCode true false closing)
  | more (branch : Forest) (middle : Text) (is : IsCode true true middle) (others : Branches)

end

mutual

def Forest.placed (depth : Nat) : Forest → List (Text × Nat)
  | .nil => []
  | .neutral row _ rest => (row, depth) :: rest.placed depth
  | .comment lines rest => lines.rows.map (·, depth) ++ rest.placed depth
  | .block opening _ body rest => (opening, depth) :: (body.placed depth ++ rest.placed depth)

def Branches.placed (depth : Nat) : Branches → List (Text × Nat)
  | .last branch closing _ => branch.placed (depth + 1) ++ [(closing, depth)]
  | .more branch middle _ others => branch.placed (depth + 1) ++ (middle, depth) :: others.placed depth

end

def beyond (s : IndentState) (rows : List Text) : IndentState :=
  rows.foldl (fun s row => (s.step row).next) s

/-- The machine sets the rows to their depths, and goes from one state to another. -/
structure Indents (s : IndentState) (rows : List (Text × Nat)) (next : IndentState) : Prop where
  depths : (s.run (rows.map (·.1))).map (·.depth) = rows.map fun row => (row.2 : Int)
  passed : s.beyond (rows.map (·.1)) = next

theorem run_append (s : IndentState) (a b : List Text) :
    s.run (a ++ b) = s.run a ++ (s.beyond a).run b := by
  induction a generalizing s with
  | nil => rfl
  | cons row a ih => rw [List.cons_append, run, run, ih, List.cons_append]; rfl

theorem indents_nil (s : IndentState) : s.Indents [] s := ⟨rfl, rfl⟩

theorem Indents.append {s middle next : IndentState} {a b : List (Text × Nat)} (first : s.Indents a middle)
    (second : middle.Indents b next) : s.Indents (a ++ b) next := by
  have passed : s.beyond ((a ++ b).map (·.1)) = (s.beyond (a.map (·.1))).beyond (b.map (·.1)) := by
    rw [List.map_append]
    exact List.foldl_append
  refine ⟨?_, ?_⟩
  · rw [List.map_append, run_append, List.map_append, first.depths, first.passed, second.depths,
      List.map_append]
  · rw [passed, first.passed, second.passed]

theorem Indents.cons {s next : IndentState} {row : Text} {n : Nat} {rows : List (Text × Nat)}
    (depth : (s.step row).depth = n) (rest : (s.step row).next.Indents rows next) :
    s.Indents ((row, n) :: rows) next := by
  refine ⟨?_, rest.passed⟩
  rw [List.map_cons, run, List.map_cons, depth, rest.depths, List.map_cons]

theorem IsCode.step_eq {closes opens : Bool} {row : Text} (is : IsCode closes opens row) (depth : Int) :
    step ⟨depth, false⟩ row =
      ⟨depth - closes.toNat, false, row, ⟨depth - closes.toNat + opens.toNat, false⟩⟩ := by
  obtain ⟨code, rfl, rfl⟩ := is
  rw [step, if_neg (by simp), if_neg (by simp [code])]
  cases closesBlock row <;> cases opensBlock row <;> simp

theorem IsCode.indents {closes opens : Bool} {row : Text} (is : IsCode closes opens row) (n : Nat) :
    Indents ⟨n + closes.toNat, false⟩ [(row, n)] ⟨n + opens.toNat, false⟩ := by
  have set := is.step_eq (n + closes.toNat)
  rw [Int.add_sub_cancel] at set
  apply Indents.cons
  · rw [set]
  · rw [set]
    exact indents_nil _

theorem indents_inside (n : Nat) {inner : List Text}
    (goesOn : ∀ row ∈ inner, endsWith commentClose row = false) :
    Indents ⟨n, true⟩ (inner.map (·, n)) ⟨n, true⟩ := by
  induction inner with
  | nil => exact indents_nil _
  | cons row inner ih =>
    obtain ⟨stays, later⟩ := List.forall_mem_cons.1 goesOn
    apply Indents.cons
    · rw [step, if_pos rfl]
    · rw [step, if_pos rfl, stays]
      exact ih later

theorem CommentLines.indents (c : CommentLines) (n : Nat) :
    Indents ⟨n, false⟩ (c.rows.map (·, n)) ⟨n, false⟩ := by
  have inside := indents_inside n c.goesOn
  have left : Indents ⟨n, true⟩ [(c.closer, n)] ⟨n, false⟩ := by
    apply Indents.cons
    · rw [step, if_pos rfl]
    · rw [step, if_pos rfl, c.ends]
      exact indents_nil _
  have rows : c.rows.map (·, n) = (c.opener, n) :: (c.inner.map (·, n) ++ [(c.closer, n)]) := by
    simp [rows]
  rw [rows]
  apply Indents.cons
  · rw [step, if_neg (by simp), if_pos c.starts]
  · rw [step, if_neg (by simp), if_pos c.starts]
    exact inside.append left

-- one case for each kind of part, at any depth
mutual

theorem Forest.indents (n : Nat) : (f : Forest) → Indents ⟨n, false⟩ (f.placed n) ⟨n, false⟩
  | .nil => indents_nil _
  | .neutral _ is rest => (is.indents n).append (rest.indents n)
  | .comment lines rest => (lines.indents n).append (rest.indents n)
  | .block _ is body rest => ((is.indents n).append (body.indents n)).append (rest.indents n)

theorem Branches.indents (n : Nat) : (b : Branches) → Indents ⟨n + 1, false⟩ (b.placed n) ⟨n, false⟩
  | .last branch _ is => by
    have inner := branch.indents (n + 1)
    exact inner.append (is.indents n)
  | .more branch _ is others => by
    have inner := branch.indents (n + 1)
    exact inner.append ((is.indents n).append (others.indents n))

end

theorem map_depth_annotate (s : IndentState) (lines : List Line) :
    (s.annotate lines).map (·.depth) = (s.run (Line.contents lines)).map (·.depth) := by
  induction lines generalizing s with
  | nil => rfl
  | cons l rest ih =>
    rw [Line.contents_cons]
    by_cases blank : l.isBlank = true
    · rw [if_pos blank, s.annotate_of_blank blank, ih]
    · rw [if_neg blank, s.annotate_of_full blank, List.map_cons, ih, run, List.map_cons]
      rfl

theorem after_map_raw (s : IndentState) (lines : List Line) :
    s.after (lines.map (·.raw)) = s.beyond (Line.contents lines) := by
  induction lines generalizing s with
  | nil => rfl
  | cons l rest ih =>
    rw [Line.contents_cons, List.map_cons, after_cons, ih, past, show Text.isBlank l.raw = l.isBlank from rfl]
    by_cases blank : l.isBlank = true
    · rw [if_pos blank, if_pos blank]
    · rw [if_neg blank, if_neg blank]
      rfl

end IndentState

namespace Text

open IndentState

/-- In a text whose lines are those of a forest, with blank lines anywhere between, each line stands as
deep as there are blocks around it, never below depth zero, and nothing is left open at the end. -/
theorem annotate_forest {t : Text} {f : Forest}
    (lines : Line.contents t.lines = (f.placed 0).map (·.1)) :
    t.annotate.map (·.line.trimmed) = (f.placed 0).map (·.1) ∧
      t.annotate.map (·.depth) = (f.placed 0).map (fun row => (row.2 : Int)) ∧
      (∀ a ∈ t.annotate, 0 ≤ a.depth) ∧
      initial.after (t.lines.map (·.raw)) = initial := by
  have indents : Indents initial (f.placed 0) initial := f.indents 0
  have depths : t.annotate.map (·.depth) = (f.placed 0).map fun row => (row.2 : Int) := by
    rw [annotate, map_depth_annotate, lines, indents.depths]
  refine ⟨?_, depths, ?_, ?_⟩
  · rw [annotate, map_trimmed_annotate, lines]
  · intro a member
    have listed := List.mem_map_of_mem (f := (·.depth)) member
    rw [depths] at listed
    obtain ⟨row, -, same⟩ := List.mem_map.1 listed
    rw [← same]
    exact Int.natCast_nonneg row.2
  · rw [after_map_raw, lines, indents.passed]

theorem annotate_forest_of_branches :
    let t : Text :=
      "if (a) \x7b\n\n  b();\n/*\n * \x7b\n\n */\n\x7d else \x7b // c\n\t\ndo \x7b\n\x7d\n\x7d".toList
    ∃ f : Forest, Line.contents t.lines = (f.placed 0).map (·.1) ∧
      t.annotate.map (·.depth) = [0, 1, 1, 1, 1, 0, 1, 1, 0] ∧
      (∀ a ∈ t.annotate, 0 ≤ a.depth) ∧ initial.after (t.lines.map (·.raw)) = initial := by
  intro t
  let comment : CommentLines :=
    ⟨['/', '*'], [['*', ' ', '\x7b']], ['*', '/'], by decide, by decide, by decide⟩
  let first : Forest := .neutral "b();".toList ⟨by decide, by decide, by decide⟩ (.comment comment .nil)
  let inner : Branches := .last .nil ['\x7d'] ⟨by decide, by decide, by decide⟩
  let second : Forest := .block "do \x7b".toList ⟨by decide, by decide, by decide⟩ inner .nil
  let branches : Branches := .more first "\x7d else \x7b // c".toList ⟨by decide, by decide, by decide⟩
    (.last second ['\x7d'] ⟨by decide, by decide, by decide⟩)
  let f : Forest := .block "if (a) \x7b".toList ⟨by decide, by decide, by decide⟩ branches .nil
  have lines : Line.contents t.lines = (f.placed 0).map (·.1) := by decide
  obtain ⟨-, depths, above, last⟩ := annotate_forest lines
  exact ⟨f, lines, depths.trans (by decide), above, last⟩

end Text

end ApexTidy
