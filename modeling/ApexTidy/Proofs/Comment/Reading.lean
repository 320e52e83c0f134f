import ApexTidy.Proofs.Comment.Extent
import ApexTidy.Proofs.Text.Pieces

/-!
What is read from a block. All that a reading collects are trimmed lines of the block; of these only the
first line of a description may start with a tag.
-/

namespace ApexTidy.Tags

open Text

structure IsLineOf (source line : Text) : Prop where
  part : line <:+: source
  trimmed : Trimmed line
  single : '\n' ∉ line

theorem isLineOf_trim {source part : Text} (inside : part <:+: source) (single : '\n' ∉ part) :
    IsLineOf source (trim part) := by
  refine ⟨(trim_infix_self part).trans inside, trimmed_trim part, ?_⟩
  intro feed
  exact single ((trim_infix_self part).subset feed)

/-- A line that a description goes on with: no tag starts it. -/
structure GoesOn (line : Text) : Prop where
  description : afterTag? descriptionTag line = none
  date : afterTag? dateTag line = none
  tag : isTagLine line = false

theorem isLineOf_of_afterTag? {source line tag said : Text} (fed : IsLineOf source line)
    (found : afterTag? tag line = some said) : IsLineOf source said := by
  unfold afterTag? splitFolded? at found
  split at found
  · rename_i head rest parts
    split at found
    · cases found
    · cases found
      simp only [Option.ite_none_right_eq_some, Option.some.injEq, Prod.mk.injEq] at parts
      have tail : rest <:+: line := by
        rw [← parts.2.2]
        exact (List.drop_suffix ..).isInfix
      apply isLineOf_trim (tail.trans fed.part)
      intro feed
      exact fed.single (tail.subset feed)
  · cases found

namespace Reading

structure IsOf (source : Text) (r : Reading) : Prop where
  lines : ∀ line ∈ r.description, line ≠ [] ∧ IsLineOf source line
  later : ∀ line ∈ r.description.tail, GoesOn line
  date : IsLineOf source r.date

/-- What a line can do to a reading. -/
theorem step_cases (r : Reading) (line : Text) :
    (∃ first, afterTag? descriptionTag line = some first ∧
      r.step line = { r with description := if first = [] then [] else [first], inDescription := true })
    ∨ (∃ date, afterTag? dateTag line = some date ∧
      r.step line = { r with date := date, inDescription := false })
    ∨ (GoesOn line ∧ line ≠ [] ∧ r.step line = { r with description := r.description ++ [line] })
    ∨ (∃ flag, r.step line = { r with inDescription := flag }) := by
  unfold step
  cases description : afterTag? descriptionTag line with
  | some first => exact Or.inl ⟨first, rfl, rfl⟩
  | none =>
    cases date : afterTag? dateTag line with
    | some dated => exact Or.inr (Or.inl ⟨dated, rfl, rfl⟩)
    | none =>
      right
      right
      dsimp only
      split
      · exact Or.inr ⟨false, rfl⟩
      · rename_i untagged
        split
        · rename_i going
          simp only [Bool.or_eq_true, not_or, Bool.not_eq_true] at untagged
          simp only [Bool.and_eq_true, Bool.not_eq_true', List.isEmpty_eq_false_iff] at going
          exact Or.inl ⟨⟨description, date, untagged.1⟩, going.2, rfl⟩
        · exact Or.inr ⟨r.inDescription, rfl⟩

theorem IsOf.step {source line : Text} {r : Reading} (sound : IsOf source r)
    (fed : IsLineOf source line) : IsOf source (r.step line) := by
  obtain ⟨lines, later, date⟩ := sound
  rcases r.step_cases line with ⟨first, said, same⟩ | ⟨dated, said, same⟩ | ⟨goes, full, same⟩
    | ⟨flag, same⟩
  · have new := isLineOf_of_afterTag? fed said
    rw [same]
    by_cases none : first = []
    · exact ⟨by simp [none], by simp [none], date⟩
    · exact ⟨by simp [none, new], by simp [none], date⟩
  · rw [same]
    exact ⟨lines, later, isLineOf_of_afterTag? fed said⟩
  · rw [same]
    refine ⟨?_, ?_, date⟩
    · intro other member
      rcases List.mem_append.1 member with before | new
      · exact lines other before
      · rw [List.mem_singleton.1 new]
        exact ⟨full, fed⟩
    · intro other member
      cases none : r.description with
      | nil => simp [none] at member
      | cons first rest =>
        rw [none] at later
        simp only [none, List.cons_append, List.tail_cons] at member
        rcases List.mem_append.1 member with before | new
        · exact later other before
        · rw [List.mem_singleton.1 new]
          exact goes
  · rw [same]
    exact ⟨lines, later, date⟩

theorem IsOf.foldl_step {source : Text} {lines : List Text} {r : Reading} (sound : IsOf source r)
    (fed : ∀ line ∈ lines, IsLineOf source line) : IsOf source (lines.foldl Reading.step r) := by
  induction lines generalizing r with
  | nil => exact sound
  | cons line lines ih =>
    apply ih (sound.step (fed line List.mem_cons_self))
    intro other member
    exact fed other (List.mem_cons_of_mem _ member)

theorem isOf_initial (source : Text) : IsOf source .initial := by
  refine ⟨by simp [initial], by simp [initial], List.nil_infix, trimmed_nil, by simp [initial]⟩

end Reading

theorem lineContent_infix_self (line : Text) : lineContent line <:+: line := by
  unfold lineContent
  apply (trim_infix_self _).trans
  cases starred : afterStart? ['*'] (trim line) with
  | none => exact trim_infix_self line
  | some rest =>
    have whole := afterStart?_eq_some_iff.1 starred
    apply List.IsInfix.trans _ (trim_infix_self line)
    rw [whole]
    exact (List.suffix_append ..).isInfix

theorem isLineOf_of_mem_paragraph {source line : Text} (member : line ∈ (paragraph source).map lineContent) :
    IsLineOf source line := by
  obtain ⟨row, listed, rfl⟩ := List.mem_map.1 member
  have inside := lineContent_infix_self row
  refine ⟨inside.trans (infix_of_mem_paragraph listed), trimmed_trim _, ?_⟩
  intro feed
  exact lineFeed_not_mem_of_mem_paragraph listed (inside.subset feed)

theorem exists_reading (block : Text) :
    ∃ r : Reading, r.IsOf (body block) ∧ read block = ⟨['\n'].intercalate r.description, r.date⟩ :=
  ⟨_, (Reading.isOf_initial _).foldl_step fun _ => isLineOf_of_mem_paragraph, rfl⟩

theorem body_written (inner : Text) : body (Block.written inner) = inner := by
  simp [body, Block.written]

end ApexTidy.Tags
