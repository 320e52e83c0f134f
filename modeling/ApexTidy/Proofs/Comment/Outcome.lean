import ApexTidy.Proofs.Comment.Declared
import ApexTidy.Proofs.Comment.Slicing

/-!
What planning and documenting can answer. A selection is refused for the first of its ends that is no
place of the document, there is nothing to do where it declares nothing, and in every other case there is
a plan and the document takes it. Only then does the document change.
-/

namespace ApexTidy

open Text

/-- The positions of a text: on each line a column up to its length, and one below the last line. -/
def Text.Addresses (t : Text) (p : Position) : Prop :=
  (∃ line, t.lines[p.line]? = some line ∧ p.column ≤ line.raw.length) ∨ p = ⟨t.lines.length, 0⟩

theorem Line.before?_isSome_iff {lines : List Line} {p : Position} :
    (before? lines p).isSome = true ↔
      (∃ line, lines[p.line]? = some line ∧ p.column ≤ line.raw.length) ∨ p = ⟨lines.length, 0⟩ := by
  obtain ⟨row, column⟩ := p
  induction lines generalizing row with
  | nil => simp [before?]
  | cons line rest ih =>
    cases row with
    | zero => simp [before?]
    | succ row => simpa [before?] using ih row

namespace Text

theorem before_eq_error_iff {t : Text} {p : Position} {fault : Fault} :
    t.before p = .error fault ↔ ¬ t.Addresses p ∧ fault = .noSuchPosition p := by
  rw [Addresses, ← Line.before?_isSome_iff, before]
  cases Line.before? (lines t) p with
  | none => simp [eq_comm]
  | some head => simp

theorem addresses_of_before {t head : Text} {p : Position} (found : t.before p = .ok head) :
    t.Addresses p := by
  rw [Addresses, ← Line.before?_isSome_iff, before_eq_ok_iff.1 found]
  rfl

theorem offset_of_not_addresses {t : Text} {p : Position} (absent : ¬ t.Addresses p) :
    t.offset p = .error (.noSuchPosition p) := by
  rw [offset, before_eq_error_iff.2 ⟨absent, rfl⟩]
  rfl

theorem exists_offset_of_addresses {t : Text} {p : Position} (place : t.Addresses p) :
    ∃ n, t.offset p = .ok n := by
  rw [offset]
  cases found : t.before p with
  | error fault => exact absurd place (before_eq_error_iff.1 found).1
  | ok head => exact ⟨size head, rfl⟩

end Text

namespace Selection

theorem region_eq_error_iff {s : Selection} {t : Text} {fault : Fault} :
    s.region t = .error fault ↔
      ¬ t.Addresses s.start ∧ fault = .noSuchPosition s.start ∨
        t.Addresses s.start ∧ ¬ t.Addresses s.stop ∧ fault = .noSuchPosition s.stop := by
  rw [region]
  cases first : t.before s.start with
  | error refusal =>
    obtain ⟨absent, rfl⟩ := before_eq_error_iff.1 first
    simp [bind, Except.bind, absent, eq_comm]
  | ok head =>
    have place := addresses_of_before first
    cases second : t.before s.stop with
    | error refusal =>
      obtain ⟨absent, rfl⟩ := before_eq_error_iff.1 second
      simp [bind, Except.bind, place, absent, eq_comm]
    | ok upToStop =>
      simp [bind, Except.bind, pure, Except.pure, place, addresses_of_before second]

theorem offset_of_region {s : Selection} {t : Text} {r : Region} (covered : s.region t = .ok r) :
    t.offset s.start = .ok r.start ∧ t.offset s.stop = .ok r.stop := by
  obtain ⟨start, stop, -⟩ := region_eq_ok_iff.1 covered
  exact ⟨offset_eq_ok_iff.2 ⟨_, start, rfl⟩, offset_eq_ok_iff.2 ⟨_, stop, size_append ..⟩⟩

end Selection

def Text.planByOffsets? (t : Text) (selection : Selection) (options : CommentOptions) :
    Option (Except Fault (Option CommentPlan)) :=
  if selection.isEmpty then some (.ok none)
  else
    match t.offset selection.start with
    | .error fault => some (.error fault)
    | .ok start =>
      match t.offset selection.stop with
      | .error fault => some (.error fault)
      | .ok stop => (CommentPlan.between? options t start stop).map .ok

section

variable (t : Text) (selection : Selection) (options : CommentOptions)

/-- No cut that planning makes can fail. -/
theorem Text.planByOffsets?_eq_some :
    t.planByOffsets? selection options = some (t.planComment selection options) := by
  rw [planByOffsets?, planComment]
  split
  · rfl
  · cases covered : selection.region t with
    | error fault =>
      rcases Selection.region_eq_error_iff.1 covered with ⟨absent, rfl⟩ | ⟨place, absent, rfl⟩
      · rw [offset_of_not_addresses absent]
        rfl
      · obtain ⟨start, found⟩ := exists_offset_of_addresses place
        rw [found]
        dsimp only
        rw [offset_of_not_addresses absent]
        rfl
    | ok r =>
      obtain ⟨start, stop⟩ := Selection.offset_of_region covered
      rw [start]
      dsimp only
      rw [stop]
      dsimp only
      rw [← Selection.whole_of_region covered, CommentPlan.between?_whole]
      rfl

theorem Text.planComment_eq_error_iff {t : Text} {selection : Selection} {options : CommentOptions}
    {fault : Fault} :
    t.planComment selection options = .error fault ↔
      selection.isEmpty = false ∧ selection.region t = .error fault := by
  rw [planComment]
  cases selection.isEmpty with
  | true => simp
  | false =>
    cases selection.region t with
    | error refusal => simp [Except.map]
    | ok r => simp [Except.map]

theorem Text.planComment_eq_ok_none_iff {t : Text} {selection : Selection} {options : CommentOptions} :
    t.planComment selection options = .ok none ↔
      selection.isEmpty = true ∨ ∃ r, selection.region t = .ok r ∧
        (isBlank r.inside = true ∨
          options.modifiers.classify (Block.undocumented r.inside) = .unrecognized) := by
  rw [planComment]
  cases selection.isEmpty with
  | true => simp
  | false =>
    cases selection.region t with
    | error refusal => simp [Except.map]
    | ok r => simp [Except.map, CommentPlan.ofRegion?_eq_none_iff]

theorem Selection.exists_region_iff {s : Selection} {t : Text} {P : Text → Prop} :
    (∃ r, s.region t = .ok r ∧ P r.inside) ↔
      ∃ start stop selected, t.offset s.start = .ok start ∧ t.offset s.stop = .ok stop ∧
        t.slice? start stop = some selected ∧ P selected := by
  constructor
  · intro found
    obtain ⟨r, covered, holds⟩ := found
    obtain ⟨start, stop⟩ := offset_of_region covered
    refine ⟨r.start, r.stop, r.inside, start, stop, ?_, holds⟩
    rw [← whole_of_region covered]
    exact slice?_whole r
  · intro found
    obtain ⟨start, stop, selected, first, last, cut, holds⟩ := found
    cases covered : s.region t with
    | error fault =>
      rcases region_eq_error_iff.1 covered with ⟨absent, -⟩ | ⟨-, absent, -⟩
      · rw [offset_of_not_addresses absent] at first
        cases first
      · rw [offset_of_not_addresses absent] at last
        cases last
    | ok r =>
      obtain ⟨start', stop'⟩ := offset_of_region covered
      obtain rfl := whole_of_region covered
      rw [start', Except.ok.injEq] at first
      rw [stop', Except.ok.injEq] at last
      rw [← first, ← last, slice?_whole, Option.some.injEq] at cut
      exact ⟨r, rfl, cut ▸ holds⟩

theorem Document.comment_cases :
    (∃ fault, t.planComment selection options = .error fault ∧
        comment ⟨t⟩ selection options = ⟨.error fault, ⟨t⟩⟩) ∨
      (t.planComment selection options = .ok none ∧
        comment ⟨t⟩ selection options = ⟨.ok false, ⟨t⟩⟩) ∨
      ∃ plan text, t.planComment selection options = .ok (some plan) ∧
        t.applyEdits plan.edits = .ok text ∧ comment ⟨t⟩ selection options = ⟨.ok true, ⟨text⟩⟩ := by
  cases planned : t.planComment selection options with
  | error fault => exact Or.inl ⟨fault, rfl, by simp only [comment, planned]⟩
  | ok result =>
    cases result with
    | none => exact Or.inr (Or.inl ⟨rfl, by simp only [comment, planned]⟩)
    | some plan =>
      obtain ⟨r, covered, follows⟩ := Text.planComment_eq_ok_some_iff.1 planned
      obtain ⟨region, new, -, -, -, applied⟩ := follows.exists_replacement
      rw [Selection.whole_of_region covered] at applied
      refine Or.inr (Or.inr ⟨plan, _, rfl, applied, ?_⟩)
      simp only [comment, planned, apply, applied]
      rfl

/-- What planning answers, and that a document changes only where there is a plan. -/
theorem Document.comment_outcome :
    t.planByOffsets? selection options = some (t.planComment selection options) ∧
      (∀ fault, t.planComment selection options = .error fault ↔
        selection.isEmpty = false ∧
          (¬ t.Addresses selection.start ∧ fault = .noSuchPosition selection.start ∨
            t.Addresses selection.start ∧ ¬ t.Addresses selection.stop ∧
              fault = .noSuchPosition selection.stop)) ∧
      (t.planComment selection options = .ok none ↔
        selection.isEmpty = true ∨
          ∃ start stop selected, t.offset selection.start = .ok start ∧
            t.offset selection.stop = .ok stop ∧ t.slice? start stop = some selected ∧
            (isBlank selected = true ∨
              options.modifiers.classify (Block.undocumented selected) = .unrecognized)) ∧
      ((∃ fault, t.planComment selection options = .error fault ∧
          comment ⟨t⟩ selection options = ⟨.error fault, ⟨t⟩⟩) ∨
        (t.planComment selection options = .ok none ∧
          comment ⟨t⟩ selection options = ⟨.ok false, ⟨t⟩⟩) ∨
        ∃ plan text, t.planComment selection options = .ok (some plan) ∧
          t.applyEdits plan.edits = .ok text ∧
          comment ⟨t⟩ selection options = ⟨.ok true, ⟨text⟩⟩) := by
  refine ⟨Text.planByOffsets?_eq_some t selection options, ?_, ?_, comment_cases t selection options⟩
  · intro fault
    rw [Text.planComment_eq_error_iff, Selection.region_eq_error_iff]
  · rw [Text.planComment_eq_ok_none_iff]
    apply or_congr_right
    exact Selection.exists_region_iff (P := fun selected => isBlank selected = true ∨
      options.modifiers.classify (Block.undocumented selected) = .unrecognized)

end

end ApexTidy
