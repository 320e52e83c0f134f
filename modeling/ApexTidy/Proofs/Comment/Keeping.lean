import ApexTidy.Proofs.Calendar.Format
import ApexTidy.Proofs.Comment.Planning
import ApexTidy.Proofs.Comment.Reading
import ApexTidy.Proofs.Declaration.Shape

/-!
Where the content of a new block comes from. The description and the date are lines of the old block,
or the date is a new one, and the rest is the signature's.
-/

namespace ApexTidy

open Text Tags

/-- A description in lines of the text, of which only the first may start with a tag. -/
structure DocComment.IsDescription (source d : Text) (lines : List Text) : Prop where
  joined : d = ['\n'].intercalate lines
  nonempty : lines ≠ []
  full : ∀ line ∈ lines, line ≠ [] ∧ IsLineOf source line
  later : ∀ line ∈ lines.tail, GoesOn line
  other : d ≠ Style.placeholder

/-- What a block says of a method comes from the text, from the calendar and from a signature. -/
structure MethodTags.IsFrom (source : Text) (m : MethodTags) : Prop where
  dated : m.date ≠ []
  date : IsLineOf source m.date ∨ ∃ today : Date, m.date = today.format
  signature : ∃ s : Signature, s.OnOneLine ∧ m.parameters = s.parameters ∧ m.returnType = s.returnType

structure DocComment.IsFrom (source : Text) (c : DocComment) : Prop where
  description : ∀ d, c.description = some d → ∃ lines, IsDescription source d lines
  method : ∀ m, c.method = some m → m.IsFrom source

theorem DocComment.IsDescription.paragraph_eq {source d : Text} {lines : List Text}
    (described : IsDescription source d lines) : paragraph d = lines := by
  rw [described.joined]
  apply paragraph_intercalate
  · intro line member
    have found := described.full line member
    exact ⟨found.1, found.2.trimmed.stop⟩
  · intro line member
    exact (described.full line member).2.single

theorem MethodTags.IsFrom.trimmed_date {source : Text} {m : MethodTags} (sound : m.IsFrom source) :
    Trimmed m.date := by
  rcases sound.date with line | ⟨today, written⟩
  · exact line.trimmed
  · rw [written]
    exact today.trimmed_format

theorem MethodTags.IsFrom.lineFeed_not_mem_date {source : Text} {m : MethodTags} (sound : m.IsFrom source) :
    '\n' ∉ m.date := by
  rcases sound.date with line | ⟨today, written⟩
  · exact line.single
  · rw [written]
    exact today.not_mem_format (by decide)

/-- A line of the description as a style shows it is a line of the text, or what stands for none. -/
theorem DocComment.IsFrom.descriptionLines_cases {source : Text} {c : DocComment}
    (sound : c.IsFrom source) {style : Style} {line : Text} (member : line ∈ c.descriptionLines style) :
    line = style.missing ∨ ∃ said, line = style.escape said ∧ said ≠ [] ∧ IsLineOf source said := by
  unfold descriptionLines at member
  cases described : c.description with
  | none =>
    rw [described, List.mem_singleton] at member
    exact Or.inl member
  | some d =>
    obtain ⟨lines, description⟩ := sound.description d described
    rw [described] at member
    dsimp only at member
    rw [description.paragraph_eq] at member
    obtain ⟨said, listed, rfl⟩ := List.mem_map.1 member
    have found := description.full said listed
    exact Or.inr ⟨said, rfl, found.1, found.2⟩

namespace DocComment

theorem keptDescription_some {d : Text} (trimmed : Trimmed d) (date : Text) :
    keptDescription (some ⟨d, date⟩) = if d = [] ∨ d = Style.placeholder then none else some d := by
  rw [keptDescription, Option.map_some, trimmed.trim_eq, Option.filter_some]
  by_cases none : d = []
  · simp [none]
  · by_cases same : d = Style.placeholder
    · simp [same]
    · simp [none, same]

theorem keptDate_some {date : Text} (trimmed : Trimmed date) (d today : Text) :
    keptDate (some ⟨d, date⟩) today = if date = [] then today else date := by
  rw [keptDate, Option.map_some, trimmed.trim_eq, Option.filter_some]
  by_cases none : date = []
  · simp [none]
  · simp [none]

theorem isDescription_of_keptDescription {source d : Text} {reading : Reading}
    (sound : reading.IsOf source)
    (kept : keptDescription (some ⟨['\n'].intercalate reading.description, reading.date⟩) = some d) :
    IsDescription source d reading.description := by
  have trimmed : Trimmed (['\n'].intercalate reading.description) := trimmed_intercalate fun line member =>
    ⟨(sound.lines line member).1, (sound.lines line member).2.trimmed⟩
  rw [keptDescription_some trimmed, Option.ite_none_left_eq_some, not_or, Option.some.injEq] at kept
  obtain ⟨⟨nonempty, other⟩, rfl⟩ := kept
  refine ⟨rfl, ?_, sound.lines, sound.later, other⟩
  intro none
  rw [none] at nonempty
  exact nonempty rfl

theorem Tells.exists_signature {m : Modifiers} {text date : Text} {tags : MethodTags}
    (told : Tells date (m.classify text) (some tags)) :
    tags.date = date ∧ ∃ s : Signature, s.OnOneLine ∧ tags.parameters = s.parameters ∧
      tags.returnType = s.returnType := by
  cases declares : m.classify text with
  | unrecognized =>
    rw [declares] at told
    cases told
  | ofClass =>
    rw [declares] at told
    cases told
  | method s =>
    have shape := (Modifiers.canonical_of_classify declares).onOneLine
    rw [declares] at told
    cases told
    exact ⟨rfl, s, shape, rfl, rfl⟩

section

variable {m : Modifiers} {text source indent : Text} {today : Date} {c : DocComment}

theorem isFrom_of_merge_none (merged : merge (m.classify text) none indent today.format = some c) :
    c.IsFrom [] := by
  obtain ⟨-, description, told⟩ := merge_eq_some_iff.1 merged
  constructor
  · intro d some
    rw [description] at some
    cases some
  · intro tags tells
    rw [tells] at told
    obtain ⟨date, signature⟩ := told.exists_signature
    refine ⟨?_, Or.inr ⟨today, date⟩, signature⟩
    rw [date]
    exact today.format_ne_nil

theorem isFrom_of_merge {reading : Reading} (sound : reading.IsOf source)
    (merged : merge (m.classify text)
      (some ⟨['\n'].intercalate reading.description, reading.date⟩) indent today.format = some c) :
    c.IsFrom source := by
  obtain ⟨-, description, told⟩ := merge_eq_some_iff.1 merged
  constructor
  · intro d some
    rw [description] at some
    exact ⟨_, isDescription_of_keptDescription sound some⟩
  · intro tags tells
    rw [tells] at told
    obtain ⟨date, signature⟩ := told.exists_signature
    rw [keptDate_some sound.date.trimmed] at date
    split at date
    · refine ⟨?_, Or.inr ⟨today, date⟩, signature⟩
      rw [date]
      exact today.format_ne_nil
    · rename_i nonempty
      exact ⟨date ▸ nonempty, Or.inl (date ▸ sound.date), signature⟩

end

end DocComment

theorem ExistingComment.exists_reading {r : Region} {old : ExistingComment} (found : of? r = some old) :
    ∃ source reading, Reading.IsOf source reading ∧
      old.tags = ⟨['\n'].intercalate reading.description, reading.date⟩ ∧
      source <:+: r.whole ∧ ¬ blockClose <:+: source := by
  obtain ⟨block, located, rfl⟩ := exists_of_of? found
  obtain ⟨source, holds, clean⟩ := Block.exists_body_of_locate located
  obtain ⟨reading, sound, tells⟩ := Tags.exists_reading block.region.inside
  rw [holds, body_written] at sound
  refine ⟨source, reading, sound, tells, ?_, clean⟩
  rw [← Block.whole_of_locate located, Region.whole, holds, Block.written]
  exact ⟨block.region.before ++ blockOpen, blockClose ++ block.region.after, by simp⟩

theorem CommentPlan.Follows.exists_source {options : CommentOptions} {r : Region} {plan : CommentPlan}
    (follows : Follows options r plan) :
    ∃ source, source <:+: r.whole ∧ ¬ blockClose <:+: source ∧ plan.comment.IsFrom source := by
  have merged := follows.comment
  rw [follows.declaration] at merged
  cases previous : plan.previous with
  | none =>
    rw [previous] at merged
    exact ⟨[], List.nil_infix, by decide, DocComment.isFrom_of_merge_none merged⟩
  | some old =>
    obtain ⟨source, reading, sound, tells, inside, clean⟩ :=
      ExistingComment.exists_reading (follows.previous.symm.trans previous)
    rw [previous, Option.map_some, tells] at merged
    exact ⟨source, inside, clean, DocComment.isFrom_of_merge sound merged⟩

end ApexTidy
