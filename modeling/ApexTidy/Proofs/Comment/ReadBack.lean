import ApexTidy.Proofs.Comment.Keeping
import ApexTidy.Proofs.Comment.Layout

/-!
Reading back a block that was written as plain text. Its rows are read as the lines that were written,
the lines give back the description and the date, and these make up the same block again.
-/

namespace ApexTidy

open Text Tags

namespace Tags

theorem lineContent_eq_of_trim {a b : Text} (same : trim a = trim b) : lineContent a = lineContent b := by
  rw [lineContent, lineContent, same]

theorem lineContent_of_isBlank {t : Text} (blank : isBlank t = true) : lineContent t = [] := by
  rw [lineContent, trim_of_isBlank blank]
  rfl

theorem lineContent_star (t : Text) : lineContent (' ' :: '*' :: t) = trim t := by
  have trimmed : trim (' ' :: '*' :: t) = '*' :: trimEnd t := by
    rw [← List.singleton_append, trim_append_of_isBlank_left (by decide), trim,
      trimStart_eq_self (by rfl), ← List.singleton_append, trimEnd_append (by decide)]
    rfl
  rw [lineContent, trimmed]
  show trim (trimEnd t) = trim t
  exact trim_trimEnd t

theorem lineContent_starred {t : Text} (trimmed : Trimmed t) : lineContent (" * ".toList ++ t) = t := by
  rw [show " * ".toList ++ t = ' ' :: '*' :: ([' '] ++ t) from rfl, lineContent_star,
    trim_append_of_isBlank_left (by decide), trimmed.trim_eq]

theorem lineContent_label {label t : Text} (start : StartsFull label) (nonempty : label ≠ [])
    (trimmed : Trimmed t) (full : t ≠ []) :
    lineContent (" * ".toList ++ (label ++ t)) = label ++ t :=
  lineContent_starred ⟨start.append nonempty t, trimmed.stop.append full label⟩

theorem afterTag?_append {tag label rest : Text} (same : sameFolded tag label = true)
    (apart : rest.head?.any isWord = false) : afterTag? tag (label ++ rest) = some (trim rest) := by
  have lengths : tag.length = label.length := by
    have folded := congrArg List.length (eq_of_beq same)
    simpa using folded
  rw [afterTag?, splitFolded?, lengths, List.take_left, List.drop_left, if_pos same]
  simp [apart]

theorem afterTag?_eq_none {tag head rest : Text} (fits : head.length ≤ tag.length)
    (differs : sameFolded (tag.take head.length) head = false) : afterTag? tag (head ++ rest) = none := by
  have other : sameFolded tag ((head ++ rest).take tag.length) = false := by
    rw [sameFolded, beq_eq_false_iff_ne] at differs ⊢
    intro same
    apply differs
    have cut := congrArg (List.take head.length) same
    rwa [← List.map_take, ← List.map_take, List.take_take, Nat.min_eq_left fits, List.take_left] at cut
  rw [afterTag?, splitFolded?, other]
  rfl

namespace Reading

theorem step_nil_initial : initial.step [] = initial := by decide

/-- An empty line ends a description that has begun. -/
theorem step_nil {r : Reading} (begun : r.description ≠ []) :
    r.step [] = { r with inDescription := false } := by
  have none : r.description.isEmpty = false := List.isEmpty_eq_false_iff.2 begun
  have first : afterTag? descriptionTag [] = Option.none := by decide
  have second : afterTag? dateTag [] = Option.none := by decide
  rw [step, first, second]
  simp [isTagLine, none]

theorem step_description (r : Reading) {first : Text} (trimmed : Trimmed first) (full : first ≠ []) :
    r.step ("@description ".toList ++ first) = { r with description := [first], inDescription := true } := by
  have said : afterTag? descriptionTag ("@description ".toList ++ first) = some first := by
    have space : isWord ' ' = false := by decide
    have label : "@description ".toList = descriptionTag ++ [' '] := by decide
    rw [label, List.append_assoc, afterTag?_append (by decide) (by exact space),
      trim_append_of_isBlank_left (by decide), trimmed.trim_eq]
  rw [step, said]
  simp [full]

theorem step_date (r : Reading) {date : Text} (trimmed : Trimmed date) :
    r.step ("@Date ".toList ++ date) = { r with date := date, inDescription := false } := by
  have other : afterTag? descriptionTag ("@Date ".toList ++ date) = none :=
    @afterTag?_eq_none _ "@Da".toList ("te ".toList ++ date) (by decide) (by decide)
  have said : afterTag? dateTag ("@Date ".toList ++ date) = some date := by
    have space : isWord ' ' = false := by decide
    have label : "@Date ".toList = "@Date".toList ++ [' '] := by decide
    rw [label, List.append_assoc, afterTag?_append (by decide) (by exact space),
      trim_append_of_isBlank_left (by decide), trimmed.trim_eq]
  rw [step, other, said]

/-- The tags of parameters and of the result end a description and are passed over. -/
theorem step_tag (r : Reading) {c : Char} (other : c = 'p' ∨ c = 'r') (rest : Text) :
    r.step ('@' :: c :: rest) = { r with inDescription := false } := by
  have first : afterTag? descriptionTag ('@' :: c :: rest) = none := by
    rcases other with rfl | rfl
    · exact @afterTag?_eq_none _ "@p".toList rest (by decide) (by decide)
    · exact @afterTag?_eq_none _ "@r".toList rest (by decide) (by decide)
  have second : afterTag? dateTag ('@' :: c :: rest) = none := by
    rcases other with rfl | rfl
    · exact @afterTag?_eq_none _ "@p".toList rest (by decide) (by decide)
    · exact @afterTag?_eq_none _ "@r".toList rest (by decide) (by decide)
  have tagged : isTagLine ('@' :: c :: rest) = true := by
    show isWord c = true
    rcases other with rfl | rfl
    · decide
    · decide
  rw [step, first, second]
  simp [tagged]

theorem step_goesOn {r : Reading} {line : Text} (reading : r.inDescription = true) (goes : GoesOn line)
    (full : line ≠ []) : r.step line = { r with description := r.description ++ [line] } := by
  have some : line.isEmpty = false := List.isEmpty_eq_false_iff.2 full
  rw [step, goes.description, goes.date]
  simp [goes.tag, some, reading]

theorem foldl_step_goesOn {r : Reading} {lines : List Text} (reading : r.inDescription = true)
    (goes : ∀ line ∈ lines, GoesOn line ∧ line ≠ []) :
    lines.foldl step r = { r with description := r.description ++ lines } := by
  induction lines generalizing r with
  | nil => simp
  | cons line lines ih =>
    have first := goes line List.mem_cons_self
    have others := @ih { r with description := r.description ++ [line] } reading
      fun other member => goes other (List.mem_cons_of_mem _ member)
    rw [List.foldl_cons, step_goesOn reading first.1 first.2, others]
    simp

theorem foldl_step_tags {r : Reading} {lines : List Text} (ended : r.inDescription = false)
    (tags : ∀ line ∈ lines, ∃ c rest, (c = 'p' ∨ c = 'r') ∧ line = '@' :: c :: rest) :
    lines.foldl step r = r := by
  induction lines with
  | nil => rfl
  | cons line lines ih =>
    obtain ⟨c, rest, other, rfl⟩ := tags line List.mem_cons_self
    have same : { r with inDescription := false } = r := by rw [← ended]
    rw [List.foldl_cons, step_tag r other, same]
    exact ih fun later member => tags later (List.mem_cons_of_mem _ member)

end Reading

theorem lineContent_tag {c : Char} (solid : isSpace c = false) (rest : Text) :
    lineContent (" * @".toList ++ c :: rest) = '@' :: c :: trimEnd rest := by
  have ends : EndsFull ['@', c] := solid
  rw [show " * @".toList ++ c :: rest = ' ' :: '*' :: ([' '] ++ (['@', c] ++ rest)) from rfl,
    lineContent_star, trim_append_of_isBlank_left (by decide), trim,
    trimStart_eq_self (show StartsFull (['@', c] ++ rest) by rfl), trimEnd_append ends]
  rfl

end Tags

namespace DocComment

structure IsShown (lines : List Text) : Prop where
  nonempty : lines ≠ []
  full : ∀ line ∈ lines, line ≠ [] ∧ Trimmed line
  single : ∀ line ∈ lines, '\n' ∉ line
  later : ∀ line ∈ lines.tail, GoesOn line

theorem descriptionLines_of_none {c : DocComment} (missing : c.description = none) :
    c.descriptionLines .text = [Style.placeholder] := by
  rw [descriptionLines, missing]
  rfl

theorem IsDescription.descriptionLines_eq {source d : Text} {lines : List Text}
    (description : IsDescription source d lines) {c : DocComment} (described : c.description = some d) :
    c.descriptionLines .text = lines := by
  rw [descriptionLines, described]
  show (paragraph d).map id = lines
  rw [List.map_id, description.paragraph_eq]

theorem IsFrom.isShown {source : Text} {c : DocComment} (sound : c.IsFrom source) :
    IsShown (c.descriptionLines .text) := by
  cases described : c.description with
  | none =>
    rw [descriptionLines_of_none described]
    exact ⟨by decide, by decide, by decide, by simp⟩
  | some d =>
    obtain ⟨lines, description⟩ := sound.description d described
    rw [description.descriptionLines_eq described]
    refine ⟨description.nonempty, ?_, ?_, description.later⟩
    · intro line member
      have found := description.full line member
      exact ⟨found.1, found.2.trimmed⟩
    · intro line member
      exact (description.full line member).2.single

theorem IsShown.foldl_tagged {lines : List Text} (shown : IsShown lines) :
    ((tagged lines).map lineContent).foldl Reading.step .initial = ⟨lines, [], true⟩ := by
  obtain ⟨nonempty, full, -, later⟩ := shown
  obtain ⟨first, rest, rfl⟩ := List.exists_cons_of_ne_nil nonempty
  have head := full first List.mem_cons_self
  have opened : lineContent (" * @description ".toList ++ first) = "@description ".toList ++ first := by
    simpa using @lineContent_label "@description ".toList first (by decide) (by decide) head.2 head.1
  have others : (rest.map (" * ".toList ++ ·)).map lineContent = rest := by
    rw [List.map_map]
    conv => rhs; rw [← List.map_id rest]
    apply List.map_congr_left
    intro line member
    exact lineContent_starred (full line (List.mem_cons_of_mem _ member)).2
  rw [tagged, List.map_cons, opened, others, List.foldl_cons,
    Reading.step_description _ head.2 head.1, Reading.foldl_step_goesOn rfl]
  · rfl
  · intro line member
    exact ⟨later line member, (full line (List.mem_cons_of_mem _ member)).1⟩

theorem foldl_methodLines {m : MethodTags} (trimmed : Trimmed m.date) (dated : m.date ≠ []) {r : Reading}
    (ended : r.inDescription = false) :
    ((methodLines m id).map lineContent).foldl Reading.step r = { r with date := m.date } := by
  have parameters : ∀ line ∈ (m.parameters.toList.map fun p =>
      " * @param ".toList ++ id p.name ++ ' ' :: id p.type).map lineContent,
      ∃ c rest, (c = 'p' ∨ c = 'r') ∧ line = '@' :: c :: rest := by
    intro line member
    rw [List.map_map, List.mem_map] at member
    obtain ⟨p, -, rfl⟩ := member
    refine ⟨'p', trimEnd ("aram ".toList ++ (p.name ++ ' ' :: p.type)), Or.inl rfl, ?_⟩
    simpa using @lineContent_tag 'p' (by decide) ("aram ".toList ++ (p.name ++ ' ' :: p.type))
  have date : lineContent (" * @Date ".toList ++ m.date) = "@Date ".toList ++ m.date := by
    simpa using @lineContent_label "@Date ".toList m.date (by decide) (by decide) trimmed dated
  have returned : lineContent (" * @return ".toList ++ m.returnType) =
      '@' :: 'r' :: trimEnd ("eturn ".toList ++ m.returnType) := by
    simpa using @lineContent_tag 'r' (by decide) ("eturn ".toList ++ m.returnType)
  rw [methodLines, List.map_append, List.foldl_append, Reading.foldl_step_tags ended parameters]
  simp only [List.map_cons, List.map_nil, List.foldl_cons, List.foldl_nil, id, date, returned]
  rw [Reading.step_date _ trimmed, Reading.step_tag _ (Or.inr rfl)]
  simp [ended]

/-- The rows between the marks of a block are its lines, if each of them takes one row. -/
theorem map_lineContent_inner {c : DocComment} {style : Style} {returned : Text}
    (indent : isBlank c.indent = true) (row : '\n' ∉ c.indent) (blank : isBlank returned = true)
    (clean : '\n' ∉ returned) (single : ∀ line ∈ c.middle style, '\n' ∉ line) :
    (paragraph (c.inner style (returned ++ ['\n']))).map lineContent =
      [[]] ++ (c.middle style).map lineContent ++ [[]] := by
  let rows := ([] :: (c.middle style).map (c.indent ++ ·)).map (· ++ returned)
  have last : isBlank (c.indent ++ [' ']) = true := by
    rw [isBlank_append, indent]
    rfl
  have shape : c.inner style (returned ++ ['\n']) =
      rows.flatMap (· ++ ['\n']) ++ (c.indent ++ [' ']) := by
    simp [rows, inner, toText, List.flatMap_map]
  have apart : ∀ line ∈ rows, '\n' ∉ line := by
    intro line member
    obtain ⟨start, listed, rfl⟩ := List.mem_map.1 member
    rw [List.mem_append, not_or]
    refine ⟨?_, clean⟩
    rcases List.mem_cons.1 listed with rfl | later
    · exact List.not_mem_nil
    · obtain ⟨shown, inside, rfl⟩ := List.mem_map.1 later
      rw [List.mem_append, not_or]
      exact ⟨row, single shown inside⟩
  have ends : '\n' ∉ c.indent ++ [' '] := by
    rw [List.mem_append, not_or]
    exact ⟨row, by decide⟩
  have cut : (c.inner style (returned ++ ['\n'])).splitOn '\n' = rows ++ [c.indent ++ [' ']] := by
    rw [shape, splitOn_flatMap apart, List.splitOn_eq_singleton ends]
  have content : ∀ line, lineContent (withoutReturn (c.indent ++ (line ++ returned))) =
      lineContent line := by
    intro line
    apply lineContent_eq_of_trim
    rw [trim_withoutReturn, trim_append_of_isBlank_left indent, trim_append_of_isBlank_right _ blank]
  have first : lineContent (withoutReturn returned) = [] := by
    rw [lineContent_eq_of_trim (trim_withoutReturn returned), lineContent_of_isBlank blank]
  rw [paragraph, cut, List.dropLast_concat, List.getLast?_concat]
  simp [rows, content, first, lineContent_of_isBlank last]

theorem IsFrom.not_mem_descriptionLines {source : Text} {c : DocComment} (sound : c.IsFrom source)
    {blank : Char} (isBlank : isSpace blank = true) (other : blank ≠ ' ')
    (lines : ∀ line, IsLineOf source line → blank ∉ line) (style : Style) :
    ∀ line ∈ c.descriptionLines style, blank ∉ line := by
  intro line member
  rcases sound.descriptionLines_cases member with rfl | ⟨said, rfl, -, part⟩
  · have spaced : IsSpaced style.missing := by
      cases style with
      | text => decide
      | snippet => decide
    exact spaced.not_mem isBlank other
  · intro shown
    exact lines said part (Style.mem_of_mem_escape (Style.isSpecial_eq_false_of_isSpace isBlank) shown)

theorem not_mem_methodLines {source : Text} {m : MethodTags} (told : m.IsFrom source)
    {blank : Char} (isBlank : isSpace blank = true) (other : blank ≠ ' ')
    (lines : ∀ line, IsLineOf source line → blank ∉ line) (style : Style) :
    ∀ line ∈ methodLines m style.escape, blank ∉ line := by
  have absent : ∀ {t : Text}, IsSpaced t → blank ∉ t := fun spaced => spaced.not_mem isBlank other
  have escaped : ∀ {t : Text}, blank ∉ t → blank ∉ style.escape t := by
    intro t outside shown
    exact outside (Style.mem_of_mem_escape (Style.isSpecial_eq_false_of_isSpace isBlank) shown)
  obtain ⟨s, shape, parameters, returnType⟩ := told.signature
  intro line member
  rcases methodLines_cases member with ⟨p, inside, rfl⟩ | rfl | rfl
  · rw [parameters] at inside
    have name : blank ∉ p.name := by
      intro within
      rw [shape.words p inside blank within] at isBlank
      cases isBlank
    have type : blank ∉ p.type := absent (shape.types p inside)
    exact List.not_mem_append (List.not_mem_append (absent (by decide)) (escaped name))
      (List.not_mem_append (absent (by decide)) (escaped type))
  · have date : blank ∉ m.date := by
      rcases told.date with line | ⟨today, written⟩
      · exact lines m.date line
      · rw [written]
        exact today.not_mem_format (Date.isDateChar_eq_false_of_isSpace isBlank other)
    exact List.not_mem_append (absent (by decide)) (escaped date)
  · have type : blank ∉ m.returnType := by
      rw [returnType]
      exact absent shape.returned
    exact List.not_mem_append (absent (by decide)) (escaped type)

theorem IsFrom.not_mem_middle {source : Text} {c : DocComment} (sound : c.IsFrom source) {blank : Char}
    (isBlank : isSpace blank = true) (other : blank ≠ ' ')
    (lines : ∀ line, IsLineOf source line → blank ∉ line) (style : Style) :
    ∀ line ∈ c.middle style, blank ∉ line := by
  have absent : ∀ {t : Text}, IsSpaced t → blank ∉ t := fun spaced => spaced.not_mem isBlank other
  intro line member
  rw [middle, List.mem_append, List.mem_append] at member
  rcases member with (tag | star) | method
  · obtain ⟨t, listed, shape⟩ := tagged_cases tag
    have described := sound.not_mem_descriptionLines isBlank other lines style t listed
    have labels : blank ∉ " * @description ".toList ∧ blank ∉ " * ".toList :=
      ⟨absent (by decide), absent (by decide)⟩
    rcases shape with rfl | rfl
    · exact List.not_mem_append labels.1 described
    · exact List.not_mem_append labels.2 described
  · rw [List.mem_singleton.1 star]
    exact absent (by decide)
  · cases tells : c.method with
    | none => simp [tells] at method
    | some m =>
      rw [tells] at method
      exact not_mem_methodLines (sound.method m tells) isBlank other lines style line method

theorem IsFrom.not_mem_lines {source : Text} {c : DocComment} (sound : c.IsFrom source) {blank : Char}
    (isBlank : isSpace blank = true) (other : blank ≠ ' ')
    (lines : ∀ line, IsLineOf source line → blank ∉ line) (indent : blank ∉ c.indent) (style : Style) :
    ∀ line ∈ c.lines style, blank ∉ line := by
  have opening : IsSpaced blockOpen := by decide
  have closing : IsSpaced (' ' :: blockClose) := by decide
  intro line member
  rw [lines_eq, List.mem_map] at member
  obtain ⟨text, listed, rfl⟩ := member
  rw [List.mem_append, not_or]
  refine ⟨indent, ?_⟩
  simp only [List.cons_append, List.mem_cons, List.mem_append, List.not_mem_nil, or_false] at listed
  rcases listed with rfl | middle | rfl
  · exact opening.not_mem isBlank other
  · exact sound.not_mem_middle isBlank other lines style text middle
  · exact closing.not_mem isBlank other

theorem IsFrom.single {source : Text} {c : DocComment} (sound : c.IsFrom source) (style : Style) :
    ∀ line ∈ c.middle style, '\n' ∉ line :=
  sound.not_mem_middle (by decide) (by decide) (fun _ part => part.single) style

theorem IsFrom.read_written {source : Text} {c : DocComment} (sound : c.IsFrom source)
    (indent : isBlank c.indent = true) (row : '\n' ∉ c.indent) (t : Text) :
    Tags.read (Block.written (c.inner .text (CommentPlan.ending t))) =
      ⟨['\n'].intercalate (c.descriptionLines .text), (c.method.map (·.date)).getD []⟩ := by
  obtain ⟨returned, ending, blank, clean⟩ := CommentPlan.exists_ending t
  have shown := sound.isShown
  have star : lineContent " *".toList = [] := by decide
  rw [Tags.read, body_written, ending, map_lineContent_inner indent row blank clean (sound.single .text), middle]
  simp only [List.map_append, List.map_cons, List.map_nil, List.foldl_append, List.foldl_cons,
    List.foldl_nil, Reading.step_nil_initial, shown.foldl_tagged, star]
  rw [@Reading.step_nil ⟨c.descriptionLines .text, [], true⟩ shown.nonempty]
  cases tells : c.method with
  | none =>
    dsimp only
    rw [List.map_nil, List.foldl_nil, Reading.step_nil shown.nonempty]
    rfl
  | some m =>
    have told := sound.method m tells
    dsimp only
    rw [show methodLines m Style.text.escape = methodLines m id from rfl,
      foldl_methodLines told.trimmed_date told.dated rfl, Reading.step_nil shown.nonempty]
    rfl

theorem IsFrom.merge_read {source : Text} {c : DocComment} (sound : c.IsFrom source)
    (indent : isBlank c.indent = true) (row : '\n' ∉ c.indent) {declaration : Declaration}
    {previous : Option Tags} {today : Text}
    (merged : merge declaration previous c.indent today = some c) (t again : Text) :
    merge declaration (some (Tags.read (Block.written (c.inner .text (CommentPlan.ending t)))))
      c.indent again = some c := by
  obtain ⟨-, -, told⟩ := merge_eq_some_iff.1 merged
  rw [merge_eq_some_iff, sound.read_written indent row]
  have shown := sound.isShown
  refine ⟨rfl, ?_, ?_⟩
  · rw [keptDescription_some (trimmed_intercalate shown.full)]
    cases described : c.description with
    | none => simp [descriptionLines_of_none described]
    | some d =>
      obtain ⟨lines, description⟩ := sound.description d described
      have full : d ≠ [] := by
        intro none
        have empty := description.paragraph_eq
        rw [none] at empty
        exact description.nonempty empty.symm
      rw [description.descriptionLines_eq described, ← description.joined, if_neg]
      simp [full, description.other]
  · cases tells : c.method with
    | none =>
      rw [tells] at told
      cases told
      exact .ofClass
    | some m =>
      have method := sound.method m tells
      rw [tells] at told
      rw [Option.map_some, Option.getD_some, keptDate_some method.trimmed_date, if_neg method.dated]
      cases told with
      | method s => exact .method s

theorem trim_toText_lines {c : DocComment} {style : Style} {ending : Text}
    (indent : isBlank c.indent = true) (blank : isBlank ending = true) :
    trim (toText ending (c.lines style)) = Block.written (c.inner style ending) := by
  have marks : Trimmed (Block.written (c.inner style ending)) :=
    Trimmed.append (by decide) (by decide) (by decide) (by decide) _
  rw [toText_lines, trim_append_of_isBlank_right _ blank, trim_append_of_isBlank_left indent,
    marks.trim_eq]

theorem intercalate_descriptionLines {c : DocComment} {source : Text} {reading : Reading}
    (sound : reading.IsOf source)
    (kept : c.description = keptDescription (some ⟨['\n'].intercalate reading.description, reading.date⟩)) :
    ['\n'].intercalate (c.descriptionLines .text) =
      if ['\n'].intercalate reading.description = [] then Style.placeholder
      else ['\n'].intercalate reading.description := by
  have trimmed : Trimmed (['\n'].intercalate reading.description) :=
    trimmed_intercalate fun line member =>
      ⟨(sound.lines line member).1, (sound.lines line member).2.trimmed⟩
  cases described : c.description with
  | none =>
    rw [descriptionLines_of_none described, List.intercalate_singleton]
    rw [described, keptDescription_some trimmed] at kept
    split at kept
    · rename_i missing
      rcases missing with none | same
      · rw [if_pos none]
      · rw [same, ite_self]
    · cases kept
  | some d =>
    rw [described] at kept
    have description := isDescription_of_keptDescription sound kept.symm
    have nonempty : ['\n'].intercalate reading.description ≠ [] := by
      intro none
      rw [keptDescription_some trimmed, none] at kept
      simp at kept
    rw [description.descriptionLines_eq described, if_neg nonempty]

theorem exists_merge {declaration : Declaration} (declares : declaration ≠ .unrecognized)
    (previous : Option Tags) (indent today : Text) :
    ∃ c, merge declaration previous indent today = some c := by
  cases declaration with
  | unrecognized => exact absurd rfl declares
  | ofClass => exact ⟨_, rfl⟩
  | method s => exact ⟨_, rfl⟩

end DocComment

/-- What a block says once it has been written anew for a declaration. -/
def Tags.renewed (tags : Tags) (declaration : Declaration) (today : Text) : Tags where
  description := if tags.description = [] then Style.placeholder else tags.description
  date := match declaration with
    | .method _ => if tags.date = [] then today else tags.date
    | .ofClass | .unrecognized => []

/-- Reading a block that was written from what was read gives the same again; what was missing is
there. -/
theorem Tags.read_rendered {m : Modifiers} {text indent ending : Text}
    (declares : m.classify text ≠ .unrecognized) (blank : isBlank indent = true) (row : '\n' ∉ indent)
    (ends : ending = ['\n'] ∨ ending = ['\r', '\n']) (block : Text) (today : Date) :
    ∃ c, DocComment.merge (m.classify text) (some (read block)) indent today.format = some c ∧
      read (trim (DocComment.toText ending (c.lines .text))) =
        (read block).renewed (m.classify text) today.format := by
  obtain ⟨c, merged⟩ := DocComment.exists_merge declares (some (read block)) indent today.format
  refine ⟨c, merged, ?_⟩
  obtain ⟨reading, sound, tells⟩ := exists_reading block
  rw [tells] at merged ⊢
  have written := DocComment.isFrom_of_merge sound merged
  obtain ⟨rfl, description, told⟩ := DocComment.merge_eq_some_iff.1 merged
  have used : ending = CommentPlan.ending ending := by
    rcases ends with rfl | rfl
    · decide
    · decide
  have spaces : isBlank ending = true := by
    rw [used]
    exact CommentPlan.isBlank_ending ending
  have date : (c.method.map (·.date)).getD [] =
      (renewed ⟨['\n'].intercalate reading.description, reading.date⟩ (m.classify text)
        today.format).date := by
    rw [DocComment.keptDate_some sound.date.trimmed] at told
    generalize c.method = method at told
    generalize m.classify text = declaration at told
    cases told with
    | ofClass => rfl
    | method s => rfl
  rw [DocComment.trim_toText_lines blank spaces, used, written.read_written blank row,
    DocComment.intercalate_descriptionLines sound description, date]
  rfl

theorem Tags.read_rendered_two_lines :
    let declaration := Modifiers.standard.classify "void f() \x7b \x7d".toList
    let block : Text := "/** @DESCRIPTION é\n ** two\r\n * @date 1 May */".toList
    let today : Date := ⟨2024, 3, 5, by decide⟩
    declaration ≠ .unrecognized ∧
      ∃ c, DocComment.merge declaration (some (read block)) ['\t'] today.format = some c ∧
        read (trim (DocComment.toText "\r\n".toList (c.lines .text))) =
          ⟨"é\n* two".toList, "1 May".toList⟩ := by
  intro declaration block today
  have declares : declaration ≠ .unrecognized := by decide +kernel
  obtain ⟨c, merged, same⟩ :=
    @read_rendered .standard "void f() \x7b \x7d".toList ['\t'] "\r\n".toList declares (by decide)
      (by decide) (by decide) block today
  exact ⟨declares, c, merged, same.trans (by decide +kernel)⟩

end ApexTidy
