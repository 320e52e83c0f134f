import ApexTidy.Comment.Basic
import ApexTidy.Proofs.Comment.Extent

/-!
The text of a block. It is one pair of marks around lines that are indented alike, and whatever stands
between the marks was put there from the description or the method: the lines themselves bring no mark
with them, and escaping neither makes nor hides one.
-/

namespace ApexTidy

open Text

namespace Style

theorem isSpecial_eq_false_of_isSpace {c : Char} (blank : isSpace c = true) : isSpecial c = false := by
  have apart : spaces.all (fun d => !isSpecial d) = true := by decide
  have found := List.all_eq_true.1 apart c (isSpace_iff.1 blank)
  simpa using found

theorem mem_of_mem_escape {style : Style} {t : Text} {c : Char} (plain : isSpecial c = false)
    (member : c ∈ style.escape t) : c ∈ t := by
  cases style with
  | text => exact member
  | snippet =>
    replace member : c ∈ escapeSnippet t := member
    induction t with
    | nil => exact member
    | cons d t ih =>
      rw [escapeSnippet] at member
      split at member
      · rcases List.mem_cons.1 member with rfl | rest
        · exact absurd plain (by decide)
        · rcases List.mem_cons.1 rest with rfl | later
          · exact List.mem_cons_self
          · exact List.mem_cons_of_mem _ (ih later)
      · rcases List.mem_cons.1 member with rfl | later
        · exact List.mem_cons_self
        · exact List.mem_cons_of_mem _ (ih later)

end Style

namespace Tags

/-- Marks are made of slashes and asterisks. -/
structure IsMark (mark : Text) : Prop where
  slash : '/' ∈ mark
  only : ∀ c ∈ mark, c = '/' ∨ c = '*'

def HeldIn (mark : Text) (lines : List Text) : Prop := ∃ line ∈ lines, mark <:+: line

@[simp] theorem heldIn_nil (mark : Text) : ¬ HeldIn mark [] := by simp [HeldIn]

@[simp] theorem heldIn_cons {mark line : Text} {lines : List Text} :
    HeldIn mark (line :: lines) ↔ mark <:+: line ∨ HeldIn mark lines := by simp [HeldIn]

@[simp] theorem heldIn_append {mark : Text} {a b : List Text} :
    HeldIn mark (a ++ b) ↔ HeldIn mark a ∨ HeldIn mark b := by
  induction a with
  | nil => simp
  | cons line a ih => simp [ih, or_assoc]

theorem heldIn_map_iff {mark : Text} {f : Text → Text} (kept : ∀ line, mark <:+: f line ↔ mark <:+: line)
    (lines : List Text) : HeldIn mark (lines.map f) ↔ HeldIn mark lines := by
  induction lines with
  | nil => rfl
  | cons line lines ih => rw [List.map_cons, heldIn_cons, heldIn_cons, kept, ih]

theorem isMark_blockOpen : IsMark blockOpen := ⟨by decide, by simp [blockOpen]⟩

theorem isMark_blockClose : IsMark blockClose := ⟨by decide, by simp [blockClose]⟩

section

variable {mark : Text} (isMark : IsMark mark)

include isMark

theorem IsMark.ne_nil : mark ≠ [] := List.ne_nil_of_mem isMark.slash

theorem IsMark.not_infix_of_not_mem {t : Text} (absent : '/' ∉ t) : ¬ mark <:+: t := by
  intro inside
  exact absent (inside.subset isMark.slash)

theorem IsMark.not_mem_of_isSpace {c : Char} (blank : isSpace c = true) : c ∉ mark := by
  intro member
  rcases isMark.only c member with rfl | rfl
  · exact absurd blank (by decide)
  · exact absurd blank (by decide)

theorem IsMark.not_mem_of_isSpecial {c : Char} (special : Style.isSpecial c = true) : c ∉ mark := by
  intro member
  rcases isMark.only c member with rfl | rfl
  · exact absurd special (by decide)
  · exact absurd special (by decide)

theorem IsMark.infix_blanks_iff {a t : Text} (blank : isBlank a = true) :
    mark <:+: a ++ t ↔ mark <:+: t := by
  rw [isBlank_iff] at blank
  induction a with
  | nil => rfl
  | cons c a ih =>
    have absent := isMark.not_mem_of_isSpace (blank c List.mem_cons_self)
    rw [List.cons_append, infix_cons_iff_of_absent absent]
    exact ih fun other member => blank other (List.mem_cons_of_mem _ member)

theorem IsMark.infix_append_blanks_iff {a b t : Text} (blank : isBlank b = true) (nonempty : b ≠ []) :
    mark <:+: a ++ b ++ t ↔ mark <:+: a ∨ mark <:+: t := by
  obtain ⟨c, rest, rfl⟩ := List.exists_cons_of_ne_nil nonempty
  rw [isBlank_iff] at blank
  have absent := isMark.not_mem_of_isSpace (blank c List.mem_cons_self)
  have blanks : isBlank rest = true := by
    rw [isBlank_iff]
    exact fun other member => blank other (List.mem_cons_of_mem _ member)
  rw [List.append_assoc, List.cons_append, infix_append_cons_iff absent, isMark.infix_blanks_iff blanks]

theorem IsMark.infix_label_iff {label t : Text} (absent : '/' ∉ label)
    (spaced : label.getLast? = some ' ') : mark <:+: label ++ t ↔ mark <:+: t := by
  obtain ⟨word, rfl⟩ := List.getLast?_eq_some_iff.1 spaced
  rw [isMark.infix_append_blanks_iff (by decide) (by decide)]
  constructor
  · intro inside
    rcases inside with left | right
    · exact absurd (List.infix_append_of_infix_left left) (isMark.not_infix_of_not_mem absent)
    · exact right
  · exact Or.inr

theorem IsMark.infix_lines_iff {ending : Text} (blank : isBlank ending = true) (nonempty : ending ≠ [])
    (lines : List Text) : mark <:+: DocComment.toText ending lines ↔ HeldIn mark lines := by
  induction lines with
  | nil => simp [DocComment.toText, isMark.ne_nil]
  | cons line lines ih =>
    have cut : DocComment.toText ending (line :: lines) =
        line ++ ending ++ DocComment.toText ending lines := rfl
    rw [cut, isMark.infix_append_blanks_iff blank nonempty, ih, heldIn_cons]

theorem IsMark.prefix_escapeSnippet_iff {t : Text} {part : Text} (plain : ∀ c ∈ part, c ∈ mark) :
    part <+: Style.escapeSnippet t ↔ part <+: t := by
  induction part generalizing t with
  | nil => simp
  | cons m part ih =>
    have solid : Style.isSpecial m = false := by
      rw [← Bool.not_eq_true]
      exact fun special => isMark.not_mem_of_isSpecial special (plain m List.mem_cons_self)
    have rest := fun t => @ih t fun c member => plain c (List.mem_cons_of_mem _ member)
    cases t with
    | nil => rfl
    | cons c t =>
      rw [Style.escapeSnippet]
      split
      · rename_i special
        rw [List.cons_prefix_cons, List.cons_prefix_cons]
        constructor
        · intro start
          rw [start.1] at solid
          exact absurd solid (by decide)
        · intro start
          rw [start.1, special] at solid
          cases solid
      · rw [List.cons_prefix_cons, List.cons_prefix_cons, rest]

theorem IsMark.infix_escape_iff (style : Style) (t : Text) :
    mark <:+: style.escape t ↔ mark <:+: t := by
  cases style with
  | text => rfl
  | snippet =>
    show mark <:+: Style.escapeSnippet t ↔ _
    induction t with
    | nil => rfl
    | cons c t ih =>
      rw [List.infix_cons_iff, ← isMark.prefix_escapeSnippet_iff (fun _ => id), Style.escapeSnippet]
      split
      · rename_i special
        have slash := isMark.not_mem_of_isSpecial (show Style.isSpecial '\\' = true by decide)
        have absent := isMark.not_mem_of_isSpecial special
        rw [infix_cons_iff_of_absent slash, infix_cons_iff_of_absent absent, ih]
        constructor
        · exact Or.inr
        · intro inside
          rcases inside with start | later
          · have whole := start.isInfix
            rwa [infix_cons_iff_of_absent slash, infix_cons_iff_of_absent absent, ih] at whole
          · exact later
      · rw [List.infix_cons_iff, ih]

end

end Tags

def MethodTags.Holds (m : MethodTags) (mark : Text) : Prop :=
  (∃ p ∈ m.parameters.toList, mark <:+: p.name ∨ mark <:+: p.type)
    ∨ mark <:+: m.date ∨ mark <:+: m.returnType

namespace DocComment

open Tags

def middle (c : DocComment) (style : Style) : List Text :=
  tagged (c.descriptionLines style) ++ [" *".toList] ++ (match c.method with
    | some m => methodLines m style.escape
    | none => [])

def inner (c : DocComment) (style : Style) (ending : Text) : Text :=
  ending ++ toText ending ((c.middle style).map (c.indent ++ ·)) ++ (c.indent ++ [' '])

theorem toText_append (ending : Text) (a b : List Text) :
    toText ending (a ++ b) = toText ending a ++ toText ending b := List.flatMap_append

theorem toText_singleton (ending line : Text) : toText ending [line] = line ++ ending := by
  simp [toText]

theorem tagged_cases {lines : List Text} {line : Text} (member : line ∈ tagged lines) :
    ∃ t ∈ lines, line = " * @description ".toList ++ t ∨ line = " * ".toList ++ t := by
  cases lines with
  | nil => cases member
  | cons first rest =>
    rcases List.mem_cons.1 member with rfl | later
    · exact ⟨first, List.mem_cons_self, Or.inl rfl⟩
    · obtain ⟨next, listed, rfl⟩ := List.mem_map.1 later
      exact ⟨next, List.mem_cons_of_mem _ listed, Or.inr rfl⟩

theorem methodLines_cases {m : MethodTags} {escape : Text → Text} {line : Text}
    (member : line ∈ methodLines m escape) :
    (∃ p ∈ m.parameters.toList,
        line = " * @param ".toList ++ escape p.name ++ ([' '] ++ escape p.type)) ∨
      line = " * @Date ".toList ++ escape m.date ∨ line = " * @return ".toList ++ escape m.returnType := by
  rcases List.mem_append.1 member with listed | rest
  · obtain ⟨p, inside, rfl⟩ := List.mem_map.1 listed
    exact Or.inl ⟨p, inside, rfl⟩
  · rcases List.mem_cons.1 rest with date | last
    · exact Or.inr (Or.inl date)
    · exact Or.inr (Or.inr (List.mem_singleton.1 last))

theorem lines_eq (c : DocComment) (style : Style) :
    c.lines style = (blockOpen :: c.middle style ++ [' ' :: blockClose]).map (c.indent ++ ·) := by
  simp only [lines, List.append_assoc, middle, List.cons_append]
  rfl

theorem toText_lines (c : DocComment) (style : Style) (ending : Text) :
    toText ending (c.lines style) = c.indent ++ Block.written (c.inner style ending) ++ ending := by
  have parts : c.lines style = [c.indent ++ blockOpen] ++ (c.middle style).map (c.indent ++ ·)
      ++ [c.indent ++ ' ' :: blockClose] := by
    rw [lines_eq, List.map_append]
    rfl
  rw [parts, toText_append, toText_append, toText_singleton, toText_singleton, inner, Block.written]
  simp

section

variable {mark : Text} (isMark : IsMark mark)

include isMark

theorem heldIn_tagged_iff (lines : List Text) : HeldIn mark (tagged lines) ↔ HeldIn mark lines := by
  cases lines with
  | nil => rfl
  | cons first rest =>
    rw [tagged, heldIn_cons, heldIn_cons, isMark.infix_label_iff (by decide) (by decide),
      heldIn_map_iff fun line => isMark.infix_label_iff (by decide) (by decide)]

theorem heldIn_methodLines_iff (m : MethodTags) (style : Style) :
    HeldIn mark (methodLines m style.escape) ↔ m.Holds mark := by
  have space : ' ' ∉ mark := isMark.not_mem_of_isSpace (by decide)
  have parameter : ∀ p : Parameter,
      mark <:+: " * @param ".toList ++ style.escape p.name ++ ' ' :: style.escape p.type ↔
        mark <:+: p.name ∨ mark <:+: p.type := by
    intro p
    rw [infix_append_cons_iff space, isMark.infix_label_iff (by decide) (by decide),
      isMark.infix_escape_iff, isMark.infix_escape_iff]
  have listed : HeldIn mark (m.parameters.toList.map fun p =>
      " * @param ".toList ++ style.escape p.name ++ ' ' :: style.escape p.type) ↔
        ∃ p ∈ m.parameters.toList, mark <:+: p.name ∨ mark <:+: p.type := by
    induction m.parameters.toList with
    | nil => simp
    | cons p rest ih => rw [List.map_cons, heldIn_cons, ih, parameter]; simp
  rw [methodLines, heldIn_append, listed, heldIn_cons, heldIn_cons,
    isMark.infix_label_iff (by decide) (by decide), isMark.infix_label_iff (by decide) (by decide),
    isMark.infix_escape_iff, isMark.infix_escape_iff, MethodTags.Holds]
  simp

theorem heldIn_descriptionLines_iff (c : DocComment) (style : Style) :
    HeldIn mark (c.descriptionLines style) ↔
      ∃ d, c.description = some d ∧ HeldIn mark (paragraph d) := by
  unfold descriptionLines
  cases c.description with
  | none =>
    have absent : ¬ mark <:+: style.missing := by
      apply isMark.not_infix_of_not_mem
      cases style with
      | text => decide
      | snippet => decide
    simp [absent]
  | some d =>
    dsimp only
    rw [heldIn_map_iff (isMark.infix_escape_iff style)]
    simp

/-- Between the marks of a block, a mark can only stand in one of the lines. -/
theorem infix_inner_iff_heldIn {c : DocComment} {ending : Text} (indent : isBlank c.indent = true)
    (blank : isBlank ending = true) (nonempty : ending ≠ []) (style : Style) :
    mark <:+: c.inner style ending ↔ HeldIn mark (c.middle style) := by
  have last : isBlank (c.indent ++ [' ']) = true := by
    rw [isBlank_append, indent]
    rfl
  rw [inner, List.append_assoc, isMark.infix_blanks_iff blank, ← List.append_nil (c.indent ++ [' ']),
    ← List.append_assoc, isMark.infix_append_blanks_iff last (by simp), List.infix_nil,
    or_iff_left isMark.ne_nil, isMark.infix_lines_iff blank nonempty,
    heldIn_map_iff fun line => isMark.infix_blanks_iff indent]

theorem infix_inner_iff {c : DocComment} {ending : Text} (indent : isBlank c.indent = true)
    (blank : isBlank ending = true) (nonempty : ending ≠ []) (style : Style) :
    mark <:+: c.inner style ending ↔
      (∃ d, c.description = some d ∧ HeldIn mark (paragraph d))
        ∨ ∃ m, c.method = some m ∧ m.Holds mark := by
  have star : ¬ HeldIn mark [" *".toList] := by
    rw [heldIn_cons, or_iff_left (heldIn_nil mark)]
    exact isMark.not_infix_of_not_mem (by decide)
  have method : HeldIn mark (match c.method with
      | some m => methodLines m style.escape
      | none => []) ↔ ∃ m, c.method = some m ∧ m.Holds mark := by
    cases c.method with
    | none => simp
    | some m => simp [heldIn_methodLines_iff isMark]
  rw [infix_inner_iff_heldIn isMark indent blank nonempty, middle, heldIn_append, heldIn_append,
    or_iff_left star, heldIn_tagged_iff isMark, heldIn_descriptionLines_iff isMark, method]

end

end DocComment

end ApexTidy
