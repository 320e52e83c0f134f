import ApexTidy.Proofs.Comment.Layout
import Mathlib.Data.List.Forall2

/-!
What an editor makes of a snippet. It takes a backslash in front of a special character away, and puts the
text of a tab stop in the place of the stop. Escaped text comes out as it was, whatever it holds and
whatever follows it, so a block in snippet style comes out as the block in text style, and nothing in it
but the missing description is taken for a stop.
-/

namespace ApexTidy

open Text

namespace Style

/-- A character of a snippet, with the backslash in front of it or by itself. -/
inductive Sign where
  | escaped (c : Char)
  | bare (c : Char)
deriving DecidableEq

namespace Sign

def char : Sign → Char
  | escaped c => c
  | bare c => c

/-- The text of the tab stop that the signs start with, up to the first bare brace, and what follows. -/
def tabStop? : List Sign → Option (List Sign × List Sign)
  | bare '$' :: bare '{' :: bare '1' :: bare ':' :: rest =>
    match rest.dropWhile (· ≠ bare '}') with
    | _ :: after => some (rest.takeWhile (· ≠ bare '}'), after)
    | [] => none
  | _ => none

theorem length_tabStop? {signs inside after : List Sign} (found : tabStop? signs = some (inside, after)) :
    after.length < signs.length := by
  unfold tabStop? at found
  split at found
  · rename_i rest
    split at found
    · rename_i brace behind ended
      cases found
      have fits := (List.dropWhile_suffix (l := rest) (· ≠ bare '}')).length_le
      rw [ended] at fits
      simp only [List.length_cons] at fits ⊢
      omega
    · cases found
  · cases found

def inserted (signs : List Sign) : Text :=
  match signs with
  | [] => []
  | sign :: rest =>
    match _found : tabStop? (sign :: rest) with
    | some (inside, after) => inside.map char ++ inserted after
    | none => sign.char :: inserted rest
termination_by signs.length
decreasing_by
  · exact length_tabStop? _found
  · simp

theorem inserted_nil : inserted [] = [] := by rw [inserted]

theorem inserted_of_some {signs inside after : List Sign} (found : tabStop? signs = some (inside, after)) :
    inserted signs = inside.map char ++ inserted after := by
  cases signs with
  | nil => cases found
  | cons sign rest =>
    rw [inserted]
    split
    · rename_i found'
      rw [found] at found'
      cases found'
      rfl
    · rename_i none
      rw [found] at none
      cases none

theorem inserted_of_none {sign : Sign} {rest : List Sign} (none : tabStop? (sign :: rest) = none) :
    inserted (sign :: rest) = sign.char :: inserted rest := by
  rw [inserted]
  split
  · rename_i found
    rw [none] at found
    cases found
  · rfl

theorem inserted_append {a : List Sign} (plain : bare '$' ∉ a) (b : List Sign) :
    inserted (a ++ b) = a.map char ++ inserted b := by
  induction a with
  | nil => rfl
  | cons sign a ih =>
    rw [List.mem_cons, not_or] at plain
    rw [List.cons_append, inserted_of_none, ih plain.2, List.map_cons, List.cons_append]
    unfold tabStop?
    split
    · rename_i same
      obtain ⟨rfl, -⟩ := List.cons_eq_cons.1 same
      exact absurd rfl plain.1
    · rfl

theorem inserted_of_plain {a : List Sign} (plain : bare '$' ∉ a) : inserted a = a.map char := by
  have whole := inserted_append plain []
  rwa [List.append_nil, inserted_nil, List.append_nil] at whole

theorem inserted_tabStop {inside : List Sign} (closed : bare '}' ∉ inside) (rest : List Sign) :
    inserted ("$\x7b1:".toList.map bare ++ (inside ++ bare '}' :: rest)) = inside.map char ++ inserted rest := by
  apply inserted_of_some
  have other : ∀ sign ∈ inside, decide (sign ≠ bare '}') = true := by
    intro sign member
    rw [decide_eq_true_eq]
    rintro rfl
    exact closed member
  show tabStop? (bare '$' :: bare '{' :: bare '1' :: bare ':' :: (inside ++ bare '}' :: rest)) = _
  rw [tabStop?, List.dropWhile_append_of_pos other, List.takeWhile_append_of_pos other]
  simp

end Sign

/-- A backslash belongs to a dollar sign, a closing brace or a backslash that follows it. -/
def signs : Text → List Sign
  | [] => []
  | [c] => [.bare c]
  | b :: c :: t =>
    if b = '\\' ∧ (c = '$' ∨ c = '}' ∨ c = '\\') then .escaped c :: signs t else .bare b :: signs (c :: t)

def expand (line : Text) : Text := Sign.inserted (signs line)

theorem isSpecial_iff {c : Char} : isSpecial c = true ↔ c = '$' ∨ c = '}' ∨ c = '\\' := by
  simp [isSpecial, or_assoc]

theorem signs_cons {c : Char} (plain : c ≠ '\\') (t : Text) : signs (c :: t) = .bare c :: signs t := by
  cases t with
  | nil => rfl
  | cons d t =>
    rw [signs, if_neg]
    exact fun same => plain same.1

theorem signs_backslash {c : Char} (special : isSpecial c = true) (t : Text) :
    signs ('\\' :: c :: t) = .escaped c :: signs t := by
  rw [signs, if_pos ⟨rfl, isSpecial_iff.1 special⟩]

theorem signs_append_of_plain {a : Text} (plain : '\\' ∉ a) (b : Text) :
    signs (a ++ b) = a.map .bare ++ signs b := by
  induction a with
  | nil => rfl
  | cons c a ih =>
    rw [List.mem_cons, not_or] at plain
    rw [List.cons_append, signs_cons (Ne.symm plain.1), ih plain.2, List.map_cons, List.cons_append]

theorem map_char_bare (t : Text) : (t.map Sign.bare).map Sign.char = t := by
  rw [List.map_map]
  exact List.map_id t

def IsPlain (t : Text) : Prop := ∀ c ∈ t, isSpecial c = false

instance (t : Text) : Decidable (IsPlain t) := List.decidableBAll (fun c => isSpecial c = false) t

theorem isPlain_of_isBlank {t : Text} (blank : isBlank t = true) : IsPlain t := by
  intro c member
  exact isSpecial_eq_false_of_isSpace (isBlank_iff.1 blank c member)

section

variable {label : Text} (plain : IsPlain label)

include plain

theorem bare_not_mem_label {c : Char} (special : isSpecial c = true) : Sign.bare c ∉ label.map .bare := by
  intro member
  obtain ⟨d, inside, same⟩ := List.mem_map.1 member
  cases same
  rw [plain c inside] at special
  cases special

theorem signs_label (rest : Text) : signs (label ++ rest) = label.map .bare ++ signs rest := by
  apply signs_append_of_plain
  intro member
  exact absurd (plain '\\' member) (by decide)

theorem signs_label_missing :
    signs (label ++ snippet.missing) = label.map .bare ++ snippet.missing.map .bare := by
  have whole := signs_append_of_plain (show '\\' ∉ snippet.missing by decide) []
  rw [List.append_nil, signs, List.append_nil] at whole
  rw [signs_label plain, whole]

theorem expand_label_missing : expand (label ++ snippet.missing) = label ++ placeholder := by
  have closed : Sign.bare '}' ∉ placeholder.map .bare := by decide
  have stop : Sign.inserted (snippet.missing.map .bare) = (placeholder.map .bare).map Sign.char := by
    have whole := Sign.inserted_tabStop closed []
    rwa [Sign.inserted_nil, List.append_nil] at whole
  calc expand (label ++ snippet.missing)
      = Sign.inserted (label.map .bare ++ snippet.missing.map .bare) := by
        rw [expand, signs_label_missing plain]
    _ = (label.map .bare).map Sign.char ++ Sign.inserted (snippet.missing.map .bare) :=
        Sign.inserted_append (bare_not_mem_label plain (by decide)) _
    _ = label ++ placeholder := by rw [stop, map_char_bare, map_char_bare]

theorem signs_label_missing_eq_iff (left right : List Sign) :
    signs (label ++ snippet.missing) = left ++ .bare '$' :: right ↔
      left = label.map .bare ∧ .bare '$' :: right = snippet.missing.map .bare := by
  have stop : snippet.missing.map Sign.bare = .bare '$' :: (snippet.missing.drop 1).map .bare := rfl
  rw [signs_label_missing plain, stop]
  constructor
  · intro same
    have apart : Sign.bare '$' ∉ (snippet.missing.drop 1).map .bare := by decide
    obtain ⟨first, -, last⟩ :=
      (List.append_cons_inj_of_notMem (bare_not_mem_label plain (by decide)) apart).1 same
    exact ⟨first.symm, congrArg _ last.symm⟩
  · rintro ⟨rfl, same⟩
    rw [same]

end

def signOf (c : Char) : Sign := if isSpecial c then .escaped c else .bare c

theorem char_signOf (c : Char) : (signOf c).char = c := by
  unfold signOf
  split
  · rfl
  · rfl

theorem signOf_ne_bare {c d : Char} (special : isSpecial d = true) : signOf c ≠ .bare d := by
  unfold signOf
  split
  · exact Sign.noConfusion
  · rename_i plain
    rintro ⟨⟩
    exact plain special

theorem signs_escapeSnippet_append (t rest : Text) :
    signs (escapeSnippet t ++ rest) = t.map signOf ++ signs rest := by
  induction t with
  | nil => rfl
  | cons c t ih =>
    rw [escapeSnippet, List.map_cons, signOf]
    split
    · rename_i special
      rw [List.cons_append, List.cons_append, signs_backslash special, ih, List.cons_append]
    · rename_i plain
      have other : c ≠ '\\' := by
        rintro rfl
        exact plain (by decide)
      rw [List.cons_append, signs_cons other, ih, List.cons_append]

/-- A piece of a snippet comes out as `said`, whatever follows it, and starts no tab stop. -/
def Shows (shown said : Text) : Prop :=
  ∃ read : List Sign, (∀ rest, signs (shown ++ rest) = read ++ signs rest) ∧ read.map Sign.char = said ∧
    .bare '$' ∉ read

theorem shows_escape (t : Text) : Shows (escapeSnippet t) t := by
  refine ⟨t.map signOf, signs_escapeSnippet_append t, ?_, ?_⟩
  · rw [List.map_map]
    exact (List.map_congr_left fun c _ => char_signOf c).trans (List.map_id t)
  · intro member
    obtain ⟨c, -, same⟩ := List.mem_map.1 member
    exact signOf_ne_bare (by decide) same

theorem shows_of_plain {t : Text} (plain : IsPlain t) : Shows t t :=
  ⟨t.map .bare, signs_label plain, map_char_bare t, bare_not_mem_label plain (by decide)⟩

theorem Shows.append {a b x y : Text} (first : Shows a x) (second : Shows b y) : Shows (a ++ b) (x ++ y) := by
  obtain ⟨left, reads, rfl, plain⟩ := first
  obtain ⟨right, goesOn, rfl, bare⟩ := second
  refine ⟨left ++ right, ?_, List.map_append, List.not_mem_append plain bare⟩
  intro rest
  rw [List.append_assoc, reads, goesOn, List.append_assoc]

theorem Shows.bare_not_mem {shown said : Text} (faithful : Shows shown said) : .bare '$' ∉ signs shown := by
  obtain ⟨read, reads, -, plain⟩ := faithful
  have whole := reads []
  rw [List.append_nil] at whole
  rw [whole]
  exact List.not_mem_append plain (by simp [signs])

theorem Shows.expand_eq {shown said : Text} (faithful : Shows shown said) : expand shown = said := by
  obtain ⟨read, reads, rfl, plain⟩ := faithful
  have whole := reads []
  rw [List.append_nil, signs, List.append_nil] at whole
  rw [expand, whole, Sign.inserted_of_plain plain]

section

variable {shown said : List Text} (lines : List.Forall₂ Shows shown said)

include lines

theorem map_expand_of_shows : shown.map expand = said := by
  induction lines with
  | nil => rfl
  | cons first _ ih => rw [List.map_cons, first.expand_eq, ih]

theorem bare_not_mem_of_shows {line : Text} (member : line ∈ shown) : .bare '$' ∉ signs line := by
  induction lines with
  | nil => cases member
  | cons first _ ih =>
    rcases List.mem_cons.1 member with rfl | later
    · exact first.bare_not_mem
    · exact ih later

end

end Style

namespace DocComment

open Style

def below (c : DocComment) (style : Style) : List Text :=
  " *".toList :: (match c.method with
    | some m => methodLines m style.escape
    | none => []) ++ [" */".toList]

theorem lines_eq_below (c : DocComment) (style : Style) :
    c.lines style =
      ("/**".toList :: tagged (c.descriptionLines style) ++ c.below style).map (c.indent ++ ·) := by
  simp only [lines, below, tagged, List.cons_append, List.map_cons, List.append_assoc]
  rfl

theorem forall₂_shows_label {label : Text} (plain : IsPlain label)
    {shown said : List Text} (lines : List.Forall₂ Shows shown said) :
    List.Forall₂ Shows (shown.map (label ++ ·)) (said.map (label ++ ·)) := by
  rw [List.forall₂_map_left_iff, List.forall₂_map_right_iff]
  exact lines.imp fun _ _ faithful => (shows_of_plain plain).append faithful

theorem forall₂_shows_tagged {shown said : List Text} (lines : List.Forall₂ Shows shown said) :
    List.Forall₂ Shows (tagged shown) (tagged said) := by
  cases lines with
  | nil => exact .nil
  | cons first rest =>
    exact .cons ((shows_of_plain (by decide)).append first) (forall₂_shows_label (by decide) rest)

theorem forall₂_shows_escape (lines : List Text) :
    List.Forall₂ Shows (lines.map escapeSnippet) lines := by
  rw [List.forall₂_map_left_iff, List.forall₂_same]
  exact fun line _ => shows_escape line

theorem forall₂_shows_methodLines (m : MethodTags) :
    List.Forall₂ Shows (methodLines m escapeSnippet) (methodLines m id) := by
  have parameter : ∀ p : Parameter,
      Shows (" * @param ".toList ++ escapeSnippet p.name ++ ' ' :: escapeSnippet p.type)
        (" * @param ".toList ++ p.name ++ ' ' :: p.type) := by
    intro p
    apply Shows.append
    · exact (shows_of_plain (by decide)).append (shows_escape p.name)
    · exact (@shows_of_plain [' '] (by decide)).append (shows_escape p.type)
  have date : Shows (" * @Date ".toList ++ escapeSnippet m.date) (" * @Date ".toList ++ m.date) :=
    (shows_of_plain (by decide)).append (shows_escape m.date)
  have returned : Shows (" * @return ".toList ++ escapeSnippet m.returnType)
      (" * @return ".toList ++ m.returnType) :=
    (shows_of_plain (by decide)).append (shows_escape m.returnType)
  apply List.rel_append
  · rw [List.forall₂_map_left_iff, List.forall₂_map_right_iff, List.forall₂_same]
    exact fun p _ => parameter p
  · exact .cons date (.cons returned .nil)

theorem forall₂_shows_below (c : DocComment) :
    List.Forall₂ Shows (c.below .snippet) (c.below .text) := by
  have star : Shows " *".toList " *".toList := shows_of_plain (by decide)
  have last : Shows " */".toList " */".toList := shows_of_plain (by decide)
  unfold below
  cases c.method with
  | none => exact .cons star (.cons last .nil)
  | some m => exact .cons star (List.rel_append (forall₂_shows_methodLines m) (.cons last .nil))

theorem forall₂_shows_indented {c : DocComment} (blank : isBlank c.indent = true)
    {shown said : List Text} (lines : List.Forall₂ Shows shown said) :
    List.Forall₂ Shows (shown.map (c.indent ++ ·)) (said.map (c.indent ++ ·)) :=
  forall₂_shows_label (isPlain_of_isBlank blank) lines

theorem forall₂_shows_lines {c : DocComment} (blank : isBlank c.indent = true) {d : Text}
    (described : c.description = some d) : List.Forall₂ Shows (c.lines .snippet) (c.lines .text) := by
  have description : List.Forall₂ Shows (c.descriptionLines .snippet) (c.descriptionLines .text) := by
    rw [descriptionLines, descriptionLines, described]
    have escaped := forall₂_shows_escape (paragraph d)
    rwa [← List.map_id (paragraph d), List.map_map] at escaped
  rw [lines_eq_below, lines_eq_below]
  apply forall₂_shows_indented blank
  have opened : Shows "/**".toList "/**".toList := shows_of_plain (by decide)
  exact .cons opened (List.rel_append (forall₂_shows_tagged description) (forall₂_shows_below c))

theorem lines_eq_of_missing {c : DocComment} (missing : c.description = none) (style : Style) :
    c.lines style =
      (c.indent ++ "/**".toList) :: (c.indent ++ " * @description ".toList ++ style.missing) ::
        (c.below style).map (c.indent ++ ·) := by
  rw [lines_eq_below, descriptionLines, missing, List.append_assoc]
  rfl

section

variable {c : DocComment} (blank : isBlank c.indent = true)

include blank

theorem isPlain_indent_append (label : Text) (plain : IsPlain label) : IsPlain (c.indent ++ label) := by
  intro d member
  rcases List.mem_append.1 member with first | last
  · exact isPlain_of_isBlank blank d first
  · exact plain d last

theorem map_expand_lines : (c.lines .snippet).map expand = c.lines .text := by
  cases described : c.description with
  | some d => exact map_expand_of_shows (forall₂_shows_lines blank described)
  | none =>
    have first := (shows_of_plain (isPlain_indent_append blank "/**".toList (by decide))).expand_eq
    have second := expand_label_missing
      (isPlain_indent_append blank " * @description ".toList (by decide))
    have others := map_expand_of_shows (forall₂_shows_indented blank (forall₂_shows_below c))
    rw [lines_eq_of_missing described, lines_eq_of_missing described, List.map_cons, List.map_cons, first,
      second, others]
    rfl

theorem bare_not_mem_of_getElem? {i : Nat} {line : Text} (found : (c.lines .snippet)[i]? = some line)
    (other : ¬ (c.description = none ∧ i = 1)) : .bare '$' ∉ signs line := by
  cases described : c.description with
  | some d => exact bare_not_mem_of_shows (forall₂_shows_lines blank described) (List.mem_of_getElem? found)
  | none =>
    rw [lines_eq_of_missing described] at found
    match i with
    | 0 =>
      cases found
      have plain := isPlain_indent_append blank "/**".toList (by decide)
      exact (shows_of_plain plain).bare_not_mem
    | 1 => exact absurd ⟨described, rfl⟩ other
    | i + 2 =>
      have below := forall₂_shows_indented blank (forall₂_shows_below c)
      exact bare_not_mem_of_shows below (List.mem_of_getElem? found)

/-- A stop is the placeholder of a missing description, and nothing else begins one. -/
theorem exists_stop_iff (i : Nat) (left right : List Sign) :
    (∃ line, (c.lines .snippet)[i]? = some line ∧ signs line = left ++ .bare '$' :: right) ↔
      c.description = none ∧ i = 1 ∧ left = (c.indent ++ " * @description ".toList).map .bare ∧
        .bare '$' :: right = snippet.missing.map .bare := by
  by_cases place : c.description = none ∧ i = 1
  · obtain ⟨missing, rfl⟩ := place
    have plain := isPlain_indent_append blank " * @description ".toList (by decide)
    have found : (c.lines .snippet)[1]? = some (c.indent ++ " * @description ".toList ++ snippet.missing) := by
      rw [lines_eq_of_missing missing]
      rfl
    simp only [found, Option.some.injEq, exists_eq_left', signs_label_missing_eq_iff plain, missing, true_and]
  · constructor
    · rintro ⟨line, found, same⟩
      have absent := bare_not_mem_of_getElem? blank found place
      rw [same] at absent
      exact absurd (List.mem_append_right left List.mem_cons_self) absent
    · rintro ⟨missing, second, -⟩
      exact absurd ⟨missing, second⟩ place

end

/-- A block in snippet style becomes the block in text style, line by line, and the only stop in it is the
missing description. -/
theorem lines_snippet (c : DocComment) (blank : isBlank c.indent = true) :
    (c.lines .snippet).length = (c.lines .text).length ∧
      (c.lines .snippet).map expand = c.lines .text ∧
      ∀ i left right,
        (∃ line, (c.lines .snippet)[i]? = some line ∧ signs line = left ++ .bare '$' :: right) ↔
          c.description = none ∧ i = 1 ∧ left = (c.indent ++ " * @description ".toList).map .bare ∧
            .bare '$' :: right = snippet.missing.map .bare := by
  have expanded := map_expand_lines blank
  refine ⟨?_, expanded, exists_stop_iff blank⟩
  rw [← expanded, List.length_map]

theorem lines_snippet_of_lookalike :
    let c : DocComment := ⟨[' '], none,
      some ⟨Parameters.ofList [⟨['a'], "B\\\x7d".toList⟩], "$\x7b1:x\x7d".toList, "void".toList⟩⟩
    isBlank c.indent = true ∧
      ((c.lines .snippet).length = 7 ∧ (c.lines .text).length = 7) ∧
      ((c.lines .snippet)[4]? = some "  * @Date \\$\x7b1:x\\\x7d".toList ∧
        expand "  * @Date \\$\x7b1:x\\\x7d".toList = "  * @Date $\x7b1:x\x7d".toList) ∧
      (∃ line left right, (c.lines .snippet)[1]? = some line ∧ signs line = left ++ .bare '$' :: right) ∧
      ∀ line left right, (c.lines .snippet)[4]? = some line → signs line ≠ left ++ .bare '$' :: right := by
  intro c
  have blank : isBlank c.indent = true := by decide
  obtain ⟨counted, expanded, stops⟩ := c.lines_snippet blank
  have count : (c.lines .text).length = 7 := rfl
  have dated : (c.lines .snippet)[4]? = some "  * @Date \\$\x7b1:x\\\x7d".toList := rfl
  have shown : ((c.lines .snippet).map expand)[4]? = some "  * @Date $\x7b1:x\x7d".toList := by
    rw [expanded]
    rfl
  rw [List.getElem?_map, dated] at shown
  refine ⟨blank, ⟨counted.trans count, count⟩, ⟨dated, Option.some.inj shown⟩, ?_, ?_⟩
  · obtain ⟨line, found, same⟩ := (stops 1 _ _).2 ⟨rfl, rfl, rfl, rfl⟩
    exact ⟨line, _, _, found, same⟩
  · intro line left right found same
    have second := ((stops 4 left right).1 ⟨line, found, same⟩).2.1
    cases second

end DocComment

end ApexTidy
