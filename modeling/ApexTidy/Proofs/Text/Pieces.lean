import ApexTidy.Proofs.Text.Blanks
import ApexTidy.Proofs.Text.Search

/-!
The pieces that a text is taken apart into. Each piece of a text cut at some characters is a part of
the text without them, so words hold no blanks and lines no line feeds. Lines that were put together
are found again.
-/

namespace ApexTidy.Text

theorem eq_false_of_mem_splitOnP {p : Char → Bool} {t piece : Text} (member : piece ∈ t.splitOnP p) :
    ∀ c ∈ piece, p c = false := by
  induction t generalizing piece with
  | nil => simp_all
  | cons c t ih =>
    rw [List.splitOnP_cons_eq_if_modifyHead] at member
    obtain ⟨first, rest, pieces⟩ := List.exists_cons_of_ne_nil (List.splitOnP_ne_nil p t)
    rw [pieces] at member ih
    split at member
    · rcases List.mem_cons.1 member with rfl | later
      · simp
      · exact ih later
    · rename_i kept
      rw [List.modifyHead_cons] at member
      rcases List.mem_cons.1 member with rfl | later
      · intro d inside
        rcases List.mem_cons.1 inside with rfl | tail
        · simpa using kept
        · exact ih List.mem_cons_self d tail
      · exact ih (List.mem_cons_of_mem _ later)

theorem prefix_and_infix_of_splitOnP {p : Char → Bool} {t first : Text} {rest : List Text}
    (pieces : t.splitOnP p = first :: rest) : first <+: t ∧ ∀ piece ∈ rest, piece <:+: t := by
  induction t generalizing first rest with
  | nil =>
    obtain ⟨rfl, rfl⟩ : [] = first ∧ [] = rest := by simpa using pieces
    simp
  | cons c t ih =>
    obtain ⟨x, xs, later⟩ := List.exists_cons_of_ne_nil (List.splitOnP_ne_nil p t)
    obtain ⟨start, parts⟩ := ih later
    rw [List.splitOnP_cons_eq_if_modifyHead, later] at pieces
    split at pieces
    · obtain ⟨rfl, rfl⟩ : [] = first ∧ x :: xs = rest := by simpa using pieces
      refine ⟨List.nil_prefix, ?_⟩
      intro piece member
      apply List.infix_cons
      rcases List.mem_cons.1 member with rfl | other
      · exact start.isInfix
      · exact parts piece other
    · obtain ⟨rfl, rfl⟩ : c :: x = first ∧ xs = rest := by simpa using pieces
      refine ⟨List.cons_prefix_cons.2 ⟨rfl, start⟩, ?_⟩
      intro piece member
      exact List.infix_cons (parts piece member)

theorem infix_of_mem_splitOnP {p : Char → Bool} {t piece : Text} (member : piece ∈ t.splitOnP p) :
    piece <:+: t := by
  obtain ⟨first, rest, pieces⟩ := List.exists_cons_of_ne_nil (List.splitOnP_ne_nil p t)
  obtain ⟨start, parts⟩ := prefix_and_infix_of_splitOnP pieces
  rw [pieces] at member
  rcases List.mem_cons.1 member with rfl | other
  · exact start.isInfix
  · exact parts piece other

theorem lineFeed_not_mem_of_mem_splitOn {t piece : Text} (member : piece ∈ t.splitOn '\n') :
    '\n' ∉ piece := by
  intro inside
  have apart := eq_false_of_mem_splitOnP member '\n' inside
  simp at apart

theorem isSpace_of_mem_words {t word : Text} (member : word ∈ words t) :
    ∀ c ∈ word, isSpace c = false :=
  eq_false_of_mem_splitOnP (List.mem_filter.1 member).1

theorem words_append_cons {c : Char} (blank : isSpace c = true) (a b : Text) :
    words (a ++ c :: b) = words a ++ words b := by
  rw [words, List.splitOnP_append_cons a b blank, List.filter_append]
  rfl

theorem words_append_of_isBlank_left {a : Text} (blank : isBlank a = true) (b : Text) :
    words (a ++ b) = words b := by
  rw [isBlank_iff] at blank
  induction a with
  | nil => rfl
  | cons c a ih =>
    have cut := words_append_cons (blank c List.mem_cons_self) [] (a ++ b)
    rw [ih fun other member => blank other (List.mem_cons_of_mem _ member)] at cut
    exact cut

theorem words_append_of_isBlank_right (a : Text) {b : Text} (blank : isBlank b = true) :
    words (a ++ b) = words a := by
  cases b with
  | nil => rw [List.append_nil]
  | cons c b =>
    rw [isBlank, List.all_cons, Bool.and_eq_true] at blank
    have none := words_append_of_isBlank_left blank.2 []
    rw [List.append_nil] at none
    rw [words_append_cons blank.1, none]
    exact List.append_nil _

theorem words_trim (t : Text) : words (trim t) = words t := by
  conv => rhs; rw [← leadingSpace_append_trimStart t]
  rw [words_append_of_isBlank_left (isBlank_leadingSpace t)]
  conv => rhs; rw [← trimEnd_append_trailingSpace (trimStart t)]
  rw [words_append_of_isBlank_right _ (isBlank_trailingSpace _), trim]

theorem words_eq_singleton {t : Text} (nonempty : t ≠ []) (solid : ∀ c ∈ t, isSpace c = false) :
    words t = [t] := by
  rw [words, List.splitOnP_eq_singleton solid]
  simp [nonempty]

theorem lastWord?_of_solid {t : Text} (solid : ∀ c ∈ t, isSpace c = false) :
    lastWord? t = if t = [] then none else some ([], t) := by
  rw [lastWord?]
  split
  · rename_i empty
    rw [empty]
    rfl
  · rename_i nonempty
    rw [words_eq_singleton nonempty solid]
    rfl

theorem lastWord?_append_cons {a b : Text} {c : Char} (blank : isSpace c = true) (nonempty : b ≠ [])
    (solid : ∀ d ∈ b, isSpace d = false) : lastWord? (a ++ c :: b) = some (normalize a, b) := by
  rw [lastWord?, words_append_cons blank, words_eq_singleton nonempty solid]
  simp [normalize]

/-- The only blanks of the text are spaces. -/
def IsSpaced (t : Text) : Prop := ∀ c ∈ t, isSpace c = true → c = ' '

instance (t : Text) : Decidable (IsSpaced t) :=
  List.decidableBAll (fun c => isSpace c = true → c = ' ') t

theorem IsSpaced.not_mem {t : Text} (spaced : IsSpaced t) {c : Char} (blank : isSpace c = true)
    (other : c ≠ ' ') : c ∉ t := fun member => other (spaced c member blank)

theorem isSpaced_intercalate {list : List Text}
    (solid : ∀ word ∈ list, ∀ c ∈ word, isSpace c = false) : IsSpaced ([' '].intercalate list) := by
  induction list with
  | nil => simp [IsSpaced]
  | cons word list ih =>
    intro c member blank
    have first : c ∉ word := by
      intro inside
      rw [solid word List.mem_cons_self c inside] at blank
      cases blank
    cases list with
    | nil =>
      rw [List.intercalate_singleton] at member
      exact absurd member first
    | cons next rest =>
      rw [List.intercalate_cons_cons, List.append_assoc, List.mem_append, List.mem_append] at member
      rcases member with inside | space | later
      · exact absurd inside first
      · exact List.mem_singleton.1 space
      · exact ih (fun other listed => solid other (List.mem_cons_of_mem _ listed)) c later blank

theorem mem_of_mem_intercalate {between : Text} {list : List Text} {c : Char}
    (member : c ∈ between.intercalate list) : c ∈ between ∨ ∃ t ∈ list, c ∈ t := by
  induction list with
  | nil => simp at member
  | cons first rest ih =>
    cases rest with
    | nil =>
      right
      exact ⟨first, List.mem_singleton_self first, by simpa using member⟩
    | cons next rest =>
      rw [List.intercalate_cons_cons, List.mem_append, List.mem_append] at member
      rcases member with (inside | separator) | later
      · exact Or.inr ⟨first, List.mem_cons_self, inside⟩
      · exact Or.inl separator
      · rcases ih later with separator | ⟨t, listed, inside⟩
        · exact Or.inl separator
        · exact Or.inr ⟨t, List.mem_cons_of_mem _ listed, inside⟩

theorem prefix_intercalate (between first : Text) (rest : List Text) :
    first <+: between.intercalate (first :: rest) := by
  cases rest with
  | nil => exact ⟨[], by rw [List.append_nil, List.intercalate_singleton]⟩
  | cons next rest =>
    rw [List.intercalate_cons_cons, List.append_assoc]
    exact List.prefix_append ..

theorem trimmed_intercalate {between : Text} {list : List Text}
    (full : ∀ piece ∈ list, piece ≠ [] ∧ Trimmed piece) : Trimmed (between.intercalate list) := by
  induction list with
  | nil => exact trimmed_nil
  | cons piece list ih =>
    have first := full piece List.mem_cons_self
    have others := ih fun other member => full other (List.mem_cons_of_mem _ member)
    cases list with
    | nil =>
      rw [List.intercalate_singleton]
      exact first.2
    | cons next rest =>
      rw [List.intercalate_cons_cons]
      apply first.2.append others first.1
      intro none
      have start := prefix_intercalate between next rest
      rw [none, List.prefix_nil] at start
      exact (full next (List.mem_cons_of_mem _ List.mem_cons_self)).1 start

theorem ne_nil_of_mem_words {t word : Text} (member : word ∈ words t) : word ≠ [] := by
  have full := (List.mem_filter.1 member).2
  simpa using full

theorem trimmed_of_mem_words {t word : Text} (member : word ∈ words t) : Trimmed word :=
  trimmed_of_solid (isSpace_of_mem_words member)

theorem words_intercalate {list : List Text}
    (full : ∀ word ∈ list, word ≠ [] ∧ ∀ c ∈ word, isSpace c = false) :
    words ([' '].intercalate list) = list := by
  induction list with
  | nil => rfl
  | cons word list ih =>
    obtain ⟨nonempty, solid⟩ := full word List.mem_cons_self
    have first := words_eq_singleton nonempty solid
    have others := ih fun other member => full other (List.mem_cons_of_mem _ member)
    cases list with
    | nil => rw [List.intercalate_singleton, first]
    | cons next rest =>
      rw [List.intercalate_cons_cons, List.append_assoc, List.singleton_append,
        words_append_cons (by decide), first, others, List.singleton_append]

theorem isSpaced_normalize (t : Text) : IsSpaced (normalize t) :=
  isSpaced_intercalate fun _ member => isSpace_of_mem_words member

theorem trimmed_normalize (t : Text) : Trimmed (normalize t) := by
  apply trimmed_intercalate
  intro word member
  exact ⟨ne_nil_of_mem_words member, trimmed_of_mem_words member⟩

theorem normalize_of_lastWord? {t before last : Text} (found : lastWord? t = some (before, last)) :
    normalize before = before ∧ normalize last = last := by
  obtain ⟨word, ends, same⟩ := Option.map_eq_some_iff.1 found
  cases same
  have listed := List.mem_of_getLast? ends
  constructor
  · rw [normalize, words_intercalate]
    intro other member
    have inside := List.dropLast_subset _ member
    exact ⟨ne_nil_of_mem_words inside, isSpace_of_mem_words inside⟩
  · rw [normalize, words_eq_singleton (ne_nil_of_mem_words listed) (isSpace_of_mem_words listed),
      List.intercalate_singleton]

theorem withoutReturn_prefix_self (piece : Text) : withoutReturn piece <+: piece := by
  unfold withoutReturn
  cases found : beforeEnd? ['\r'] piece with
  | none => exact List.prefix_rfl
  | some rest =>
    rw [beforeEnd?_eq_some_iff.1 found]
    exact List.prefix_append ..

theorem trim_withoutReturn (piece : Text) : trim (withoutReturn piece) = trim piece := by
  unfold withoutReturn
  cases found : beforeEnd? ['\r'] piece with
  | none => rfl
  | some rest =>
    rw [beforeEnd?_eq_some_iff.1 found, trim_append_of_isBlank_right rest (by decide)]
    rfl

theorem isBlank_withoutReturn (piece : Text) : isBlank (withoutReturn piece) = isBlank piece :=
  isBlank_eq_of_trim_eq (trim_withoutReturn piece)

theorem withoutReturn_of_endsFull {piece : Text} (full : EndsFull piece) :
    withoutReturn piece = piece := by
  unfold withoutReturn
  cases found : beforeEnd? ['\r'] piece with
  | none => rfl
  | some rest =>
    rw [beforeEnd?_eq_some_iff.1 found, EndsFull, List.getLast?_concat] at full
    exact absurd full (by decide)

theorem exists_piece_of_mem_paragraph {t line : Text} (member : line ∈ paragraph t) :
    ∃ piece ∈ t.splitOn '\n', line <:+: piece := by
  rcases List.mem_append.1 member with inner | last
  · obtain ⟨piece, listed, rfl⟩ := List.mem_map.1 inner
    exact ⟨piece, List.dropLast_subset _ listed, (withoutReturn_prefix_self piece).isInfix⟩
  · have ends := Option.mem_toList.1 (List.mem_filter.1 last).1
    exact ⟨line, List.mem_of_getLast? ends, List.infix_rfl⟩

theorem infix_of_mem_paragraph {t line : Text} (member : line ∈ paragraph t) : line <:+: t := by
  obtain ⟨piece, listed, inside⟩ := exists_piece_of_mem_paragraph member
  exact inside.trans (infix_of_mem_splitOnP listed)

theorem lineFeed_not_mem_of_mem_paragraph {t line : Text} (member : line ∈ paragraph t) :
    '\n' ∉ line := by
  obtain ⟨piece, listed, inside⟩ := exists_piece_of_mem_paragraph member
  intro feed
  exact lineFeed_not_mem_of_mem_splitOn listed (inside.subset feed)

/-- Lines that are neither empty nor end with a blank are those of the paragraph they make up. -/
theorem paragraph_intercalate {lines : List Text} (full : ∀ line ∈ lines, line ≠ [] ∧ EndsFull line)
    (single : ∀ line ∈ lines, '\n' ∉ line) : paragraph (['\n'].intercalate lines) = lines := by
  by_cases none : lines = []
  · rw [none]
    rfl
  · rw [paragraph, List.splitOn_intercalate '\n' single none, List.getLast?_eq_some_getLast none]
    have kept : lines.dropLast.map withoutReturn = lines.dropLast := by
      conv => rhs; rw [← List.map_id lines.dropLast]
      apply List.map_congr_left
      intro line member
      exact withoutReturn_of_endsFull (full line (List.dropLast_subset _ member)).2
    have last := (full _ (List.getLast_mem none)).1
    rw [kept, Option.toList_some, List.filter_cons_of_pos (by simpa using last), List.filter_nil,
      List.dropLast_concat_getLast]

theorem splitOn_flatMap {lines : List Text} (single : ∀ line ∈ lines, '\n' ∉ line) (rest : Text) :
    (lines.flatMap (· ++ ['\n']) ++ rest).splitOn '\n' = lines ++ rest.splitOn '\n' := by
  induction lines with
  | nil => rfl
  | cons line lines ih =>
    have first := single line List.mem_cons_self
    have others := ih fun other member => single other (List.mem_cons_of_mem _ member)
    rw [List.flatMap_cons, List.append_assoc, List.append_assoc, List.singleton_append,
      List.splitOn_append_cons_self_of_not_mem first, others, List.cons_append]

end ApexTidy.Text
