import ApexTidy.Declaration.Signature
import ApexTidy.Proofs.Declaration.Matching

/-!
Modifiers and annotations in front of a header. One after the other they are taken out, whatever their
number and order, since each has blanks behind it, and what is left of them in front of the header is
blank. So a header is read alike with and without them.
-/

namespace ApexTidy.Modifiers

open Text

def IsAnnotation (t : Text) : Prop :=
  ∃ name arguments, t = '@' :: (name ++ arguments) ∧ name ≠ [] ∧ (∀ c ∈ name, isWord c = true) ∧
    (arguments = [] ∨ IsArguments arguments)

/-- A modifier or annotation, and the blanks behind it. -/
structure Leader (m : Modifiers) where
  mark : Text
  gap : Text
  isMark : m.isKeyword mark = true ∨ IsAnnotation mark
  isBlank : isBlank gap = true
  nonempty : gap ≠ []

def Leader.whole {m : Modifiers} (l : Leader m) : Text := l.mark ++ l.gap

theorem trimStart_cons_of_isSpace {c : Char} (blank : isSpace c = true) (t : Text) :
    trimStart (c :: t) = trimStart t :=
  List.dropWhile_cons_of_pos blank

theorem head?_gap_append {m : Modifiers} (l : Leader m) (t : Text) : (l.gap ++ t).head?.any isWord = false := by
  obtain ⟨c, gap, same⟩ := List.exists_cons_of_ne_nil l.nonempty
  have blank := isBlank_iff.1 l.isBlank
  rw [same] at blank ⊢
  exact isWord_eq_false_of_isSpace (blank c List.mem_cons_self)

section

variable {m : Modifiers} (letters : m.OfLetters)

include letters

theorem OfLetters.isWord_of_isKeyword {word : Text} (named : m.isKeyword word = true) :
    ∀ c ∈ word, isWord c = true := by
  obtain ⟨keyword, member, same⟩ := List.any_eq_true.1 named
  exact isWord_of_sameFolded (letters keyword member) same

theorem OfLetters.found_leader (l : Leader m) {t : Text} (closed : ¬ ['('] <+: trimStart t) :
    m.Found true (l.whole ++ t) [] (l.gap ++ t) := by
  have stop := head?_gap_append l t
  rw [Leader.whole, List.append_assoc]
  rcases l.isMark with named | ⟨name, arguments, same, nonempty, word, ends⟩
  · have letter := letters.isWord_of_isKeyword named
    have run := takeWhile_append_of_stop letter stop
    have rest := dropWhile_append_of_stop letter stop
    have found := Found.first (by rwa [run])
    rwa [rest] at found
  · have found : m.Found true ('@' :: (name ++ (arguments ++ (l.gap ++ t)))) [] (l.gap ++ t) := by
      rcases ends with rfl | list
      · have bare : afterArguments (l.gap ++ t) = l.gap ++ t := by
          apply afterArguments_of_not_prefix
          rwa [trimStart_append_of_isBlank l.isBlank]
        have found := found_atSign_append m true nonempty word stop
        rwa [bare] at found
      · have apart := head?_append_of_isArguments list (l.gap ++ t)
        have found := found_atSign_append m true nonempty word apart
        rwa [afterArguments_append list] at found
    rwa [same, List.cons_append, List.append_assoc]

/-- Behind a blank a text is stripped as at its start, but for blanks. -/
theorem OfLetters.trimStart_stripFrom_cons {c : Char} (blank : isSpace c = true) (t : Text) :
    trimStart (m.stripFrom false (c :: t)) = trimStart (m.stripFrom true t) := by
  cases named : m.isKeyword (t.takeWhile isWord) with
  | true =>
    have behind : m.matchAt? false (c :: t) = some _ :=
      letters.matchAt?_eq_some_iff.2 (.behind (isLead_of_isSpace blank) named)
    have first := letters.matchAt?_eq_some_iff.2 (.first named)
    rw [stripFrom_of_some behind, stripFrom_of_some first, List.singleton_append,
      trimStart_cons_of_isSpace blank, List.nil_append]
  | false =>
    have none : m.matchAt? false (c :: t) = none :=
      (letters.matchAt?_cons_of_isLead (isLead_of_isSpace blank) t).2 named
    rw [stripFrom_of_none none, trimStart_cons_of_isSpace blank, letters.stripFrom_true named]

theorem OfLetters.trimStart_stripFrom_blanks {gap : Text} (blank : isBlank gap = true) (t : Text) :
    trimStart (m.stripFrom true (gap ++ t)) = trimStart (m.stripFrom true t) := by
  induction gap with
  | nil => rfl
  | cons c gap ih =>
    obtain ⟨first, others⟩ := List.forall_mem_cons.1 (isBlank_iff.1 blank)
    rw [List.cons_append, letters.stripFrom_cons (isWord_eq_false_of_isSpace first),
      letters.trimStart_stripFrom_cons first, ih (isBlank_iff.2 others)]

theorem OfLetters.trimStart_stripFrom_leader (l : Leader m) {t : Text}
    (closed : ¬ ['('] <+: trimStart t) :
    trimStart (m.stripFrom true (l.whole ++ t)) = trimStart (m.stripFrom true t) := by
  have found := letters.matchAt?_eq_some_iff.2 (letters.found_leader l closed)
  have space : isSpace ' ' = true := by decide
  have plain : m.isKeyword ((l.gap ++ t).takeWhile isWord) = false := by
    rw [takeWhile_isWord_eq_nil_iff.2 (head?_gap_append l t), isKeyword_nil]
  calc
    trimStart (m.stripFrom true (l.whole ++ t)) = trimStart (' ' :: m.stripFrom false (l.gap ++ t)) := by
      rw [stripFrom_of_some found, List.nil_append]
    _ = trimStart (m.stripFrom true (l.gap ++ t)) := by
      rw [trimStart_cons_of_isSpace space, letters.stripFrom_true plain]
    _ = trimStart (m.stripFrom true t) := letters.trimStart_stripFrom_blanks l.isBlank t

theorem OfLetters.not_prefix_trimStart_whole (l : Leader m) (t : Text) :
    ¬ ['('] <+: trimStart (l.whole ++ t) := by
  obtain ⟨c, rest, same, full, other⟩ :
      ∃ c rest, l.mark = c :: rest ∧ isSpace c = false ∧ c ≠ '(' := by
    rcases l.isMark with named | ⟨name, arguments, same, -⟩
    · obtain ⟨c, rest, same⟩ := List.exists_cons_of_ne_nil (ne_nil_of_isKeyword named)
      have word := letters.isWord_of_isKeyword named c (same ▸ List.mem_cons_self)
      refine ⟨c, rest, same, isSpace_eq_false_of_isWord word, ?_⟩
      rintro rfl
      exact absurd word (by decide)
    · exact ⟨'@', _, same, by decide, by decide⟩
  rw [Leader.whole, same, List.cons_append, List.cons_append]
  have start : StartsFull (c :: (rest ++ l.gap ++ t)) := full
  rw [trimStart_eq_self start, List.singleton_prefix_cons_iff]
  exact Ne.symm other

theorem OfLetters.trimStart_strip_leaders (leaders : List (Leader m)) {t : Text}
    (closed : ¬ ['('] <+: trimStart t) :
    trimStart (m.strip (leaders.flatMap (·.whole) ++ t)) = trimStart (m.strip t) := by
  induction leaders with
  | nil => rfl
  | cons l leaders ih =>
    have next : ¬ ['('] <+: trimStart (leaders.flatMap (·.whole) ++ t) := by
      cases leaders with
      | nil => exact closed
      | cons other leaders =>
        rw [List.flatMap_cons, List.append_assoc]
        exact letters.not_prefix_trimStart_whole other _
    rw [List.flatMap_cons, List.append_assoc, strip, letters.trimStart_stripFrom_leader l next]
    exact ih

end

/-- Built-in modifiers, in any case, and annotations in front of a header change nothing of what is read
from it, whatever their number and order, as long as blanks follow each of them. A header that starts with
a letter or an underscore does not open with a parenthesis. -/
theorem signature_behind_leaders (leaders : List (Leader standard)) {header : Text}
    (closed : ¬ ['('] <+: trimStart header) :
    standard.signature? (leaders.flatMap (·.whole) ++ header) = standard.signature? header := by
  have same : trim (standard.strip (leaders.flatMap (·.whole) ++ header)) = trim (standard.strip header) := by
    rw [trim, standard_ofLetters.trimStart_strip_leaders leaders closed, trim]
  rw [signature?, same, signature?]

theorem signature_behind_annotation :
    let leaders : List (Leader standard) :=
      [⟨"@AuraEnabled(cacheable=true)".toList, "\n    ".toList,
          Or.inr ⟨"AuraEnabled".toList, "(cacheable=true)".toList, by decide, by decide,
            List.all_eq_true.1 (by decide),
            Or.inr ⟨[], "cacheable=true".toList, by decide, by decide, by decide⟩⟩, by decide, by decide⟩,
        ⟨"PUBLIC".toList, " ".toList, Or.inl (by decide), by decide, by decide⟩,
        ⟨"Static".toList, "\t".toList, Or.inl (by decide), by decide, by decide⟩]
    let header : Text := "List<Id> ids(Id owner)".toList
    ¬ ['('] <+: trimStart header ∧
      leaders.flatMap (·.whole) = "@AuraEnabled(cacheable=true)\n    PUBLIC Static\t".toList ∧
      standard.signature? (leaders.flatMap (·.whole) ++ header) = standard.signature? header ∧
      (standard.signature? header).isSome := by
  intro leaders header
  have closed : ¬ ['('] <+: trimStart header := by decide
  exact ⟨closed, by decide, signature_behind_leaders leaders closed, by decide +kernel⟩

end ApexTidy.Modifiers
