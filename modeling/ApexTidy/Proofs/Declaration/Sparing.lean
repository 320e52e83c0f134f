import ApexTidy.Proofs.Declaration.Matching

/-!
What stripping leaves alone. Every modifier and annotation that is taken out takes word characters along,
so a text stays as it is exactly if nothing is found at any place of it, and that is seen from its at
signs and its runs of word characters.
-/

namespace ApexTidy.Modifiers

open Text

theorem countP_dropWhile_lt {t : Text} (word : t.takeWhile isWord ≠ []) :
    (t.dropWhile isWord).countP isWord < t.countP isWord := by
  have all := List.countP_eq_length.2 (isWord_of_mem_takeWhile (t := t))
  have positive := List.length_pos_iff.2 word
  calc
    (t.dropWhile isWord).countP isWord
      < (t.takeWhile isWord).countP isWord + (t.dropWhile isWord).countP isWord := by omega
    _ = t.countP isWord := by rw [← List.countP_append, List.takeWhile_append_dropWhile]

theorem countP_afterArguments_le (t : Text) : (afterArguments t).countP isWord ≤ t.countP isWord := by
  rcases afterArguments_cases t with none | ⟨arguments, -, whole⟩
  · exact Nat.le_of_eq (by rw [none])
  · conv => rhs; rw [whole, List.countP_append]
    exact Nat.le_add_left ..

section

variable {m : Modifiers}

theorem Found.countP_lt {isFirst : Bool} {t kept rest : Text} (found : m.Found isFirst t kept rest) :
    kept.countP isWord + rest.countP isWord < t.countP isWord := by
  cases found with
  | first named => simpa using countP_dropWhile_lt (ne_nil_of_isKeyword named)
  | behind lead named =>
    have other := isWord_eq_false_of_isLead lead
    simpa [other] using countP_dropWhile_lt (ne_nil_of_isKeyword named)
  | @atSign _ t word =>
    have name := countP_dropWhile_lt word
    have arguments := countP_afterArguments_le (t.dropWhile isWord)
    have sign : isWord '@' = false := by decide
    simp only [List.countP_nil, List.countP_cons, sign, Bool.false_eq_true, ↓reduceIte]
    omega

variable (letters : m.OfLetters)

include letters

theorem OfLetters.countP_stripFrom_le (isFirst : Bool) (t : Text) :
    (m.stripFrom isFirst t).countP isWord ≤ t.countP isWord := by
  have space : isWord ' ' = false := by decide
  fun_induction stripFrom m isFirst t with
  | case1 => exact Nat.le_refl _
  | case2 isFirst c t kept rest found ih =>
    have fewer := (letters.matchAt?_eq_some_iff.1 found).countP_lt
    rw [List.countP_append, List.countP_cons, space]
    simp only [Bool.false_eq_true, ↓reduceIte]
    omega
  | case3 isFirst c t none ih =>
    rw [List.countP_cons, List.countP_cons]
    omega

theorem OfLetters.stripFrom_ne_self {isFirst : Bool} {t kept rest : Text}
    (found : m.matchAt? isFirst t = some (kept, rest)) : m.stripFrom isFirst t ≠ t := by
  intro same
  have fewer := (letters.matchAt?_eq_some_iff.1 found).countP_lt
  have others := letters.countP_stripFrom_le false rest
  have space : isWord ' ' = false := by decide
  have counts := congrArg (List.countP isWord) same
  rw [stripFrom_of_some found, List.countP_append, List.countP_cons, space] at counts
  simp only [Bool.false_eq_true, ↓reduceIte] at counts
  omega

theorem OfLetters.stripFrom_cons_eq_self_iff (isFirst : Bool) (c : Char) (t : Text) :
    m.stripFrom isFirst (c :: t) = c :: t ↔
      m.matchAt? isFirst (c :: t) = none ∧ m.stripFrom false t = t := by
  cases found : m.matchAt? isFirst (c :: t) with
  | none => simp [stripFrom_of_none found]
  | some parts => simpa using letters.stripFrom_ne_self found

theorem OfLetters.stripFrom_eq_self_iff (isFirst : Bool) (t : Text) :
    m.stripFrom isFirst t = t ↔
      ∀ before rest, t = before ++ rest → m.matchAt? (isFirst && before.isEmpty) rest = none := by
  induction t generalizing isFirst with
  | nil =>
    rw [stripFrom_nil]
    simp [matchAt?_nil]
  | cons c t ih =>
    rw [letters.stripFrom_cons_eq_self_iff, ih]
    constructor
    · rintro ⟨here, later⟩ before rest whole
      cases before with
      | nil =>
        rw [List.nil_append] at whole
        rw [← whole, List.isEmpty_nil, Bool.and_true]
        exact here
      | cons d before =>
        have rest := later before rest (List.cons.inj whole).2
        simpa using rest
    · intro each
      refine ⟨by simpa using each [] (c :: t) rfl, ?_⟩
      intro before rest whole
      have place := each (c :: before) rest (by rw [whole, List.cons_append])
      simpa using place

theorem OfLetters.strip_eq_self_iff_matchAt? (t : Text) :
    m.strip t = t ↔ ∀ before rest, t = before ++ rest → m.matchAt? before.isEmpty rest = none := by
  rw [strip, letters.stripFrom_eq_self_iff]
  simp only [Bool.true_and]

def HasNoAnnotation (t : Text) : Prop :=
  ∀ before c after, t = before ++ '@' :: c :: after → isWord c = false

/-- A run of word characters that is a keyword stands behind a point or an at sign. -/
def HasNoModifier (m : Modifiers) (t : Text) : Prop :=
  ∀ before run after, IsRun t before run after → m.isKeyword run = true →
    before.getLast? = some '.' ∨ before.getLast? = some '@'

omit letters in
theorem exists_found_of_isRun {t before run after : Text} (stands : IsRun t before run after)
    (named : m.isKeyword run = true) (free : ¬ (before.getLast? = some '.' ∨ before.getLast? = some '@')) :
    ∃ front back kept rest, t = front ++ back ∧ m.Found front.isEmpty back kept rest := by
  have same := takeWhile_append_of_stop stands.word stands.stop
  rcases List.eq_nil_or_concat before with rfl | ⟨front, c, rfl⟩
  · rw [← same] at named
    exact ⟨[], run ++ after, _, _, stands.whole, .first named⟩
  · have start := stands.start
    simp only [List.concat_eq_append, List.getLast?_concat, Option.some.injEq, not_or,
      Option.any_some] at free start
    rw [← same] at named
    have whole : t = front ++ c :: (run ++ after) := by simpa using stands.whole
    exact ⟨front, _, _, _, whole, .behind (isLead_iff.2 ⟨start, free⟩) named⟩

omit letters in
/-- What is found at a place of a text is an annotation or a keyword that is a run of its own. -/
theorem Found.not_plain {before t kept rest : Text} (found : m.Found before.isEmpty t kept rest)
    (noted : HasNoAnnotation (before ++ t)) : ¬ m.HasNoModifier (before ++ t) := by
  intro plain
  generalize empty : before.isEmpty = isFirst at found
  cases found with
  | first named =>
    rw [List.isEmpty_iff] at empty
    subst empty
    have stands := @isRun_takeWhile [] t rfl (ne_nil_of_isKeyword named)
    simpa using plain _ _ _ stands named
  | @behind _ c t lead named =>
    obtain ⟨other, free⟩ := isLead_iff.1 lead
    have start : (before ++ [c]).getLast?.any isWord = false := by simpa using other
    have stands := isRun_takeWhile start (ne_nil_of_isKeyword named)
    rw [List.append_assoc, List.singleton_append] at stands
    have glued := plain _ _ _ stands named
    simp only [List.getLast?_concat, Option.some.injEq] at glued
    exact glued.elim free.1 free.2
  | @atSign _ t word =>
    cases t with
    | nil => exact word rfl
    | cons c t =>
      rw [Ne, takeWhile_isWord_eq_nil_iff] at word
      exact word (noted before c t rfl)

theorem OfLetters.strip_eq_self_iff (t : Text) :
    m.strip t = t ↔ HasNoAnnotation t ∧ m.HasNoModifier t := by
  rw [letters.strip_eq_self_iff_matchAt?]
  constructor
  · intro each
    refine ⟨?_, ?_⟩
    · intro before c after whole
      rw [← Bool.not_eq_true]
      intro word
      apply letters.matchAt?_eq_none_iff.1 (each before _ whole)
      apply Found.atSign
      simp [word]
    · intro before run after stands named
      apply Decidable.byContradiction
      intro free
      obtain ⟨front, back, kept, rest, whole, found⟩ := exists_found_of_isRun stands named free
      exact letters.matchAt?_eq_none_iff.1 (each front back whole) kept rest found
  · rintro ⟨noted, plain⟩ before back rfl
    rw [letters.matchAt?_eq_none_iff]
    intro kept rest found
    exact found.not_plain noted plain

theorem OfLetters.stripFrom_word_append {word : Text} (solid : ∀ c ∈ word, isWord c = true) (t : Text) :
    m.stripFrom false (word ++ t) = word ++ m.stripFrom false t := by
  induction word with
  | nil => rfl
  | cons c word ih =>
    obtain ⟨first, others⟩ := List.forall_mem_cons.1 solid
    have none : m.matchAt? false (c :: (word ++ t)) = none := by
      rw [letters.matchAt?_eq_none_iff]
      intro kept rest found
      cases found with
      | behind lead =>
        rw [isWord_eq_false_of_isLead lead] at first
        cases first
      | atSign => exact absurd first (by decide)
    rw [List.cons_append, stripFrom_of_none none, ih others, List.cons_append]

theorem OfLetters.stripFrom_point (t : Text) :
    m.stripFrom false ('.' :: t) = '.' :: m.stripFrom false t := by
  apply stripFrom_of_none
  rw [letters.matchAt?_eq_none_iff]
  intro kept rest found
  cases found with
  | behind lead => exact absurd lead (by decide)

theorem OfLetters.stripFrom_qualified {parts : List Text}
    (solid : ∀ part ∈ parts, ∀ c ∈ part, isWord c = true) :
    m.stripFrom false (['.'].intercalate parts) = ['.'].intercalate parts := by
  induction parts with
  | nil => rw [List.intercalate_nil, stripFrom_nil]
  | cons part parts ih =>
    obtain ⟨first, others⟩ := List.forall_mem_cons.1 solid
    cases parts with
    | nil =>
      have alone := letters.stripFrom_word_append first []
      rw [List.append_nil, stripFrom_nil, List.append_nil] at alone
      rw [List.intercalate_singleton, alone]
    | cons next parts =>
      rw [List.intercalate_cons_cons, List.append_assoc, letters.stripFrom_word_append first,
        List.singleton_append, letters.stripFrom_point, ih others]

theorem OfLetters.strip_qualified {first : Text} {others : List Text}
    (solid : ∀ part ∈ first :: others, ∀ c ∈ part, isWord c = true)
    (plain : m.isKeyword first = false) :
    m.strip (['.'].intercalate (first :: others)) = ['.'].intercalate (first :: others) := by
  have run : (['.'].intercalate (first :: others)).takeWhile isWord = first := by
    have word := solid first List.mem_cons_self
    cases others with
    | nil =>
      rw [List.intercalate_singleton]
      simpa using @takeWhile_append_of_stop isWord first [] word rfl
    | cons next others =>
      rw [List.intercalate_cons_cons, List.append_assoc]
      exact takeWhile_append_of_stop word (show isWord '.' = false by decide)
  rw [strip, letters.stripFrom_true (by rw [run, plain]), letters.stripFrom_qualified solid]

end

/-- Stripping leaves a text as it is exactly if no at sign has a word character behind it and every run of
word characters that is a built-in modifier, in any case, stands behind a point or an at sign. So it spares
words that hold a modifier among other characters, and qualified names that end with one. -/
theorem strip_spares :
    (∀ t, standard.strip t = t ↔
      (∀ before c after, t = before ++ '@' :: c :: after → isWord c = false) ∧
        ∀ before run after, IsRun t before run after → builtIn.any (sameFolded · run) = true →
          before.getLast? = some '.' ∨ before.getLast? = some '@') ∧
      ∀ first others, (∀ part ∈ first :: others, ∀ c ∈ part, isWord c = true) →
        builtIn.any (sameFolded · first) = false →
          standard.strip (['.'].intercalate (first :: others)) = ['.'].intercalate (first :: others) :=
  ⟨standard_ofLetters.strip_eq_self_iff, fun _ _ => standard_ofLetters.strip_qualified⟩

example : standard.strip "Global_Config private_data(Schema.Final x)".toList =
    "Global_Config private_data(Schema.Final x)".toList := by
  decide +kernel

end ApexTidy.Modifiers
