import ApexTidy.Proofs.Declaration.Sparing

/-!
Stripping what has been stripped. Where a modifier or annotation stood there is a space, so what was not
found before is found only behind such a space, and only the arguments of an annotation end in front of
a word. If they end in front of a modifier, that one is left, as its place is no start and the character
in front of it has been taken out; a second run finds it, and a third one finds nothing.
-/

namespace ApexTidy.Modifiers

open Text

/-- Taking out what is found, one after the other, meets an annotation whose arguments end directly in
front of a keyword. -/
inductive ClosesOnKeyword (m : Modifiers) : Bool → Text → Prop where
  | here {isFirst name arguments rest} (nonempty : name ≠ []) (word : ∀ c ∈ name, isWord c = true)
    (closed : IsArguments arguments) (named : m.isKeyword (rest.takeWhile isWord) = true) :
    ClosesOnKeyword m isFirst ('@' :: (name ++ (arguments ++ rest)))
  | next {isFirst c t} (none : ∀ kept rest, ¬ m.Found isFirst (c :: t) kept rest)
    (later : ClosesOnKeyword m false t) : ClosesOnKeyword m isFirst (c :: t)
  | past {isFirst t kept rest} (found : m.Found isFirst t kept rest)
    (later : ClosesOnKeyword m false rest) : ClosesOnKeyword m isFirst t

section

variable {m : Modifiers}

theorem HasNoAnnotation.of_suffix {t rest : Text} (plain : HasNoAnnotation t) (suffix : rest <:+ t) :
    HasNoAnnotation rest := by
  obtain ⟨front, rfl⟩ := suffix
  intro before c after whole
  apply plain (front ++ before) c after
  rw [whole, List.append_assoc]

theorem HasNoAnnotation.cons {t : Text} (plain : HasNoAnnotation t) {c : Char}
    (apart : c ≠ '@' ∨ t.head?.any isWord = false) : HasNoAnnotation (c :: t) := by
  intro before d after whole
  cases before with
  | nil =>
    obtain ⟨rfl, rfl⟩ := List.cons.inj whole
    exact apart.elim (absurd rfl) id
  | cons e before => exact plain before d after (List.cons.inj whole).2

theorem Found.congr {isFirst : Bool} {c : Char} {t other kept rest : Text}
    (found : m.Found isFirst (c :: t) kept rest) (same : other.takeWhile isWord = t.takeWhile isWord) :
    ∃ rest, m.Found isFirst (c :: other) kept rest := by
  cases found with
  | first named =>
    rw [List.takeWhile_cons, ← same, ← List.takeWhile_cons] at named
    exact ⟨_, .first named⟩
  | behind lead named =>
    rw [← same] at named
    exact ⟨_, .behind lead named⟩
  | atSign word =>
    rw [← same] at word
    exact ⟨_, .atSign word⟩

theorem Found.kept_cases {isFirst : Bool} {t kept rest : Text} (found : m.Found isFirst t kept rest) :
    kept = [] ∨ ∃ c, kept = [c] ∧ isLead c = true := by
  cases found with
  | first => exact Or.inl rfl
  | behind lead => exact Or.inr ⟨_, rfl, lead⟩
  | atSign => exact Or.inl rfl

theorem Found.suffix {isFirst : Bool} {t kept rest : Text} (found : m.Found isFirst t kept rest) :
    rest <:+ t := by
  cases found with
  | first => exact List.dropWhile_suffix isWord
  | behind => exact (List.dropWhile_suffix isWord).trans (List.suffix_cons ..)
  | @atSign _ t _ =>
    have arguments : afterArguments (t.dropWhile isWord) <:+ t.dropWhile isWord := by
      rcases afterArguments_cases (t.dropWhile isWord) with none | ⟨list, -, whole⟩
      · exact ⟨[], by rw [none, List.nil_append]⟩
      · exact ⟨list, whole.symm⟩
    exact (arguments.trans (List.dropWhile_suffix isWord)).trans (List.suffix_cons ..)

theorem found_of_isArguments {isFirst : Bool} {name arguments rest : Text} (nonempty : name ≠ [])
    (word : ∀ c ∈ name, isWord c = true) (closed : IsArguments arguments) :
    m.Found isFirst ('@' :: (name ++ (arguments ++ rest))) [] rest := by
  have found := found_atSign_append m isFirst nonempty word (head?_append_of_isArguments closed rest)
  rwa [afterArguments_append closed] at found

/-- What follows a keyword or a bare annotation starts with no word, so only the arguments of an annotation
can end in front of a keyword. -/
theorem Found.closesOnKeyword {isFirst : Bool} {t kept rest : Text} (found : m.Found isFirst t kept rest)
    (named : m.isKeyword (rest.takeWhile isWord) = true) : m.ClosesOnKeyword isFirst t := by
  have apart : ∀ t : Text, m.isKeyword ((t.dropWhile isWord).takeWhile isWord) = false := by
    intro t
    rw [takeWhile_isWord_eq_nil_iff.2 (head?_dropWhile_isWord t), isKeyword_nil]
  cases found with
  | first =>
    rw [apart] at named
    cases named
  | behind =>
    rw [apart] at named
    cases named
  | @atSign _ t word =>
    rcases afterArguments_cases (t.dropWhile isWord) with none | ⟨arguments, closed, whole⟩
    · rw [none, apart] at named
      cases named
    · have parts := List.takeWhile_append_dropWhile (p := isWord) (l := t)
      rw [whole] at parts
      rw [← parts]
      exact .here word isWord_of_mem_takeWhile closed named

variable (letters : m.OfLetters)

include letters

theorem OfLetters.eq_of_found {isFirst : Bool} {t kept rest more later : Text}
    (found : m.Found isFirst t kept rest) (again : m.Found isFirst t more later) :
    kept = more ∧ rest = later := by
  have parts := letters.matchAt?_eq_some_iff.2 found
  rw [letters.matchAt?_eq_some_iff.2 again, Option.some.injEq, Prod.mk.injEq] at parts
  exact ⟨parts.1.symm, parts.2.symm⟩

theorem OfLetters.takeWhile_stripFrom (t : Text) :
    (m.stripFrom false t).takeWhile isWord = t.takeWhile isWord := by
  induction t with
  | nil => rw [stripFrom_nil]
  | cons c t ih =>
    cases found : m.matchAt? false (c :: t) with
    | none => rw [stripFrom_of_none found, List.takeWhile_cons, List.takeWhile_cons, ih]
    | some parts =>
      obtain ⟨kept, rest⟩ := parts
      rw [stripFrom_of_some found]
      cases letters.matchAt?_eq_some_iff.1 found with
      | behind lead =>
        have plain := isWord_eq_false_of_isLead lead
        rw [List.takeWhile_cons_of_neg (by simp [plain])]
        exact List.takeWhile_cons_of_neg (by simp [plain])
      | atSign =>
        rw [List.takeWhile_cons_of_neg (by decide)]
        exact List.takeWhile_cons_of_neg (by decide)

theorem OfLetters.matchAt?_stripFrom {isFirst : Bool} {c : Char} {t : Text} :
    m.matchAt? isFirst (c :: m.stripFrom false t) = none ↔ m.matchAt? isFirst (c :: t) = none := by
  have same := letters.takeWhile_stripFrom t
  rw [letters.matchAt?_eq_none_iff, letters.matchAt?_eq_none_iff]
  constructor
  · intro none kept rest found
    obtain ⟨later, again⟩ := found.congr same
    exact none kept later again
  · intro none kept rest found
    obtain ⟨later, again⟩ := found.congr same.symm
    exact none kept later again

theorem OfLetters.stripFrom_found_eq_self_iff {isFirst : Bool} {t kept rest : Text}
    (found : m.Found isFirst t kept rest) (after : Text) :
    m.stripFrom isFirst (kept ++ ' ' :: after) = kept ++ ' ' :: after ↔
      m.isKeyword (after.takeWhile isWord) = false ∧ m.stripFrom false after = after := by
  have space : isLead ' ' = true := by decide
  rcases found.kept_cases with rfl | ⟨c, rfl, lead⟩
  · rw [List.nil_append, letters.stripFrom_cons_eq_self_iff, letters.matchAt?_cons_of_isLead space]
  · have apart : m.isKeyword ((' ' :: after).takeWhile isWord) = false := by
      rw [List.takeWhile_cons_of_neg (by decide), isKeyword_nil]
    rw [List.singleton_append, letters.stripFrom_cons_eq_self_iff, letters.stripFrom_cons_eq_self_iff,
      letters.matchAt?_cons_of_isLead space, letters.matchAt?_cons_of_isLead lead]
    simp [apart]

theorem OfLetters.closesOnKeyword_of_found {isFirst : Bool} {t kept rest : Text}
    (found : m.Found isFirst t kept rest) :
    m.ClosesOnKeyword isFirst t ↔
      m.isKeyword (rest.takeWhile isWord) = true ∨ m.ClosesOnKeyword false rest := by
  constructor
  · intro closes
    cases closes with
    | here nonempty word closed named =>
      obtain ⟨rfl, rfl⟩ := letters.eq_of_found found (found_of_isArguments nonempty word closed)
      exact Or.inl named
    | next none => exact absurd found (none _ _)
    | past again later =>
      obtain ⟨rfl, rfl⟩ := letters.eq_of_found found again
      exact Or.inr later
  · rintro (named | later)
    · exact found.closesOnKeyword named
    · exact .past found later

theorem OfLetters.closesOnKeyword_of_not_found {isFirst : Bool} {c : Char} {t : Text}
    (none : m.matchAt? isFirst (c :: t) = none) :
    m.ClosesOnKeyword isFirst (c :: t) ↔ m.ClosesOnKeyword false t := by
  rw [letters.matchAt?_eq_none_iff] at none
  constructor
  · intro closes
    cases closes with
    | here nonempty word closed =>
      exact absurd (found_of_isArguments nonempty word closed) (none _ _)
    | next _ later => exact later
    | past found => exact absurd found (none _ _)
  · exact .next none

/-- A second run changes nothing exactly if no annotation closes its arguments on a keyword. -/
theorem OfLetters.stripFrom_stripFrom_iff (isFirst : Bool) (t : Text) :
    m.stripFrom isFirst (m.stripFrom isFirst t) = m.stripFrom isFirst t ↔
      ¬ m.ClosesOnKeyword isFirst t := by
  fun_induction stripFrom m isFirst t with
  | case1 isFirst =>
    refine iff_of_true (stripFrom_nil m isFirst) ?_
    intro closes
    cases closes with
    | past found =>
      rw [← letters.matchAt?_eq_some_iff, matchAt?_nil] at found
      cases found
  | case2 isFirst c t kept rest found ih =>
    have found := letters.matchAt?_eq_some_iff.1 found
    rw [letters.stripFrom_found_eq_self_iff found, letters.takeWhile_stripFrom, ih,
      letters.closesOnKeyword_of_found found, not_or, Bool.not_eq_true]
  | case3 isFirst c t none ih =>
    rw [letters.stripFrom_cons_eq_self_iff, letters.matchAt?_stripFrom, ih,
      letters.closesOnKeyword_of_not_found none]
    exact and_iff_right none

theorem OfLetters.hasNoAnnotation_stripFrom (isFirst : Bool) (t : Text) :
    HasNoAnnotation (m.stripFrom isFirst t) := by
  fun_induction stripFrom m isFirst t with
  | case1 =>
    intro before c after whole
    simp at whole
  | case2 isFirst c t kept rest found ih =>
    have spaced := ih.cons (c := ' ') (Or.inl (by decide))
    rcases (letters.matchAt?_eq_some_iff.1 found).kept_cases with rfl | ⟨d, rfl, lead⟩
    · exact spaced
    · exact spaced.cons (Or.inl (isLead_iff.1 lead).2.2)
  | case3 isFirst c t none ih =>
    apply ih.cons
    by_cases sign : c = '@'
    · right
      subst sign
      rw [← takeWhile_isWord_eq_nil_iff, letters.takeWhile_stripFrom]
      apply Decidable.byContradiction
      intro word
      exact letters.matchAt?_eq_none_iff.1 none _ _ (.atSign word)
    · exact Or.inl sign

omit letters in
theorem HasNoAnnotation.not_closesOnKeyword {isFirst : Bool} {t : Text} (plain : HasNoAnnotation t) :
    ¬ m.ClosesOnKeyword isFirst t := by
  intro closes
  induction closes with
  | @here _ name _ _ nonempty word =>
    obtain ⟨c, name, rfl⟩ := List.exists_cons_of_ne_nil nonempty
    have other := plain [] c _ rfl
    rw [word c List.mem_cons_self] at other
    cases other
  | next _ _ ih => exact ih (plain.of_suffix (List.suffix_cons ..))
  | past found _ ih => exact ih (plain.of_suffix found.suffix)

end

/-- A second run over a stripped text changes nothing exactly if, where modifiers and annotations are taken
out one after the other, no annotation closes its arguments directly in front of a modifier. A third run
never changes anything, and no run leaves an annotation. -/
theorem strip_repeated (t : Text) :
    (standard.strip (standard.strip t) = standard.strip t ↔ ¬ standard.ClosesOnKeyword true t) ∧
      standard.strip (standard.strip (standard.strip t)) = standard.strip (standard.strip t) ∧
      ∀ before c after, standard.strip t = before ++ '@' :: c :: after → isWord c = false := by
  have plain := standard_ofLetters.hasNoAnnotation_stripFrom true t
  have again := standard_ofLetters.stripFrom_stripFrom_iff true (standard.strip t)
  exact ⟨standard_ofLetters.stripFrom_stripFrom_iff true t, again.2 plain.not_closesOnKeyword, plain⟩

/-- The arguments of an annotation end in front of a modifier. -/
theorem strip_leaves_modifier :
    standard.strip (standard.strip "@future(callout=true)static void f()".toList) ≠
      standard.strip "@future(callout=true)static void f()".toList := by
  decide +kernel

end ApexTidy.Modifiers
