import ApexTidy.Declaration.Modifiers
import ApexTidy.Proofs.Text.Blanks
import ApexTidy.Proofs.Text.Words

/-!
Where modifiers and annotations are found. If the keywords are made of letters, a keyword stands at a
place exactly if the whole run of word characters there is one of them, so all that a place can hold is
told by three cases, and what a case needs to know of the text behind it ends with a run.
-/

namespace ApexTidy.Modifiers

open Text

/-- Every keyword is made of letters. -/
def OfLetters (m : Modifiers) : Prop := ∀ keyword ∈ m.keywords, ∀ c ∈ keyword, c.isAlpha = true

theorem standard_ofLetters : standard.OfLetters := by
  have all : builtIn.all (·.all Char.isAlpha) = true := by decide
  intro keyword member
  exact List.all_eq_true.1 (List.all_eq_true.1 all keyword member)

def isKeyword (m : Modifiers) (word : Text) : Bool := m.keywords.any (sameFolded · word)

theorem isKeyword_nil (m : Modifiers) : m.isKeyword [] = false := by
  rw [isKeyword, List.any_eq_false]
  intro keyword member same
  have empty := length_eq_of_sameFolded same
  exact m.nonempty keyword member (List.length_eq_zero_iff.1 empty)

theorem ne_nil_of_isKeyword {m : Modifiers} {word : Text} (named : m.isKeyword word = true) : word ≠ [] := by
  rintro rfl
  rw [isKeyword_nil] at named
  cases named

/-- What is found at the start of a text: what to keep of it and what follows it. -/
inductive Found (m : Modifiers) : Bool → Text → Text → Text → Prop where
  | first {t} (named : m.isKeyword (t.takeWhile isWord) = true) : Found m true t [] (t.dropWhile isWord)
  | behind {isFirst c t} (lead : isLead c = true) (named : m.isKeyword (t.takeWhile isWord) = true) :
    Found m isFirst (c :: t) [c] (t.dropWhile isWord)
  | atSign {isFirst t} (word : t.takeWhile isWord ≠ []) :
    Found m isFirst ('@' :: t) [] (afterArguments (t.dropWhile isWord))

theorem isLead_iff {c : Char} : isLead c = true ↔ isWord c = false ∧ c ≠ '.' ∧ c ≠ '@' := by
  simp [isLead, and_assoc]

theorem isWord_eq_false_of_isLead {c : Char} (lead : isLead c = true) : isWord c = false :=
  (isLead_iff.1 lead).1

theorem isLead_of_isSpace {c : Char} (blank : isSpace c = true) : isLead c = true := by
  rw [isLead_iff]
  refine ⟨isWord_eq_false_of_isSpace blank, ?_, ?_⟩
  · rintro rfl
    exact absurd blank (by decide)
  · rintro rfl
    exact absurd blank (by decide)

/-- What reads as a keyword is the whole run of word characters if no more of them follow. -/
theorem sameFolded_takeWhile_append {keyword head : Text} (letters : ∀ c ∈ keyword, c.isAlpha = true)
    (same : sameFolded keyword head = true) (rest : Text) :
    sameFolded keyword ((head ++ rest).takeWhile isWord) = !rest.head?.any isWord := by
  have word := isWord_of_sameFolded letters same
  cases stop : rest.head?.any isWord with
  | false =>
    rw [takeWhile_append_of_stop word stop, same]
    rfl
  | true =>
    rw [Bool.not_true, ← Bool.not_eq_true]
    intro longer
    have lengths := length_eq_of_sameFolded longer
    rw [List.takeWhile_append_of_pos word, List.length_append, length_eq_of_sameFolded same] at lengths
    have none : rest.takeWhile isWord = [] := by
      rw [← List.length_eq_zero_iff]
      omega
    rw [takeWhile_isWord_eq_nil_iff, stop] at none
    cases none

theorem endsLikeWord_of_letters {keyword : Text} (nonempty : keyword ≠ [])
    (letters : ∀ c ∈ keyword, c.isAlpha = true) : endsLikeWord keyword = true := by
  have letter := letters _ (List.getLast_mem nonempty)
  rw [endsLikeWord, List.getLast?_eq_some_getLast nonempty]
  simp [isAlphanumeric, isLetterOrDigit, Char.isAlphanum, letter]

theorem afterKeyword?_eq {keyword : Text} (nonempty : keyword ≠ [])
    (letters : ∀ c ∈ keyword, c.isAlpha = true) (t : Text) :
    afterKeyword? keyword t =
      if sameFolded keyword (t.takeWhile isWord) then some (t.dropWhile isWord) else none := by
  have ends := endsLikeWord_of_letters nonempty letters
  rw [afterKeyword?, splitFolded?]
  cases same : sameFolded keyword (t.take keyword.length) with
  | false =>
    have other : sameFolded keyword (t.takeWhile isWord) = false := by
      rw [← Bool.not_eq_true]
      intro named
      have start := List.prefix_iff_eq_take.1 (List.takeWhile_prefix (p := isWord) (l := t))
      rw [← length_eq_of_sameFolded named] at start
      rw [start, same] at named
      cases named
    simp [other]
  | true =>
    have word := isWord_of_sameFolded letters same
    have full : t.take keyword.length ≠ [] := by
      rw [← List.length_pos_iff, ← length_eq_of_sameFolded same, List.length_pos_iff]
      exact nonempty
    have last : (t.take keyword.length).getLast?.any isWord = true := by
      rw [List.getLast?_eq_some_getLast full]
      exact word _ (List.getLast_mem full)
    have whole := List.take_append_drop keyword.length t
    have run := sameFolded_takeWhile_append letters same (t.drop keyword.length)
    rw [whole] at run
    simp only [↓reduceIte, run, ends, isWordBoundary, last, Bool.true_and]
    cases stop : (t.drop keyword.length).head?.any isWord with
    | false =>
      have rest := dropWhile_append_of_stop word stop
      rw [whole] at rest
      simp [rest]
    | true => rfl

theorem findSome?_eq_ite {α β : Type} {f : α → Option β} {p : α → Bool} {b : β} {list : List α}
    (each : ∀ a ∈ list, f a = if p a then some b else none) :
    list.findSome? f = if list.any p then some b else none := by
  induction list with
  | nil => rfl
  | cons a list ih =>
    rw [List.forall_mem_cons] at each
    rw [List.findSome?_cons, each.1, ih each.2, List.any_cons]
    cases p a <;> rfl

theorem afterAnnotation?_eq_some_iff {t rest : Text} : afterAnnotation? t = some rest ↔
    ∃ tail, t = '@' :: tail ∧ tail.takeWhile isWord ≠ [] ∧ afterArguments (tail.dropWhile isWord) = rest := by
  constructor
  · intro found
    unfold afterAnnotation? at found
    split at found
    · rename_i tail
      split at found
      · rename_i word
        refine ⟨tail, rfl, ?_, Option.some.inj found⟩
        rw [Ne, takeWhile_isWord_eq_nil_iff, word]
        simp
      · cases found
    · cases found
  · rintro ⟨tail, rfl, word, same⟩
    rw [Ne, takeWhile_isWord_eq_nil_iff, Bool.not_eq_false] at word
    rw [afterAnnotation?, if_pos word, same]

section

variable {m : Modifiers} (letters : m.OfLetters)

include letters

theorem OfLetters.afterAny?_eq (t : Text) : m.afterAny? t =
    if m.isKeyword (t.takeWhile isWord) then some (t.dropWhile isWord) else none := by
  apply findSome?_eq_ite
  intro keyword member
  exact afterKeyword?_eq (m.nonempty keyword member) (letters keyword member) t

theorem OfLetters.of_afterAny? {t rest : Text} (found : m.afterAny? t = some rest) :
    m.isKeyword (t.takeWhile isWord) = true ∧ t.dropWhile isWord = rest := by
  rw [letters.afterAny?_eq] at found
  split at found
  · rename_i named
    exact ⟨named, Option.some.inj found⟩
  · cases found

theorem OfLetters.afterAny?_cons_eq_none {c : Char} (other : isWord c = false) (t : Text) :
    m.afterAny? (c :: t) = none := by
  rw [letters.afterAny?_eq, List.takeWhile_cons_of_neg (by simp [other]), isKeyword_nil]
  rfl

theorem OfLetters.found_of_matchAt? {isFirst : Bool} {t kept rest : Text}
    (matched : m.matchAt? isFirst t = some (kept, rest)) : m.Found isFirst t kept rest := by
  unfold matchAt? at matched
  simp only [Option.orElse_eq_orElse, Option.orElse_eq_or, Option.or_eq_some_iff] at matched
  rcases matched with first | ⟨-, behind | ⟨-, annotated⟩⟩
  · split at first
    · rename_i isFirst
      subst isFirst
      obtain ⟨r, after, same⟩ := Option.map_eq_some_iff.1 first
      cases same
      obtain ⟨named, rfl⟩ := letters.of_afterAny? after
      exact .first named
    · cases first
  · split at behind
    · split at behind
      · rename_i c t lead
        obtain ⟨r, after, same⟩ := Option.map_eq_some_iff.1 behind
        cases same
        obtain ⟨named, rfl⟩ := letters.of_afterAny? after
        exact .behind lead named
      · cases behind
    · cases behind
  · obtain ⟨r, after, same⟩ := Option.map_eq_some_iff.1 annotated
    cases same
    obtain ⟨tail, rfl, word, rfl⟩ := afterAnnotation?_eq_some_iff.1 after
    exact .atSign word

/-- The three cases exclude each other, so the order in which they are tried does not matter. -/
theorem OfLetters.matchAt?_of_found {isFirst : Bool} {t kept rest : Text}
    (found : m.Found isFirst t kept rest) : m.matchAt? isFirst t = some (kept, rest) := by
  cases found with
  | first named => simp [matchAt?, letters.afterAny?_eq, named]
  | @behind _ c t lead named =>
    have start := letters.afterAny?_cons_eq_none (isWord_eq_false_of_isLead lead) t
    simp [matchAt?, start, lead, letters.afterAny?_eq, named]
  | @atSign _ t word =>
    have start := letters.afterAny?_cons_eq_none (c := '@') (by decide) t
    have lead : isLead '@' = false := by decide
    have noted := afterAnnotation?_eq_some_iff.2 ⟨t, rfl, word, rfl⟩
    simp [matchAt?, start, lead, noted]

theorem OfLetters.matchAt?_eq_some_iff {isFirst : Bool} {t kept rest : Text} :
    m.matchAt? isFirst t = some (kept, rest) ↔ m.Found isFirst t kept rest :=
  ⟨letters.found_of_matchAt?, letters.matchAt?_of_found⟩

theorem OfLetters.matchAt?_eq_none_iff {isFirst : Bool} {t : Text} :
    m.matchAt? isFirst t = none ↔ ∀ kept rest, ¬ m.Found isFirst t kept rest := by
  rw [Option.eq_none_iff_forall_ne_some, Prod.forall]
  simp only [ne_eq, letters.matchAt?_eq_some_iff]

end

def IsArguments (t : Text) : Prop :=
  ∃ gap inside, t = gap ++ '(' :: (inside ++ [')']) ∧ isBlank gap = true ∧ ')' ∉ inside

theorem afterArguments_append {arguments : Text} (closed : IsArguments arguments) (t : Text) :
    afterArguments (arguments ++ t) = t := by
  obtain ⟨gap, inside, rfl, blank, single⟩ := closed
  have opened : trimStart (gap ++ '(' :: (inside ++ [')']) ++ t) = '(' :: (inside ++ ')' :: t) := by
    have solid : isSpace '(' = false := by decide
    have full : StartsFull ('(' :: (inside ++ ')' :: t)) := solid
    simp only [List.append_assoc, List.cons_append, List.nil_append]
    rw [trimStart_append_of_isBlank blank, trimStart_eq_self full]
  have closed : (inside ++ ')' :: t).dropWhile (· != ')') = ')' :: t := by
    rw [List.dropWhile_append_of_pos]
    · exact List.dropWhile_cons_of_neg (by simp)
    · intro c member
      rw [bne_iff_ne]
      rintro rfl
      exact single member
  rw [afterArguments, opened]
  simp only [closed]

theorem head?_append_of_isArguments {arguments : Text} (closed : IsArguments arguments) (t : Text) :
    (arguments ++ t).head?.any isWord = false := by
  obtain ⟨gap, inside, rfl, blank, -⟩ := closed
  cases gap with
  | nil => rfl
  | cons c gap => exact isWord_eq_false_of_isSpace (isBlank_iff.1 blank c List.mem_cons_self)

theorem found_atSign_append (m : Modifiers) (isFirst : Bool) {name t : Text} (nonempty : name ≠ [])
    (word : ∀ c ∈ name, isWord c = true) (stop : t.head?.any isWord = false) :
    m.Found isFirst ('@' :: (name ++ t)) [] (afterArguments t) := by
  have found : m.Found isFirst ('@' :: (name ++ t)) [] _ :=
    .atSign (by rwa [takeWhile_append_of_stop word stop])
  rwa [dropWhile_append_of_stop word stop] at found

theorem afterArguments_of_not_prefix {t : Text} (absent : ¬ ['('] <+: trimStart t) :
    afterArguments t = t := by
  unfold afterArguments
  split
  · rename_i inside opened
    rw [opened] at absent
    simp at absent
  · rfl

theorem afterArguments_cases (t : Text) :
    afterArguments t = t ∨ ∃ arguments, IsArguments arguments ∧ t = arguments ++ afterArguments t := by
  unfold afterArguments
  split
  · rename_i inside opened
    split
    · rename_i c rest closed
      right
      have mark : c = ')' := by
        have stop := List.head_dropWhile_not (p := (· != ')')) (l := inside) (by simp [closed])
        simpa [closed] using stop
      subst mark
      have arguments := List.takeWhile_append_dropWhile (p := (· != ')')) (l := inside)
      refine ⟨leadingSpace t ++ '(' :: (inside.takeWhile (· != ')') ++ [')']),
        ⟨_, _, rfl, isBlank_leadingSpace t, ?_⟩, ?_⟩
      · intro member
        have other := List.all_eq_true.1 List.all_takeWhile ')' member
        simp at other
      · conv => lhs; rw [← leadingSpace_append_trimStart t, opened, ← arguments, closed]
        simp
    · exact Or.inl rfl
  · exact Or.inl rfl

theorem matchAt?_nil (m : Modifiers) (isFirst : Bool) : m.matchAt? isFirst [] = none := by
  apply Option.eq_none_iff_forall_ne_some.2
  intro parts found
  have shorter := length_matchAt? found
  cases shorter

theorem stripFrom_nil (m : Modifiers) (isFirst : Bool) : m.stripFrom isFirst [] = [] := by
  rw [stripFrom]

theorem stripFrom_of_none {m : Modifiers} {isFirst : Bool} {c : Char} {t : Text}
    (none : m.matchAt? isFirst (c :: t) = none) :
    m.stripFrom isFirst (c :: t) = c :: m.stripFrom false t := by
  rw [stripFrom]
  split
  · rename_i found
    rw [none] at found
    cases found
  · rfl

theorem stripFrom_of_some {m : Modifiers} {isFirst : Bool} {t kept rest : Text}
    (some : m.matchAt? isFirst t = some (kept, rest)) :
    m.stripFrom isFirst t = kept ++ ' ' :: m.stripFrom false rest := by
  cases t with
  | nil =>
    rw [matchAt?_nil] at some
    cases some
  | cons c t =>
    rw [stripFrom]
    split
    · rename_i found
      rw [some] at found
      cases found
      rfl
    · rename_i none
      rw [some] at none
      cases none

section

variable {m : Modifiers} (letters : m.OfLetters)

include letters

theorem OfLetters.matchAt?_cons_of_isLead {isFirst : Bool} {c : Char} (lead : isLead c = true) (t : Text) :
    m.matchAt? isFirst (c :: t) = none ↔ m.isKeyword (t.takeWhile isWord) = false := by
  rw [letters.matchAt?_eq_none_iff, ← Bool.not_eq_true]
  constructor
  · intro none named
    exact none _ _ (.behind lead named)
  · intro plain kept rest found
    cases found with
    | first named =>
      rw [List.takeWhile_cons_of_neg (by simp [isWord_eq_false_of_isLead lead]), isKeyword_nil] at named
      cases named
    | behind _ named => exact plain named
    | atSign => exact absurd lead (by decide)

/-- The start of a text differs from its other places by the keywords that stand there alone. -/
theorem OfLetters.stripFrom_true {t : Text} (plain : m.isKeyword (t.takeWhile isWord) = false) :
    m.stripFrom true t = m.stripFrom false t := by
  have same : m.matchAt? true t = m.matchAt? false t := by
    unfold matchAt?
    simp only [letters.afterAny?_eq, plain, Bool.false_eq_true, ↓reduceIte, Option.map_none]
  cases t with
  | nil => rw [stripFrom_nil, stripFrom_nil]
  | cons c t =>
    cases found : m.matchAt? false (c :: t) with
    | none => rw [stripFrom_of_none found, stripFrom_of_none (same.trans found)]
    | some parts => rw [stripFrom_of_some found, stripFrom_of_some (same.trans found)]

theorem OfLetters.stripFrom_cons {c : Char} (other : isWord c = false) (t : Text) :
    m.stripFrom true (c :: t) = m.stripFrom false (c :: t) := by
  apply letters.stripFrom_true
  rw [List.takeWhile_cons_of_neg (by simp [other]), isKeyword_nil]

end

end ApexTidy.Modifiers
