import ApexTidy.Proofs.Declaration.Slicing

/-!
The parenthesis that closes a list. A list ends in front of the first parenthesis that closes more than has
been opened since its start, so what stands before it is balanced, and nothing else at the start of the text
is a list. A text without such a parenthesis is read to its end. The parentheses that stand open are counted
along the way, the one in front of the list included, and the count is never asked to fall below zero.
-/

namespace ApexTidy.Signature

open Text

/-- No beginning of the text closes more parentheses than it opens, and all that are opened are closed. -/
structure IsBalanced (t : Text) : Prop where
  opens : ∀ p, p <+: t → p.count ')' ≤ p.count '('
  ends : t.count ')' = t.count '('

structure IsListOf (t inner : Text) : Prop where
  balanced : IsBalanced inner
  closed : ∃ tail, t = inner ++ ')' :: tail

/-- Behind `depth` open parentheses, all of them are closed and all that the text opens itself, and no
beginning of the text closes more. -/
structure Closes (depth : Nat) (t : Text) : Prop where
  within : ∀ p, p <+: t → p.count ')' ≤ depth + p.count '('
  ends : t.count ')' = depth + t.count '('

theorem isBalanced_iff {t : Text} : IsBalanced t ↔ Closes 0 t := by
  constructor
  · rintro ⟨opens, ends⟩
    exact ⟨by simpa using opens, by simpa using ends⟩
  · rintro ⟨within, ends⟩
    exact ⟨by simpa using within, by simpa using ends⟩

theorem isBalanced_iff_inits {t : Text} :
    IsBalanced t ↔ (∀ p ∈ t.inits, p.count ')' ≤ p.count '(') ∧ t.count ')' = t.count '(' := by
  simp only [List.mem_inits]
  exact ⟨fun balanced => ⟨balanced.opens, balanced.ends⟩, fun parts => ⟨parts.1, parts.2⟩⟩

instance (t : Text) : Decidable (IsBalanced t) := decidable_of_iff _ isBalanced_iff_inits.symm

theorem closes_nil : Closes 0 [] := by
  refine ⟨?_, rfl⟩
  intro p start
  rw [List.prefix_nil.1 start]
  exact Nat.le_refl _

theorem closes_cons_iff {depth next : Nat} {c : Char} {t : Text}
    (step : next + [c].count ')' = depth + [c].count '(') : Closes depth (c :: t) ↔ Closes next t := by
  have parts : ∀ mark p, (c :: p).count mark = [c].count mark + p.count mark := by
    intro mark p
    rw [← List.singleton_append, List.count_append]
  constructor
  · rintro ⟨within, ends⟩
    refine ⟨?_, ?_⟩
    · intro p start
      have whole := within (c :: p) (List.cons_prefix_cons.2 ⟨rfl, start⟩)
      rw [parts ')' p, parts '(' p] at whole
      omega
    · rw [parts ')' t, parts '(' t] at ends
      omega
  · rintro ⟨within, ends⟩
    refine ⟨?_, ?_⟩
    · intro p start
      rcases List.prefix_cons_iff.1 start with rfl | ⟨q, rfl, later⟩
      · exact Nat.zero_le _
      · have rest := within q later
        rw [parts ')' q, parts '(' q]
        omega
    · rw [parts ')' t, parts '(' t]
      omega

theorem not_closes_zero_close (t : Text) : ¬ Closes 0 (')' :: t) := by
  rintro ⟨within, -⟩
  have first := within [')'] (List.cons_prefix_cons.2 ⟨rfl, List.nil_prefix⟩)
  simp at first

/-! ### Counting -/

/-- The parentheses that stand open behind one more character. There is no number below zero. -/
def openBehind? (count : Nat) (c : Char) : Option Nat :=
  if c = '(' then some (count + 1)
  else if c = ')' then if 0 < count then some (count - 1) else none
  else some count

/-- The offset of the parenthesis that brings the count to zero, if there is one. The outer option is for
the count. -/
def closingPlace? (count place : Nat) : Text → Option (Option Nat)
  | [] => some none
  | c :: t =>
    match openBehind? count c with
    | none => none
    | some next =>
      if c = ')' ∧ next = 0 then some (some place) else closingPlace? next (place + c.utf8Size) t

def countedList? (t : Text) : Option Text :=
  match closingPlace? 1 0 t with
  | none => none
  | some none => some t
  | some (some place) => t.slice? 0 place

theorem closes_or_goes_on (depth : Nat) (c : Char) :
    depth = 0 ∧ c = ')' ∨
      ∃ next, openBehind? (depth + 1) c = some (next + 1) ∧
        next + [c].count ')' = depth + [c].count '(' ∧
        ∀ t, upToClose depth (c :: t) = c :: upToClose next t := by
  by_cases opening : c = '('
  · subst opening
    exact Or.inr ⟨depth + 1, rfl, rfl, fun t => by rw [upToClose]⟩
  · by_cases closing : c = ')'
    · subst closing
      cases depth with
      | zero => exact Or.inl ⟨rfl, rfl⟩
      | succ depth => exact Or.inr ⟨depth, rfl, rfl, fun t => by rw [upToClose]⟩
    · refine Or.inr ⟨depth, ?_, ?_, ?_⟩
      · rw [openBehind?, if_neg opening, if_neg closing]
      · rw [List.count_eq_zero_of_not_mem (by simpa using Ne.symm closing),
          List.count_eq_zero_of_not_mem (by simpa using Ne.symm opening)]
      · intro t
        rw [upToClose]
        · exact opening
        · exact fun _ => closing
        · exact fun _ _ => closing

theorem Closes.upToClose_append {depth : Nat} {inner : Text} (closes : Closes depth inner) (tail : Text) :
    upToClose depth (inner ++ ')' :: tail) = inner := by
  induction inner generalizing depth with
  | nil =>
    have none : 0 = depth := by simpa using closes.ends
    rw [← none]
    rfl
  | cons c inner ih =>
    rcases closes_or_goes_on depth c with ⟨rfl, rfl⟩ | ⟨next, -, step, reads⟩
    · exact absurd closes (not_closes_zero_close inner)
    · rw [List.cons_append, reads, ih ((closes_cons_iff step).1 closes)]

theorem closes_upToClose {depth : Nat} {t : Text} (stops : upToClose depth t ≠ t) :
    Closes depth (upToClose depth t) ∧ ∃ tail, t = upToClose depth t ++ ')' :: tail := by
  induction t generalizing depth with
  | nil => exact absurd rfl stops
  | cons c t ih =>
    rcases closes_or_goes_on depth c with ⟨rfl, rfl⟩ | ⟨next, -, step, reads⟩
    · exact ⟨closes_nil, t, rfl⟩
    · rw [reads] at stops ⊢
      obtain ⟨closes, tail, whole⟩ := ih fun all => stops (congrArg (c :: ·) all)
      exact ⟨(closes_cons_iff step).2 closes, tail, congrArg (c :: ·) whole⟩

/-- Counting goes along with reading: the count is never asked to fall below zero, and it comes to zero
where reading stops. -/
theorem closingPlace?_eq (depth place : Nat) (t : Text) :
    closingPlace? (depth + 1) place t =
      some (if upToClose depth t = t then none else some (place + size (upToClose depth t))) := by
  induction t generalizing depth place with
  | nil => rfl
  | cons c t ih =>
    rcases closes_or_goes_on depth c with ⟨rfl, rfl⟩ | ⟨next, counted, -, reads⟩
    · rfl
    · rw [closingPlace?, counted, reads]
      dsimp only
      rw [if_neg (by simp), ih, size_cons, Nat.add_assoc]
      simp only [List.cons.injEq, true_and]

theorem countedList?_eq_some (t : Text) : countedList? t = some (upToClose 0 t) := by
  rw [countedList?, closingPlace?_eq]
  by_cases all : upToClose 0 t = t
  · rw [if_pos all, all]
  · rw [if_neg all, Nat.zero_add, ← closing_eq]
    exact slice?_upToClose t

/-- A list is what stands balanced in front of a closing parenthesis. There is one such text at most, and
where there is none, all is read. Counting never falls below zero. -/
theorem upToClose_matches (t : Text) :
    (∀ inner, IsListOf t inner → upToClose 0 t = inner) ∧
      (∀ inner other, IsListOf t inner → IsListOf t other → inner = other) ∧
      ((¬ ∃ inner, IsListOf t inner) → upToClose 0 t = t) ∧
      countedList? t = some (upToClose 0 t) := by
  have found : ∀ inner, IsListOf t inner → upToClose 0 t = inner := by
    rintro inner ⟨balanced, tail, rfl⟩
    exact (isBalanced_iff.1 balanced).upToClose_append tail
  refine ⟨found, ?_, ?_, countedList?_eq_some t⟩
  · intro inner other first second
    rw [← found inner first, found other second]
  · intro absent
    by_contra stops
    obtain ⟨closes, closed⟩ := closes_upToClose stops
    exact absent ⟨_, isBalanced_iff.2 closes, closed⟩

theorem upToClose_matches_nested :
    let t : Text := "A a, m(b, (c)) d) (e)".toList
    let inner : Text := "A a, m(b, (c)) d".toList
    let unclosed : Text := "A a, m((b) c".toList
    IsListOf t inner ∧ upToClose 0 t = inner ∧ (∀ other, IsListOf t other → other = inner) ∧
      (¬ ∃ inner, IsListOf unclosed inner) ∧ upToClose 0 unclosed = unclosed ∧
      countedList? t = some inner := by
  intro t inner unclosed
  obtain ⟨found, single, -, counted⟩ := upToClose_matches t
  obtain ⟨-, -, all, -⟩ := upToClose_matches unclosed
  have list : IsListOf t inner := ⟨by decide, " (e)".toList, rfl⟩
  have stays : ∀ p ∈ unclosed.inits, IsBalanced p → ¬ p ++ [')'] <+: unclosed := by decide
  have absent : ¬ ∃ inner, IsListOf unclosed inner := by
    rintro ⟨p, balanced, tail, whole⟩
    have start : p ++ [')'] <+: unclosed := ⟨tail, by rw [whole]; simp⟩
    exact stays p ((List.mem_inits p unclosed).2 ((List.prefix_append p [')']).trans start)) balanced start
  rw [found inner list] at counted
  exact ⟨list, found inner list, fun other second => single other inner second list, absent, all absent,
    counted⟩

end ApexTidy.Signature
