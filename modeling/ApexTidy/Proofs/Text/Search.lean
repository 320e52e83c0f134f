import ApexTidy.Text.Basic

/-!
Where a mark stands in a text. The searches that break a text at a mark succeed exactly if the mark
occurs in it, and what they return tells the first and the last occurrence apart. A character that no
mark holds keeps the occurrences on its two sides apart.
-/

namespace ApexTidy.Text

def StandsAt (mark t : Text) (place : Nat) : Prop :=
  ∃ before after, t = before ++ mark ++ after ∧ size before = place

/-- The first byte from `least` on at which the mark stands. -/
structure IsFirstFrom (mark t : Text) (least place : Nat) : Prop where
  reached : least ≤ place
  stands : StandsAt mark t place
  first : ∀ other, least ≤ other → StandsAt mark t other → place ≤ other

theorem size_eq_zero_iff {t : Text} : size t = 0 ↔ t = [] := by
  cases t with
  | nil => simp
  | cons c t =>
    have positive := c.utf8Size_pos
    simp only [size_cons, reduceCtorEq, iff_false]
    omega

theorem exists_append_of_size_le {a b x y : Text} (same : a ++ x = b ++ y) (le : size a ≤ size b) :
    ∃ rest, b = a ++ rest := by
  rcases List.append_eq_append_iff.1 same with ⟨rest, longer, -⟩ | ⟨rest, shorter, -⟩
  · exact ⟨rest, longer⟩
  · have none : size rest = 0 := by
      rw [shorter, size_append] at le
      omega
    rw [size_eq_zero_iff] at none
    exact ⟨[], by rw [shorter, none, List.append_nil, List.append_nil]⟩

theorem eq_of_size_eq {a b x y : Text} (same : a ++ x = b ++ y) (sizes : size a = size b) : a = b := by
  obtain ⟨rest, rfl⟩ := exists_append_of_size_le same (Nat.le_of_eq sizes)
  have none : size rest = 0 := by
    rw [size_append] at sizes
    omega
  rw [size_eq_zero_iff.1 none, List.append_nil]

theorem isBoundary_iff {t : Text} {n : Nat} : t.isBoundary n = true ↔ ∃ a b, t = a ++ b ∧ size a = n := by
  rw [isBoundary, Option.isSome_iff_exists]
  constructor
  · rintro ⟨⟨a, b⟩, cut⟩
    exact ⟨a, b, eq_append_of_splitAt? cut⟩
  · rintro ⟨a, b, rfl, rfl⟩
    exact ⟨_, splitAt?_size_append a b⟩

theorem standsAt_size_iff {mark a b : Text} : StandsAt mark (a ++ b) (size a) ↔ mark <+: b := by
  constructor
  · intro stands
    obtain ⟨before, after, whole, sizes⟩ := stands
    rw [List.append_assoc] at whole
    rw [← eq_of_size_eq whole sizes.symm] at whole
    exact ⟨after, (List.append_cancel_left whole).symm⟩
  · intro start
    obtain ⟨after, rfl⟩ := start
    exact ⟨a, after, by rw [List.append_assoc], rfl⟩

theorem standsAt_iff {mark t : Text} {place : Nat} :
    StandsAt mark t place ↔ ∃ parts, splitAt? t place = some parts ∧ mark <+: parts.2 := by
  constructor
  · intro stands
    obtain ⟨before, after, rfl, rfl⟩ := stands
    rw [List.append_assoc]
    exact ⟨_, splitAt?_size_append before (mark ++ after), List.prefix_append ..⟩
  · intro found
    obtain ⟨⟨before, rest⟩, cut, start⟩ := found
    obtain ⟨rfl, rfl⟩ := eq_append_of_splitAt? cut
    exact standsAt_size_iff.2 start

theorem isFirstFrom_iff_forall_lt {mark t : Text} {least place : Nat} :
    IsFirstFrom mark t least place ↔
      least ≤ place ∧ StandsAt mark t place ∧
        ∀ other, other < place → least ≤ other → ¬ StandsAt mark t other := by
  constructor
  · intro isFirst
    obtain ⟨reached, stands, first⟩ := isFirst
    refine ⟨reached, stands, fun other earlier later found => ?_⟩
    exact Nat.not_le_of_lt earlier (first other later found)
  · intro parts
    obtain ⟨reached, stands, absent⟩ := parts
    refine ⟨reached, stands, fun other later found => ?_⟩
    exact Nat.le_of_not_lt fun earlier => absent other earlier later found

instance (mark t : Text) (place : Nat) : Decidable (StandsAt mark t place) :=
  decidable_of_iff (∃ parts, splitAt? t place = some parts ∧ mark <+: parts.2) standsAt_iff.symm

instance (mark t : Text) (least place : Nat) : Decidable (IsFirstFrom mark t least place) :=
  decidable_of_iff _ isFirstFrom_iff_forall_lt.symm

theorem startsWith_iff {mark t : Text} : startsWith mark t = true ↔ mark <+: t := by
  rw [startsWith, Option.isSome_iff_exists]
  constructor
  · intro starts
    obtain ⟨rest, found⟩ := starts
    exact ⟨rest, (afterStart?_eq_some_iff.1 found).symm⟩
  · intro start
    obtain ⟨rest, whole⟩ := start
    exact ⟨rest, afterStart?_eq_some_iff.2 whole.symm⟩

theorem endsWith_iff {mark t : Text} : endsWith mark t = true ↔ mark <:+ t := by
  unfold endsWith
  rw [Option.isSome_iff_exists]
  constructor
  · intro found
    obtain ⟨rest, cut⟩ := found
    exact ⟨rest, (beforeEnd?_eq_some_iff.1 cut).symm⟩
  · intro ends
    obtain ⟨rest, whole⟩ := ends
    exact ⟨rest, beforeEnd?_eq_some_iff.2 whole.symm⟩

theorem afterStart?_eq_none_iff {mark t : Text} : afterStart? mark t = none ↔ ¬ mark <+: t := by
  rw [← startsWith_iff, startsWith, Bool.not_eq_true, Option.isSome_eq_false_iff,
    Option.isNone_iff_eq_none]

@[simp] theorem afterStart?_append (mark rest : Text) : afterStart? mark (mark ++ rest) = some rest :=
  afterStart?_eq_some_iff.2 rfl

@[simp] theorem beforeEnd?_append (mark rest : Text) : beforeEnd? mark (rest ++ mark) = some rest :=
  beforeEnd?_eq_some_iff.2 rfl

theorem breakAt?_eq_none_iff {mark t : Text} : breakAt? mark t = none ↔ ¬ mark <:+: t := by
  induction t with
  | nil =>
    rw [breakAt?, Option.map_eq_none_iff, afterStart?_eq_none_iff, List.prefix_nil, List.infix_nil]
  | cons c t ih =>
    rw [breakAt?, List.infix_cons_iff, not_or, ← afterStart?_eq_none_iff, ← ih]
    cases afterStart? mark (c :: t) with
    | none => simp
    | some rest => simp

theorem occursIn_iff {mark t : Text} : occursIn mark t = true ↔ mark <:+: t := by
  rw [occursIn, Option.isSome_iff_ne_none, Ne, breakAt?_eq_none_iff, Decidable.not_not]

theorem breakAtLast?_eq_none_iff {mark t : Text} : breakAtLast? mark t = none ↔ ¬ mark <:+: t := by
  induction t with
  | nil =>
    rw [breakAtLast?, Option.map_eq_none_iff, afterStart?_eq_none_iff, List.prefix_nil,
      List.infix_nil]
  | cons c t ih =>
    rw [breakAtLast?, List.infix_cons_iff, not_or, ← afterStart?_eq_none_iff, ← ih]
    cases breakAtLast? mark t with
    | none => simp
    | some found => simp

/-- Nothing that the search passed over, with what it could begin there, holds the mark. -/
theorem not_infix_of_breakAt? {mark t a b : Text} (nonempty : mark ≠ [])
    (found : breakAt? mark t = some (a, b)) : ¬ mark <:+: a ++ mark.dropLast := by
  induction t generalizing a b with
  | nil =>
    obtain ⟨r, start, same⟩ := Option.map_eq_some_iff.1 found
    have whole := afterStart?_eq_some_iff.1 start
    exact absurd (List.append_eq_nil_iff.1 whole.symm).1 nonempty
  | cons c t ih =>
    rw [breakAt?] at found
    split at found
    · simp only [Option.some.injEq, Prod.mk.injEq] at found
      rw [← found.1, List.nil_append]
      intro inside
      have fits := inside.length_le
      have positive := List.length_pos_iff.2 nonempty
      rw [List.length_dropLast] at fits
      omega
    · rename_i absent
      obtain ⟨⟨x, y⟩, later, same⟩ := Option.map_eq_some_iff.1 found
      simp only [Prod.mk.injEq] at same
      obtain ⟨rfl, rfl⟩ := same
      rw [List.cons_append, List.infix_cons_iff, not_or]
      refine ⟨?_, ih later⟩
      intro start
      rw [afterStart?_eq_none_iff, eq_append_of_breakAt? later, List.append_assoc,
        ← List.cons_append] at absent
      apply absent
      apply start.trans
      rw [← List.cons_append]
      exact (List.prefix_append_right_inj _).2 ((List.dropLast_prefix mark).trans (List.prefix_append ..))

theorem breakAt?_append {mark a : Text} (nonempty : mark ≠ [])
    (first : ¬ mark <:+: a ++ mark.dropLast) (b : Text) :
    breakAt? mark (a ++ mark ++ b) = some (a, b) := by
  induction a with
  | nil =>
    obtain ⟨m, rest, rfl⟩ := List.exists_cons_of_ne_nil nonempty
    have start := afterStart?_append (m :: rest) b
    rw [List.cons_append] at start
    rw [List.nil_append, List.cons_append, breakAt?, start]
  | cons c a ih =>
    rw [List.cons_append, List.infix_cons_iff, not_or] at first
    have absent : afterStart? mark (c :: (a ++ mark ++ b)) = none := by
      rw [afterStart?_eq_none_iff]
      intro start
      -- a mark that begins here ends before the last character of the next one
      apply first.1
      refine List.prefix_of_prefix_length_le start ?_ ?_
      · rw [List.append_assoc, List.cons_prefix_cons, List.prefix_append_right_inj]
        exact ⟨rfl, (List.dropLast_prefix mark).trans (List.prefix_append ..)⟩
      · simp only [List.length_cons, List.length_append, List.length_dropLast]
        omega
    rw [List.cons_append, List.cons_append, breakAt?, absent, ih first.2]
    rfl

theorem breakAtLast?_append {mark b : Text} (nonempty : mark ≠ [])
    (last : ¬ mark <:+: mark.tail ++ b) (a : Text) :
    breakAtLast? mark (a ++ mark ++ b) = some (a, b) := by
  induction a with
  | nil =>
    obtain ⟨m, rest, rfl⟩ := List.exists_cons_of_ne_nil nonempty
    rw [List.tail_cons, ← breakAtLast?_eq_none_iff] at last
    have start := afterStart?_append (m :: rest) b
    rw [List.cons_append] at start
    rw [List.nil_append, List.cons_append, breakAtLast?, last]
    simp only [start, Option.map_some]
  | cons c a ih =>
    rw [List.cons_append, List.cons_append, breakAtLast?, ih]

/-- A mark that begins before another one has ended before the last character of that one. -/
theorem prefix_append_dropLast {mark rest after b : Text} (nonempty : rest ≠ [])
    (whole : rest ++ mark ++ b = mark ++ after) : mark <+: rest ++ mark.dropLast := by
  obtain ⟨c, rest, rfl⟩ := List.exists_cons_of_ne_nil nonempty
  refine List.prefix_of_prefix_length_le (List.prefix_append mark after) ?_ ?_
  · rw [← whole, List.append_assoc]
    exact (List.prefix_append_right_inj _).2
      ((List.dropLast_prefix mark).trans (List.prefix_append ..))
  · simp only [List.length_append, List.length_cons, List.length_dropLast]
    omega

theorem IsFirstFrom.not_infix {mark a body b : Text} (nonempty : mark ≠ [])
    (isFirst : IsFirstFrom mark (a ++ (body ++ mark ++ b)) (size a) (size a + size body)) :
    ¬ mark <:+: body ++ mark.dropLast := by
  have positive := List.length_pos_iff.2 nonempty
  have ended := List.dropLast_concat_getLast nonempty
  rintro ⟨x, y, inside⟩
  have whole : body ++ mark ++ b = x ++ mark ++ (y ++ [mark.getLast nonempty] ++ b) := by
    calc
      _ = body ++ mark.dropLast ++ [mark.getLast nonempty] ++ b := by
        rw [List.append_assoc body mark.dropLast, ended]
      _ = x ++ mark ++ y ++ [mark.getLast nonempty] ++ b := by rw [inside]
      _ = _ := by simp only [List.append_assoc]
  obtain ⟨-, -, first⟩ := isFirst
  have earlier := first (size a + size x) (Nat.le_add_right _ _)
    ⟨a ++ x, y ++ [mark.getLast nonempty] ++ b, by rw [whole]; simp only [List.append_assoc],
      size_append a x⟩
  obtain ⟨rest, rfl⟩ := exists_append_of_size_le
    (show body ++ mark.dropLast = x ++ (mark ++ y) by rw [← inside, List.append_assoc])
    (by omega)
  have lengths := congrArg List.length inside
  simp only [List.length_append, List.length_dropLast] at lengths
  omega

theorem isFirstFrom_of_not_infix {mark a body b : Text} (absent : ¬ mark <:+: body ++ mark.dropLast) :
    IsFirstFrom mark (a ++ (body ++ mark ++ b)) (size a) (size a + size body) := by
  refine ⟨Nat.le_add_right _ _, ⟨a ++ body, b, by simp, size_append a body⟩, ?_⟩
  intro other later found
  obtain ⟨before, after, whole, rfl⟩ := found
  obtain ⟨x, rfl⟩ := exists_append_of_size_le
    (show a ++ (body ++ mark ++ b) = before ++ (mark ++ after) by rw [whole, List.append_assoc]) later
  simp only [List.append_assoc, List.append_cancel_left_eq] at whole
  rw [size_append, Nat.add_le_add_iff_left]
  apply Nat.le_of_not_lt
  intro earlier
  obtain ⟨rest, rfl⟩ := exists_append_of_size_le whole.symm (Nat.le_of_lt earlier)
  have begun : rest ≠ [] := by
    rintro rfl
    simp at earlier
  have inside : rest ++ mark ++ b = mark ++ after := by simpa [List.append_assoc] using whole
  apply absent
  rw [List.append_assoc]
  exact List.infix_append_of_infix_right (prefix_append_dropLast begun inside).isInfix

/-- The occurrence of a mark at the end of `body` is the first one if none begins in `body`. -/
theorem isFirstFrom_iff {mark a body b : Text} (nonempty : mark ≠ []) :
    IsFirstFrom mark (a ++ (body ++ mark ++ b)) (size a) (size a + size body) ↔
      ¬ mark <:+: body ++ mark.dropLast :=
  ⟨IsFirstFrom.not_infix nonempty, isFirstFrom_of_not_infix⟩

theorem infix_append_cons_iff {mark a b : Text} {c : Char} (absent : c ∉ mark) :
    mark <:+: a ++ c :: b ↔ mark <:+: a ∨ mark <:+: b := by
  constructor
  · intro inside
    rcases List.infix_append_iff.1 inside with left | right | ⟨first, second, rfl, ends, starts⟩
    · exact Or.inl left
    · rcases List.infix_cons_iff.1 right with start | later
      · cases mark with
        | nil => exact Or.inl List.nil_infix
        | cons m mark =>
          have same := (List.cons_prefix_cons.1 start).1
          exact absurd (same ▸ List.mem_cons_self) absent
      · exact Or.inr later
    · cases second with
      | nil => exact Or.inl (by simpa using ends.isInfix)
      | cons m second =>
        have same := (List.cons_prefix_cons.1 starts).1
        exact absurd (List.mem_append_right _ (same ▸ List.mem_cons_self)) absent
  · intro held
    rcases held with left | right
    · exact List.infix_append_of_infix_left left
    · exact List.infix_append_of_infix_right (List.infix_cons right)

theorem infix_cons_iff_of_absent {mark b : Text} {c : Char} (absent : c ∉ mark) :
    mark <:+: c :: b ↔ mark <:+: b := by
  rw [← List.nil_append (c :: b), infix_append_cons_iff absent, List.infix_nil]
  constructor
  · intro held
    rcases held with rfl | inside
    · exact List.nil_infix
    · exact inside
  · exact Or.inr

end ApexTidy.Text
