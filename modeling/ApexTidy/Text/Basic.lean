/-!
Text as a sequence of characters. Offsets into a text count the bytes of its UTF-8 form, so a text
can be cut only where a character ends. A search returns what stands before and after the place it
found, so that no offset is computed only to be looked up again.
-/

namespace ApexTidy

abbrev Text := List Char

namespace Text

/-- Bytes of the UTF-8 form. -/
def size : Text → Nat
  | [] => 0
  | c :: t => c.utf8Size + size t

@[simp] theorem size_nil : size [] = 0 := rfl

@[simp] theorem size_cons (c : Char) (t : Text) : size (c :: t) = c.utf8Size + size t := rfl

@[simp] theorem size_append (a b : Text) : size (a ++ b) = size a + size b := by
  induction a with
  | nil => simp
  | cons c a ih => simp only [List.cons_append, size_cons, ih]; omega

/-- Cuts a text after its first `n` bytes. There is no cut past the end or inside a character. -/
def splitAt? : Text → Nat → Option (Text × Text)
  | t, 0 => some ([], t)
  | [], _ + 1 => none
  | c :: t, n + 1 =>
    if c.utf8Size ≤ n + 1 then
      (splitAt? t (n + 1 - c.utf8Size)).map fun (a, b) => (c :: a, b)
    else
      none

def isBoundary (t : Text) (n : Nat) : Bool := (splitAt? t n).isSome

theorem splitAt?_zero (t : Text) : splitAt? t 0 = some ([], t) := by
  cases t <;> rfl

theorem splitAt?_size_append (a b : Text) : splitAt? (a ++ b) (size a) = some (a, b) := by
  induction a with
  | nil => exact splitAt?_zero b
  | cons c a ih =>
    have positive := c.utf8Size_pos
    obtain ⟨n, hn⟩ : ∃ n, size (c :: a) = n + 1 := ⟨size (c :: a) - 1, by simp only [size_cons]; omega⟩
    have rest : n + 1 - c.utf8Size = size a := by simp only [size_cons] at hn; omega
    have fits : c.utf8Size ≤ n + 1 := by simp only [size_cons] at hn; omega
    simp [hn, splitAt?, fits, rest, ih]

theorem eq_append_of_splitAt? {t a b : Text} {n : Nat} (cut : splitAt? t n = some (a, b)) :
    t = a ++ b ∧ size a = n := by
  fun_induction splitAt? t n generalizing a b with
  | case1 => simp_all
  | case2 => simp at cut
  | case3 c t n fits ih =>
    obtain ⟨⟨x, y⟩, found, same⟩ := Option.map_eq_some_iff.1 cut
    obtain ⟨rfl, measured⟩ := ih found
    simp only [Prod.mk.injEq] at same
    obtain ⟨rfl, rfl⟩ := same
    exact ⟨rfl, by simp only [size_cons, measured]; omega⟩
  | case4 => simp at cut

/-- As many leading characters as fit into `n` bytes. -/
def takeSize : Nat → Text → Text
  | _, [] => []
  | n, c :: t => if c.utf8Size ≤ n then c :: takeSize (n - c.utf8Size) t else []

def dropSize : Nat → Text → Text
  | _, [] => []
  | n, c :: t => if c.utf8Size ≤ n then dropSize (n - c.utf8Size) t else c :: t

@[simp] theorem takeSize_append_dropSize (n : Nat) (t : Text) : takeSize n t ++ dropSize n t = t := by
  induction t generalizing n with
  | nil => rfl
  | cons c t ih =>
    rw [takeSize, dropSize]
    split
    · simp [ih]
    · rfl

theorem takeSize_zero (t : Text) : takeSize 0 t = [] := by
  cases t with
  | nil => rfl
  | cons c t =>
    have positive := c.utf8Size_pos
    simp [takeSize, show ¬ c.utf8Size ≤ 0 by omega]

theorem takeSize_size_append (a b : Text) : takeSize (size a) (a ++ b) = a := by
  induction a with
  | nil => exact takeSize_zero b
  | cons c a ih => simp [takeSize, ih]

theorem dropSize_size_append (a b : Text) : dropSize (size a) (a ++ b) = b := by
  have whole := takeSize_append_dropSize (size a) (a ++ b)
  rw [takeSize_size_append] at whole
  exact List.append_cancel_left whole

theorem length_dropWhile_le (p : Char → Bool) (t : Text) : (t.dropWhile p).length ≤ t.length :=
  (List.dropWhile_suffix p).length_le

def afterStart? : Text → Text → Option Text
  | [], t => some t
  | _ :: _, [] => none
  | m :: mark, c :: t => if m = c then afterStart? mark t else none

theorem afterStart?_eq_some_iff {mark t rest : Text} :
    afterStart? mark t = some rest ↔ t = mark ++ rest := by
  fun_induction afterStart? mark t with
  | case1 t => simp
  | case2 => simp
  | case3 mark c t ih => simp [ih]
  | case4 m mark c t differs => simp [Ne.symm differs]

theorem length_afterStart? {mark t rest : Text} (found : afterStart? mark t = some rest) :
    rest.length ≤ t.length := by
  rw [afterStart?_eq_some_iff.1 found, List.length_append]
  omega

def beforeEnd? (mark t : Text) : Option Text :=
  (afterStart? mark.reverse t.reverse).map List.reverse

theorem beforeEnd?_eq_some_iff {mark t rest : Text} :
    beforeEnd? mark t = some rest ↔ t = rest ++ mark := by
  unfold beforeEnd?
  constructor
  · intro found
    obtain ⟨r, ending, rfl⟩ := Option.map_eq_some_iff.1 found
    have same := congrArg List.reverse (afterStart?_eq_some_iff.1 ending)
    simpa using same
  · rintro rfl
    refine Option.map_eq_some_iff.2 ⟨rest.reverse, afterStart?_eq_some_iff.2 ?_, ?_⟩ <;> simp

def startsWith (mark t : Text) : Bool := (afterStart? mark t).isSome

def endsWith (mark t : Text) : Bool := (beforeEnd? mark t).isSome

def breakAt? (mark : Text) : Text → Option (Text × Text)
  | [] => (afterStart? mark []).map ([], ·)
  | c :: t =>
    match afterStart? mark (c :: t) with
    | some rest => some ([], rest)
    | none => (breakAt? mark t).map fun (a, b) => (c :: a, b)

def breakAtLast? (mark : Text) : Text → Option (Text × Text)
  | [] => (afterStart? mark []).map ([], ·)
  | c :: t =>
    match breakAtLast? mark t with
    | some (a, b) => some (c :: a, b)
    | none => (afterStart? mark (c :: t)).map ([], ·)

def occursIn (mark t : Text) : Bool := (breakAt? mark t).isSome

theorem eq_append_of_breakAt? {mark t a b : Text} (found : breakAt? mark t = some (a, b)) :
    t = a ++ mark ++ b := by
  induction t generalizing a b with
  | nil =>
    obtain ⟨r, start, same⟩ := Option.map_eq_some_iff.1 found
    simp only [Prod.mk.injEq] at same
    obtain ⟨rfl, rfl⟩ := same
    simpa using afterStart?_eq_some_iff.1 start
  | cons c t ih =>
    rw [breakAt?] at found
    split at found
    · rename_i rest start
      simp only [Option.some.injEq, Prod.mk.injEq] at found
      obtain ⟨rfl, rfl⟩ := found
      simpa using afterStart?_eq_some_iff.1 start
    · obtain ⟨⟨x, y⟩, later, same⟩ := Option.map_eq_some_iff.1 found
      simp only [Prod.mk.injEq] at same
      obtain ⟨rfl, rfl⟩ := same
      simp [ih later]

theorem eq_append_of_breakAtLast? {mark t a b : Text} (found : breakAtLast? mark t = some (a, b)) :
    t = a ++ mark ++ b := by
  induction t generalizing a b with
  | nil =>
    obtain ⟨r, start, same⟩ := Option.map_eq_some_iff.1 found
    simp only [Prod.mk.injEq] at same
    obtain ⟨rfl, rfl⟩ := same
    simpa using afterStart?_eq_some_iff.1 start
  | cons c t ih =>
    rw [breakAtLast?] at found
    split at found
    · rename_i x y later
      simp only [Option.some.injEq, Prod.mk.injEq] at found
      obtain ⟨rfl, rfl⟩ := found
      simp [ih later]
    · obtain ⟨r, start, same⟩ := Option.map_eq_some_iff.1 found
      simp only [Prod.mk.injEq] at same
      obtain ⟨rfl, rfl⟩ := same
      simpa using afterStart?_eq_some_iff.1 start

end Text

end ApexTidy
