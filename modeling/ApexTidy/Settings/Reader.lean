import ApexTidy.Settings.Basic
import ApexTidy.Settings.Quoted

/-!
Reading a settings file: one assignment a line, to each of three keys at most once, with comments and
empty lines between. Nothing else that the file format knows has a place in such a file.
-/

namespace ApexTidy.Settings

open Text

/-- Passes over gaps, line ends and comments. The flag tells that a comment is being passed over. -/
def skipFrom : Bool → Text → Text
  | _, [] => []
  | true, c :: t =>
    if c == '\n' then skipFrom false t
    else if isPlain c || c == '\r' && t.head? == some '\n' then skipFrom true t
    else c :: t
  | false, c :: t =>
    if isGap c || c == '\n' || c == '\r' && t.head? == some '\n' then skipFrom false t
    else if c == '#' then skipFrom true t
    else c :: t

def skip (t : Text) : Text := skipFrom false t

theorem length_skip (t : Text) : (skip t).length ≤ t.length := by
  unfold skip
  fun_induction skipFrom false t <;> grind

def isKeyChar (c : Char) : Bool := c.isAlphanum || c == '_' || c == '-'

def key? (t : Text) : Option (Text × Text) :=
  match shortText? t with
  | some found => some found
  | none =>
    let name := t.takeWhile isKeyChar
    if name.isEmpty then none else some (name, t.dropWhile isKeyChar)

theorem length_key? {t name rest : Text} (found : key? t = some (name, rest)) :
    rest.length ≤ t.length := by
  unfold key? at found
  split at found
  · rename_i quoted
    cases found
    exact Nat.le_of_lt (length_shortText? quoted)
  · dsimp only at found
    split at found
    · simp at found
    · cases found
      exact length_dropWhile_le isKeyChar t

def afterEquals? (t : Text) : Option Text :=
  (afterStart? ['='] (t.dropWhile isGap)).map (·.dropWhile isGap)

theorem length_afterEquals? {t rest : Text} (found : afterEquals? t = some rest) :
    rest.length < t.length := by
  obtain ⟨value, equals, rfl⟩ := Option.map_eq_some_iff.1 found
  have gap := length_dropWhile_le isGap t
  have value_gap := length_dropWhile_le isGap value
  rw [afterStart?_eq_some_iff.1 equals] at gap
  simp only [List.cons_append, List.nil_append, List.length_cons] at gap
  omega

/-- Reads digits between which single underscores may stand, and leaves these out. -/
def digitRun (base : Nat) : Text → Text × Text
  | [] => ([], [])
  | c :: t =>
    if (digitValue? base c).isSome || c == '_' && t.head?.any fun d => (digitValue? base d).isSome then
      let (digits, rest) := digitRun base t
      (if c == '_' then digits else c :: digits, rest)
    else
      ([], c :: t)

theorem length_digitRun (base : Nat) (t : Text) : (digitRun base t).2.length ≤ t.length := by
  fun_induction digitRun base t <;> grind

def natural? (base : Nat) (t : Text) : Option (Nat × Text) :=
  if t.head?.any fun d => (digitValue? base d).isSome then
    (readDigits? base (digitRun base t).1).map (·, (digitRun base t).2)
  else
    none

/-- Reads a decimal number, which has no zeros in front. -/
def decimal? : Text → Option (Nat × Text)
  | '0' :: t => some (0, t)
  | t => natural? 10 t

/-- Reads a whole number: decimal with an optional sign, or hexadecimal, octal or binary. -/
def integer? : Text → Option (Int × Text)
  | '0' :: 'x' :: t => (natural? 16 t).map fun (n, rest) => (n, rest)
  | '0' :: 'o' :: t => (natural? 8 t).map fun (n, rest) => (n, rest)
  | '0' :: 'b' :: t => (natural? 2 t).map fun (n, rest) => (n, rest)
  | '+' :: t => (decimal? t).map fun (n, rest) => (n, rest)
  | '-' :: t => (decimal? t).map fun (n, rest) => (-(n : Int), rest)
  | t => (decimal? t).map fun (n, rest) => (n, rest)

def maxInteger : Int := 9223372036854775807

def count? (t : Text) : Option (Nat × Text) :=
  match integer? t with
  | some (n, rest) => if 0 ≤ n ∧ n ≤ maxInteger then some (n.toNat, rest) else none
  | none => none

theorem length_natural? {base : Nat} {t rest : Text} {n : Nat}
    (found : natural? base t = some (n, rest)) : rest.length ≤ t.length := by
  unfold natural? at found
  split at found
  · obtain ⟨m, -, same⟩ := Option.map_eq_some_iff.1 found
    cases same
    exact length_digitRun base t
  · simp at found

theorem length_decimal? {t rest : Text} {n : Nat} (found : decimal? t = some (n, rest)) :
    rest.length ≤ t.length := by
  unfold decimal? at found
  split at found
  · cases found
    simp
  · exact length_natural? found

theorem length_integer? {t rest : Text} {n : Int} (found : integer? t = some (n, rest)) :
    rest.length ≤ t.length := by
  unfold integer? at found
  split at found <;> obtain ⟨⟨m, r⟩, read, same⟩ := Option.map_eq_some_iff.1 found <;> cases same
  · exact Nat.le_trans (length_natural? read) (by simp only [List.length_cons]; omega)
  · exact Nat.le_trans (length_natural? read) (by simp only [List.length_cons]; omega)
  · exact Nat.le_trans (length_natural? read) (by simp only [List.length_cons]; omega)
  · exact Nat.le_trans (length_decimal? read) (by simp)
  · exact Nat.le_trans (length_decimal? read) (by simp)
  · exact length_decimal? read

theorem length_count? {t rest : Text} {n : Nat} (found : count? t = some (n, rest)) :
    rest.length ≤ t.length := by
  unfold count? at found
  split at found
  · rename_i read
    split at found
    · cases found
      exact length_integer? read
    · simp at found
  · simp at found

def flag? (t : Text) : Option (Bool × Text) :=
  match afterStart? "true".toList t, afterStart? "false".toList t with
  | some rest, _ => some (true, rest)
  | none, some rest => some (false, rest)
  | none, none => none

theorem length_flag? {t rest : Text} {b : Bool} (found : flag? t = some (b, rest)) :
    rest.length ≤ t.length := by
  unfold flag? at found
  split at found
  · rename_i start
    cases found
    exact length_afterStart? start
  · rename_i start
    cases found
    exact length_afterStart? start
  · simp at found

/-- Reads the rest of a list of texts, in which a comma may follow the last one. -/
def items? (t : Text) : Option (List Text × Text) :=
  match _start : skip t with
  | ']' :: rest => some ([], rest)
  | start =>
    match _first : anyText? start with
    | none => none
    | some (first, tail) =>
      match _next : skip tail with
      | ']' :: rest => some ([first], rest)
      | ',' :: rest => (items? rest).map fun (others, rest) => (first :: others, rest)
      | _ => none
termination_by t.length
decreasing_by
  have whole := length_skip t
  have text := length_anyText? _first
  have gap := length_skip tail
  rw [_start] at whole
  rw [_next] at gap
  simp only [List.length_cons] at gap
  omega

def list? : Text → Option (List Text × Text)
  | '[' :: t => items? t
  | _ => none

theorem length_items? {t rest : Text} {list : List Text} (found : items? t = some (list, rest)) :
    rest.length ≤ t.length := by
  fun_induction items? t generalizing list rest with
  | case1 t rest closed =>
    have whole := length_skip t
    rw [closed] at whole
    cases found
    simp only [List.length_cons] at whole
    omega
  | case2 => simp at found
  | case3 t first tail rest closed _ read =>
    have whole := length_skip t
    have text := length_anyText? read
    have gap := length_skip tail
    rw [closed] at gap
    cases found
    simp only [List.length_cons] at gap
    omega
  | case4 t first tail next comma _ read ih =>
    obtain ⟨⟨others, r⟩, later, same⟩ := Option.map_eq_some_iff.1 found
    cases same
    have whole := length_skip t
    have text := length_anyText? read
    have gap := length_skip tail
    have last := ih later
    rw [comma] at gap
    simp only [List.length_cons] at gap
    omega
  | case5 => simp at found

theorem length_list? {t rest : Text} {list : List Text} (found : list? t = some (list, rest)) :
    rest.length ≤ t.length := by
  unfold list? at found
  split at found
  · exact Nat.le_succ_of_le (length_items? found)
  · simp at found

structure Draft where
  indentSize : Option Nat
  useTabs : Option Bool
  extraModifiers : Option (List Text)

namespace Draft

def empty : Draft := ⟨none, none, none⟩

/-- Assigns the value at the start of a text to a key that has none yet. -/
def assign? (d : Draft) (key value : Text) : Option (Draft × Text) :=
  if key = "indent_size".toList ∧ d.indentSize = none then
    (count? value).map fun (n, rest) => ({ d with indentSize := some n }, rest)
  else if key = "use_tabs".toList ∧ d.useTabs = none then
    (flag? value).map fun (b, rest) => ({ d with useTabs := some b }, rest)
  else if key = "extra_modifiers".toList ∧ d.extraModifiers = none then
    (list? value).map fun (list, rest) => ({ d with extraModifiers := some list }, rest)
  else
    none

theorem length_assign? {d e : Draft} {key value rest : Text}
    (found : d.assign? key value = some (e, rest)) : rest.length ≤ value.length := by
  unfold assign? at found
  split at found
  · obtain ⟨⟨n, r⟩, read, same⟩ := Option.map_eq_some_iff.1 found
    cases same
    exact length_count? read
  · split at found
    · obtain ⟨⟨b, r⟩, read, same⟩ := Option.map_eq_some_iff.1 found
      cases same
      exact length_flag? read
    · split at found
      · obtain ⟨⟨list, r⟩, read, same⟩ := Option.map_eq_some_iff.1 found
        cases same
        exact length_list? read
      · simp at found

def endsLine (t : Text) : Bool :=
  let rest := t.dropWhile isGap
  rest.isEmpty || startsNewline rest || startsWith ['#'] rest

def line? (d : Draft) (t : Text) : Option (Draft × Text) :=
  match key? t with
  | none => none
  | some (key, rest) =>
    match afterEquals? rest with
    | none => none
    | some value => (d.assign? key value).filter fun (_, rest) => endsLine rest

theorem length_line? {d e : Draft} {t rest : Text} (found : d.line? t = some (e, rest)) :
    rest.length < t.length := by
  unfold line? at found
  split at found
  · simp at found
  · rename_i key tail name
    split at found
    · simp at found
    · rename_i value equals
      have first := length_key? name
      have second := length_afterEquals? equals
      have third := length_assign? (Option.eq_some_of_filter_eq_some found)
      omega

def read? (d : Draft) (t : Text) : Option Draft :=
  match _start : skip t with
  | [] => some d
  | c :: tail =>
    match _found : d.line? (c :: tail) with
    | none => none
    | some (next, rest) => read? next rest
termination_by t.length
decreasing_by
  have whole := length_skip t
  have line := length_line? _found
  rw [_start] at whole
  omega

end Draft

/-- Reads a settings file. A byte order mark in front is passed over. -/
def read (t : Text) : Except Problem Settings :=
  match Draft.empty.read? ((afterStart? ['\ufeff'] t).getD t) with
  | none => .error .malformed
  | some draft =>
    let size := draft.indentSize.getD standard.indentSize
    if isWidth size then
      .ok ⟨size, draft.useTabs.getD standard.useTabs,
        draft.extraModifiers.getD standard.extraModifiers⟩
    else
      .error (.indentSize size)

end ApexTidy.Settings
