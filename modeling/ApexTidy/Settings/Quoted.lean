import ApexTidy.Text.Number

/-!
Quoted text as a settings file writes it, in four forms: between double quotes, where a backslash
starts an escape, or between single quotes, where nothing does; and either on one line or, between
quotes written three times, on several.
-/

namespace ApexTidy.Settings

open Text

structure Quoting where
  mark : Char
  escapes : Bool
  /-- The text may run over several lines. -/
  long : Bool

def isPlain (c : Char) : Bool := c == '\t' || ' ' ≤ c && c != '\x7f'

def isGap (c : Char) : Bool := c == ' ' || c == '\t'

def scalar? (digits : Text) : Option Char :=
  match readDigits? 16 digits with
  | some n => if n.isValidChar then some (Char.ofNat n) else none
  | none => none

def escaped? : Char → Option Char
  | 'b' => some '\x08'
  | 't' => some '\t'
  | 'n' => some '\n'
  | 'f' => some '\x0c'
  | 'r' => some '\r'
  | '"' => some '"'
  | '\\' => some '\\'
  | _ => none

def startsNewline : Text → Bool
  | '\n' :: _ => true
  | '\r' :: '\n' :: _ => true
  | _ => false

/-- Up to two marks right before the closing three belong to the text. -/
def afterThree (mark : Char) (t : Text) : Text × Text :=
  let extra := (t.take 2).takeWhile (· == mark)
  (extra, t.drop extra.length)

def prepend (c : Option Char) (read : Option (Text × Text)) : Option (Text × Text) :=
  match c, read with
  | some c, some (s, rest) => some (c :: s, rest)
  | _, _ => none

theorem exists_of_prepend {c : Option Char} {read : Option (Text × Text)} {s rest : Text}
    (found : prepend c read = some (s, rest)) : ∃ tail, read = some (tail, rest) := by
  unfold prepend at found
  split at found
  · cases found
    exact ⟨_, rfl⟩
  · simp at found

namespace Quoting

/-- Reads up to the closing mark. A backslash at the end of a line joins it with what follows: the
flag tells that blanks and line ends are being passed over on its account. -/
def read (q : Quoting) : Bool → Text → Option (Text × Text)
  | _, [] => none
  | joining, c :: t =>
    if joining && (isGap c || c == '\n') then read q true t
    else if q.long && c == '\r' && t.head? == some '\n' then read q joining t
    else if c == q.mark then
      if !q.long then some ([], t)
      else if startsWith [q.mark, q.mark] t then some (afterThree q.mark (t.drop 2))
      else prepend (some c) (read q false t)
    else if q.escapes && c == '\\' then
      if q.long && startsNewline (t.dropWhile isGap) then read q true t
      else
        match t with
        | 'u' :: d₁ :: d₂ :: d₃ :: d₄ :: t => prepend (scalar? [d₁, d₂, d₃, d₄]) (read q false t)
        | 'U' :: d₁ :: d₂ :: d₃ :: d₄ :: d₅ :: d₆ :: d₇ :: d₈ :: t =>
          prepend (scalar? [d₁, d₂, d₃, d₄, d₅, d₆, d₇, d₈]) (read q false t)
        | e :: t => prepend (escaped? e) (read q false t)
        | [] => none
    else if isPlain c || q.long && c == '\n' then prepend (some c) (read q false t)
    else none

theorem length_read {q : Quoting} {joining : Bool} {t s rest : Text}
    (found : q.read joining t = some (s, rest)) : rest.length < t.length := by
  fun_induction read q joining t generalizing s rest <;> try simp only [List.length_cons]
  all_goals grind [afterThree, exists_of_prepend]

end Quoting

/-- A line end right after the opening marks does not count. -/
def dropNewline : Text → Text
  | '\n' :: t => t
  | '\r' :: '\n' :: t => t
  | t => t

theorem length_dropNewline (t : Text) : (dropNewline t).length ≤ t.length := by
  unfold dropNewline
  split <;> simp
  omega

def shortText? : Text → Option (Text × Text)
  | '"' :: t => Quoting.read ⟨'"', true, false⟩ false t
  | '\'' :: t => Quoting.read ⟨'\'', false, false⟩ false t
  | _ => none

def anyText? : Text → Option (Text × Text)
  | '"' :: '"' :: '"' :: t => Quoting.read ⟨'"', true, true⟩ false (dropNewline t)
  | '\'' :: '\'' :: '\'' :: t => Quoting.read ⟨'\'', false, true⟩ false (dropNewline t)
  | t => shortText? t

theorem length_shortText? {t s rest : Text} (found : shortText? t = some (s, rest)) :
    rest.length < t.length := by
  unfold shortText? at found
  split at found
  · exact Nat.lt_succ_of_lt (Quoting.length_read found)
  · exact Nat.lt_succ_of_lt (Quoting.length_read found)
  · simp at found

theorem length_anyText? {t s rest : Text} (found : anyText? t = some (s, rest)) :
    rest.length < t.length := by
  unfold anyText? at found
  split at found
  · have read := Quoting.length_read found
    rename_i t
    have dropped := length_dropNewline t
    simp only [List.length_cons]
    omega
  · have read := Quoting.length_read found
    rename_i t
    have dropped := length_dropNewline t
    simp only [List.length_cons]
    omega
  · exact length_shortText? found

end ApexTidy.Settings
