import ApexTidy.Text.Space

/-!
How deep a line stands. The machine reads one trimmed line after the other and keeps two things: how
many blocks are open, and whether a comment of several lines is. It does not balance braces: a line
closes a block if it starts with a closing brace, and opens one if its code ends with an opening brace.
-/

namespace ApexTidy

structure IndentState where
  depth : Int
  inComment : Bool
deriving DecidableEq, Repr

namespace IndentState

open Text

def initial : IndentState := ⟨0, false⟩

def commentOpen : Text := ['/', '*']

def commentClose : Text := ['*', '/']

def lineMark : Text := ['/', '/']

def opensComment (line : Text) : Bool :=
  match afterStart? commentOpen line with
  | some rest => !occursIn commentClose rest
  | none => false

/-- The line without a comment that runs to its end. The mark counts only if no opening brace follows
it, or if it is the first thing on the line: before the first brace it may stand inside a string. -/
def code (line : Text) : Text :=
  match breakAt? lineMark line with
  | none => line
  | some (head, comment) =>
    if head ≠ [] ∧ '{' ∉ head ∧ '{' ∈ comment then line else head

def closesBlock (line : Text) : Bool := startsWith ['}'] line

def opensBlock (line : Text) : Bool := endsWith ['{'] (trimEnd (code line))

/-- What a line turns into, and the state that the next line meets. -/
structure Step where
  depth : Int
  /-- The line belongs to a comment of several lines, be it the first or the last of them. -/
  inComment : Bool
  content : Text
  next : IndentState
deriving DecidableEq, Repr

/-- Reads one trimmed line that is not blank. A line of a comment that starts with an asterisk is set
one space in, so that the asterisks of a comment stand below each other. -/
def step (s : IndentState) (line : Text) : Step :=
  if s.inComment then
    { depth := s.depth
      inComment := true
      content := if startsWith ['*'] line then ' ' :: line else line
      next := ⟨s.depth, !endsWith commentClose line⟩ }
  else if opensComment line then
    { depth := s.depth, inComment := true, content := line, next := ⟨s.depth, true⟩ }
  else
    let depth := if closesBlock line then s.depth - 1 else s.depth
    { depth := depth
      inComment := false
      content := line
      next := ⟨if opensBlock line then depth + 1 else depth, false⟩ }

def run : IndentState → List Text → List Step
  | _, [] => []
  | s, line :: rest =>
    let first := s.step line
    first :: run first.next rest

end IndentState

end ApexTidy
