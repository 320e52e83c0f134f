import ApexTidy.Source.Fault
import ApexTidy.Text.Space

/-!
The lines of a document. A line feed ends a line, and a carriage return before it belongs to the
ending, so that the lines of a document and their endings are the document, and replacing what a line
holds leaves its ending as it was.
-/

namespace ApexTidy

structure Line where
  index : Nat
  start : Nat
  raw : Text
  /-- What stands between this line and the next one. -/
  ending : Text
deriving DecidableEq, Repr

namespace Line

open Text

def stop (l : Line) : Nat := l.start + size l.raw

def whole (l : Line) : Text := l.raw ++ l.ending

def trimmed (l : Line) : Text := trim l.raw

def isBlank (l : Line) : Bool := Text.isBlank l.raw

def indentation (l : Line) : Text := leadingSpace l.raw

def returnOf (t : Text) : Text := if endsWith ['\r'] t then ['\r'] else []

theorem withoutReturn_append_returnOf (t : Text) : withoutReturn t ++ returnOf t = t := by
  unfold withoutReturn returnOf endsWith
  cases found : beforeEnd? ['\r'] t with
  | none => simp
  | some rest => simpa using (beforeEnd?_eq_some_iff.1 found).symm

def ofPieces (index start : Nat) : List Text → List Line
  | [] => []
  | [piece] => [⟨index, start, withoutReturn piece, returnOf piece⟩]
  | piece :: next :: rest =>
    ⟨index, start, withoutReturn piece, returnOf piece ++ ['\n']⟩
      :: ofPieces (index + 1) (start + size piece + 1) (next :: rest)

/-- The last of `line :: rest` that starts at or before an offset, or `line` itself. -/
def lastStarting (line : Line) : List Line → Nat → Line
  | [], _ => line
  | next :: rest, offset => if next.start ≤ offset then lastStarting next rest offset else line

/-- What stands before a position. A column may be the length of its line; the line after the last
one has a single position, the end of the text. -/
def before? : List Line → Position → Option Text
  | [], ⟨line, column⟩ => if line = 0 ∧ column = 0 then some [] else none
  | l :: _, ⟨0, column⟩ => if column ≤ l.raw.length then some (l.raw.take column) else none
  | l :: rest, ⟨line + 1, column⟩ => (before? rest ⟨line, column⟩).map (l.whole ++ ·)

end Line

namespace Text

def lines (t : Text) : List Line := Line.ofPieces 0 0 (t.splitOn '\n')

def lineAt (t : Text) (offset : Nat) : Line :=
  match lines t with
  | [] => ⟨0, 0, [], []⟩
  | first :: rest => first.lastStarting rest offset

def before (t : Text) (p : Position) : Except Fault Text :=
  match Line.before? (lines t) p with
  | some head => .ok head
  | none => .error (.noSuchPosition p)

def offset (t : Text) (p : Position) : Except Fault Nat := (before t p).map size

/-- The position of an offset. Offsets past the end stand for the end, and those inside a line ending
for the end of the line; there is no position inside a character. -/
def position? (t : Text) (offset : Nat) : Option Position :=
  let place := min offset (size t)
  let line := lineAt t place
  (splitAt? line.raw (min (place - line.start) (size line.raw))).map fun (head, _) =>
    ⟨line.index, head.length⟩

end Text

end ApexTidy
