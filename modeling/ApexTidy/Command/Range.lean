import ApexTidy.Command.Arguments
import ApexTidy.Command.Failure
import ApexTidy.Source.Position
import ApexTidy.Text.Space

/-!
The selection that a command line names, either by its first and last line or as two positions with a
hyphen between. Lines and columns are counted from one.
-/

namespace ApexTidy.Command

open Text

def lineSelection (first last : Nat) : Except Failure Selection :=
  if first = 0 ∨ last = 0 then .error .lineZero
  else if last < first then .error (.linesReversed first last)
  else .ok (.ofLines (first - 1) (last - 1))

def readPosition (written : Text) : Except Failure Position :=
  match breakAt? [':'] (trim written) with
  | none => .error (.badPosition written)
  | some (line, column) =>
    match readCount? line, readCount? column with
    | none, _ => .error (.badLine line)
    | some _, none => .error (.badColumn column)
    | some line, some column =>
      if line = 0 ∨ column = 0 then .error (.positionZero written)
      else .ok ⟨line - 1, column - 1⟩

def readSelection (written : Text) : Except Failure Selection :=
  match breakAt? ['-'] written with
  | none => .error (.badSelection written)
  | some (start, stop) => do return .between (← readPosition start) (← readPosition stop)

def Target.selection : Target → Except Failure Selection
  | .lines first last => lineSelection first (last.getD first)
  | .range written => readSelection written

end ApexTidy.Command
