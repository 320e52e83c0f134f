import ApexTidy.Edit.Document
import ApexTidy.Indent.Machine
import ApexTidy.Indent.Unit
import ApexTidy.Source.Line

/-!
Laying out a document: every line that is not blank is set to the depth the machine gives it. Blank
lines stay as they are and mean nothing to the machine.
-/

namespace ApexTidy

/-- A line that is not blank, with what the machine says of it. -/
structure AnnotatedLine where
  line : Line
  depth : Int
  inComment : Bool
  content : Text
deriving DecidableEq, Repr

namespace AnnotatedLine

def render (a : AnnotatedLine) (unit : IndentUnit) : Text := unit.render a.depth ++ a.content

def edit? (a : AnnotatedLine) (unit : IndentUnit) : Option Edit :=
  let rendered := a.render unit
  if rendered = a.line.raw then none else some ⟨a.line.start, a.line.stop, rendered⟩

end AnnotatedLine

def IndentState.annotate : IndentState → List Line → List AnnotatedLine
  | _, [] => []
  | s, line :: rest =>
    if line.isBlank then annotate s rest
    else
      let first := s.step line.trimmed
      ⟨line, first.depth, first.inComment, first.content⟩ :: annotate first.next rest

namespace Text

def annotate (t : Text) : List AnnotatedLine := IndentState.initial.annotate t.lines

def layoutEdits (t : Text) (unit : IndentUnit) : List Edit :=
  (annotate t).filterMap (·.edit? unit)

/-- The text laid out; a text that its own edits do not fit would stay as it is. -/
def layout (t : Text) (unit : IndentUnit) : Text :=
  match t.applyEdits (layoutEdits t unit) with
  | .ok laidOut => laidOut
  | .error _ => t

end Text

def Document.format (d : Document) (unit : IndentUnit) : Document.Reply Nat :=
  let edits := d.text.layoutEdits unit
  let reply := d.apply edits
  ⟨reply.result.map fun _ => edits.length, reply.document⟩

end ApexTidy
