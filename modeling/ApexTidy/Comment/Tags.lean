import ApexTidy.Text.Fold
import ApexTidy.Text.Space
import ApexTidy.Text.Word

/-!
What a person wrote into a documentation block: the description and the date. The description runs
from its tag to the next tag, the next empty line or the end of the block, and keeps its lines.
-/

namespace ApexTidy

structure Tags where
  description : Text
  date : Text
deriving DecidableEq, Repr

namespace Tags

open Text

def blockOpen : Text := ['/', '*', '*']

def blockClose : Text := ['*', '/']

def descriptionTag : Text := "@description".toList

def dateTag : Text := "@date".toList

def lineContent (line : Text) : Text :=
  let line := trim line
  trim ((afterStart? ['*'] line).getD line)

def afterTag? (tag line : Text) : Option Text :=
  match splitFolded? tag line with
  | some (_, rest) => if rest.head?.any isWord then none else some (trim rest)
  | none => none

def isTagLine : Text → Bool
  | '@' :: c :: _ => isWord c
  | _ => false

structure Reading where
  description : List Text
  date : Text
  /-- The next line can go on with the description. -/
  inDescription : Bool
deriving DecidableEq, Repr

namespace Reading

def initial : Reading := ⟨[], [], false⟩

/-- Reads one line. A second description takes the place of the first. -/
def step (r : Reading) (line : Text) : Reading :=
  match afterTag? descriptionTag line, afterTag? dateTag line with
  | some first, _ =>
    { r with description := if first = [] then [] else [first], inDescription := true }
  | none, some date => { r with date := date, inDescription := false }
  | none, none =>
    if isTagLine line || line.isEmpty && !r.description.isEmpty then
      { r with inDescription := false }
    else if r.inDescription && !line.isEmpty then
      { r with description := r.description ++ [line] }
    else
      r

end Reading

/-- The text between the marks of a block. A missing mark is not missed. -/
def body (block : Text) : Text :=
  let opened := (afterStart? blockOpen block).getD block
  (beforeEnd? blockClose opened).getD opened

/-- Reads the description and the date of a block; what is missing is empty. -/
def read (block : Text) : Tags :=
  let reading := ((paragraph (body block)).map lineContent).foldl Reading.step .initial
  ⟨['\n'].intercalate reading.description, reading.date⟩

end Tags

end ApexTidy
