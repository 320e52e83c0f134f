import ApexTidy.Comment.Style
import ApexTidy.Comment.Tags
import ApexTidy.Declaration.Basic

/-!
The content of a documentation block and the lines it is written in. A block is always written anew:
the description and the date survive from the block it replaces, the rest comes from the declaration.
-/

namespace ApexTidy

structure MethodTags where
  parameters : Parameters
  date : Text
  returnType : Text
deriving DecidableEq

structure DocComment where
  indent : Text
  description : Option Text
  method : Option MethodTags
deriving DecidableEq

namespace DocComment

open Text

/-- The content for a declaration in place of a block that said `previous`. A description that is blank
or only the placeholder is none, and a blank date is replaced by `today`. -/
def merge (declaration : Declaration) (previous : Option Tags) (indent today : Text) :
    Option DocComment :=
  let description := (previous.map (trim ·.description)).filter
    fun d => !d.isEmpty && d != Style.placeholder
  match declaration with
  | .unrecognized => none
  | .ofClass => some ⟨indent, description, none⟩
  | .method signature =>
    let date := ((previous.map (trim ·.date)).filter (!·.isEmpty)).getD today
    some ⟨indent, description, some ⟨signature.parameters, date, signature.returnType⟩⟩

def descriptionLines (c : DocComment) (style : Style) : List Text :=
  match c.description with
  | some description => (paragraph description).map style.escape
  | none => [style.missing]

/-- The lines of a block that hold the description; the first one has the tag. -/
def tagged : List Text → List Text
  | [] => []
  | first :: rest => (" * @description ".toList ++ first) :: rest.map (" * ".toList ++ ·)

def methodLines (m : MethodTags) (escape : Text → Text) : List Text :=
  m.parameters.toList.map (fun p =>
      " * @param ".toList ++ escape p.name ++ ' ' :: escape p.type)
    ++ [" * @Date ".toList ++ escape m.date, " * @return ".toList ++ escape m.returnType]

def lines (c : DocComment) (style : Style) : List Text :=
  let methodPart := match c.method with
    | some m => methodLines m style.escape
    | none => []
  (["/**".toList] ++ tagged (c.descriptionLines style) ++ [" *".toList] ++ methodPart
    ++ [" */".toList]).map (c.indent ++ ·)

def toText (ending : Text) (lines : List Text) : Text := lines.flatMap (· ++ ending)

end DocComment

end ApexTidy
