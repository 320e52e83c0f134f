import ApexTidy.Text.Basic

/-!
How a block is written: as plain text, or as a snippet in which an editor lets the missing description
be filled in. In a snippet the characters that mean something to the editor are escaped.
-/

namespace ApexTidy

inductive Style where
  | text
  | snippet
deriving DecidableEq, Repr

namespace Style

def placeholder : Text := "add your description here".toList

def name : Style → Text
  | text => "text".toList
  | snippet => "snippet".toList

def ofName? (name : Text) : Option Style :=
  if name = "text".toList ∨ name = "plain".toList then some text
  else if name = "snippet".toList then some snippet
  else none

def unknown (name : Text) : Text :=
  "unknown style: ".toList ++ name ++ ". Use text or snippet".toList

def isSpecial (c : Char) : Bool := c == '$' || c == '}' || c == '\\'

def escapeSnippet : Text → Text
  | [] => []
  | c :: t => if isSpecial c then '\\' :: c :: escapeSnippet t else c :: escapeSnippet t

def escape : Style → Text → Text
  | text => id
  | snippet => escapeSnippet

/-- The placeholder as the style shows it; a snippet makes it the first stop. -/
def missing : Style → Text
  | text => placeholder
  | snippet => "$\x7b1:".toList ++ placeholder ++ ['}']

end Style

end ApexTidy
