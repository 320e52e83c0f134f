import ApexTidy.Declaration.Signature

/-!
What a piece of source declares. Only its header counts, the text before the first brace once comments
above it are passed over: a header that says `class` is one of a class, and one that reads as a method
header and has a body is one of a method.
-/

namespace ApexTidy

inductive Declaration where
  | unrecognized
  | ofClass
  | method (signature : Signature)
deriving DecidableEq

namespace Declaration

open Text

/-- Passes over blanks and comments that run to the end of their line. The flag tells whether such a
comment is being passed over. -/
def skipFrom : Bool → Text → Text
  | _, [] => []
  | true, c :: t => skipFrom (c != '\n') t
  | false, c :: t =>
    if isSpace c then skipFrom false t
    else if startsWith ['/', '/'] (c :: t) then skipFrom true t
    else c :: t

def skipLineComments (t : Text) : Text := skipFrom false t

def header (t : Text) : Text := t.takeWhile (· != '{')

/-- Some word of the header is `class`, in any case. -/
def saysClass (t : Text) : Bool := (words t).any (sameFolded "class".toList)

end Declaration

open Declaration in
def Modifiers.classify (m : Modifiers) (t : Text) : Declaration :=
  let t := Text.trim (skipLineComments t)
  if saysClass (header t) then .ofClass
  else if '{' ∈ t ∧ '(' ∈ header t then
    match m.signature? (header t) with
    | some signature => .method signature
    | none => .unrecognized
  else
    .unrecognized

end ApexTidy
