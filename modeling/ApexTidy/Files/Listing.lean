import ApexTidy.Files.Path
import ApexTidy.Files.Pattern

/-!
Which files there are, and which of them an operand of the command line names: a file as such, a folder
for the source files in it, and any other text as a pattern.
-/

namespace ApexTidy

/-- Where a path leads, step by step from the working folder. -/
abbrev Place := List PathStep

namespace Place

def move (place : Place) : PathStep → Place
  | .root => [.root]
  | .current => place
  | .name n => place ++ [.name n]
  | .parent =>
    match place.getLast? with
    | some (.name _) => place.dropLast
    | some .root => place
    | _ => place ++ [.parent]

/-- The place of a path if every folder on the way is there. -/
def ofPath (path : Text) : Place := (Path.steps path).foldl move []

def toPath (place : Place) : Text := (place.map PathStep.toText).foldl Path.join []

end Place

/-- The files and folders that are known. Every folder on the way to one of them is there too. -/
structure Listing where
  files : List Place
  folders : List Place
  /-- Folders that are there but do not tell what is in them. -/
  closed : List Place

namespace Listing

def isFile (l : Listing) (place : Place) : Bool := l.files.contains place

/-- A folder is a place that others are below. The working folder and those above it always are. -/
def isFolder (l : Listing) (place : Place) : Bool :=
  !place.any PathStep.isName || l.folders.contains place
    || (l.files ++ l.folders).any fun other => place.isPrefixOf other && place != other

def walk? (l : Listing) : Place → List PathStep → Option Place
  | place, [] => some place
  | place, step :: rest => if l.isFolder place then walk? l (place.move step) rest else none

/-- Where a path leads. The empty path leads nowhere. -/
def place? (l : Listing) (path : Text) : Option Place :=
  match Path.steps path with
  | [] => none
  | steps => l.walk? [] steps

def hasFile (l : Listing) (path : Text) : Bool := (l.place? path).any l.isFile

def hasFolder (l : Listing) (path : Text) : Bool := (l.place? path).any l.isFolder

def hasOpenFolder (l : Listing) (path : Text) : Bool :=
  (l.place? path).any fun place => l.isFolder place && !l.closed.contains place

def names : List PathStep → List Text
  | [] => []
  | .name n :: rest => n :: names rest
  | _ :: rest => names rest

def beginnings {α : Type} : List α → List (List α)
  | [] => []
  | a :: rest => [a] :: (beginnings rest).map (a :: ·)

/-- No folder is closed on the way down some names. -/
def leadsDown (l : Listing) : Place → List Text → Bool
  | _, [] => true
  | place, name :: rest => !l.closed.contains place && leadsDown l (place.move (.name name)) rest

def below (l : Listing) (folder : Text) : List (List Text) :=
  match l.place? folder with
  | none => []
  | some place =>
    let inside := (l.files ++ l.folders).filter place.isPrefixOf
    let ways := inside.flatMap fun other => beginnings (names (other.drop place.length))
    ways.eraseDups.filter (l.leadsDown place)

/-- A path from a folder down some names. The working folder itself is not written. -/
def spell (folder : Text) (names : List Text) : Text :=
  names.foldl Path.join (if Path.canonical folder = [.current] then [] else folder)

/-- What a piece of a pattern stands for in a folder. A piece without wildcards is looked up, others are
compared with what the folder holds; the folder itself and the one above it only match what starts with
a dot. -/
def matching (l : Listing) (piece : PatternPiece) (folder : Text) : List Text :=
  let covered := (l.below folder).filter fun names =>
    (piece.deep || names.length == 1) && names.getLast?.any (Wildcard.covers piece.wildcards)
  let found := covered.map (spell folder)
  if piece.deep then found
  else
    match Wildcard.literal? piece.wildcards with
    | some name =>
      let path := spell folder [name]
      if name = ['.'] ∨ name = ['.', '.'] then if l.hasFolder folder then [path] else []
      else if l.hasFile path || l.hasFolder path then [path] else []
    | none =>
      let dots := if piece.wildcards.head? = some (.char '.') then [['.'], ['.', '.']] else []
      if l.hasOpenFolder folder then
        found ++ (dots.filter (Wildcard.covers piece.wildcards)).map (Path.join folder)
      else
        []

def search (l : Listing) : List PatternPiece → Text → List Text
  | [], path => [path]
  | piece :: rest, folder => (l.matching piece folder).flatMap (search l rest)

def filesMatching (l : Listing) (pattern : PathPattern) : List Text :=
  if pattern.foldersOnly then []
  else (l.search pattern.pieces (if pattern.absolute then ['/'] else ['.'])).filter l.hasFile

def sourceExtensions : List Text := ["cls".toList, "trigger".toList, "apex".toList]

def sourceFiles (l : Listing) (folder : Text) : List Text :=
  let candidates := (l.below folder).filterMap fun names =>
    match names with
    | [name] => if (Path.extension? name).any sourceExtensions.contains then some name else none
    | _ => none
  (candidates.map (Path.join folder)).filter l.hasFile

inductive Problem where
  | badPattern (operand : Text)
  | closedFolder (operand : Text)
deriving DecidableEq, Repr

inductive Expansion where
  | files (paths : List Text)
  | unmatched
  | refused (problem : Problem)
deriving DecidableEq, Repr

def expand (l : Listing) (operand : Text) : Expansion :=
  if l.hasFile operand then .files [operand]
  else if l.hasFolder operand then
    if l.hasOpenFolder operand then .files (l.sourceFiles operand) else .refused (.closedFolder operand)
  else
    match PathPattern.read? operand with
    | none => .refused (.badPattern operand)
    | some pattern =>
      match l.filesMatching pattern with
      | [] => .unmatched
      | paths => .files paths

/-- The operands that match nothing, and the files that the operands name, or the first problem. Operands
after a problem are not looked at. -/
def expandAll (l : Listing) : List Text → List Text × Except Problem (List Text)
  | [] => ([], .ok [])
  | operand :: rest =>
    match l.expand operand with
    | .refused problem => ([], .error problem)
    | .unmatched =>
      let (unmatched, files) := expandAll l rest
      (operand :: unmatched, files)
    | .files paths =>
      let (unmatched, files) := expandAll l rest
      (unmatched, files.map (paths ++ ·))

end Listing

end ApexTidy
