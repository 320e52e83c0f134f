import ApexTidy.Text.Basic

/-!
Paths as they are written, and the steps they take. Two paths that take the same steps are the same
path, whatever slashes they are written with; a current folder counts as a step only at the start.
-/

namespace ApexTidy

inductive PathStep where
  | root
  | current
  | parent
  | name (n : Text)
deriving DecidableEq, Repr

namespace PathStep

def ofPiece (piece : Text) : PathStep :=
  if piece = [] ∨ piece = ['.'] then current
  else if piece = ['.', '.'] then parent
  else name piece

def toText : PathStep → Text
  | root => ['/']
  | current => ['.']
  | parent => ['.', '.']
  | name n => n

def isName : PathStep → Bool
  | name _ => true
  | _ => false

def rank : PathStep → Nat
  | root => 0
  | current => 1
  | parent => 2
  | name _ => 3

/-- Names come last, in the order of their characters. -/
def precedes : PathStep → PathStep → Bool
  | name a, name b => a < b
  | a, b => a.rank < b.rank

end PathStep

namespace Path

open Text

/-- Every step of a path, those that lead nowhere included. The empty path takes none. -/
def steps (path : Text) : List PathStep :=
  match path.splitOn '/' with
  | [] => []
  | [[]] => []
  | [] :: rest => .root :: rest.map .ofPiece
  | first :: rest => (first :: rest).map .ofPiece

def canonical (path : Text) : List PathStep :=
  match steps path with
  | [] => []
  | first :: rest => first :: rest.filter (· ≠ .current)

def stepsAtOrBefore : List PathStep → List PathStep → Bool
  | [], _ => true
  | _ :: _, [] => false
  | a :: as, b :: bs => if a = b then stepsAtOrBefore as bs else a.precedes b

def atOrBefore (p q : Text) : Bool := stepsAtOrBefore (canonical p) (canonical q)

/-- Drops all but the first of neighbours that are the same path. -/
def dropRepeats : List Text → List Text
  | [] => []
  | [p] => [p]
  | p :: q :: rest =>
    if canonical p = canonical q then dropRepeats (p :: rest) else p :: dropRepeats (q :: rest)
termination_by paths => paths.length

def sorted (paths : List Text) : List Text := dropRepeats (paths.mergeSort atOrBefore)

def join (folder name : Text) : Text :=
  if folder = [] ∨ endsWith ['/'] folder then folder ++ name else folder ++ '/' :: name

/-- What follows the last dot of a name, unless the name starts with that dot. -/
def extension? (name : Text) : Option Text :=
  match breakAtLast? ['.'] name with
  | some (stem, extension) => if stem = [] then none else some extension
  | none => none

end Path

end ApexTidy
