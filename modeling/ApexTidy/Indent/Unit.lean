import ApexTidy.Text.Basic

/-!
One level of indentation.
-/

namespace ApexTidy

inductive IndentUnit where
  | spaces (width : Nat)
  | tab
deriving DecidableEq, Repr

namespace IndentUnit

/-- The widest level that is written; wider ones are written as this one. -/
def maxWidth : Nat := 16

def standard : IndentUnit := spaces 4

def level : IndentUnit → Text
  | spaces width => List.replicate (min width maxWidth) ' '
  | tab => ['\t']

/-- The blanks that `depth` levels take; there are none below depth zero. -/
def render (unit : IndentUnit) (depth : Int) : Text :=
  (List.replicate depth.toNat unit.level).flatten

end IndentUnit

end ApexTidy
