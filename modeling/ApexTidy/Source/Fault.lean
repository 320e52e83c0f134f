import ApexTidy.Source.Position
import ApexTidy.Text.Number

/-!
The reasons for which a request on a document is refused, and their wording.
-/

namespace ApexTidy

inductive Fault where
  /-- The edit ends past the last of `size` bytes. -/
  | outOfBounds (start stop size : Nat)
  | splitsCharacter (start stop : Nat)
  | inverted (start stop : Nat)
  /-- The edit that starts here starts before the end of the one before it. -/
  | overlapping (start : Nat)
  | noSuchPosition (position : Position)
deriving DecidableEq, Repr

namespace Fault

open Text

def range (start stop : Nat) : Text :=
  decimal start ++ "..".toList ++ decimal stop

def message : Fault → Text
  | outOfBounds start stop size =>
    "edit ".toList ++ range start stop ++ " is out of bounds for a document of ".toList
      ++ decimal size ++ " bytes".toList
  | splitsCharacter start stop =>
    "edit ".toList ++ range start stop ++ " does not fall on a character boundary".toList
  | inverted start stop => "edit ".toList ++ range start stop ++ " is inverted".toList
  | overlapping start => "edits overlap at byte ".toList ++ decimal start
  | noSuchPosition position =>
    "position ".toList ++ decimal position.line ++ ":".toList ++ decimal position.column
      ++ " lies outside the document".toList

end Fault

end ApexTidy
