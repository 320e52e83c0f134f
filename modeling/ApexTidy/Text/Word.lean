import ApexTidy.Text.WordRanges
import ApexTidy.Text.Basic

/-!
Word characters and identifiers. Word characters are what a whole-word search must not cut through;
alphanumeric characters are the letters and the numbers. The two classes differ past ASCII: a
combining mark belongs to a word without being alphanumeric, a fraction is alphanumeric without
belonging to a word. Words are those of Unicode 16, letters and numbers those of Unicode 17.
-/

namespace ApexTidy.Text

def inRanges (ranges : List (Nat × Nat)) (n : Nat) : Bool :=
  ranges.any fun (low, high) => low ≤ n && n ≤ high

def isLetterOrDigit (c : Char) : Bool :=
  c.isAlphanum || (127 < c.toNat && inRanges alphabeticRanges c.toNat)

def isWord (c : Char) : Bool :=
  isLetterOrDigit c || c == '_' || (127 < c.toNat && inRanges joiningRanges c.toNat)

def isAlphanumeric (c : Char) : Bool :=
  isLetterOrDigit c
    || (127 < c.toNat && inRanges (otherNumberRanges ++ newerAlphanumericRanges) c.toNat)

/-- An ASCII letter or underscore, then word characters. -/
def isIdentifier : Text → Bool
  | [] => false
  | c :: t => (c.isAlpha || c == '_') && t.all isWord

/-- Whether one of the two characters at a place belongs to a word and the other does not; the ends
of a text count as no word. -/
def isWordBoundary (left right : Option Char) : Bool :=
  left.any isWord != right.any isWord

end ApexTidy.Text
