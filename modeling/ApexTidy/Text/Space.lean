import ApexTidy.Text.Basic

/-!
Blank characters, trimming, and the two ways a text is taken apart at blanks: into words, and into
the lines of a paragraph.
-/

namespace ApexTidy.Text

/-- The characters with the White_Space property. -/
def spaces : List Char :=
  ['\t', '\n', '\x0b', '\x0c', '\r', ' ', '\u0085', '\u00a0', '\u1680', '\u2000', '\u2001', '\u2002',
    '\u2003', '\u2004', '\u2005', '\u2006', '\u2007', '\u2008', '\u2009', '\u200a', '\u2028', '\u2029',
    '\u202f', '\u205f', '\u3000']

def isSpace (c : Char) : Bool := spaces.contains c

theorem isSpace_iff {c : Char} : isSpace c = true ↔ c ∈ spaces := List.contains_iff_mem

def isBlank (t : Text) : Bool := t.all isSpace

def trimStart (t : Text) : Text := t.dropWhile isSpace

def trimEnd (t : Text) : Text := (t.reverse.dropWhile isSpace).reverse

def trim (t : Text) : Text := trimEnd (trimStart t)

def leadingSpace (t : Text) : Text := t.takeWhile isSpace

def trailingSpace (t : Text) : Text := (t.reverse.takeWhile isSpace).reverse

theorem leadingSpace_append_trimStart (t : Text) : leadingSpace t ++ trimStart t = t :=
  List.takeWhile_append_dropWhile

theorem trimEnd_append_trailingSpace (t : Text) : trimEnd t ++ trailingSpace t = t := by
  unfold trimEnd trailingSpace
  rw [← List.reverse_append, List.takeWhile_append_dropWhile, List.reverse_reverse]

def words (t : Text) : List Text := (t.splitOnP isSpace).filter (!·.isEmpty)

def normalize (t : Text) : Text := [' '].intercalate (words t)

def lastWord? (t : Text) : Option (Text × Text) :=
  (words t).getLast?.map fun last => ([' '].intercalate (words t).dropLast, last)

def withoutReturn (t : Text) : Text := (beforeEnd? ['\r'] t).getD t

/-- The lines of a paragraph: each line feed ends one and takes a carriage return before it along.
What follows the last line feed is a line only if there is something. -/
def paragraph (t : Text) : List Text :=
  let chunks := t.splitOn '\n'
  chunks.dropLast.map withoutReturn ++ chunks.getLast?.toList.filter (!·.isEmpty)

end ApexTidy.Text
